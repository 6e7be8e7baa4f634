import Vsfs.Client.Removal
import Vsfs.Client.Update
import Vsfs.Indexd.Findable

/-!
# Work of clients

The calls that clients make to keep files, indices and their records, and to search them.
All clients know the same servers. An `update` is one of the tasks that a call is cut into,
so a call is several of them side by side.

What a search asks the masters for and returns is traced back to answers: it asks for the
path of an object id only after an index server has named the id, and returns a path only
after a master has.

## Main results

* `program_sends` : masters are asked about what their place on the ring is for, and indices
  are read at the transaction id zero.
* `search_guarantees` : where the ids and the paths of a search come from.
-/

namespace Vsfs.Client

open Std Program Prog Masterd Indexd Index FiniteMap Grouping VSFSRpcClient IndexUpdateTask

inductive Work where
  | create (path : Str) (mode uid gid : BitVec 64)
  | unlink (path : Str)
  | mkdir (path : Str) (mode uid gid : BitVec 64)
  | createIndex (root name : Str) (indexType keyType : BitVec 32) (mode uid gid : BitVec 64)
  | update (requests : List IndexUpdateRequest)
  | search (query : ComplexQuery)

namespace Work

variable [FsPath] [PathHash] [ConsistentHashMap]

/-- The program, with what a search has appended to `*results` when it returns. -/
def program (c : VSFSRpcClient) : Work → ClientM (List Str)
  | .create path mode uid gid => do
    let _ ← c.create path mode uid gid
    return []
  | .unlink path => do
    let _ ← c.unlink path
    return []
  | .mkdir path mode uid gid => do
    let _ ← c.mkdir path mode uid gid
    return []
  | .createIndex root name indexType keyType mode uid gid => do
    let _ ← c.createIndex root name indexType keyType mode uid gid
    return []
  | .update requests => do
    let _ ← run c requests
    return []
  | .search query => do return (← c.search query).2

end Work

section Calls

variable [FsPath] [PathHash] [ConsistentHashMap] (c : VSFSRpcClient)

omit [FsPath] [PathHash] in
/-- The ring of the masters leads from the key to the address. -/
def LeadsTo (key : HashValueType) (a : NodeAddress) : Prop :=
  ∃ node, (c.masterMap.get key).2 = some node ∧ node.address = a

omit [FsPath] in
/-- A file is made on the master of its path, the path of an object id is asked of the master
of the id, and an index is read at transaction zero. -/
def Sends : (α : Type) → Rpc α → Prop
  | _, .master a (.create path _ _ _) => LeadsTo c (PathHash.pathToHash path) a
  | _, .master a (.findFiles ids) => ∀ o ∈ ids, LeadsTo c o a
  | _, .index _ request => IndexServer.Current request
  | _, _ => True

omit [FsPath] in
theorem Sends.of_removal {α : Type} {rpc : Rpc α} (h : RemovalRpc α rpc) : Sends c α rpc := by
  cases rpc with
  | master a request => cases request <;> trivial
  | index a request => cases request <;> trivial

theorem create_sends (path : Str) (mode uid gid : BitVec 64) :
    (c.create path mode uid gid).Calls (Sends c) :=
  create_calls (fun node _ home => ⟨node, home, rfl⟩) (fun _ _ _ => trivial) fun _ => trivial

theorem removeIndex_sends (root name : Str) : (c.removeIndex root name).Calls (Sends c) :=
  (removeIndex_calls c root name).mono fun _ _ => Sends.of_removal c

theorem registerIndex_sends (request : IndexCreateRequest) :
    (c.registerIndex request).Calls (Sends c) :=
  registerIndex_calls (fun _ => trivial) (removeIndex_sends c _ _) (create_sends c _ _ _ _)
    (rmdir_calls (fun _ => trivial) fun _ _ _ => trivial)

theorem createIndex_sends (root name : Str) (indexType keyType : BitVec 32)
    (mode uid gid : BitVec 64) :
    (c.createIndex root name indexType keyType mode uid gid).Calls (Sends c) := by
  refine (getattrStat_calls fun _ => trivial).bind fun (status, stbuf) => ?_
  cases stbuf with
  | none => trivial
  | some stbuf =>
    dsimp only
    split
    · trivial
    · have rest := indexDirectory_calls { root, name, indexType, keyType, mode, uid, gid }
        (mkdir_calls (fun _ _ => trivial) (fun _ _ _ => trivial) fun _ => trivial)
        (removeIndex_sends c root name) (registerIndex_sends c _)
      refine (checkGet_calls _ _).bind fun node => ⟨trivial, fun b => ?_⟩
      cases b with
      | ok _ => exact rest
      | error e =>
        simp only [ret_bind]
        split
        · trivial
        · exact rest

omit [FsPath] [PathHash] [ConsistentHashMap] in
theorem stringToAddress_cases (addr : Str) :
    (∃ exit, stringToAddress addr = .throw exit) ∨ ∃ a, stringToAddress addr = .ret a := by
  unfold stringToAddress
  split
  · split
    · exact .inr ⟨_, rfl⟩
    · exact .inl ⟨_, rfl⟩
  · exact .inl ⟨_, rfl⟩

omit [FsPath] [PathHash] [ConsistentHashMap] in
theorem stringToAddress_calls {allowed : (β : Type) → Rpc β → Prop} (addr : Str) :
    (stringToAddress addr).Calls allowed := by
  rcases stringToAddress_cases addr with ⟨exit, thrown⟩ | ⟨a, read⟩
  · rw [thrown]
    trivial
  · rw [read]
    trivial

/-! ### Tasks of an update -/

section Tasks

variable {allowed : (β : Type) → Rpc β → Prop}

theorem findIndices_calls (reads : ∀ a path, allowed _ (.master a (.getattr path)))
    (indexMap : ParentPathToIndexPathMap) (names : List (Str × Str)) :
    (findIndices c indexMap names).Calls allowed := by
  induction names generalizing indexMap with
  | nil => trivial
  | cons e names ih =>
    obtain ⟨parent, indexName⟩ := e
    refine Calls.bind ⟨fun dir => ?_, fun _ => trivial⟩ fun (status, found) => ?_
    · refine (getattrStat_calls fun a => reads a _).bind fun (status, stbuf) => ?_
      dsimp only
      split
      · trivial
      · split
        · trivial
        · split <;> trivial
    · cases found with
      | none => trivial
      | some indexPath => exact ih _

omit [FsPath] [PathHash] [ConsistentHashMap] in
theorem findObjectsOn_calls (finds : ∀ a files, allowed _ (.master a (.findObjects files)))
    (paths : List Str) (objects : List ObjectId) (entries : List (Str × List Nat)) :
    (findObjectsOn paths objects entries).Calls allowed := by
  induction entries generalizing objects with
  | nil => trivial
  | cons e entries ih =>
    obtain ⟨addr, positions⟩ := e
    refine (stringToAddress_calls addr).bind fun address => ⟨finds _ _, fun b => ?_⟩
    cases b with
    | error e => trivial
    | ok tmpObjs =>
      simp only [ret_bind]
      split
      · trivial
      · exact ih _

omit [FsPath] [PathHash] [ConsistentHashMap] in
theorem updateOn_calls
    (updates : ∀ a lists, allowed _ (.index a (.update { updates := lists })))
    (requests : List IndexUpdateRequest) (objectIds : List ObjectId)
    (entries : List (Str × ExtTreeMap Str (List Nat))) :
    (updateOn requests objectIds entries).Calls allowed := by
  induction entries with
  | nil => trivial
  | cons e entries ih =>
    obtain ⟨addr, partitions⟩ := e
    refine (stringToAddress_calls addr).bind fun address => ⟨updates _ _, fun b => ?_⟩
    cases b with
    | error e => trivial
    | ok _ => exact ih

theorem reorderRequestsToIndexServers_calls (indexMap : ParentPathToIndexPathMap)
    (requests : List IndexUpdateRequest) :
    (reorderRequestsToIndexServers c indexMap requests).Calls allowed := by
  refine Calls.foldlM (fun requestMap (request, pos) => ?_) _ _
  refine Calls.bind ?_ fun indexPath => ?_
  · unfold indexOf
    split <;> trivial
  · refine (checkGet_calls _ _).bind fun node => ?_
    trivial

omit [FsPath] in
theorem findObjects_calls (finds : ∀ a files, allowed _ (.master a (.findObjects files)))
    (paths : List Str) : (c.findObjects paths).Calls allowed := by
  refine Calls.bind ?_ fun reordered => findObjectsOn_calls finds _ _ _
  refine Calls.foldlM (fun reordered (path, i) => ?_) _ _
  refine (checkGet_calls _ _).bind fun node => ?_
  trivial

theorem run_calls (reads : ∀ a path, allowed _ (.master a (.getattr path)))
    (finds : ∀ a files, allowed _ (.master a (.findObjects files)))
    (updates : ∀ a lists, allowed _ (.index a (.update { updates := lists })))
    (requests : List IndexUpdateRequest) : (run c requests).Calls allowed := by
  refine (findIndices_calls c reads ∅ _).bind fun (status, indexMap) => ?_
  dsimp only
  split
  · trivial
  · refine (reorderRequestsToIndexServers_calls c _ _).bind fun requestMap => ?_
    refine (findObjects_calls c finds _).bind fun (status, objectIds) => ?_
    dsimp only
    split
    · trivial
    · exact updateOn_calls updates _ _ _

end Tasks

theorem run_sends (requests : List IndexUpdateRequest) : (run c requests).Calls (Sends c) :=
  run_calls c (fun _ _ => trivial) (fun _ _ => trivial) (fun _ _ => trivial) requests

end Calls

/-! ## What a search asks for and returns -/

section Search

variable [FsPath] [PathHash] [ConsistentHashMap] {c : VSFSRpcClient} {query : ComplexQuery}
  {rely : (β : Type) → Rpc β → Except RpcError β → Prop} {allowed : (β : Type) → Rpc β → Prop}
  {named : ObjectId → Prop} {shown : Str → Prop}

omit [FsPath] [PathHash] [ConsistentHashMap] in
theorem locateOn_calls
    (locates : ∀ a root names, allowed _ (.master a (.locateIndicesForSearch root names)))
    (indices : List Str) (nodes : List NodeInfo) :
    (locateOn query indices nodes).Calls allowed := by
  induction nodes generalizing indices with
  | nil => trivial
  | cons node nodes ih =>
    refine ⟨locates _ _ _, fun b => ?_⟩
    cases b with
    | ok results => exact ih _
    | error e =>
      simp only [ret_bind]
      split
      · trivial
      · exact ih _

omit [FsPath] in
theorem genSearchPlan_calls
    (locates : ∀ a root names, allowed _ (.master a (.locateIndicesForSearch root names))) :
    (c.genSearchPlan query).Calls allowed := by
  refine (locateOn_calls locates [] _).bind fun (status, indices) => ?_
  dsimp only
  split
  · trivial
  · refine Calls.bind ?_ fun plan => trivial
    refine Calls.foldlM (fun plan indexPath => ?_) _ _
    refine (checkGet_calls _ _).bind fun node => ?_
    trivial

omit [PathHash] [ConsistentHashMap] in
/-- The ids are those that the index servers have named. -/
theorem searchOn_guarantees (searches : ∀ a root ranges,
      allowed _ (.index a (.search { root, rangeQueries := ranges })))
    (names : ∀ a q ids, rely _ (.index a (.search q)) (.ok ids) → ∀ o ∈ ids, named o)
    {objects : List ObjectId} (known : ∀ o ∈ objects, named o)
    (entries : List (Str × ExtTreeSet Str)) :
    (searchOn query objects entries).Guarantees rely allowed fun out => ∀ o ∈ out.2, named o := by
  induction entries generalizing objects with
  | nil => exact known
  | cons e entries ih =>
    obtain ⟨addr, partitions⟩ := e
    have ranges : (partitions.toList.mapM (subQuery query)).Calls allowed := by
      refine Calls.mapM (fun part => ?_) _
      unfold subQuery
      dsimp only
      split <;> trivial
    refine (stringToAddress_calls addr).guarantees.bind fun address _ => ?_
    refine ranges.guarantees.bind fun rangeQueries _ => ⟨searches _ _ _, fun b relied => ?_⟩
    cases b with
    | error e => exact known
    | ok tmp =>
      refine ih fun o ho => ?_
      rcases List.mem_append.mp ho with old | new
      · exact known o old
      · exact names _ _ _ relied o new

omit [FsPath] [PathHash] [ConsistentHashMap] in
/-- The paths are those that the masters have shown. -/
theorem findFilesOn_guarantees {entries : List (Str × List ObjectId)}
    (asks : ∀ e ∈ entries, ∀ a, stringToAddress e.1 = .ret a →
      allowed _ (.master a (.findFiles e.2)))
    (shows : ∀ a ids paths, rely _ (.master a (.findFiles ids)) (.ok paths) →
      ∀ path ∈ paths, shown path) {paths : List Str} (known : ∀ path ∈ paths, shown path) :
    (findFilesOn paths entries).Guarantees rely allowed fun out => ∀ path ∈ out.2, shown path := by
  induction entries generalizing paths with
  | nil => exact known
  | cons e entries ih =>
    obtain ⟨addr, objects⟩ := e
    rcases stringToAddress_cases addr with ⟨exit, thrown⟩ | ⟨address, read⟩
    · rw [findFilesOn, thrown]
      trivial
    · rw [findFilesOn, read]
      refine ⟨asks _ List.mem_cons_self _ read, fun b relied => ?_⟩
      cases b with
      | error e => exact known
      | ok tmp =>
        refine ih (fun e he => asks e (List.mem_cons_of_mem _ he)) fun path hp => ?_
        rcases List.mem_append.mp hp with old | new
        · exact known path old
        · exact shows _ _ _ relied path new

omit [FsPath] [PathHash] in
/-- The master of the ids that were grouped under the text of an address. -/
theorem leadsTo_of_group {objects ids : List ObjectId} {addr : Str} {a : NodeAddress}
    (homes : ∀ o ∈ objects, ∃ node, (c.masterMap.get o).2 = some node)
    (found : (group (fun o => addressText (c.masterMap.get o)) objects)[addr]? = some ids)
    (read : stringToAddress addr = .ret a) {o : ObjectId} (ho : o ∈ ids) :
    o ∈ objects ∧ LeadsTo c o a := by
  rw [group_eq_some found] at ho
  obtain ⟨inside, text⟩ := List.mem_filter.mp ho
  obtain ⟨node, home⟩ := homes o inside
  exact ⟨inside, node, home, (address_of_read home (of_decide_eq_true text) read).1⟩

omit [FsPath] [PathHash] in
theorem getFilePathsFromObjects_guarantees
    (asks : ∀ a (ids : List ObjectId), (∀ o ∈ ids, named o ∧ LeadsTo c o a) →
      allowed _ (.master a (.findFiles ids)))
    (shows : ∀ a ids paths, rely _ (.master a (.findFiles ids)) (.ok paths) →
      ∀ path ∈ paths, shown path) {objects : List ObjectId} (known : ∀ o ∈ objects, named o) :
    (c.getFilePathsFromObjects objects).Guarantees rely allowed
      fun out => ∀ path ∈ out.2, shown path := by
  unfold getFilePathsFromObjects
  rcases foldlM_addressText "master_map_.get(obj, &node).ok()" c.masterMap.get push objects ∅ with
    ⟨exit, thrown, -⟩ | ⟨homes, done⟩
  · rw [thrown]
    trivial
  · rw [done, bind_eq, ret_bind]
    refine findFilesOn_guarantees (fun e he a read => asks a e.2 fun o ho => ?_) shows (by simp)
    obtain ⟨inside, leads⟩ := leadsTo_of_group homes
      (ExtTreeMap.mem_toList_iff_getElem?_eq_some.mp he) read ho
    exact ⟨known o inside, leads⟩

/-- Every id that a search asks for was named, and every path that it returns was shown. -/
theorem search_guarantees (named : ObjectId → Prop) (shown : Str → Prop)
    (locates : ∀ a root names, allowed _ (.master a (.locateIndicesForSearch root names)))
    (searches : ∀ a root ranges, allowed _ (.index a (.search { root, rangeQueries := ranges })))
    (names : ∀ a q ids, rely _ (.index a (.search q)) (.ok ids) → ∀ o ∈ ids, named o)
    (asks : ∀ a (ids : List ObjectId), (∀ o ∈ ids, named o ∧ LeadsTo c o a) →
      allowed _ (.master a (.findFiles ids)))
    (shows : ∀ a ids paths, rely _ (.master a (.findFiles ids)) (.ok paths) →
      ∀ path ∈ paths, shown path) :
    (c.search query).Guarantees rely allowed fun out => ∀ path ∈ out.2, shown path := by
  refine (genSearchPlan_calls locates).guarantees.bind fun (status, plan) _ => ?_
  dsimp only
  split
  · exact fun _ h => absurd h List.not_mem_nil
  · refine (searchOn_guarantees searches names (by simp) _).bind fun (status, objects) known => ?_
    dsimp only
    split
    · exact fun _ h => absurd h List.not_mem_nil
    · refine (getFilePathsFromObjects_guarantees asks shows known).bind
        fun (status, results) found => ?_
      dsimp only
      split <;> exact found

/-- The answer does not name the id. -/
def Unnamed (o : ObjectId) : (β : Type) → Rpc β → Except RpcError β → Prop
  | _, .index _ (.search _), answer => ∀ ids, answer = .ok ids → o ∉ ids
  | _, _, _ => True

/-- The request does not ask for the path of the id. -/
def Unasked (o : ObjectId) : (β : Type) → Rpc β → Prop
  | _, .master _ (.findFiles ids) => o ∉ ids
  | _, _ => True

/-- The program does not know the id: it does not ask for its path unless an index server
names the id to it. -/
def Unaware {α : Type} (o : ObjectId) (p : ClientM α) : Prop :=
  p.Guarantees (Unnamed o) (Unasked o) fun _ => True

/-- The answer does not show the path. -/
def Unshown (path : Str) : (β : Type) → Rpc β → Except RpcError β → Prop
  | _, .master _ (.findFiles _), answer => ∀ paths, answer = .ok paths → path ∉ paths
  | _, _, _ => True

/-- The program does not return the path unless a master shows it. -/
def Unreturned (path : Str) (p : ClientM (List Str)) : Prop :=
  p.Guarantees (Unshown path) (fun _ _ => True) fun results => path ∉ results

/-- A search knows nothing when it begins. -/
theorem search_unaware (o : ObjectId) : Unaware o (Work.program c (.search query)) := by
  refine Guarantees.bind (search_guarantees (· ≠ o) (fun _ => True)
    (fun _ _ _ => trivial) (fun _ _ _ => trivial) (fun a q ids relied o' ho' same => ?_)
    (fun a ids known ho => (known o ho).1 rfl) fun _ _ _ _ _ _ => trivial) fun _ _ => trivial
  exact relied ids rfl (same ▸ ho')

theorem search_unreturned (path : Str) : Unreturned path (Work.program c (.search query)) := by
  refine Guarantees.bind (search_guarantees (fun _ => True) (· ≠ path)
    (fun _ _ _ => trivial) (fun _ _ _ => trivial) (fun _ _ _ _ _ _ => trivial)
    (fun _ _ _ => trivial) fun a ids paths relied path' hp same => ?_)
    fun out all inside => all path inside rfl
  exact relied paths rfl (same ▸ hp)

end Search

/-- Every call of the work is one that is sent. -/
theorem program_sends [FsPath] [PathHash] [ConsistentHashMap] (c : VSFSRpcClient) (work : Work) :
    (work.program c).Calls (Sends c) := by
  cases work with
  | create path mode uid gid => exact (create_sends c _ _ _ _).bind fun _ => trivial
  | unlink path =>
    exact (unlink_calls (fun _ _ _ => trivial) fun _ => trivial).bind fun _ => trivial
  | mkdir path mode uid gid =>
    exact (mkdir_calls (fun _ _ => trivial) (fun _ _ _ => trivial) fun _ => trivial).bind
      fun _ => trivial
  | createIndex root name indexType keyType mode uid gid =>
    exact (createIndex_sends c _ _ _ _ _ _ _).bind fun _ => trivial
  | update requests => exact (run_sends c _).bind fun _ => trivial
  | search query =>
    refine Calls.bind (Guarantees.calls (search_guarantees (fun _ => True) (fun _ => True)
      (fun _ _ _ => trivial) (fun _ _ _ => rfl) (fun _ _ _ _ _ _ => trivial)
      (fun _ _ leads o ho => (leads o ho).2) fun _ _ _ _ _ _ => trivial)) fun _ => trivial

end Vsfs.Client

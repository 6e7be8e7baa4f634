import Vsfs.Client.Interleaving
import Vsfs.Client.Results
import Vsfs.Client.Truthful
import Vsfs.Client.Update
import Vsfs.Lib.Script

/-!
# Where updates go

The questions of a task are about files and indices that no update changes, so what a task
does to the index servers is settled from the start: every index that some of its requests
are for gets one list with the records of these requests, in order.

## Main results

* `run_plays` : the script of a task.
* `answered` : scripts of tasks can be played against the servers.
-/

namespace Vsfs.Client

open Std Program Prog Masterd Indexd Index FiniteMap Grouping VSFSRpcClient IndexUpdateTask

variable {K : Type} [LinearOrder K] [FsPath] [PathHash] [ConsistentHashMap]

/-! ## Placement -/

/-- The nearest index of a name, from a directory upwards. -/
inductive Finds (c : VSFSRpcClient) (s : Servers K) (name : Str) : Str → Str → Prop where
  | here {dir : Str} (there : IsDirectory c s (PathUtil.indexPath dir name)) :
      Finds c s name dir (PathUtil.indexPath dir name)
  | up {dir path : Str} {node : NodeInfo}
      (home : c.masterMap.getByPath (PathUtil.indexPath dir name) = (.OK, some node))
      (absent : ¬ IsDirectory c s (PathUtil.indexPath dir name)) (below : dir ≠ ['/'])
      (rest : Finds c s name (FsPath.parentPath dir) path) : Finds c s name dir path

theorem Finds.unique {c : VSFSRpcClient} {s : Servers K} {name dir path path' : Str}
    (h : Finds c s name dir path) (h' : Finds c s name dir path') : path = path' := by
  induction h with
  | here there =>
    cases h' with
    | here => rfl
    | up _ absent => exact absurd there absent
  | up _ absent _ _ ih =>
    cases h' with
    | here there => exact absurd there absent
    | up _ _ _ rest => exact ih rest

/-- The partition that a request is for, when `index` says which index that is. -/
def partitionOf (index : IndexUpdateRequest → Str) (request : IndexUpdateRequest) : Str :=
  index request ++ "/0".toList

/-- Everything that the requests need is there: an index, a partition of it on the server
that the client asks, and a master for the file. All addresses can be read back. -/
structure Placed (c : VSFSRpcClient) (s : Servers K) (index : IndexUpdateRequest → Str)
    (requests : List IndexUpdateRequest) : Prop where
  found : ∀ r ∈ requests, Finds c s r.indexName (FsPath.parentPath r.filePath) (index r)
  server : ∀ r ∈ requests, ∃ node,
    (c.indexServerMap.getByPath (partitionOf index r)).2 = some node ∧ ':' ∉ node.address.host ∧
      (s.indexServers node.address).Takes (partitionOf index r)
  master : ∀ r ∈ requests, Named (c.masterMap.getByPath r.filePath)

theorem Placed.mono {c : VSFSRpcClient} {s : Servers K} {index : IndexUpdateRequest → Str}
    {requests some : List IndexUpdateRequest} (h : Placed c s index requests)
    (sub : some ⊆ requests) : Placed c s index some :=
  ⟨fun r hr => h.found r (sub hr), fun r hr => h.server r (sub hr), fun r hr => h.master r (sub hr)⟩

/-- The object id that a file is indexed under, zero when there is no file. -/
def objectOf (c : VSFSRpcClient) (s : Servers K) (path : Str) : ObjectId :=
  match (c.masterMap.getByPath path).2 with
  | none => 0
  | some node =>
    match (s.masters node.address).namespace.metadataMap[path]? with
    | none => 0
    | some metadata => metadata.objectId

/-- The records of the requests for a partition. -/
def recordsFor (c : VSFSRpcClient) (s : Servers K) (index : IndexUpdateRequest → Str)
    (requests : List IndexUpdateRequest) (part : Str) : List RecordUpdateOp :=
  (requests.filter fun r => partitionOf index r = part).map fun r =>
    toRecord r (objectOf c s r.filePath)

/-- The server that the client asks about a partition. -/
def serverOf (c : VSFSRpcClient) (part : Str) : Option NodeAddress :=
  (c.indexServerMap.getByPath part).2.map (·.address)

/-- The records that the requests have for an index of a server. -/
def recordsAt (c : VSFSRpcClient) (s : Servers K) (index : IndexUpdateRequest → Str)
    (requests : List IndexUpdateRequest) (a : NodeAddress) (part : Str) : List RecordUpdateOp :=
  if serverOf c part = some a then recordsFor c s index requests part else []

/-! ## Questions and actions -/

/-- The questions of a task, and the answers of the masters. -/
inductive Asks (s : Servers K) : (β : Type) → Rpc β → Except RpcError β → Prop where
  | getattr (a : NodeAddress) (path : Str) : Asks s _ (.master a (.getattr path))
      ((checkStatus ((s.masters a).namespace.getattr path).1
        (((s.masters a).namespace.getattr path).2.getD {})).mapError .invalidOp)
  | findObjects (a : NodeAddress) (files : List Str) : Asks s _ (.master a (.findObjects files))
      (.ok ((s.masters a).namespace.findObjects files))

/-- The updates of a task, which only goes to indices that are there. -/
inductive Acts (s : Servers K) :
    (β : Type) → Rpc β → NodeAddress × IndexUpdate → Except RpcError β → Prop where
  | update {a : NodeAddress} {updates : IndexUpdate}
      (there : ∀ l ∈ updates.updates, (s.indexServers a).Takes l.rootPath) :
      Acts s _ (.index a (.update updates)) (a, updates) (.ok ())

section Effect

omit [FsPath] [PathHash] [ConsistentHashMap]

variable [KeyTypes K]

/-- The effect of an update. -/
def logUpdate (s : Servers K) (action : NodeAddress × IndexUpdate) : Servers K :=
  s.setIndexServer action.1 ((s.indexServers action.1).loggedAll action.2)

/-- The masters are as they were, and all indices are there. -/
structure Beside (s s' : Servers K) : Prop where
  masters : s'.masters = s.masters
  indices : ∀ a path, (s.indexServers a).Takes path → (s'.indexServers a).Takes path

theorem answered [FsPath] [PathHash] [ThriftSerialize FileMetadata]
    [ThriftSerialize IndexNamespaceNode] (s : Servers K) :
    Answered reliable (Asks s) (Acts s) logUpdate (Beside s) where
  ask now _ _ t beside asked := by
    cases asked with
    | getattr a path =>
      simp only [reliable, Servers.serve, MasterServer.handle, Bind.bind, Except.bind, pure,
        Except.pure, Except.map, beside.masters]
      rw [← beside.masters, t.setMaster_self]
    | findObjects a files =>
      simp only [reliable, Servers.serve, MasterServer.handle, Bind.bind, Except.bind, pure,
        Except.pure, Except.map, Except.mapError, beside.masters]
      rw [← beside.masters, t.setMaster_self]
  act now _ _ _ t beside acted := by
    cases acted with
    | @update a updates there =>
      have taken := IndexManager.update_of_takes fun l hl => beside.indices a _ (there l hl)
      refine ⟨?_, beside.masters, fun a' path h => ?_⟩
      · simp only [reliable, Servers.serve, IndexServer.handle, taken, Bind.bind, Except.bind, pure,
          Except.pure, Except.map, checkStatus, Status.ok_OK, if_true, Except.mapError, logUpdate]
      · by_cases same : a' = a
        · subst same
          simpa [logUpdate] using (beside.indices a' path h).loggedAll updates
        · simpa [logUpdate, same] using beside.indices a' path h

omit [KeyTypes K] in
/-- The lists for a partition in the updates of a server. -/
def listsFor (a : NodeAddress) (part : Str) (actions : List (NodeAddress × IndexUpdate)) :
    List RecordUpdateList :=
  actions.flatMap fun e =>
    if e.1 = a then e.2.updates.filter fun l => l.rootPath = part else []

/-- Updates append their lists to the log of an index. -/
theorem wrapper_logUpdate {s : Servers K} {a : NodeAddress} {path : Str} {w : RangeIndexWrapper K}
    (found : (s.indexServers a).rangeIndexMap[path]? = some w)
    (actions : List (NodeAddress × IndexUpdate)) :
    ∃ w', ((actions.foldl logUpdate s).indexServers a).rangeIndexMap[path]? = some w' ∧
      w'.index = w.index ∧ w'.logManager.log.map (·.record) =
        w.logManager.log.map (·.record) ++ listsFor a path actions := by
  induction actions generalizing s w with
  | nil => exact ⟨w, found, rfl, by simp [listsFor]⟩
  | cons e actions ih =>
    rw [List.foldl_cons]
    by_cases same : e.1 = a
    · obtain ⟨w₁, found₁, index₁, log₁⟩ := IndexManager.wrapper_loggedAll found e.2
      have next : ((logUpdate s e).indexServers a).rangeIndexMap[path]? = some w₁ := by
        simpa [logUpdate, same] using found₁
      obtain ⟨w', there, index, log⟩ := ih next
      refine ⟨w', there, index.trans index₁, ?_⟩
      rw [log, log₁]
      simp [listsFor, same]
    · have next : ((logUpdate s e).indexServers a).rangeIndexMap[path]? = some w := by
        simpa [logUpdate, Ne.symm same] using found
      obtain ⟨w', there, index, log⟩ := ih next
      exact ⟨w', there, index, by simpa [listsFor, same] using log⟩

end Effect

/-! ## The index of a name -/

variable {c : VSFSRpcClient} {s : Servers K}

omit [FsPath] in
theorem getattrStat_directory {path : Str} (h : IsDirectory c s path) :
    ∃ st : Stat, S_ISDIR st.mode ∧
      Plays (Asks s) (Acts s) (c.getattrStat path) [] (.ok (.OK, some st)) := by
  obtain ⟨node, m, home, found, dir⟩ := h
  have seen : ((s.masters node.address).namespace.getattr path).1 = .OK ∧
      (((s.masters node.address).namespace.getattr path).2.getD {}).mode =
        some (m.mode.signExtend 64) := by
    simp [Namespace.getattr, found]
  have answer := Asks.getattr (s := s) node.address path
  simp only [seen.1, checkStatus, Status.ok_OK, if_true, Except.mapError] at answer
  simp only [getattrStat, VSFSRpcClient.getattr, home, checkGet, bind_eq, ret_bind, perform_bind,
    call_bind]
  refine ⟨_, ?_, .ask answer .ret⟩
  simpa [seen.2, setWidth_signExtend] using dir

omit [FsPath] in
theorem getattrStat_absent {path : Str} {node : NodeInfo}
    (home : c.masterMap.getByPath path = (.OK, some node)) (absent : ¬ IsDirectory c s path) :
    ∃ (status : Status) (stat : Option Stat), (stat.any fun st => S_ISDIR st.mode) = false ∧
      (status.ok = true ∨ status.error = -ENOENT) ∧
      Plays (Asks s) (Acts s) (c.getattrStat path) [] (.ok (status, stat)) := by
  have answer := Asks.getattr (s := s) node.address path
  simp only [getattrStat, VSFSRpcClient.getattr, home, checkGet, bind_eq, ret_bind, perform_bind,
    call_bind]
  cases found : (s.masters node.address).namespace.metadataMap[path]? with
  | none =>
    simp only [Namespace.getattr, found, checkStatus, Status.systemError, Except.mapError] at answer
    exact ⟨_, none, rfl, .inr rfl, .ask answer .ret⟩
  | some m =>
    simp only [Namespace.getattr, found, checkStatus, Status.ok_OK, if_true, Option.getD_some,
      Except.mapError] at answer
    refine ⟨.OK, some _, ?_, .inl rfl, .ask answer .ret⟩
    have file : ¬ S_ISDIR m.mode := fun dir => absent ⟨node, m, home, found, dir⟩
    simpa [setWidth_signExtend] using file

/-- The loop stops where the index is. -/
theorem findIndex_plays {name dir path : Str} (h : Finds c s name dir path) :
    Plays (Asks s) (Acts s) (findIndex c name dir) [] (.ok (.OK, some path)) := by
  induction h with
  | here there =>
    obtain ⟨st, dir, plays⟩ := getattrStat_directory there
    refine .iter (.bind_nil (a := .inr (.OK, some _)) (.bind_nil plays ?_) .ret)
    simp only [Option.any_some, dir, decide_true, if_true]
    exact .ret
  | @up dir path node home absent below _ ih =>
    obtain ⟨status, stat, file, code, plays⟩ := getattrStat_absent home absent
    have again : Plays (Asks s) (Acts s)
        (again (findIndexTurn c name) .ret (.inl (FsPath.parentPath dir))) []
        (.ok (.OK, some path) : Except Exit _) := ih
    refine .iter (.bind_nil (.bind_nil plays ?_) again)
    have passed : ¬ ((!status.ok) = true ∧ status.error ≠ -ENOENT) := by
      rcases code with code | code <;> simp [code]
    simp only [file, Bool.false_eq_true, passed, below, if_false]
    exact .ret

/-- The path that the map has for a name in a directory. -/
def lookup (indexMap : ParentPathToIndexPathMap) (parent name : Str) : Option Str :=
  (indexMap[parent]?).bind (·[name]?)

omit [FsPath] [PathHash] [ConsistentHashMap] in
theorem lookup_insert (indexMap : ParentPathToIndexPathMap) (parent name path p n : Str) :
    lookup (indexMap.insert parent ((indexMap[parent]?.getD ∅).insert name path)) p n =
      if parent = p ∧ name = n then some path else lookup indexMap p n := by
  unfold lookup
  by_cases same : parent = p
  · subst same
    cases indexMap[parent]? <;> simp
  · simp [same]

/-- All names are found, and the map only has what was found. -/
theorem findIndices_plays {names : List (Str × Str)}
    (found : ∀ e ∈ names, ∃ path, Finds c s e.2 e.1 path) (indexMap : ParentPathToIndexPathMap)
    (right : ∀ p n path, lookup indexMap p n = some path → Finds c s n p path) :
    ∃ indexMap', (∀ p n path, lookup indexMap' p n = some path → Finds c s n p path) ∧
      (∀ p n, lookup indexMap p n ≠ none ∨ (p, n) ∈ names → lookup indexMap' p n ≠ none) ∧
      Plays (Asks s) (Acts s) (findIndices c indexMap names) [] (.ok (.OK, indexMap')) := by
  induction names generalizing indexMap with
  | nil => exact ⟨indexMap, right, fun p n h => by simpa using h, .ret⟩
  | cons e names ih =>
    obtain ⟨parent, name⟩ := e
    obtain ⟨path, here⟩ := found (parent, name) (by simp)
    obtain ⟨indexMap', right', all, plays⟩ := ih (fun e he => found e (by simp [he]))
      (indexMap.insert parent ((indexMap[parent]?.getD ∅).insert name path)) fun p n path' h => by
        rw [lookup_insert] at h
        split at h
        · rename_i same
          cases h
          rw [← same.1, ← same.2]
          exact here
        · exact right p n path' h
    refine ⟨indexMap', right', fun p n h => all p n ?_, (findIndex_plays here).bind_nil plays⟩
    rw [lookup_insert]
    rcases h with old | new
    · exact .inl (by split <;> simp [old])
    · rcases List.mem_cons.mp new with same | later
      · cases same
        exact .inl (by simp)
      · exact .inr later

/-- The names that are looked for, with the directories of the files. -/
def namesOf (requests : List IndexUpdateRequest) : List (Str × Str) :=
  (requests.foldl (fun names r => put names (FsPath.parentPath r.filePath) r.indexName)
    (∅ : ExtTreeMap Str (ExtTreeSet Str))).toList.flatMap fun e => e.2.toList.map (e.1, ·)

omit [PathHash] [ConsistentHashMap] in
theorem mem_namesOf {requests : List IndexUpdateRequest} {parent name : Str} :
    (parent, name) ∈ namesOf requests ↔
      ∃ r ∈ requests, FsPath.parentPath r.filePath = parent ∧ r.indexName = name := by
  have inside := mem_foldl_put (fun r : IndexUpdateRequest => FsPath.parentPath r.filePath)
    (·.indexName) requests ∅ parent name
  simp only [ExtTreeMap.getElem?_empty, Option.getD_none, ExtTreeSet.not_mem_empty,
    false_or] at inside
  rw [← inside]
  simp only [namesOf, List.mem_flatMap, List.mem_map, Prod.exists,
    ExtTreeMap.mem_toList_iff_getElem?_eq_some, ExtTreeSet.mem_toList, Prod.mk.injEq]
  constructor
  · rintro ⟨p, g, entry, n, hn, rfl, rfl⟩
    rw [entry]
    exact hn
  · intro hn
    cases entry : (requests.foldl (fun names r =>
      put names (FsPath.parentPath r.filePath) r.indexName)
      (∅ : ExtTreeMap Str (ExtTreeSet Str)))[parent]? with
    | none => simp [entry] at hn
    | some g => exact ⟨parent, g, entry, name, by simpa [entry] using hn, rfl, rfl⟩

/-- The map has the index of every request. -/
theorem getParentPathToIndexPathMap_plays {index : IndexUpdateRequest → Str}
    {requests : List IndexUpdateRequest} (placed : Placed c s index requests) :
    ∃ indexMap, (∀ r ∈ requests,
        lookup indexMap (FsPath.parentPath r.filePath) r.indexName = some (index r)) ∧
      Plays (Asks s) (Acts s) (getParentPathToIndexPathMap c requests) []
        (.ok (.OK, indexMap)) := by
  have found : ∀ e ∈ namesOf requests, ∃ path, Finds c s e.2 e.1 path := by
    intro e he
    obtain ⟨r, hr, parent, name⟩ := mem_namesOf.mp he
    exact ⟨index r, name ▸ parent ▸ placed.found r hr⟩
  obtain ⟨indexMap, right, all, plays⟩ := findIndices_plays found ∅ (by simp [lookup])
  refine ⟨indexMap, fun r hr => ?_, plays⟩
  obtain ⟨path, found⟩ := Option.ne_none_iff_exists'.mp
    (all _ _ (.inr (mem_namesOf.mpr ⟨r, hr, rfl, rfl⟩)))
  rw [found, (right _ _ _ found).unique (placed.found r hr)]

/-! ## The requests for each server -/

/-- The partition of the request at a position. -/
def partitionAt (index : IndexUpdateRequest → Str) (requests : List IndexUpdateRequest)
    (pos : Nat) : Str :=
  partitionOf index (requests.getD pos default)

/-- The text of the address of a server is read back. -/
theorem Placed.read {index : IndexUpdateRequest → Str} {requests : List IndexUpdateRequest}
    (placed : Placed c s index requests) (r : IndexUpdateRequest) (hr : r ∈ requests) :
    ∃ node, (c.indexServerMap.getByPath (partitionOf index r)).2 = some node ∧
      stringToAddress (serverText c (partitionOf index r)) = .ret node.address ∧
      (s.indexServers node.address).Takes (partitionOf index r) := by
  obtain ⟨node, home, plain, there⟩ := placed.server r hr
  obtain ⟨node', home', read⟩ := read_of_named ⟨node, home, plain⟩ rfl
  cases home.symm.trans home'
  exact ⟨node, home, read, there⟩

/-- The positions of the requests for every partition, by the text of its server. -/
def requestMapOf (c : VSFSRpcClient) (index : IndexUpdateRequest → Str)
    (requests : List IndexUpdateRequest) : ServerToRequestMap :=
  group₂ (fun pos => serverText c (partitionAt index requests pos)) (partitionAt index requests)
    (List.range requests.length)

theorem reorder_eq {index : IndexUpdateRequest → Str} {requests : List IndexUpdateRequest}
    (homes : ∀ r ∈ requests, ∃ node,
      (c.indexServerMap.getByPath (partitionOf index r)).2 = some node)
    {indexMap : ParentPathToIndexPathMap}
    (all : ∀ r ∈ requests,
      lookup indexMap (FsPath.parentPath r.filePath) r.indexName = some (index r)) :
    reorderRequestsToIndexServers c indexMap requests =
      .ret (requestMapOf c index requests) := by
  have turns : reorderRequestsToIndexServers c indexMap requests =
      .ret (requests.zipIdx.foldl (fun m e =>
        pushAt m (serverText c (partitionOf index e.1)) (partitionOf index e.1) e.2) ∅) := by
    refine foldlM_ret (fun m e he => ?_) ∅
    have inside : e.1 ∈ requests :=
      List.mem_of_getElem? (List.mem_zipIdx_iff_getElem?.mp he)
    have found : (indexMap[FsPath.parentPath e.1.filePath]?).bind (·[e.1.indexName]?) =
      some (index e.1) := all e.1 inside
    obtain ⟨node, home⟩ := homes e.1 inside
    have home' : (c.indexServerMap.get
        (PathHash.pathToHash (index e.1 ++ "/0".toList))).2 = some node := home
    have text : serverText c (partitionOf index e.1) = addressToString node.address :=
      addressText_of_some home
    simp only [indexOf, found, bind_eq, ret_bind, checkGet_some home', text]
    rfl
  rw [turns, foldl_zipIdx (fun m r pos =>
    pushAt m (serverText c (partitionOf index r)) (partitionOf index r) pos) default]
  rfl

/-! ## The object ids of the files -/

omit [FsPath] [PathHash] [ConsistentHashMap] in
theorem getElem?_foldl_set (f : Nat → ObjectId) (positions : List Nat) (objects : List ObjectId)
    (i : Nat) : (positions.foldl (fun objs pos => objs.set pos (f pos)) objects)[i]? =
      if i ∈ positions ∧ i < objects.length then some (f i) else objects[i]? := by
  induction positions generalizing objects with
  | nil => simp
  | cons pos positions ih =>
    rw [List.foldl_cons, ih, List.length_set, List.getElem?_set]
    by_cases inside : i < objects.length
    · by_cases later : i ∈ positions
      · simp [later, inside]
      · by_cases same : pos = i
        · subst same
          simp [inside]
        · simp [later, same, Ne.symm same]
    · simp only [inside, and_false, if_false]
      split
      · rename_i same
        rw [if_neg (same ▸ inside), List.getElem?_eq_none (Nat.le_of_not_lt inside)]
      · rfl

/-- The loop of `find_objects`, for any way to write to `objects`. -/
def findObjectsWith {V : Type} (write : V → Nat → ObjectId → V) (paths : List Str) (objects : V) :
    List (Str × List Nat) → ClientM (Status × V)
  | [] => .ret (.OK, objects)
  | (addr, positions) :: rest => do
    let tmpFiles := positions.map fun pos => paths.getD pos []
    let address ← stringToAddress addr
    match ← Prog.perform (.master address (.findObjects tmpFiles)) with
    | .error e => return (e.status, objects)
    | .ok tmpObjs =>
      if tmpObjs.length ≠ tmpFiles.length then
        .throw (.crash (.check "tmp_objs.size() == tmp_files.size()"))
      else
        let objects := (positions.zip tmpObjs).foldl
          (fun objs (pos, obj) => write objs pos obj) objects
        findObjectsWith write paths objects rest

omit [FsPath] [PathHash] [ConsistentHashMap] in
/-- What a part of `objects` sees of the loop. -/
theorem findObjectsWith_map {V W : Type} {write : V → Nat → ObjectId → V}
    {write' : W → Nat → ObjectId → W} (f : V → W)
    (same : ∀ objects pos obj, f (write objects pos obj) = write' (f objects) pos obj)
    (paths : List Str) (objects : V) (entries : List (Str × List Nat)) :
    (findObjectsWith write paths objects entries).bind (fun out => .ret (out.1, f out.2)) =
      findObjectsWith write' paths (f objects) entries := by
  have written (updates : List (Nat × ObjectId)) (objects : V) :
      f (updates.foldl (fun objs e => write objs e.1 e.2) objects) =
        updates.foldl (fun objs e => write' objs e.1 e.2) (f objects) := by
    induction updates generalizing objects with
    | nil => rfl
    | cons e updates ih => rw [List.foldl_cons, ih, same, List.foldl_cons]
  induction entries generalizing objects with
  | nil => rfl
  | cons e entries ih =>
    obtain ⟨addr, positions⟩ := e
    simp only [findObjectsWith, bind_eq, bind_assoc, perform_bind, call_bind]
    congr 1
    funext address
    congr 1
    funext b
    cases b with
    | error e => rfl
    | ok tmpObjs =>
      dsimp only
      split
      · rfl
      · rw [ih, written]

omit [FsPath] [PathHash] [ConsistentHashMap] in
theorem findObjectsOn_eq (paths : List Str) (objects : List ObjectId)
    (entries : List (Str × List Nat)) : findObjectsOn paths objects entries =
      findObjectsWith (fun objs pos obj => objs.set pos obj) paths objects entries := by
  induction entries generalizing objects with
  | nil => rfl
  | cons e entries ih =>
    obtain ⟨addr, positions⟩ := e
    simp only [findObjectsOn, ih]
    rfl

omit [FsPath] in
theorem findObjectsWith_plays {V : Type} (write : V → Nat → ObjectId → V) {paths : List Str}
    (masters : ∀ path ∈ paths, Named (c.masterMap.getByPath path)) (objects : V)
    (entries : List (Str × List Nat))
    (planned : ∀ e ∈ entries, e.2 ≠ [] ∧ ∀ pos ∈ e.2, pos < paths.length ∧
      addressText (c.masterMap.getByPath (paths.getD pos [])) = e.1) :
    Plays (Asks s) (Acts s) (findObjectsWith write paths objects entries) []
      (.ok (.OK, (entries.flatMap (·.2)).foldl
        (fun objs pos => write objs pos (objectOf c s (paths.getD pos []))) objects)) := by
  induction entries generalizing objects with
  | nil => exact .ret
  | cons e entries ih =>
    obtain ⟨addr, positions⟩ := e
    obtain ⟨some, mine⟩ := planned _ List.mem_cons_self
    have home (pos : Nat) (hp : pos ∈ positions) :
        ∃ node, (c.masterMap.getByPath (paths.getD pos [])).2 = .some node ∧
          stringToAddress addr = .ret node.address := by
      have inside : paths.getD pos [] ∈ paths :=
        (mem_iff_getD paths [] _).mpr ⟨pos, List.mem_range.mpr (mine pos hp).1, rfl⟩
      exact read_of_named (masters _ inside) (mine pos hp).2
    obtain ⟨pos, hp⟩ := List.exists_mem_of_ne_nil _ some
    obtain ⟨node, -, read⟩ := home pos hp
    -- The master answers with the object ids in the order of the positions.
    have ids : (s.masters node.address).namespace.findObjects
        (positions.map fun pos => paths.getD pos []) =
          positions.map fun pos => objectOf c s (paths.getD pos []) := by
      rw [Namespace.findObjects, List.map_map]
      refine List.map_congr_left fun pos' hp' => ?_
      obtain ⟨node', home', read'⟩ := home pos' hp'
      rw [read] at read'
      have same : node.address = node'.address := Prog.ret.inj read'
      cases found : (s.masters node'.address).namespace.metadataMap[paths.getD pos' []]? <;>
        simp only [Function.comp_apply, objectOf, home', same, found]
    have zipped : positions.zip (positions.map fun pos => objectOf c s (paths.getD pos [])) =
        positions.map fun pos => (pos, objectOf c s (paths.getD pos [])) := by
      rw [List.zip_map_right, List.zip_eq_zipWith, List.zipWith_self, List.map_map]
      rfl
    have answer := Asks.findObjects (s := s) node.address
      (positions.map fun pos => paths.getD pos [])
    rw [ids] at answer
    rw [findObjectsWith, read, bind_eq, ret_bind, bind_eq, perform_bind]
    refine .ask answer ?_
    simp only [List.length_map, ne_eq, not_true_eq_false, if_false, zipped, List.foldl_map,
      List.flatMap_cons, List.foldl_append]
    exact ih _ fun e he => planned e (List.mem_cons_of_mem _ he)

/-- The positions of the paths, by the text of the master. -/
def pathPositions (c : VSFSRpcClient) (paths : List Str) : ExtTreeMap Str (List Nat) :=
  group (fun pos => addressText (c.masterMap.getByPath (paths.getD pos [])))
    (List.range paths.length)

omit [FsPath] in
theorem pathPositions_planned (paths : List Str) : ∀ e ∈ (pathPositions c paths).toList,
    e.2 ≠ [] ∧ ∀ pos ∈ e.2, pos < paths.length ∧
      addressText (c.masterMap.getByPath (paths.getD pos [])) = e.1 := by
  intro e he
  have found := ExtTreeMap.mem_toList_iff_getElem?_eq_some.mp he
  obtain ⟨pos, inside, same⟩ := (mem_group _ _ _).mp ((mem_iff_exists _ _).mpr ⟨_, found⟩)
  rw [group_eq_some found]
  refine ⟨List.ne_nil_of_mem (List.mem_filter.mpr ⟨inside, by simpa using same⟩), ?_⟩
  intro pos' hp'
  simpa using hp'

omit [FsPath] in
theorem pathPositions_perm (paths : List Str) :
    ((pathPositions c paths).toList.flatMap (·.2)).Perm (List.range paths.length) :=
  flatMap_group_perm _ _

omit [FsPath] in
/-- Every path has a master, and so all positions are sorted. -/
theorem reorderPaths_eq {paths : List Str}
    (named : ∀ path ∈ paths, ∃ node, (c.masterMap.getByPath path).2 = some node) :
    paths.zipIdx.foldlM (fun reordered (e : Str × Nat) => do
      let node ← checkGet "master_map_.get(paths[i], &node).ok()" (c.masterMap.getByPath e.1)
      return push reordered (addressToString node.address) e.2) ∅ =
      (.ret (pathPositions c paths) : ClientM _) := by
  have homes : ∀ e ∈ paths.zipIdx, ∃ node, (c.masterMap.getByPath e.1).2 = some node :=
    fun e he => named e.1 (List.fst_mem_of_mem_zipIdx he)
  refine (foldlM_of_named "master_map_.get(paths[i], &node).ok()"
    (fun m addr (e : Str × Nat) => push m addr e.2) homes ∅).trans ?_
  rw [foldl_zipIdx (fun m path pos =>
    push m (addressText (c.masterMap.getByPath path)) pos) []]
  rfl

omit [FsPath] in
/-- Writing to all positions, in whatever order, fills the cells. -/
theorem foldl_set_pathPositions (f : Nat → ObjectId) (paths : List Str) :
    ((pathPositions c paths).toList.flatMap (·.2)).foldl (fun objs pos => objs.set pos (f pos))
      (List.replicate paths.length 0) = (List.range paths.length).map f := by
  refine List.ext_getElem? fun i => ?_
  rw [getElem?_foldl_set, List.length_replicate]
  simp only [(pathPositions_perm paths).mem_iff, List.mem_range]
  by_cases inside : i < paths.length
  · simp [inside]
  · simp [inside]

omit [PathHash] [ConsistentHashMap] [FsPath] in
theorem map_getD_range {γ : Type} (f : Str → γ) (paths : List Str) :
    (List.range paths.length).map (fun pos => f (paths.getD pos [])) = paths.map f := by
  refine List.ext_getElem? fun i => ?_
  by_cases inside : i < paths.length
  · simp [inside]
  · simp [inside]

omit [FsPath] in
/-- The object ids of all paths. -/
theorem findObjects_plays {paths : List Str}
    (masters : ∀ path ∈ paths, Named (c.masterMap.getByPath path)) :
    Plays (Asks s) (Acts s) (c.findObjects paths) [] (.ok (.OK, paths.map (objectOf c s))) := by
  have plays := findObjectsWith_plays (s := s) (fun objs pos obj => objs.set pos obj) masters
    (List.replicate paths.length 0) _ (pathPositions_planned (c := c) paths)
  rw [← findObjectsOn_eq,
    foldl_set_pathPositions (fun pos => objectOf c s (paths.getD pos [])) paths,
    map_getD_range (objectOf c s)] at plays
  unfold findObjects
  rw [reorderPaths_eq fun path here => (masters path here).server]
  exact plays

/-! ## The whole task -/

/-- The list that a task sends to a server for a partition, if there is one. -/
def blockFor (c : VSFSRpcClient) (s : Servers K) (index : IndexUpdateRequest → Str)
    (requests : List IndexUpdateRequest) (a : NodeAddress) (part : Str) : List RecordUpdateList :=
  if recordsAt c s index requests a part = [] then []
  else [⟨part, [], recordsAt c s index requests a part⟩]

/-- The address that a text is read as. -/
def readAddress (addr : Str) : NodeAddress :=
  match stringToAddress addr with
  | .ret address => address
  | _ => ⟨[], 0⟩

/-- The update for one server. -/
def updateAction (requests : List IndexUpdateRequest) (objectIds : List ObjectId)
    (e : Str × ExtTreeMap Str (List Nat)) : NodeAddress × IndexUpdate :=
  (readAddress e.1, { updates := e.2.toList.map (recordList requests objectIds) })

omit [FsPath] [PathHash] [ConsistentHashMap] in
theorem updateOn_plays {requests : List IndexUpdateRequest} {objectIds : List ObjectId}
    (entries : List (Str × ExtTreeMap Str (List Nat)))
    (planned : ∀ e ∈ entries, ∃ address, stringToAddress e.1 = .ret address ∧
      ∀ part ∈ e.2, (s.indexServers address).Takes part) :
    Plays (Asks s) (Acts s) (updateOn requests objectIds entries)
      (entries.map (updateAction requests objectIds)) (.ok .OK) := by
  induction entries with
  | nil => exact .ret
  | cons e entries ih =>
    obtain ⟨address, read, there⟩ := planned e List.mem_cons_self
    have action : updateAction requests objectIds e =
        (address, { updates := e.2.toList.map (recordList requests objectIds) }) := by
      simp only [updateAction, readAddress, read]
    rw [List.map_cons, action, updateOn, read, bind_eq, ret_bind, bind_eq, perform_bind]
    refine .act (.update fun l hl => ?_) (ih fun e he => planned e (List.mem_cons_of_mem _ he))
    obtain ⟨⟨part, positions⟩, entry, rfl⟩ := List.mem_map.mp hl
    exact there part ((mem_iff_exists _ _).mpr
      ⟨positions, ExtTreeMap.mem_toList_iff_getElem?_eq_some.mp entry⟩)

omit [FsPath] in
theorem recordsFor_ne_nil {index : IndexUpdateRequest → Str} {requests : List IndexUpdateRequest}
    {part : Str} : recordsFor c s index requests part ≠ [] ↔
      ∃ r ∈ requests, partitionOf index r = part := by
  simp [recordsFor, List.filter_eq_nil_iff]

omit [FsPath] in
/-- The partitions of a server are those of requests. -/
theorem mem_requestMapOf {index : IndexUpdateRequest → Str} {requests : List IndexUpdateRequest}
    {addr part : Str} {partitions : ExtTreeMap Str (List Nat)}
    (entry : (requestMapOf c index requests)[addr]? = some partitions) :
    part ∈ partitions ↔
      serverText c part = addr ∧ ∃ r ∈ requests, partitionOf index r = part := by
  rw [group₂_eq_some entry, mem_group]
  simp only [List.mem_filter, List.mem_range, decide_eq_true_eq]
  constructor
  · rintro ⟨pos, ⟨inside, text⟩, rfl⟩
    exact ⟨text, _,
      (mem_iff_getD requests default _).mpr ⟨pos, List.mem_range.mpr inside, rfl⟩, rfl⟩
  · rintro ⟨text, r, hr, rfl⟩
    obtain ⟨pos, inside, rfl⟩ := (mem_iff_getD requests default r).mp hr
    exact ⟨pos, ⟨List.mem_range.mp inside, text⟩, rfl⟩

omit [FsPath] in
/-- The positions of a partition are those of its requests. -/
theorem positions_requestMapOf {index : IndexUpdateRequest → Str}
    {requests : List IndexUpdateRequest} {addr part : Str}
    {partitions : ExtTreeMap Str (List Nat)} {positions : List Nat}
    (entry : (requestMapOf c index requests)[addr]? = some partitions)
    (found : partitions[part]? = some positions) :
    positions = (List.range requests.length).filter fun pos =>
      decide (partitionAt index requests pos = part) := by
  have text : serverText c part = addr :=
    ((mem_requestMapOf entry).mp ((mem_iff_exists _ _).mpr ⟨_, found⟩)).1
  rw [group₂_eq_some entry] at found
  -- A position of the partition is one of the server as well.
  rw [group_eq_some found, List.filter_filter]
  refine List.filter_congr fun pos _ => ?_
  by_cases mine : partitionAt index requests pos = part
  · simp only [mine, text, decide_true, Bool.and_self]
  · simp only [mine, decide_false, Bool.false_and]

/-- The list of a partition: the records of its requests, in order, each with the object id at
the position of the request. -/
def listOf (index : IndexUpdateRequest → Str) (requests : List IndexUpdateRequest)
    (objectIds : List ObjectId) (part : Str) : RecordUpdateList where
  rootPath := part
  name := []
  recordUpdates := (requests.zipIdx.filter fun e => partitionOf index e.1 = part).map fun e =>
    toRecord e.1 (objectIds.getD e.2 0)

omit [FsPath] in
theorem recordList_requestMapOf {index : IndexUpdateRequest → Str}
    {requests : List IndexUpdateRequest} (objectIds : List ObjectId) {addr part : Str}
    {partitions : ExtTreeMap Str (List Nat)} {positions : List Nat}
    (entry : (requestMapOf c index requests)[addr]? = some partitions)
    (found : partitions[part]? = some positions) :
    recordList requests objectIds (part, positions) = listOf index requests objectIds part := by
  have all := positions_requestMapOf entry found
  have records := filterMap_filter_range (fun r => decide (partitionOf index r = part))
    (fun r pos => toRecord r (objectIds.getD pos 0)) default requests
  simp only [recordList, listOf, RecordUpdateList.mk.injEq, true_and, all]
  exact records

omit [FsPath] in
/-- With the object ids of all files, the list has the records for the partition. -/
theorem listOf_objectOf (index : IndexUpdateRequest → Str) (requests : List IndexUpdateRequest)
    (part : Str) :
    listOf index requests ((requests.map (·.filePath)).map (objectOf c s)) part =
      ⟨part, [], recordsFor c s index requests part⟩ := by
  rw [listOf, recordsFor, map_filter_zipIdx (fun r => decide (partitionOf index r = part))
    (fun r pos => toRecord r (((requests.map (·.filePath)).map (objectOf c s)).getD pos 0))
    (fun r => toRecord r (objectOf c s r.filePath)) requests]
  intro pos r here
  simp [here]

omit [FsPath] in
/-- What a task has for a partition: one list, for the address that is read from the text of
its server. -/
theorem listsFor_requestMapOf (index : IndexUpdateRequest → Str)
    (requests : List IndexUpdateRequest) (objectIds : List ObjectId) (a : NodeAddress)
    (part : Str) :
    listsFor a part ((requestMapOf c index requests).toList.map (updateAction requests objectIds)) =
      if readAddress (serverText c part) = a ∧ ∃ r ∈ requests, partitionOf index r = part then
        [listOf index requests objectIds part]
      else [] := by
  -- The lists of one server for the partition, which has at most one.
  have inner (partitions : ExtTreeMap Str (List Nat)) :
      (partitions.toList.map (recordList requests objectIds)).filter (fun l => l.rootPath = part) =
        (partitions[part]?.map fun positions =>
          [recordList requests objectIds (part, positions)]).getD [] := by
    have split := flatMap_toList_of_key partitions part
      (fun e => if e.1 = part then [recordList requests objectIds e] else [])
      fun e _ other => if_neg other
    simp only [if_true] at split
    rw [← split]
    generalize partitions.toList = entries
    induction entries with
    | nil => rfl
    | cons e entries ih => by_cases same : e.1 = part <;> simp [recordList, same, ih]
  have outer := flatMap_toList_of_key (requestMapOf c index requests) (serverText c part)
    (fun e => if readAddress e.1 = a then
      (e.2.toList.map (recordList requests objectIds)).filter (fun l => l.rootPath = part) else [])
    fun e he other => by
      have entry := ExtTreeMap.mem_toList_iff_getElem?_eq_some.mp he
      have absent : e.2[part]? = none := by
        refine (not_mem_iff _ _).mp fun inside => other ?_
        exact ((mem_requestMapOf entry).mp inside).1.symm
      rw [inner, absent]
      simp
  rw [listsFor, List.flatMap_map]
  refine outer.trans ?_
  cases entry : (requestMapOf c index requests)[serverText c part]? with
  | none =>
    have unused : ¬ ∃ r ∈ requests, partitionOf index r = part := by
      rintro ⟨r, hr, rfl⟩
      obtain ⟨pos, here⟩ := List.getElem?_of_mem hr
      refine (not_mem_iff _ _).mpr entry ((mem_group₂ _ _ _ _).mpr
        ⟨pos, List.mem_range.mpr (List.getElem?_eq_some_iff.mp here).1, ?_⟩)
      rw [partitionAt, List.getD_eq_getElem?_getD, here, Option.getD_some]
    simp [unused]
  | some partitions =>
    simp only [Option.map_some, Option.getD_some, inner]
    cases found : partitions[part]? with
    | none =>
      have unused : ¬ ∃ r ∈ requests, partitionOf index r = part := fun used =>
        (not_mem_iff _ _).mpr found ((mem_requestMapOf entry).mpr ⟨rfl, used⟩)
      simp [unused]
    | some positions =>
      have used := ((mem_requestMapOf entry).mp ((mem_iff_exists _ _).mpr ⟨_, found⟩)).2
      simp only [recordList_requestMapOf objectIds entry found, Option.map_some, Option.getD_some,
        used, and_true]

/-- What a task sends for a partition. -/
theorem listsFor_actions {index : IndexUpdateRequest → Str} {requests : List IndexUpdateRequest}
    (placed : Placed c s index requests) (a : NodeAddress) (part : Str) :
    listsFor a part ((requestMapOf c index requests).toList.map
        (updateAction requests ((requests.map (·.filePath)).map (objectOf c s)))) =
      blockFor c s index requests a part := by
  rw [listsFor_requestMapOf, listOf_objectOf]
  by_cases used : ∃ r ∈ requests, partitionOf index r = part
  · have records : recordsFor c s index requests part ≠ [] := recordsFor_ne_nil.mpr used
    obtain ⟨r, hr, rfl⟩ := used
    obtain ⟨node, home, text, -⟩ := placed.read r hr
    have read : readAddress (serverText c (partitionOf index r)) = node.address := by
      simp only [readAddress, text]
    have home' : serverOf c (partitionOf index r) = some node.address := by
      rw [serverOf, home, Option.map_some]
    have used : ∃ r' ∈ requests, partitionOf index r' = partitionOf index r := ⟨r, hr, rfl⟩
    simp only [blockFor, recordsAt, home', read, used, and_true, Option.some.injEq]
    by_cases there : node.address = a <;> simp [there, records]
  · have records : recordsFor c s index requests part = [] := by
      by_contra some
      exact used (recordsFor_ne_nil.mp some)
    simp [used, blockFor, recordsAt, records]

/-- The script of a task: one list for every partition. -/
theorem run_plays {index : IndexUpdateRequest → Str} {requests : List IndexUpdateRequest}
    (placed : Placed c s index requests) :
    ∃ script, Plays (Asks s) (Acts s) (run c requests) script (.ok .OK) ∧
      ∀ a part, listsFor a part script = blockFor c s index requests a part := by
  obtain ⟨indexMap, all, first⟩ := getParentPathToIndexPathMap_plays placed
  have masters : ∀ path ∈ requests.map (·.filePath), Named (c.masterMap.getByPath path) := by
    intro path hp
    obtain ⟨r, hr, rfl⟩ := List.mem_map.mp hp
    exact placed.master r hr
  have homes (r : IndexUpdateRequest) (hr : r ∈ requests) : ∃ node,
      (c.indexServerMap.getByPath (partitionOf index r)).2 = some node := by
    obtain ⟨node, home, -, -⟩ := placed.server r hr
    exact ⟨node, home⟩
  refine ⟨_, ?_, listsFor_actions placed⟩
  refine first.bind_nil ?_
  simp only [Status.ok_OK, Bool.not_true, Bool.false_eq_true, if_false, reorder_eq homes all,
    bind_eq, ret_bind]
  refine (findObjects_plays masters).bind_nil ?_
  simp only [Status.ok_OK, Bool.not_true, Bool.false_eq_true, if_false]
  refine updateOn_plays _ fun e he => ?_
  have entry := ExtTreeMap.mem_toList_iff_getElem?_eq_some.mp he
  obtain ⟨pos, inside, text⟩ := (mem_group₂ _ _ _ _).mp ((mem_iff_exists _ _).mpr ⟨_, entry⟩)
  rw [List.mem_range] at inside
  have here := List.getElem?_eq_getElem inside
  have mine : partitionAt index requests pos = partitionOf index requests[pos] := by
    rw [partitionAt, List.getD_eq_getElem?_getD, here, Option.getD_some]
  obtain ⟨node, -, read, -⟩ := placed.read _ (List.mem_of_getElem? here)
  rw [← mine, text] at read
  refine ⟨node.address, read, fun part hp => ?_⟩
  obtain ⟨text', r, hr, rfl⟩ := (mem_requestMapOf entry).mp hp
  obtain ⟨node', -, read', there⟩ := placed.read r hr
  rw [text', read] at read'
  exact Prog.ret.inj read' ▸ there

end Vsfs.Client

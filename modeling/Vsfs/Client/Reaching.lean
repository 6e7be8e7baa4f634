import Vsfs.Client.Addressing
import Vsfs.Client.Conjunction
import Vsfs.Common.Md5
import Vsfs.Masterd.Registration

/-!
# One key for every operation

An update looks for the index from the directory of the file upwards. Together with what is
sent by the other operations this gives one path and one server for each index.

## Main results

- `partition_reached`: for a normalised root and a plain name all operations send the same path
  to the same server.
-/

namespace Vsfs.Client

open Std Program Prog Masterd Indexd Index FiniteMap Grouping VSFSRpcClient IndexUpdateTask

section Reaching

variable {K : Type} [LinearOrder K] [FsPath] [PathHash] [ConsistentHashMap]

/-! ## Updating -/

/-- The nearest directory with an index of the name, from a directory upwards. -/
inductive Nearest (c : VSFSRpcClient) (s : Servers K) (name : Str) : Str → Str → Prop where
  | here {dir : Str} (there : IsDirectory c s (PathUtil.indexPath dir name)) :
      Nearest c s name dir dir
  | up {dir root : Str} (absent : ¬ IsDirectory c s (PathUtil.indexPath dir name))
      (below : dir ≠ ['/']) (rest : Nearest c s name (FsPath.parentPath dir) root) :
      Nearest c s name dir root

theorem Nearest.unique {c : VSFSRpcClient} {s : Servers K} {name dir root root' : Str}
    (h : Nearest c s name dir root) (h' : Nearest c s name dir root') : root = root' := by
  induction h with
  | here there =>
    cases h' with
    | here => rfl
    | up absent => exact absurd there absent
  | up absent _ _ ih =>
    cases h' with
    | here there => exact absurd there absent
    | up _ _ rest => exact ih rest

variable {c : VSFSRpcClient} {s : Servers K}

/-- The loop returns the path of the nearest index. -/
theorem findIndex_always (name dir : Str) (sent : List Message) :
    Always (Watched s) (fun r sent' => sent' = sent ∧ ∀ status path,
      r = .ok (status, some path) →
        ∃ root, Nearest c s name dir root ∧ path = PathUtil.indexPath root name)
      (findIndex c name dir) sent := by
  -- What is nearest to a directory that the loop comes to is nearest to the first one.
  have turn (x : Str) (sent' : List Message)
      (inv : sent' = sent ∧ ∀ root, Nearest c s name x root → Nearest c s name dir root) :
      Always (Watched s) (Turns (Watched s)
        (fun x sent' => sent' = sent ∧ ∀ root, Nearest c s name x root → Nearest c s name dir root)
        .ret fun r sent' => sent' = sent ∧ ∀ status path, r = .ok (status, some path) →
          ∃ root, Nearest c s name dir root ∧ path = PathUtil.indexPath root name)
        (findIndexTurn c name x) sent' := by
    obtain ⟨rfl, nearer⟩ := inv
    refine .bind ((getattrStat_always _ _).imp fun r sent ⟨same, seen⟩ => ?_)
    cases r with
    | error exit => exact ⟨same, by simp⟩
    | ok out =>
      obtain ⟨status, stat⟩ := out
      have seen := seen status stat rfl
      cases isDir : stat.any fun st => S_ISDIR st.mode with
      | true =>
        simp only [Leads, isDir, if_true]
        refine .ret (.ret ⟨same, fun status' path same' => ?_⟩)
        cases same'
        exact ⟨x, nearer x (.here (seen.isDir isDir)), rfl⟩
      | false =>
        simp only [Leads, isDir, Bool.false_eq_true, if_false]
        split
        · exact .ret (.ret ⟨same, by simp⟩)
        · rename_i passed
          split
          · exact .ret (.ret ⟨same, by simp⟩)
          · rename_i below
            have cause : status.ok = true ∨ status.error = -ENOENT := by
              by_cases ok : status.ok = true
              · exact .inl ok
              · exact .inr (by_contra fun other => passed ⟨by simpa using ok, other⟩)
            exact .ret ⟨same, fun root rest =>
              nearer root (.up (seen.notDir isDir cause) below rest)⟩
  exact .iter turn ⟨rfl, fun _ nearest => nearest⟩

/-- The map only has the nearest indices. -/
def Right (c : VSFSRpcClient) (s : Servers K) (indexMap : ParentPathToIndexPathMap) : Prop :=
  ∀ dir name path, lookup indexMap dir name = some path →
    ∃ root, Nearest c s name dir root ∧ path = PathUtil.indexPath root name

theorem findIndices_always (indexMap : ParentPathToIndexPathMap) (right : Right c s indexMap)
    (names : List (Str × Str)) (sent : List Message) :
    Always (Watched s) (fun r sent' => sent' = sent ∧ ∀ status indexMap',
      r = .ok (status, indexMap') → Right c s indexMap') (findIndices c indexMap names) sent := by
  induction names generalizing indexMap with
  | nil =>
    refine .ret ⟨rfl, fun status indexMap' same => ?_⟩
    cases same
    exact right
  | cons e names ih =>
    obtain ⟨parent, name⟩ := e
    refine .bind ((findIndex_always name parent sent).imp fun r sent' ⟨same, found⟩ => ?_)
    subst same
    cases r with
    | error exit => exact ⟨rfl, by simp⟩
    | ok out =>
      obtain ⟨status, path⟩ := out
      cases path with
      | none =>
        refine .ret ⟨rfl, fun status indexMap' same => ?_⟩
        cases same
        exact right
      | some path =>
        refine ih _ fun dir name' path' h => ?_
        rw [lookup_insert] at h
        split at h
        · rename_i same
          cases h
          rw [← same.1, ← same.2]
          exact found status path rfl
        · exact right dir name' path' h

/-- The index that the map has for a request. -/
def indexIn (indexMap : ParentPathToIndexPathMap) (r : IndexUpdateRequest) : Str :=
  (lookup indexMap (FsPath.parentPath r.filePath) r.indexName).getD []

omit [PathHash] [ConsistentHashMap] in
theorem indexOf_cases (indexMap : ParentPathToIndexPathMap) (r : IndexUpdateRequest) :
    (lookup indexMap (FsPath.parentPath r.filePath) r.indexName = none ∧
        ∃ exit, indexOf indexMap r = .throw exit) ∨
      ∃ path, lookup indexMap (FsPath.parentPath r.filePath) r.indexName = some path ∧
        indexOf indexMap r = .ret path := by
  unfold indexOf lookup
  cases (indexMap[FsPath.parentPath r.filePath]?).bind (·[r.indexName]?) with
  | none => exact .inl ⟨rfl, _, rfl⟩
  | some path => exact .inr ⟨path, rfl, rfl⟩

/-- Requests are only sorted when each has an index, and the partition of that a server. -/
theorem reorder_cases (indexMap : ParentPathToIndexPathMap) (requests : List IndexUpdateRequest) :
    (∃ exit, reorderRequestsToIndexServers c indexMap requests = .throw exit) ∨
      ((∀ r ∈ requests, lookup indexMap (FsPath.parentPath r.filePath) r.indexName =
          some (indexIn indexMap r) ∧ ∃ node,
            (c.indexServerMap.getByPath (partitionOf (indexIn indexMap) r)).2 = some node) ∧
        reorderRequestsToIndexServers c indexMap requests =
          .ret (requestMapOf c (indexIn indexMap) requests)) := by
  by_cases all : ∀ r ∈ requests, lookup indexMap (FsPath.parentPath r.filePath) r.indexName =
      some (indexIn indexMap r) ∧ ∃ node,
        (c.indexServerMap.getByPath (partitionOf (indexIn indexMap) r)).2 = some node
  · exact .inr ⟨all, reorder_eq (fun r hr => (all r hr).2) fun r hr => (all r hr).1⟩
  · obtain ⟨r, hr, bad⟩ : ∃ r ∈ requests, ¬ (lookup indexMap (FsPath.parentPath r.filePath)
        r.indexName = some (indexIn indexMap r) ∧ ∃ node,
          (c.indexServerMap.getByPath (partitionOf (indexIn indexMap) r)).2 = some node) := by
      simpa using all
    obtain ⟨pos, inside⟩ := List.getElem?_of_mem hr
    have thrown : ∃ exit, True ∧
        reorderRequestsToIndexServers c indexMap requests = .throw exit := by
      refine foldlM_throws (fun m x _ => ?_) ⟨(r, pos), ?_, fun m => ?_⟩ ∅
      · rcases indexOf_cases indexMap x.1 with ⟨-, exit, thrown⟩ | ⟨path, -, found⟩
        · exact .inl ⟨exit, trivial, by simp only [thrown, bind_eq, throw_bind]⟩
        · simp only [found, bind_eq, ret_bind]
          rcases get_cases c.indexServerMap (PathHash.pathToHash (path ++ "/0".toList)) with
            absent | ⟨node, home⟩
          · exact .inl ⟨_, trivial, by rw [checkGet_none absent, throw_bind]⟩
          · exact .inr ⟨_, by rw [home]; rfl⟩
      · exact List.mem_zipIdx_iff_getElem?.mpr inside
      · rcases indexOf_cases indexMap r with ⟨-, exit, thrown⟩ | ⟨path, here, found⟩
        · exact ⟨exit, by simp only [thrown, bind_eq, throw_bind]⟩
        · have mine : indexIn indexMap r = path := by rw [indexIn, here, Option.getD_some]
          simp only [found, bind_eq, ret_bind]
          rcases get_cases c.indexServerMap (PathHash.pathToHash (path ++ "/0".toList)) with
            absent | ⟨node, home⟩
          · exact ⟨_, by rw [checkGet_none absent, throw_bind]⟩
          · refine absurd ⟨by rw [here, mine], node, ?_⟩ bad
            rw [partitionOf, mine]
            exact congrArg Prod.snd home
    obtain ⟨exit, -, thrown⟩ := thrown
    exact .inl ⟨exit, thrown⟩

/-- The records that a list of positions stands for. -/
abbrev recordsOf (requests : List IndexUpdateRequest) (objectIds : List ObjectId) (part : Str)
    (positions : List Nat) : List RecordUpdateOp :=
  (recordList requests objectIds (part, positions)).recordUpdates

omit [PathHash] [ConsistentHashMap] in
theorem updateOn_always (requests : List IndexUpdateRequest) (objectIds : List ObjectId)
    (entries : List (Str × ExtTreeMap Str (List Nat))) (sent : List Message) :
    Always (Watched s) (fun r sent' => ∃ more, sent' = sent ++ more ∧
      (∀ m ∈ more, ∃ e ∈ entries, stringToAddress e.1 = .ret m.address ∧
        ∃ positions, e.2[m.key]? = some positions ∧
          m.records = recordsOf requests objectIds m.key positions) ∧
      ((∃ status, r = .ok status ∧ status.ok = true) → ∀ e ∈ entries, ∀ part positions,
        e.2[part]? = some positions → ∃ m ∈ more, m.key = part ∧
          m.records = recordsOf requests objectIds part positions))
      (updateOn requests objectIds entries) sent := by
  induction entries generalizing sent with
  | nil => exact .ret ⟨[], by simp, by simp, by simp⟩
  | cons e entries ih =>
    obtain ⟨addr, partitions⟩ := e
    rcases stringToAddress_cases addr with ⟨exit, thrown⟩ | ⟨address, read⟩
    · rw [updateOn, thrown]
      exact .throw ⟨[], by simp, by simp, by simp⟩
    rw [updateOn, read, bind_eq, ret_bind, bind_eq, perform_bind]
    refine .call fun b sent₁ watched => ?_
    obtain ⟨told, kept⟩ := watched
    let first : List Message := partitions.toList.map fun p =>
      ⟨address, p.1, recordsOf requests objectIds p.1 p.2⟩
    have sent₁_eq : sent₁ = sent ++ first := by
      rw [kept]
      simp [Rpc.messages, messagesTo, first, recordList, recordsOf, Function.comp_def]
    have only (m : Message) (mem : m ∈ first) : stringToAddress addr = .ret m.address ∧
        ∃ positions, partitions[m.key]? = some positions ∧
          m.records = recordsOf requests objectIds m.key positions := by
      obtain ⟨⟨part, positions⟩, entry, rfl⟩ := List.mem_map.mp mem
      exact ⟨read, positions, ExtTreeMap.mem_toList_iff_getElem?_eq_some.mp entry, rfl⟩
    cases b with
    | error failure =>
      refine .ret ⟨first, sent₁_eq, fun m mem => ⟨_, List.mem_cons_self, only m mem⟩, ?_⟩
      rintro ⟨status, same, ok⟩
      cases same
      rw [told failure rfl] at ok
      cases ok
    | ok _ =>
      refine (ih sent₁).imp fun r sent' later => ?_
      obtain ⟨more, same, others, all⟩ := later
      refine ⟨first ++ more, by rw [same, sent₁_eq, List.append_assoc], fun m mem => ?_,
        fun done e he part positions found => ?_⟩
      · rcases List.mem_append.mp mem with mem | mem
        · exact ⟨_, List.mem_cons_self, only m mem⟩
        · obtain ⟨e, he, rest⟩ := others m mem
          exact ⟨e, List.mem_cons_of_mem _ he, rest⟩
      · rcases List.mem_cons.mp he with rfl | he
        · refine ⟨_, List.mem_append_left _ (List.mem_map_of_mem
            (ExtTreeMap.mem_toList_iff_getElem?_eq_some.mpr found)), rfl, rfl⟩
        · obtain ⟨m, mem, rest⟩ := all done e he part positions found
          exact ⟨m, List.mem_append_right _ mem, rest⟩

omit [FsPath] in
theorem findObjects_silent (paths : List Str) : (c.findObjects paths).Calls Silent :=
  findObjects_calls c (fun _ _ => rfl) paths

/-- The request is for the index of the partition. -/
def IsFor (c : VSFSRpcClient) (s : Servers K) (r : IndexUpdateRequest) (part : Str) : Prop :=
  ∃ root, Nearest c s r.indexName (FsPath.parentPath r.filePath) root ∧
    part = PathUtil.indexPath root r.indexName ++ "/0".toList

theorem isFor_indexIn {indexMap : ParentPathToIndexPathMap} (right : Right c s indexMap)
    {r : IndexUpdateRequest} (found : lookup indexMap (FsPath.parentPath r.filePath) r.indexName =
      some (indexIn indexMap r)) : IsFor c s r (partitionOf (indexIn indexMap) r) := by
  obtain ⟨root, nearest, path⟩ := right _ _ _ found
  exact ⟨root, nearest, by rw [partitionOf, path]⟩

omit [PathHash] [ConsistentHashMap] [FsPath] in
theorem mem_recordsOf {requests : List IndexUpdateRequest} {objectIds : List ObjectId}
    {part : Str} {positions : List Nat} {record : RecordUpdateOp} :
    record ∈ recordsOf requests objectIds part positions ↔ ∃ pos ∈ positions, ∃ r,
      requests[pos]? = some r ∧ record = toRecord r (objectIds.getD pos 0) := by
  simp [recordsOf, recordList, eq_comm]

omit [FsPath] in
/-- A position of a partition is that of a request for it. -/
theorem mem_positions {index : IndexUpdateRequest → Str} {requests : List IndexUpdateRequest}
    {addr part : Str} {partitions : ExtTreeMap Str (List Nat)} {positions : List Nat}
    (entry : (requestMapOf c index requests)[addr]? = some partitions)
    (found : partitions[part]? = some positions) {pos : Nat} {r : IndexUpdateRequest}
    (here : requests[pos]? = some r) : pos ∈ positions ↔ partitionOf index r = part := by
  have mine : partitionAt index requests pos = partitionOf index r := by
    rw [partitionAt, List.getD_eq_getElem?_getD, here, Option.getD_some]
  rw [positions_requestMapOf entry found, List.mem_filter, mine, List.mem_range]
  simp [(List.getElem?_eq_some_iff.mp here).1]

omit [FsPath] in
/-- The records of an entry are those of the requests for its partition, whose server the entry
is for. -/
theorem requests_of_entry {index : IndexUpdateRequest → Str} {requests : List IndexUpdateRequest}
    (homes : ∀ r ∈ requests, ∃ node,
      (c.indexServerMap.getByPath (partitionOf index r)).2 = some node)
    (objectIds : List ObjectId) {addr part : Str} {partitions : ExtTreeMap Str (List Nat)}
    {positions : List Nat} (entry : (requestMapOf c index requests)[addr]? = some partitions)
    (found : partitions[part]? = some positions) {a : NodeAddress}
    (read : stringToAddress addr = .ret a) :
    serverOf c part = some a ∧ ∀ record ∈ recordsOf requests objectIds part positions,
      ∃ r ∈ requests, partitionOf index r = part ∧ ∃ oid, record = toRecord r oid := by
  obtain ⟨text, r, hr, mine⟩ := (mem_requestMapOf entry).mp ((mem_iff_exists _ _).mpr ⟨_, found⟩)
  obtain ⟨node, home⟩ := homes r hr
  rw [mine] at home
  constructor
  · rw [serverOf, home, Option.map_some, (address_of_read home text read).1]
  · intro record inside
    rw [mem_recordsOf] at inside
    obtain ⟨pos, hp, r', here, rfl⟩ := inside
    exact ⟨r', List.mem_of_getElem? here, (mem_positions entry found here).mp hp, _, rfl⟩

omit [FsPath] in
/-- Every request has an entry with its record. -/
theorem entry_of_request (index : IndexUpdateRequest → Str) {requests : List IndexUpdateRequest}
    (objectIds : List ObjectId) {r : IndexUpdateRequest} (hr : r ∈ requests) :
    ∃ (addr : Str) (partitions : ExtTreeMap Str (List Nat)) (positions : List Nat),
      (requestMapOf c index requests)[addr]? = some partitions ∧
      partitions[partitionOf index r]? = some positions ∧
      ∃ oid, toRecord r oid ∈ recordsOf requests objectIds (partitionOf index r) positions := by
  obtain ⟨pos, here⟩ := List.getElem?_of_mem hr
  obtain ⟨partitions, entry⟩ : ∃ partitions, (requestMapOf c index requests)[
      serverText c (partitionOf index r)]? = some partitions := by
    refine (mem_iff_exists _ _).mp ((mem_group₂ _ _ _ _).mpr
      ⟨pos, List.mem_range.mpr (List.getElem?_eq_some_iff.mp here).1, ?_⟩)
    rw [partitionAt, List.getD_eq_getElem?_getD, here, Option.getD_some]
  obtain ⟨positions, part⟩ := (mem_iff_exists _ _).mp
    ((mem_requestMapOf entry).mpr ⟨rfl, r, hr, rfl⟩)
  refine ⟨_, partitions, positions, entry, part, objectIds.getD pos 0, ?_⟩
  rw [mem_recordsOf]
  exact ⟨pos, (mem_positions entry part here).mpr rfl, r, here, rfl⟩

/-- Every record goes to the server of the partition of its request, and with that partition as
the key; and all do when the task is done. -/
theorem run_addressed (requests : List IndexUpdateRequest) :
    Always (Watched s) (fun r sent =>
      (∀ m ∈ sent, serverOf c m.key = some m.address ∧ ∀ record ∈ m.records,
        ∃ req ∈ requests, IsFor c s req m.key ∧ ∃ oid, record = toRecord req oid) ∧
      ((∃ status, r = .ok status ∧ status.ok = true) → ∀ req ∈ requests,
        ∃ m ∈ sent, IsFor c s req m.key ∧ ∃ oid, toRecord req oid ∈ m.records))
      (run c requests) [] := by
  have right : Right c s ∅ := fun dir name path h => by simp [lookup] at h
  refine .bind ((findIndices_always ∅ right _ []).imp fun r sent told => ?_)
  obtain ⟨rfl, found⟩ := told
  cases r with
  | error exit => exact ⟨by simp, by simp⟩
  | ok out =>
    obtain ⟨status, indexMap⟩ := out
    have right := found status indexMap rfl
    simp only [Leads]
    split
    · rename_i bad
      refine .ret ⟨by simp, ?_⟩
      rintro ⟨status', same, ok⟩
      cases same
      simp [ok] at bad
    rcases reorder_cases (c := c) indexMap requests with ⟨exit, thrown⟩ | ⟨all, sorted⟩
    · rw [thrown]
      exact .throw ⟨by simp, by simp⟩
    rw [sorted, bind_eq, ret_bind]
    refine .bind ((always_of_silent (findObjects_silent _) []).imp fun r sent same => ?_)
    subst same
    cases r with
    | error exit => exact ⟨by simp, by simp⟩
    | ok out =>
      obtain ⟨status', objectIds⟩ := out
      simp only [Leads]
      split
      · rename_i bad
        refine .ret ⟨by simp, ?_⟩
        rintro ⟨status', same, ok⟩
        cases same
        simp [ok] at bad
      refine (updateOn_always requests objectIds _ []).imp fun r sent updated => ?_
      obtain ⟨more, same, only, each⟩ := updated
      rw [List.nil_append] at same
      subst same
      refine ⟨fun m mem => ?_, fun done req hr => ?_⟩
      · obtain ⟨e, he, read, positions, part, records⟩ := only m mem
        have entry := ExtTreeMap.mem_toList_iff_getElem?_eq_some.mp he
        obtain ⟨server, own⟩ :=
          requests_of_entry (fun r hr => (all r hr).2) objectIds entry part read
        refine ⟨server, fun record inside => ?_⟩
        obtain ⟨req, hr, mine, oid, same⟩ := own record (records ▸ inside)
        exact ⟨req, hr, mine ▸ isFor_indexIn right (all req hr).1, oid, same⟩
      · obtain ⟨addr, partitions, positions, entry, part, oid, inside⟩ :=
          entry_of_request (c := c) (indexIn indexMap) objectIds hr
        obtain ⟨m, mem, key, records⟩ := each done _
          (ExtTreeMap.mem_toList_iff_getElem?_eq_some.mpr entry) _ positions part
        exact ⟨m, mem, key ▸ isFor_indexIn right (all req hr).1, oid, records ▸ inside⟩

/-! ## All operations -/

/-- A master of the client has the index registered. -/
def OnMaster (c : VSFSRpcClient) (s : Servers K) (root name : Str) : Prop :=
  ∃ (sep : Int) (node : NodeInfo), c.masterMap.ring[sep]? = some node ∧
    (s.masters node.address).indexNamespace.Registered root name

/-- Whatever is sent goes to the server that the ring has for the key it is sent with. -/
def Directed (c : VSFSRpcClient) (sent : List Message) : Prop :=
  ∀ m ∈ sent, serverOf c m.key = some m.address

/-- The operations on the index of a root and a name send `part`, to the server of `part`. -/
structure KnownAs (c : VSFSRpcClient) (s : Servers K) (root name part : Str) : Prop where
  created : ∀ indexType keyType mode uid gid, Always (Watched s) (fun r sent =>
    Directed c sent ∧ (∀ m ∈ sent, m.key = part) ∧
      ((∃ status, r = .ok status ∧ status.ok = true) → ∃ m ∈ sent, m.key = part))
    (c.createIndex root name indexType keyType mode uid gid) []
  searched : ∀ query, Always (Watched s) (fun r sent =>
    Directed c sent ∧ (OnMaster c s root name → name ∈ query.rangeQueryMap →
      query.root <+: root → Done r → ∃ m ∈ sent, m.key = part))
    (c.search query) []
  listed : ∀ path recursive, Always (Watched s) (fun r sent =>
    Directed c sent ∧ (OnMaster c s root name →
      (if recursive = true then path <+: root else path = root) → Done r →
        ∃ m ∈ sent, m.key = part))
    (c.getIndexInfos path recursive) []
  updated : ∀ requests, Always (Watched s) (fun r sent =>
    Directed c sent ∧
      (∀ m ∈ sent, ∀ record ∈ m.records, ∃ req ∈ requests, IsFor c s req m.key ∧
        ∃ oid, record = toRecord req oid) ∧
      ((∃ status, r = .ok status ∧ status.ok = true) → ∀ req ∈ requests, req.indexName = name →
        Nearest c s name (FsPath.parentPath req.filePath) root →
          ∃ m ∈ sent, m.key = part ∧ ∃ oid, toRecord req oid ∈ m.records))
    (run c requests) []

omit [FsPath] [PathHash] [ConsistentHashMap] in
theorem listed_of_registered {ns : IndexNamespace} {root name : Str} (hr : Normal root)
    (registered : ns.Registered root name) :
    ∃ node, ns.nodes[root]? = some node ∧ name ∈ node.names := by
  obtain ⟨key, node, clean, found, inside⟩ := registered
  rw [IndexNamespace.cleanupPath_normal hr] at clean
  cases clean
  exact ⟨node, found, inside⟩

omit [PathHash] [ConsistentHashMap] in
theorem mem_getIndices {ns : IndexNamespace} {path root name : Str} {recursive : Bool}
    {node : IndexNamespaceNode} (found : ns.nodes[root]? = some node) (inside : name ∈ node.names)
    (under : if recursive = true then path <+: root else path = root) :
    PathUtil.indexPath root name ∈ ns.getIndices path recursive := by
  cases recursive with
  | true =>
    simp only [if_true] at under
    simp only [IndexNamespace.getIndices, if_true, IndexNamespace.subtree_eq_filter]
    refine List.mem_flatMap.mpr ⟨(root, node), List.mem_filter.mpr ⟨?_, ?_⟩, ?_⟩
    · exact ExtTreeMap.mem_toList_iff_getElem?_eq_some.mpr found
    · exact List.isPrefixOf_iff_prefix.mpr under
    · exact List.mem_map_of_mem (ExtTreeSet.mem_toList.mpr inside)
  | false =>
    simp only [Bool.false_eq_true, if_false] at under
    subst under
    simp only [IndexNamespace.getIndices, Bool.false_eq_true, if_false,
      IndexNamespace.getIndexNames, found]
    exact List.mem_map_of_mem (ExtTreeSet.mem_toList.mpr inside)

theorem knownAs_indexPath {root name : Str} (hr : Normal root) (c : VSFSRpcClient) (s : Servers K)
    (same : PathUtil.partitionPath root name 0 = PathUtil.indexPath root name ++ "/0".toList) :
    KnownAs c s root name (PathUtil.indexPath root name ++ "/0".toList) where
  created indexType keyType mode uid gid := by
    refine (createIndex_addressed root name indexType keyType mode uid gid).imp
      fun r sent reached => ?_
    rw [same] at reached
    exact ⟨fun m mem => (reached.only m mem).2, fun m mem => (reached.only m mem).1,
      fun done => reached.all done _ rfl⟩
  searched query := by
    refine (search_addressed query).imp fun r sent reached => ?_
    refine ⟨fun m mem => (reached.only m mem).2, fun ⟨sep, node, onRing, registered⟩ inQuery under
      done => reached.all done _ ?_⟩
    obtain ⟨entry, found, inside⟩ := listed_of_registered hr registered
    exact mem_partitions.mpr ⟨name, inQuery, sep, node, root, onRing,
      IndexNamespace.mem_collect.mpr ⟨entry, found, under, inside⟩, rfl⟩
  listed path recursive := by
    refine (getIndexInfos_addressed path recursive).imp fun r sent reached => ?_
    refine ⟨fun m mem => (reached.only m mem).2, fun ⟨sep, node, onRing, registered⟩ under
      done => reached.all done _ (List.mem_map_of_mem ?_)⟩
    obtain ⟨entry, found, inside⟩ := listed_of_registered hr registered
    refine List.mem_flatMap.mpr ⟨node, List.mem_map.mpr ⟨(sep, node), ?_, rfl⟩,
      mem_getIndices found inside under⟩
    exact ExtTreeMap.mem_toList_iff_getElem?_eq_some.mpr onRing
  updated requests := by
    refine (run_addressed requests).imp fun r sent ⟨only, all⟩ => ?_
    refine ⟨fun m mem => (only m mem).1, fun m mem => (only m mem).2,
      fun done req hr' named nearest => ?_⟩
    subst named
    obtain ⟨m, mem, ⟨root', nearest', key⟩, record⟩ := all done req hr'
    rw [nearest'.unique nearest] at key
    exact ⟨m, mem, key, record⟩

/-- Every operation spells the partition of an index in the same way, and so goes to the same
server with the same key. -/
theorem partition_reached [LawfulFsPath] {root name : Str} (hr : Normal root) (hn : Plain name)
    (c : VSFSRpcClient) (s : Servers K) :
    IndexNamespace.cleanupPath root = .ok root ∧
      FsPath.join (FsPath.join root ".vsfs".toList) name ++ "/0".toList =
        PathUtil.partitionPath root name 0 ∧
      PathUtil.indexPath root name ++ "/0".toList = PathUtil.partitionPath root name 0 ∧
      KnownAs c s root name (PathUtil.partitionPath root name 0) := by
  have same := PathUtil.partitionPath_zero hr hn
  refine ⟨IndexNamespace.cleanupPath_normal hr, same.symm, same.symm, ?_⟩
  have known := knownAs_indexPath hr c s same
  rwa [← same] at known

end Reaching

section Example

attribute [local instance] SortedRing.consistentHashMap Posix.fsPath Md5.pathHash

/-- The index `a` of the root directory. -/
theorem partition_reached_root :
    KnownAs oneServer rootOnly ['/'] "a".toList "/.vsfs/a/0".toList ∧
      serverOf oneServer "/.vsfs/a/0".toList = some ⟨"i".toList, 2⟩ := by
  have path : PathUtil.partitionPath ['/'] "a".toList 0 = "/.vsfs/a/0".toList := by
    decide +kernel
  refine ⟨?_, by decide +kernel⟩
  rw [← path]
  exact (partition_reached .root (by decide) oneServer rootOnly).2.2.2

end Example

end Vsfs.Client

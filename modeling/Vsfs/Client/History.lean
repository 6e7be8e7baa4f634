import Vsfs.Client.Granted

/-!
# Histories

The states that successful calls of `mkdir`, `create`, `create_index` and `update` lead to, from
a cluster without files and indices on. A history keeps the files that were made, and the
entries that updates have put into indices and not taken out since.

## Main results

* `kept_of_history` : what the history says, the servers have.
-/

namespace Vsfs.Client

open Std Program Prog Masterd Indexd Index Replay FiniteMap VSFSRpcClient IndexUpdateTask
open RangeIndexWrapper (batchWrites)

section History

variable {K : Type} [LinearOrder K]

/-! ## Entries -/

/-- The key of a file in the index of a name on a directory. -/
structure Entry (K : Type) where
  file : Str
  root : Str
  name : Str
  keyType : Int
  key : K
  normal : Normal root
  plain : Plain name

variable [FsPath] [PathHash] [ConsistentHashMap]

omit [LinearOrder K] [PathHash] [ConsistentHashMap] in
def Entry.part (e : Entry K) : Str := PathUtil.indexPath e.root e.name ++ "/0".toList

omit [FsPath] in
/-- What the index has for the entry. -/
def Entry.pair (c : VSFSRpcClient) (s : Servers K) (e : Entry K) : K × ObjectId :=
  (e.key, objectOf c s e.file)

open Classical in
/-- The records that requests have for a partition, in their order. -/
noncomputable def recordsTo (c : VSFSRpcClient) (s : Servers K)
    (requests : List IndexUpdateRequest) (part : Str) : List RecordUpdateOp :=
  (requests.filter fun r => IsFor c s r part).map fun r => toRecord r (objectOf c s r.filePath)

variable [KeyTypes K]

/-- One of the requests puts the entry into the nearest index. -/
structure Inserted (c : VSFSRpcClient) (s : Servers K) (files : Set Str)
    (requests : List IndexUpdateRequest) (e : Entry K) : Prop where
  file : e.file ∈ files
  request : ∃ r ∈ requests, r.filePath = e.file ∧ r.indexName = e.name ∧
    RangeIndex.toWrite e.keyType (toRecord r (objectOf c s e.file)) = some ⟨e.pair c s, true⟩
  nearest : Nearest c s e.name (FsPath.parentPath e.file) e.root
  keyType : ∃ a w, serverOf c e.part = some a ∧
    (s.indexServers a).rangeIndexMap[e.part]? = some w ∧ w.index.keyType = e.keyType

/-- No task ends with taking the entry out. -/
def Spared (c : VSFSRpcClient) (batchSize : Nat) (s : Servers K)
    (requests : List IndexUpdateRequest) (e : Entry K) : Prop :=
  ∀ task ∈ tasksOf batchSize requests,
    last (RangeIndex.writes K e.keyType (recordsTo c s task e.part)) (e.pair c s) ≠ some false

/-! ## What the servers have -/

omit [FsPath] [PathHash] [ConsistentHashMap] [KeyTypes K] in
/-- No master has given out more than `n` object ids. -/
def Counts (s : Servers K) (n : Nat) : Prop :=
  ∀ a, ∃ start, ∃ m ≤ n, Namespace.Counted start m (s.masters a).namespace

/-- The index of the entry has it, once its log is applied. -/
def Recorded (c : VSFSRpcClient) (s : Servers K) (e : Entry K) : Prop :=
  ∃ a w, serverOf c e.part = some a ∧ (s.indexServers a).rangeIndexMap[e.part]? = some w ∧
    w.index.keyType = e.keyType ∧ e.pair c s ∈ loggedPairs w

/-- All files and entries are there. -/
structure Kept (c : VSFSRpcClient) (s : Servers K) (files : Set Str) (entries : Set (Entry K))
    (n : Nat) : Prop where
  counts : Counts s n
  usable : ∀ a, (s.indexServers a).Usable
  roots : ∀ {a : NodeAddress} {root : Str}, root ∈ (s.masters a).indexNamespace.nodes → Normal root
  filed : ∀ f ∈ files, ∃ o, Filed c s f o
  recorded : ∀ e ∈ entries, e.file ∈ files ∧ Recorded c s e

/-- Every partition belongs to an index that a master has registered. -/
def AllRegistered (c : VSFSRpcClient) (s : Servers K) : Prop :=
  ∀ a, ∀ part ∈ (s.indexServers a).rangeIndexMap, ∃ root name, Normal root ∧ Plain name ∧
    part = PathUtil.partitionPath root name 0 ∧ OnMaster c s root name

/-! ## New files and partitions -/

variable {c : VSFSRpcClient} {batchSize : Nat} {s s' : Servers K} {files : Set Str}
  {entries : Set (Entry K)} {n k : Nat}

omit [FsPath] [PathHash] [ConsistentHashMap] [KeyTypes K] in
theorem Counts.extends (h : Counts s n) (more : s.Extends k s') : Counts s' (n + k) := by
  intro a
  obtain ⟨start, m, le, counted⟩ := h a
  obtain ⟨m', le', counted'⟩ := (more.masters a).files.counted counted
  exact ⟨start, m', by omega, counted'⟩

omit [FsPath] [KeyTypes K] in
theorem Filed.extends {path : Str} {o : ObjectId} (h : Filed c s path o) (counts : Counts s n)
    (more : s.Extends k s') (few : n + k ≤ 2 ^ 48) : Filed c s' path o := by
  obtain ⟨node, m, home, found, same, back⟩ := h
  obtain ⟨start, m', le, counted⟩ := counts node.address
  have files := (more.masters node.address).files
  exact ⟨node, m, home, files.records found, same, files.ids counted (by omega) back⟩

omit [FsPath] [KeyTypes K] in
theorem Filed.objectOf {path : Str} {o : ObjectId} (h : Filed c s path o) :
    objectOf c s path = o := by
  obtain ⟨node, m, home, found, same, -⟩ := h
  simp [Client.objectOf, home, found, same]

theorem Kept.extends (h : Kept c s files entries n) (more : s.Extends k s') (few : n + k ≤ 2 ^ 48) :
    Kept c s' files entries (n + k) where
  counts := h.counts.extends more
  usable := by
    rw [more.indexServers]
    exact h.usable
  roots there := by
    rcases (more.masters _).roots there with old | new
    · exact h.roots old
    · exact new
  filed f hf := by
    obtain ⟨o, filed⟩ := h.filed f hf
    exact ⟨o, filed.extends h.counts more few⟩
  recorded e he := by
    obtain ⟨hf, a, w, server, found, type, logged⟩ := h.recorded e he
    obtain ⟨o, filed⟩ := h.filed e.file hf
    have same : e.pair c s' = e.pair c s := by
      rw [Entry.pair, Entry.pair, (filed.extends h.counts more few).objectOf, filed.objectOf]
    refine ⟨hf, a, w, server, ?_, type, ?_⟩
    · rw [more.indexServers]
      exact found
    · rw [same]
      exact logged

theorem Kept.addFile (h : Kept c s files entries n) {path : Str} (added : FileAdded c path s s')
    (few : n + 1 ≤ 2 ^ 48) : Kept c s' (insert path files) entries (n + 1) := by
  obtain ⟨s₁, o, made, filed, more⟩ := added
  have now := h.extends made few
  have both : Kept c s₁ (insert path files) entries (n + 1) := by
    refine ⟨now.counts, now.usable, now.roots, ?_, ?_⟩
    · rintro f (rfl | hf)
      · exact ⟨o, filed⟩
      · exact now.filed f hf
    · intro e he
      exact ⟨.inr (now.recorded e he).1, (now.recorded e he).2⟩
  exact both.extends more few

/-- A new partition leaves the indices alone. -/
theorem Kept.addPartition (h : Kept c s files entries n) {a : NodeAddress} {id : TxnId}
    {path name : Str} {indexType keyType : Int} {im : IndexManager K}
    (made : (s.indexServers a).create id path name indexType keyType = (.OK, im)) :
    Kept c (s.setIndexServer a im) files entries n := by
  obtain ⟨usable, others, -⟩ := (h.usable a).create made
  refine ⟨h.counts, ?_, h.roots, h.filed, ?_⟩
  · intro a'
    by_cases same : a' = a
    · subst same
      simpa using usable
    · simpa [same] using h.usable a'
  · intro e he
    obtain ⟨hf, a', w, server, found, rest⟩ := h.recorded e he
    refine ⟨hf, a', w, server, ?_, rest⟩
    by_cases same : a' = a
    · subst same
      simpa using others _ _ found
    · simpa [same] using found

/-! ## Updates -/

variable {requests : List IndexUpdateRequest}

omit [KeyTypes K] in
/-- The records for a partition, when `index` says which index is the nearest. -/
theorem recordsTo_eq {index : IndexUpdateRequest → Str} {task : List IndexUpdateRequest}
    (near : ∀ r ∈ task, ∃ root, Nearest c s r.indexName (FsPath.parentPath r.filePath) root ∧
      index r = PathUtil.indexPath root r.indexName) {a : NodeAddress} {part : Str}
    (server : serverOf c part = some a) :
    recordsTo c s task part = recordsAt c s index task a part := by
  rw [recordsAt, if_pos server, recordsTo, recordsFor]
  congr 1
  refine List.filter_congr ?_
  intro r hr
  obtain ⟨root, nearest, same⟩ := near r hr
  refine decide_eq_decide.mpr ⟨?_, ?_⟩
  · rintro ⟨root', nearest', rfl⟩
    rw [partitionOf, same, nearest.unique nearest']
  · rintro rfl
    exact ⟨root, nearest, by rw [partitionOf, same]⟩

/-- What no task ends with taking out stays in an index, and what a task puts in is there. -/
theorem loggedPairs_of_spared {index : IndexUpdateRequest → Str}
    (near : ∀ r ∈ requests, ∃ root, Nearest c s r.indexName (FsPath.parentPath r.filePath) root ∧
      index r = PathUtil.indexPath root r.indexName) {e : Entry K} {a : NodeAddress}
    (server : serverOf c e.part = some a) {w w' : RangeIndexWrapper K} (same : w'.index = w.index)
    (type : w.index.keyType = e.keyType) {lists : List RecordUpdateList}
    (log : w'.logManager.log.map (·.record) = w.logManager.log.map (·.record) ++ lists)
    (perm : lists.Perm ((tasksOf batchSize requests).flatMap fun task =>
      blockFor c s index task a e.part)) (spared : Spared c batchSize s requests e)
    (inside : e.pair c s ∈ loggedPairs w ∨ Inserted c s files requests e) :
    e.pair c s ∈ loggedPairs w' := by
  have mine (task : List IndexUpdateRequest) (ht : task ∈ tasksOf batchSize requests) :
      recordsTo c s task e.part = recordsAt c s index task a e.part := by
    refine recordsTo_eq ?_ server
    intro r hr
    refine near r ?_
    rw [← flatten_tasksOf batchSize requests]
    exact List.mem_flatten.mpr ⟨task, ht, hr⟩
  have pairs : loggedPairs w' = replay (lists.map fun l =>
      RangeIndex.writes K e.keyType l.recordUpdates).flatten (loggedPairs w) := by
    rw [loggedPairs, loggedPairs, same, log, RangeIndexWrapper.batchWrites_append, replay_append,
      type, batchWrites, batchWrites, List.flatMap_def, List.flatMap_def]
  rw [pairs]
  refine mem_replay_of_spared ?_ ?_
  · intro b hb
    obtain ⟨l, hl, rfl⟩ := List.mem_map.mp hb
    obtain ⟨task, ht, block⟩ := List.mem_flatMap.mp (perm.subset hl)
    rw [(mem_blockFor.mp block).2, ← mine task ht]
    exact spared task ht
  · refine inside.imp_right ?_
    rintro ⟨-, ⟨r, hr, file, name, written⟩, nearest, -⟩
    rw [← flatten_tasksOf batchSize requests] at hr
    obtain ⟨task, ht, hr⟩ := List.mem_flatten.mp hr
    have isFor : IsFor c s r e.part := ⟨e.root, by rwa [name, file], by rw [name]; rfl⟩
    have record : toRecord r (objectOf c s e.file) ∈ recordsAt c s index task a e.part := by
      rw [← mine task ht, recordsTo, ← file]
      exact List.mem_map_of_mem (List.mem_filter.mpr ⟨hr, by simpa using isFor⟩)
    refine ⟨_, List.mem_map_of_mem (perm.symm.subset (List.mem_flatMap.mpr ⟨task, ht,
      mem_blockFor.mpr ⟨List.ne_nil_of_mem record, rfl⟩⟩)), ?_⟩
    rw [ne_eq, last_eq_none_iff, not_not]
    exact ⟨_, List.mem_filterMap.mpr ⟨_, record, written⟩, rfl⟩

variable [ThriftSerialize FileMetadata] [ThriftSerialize IndexNamespaceNode]

theorem Kept.update (h : Kept c s files entries n) (reachable : Reachable c)
    (succeeded : Succeeded c batchSize s requests s') :
    Kept c s' files {e | (e ∈ entries ∨ Inserted c s files requests e) ∧
      Spared c batchSize s requests e} n := by
  obtain ⟨index, placed, near⟩ :=
    placed_of_succeeded reachable (fun a => (h.usable a).takes) succeeded
  have along := succeeded.runs.1
  refine ⟨?_, ?_, ?_, ?_, ?_⟩
  · intro a
    rw [along.masters]
    exact h.counts a
  · intro a
    refine ⟨?_, ?_, ?_⟩
    · intro part hp
      rw [along.infos] at hp
      obtain ⟨entry, w, known, tree, found⟩ := (h.usable a).takes part hp
      obtain ⟨w', lists, found', -⟩ := updated_lists placed succeeded.updated found
      exact ⟨entry, w', by rw [along.infos, known], tree, found'⟩
    · intro part hp
      obtain ⟨w', found'⟩ := (mem_iff_exists _ _).mp hp
      obtain ⟨w, found, -⟩ := along.logs a part w' found'
      rw [along.infos]
      exact (h.usable a).known part ((mem_iff_exists _ _).mpr ⟨w, found⟩)
    · intro part w' found' r hr
      obtain ⟨w, found, new⟩ := along.logs a part w' found'
      rcases new r hr with old | zero
      · exact (h.usable a).logs part w found r old
      · exact zero
  · intro a root there
    rw [along.masters] at there
    exact h.roots there
  · intro f hf
    obtain ⟨o, node, m, rest⟩ := h.filed f hf
    exact ⟨o, node, m, by rw [along.masters]; exact rest⟩
  · rintro e ⟨inside, spared⟩
    have same : e.pair c s' = e.pair c s := by
      simp only [Entry.pair, objectOf, along.masters]
    obtain ⟨hf, a, w, server, found, type, now⟩ : e.file ∈ files ∧ ∃ a w,
        serverOf c e.part = some a ∧ (s.indexServers a).rangeIndexMap[e.part]? = some w ∧
        w.index.keyType = e.keyType ∧
        (e.pair c s ∈ loggedPairs w ∨ Inserted c s files requests e) := by
      rcases inside with old | new
      · obtain ⟨hf, a, w, server, found, type, logged⟩ := h.recorded e old
        exact ⟨hf, a, w, server, found, type, .inl logged⟩
      · obtain ⟨a, w, server, found, type⟩ := new.keyType
        exact ⟨new.file, a, w, server, found, type, .inr new⟩
    obtain ⟨w', lists, found', index', log, perm⟩ := updated_lists placed succeeded.updated found
    refine ⟨hf, a, w', server, found', by rw [index', type], ?_⟩
    rw [same]
    exact loggedPairs_of_spared near server index' type log perm spared now

/-! ## Runs of calls -/

omit [FsPath] [PathHash] [ConsistentHashMap] [KeyTypes K] [ThriftSerialize FileMetadata]
  [ThriftSerialize IndexNamespaceNode] in
/-- There are neither files nor indices. -/
structure EmptyCluster (s : Servers K) : Prop where
  files : ∀ a, (s.masters a).namespace.idToPathMap = ∅
  indices : ∀ a, (s.masters a).indexNamespace.nodes = ∅
  partitions : ∀ a, (s.indexServers a).indexInfoMap = ∅ ∧ (s.indexServers a).rangeIndexMap = ∅

/-- Successful calls lead to the servers; `n` of them have made a file. Indices are created on
normalised paths, under plain names. -/
inductive History (c : VSFSRpcClient) (batchSize : Nat) :
    Servers K → Set Str → Set (Entry K) → Nat → Prop where
  | start {s : Servers K} (empty : EmptyCluster s) : History c batchSize s ∅ ∅ 0
  | mkdir {s s' : Servers K} {files : Set Str} {entries : Set (Entry K)} {n : Nat} {path : Str}
      {mode uid gid : BitVec 64} {status : Status} (before : History c batchSize s files entries n)
      (run : Evals Granted (c.mkdir path mode uid gid) s (.ok status) s') (ok : status.ok = true) :
      History c batchSize s' files entries n
  | create {s s' : Servers K} {files : Set Str} {entries : Set (Entry K)} {n : Nat} {path : Str}
      {mode uid gid : BitVec 64} {status : Status} {oid : Option ObjectId}
      (before : History c batchSize s files entries n)
      (run : Evals Granted (c.create path mode uid gid) s (.ok (status, oid)) s')
      (ok : status.ok = true) : History c batchSize s' (insert path files) entries (n + 1)
  | createIndex {s s' : Servers K} {files : Set Str} {entries : Set (Entry K)} {n : Nat}
      {root name : Str} {indexType keyType : BitVec 32} {mode uid gid : BitVec 64}
      {status : Status} (before : History c batchSize s files entries n) (onPath : Normal root)
      (named : Plain name)
      (run : Evals Granted (c.createIndex root name indexType keyType mode uid gid) s
        (.ok status) s')
      (ok : status.ok = true) :
      History c batchSize s' (insert (PathUtil.partitionPath root name 0) files) entries (n + 1)
  | update {s s' : Servers K} {files : Set Str} {entries : Set (Entry K)} {n : Nat}
      {requests : List IndexUpdateRequest} (before : History c batchSize s files entries n)
      (succeeded : Succeeded c batchSize s requests s') :
      History c batchSize s' files {e | (e ∈ entries ∨ Inserted c s files requests e) ∧
        Spared c batchSize s requests e} n

omit [KeyTypes K] [PathHash] [ConsistentHashMap] [ThriftSerialize FileMetadata]
  [ThriftSerialize IndexNamespaceNode] in
theorem AllRegistered.extends (h : AllRegistered c s) (more : s.Extends k s') :
    AllRegistered c s' := by
  intro a part there
  rw [more.indexServers] at there
  obtain ⟨root, name, hr, hn, same, onMaster⟩ := h a part there
  exact ⟨root, name, hr, hn, same, onMaster.extends more⟩

omit [ThriftSerialize FileMetadata] [ThriftSerialize IndexNamespaceNode] in
theorem EmptyCluster.kept (empty : EmptyCluster s) : Kept c s ∅ (∅ : Set (Entry K)) 0 where
  counts a := ⟨(s.masters a).namespace.nextObjId, 0, Nat.le_refl 0, by simp, by simp [empty.files]⟩
  usable a := by
    obtain ⟨infos, indices⟩ := empty.partitions a
    exact ⟨by simp [infos], by simp [indices], by simp [indices]⟩
  roots {a root} there := by simp [empty.indices] at there
  filed f hf := hf.elim
  recorded e he := he.elim

variable [LawfulConsistentHashMap]

/-- What a history says, the servers have, while the object ids do not run out. -/
theorem kept_of_history (reachable : Reachable c) (h : History c batchSize s files entries n)
    (few : n ≤ 2 ^ 48) : Kept c s files entries n := by
  induction h with
  | start empty => exact empty.kept
  | @mkdir s s' files entries n path mode uid gid status _ run _ ih =>
    have more := mkdir_granted reachable path mode uid gid s _ _ run
    exact (ih few).extends more.1 few
  | @create s s' files entries n path mode uid gid status oid _ run _ ih =>
    have made := create_granted reachable path mode uid gid s _ _ run status oid rfl
    exact (ih (by omega)).addFile made.2 few
  | @createIndex s s' files entries n root name indexType keyType mode uid gid status _ hr hn run ok
      ih =>
    obtain ⟨a, id, type, keyType', im, s₁, made, more, -, added⟩ := createIndex_granted reachable hr
      name indexType keyType mode uid gid s _ _ run status rfl ok
    exact (((ih (by omega)).addPartition made).extends more (by omega)).addFile added few
  | update _ succeeded ih => exact (ih few).update reachable succeeded

/-- Whatever has a log, a master has registered. -/
theorem allRegistered_of_history (reachable : Reachable c)
    (h : History c batchSize s files entries n) (few : n ≤ 2 ^ 48) : AllRegistered c s := by
  induction h with
  | start empty =>
    intro a part there
    simp [(empty.partitions a).2] at there
  | @mkdir s s' files entries n path mode uid gid status _ run _ ih =>
    have more := mkdir_granted reachable path mode uid gid s _ _ run
    exact (ih few).extends more.1
  | @create s s' files entries n path mode uid gid status oid _ run _ ih =>
    obtain ⟨s₁, o, made, -, more⟩ :=
      (create_granted reachable path mode uid gid s _ _ run status oid rfl).2
    exact ((ih (by omega)).extends made).extends more
  | @createIndex s s' files entries n root name indexType keyType mode uid gid status before hr hn
      run ok ih =>
    obtain ⟨a, id, type, keyType', im, s₁, made, more, onMaster, s₂, o, made', -, more'⟩ :=
      createIndex_granted reachable hr name indexType keyType mode uid gid s _ _ run status rfl ok
    have now : AllRegistered c s₁ := by
      obtain ⟨-, -, only⟩ := ((kept_of_history reachable before (by omega)).usable a).create made
      intro a' part there
      rw [more.indexServers] at there
      have cases : part ∈ (s.indexServers a').rangeIndexMap ∨
          part = PathUtil.partitionPath root name 0 := by
        by_cases same : a' = a
        · subst same
          exact only part (by simpa using there)
        · exact .inl (by simpa [same] using there)
      rcases cases with old | rfl
      · obtain ⟨root', name', hr', hn', same, sep, node, onRing, registered⟩ :=
          ih (by omega) a' part old
        exact ⟨root', name', hr', hn', same, sep, node, onRing,
          (more.masters _).registered registered⟩
      · exact ⟨root, name, hr, hn, rfl, onMaster⟩
    exact (now.extends made').extends more'
  | update _ succeeded ih =>
    have along := succeeded.runs.1
    intro a part there
    obtain ⟨w', found'⟩ := (mem_iff_exists _ _).mp there
    obtain ⟨w, found, -⟩ := along.logs a part w' found'
    obtain ⟨root, name, hr, hn, same, sep, node, onRing, registered⟩ :=
      ih few a part ((mem_iff_exists _ _).mpr ⟨w, found⟩)
    exact ⟨root, name, hr, hn, same, sep, node, onRing, by rw [along.masters]; exact registered⟩

end History

end Vsfs.Client

import Vsfs.Client.Placement
import Vsfs.Indexd.Deferred

/-!
# The order of updates

The requests of one call of `update` are time-ordered, but its tasks run side by side, and
the list that a task sends for an index is applied when it arrives. The requests take effect
in their order, whatever the schedule, exactly when the tasks that write a pair of key and
object id leave it alike.

## Main results

* `update_in_order_iff` : for every call whose requests can all be served.
-/

namespace Vsfs.Client

open Std Program Prog Masterd Indexd Index Replay FiniteMap Grouping VSFSRpcClient IndexUpdateTask
open RangeIndexWrapper (batchWrites batchWrites_append applyRecords applyRecords_spec
  applyRecords_ok_iff)

/-! ## Contents of an index -/

section Contents

variable {K : Type} [LinearOrder K] [KeyTypes K]

/-- An index can be read when all of its records were applied. -/
def readable (applied : Status × RangeIndex K) : Option (RangeIndex K) :=
  if applied.1.ok then some applied.2 else none

/-- The contents of an index, with its whole log applied. -/
def contents (w : RangeIndexWrapper K) : Option (RangeIndex K) :=
  readable (applyRecords w.index (w.logManager.log.map (·.record)))

/-- The contents after some records, applied one after the other. -/
def contentsAfter (w : RangeIndexWrapper K) (records : List RecordUpdateOp) :
    Option (RangeIndex K) :=
  (contents w).bind fun index => readable (index.apply records)

/-- The pairs of an index, with its whole log applied. -/
def loggedPairs (w : RangeIndexWrapper K) : Set (K × ObjectId) :=
  replay (batchWrites K w.index.keyType (w.logManager.log.map (·.record))) w.index.pairs

/-- All records of the log are well formed. -/
def WellLogged (w : RangeIndexWrapper K) : Prop :=
  ∀ b ∈ w.logManager.log.map (·.record), RangeIndex.WellFormed K w.index.keyType b.recordUpdates

theorem contents_of_wellLogged {w : RangeIndexWrapper K} (h : WellLogged w) :
    ∃ index, contents w = some index ∧ index.keyType = w.index.keyType ∧
      index.pairs = loggedPairs w := by
  obtain ⟨ok, type, rel⟩ := applyRecords_spec h
  exact ⟨_, by simp [contents, readable, ok], type, rel⟩

theorem contents_of_not_wellLogged {w : RangeIndexWrapper K} (h : ¬ WellLogged w) :
    contents w = none := by
  have bad : ¬ (applyRecords w.index (w.logManager.log.map (·.record))).1.ok = true :=
    fun ok => h ((applyRecords_ok_iff _ _).mp ok)
  simp [contents, readable, bad]

/-- The contents after more lists in the log are those after some records, when both have
the same to say. -/
theorem contents_eq_contentsAfter_iff {w w' : RangeIndexWrapper K} {lists : List RecordUpdateList}
    {records : List RecordUpdateOp} (index : w'.index = w.index)
    (log : w'.logManager.log.map (·.record) = w.logManager.log.map (·.record) ++ lists)
    (same : (∀ b ∈ lists, RangeIndex.WellFormed K w.index.keyType b.recordUpdates) ↔
      RangeIndex.WellFormed K w.index.keyType records) :
    contents w' = contentsAfter w records ↔
      (WellLogged w → RangeIndex.WellFormed K w.index.keyType records →
        replay (batchWrites K w.index.keyType lists) (loggedPairs w) =
          replay (RangeIndex.writes K w.index.keyType records) (loggedPairs w)) := by
  have logged : WellLogged w' ↔
      WellLogged w ∧ RangeIndex.WellFormed K w.index.keyType records := by
    simp only [WellLogged, index, log, List.mem_append, or_imp, forall_and, same]
  by_cases old : WellLogged w
  · obtain ⟨ix, now, type, pairs⟩ := contents_of_wellLogged old
    by_cases new : RangeIndex.WellFormed K w.index.keyType records
    · obtain ⟨ix', now', type', pairs'⟩ := contents_of_wellLogged (logged.mpr ⟨old, new⟩)
      obtain ⟨ok, kept, rel⟩ := RangeIndex.apply_spec (type ▸ new :
        RangeIndex.WellFormed K ix.keyType records)
      have after : contentsAfter w records = some (ix.apply records).2 := by
        simp [contentsAfter, now, readable, ok]
      have left : ix'.pairs = replay (batchWrites K w.index.keyType lists) (loggedPairs w) := by
        rw [pairs', loggedPairs, loggedPairs, index, log, batchWrites_append, replay_append]
      rw [now', after, Option.some.injEq]
      simp only [old, new, true_imp_iff]
      rw [← left, ← pairs, ← type, ← rel]
      constructor
      · exact fun same => congrArg _ same
      · refine fun same => RangeIndex.ext_pairs ?_ same
        rw [type', index, kept, type]
    · have bad : (ix.apply records).1.ok = false := by
        rw [← Bool.not_eq_true, RangeIndex.apply_ok_iff, type]
        exact new
      rw [contents_of_not_wellLogged fun h => new (logged.mp h).2, contentsAfter, now]
      simp [readable, bad, new]
  · rw [contents_of_not_wellLogged fun h => old (logged.mp h).1, contentsAfter,
      contents_of_not_wellLogged old]
    simp [old]

end Contents

/-! ## Calls -/

section Calls

variable {K : Type} [LinearOrder K] [KeyTypes K] [FsPath] [PathHash] [ConsistentHashMap]
  [ThriftSerialize FileMetadata] [ThriftSerialize IndexNamespaceNode]

/-- The tasks of a call in the pool, before any of them has started. -/
def launched (c : VSFSRpcClient) (s : Servers K) (tasks : List (List IndexUpdateRequest)) :
    Pool Rpc RpcError Exit Status (List IndexUpdateRequest) (Servers K) :=
  ⟨s, tasks.map fun task => { label := task, prog := run c task }⟩

/-- A call of `update` can lead to `s'`: in some schedule, all tasks come to their end. -/
def Updated (c : VSFSRpcClient) (batchSize : Nat) (s : Servers K)
    (requests : List IndexUpdateRequest) (s' : Servers K) : Prop :=
  ∃ schedule p, (launched c s (tasksOf batchSize requests)).follow (run c) reliable schedule =
    .ok p ∧ (∀ t ∈ p.tasks, t.Done) ∧ p.state = s'

/-- Whatever the schedule, every index ends with the requests applied in order. -/
def InOrder (c : VSFSRpcClient) (batchSize : Nat) (s : Servers K)
    (index : IndexUpdateRequest → Str) (requests : List IndexUpdateRequest) : Prop :=
  ∀ s', Updated c batchSize s requests s' → ∀ (a : NodeAddress) (part : Str)
    (w : RangeIndexWrapper K), (s.indexServers a).rangeIndexMap[part]? = some w →
    ∃ w', (s'.indexServers a).rangeIndexMap[part]? = some w' ∧
      contents w' = contentsAfter w (recordsAt c s index requests a part)

/-- The writes of the tasks to an index. -/
def taskWrites (c : VSFSRpcClient) (s : Servers K) (index : IndexUpdateRequest → Str)
    (tasks : List (List IndexUpdateRequest)) (a : NodeAddress) (part : Str) (keyType : Int) :
    List (List (Write (K × ObjectId))) :=
  tasks.map fun task => RangeIndex.writes K keyType (recordsAt c s index task a part)

/-! ## Lists of records and writes -/

section Lists

omit [KeyTypes K] [FsPath] [ThriftSerialize FileMetadata] [ThriftSerialize IndexNamespaceNode]

variable {c : VSFSRpcClient} {s : Servers K} {index : IndexUpdateRequest → Str} {a : NodeAddress}
  {part : Str} {keyType : Int}

theorem recordsAt_flatten (tasks : List (List IndexUpdateRequest)) :
    recordsAt c s index tasks.flatten a part =
      tasks.flatMap fun task => recordsAt c s index task a part := by
  unfold recordsAt
  split
  · simp only [recordsFor, List.filter_flatten, List.map_flatten, List.map_map]
    rfl
  · simp

theorem mem_blockFor {task : List IndexUpdateRequest} {l : RecordUpdateList} :
    l ∈ blockFor c s index task a part ↔
      recordsAt c s index task a part ≠ [] ∧ l = ⟨part, [], recordsAt c s index task a part⟩ := by
  unfold blockFor
  split
  · rename_i none
    simp [none]
  · rename_i some
    simp [some]

variable [KeyTypes K]

theorem batchWrites_blockFor (task : List IndexUpdateRequest) :
    batchWrites K keyType (blockFor c s index task a part) =
      RangeIndex.writes K keyType (recordsAt c s index task a part) := by
  unfold blockFor
  split
  · rename_i none
    rw [none]
    rfl
  · simp [batchWrites]

/-- The lists of the tasks have the records of the call. -/
theorem wellFormed_blocks (tasks : List (List IndexUpdateRequest)) :
    (∀ b ∈ tasks.flatMap fun task => blockFor c s index task a part,
      RangeIndex.WellFormed K keyType b.recordUpdates) ↔
      RangeIndex.WellFormed K keyType (recordsAt c s index tasks.flatten a part) := by
  rw [recordsAt_flatten]
  simp only [RangeIndex.WellFormed, List.mem_flatMap, forall_exists_index, and_imp]
  constructor
  · intro all update task ht hu
    exact all _ task ht (mem_blockFor.mpr ⟨List.ne_nil_of_mem hu, rfl⟩) update hu
  · intro all b task ht hb update hu
    rw [(mem_blockFor.mp hb).2] at hu
    exact all update task ht hu

theorem writes_recordsAt (tasks : List (List IndexUpdateRequest)) :
    RangeIndex.writes K keyType (recordsAt c s index tasks.flatten a part) =
      (taskWrites c s index tasks a part keyType).flatten := by
  rw [recordsAt_flatten, taskWrites, RangeIndex.writes, List.filterMap_flatMap]
  rfl

end Lists

/-! ## Schedules -/

variable {c : VSFSRpcClient} {s : Servers K} {index : IndexUpdateRequest → Str}

omit [KeyTypes K] [ThriftSerialize FileMetadata] [ThriftSerialize IndexNamespaceNode] in
/-- The scripts of all tasks, and what they send. -/
theorem exists_scripts {tasks : List (List IndexUpdateRequest)}
    (placed : Placed c s index tasks.flatten) : ∃ scripts : List (List (NodeAddress × IndexUpdate)),
      List.Forall₂ (fun t as => Plays (Asks s) (Acts s) t.prog as (.ok .OK))
        (launched c s tasks).tasks scripts ∧
      List.Forall₂ (fun task as => ∀ a part, listsFor a part as = blockFor c s index task a part)
        tasks scripts := by
  induction tasks with
  | nil => exact ⟨[], .nil, .nil⟩
  | cons task tasks ih =>
    obtain ⟨scripts, plays, lists⟩ := ih (placed.mono fun r hr => by simp [hr])
    obtain ⟨script, plays', lists'⟩ := run_plays (placed.mono fun r hr => by
      rw [List.flatten_cons]
      exact List.mem_append_left _ hr : Placed c s index task)
    exact ⟨script :: scripts, .cons plays' plays, .cons lists' lists⟩

omit [KeyTypes K] [FsPath] [ThriftSerialize FileMetadata] [ThriftSerialize IndexNamespaceNode] in
theorem listsFor_flatten {a : NodeAddress} {part : Str} {tasks : List (List IndexUpdateRequest)}
    {scripts : List (List (NodeAddress × IndexUpdate))}
    (lists : List.Forall₂ (fun task as => ∀ a part,
      listsFor a part as = blockFor c s index task a part) tasks scripts) :
    listsFor a part scripts.flatten = tasks.flatMap fun task => blockFor c s index task a part := by
  induction lists with
  | nil => rfl
  | cons now _ ih =>
    rw [List.flatten_cons, List.flatMap_cons, ← now a part, ← ih]
    simp [listsFor]

/-- However the tasks are scheduled, the lists of an index arrive in some order. -/
theorem updated_lists {batchSize : Nat} {requests : List IndexUpdateRequest} {s' : Servers K}
    (placed : Placed c s index requests) (updated : Updated c batchSize s requests s')
    {a : NodeAddress} {part : Str} {w : RangeIndexWrapper K}
    (found : (s.indexServers a).rangeIndexMap[part]? = some w) :
    ∃ (w' : RangeIndexWrapper K) (lists : List RecordUpdateList),
      (s'.indexServers a).rangeIndexMap[part]? = some w' ∧ w'.index = w.index ∧
      w'.logManager.log.map (·.record) = w.logManager.log.map (·.record) ++ lists ∧
      lists.Perm ((tasksOf batchSize requests).flatMap fun task =>
        blockFor c s index task a part) := by
  obtain ⟨schedule, p, followed, done, rfl⟩ := updated
  rw [← flatten_tasksOf batchSize requests] at placed
  obtain ⟨scripts, plays, lists⟩ := exists_scripts placed
  obtain ⟨taken, perm, state⟩ := Pool.follow_done (answered s)
    (⟨rfl, fun _ _ h => h⟩ : Beside s s) plays followed done
  obtain ⟨w', there, index', log⟩ := wrapper_logUpdate found taken
  refine ⟨w', listsFor a part taken, ?_, index', log, ?_⟩
  · rw [state]
    exact there
  · rw [← listsFor_flatten lists]
    exact perm.flatMap_right _

/-- The tasks can be run one after the other in any order. -/
theorem updated_in_order {batchSize : Nat} {requests : List IndexUpdateRequest}
    (placed : Placed c s index requests) {order : List Nat}
    (all : order.Perm (List.range (tasksOf batchSize requests).length)) {a : NodeAddress}
    {part : Str} {w : RangeIndexWrapper K}
    (found : (s.indexServers a).rangeIndexMap[part]? = some w) :
    ∃ (s' : Servers K) (w' : RangeIndexWrapper K), Updated c batchSize s requests s' ∧
      (s'.indexServers a).rangeIndexMap[part]? = some w' ∧ w'.index = w.index ∧
      w'.logManager.log.map (·.record) = w.logManager.log.map (·.record) ++
        order.flatMap fun i =>
          blockFor c s index ((tasksOf batchSize requests).getD i []) a part := by
  rw [← flatten_tasksOf batchSize requests] at placed
  obtain ⟨scripts, plays, lists⟩ := exists_scripts placed
  have playing (i : Nat) (hi : i ∈ order) : ∃ t as,
      (launched c s (tasksOf batchSize requests)).tasks[i]? = some t ∧ scripts[i]? = some as ∧
        Plays (Asks s) (Acts s) t.prog as (.ok .OK) := by
    have inside := List.mem_range.mp (all.subset hi)
    have here : i < (launched c s (tasksOf batchSize requests)).tasks.length := by
      simpa [launched] using inside
    obtain ⟨as, script, mine⟩ := Pool.forall₂_getElem? plays (List.getElem?_eq_getElem here)
    exact ⟨_, as, List.getElem?_eq_getElem here, script, mine⟩
  let pool := launched c s (tasksOf batchSize requests)
  obtain ⟨schedule, p, followed, state, ended, length, -⟩ :
      ∃ schedule p, pool.follow (run c) reliable schedule = .ok p ∧
        p.state = (order.flatMap (Pool.scriptAt scripts)).foldl logUpdate s ∧
        (∀ i ∈ order, ∀ t, p.tasks[i]? = some t → t.Done) ∧
        p.tasks.length = pool.tasks.length ∧ ∀ i, i ∉ order → p.tasks[i]? = pool.tasks[i]? :=
    Pool.follow_in_order (answered s) 0 (all.nodup_iff.mpr List.nodup_range)
      (⟨rfl, fun _ _ h => h⟩ : Beside s s) playing
  obtain ⟨w', there, index', log⟩ := wrapper_logUpdate found (order.flatMap (Pool.scriptAt scripts))
  refine ⟨p.state, w', ⟨schedule, p, followed, fun t ht => ?_, rfl⟩, ?_, index', ?_⟩
  · obtain ⟨i, here⟩ := List.getElem?_of_mem ht
    refine ended i (all.symm.subset (List.mem_range.mpr ?_)) t here
    have inside := (List.getElem?_eq_some_iff.mp here).1
    rw [length] at inside
    simpa [pool, launched] using inside
  · rw [state]
    exact there
  · rw [log]
    congr 1
    rw [listsFor, List.flatMap_assoc]
    refine List.flatMap_congr fun i hi => ?_
    have inside := List.mem_range.mp (all.subset hi)
    obtain ⟨as, script, mine⟩ := Pool.forall₂_getElem? lists (List.getElem?_eq_getElem inside)
    rw [List.getD_eq_getElem?_getD, List.getElem?_eq_getElem inside, Option.getD_some, ← mine,
      Pool.scriptAt, script]
    rfl

/-! ## Order -/

omit [FsPath] [ThriftSerialize FileMetadata] [ThriftSerialize IndexNamespaceNode] in
/-- When the tasks agree, the order in which their lists arrive does not matter. -/
theorem replay_lists_of_alike {tasks : List (List IndexUpdateRequest)} {a : NodeAddress}
    {part : Str} {keyType : Int} (alike : Alike (taskWrites c s index tasks a part keyType))
    {lists : List RecordUpdateList}
    (perm : lists.Perm (tasks.flatMap fun task => blockFor c s index task a part))
    (pairs : Set (K × ObjectId)) :
    replay (batchWrites K keyType lists) pairs =
      replay (RangeIndex.writes K keyType (recordsAt c s index tasks.flatten a part)) pairs := by
  let blocks := tasks.flatMap fun task => blockFor c s index task a part
  let write (b : RecordUpdateList) := RangeIndex.writes K keyType b.recordUpdates
  have alike' : Alike (blocks.map write) := by
    have sub : ∀ u ∈ blocks.map write, u ∈ taskWrites c s index tasks a part keyType := by
      intro u hu
      obtain ⟨b, hb, rfl⟩ := List.mem_map.mp hu
      obtain ⟨task, ht, hb⟩ := List.mem_flatMap.mp hb
      refine List.mem_map.mpr ⟨task, ht, ?_⟩
      rw [(mem_blockFor.mp hb).2]
    exact fun b hb b' hb' => alike b (sub b hb) b' (sub b' hb')
  have whole :
      (blocks.map write).flatten = (taskWrites c s index tasks a part keyType).flatten := by
    have lists' : (blocks.map write).flatten = batchWrites K keyType blocks := by
      rw [batchWrites, List.flatMap_def]
    rw [lists', batchWrites, List.flatMap_assoc, taskWrites, ← List.flatMap_def]
    exact List.flatMap_congr fun task _ => batchWrites_blockFor task
  rw [batchWrites, List.flatMap_def, replay_perm_of_alike alike' (perm.map write), whole,
    writes_recordsAt]

/-- Tasks that do not agree can be scheduled so that an index ends otherwise. -/
theorem not_inOrder {batchSize : Nat} {requests : List IndexUpdateRequest}
    (placed : Placed c s index requests) {a : NodeAddress} {part : Str} {w : RangeIndexWrapper K}
    (found : (s.indexServers a).rangeIndexMap[part]? = some w) (logged : WellLogged w)
    (formed : RangeIndex.WellFormed K w.index.keyType (recordsAt c s index requests a part))
    (differ : ¬ Alike (taskWrites c s index (tasksOf batchSize requests) a part w.index.keyType)) :
    ¬ InOrder c batchSize s index requests := by
  intro inOrder
  obtain ⟨order, all, changed⟩ := exists_order_of_not_alike differ (loggedPairs w)
  rw [taskWrites, List.length_map] at all
  obtain ⟨s', w', updated, there, index', log⟩ := updated_in_order placed all found
  obtain ⟨w'', there', same⟩ := inOrder s' updated a part w found
  cases there.symm.trans there'
  have blocks : (∀ b ∈ order.flatMap fun i =>
      blockFor c s index ((tasksOf batchSize requests).getD i []) a part,
        RangeIndex.WellFormed K w.index.keyType b.recordUpdates) ↔
      RangeIndex.WellFormed K w.index.keyType (recordsAt c s index requests a part) := by
    refine iff_of_true (fun b hb => ?_) formed
    obtain ⟨i, hi, hb⟩ := List.mem_flatMap.mp hb
    rw [← flatten_tasksOf batchSize requests] at formed
    refine (wellFormed_blocks (tasksOf batchSize requests)).mpr formed b
      (List.mem_flatMap.mpr ⟨_, ?_, hb⟩)
    exact (mem_iff_getD (tasksOf batchSize requests) [] _).mpr ⟨i, all.subset hi, rfl⟩
  have equal := (contents_eq_contentsAfter_iff index' log blocks).mp same logged formed
  refine changed ?_
  rw [← writes_recordsAt, flatten_tasksOf, ← equal, batchWrites, List.flatMap_assoc]
  congr 1
  refine List.flatMap_congr fun i hi => ?_
  have inside := List.mem_range.mp (all.subset hi)
  rw [taskWrites, List.getD_eq_getElem?_getD, List.getElem?_map, List.getElem?_eq_getElem inside,
    Option.map_some, Option.getD_some, ← batchWrites_blockFor, List.getD_eq_getElem?_getD,
    List.getElem?_eq_getElem inside, Option.getD_some]
  rfl

/-- A call whose requests can all be served: they take effect in their order in every index
and in every schedule exactly when, for every index that can be read, all tasks that write a
pair leave it alike. -/
theorem update_in_order_iff (batchSize : Nat) (requests : List IndexUpdateRequest)
    (placed : Placed c s index requests) :
    InOrder c batchSize s index requests ↔
      ∀ (a : NodeAddress) (part : Str) (w : RangeIndexWrapper K),
        (s.indexServers a).rangeIndexMap[part]? = some w → WellLogged w →
        RangeIndex.WellFormed K w.index.keyType (recordsAt c s index requests a part) →
        Alike (taskWrites c s index (tasksOf batchSize requests) a part w.index.keyType) := by
  constructor
  · intro inOrder a part w found logged formed
    by_contra differ
    exact not_inOrder placed found logged formed differ inOrder
  · intro alike s' updated a part w found
    obtain ⟨w', lists, there, index', log, perm⟩ := updated_lists placed updated found
    refine ⟨w', there, (contents_eq_contentsAfter_iff index' log ?_).mpr fun logged formed => ?_⟩
    · rw [← flatten_tasksOf batchSize requests, ← wellFormed_blocks]
      simp only [perm.mem_iff]
    · have replayed := replay_lists_of_alike (alike a part w found logged formed) perm
        (loggedPairs w)
      rwa [flatten_tasksOf] at replayed

end Calls

section Example

attribute [local instance] SortedRing.consistentHashMap Posix.fsPath Md5.pathHash
  BinaryProtocol.fileMetadataThrift BinaryProtocol.indexNamespaceNode uint64Keys

/-- The file `/f` and the directory of an index of sizes on the root. -/
def sizeNamespace : Namespace :=
  (({ nextObjId := 0 } : Namespace).withDirectory "/.vsfs/size".toList
    (Namespace.newDirectory 0o755 0 0 0)).withFile "/f".toList (Namespace.newFile 7 0o644 0 0 0)

def sizeIndex : IndexManager Int where
  basedir := []
  indexInfoMap := (∅ : ExtTreeMap Str IndexInfo).insert "/.vsfs/size/0".toList
    ⟨"/.vsfs/size/0".toList, "size".toList, IndexInfo.BTREE, 0⟩
  rangeIndexMap := (∅ : ExtTreeMap Str (RangeIndexWrapper Int)).insert "/.vsfs/size/0".toList
    { basePath := [], index := .empty 0, dirty := true, lastMergedLogId := 0 }

def sizeServers : Servers Int where
  masters _ := { «namespace» := sizeNamespace }
  indexServers _ := sizeIndex

/-- The size 10 of the file. -/
def sizeTen (op : IndexUpdateRequest.Op) : IndexUpdateRequest :=
  ⟨op, "/f".toList, "size".toList, "10".toList⟩

def inSizes (_ : IndexUpdateRequest) : Str := "/.vsfs/size".toList

theorem partitionOf_inSizes (r : IndexUpdateRequest) :
    partitionOf inSizes r = "/.vsfs/size/0".toList := by
  change "/.vsfs/size".toList ++ "/0".toList = _
  decide

theorem placed_sizeTen {requests : List IndexUpdateRequest}
    (sizes : ∀ r ∈ requests, ∃ op, r = sizeTen op) :
    Placed oneServer sizeServers inSizes requests := by
  have server : (oneServer.indexServerMap.getByPath "/.vsfs/size/0".toList).2 =
      some { address := ⟨"i".toList, 2⟩ } := by decide +kernel
  have master : (oneServer.masterMap.getByPath "/f".toList).2 =
      some { address := ⟨"m".toList, 1⟩ } := by decide +kernel
  have home : oneServer.masterMap.getByPath "/.vsfs/size".toList =
      (.OK, some { address := ⟨"m".toList, 1⟩ }) := by decide +kernel
  have dir : sizeNamespace.metadataMap["/.vsfs/size".toList]? =
      some (Namespace.newDirectory 0o755 0 0 0) := by decide +kernel
  refine ⟨fun r hr => ?_, fun r hr => ?_, fun r hr => ?_⟩
  · obtain ⟨op, rfl⟩ := sizes r hr
    exact .here ⟨{ address := ⟨"m".toList, 1⟩ }, Namespace.newDirectory 0o755 0 0 0, home, dir,
      by decide⟩
  · rw [partitionOf_inSizes]
    refine ⟨_, server, by decide, ?_⟩
    exact ⟨_, _, ExtTreeMap.getElem?_insert_self, rfl, ExtTreeMap.getElem?_insert_self⟩
  · obtain ⟨op, rfl⟩ := sizes r hr
    exact ⟨_, master, by decide⟩

/-- An insertion and a removal of the same pair in one task. -/
theorem same_task_in_order :
    InOrder oneServer kBatchSize sizeServers inSizes [sizeTen .insert, sizeTen .remove] := by
  refine (update_in_order_iff kBatchSize _ (placed_sizeTen ?_)).mpr ?_
  · intro r hr
    rcases List.mem_cons.mp hr with rfl | hr
    · exact ⟨_, rfl⟩
    · exact ⟨_, List.mem_singleton.mp hr⟩
  · intro a part w _ _ _ b hb b' hb' pair v v' hv hv'
    -- There is only one task.
    have one : tasksOf kBatchSize [sizeTen .insert, sizeTen .remove] =
      [[sizeTen .insert, sizeTen .remove]] := by decide
    rw [taskWrites, one, List.map_singleton, List.mem_singleton] at hb hb'
    rw [hb] at hv
    rw [hb', hv] at hv'
    exact Option.some.inj hv'

/-- A full task of insertions, and the removal of the pair in the next one. -/
def insertsThenRemove : List IndexUpdateRequest :=
  List.replicate (kBatchSize + 1) (sizeTen .insert) ++ [sizeTen .remove]

theorem insertsThenRemove_sizes (r : IndexUpdateRequest) (hr : r ∈ insertsThenRemove) :
    ∃ op, r = sizeTen op := by
  rcases List.mem_append.mp hr with hr | hr
  · exact ⟨_, List.eq_of_mem_replicate hr⟩
  · exact ⟨_, List.mem_singleton.mp hr⟩

/-- The removal can arrive before the insertions. -/
theorem overtaken_by_next_task :
    ¬ ∀ (c : VSFSRpcClient) (s : Servers Int) (index : IndexUpdateRequest → Str)
      (requests : List IndexUpdateRequest), Placed c s index requests →
        InOrder c kBatchSize s index requests := by
  intro claim
  have placed := placed_sizeTen insertsThenRemove_sizes
  have server : serverOf oneServer "/.vsfs/size/0".toList = some ⟨"i".toList, 2⟩ := by
    decide +kernel
  have object : objectOf oneServer sizeServers "/f".toList = 7 := by decide +kernel
  have found : (sizeServers.indexServers ⟨"i".toList, 2⟩).rangeIndexMap["/.vsfs/size/0".toList]? =
      some { basePath := [], index := .empty 0, dirty := true, lastMergedLogId := 0 } :=
    ExtTreeMap.getElem?_insert_self
  have records (requests : List IndexUpdateRequest) :
      recordsAt oneServer sizeServers inSizes requests ⟨"i".toList, 2⟩ "/.vsfs/size/0".toList =
        requests.map fun r => toRecord r (objectOf oneServer sizeServers r.filePath) := by
    have all : requests.filter (fun r => partitionOf inSizes r = "/.vsfs/size/0".toList) =
        requests := List.filter_eq_self.mpr fun r _ => decide_eq_true (partitionOf_inSizes r)
    rw [recordsAt, if_pos server, recordsFor, all]
  have written (op : IndexUpdateRequest.Op) (present : Bool)
      (h : RangeIndex.toWrite (K := Int) 0 ⟨op.code, "10".toList, "7".toList⟩ =
        some ⟨(10, 7), present⟩) :
      RangeIndex.toWrite (K := Int) 0 (toRecord (sizeTen op)
        (objectOf oneServer sizeServers (sizeTen op).filePath)) = some ⟨(10, 7), present⟩ := by
    have text : toRecord (sizeTen op) 7 = ⟨op.code, "10".toList, "7".toList⟩ := by
      cases op <;> decide
    rw [show (sizeTen op).filePath = "/f".toList from rfl, object, text, h]
  have insert := written .insert true (by decide)
  have remove := written .remove false (by decide)
  refine not_inOrder placed found (by simp [WellLogged]) ?_ ?_ (claim _ _ _ _ placed)
  · intro update hu
    rw [records, List.mem_map] at hu
    obtain ⟨r, hr, rfl⟩ := hu
    rcases List.mem_append.mp hr with hr | hr
    · rw [List.eq_of_mem_replicate hr]
      exact insert ▸ rfl
    · rw [List.mem_singleton.mp hr]
      exact remove ▸ rfl
  · intro alike
    have tasks : tasksOf kBatchSize insertsThenRemove =
        [List.replicate (kBatchSize + 1) (sizeTen .insert), [sizeTen .remove]] := by
      rw [insertsThenRemove, tasksOf_append List.length_replicate]
      rfl
    have inserted : last (RangeIndex.writes Int 0 (recordsAt oneServer sizeServers inSizes
        (List.replicate (kBatchSize + 1) (sizeTen .insert)) ⟨"i".toList, 2⟩
        "/.vsfs/size/0".toList)) (10, 7) = some true := by
      rw [records, List.map_replicate, RangeIndex.writes, List.filterMap_replicate_of_some insert,
        List.replicate_succ', last_append]
      rfl
    have removed : last (RangeIndex.writes Int 0 (recordsAt oneServer sizeServers inSizes
        [sizeTen .remove] ⟨"i".toList, 2⟩ "/.vsfs/size/0".toList)) (10, 7) = some false := by
      rw [records, List.map_singleton, RangeIndex.writes, List.filterMap_cons_some remove]
      rfl
    rw [tasks, taskWrites, List.map_cons, List.map_singleton] at alike
    cases alike _ List.mem_cons_self _ (List.mem_cons_of_mem _ List.mem_cons_self) _ _ _
      inserted removed

end Example

end Vsfs.Client

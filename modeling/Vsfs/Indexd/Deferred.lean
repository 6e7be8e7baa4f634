import Vsfs.Indexd.RangeIndexWrapper
import Vsfs.Lib.Transition
import Vsfs.Rpc.BinaryProtocol

/-!
# Deferred updates

In deferred mode the log is the only copy of an update until a merge applies it.
`flush_log` truncates the log at the smaller of two watermarks, the id of the last merge
and the id of the last flush, neither of which knows which records were merged. A record
that arrives after a merge under an id the merge had already covered, or any record
before the first merge when the uninitialised watermark is large, is erased unmerged.

`Tracked` adds the number of log records the last merge covered. A run keeps every
accepted update exactly as long as no flush erases past that number.

## Main results

* `deferred_updates_survive` : such runs end, after a last merge, in the index of all
  accepted batches.
* `Tracked.erased_le_iff` : the condition is what a single flush needs.
-/

namespace Vsfs.Indexd

open Index Replay

namespace RangeIndexWrapper

variable {K : Type} [LinearOrder K] [KeyTypes K]

/-- The writes of some batches, in order. -/
def batchWrites (K : Type) [KeyTypes K] (keyType : Int) (batches : List RecordUpdateList) :
    List (Write (K × ObjectId)) :=
  batches.flatMap (fun b => RangeIndex.writes K keyType b.recordUpdates)

omit [LinearOrder K] in
@[simp] theorem batchWrites_append (keyType : Int) (as bs : List RecordUpdateList) :
    batchWrites K keyType (as ++ bs) = batchWrites K keyType as ++ batchWrites K keyType bs := by
  simp [batchWrites]

/-- Replaying well-formed batches succeeds and acts on the relation as their writes. -/
theorem applyRecords_spec {index : RangeIndex K} {batches : List RecordUpdateList}
    (h : ∀ b ∈ batches, RangeIndex.WellFormed K index.keyType b.recordUpdates) :
    (applyRecords index batches).1 = .OK ∧
      (applyRecords index batches).2.keyType = index.keyType ∧
      (applyRecords index batches).2.pairs =
        replay (batchWrites K index.keyType batches) index.pairs := by
  induction batches generalizing index with
  | nil => exact ⟨rfl, rfl, rfl⟩
  | cons b batches ih =>
    obtain ⟨ok, type, rel⟩ := RangeIndex.apply_spec (h b (by simp))
    obtain ⟨ok', type', rel'⟩ := @ih (index.apply b.recordUpdates).2
      (fun c hc => type ▸ h c (by simp [hc]))
    have unfolded : applyRecords index (b :: batches) =
        applyRecords (index.apply b.recordUpdates).2 batches := by
      simp [applyRecords, ok]
    rw [unfolded]
    refine ⟨ok', type'.trans type, ?_⟩
    rw [rel', type, rel, ← replay_append]
    rfl

@[simp] theorem keyType_applyRecords (index : RangeIndex K) (batches : List RecordUpdateList) :
    (applyRecords index batches).2.keyType = index.keyType := by
  induction batches generalizing index with
  | nil => rfl
  | cons b batches ih =>
    unfold applyRecords
    dsimp only
    split
    · rw [ih, RangeIndex.keyType_apply]
    · exact RangeIndex.keyType_apply index _

/-- Replaying batches succeeds exactly when all of them are well formed. -/
theorem applyRecords_ok_iff (index : RangeIndex K) (batches : List RecordUpdateList) :
    (applyRecords index batches).1.ok = true ↔
      ∀ b ∈ batches, RangeIndex.WellFormed K index.keyType b.recordUpdates := by
  induction batches generalizing index with
  | nil => simp [applyRecords]
  | cons b batches ih =>
    have first := RangeIndex.apply_ok_iff index b.recordUpdates
    have rest := ih (index.apply b.recordUpdates).2
    rw [RangeIndex.keyType_apply] at rest
    unfold applyRecords
    dsimp only
    split
    · rename_i ok
      rw [rest]
      simpa using fun _ => first.mp ok
    · rename_i bad
      exact iff_of_false bad fun all => bad (first.mpr (all b (by simp)))

/-- A merge of a well-formed log succeeds and replays the part that it scans. -/
theorem merge_spec {w : RangeIndexWrapper K} {keyType : Int} (normal : w.status = .normal)
    (type : w.index.keyType = keyType)
    (formed : ∀ r ∈ w.logManager.log, RangeIndex.WellFormed K keyType r.record.recordUpdates)
    (t : TxnId) :
    (w.merge t).1 = .OK ∧ (w.merge t).2.index.keyType = keyType ∧
      (w.merge t).2.index.pairs =
        replay (batchWrites K keyType (w.logManager.scan t)) w.index.pairs ∧
      (w.merge t).2.logManager = w.logManager ∧ (w.merge t).2.status = .normal := by
  have scanned : ∀ b ∈ w.logManager.scan t,
      RangeIndex.WellFormed K w.index.keyType b.recordUpdates := by
    intro b hb
    obtain ⟨r, hr, rfl⟩ := List.mem_map.mp hb
    exact type ▸ formed r ((List.takeWhile_prefix _).subset hr)
  obtain ⟨ok, -, rel⟩ := applyRecords_spec scanned
  rw [type] at rel
  unfold merge
  simp [normal, ok, type, rel]

/-! ## Runs -/

/-- A call on a wrapper in deferred mode. -/
inductive Call where
  | update (txnId : TxnId) (updates : RecordUpdateList)
  | merge (txnId : TxnId)
  | search (txnId : TxnId) (query : RangeQuery)
  | flushLog (bytes : Nat) (force : Bool)

/-- The batch a call hands over. -/
def Call.batch? : Call → Option RecordUpdateList
  | .update _ b => some b
  | _ => none

/-- The batches of a run, in arrival order. -/
def batches (calls : List Call) : List RecordUpdateList := calls.filterMap Call.batch?

/-- A wrapper and the number of leading log records that the last merge has applied. -/
structure Tracked (K : Type) [LinearOrder K] where
  wrapper : RangeIndexWrapper K
  merged : Nat

namespace Tracked

/-- A new wrapper; nothing initialises `lastMergedLogId`. -/
def start (basePath : Str) (keyType : Int) (dirty : Bool) (lastMergedLogId : TxnId) :
    Tracked K where
  wrapper := { basePath, index := RangeIndex.empty keyType, dirty, lastMergedLogId }
  merged := 0

def log (s : Tracked K) : List (LogRecord RecordUpdateList) := s.wrapper.logManager.log

/-- The log as batches. -/
def logged (s : Tracked K) : List RecordUpdateList := s.log.map (·.record)

/-- The records that arrived since the last merge. -/
def unmerged (s : Tracked K) : List (LogRecord RecordUpdateList) := s.log.drop s.merged

/-- The merge of `merge` and `search`. -/
def merge (s : Tracked K) (txnId : TxnId) : Tracked K :=
  let (status, w) := s.wrapper.merge txnId
  ⟨w, if status.ok then (s.wrapper.logManager.scan txnId).length else s.merged⟩

/-! ## The invariant -/

/-- Replaying the log over the index gives the index of everything accepted so far, and
the records the last merge covered are already in effect. -/
structure Inv (keyType : Int) (done : List Call) (s : Tracked K) : Prop where
  normal : s.wrapper.status = .normal
  type : s.wrapper.index.keyType = keyType
  origin : ∀ r ∈ s.log, Call.update r.txnId r.record ∈ done
  formed : ∀ b ∈ batches done, RangeIndex.WellFormed K keyType b.recordUpdates
  within : s.merged ≤ s.log.length
  absorbed : ∃ base, s.wrapper.index.pairs =
    replay (batchWrites K keyType (s.logged.take s.merged)) base
  truth : replay (batchWrites K keyType s.logged) s.wrapper.index.pairs =
    replay (batchWrites K keyType (batches done)) ∅

theorem mem_batches {t : TxnId} {b : RecordUpdateList} {done : List Call}
    (h : Call.update t b ∈ done) : b ∈ batches done :=
  List.mem_filterMap.mpr ⟨_, h, rfl⟩

omit [KeyTypes K] in
/-- A scan is a leading part of the log. -/
theorem scan_eq_take (s : Tracked K) (t : TxnId) :
    s.wrapper.logManager.scan t = s.logged.take (s.wrapper.logManager.scan t).length := by
  have hp : s.wrapper.logManager.scan t <+: s.logged :=
    (List.takeWhile_prefix _).map _
  exact List.prefix_iff_eq_take.mp hp

/-- A merge of a leading part of a well-formed log succeeds and replays that part. -/
theorem Inv.merge_spec {keyType : Int} {done : List Call} {s : Tracked K}
    (h : Inv keyType done s) (t : TxnId) :
    (s.wrapper.merge t).1 = .OK ∧ (s.wrapper.merge t).2.index.keyType = keyType ∧
      (s.wrapper.merge t).2.index.pairs =
        replay (batchWrites K keyType (s.wrapper.logManager.scan t)) s.wrapper.index.pairs ∧
      (s.wrapper.merge t).2.logManager = s.wrapper.logManager ∧
      (s.wrapper.merge t).2.status = .normal := by
  refine RangeIndexWrapper.merge_spec h.normal h.type (fun r hr => ?_) t
  exact h.formed _ (mem_batches (h.origin r hr))

theorem Inv.merge {keyType : Int} {done : List Call} {s : Tracked K}
    (h : Inv keyType done s) (t : TxnId) {c : Call} (hc : c.batch? = none) :
    Inv keyType (done ++ [c]) (s.merge t) := by
  obtain ⟨ok, type, rel, log, normal⟩ := h.merge_spec t
  have same : batches (done ++ [c]) = batches done := by simp [batches, hc]
  have wrapper : (s.merge t).wrapper = (s.wrapper.merge t).2 := rfl
  have merged : (s.merge t).merged = (s.wrapper.logManager.scan t).length := by
    simp [Tracked.merge, ok]
  have logs : (s.merge t).log = s.log := by simp [Tracked.log, wrapper, log]
  have loggeds : (s.merge t).logged = s.logged := by simp [logged, logs]
  refine ⟨by rw [wrapper, normal], by rw [wrapper, type], ?_, by rw [same]; exact h.formed,
    ?_, ⟨s.wrapper.index.pairs, ?_⟩, ?_⟩
  · intro r hr
    exact List.mem_append_left _ (h.origin r (logs ▸ hr))
  · rw [merged, logs]
    simpa [logged] using (congrArg List.length (s.scan_eq_take t)).trans_le
      (List.length_take_le' _ _)
  · rw [wrapper, rel, loggeds, merged, ← scan_eq_take]
  · have hp : batchWrites K keyType (s.wrapper.logManager.scan t) <+:
        batchWrites K keyType s.logged := by
      rw [scan_eq_take]
      obtain ⟨rest, hr⟩ := List.take_prefix (s.wrapper.logManager.scan t).length s.logged
      exact ⟨batchWrites K keyType rest, by rw [← batchWrites_append, hr]⟩
    rw [loggeds, wrapper, rel, replay_replay_of_prefix hp, h.truth, same]

theorem Inv.update {keyType : Int} {done : List Call} {s : Tracked K}
    (h : Inv keyType done s) (t : TxnId) {b : RecordUpdateList}
    (hb : RangeIndex.WellFormed K keyType b.recordUpdates) :
    Inv keyType (done ++ [.update t b])
      { s with wrapper := (s.wrapper.update false t b).2 } := by
  have new : batches (done ++ [.update t b]) = batches done ++ [b] := by
    simp [batches, Call.batch?]
  have logs : ({ s with wrapper := (s.wrapper.update false t b).2 } : Tracked K).log =
      s.log ++ [⟨t, b⟩] := rfl
  have loggeds : ({ s with wrapper := (s.wrapper.update false t b).2 } : Tracked K).logged =
      s.logged ++ [b] := by simp [logged, logs]
  have within : s.merged ≤ s.logged.length := by simpa [logged] using h.within
  obtain ⟨base, hbase⟩ := h.absorbed
  refine ⟨h.normal, h.type, ?_, ?_, ?_, ⟨base, ?_⟩, ?_⟩
  · intro r hr
    rcases List.mem_append.mp (logs ▸ hr) with hr | hr
    · exact List.mem_append_left _ (h.origin r hr)
    · rw [List.mem_singleton.mp hr]
      simp
  · intro c hc
    rcases List.mem_append.mp (new ▸ hc) with hc | hc
    · exact h.formed c hc
    · rwa [List.mem_singleton.mp hc]
  · rw [logs]
    simpa using h.within.trans (Nat.le_succ _)
  · rw [loggeds, List.take_append_of_le_length within]
    exact hbase
  · rw [loggeds, new, batchWrites_append, batchWrites_append, replay_append, replay_append]
    exact congrArg _ h.truth

/-! ## Steps -/

variable [ThriftSerialize RecordUpdateList] [ThriftSerialize LogBuffer]

def step (s : Tracked K) : Call → Cpp (Tracked K)
  | .update t updates => .ok { s with wrapper := (s.wrapper.update false t updates).2 }
  | .merge t => .ok (s.merge t)
  | .search t query => .ok ⟨(s.wrapper.search t query).2.2, (s.merge t).merged⟩
  | .flushLog bytes force => do
    let (_, w, _) ← s.wrapper.flushLog bytes true force
    return ⟨w, s.merged - (s.log.length - w.logManager.log.length)⟩

/-- The last flushed id that `flush` is going to leave. -/
def flushTarget (s : Tracked K) (bytes : Nat) (force : Bool) : TxnId :=
  let m := s.wrapper.logManager
  let (buffer, existing) := LogManager.fill bytes m.pending m.logBuffer.buffer m.getLogBufferSize
  if bytes ≤ existing ∨ force then
    (buffer.getLast?.map (·.txnId)).getD m.lastFlushedTxnId
  else m.lastFlushedTxnId

/-- `flush` finds a record to write, or has no reason to write. -/
def Flushable (s : Tracked K) (bytes : Nat) (force : Bool) : Prop :=
  s.wrapper.logManager.pending ≠ [] ∨ s.wrapper.logManager.logBuffer.buffer ≠ [] ∨
    (0 < bytes ∧ force = false)

/-- Every record that arrived since the last merge has an id above the watermark at which
the flush is going to truncate the log. -/
def Covered (s : Tracked K) (bytes : Nat) (force : Bool) : Prop :=
  ∀ r ∈ s.unmerged, min s.wrapper.lastMergedLogId (s.flushTarget bytes force) < r.txnId

/-- What a call has to meet: batches are well formed, and a flush finds its records merged. -/
def Safe (s : Tracked K) : Call → Prop
  | .update _ updates => RangeIndex.WellFormed K s.wrapper.index.keyType updates.recordUpdates
  | .flushLog bytes force => s.Flushable bytes force ∧ s.Covered bytes force
  | _ => True

/-! ## Truncation -/

omit [KeyTypes K] in
theorem lastFlushed_of_flush {s : Tracked K} {bytes : Nat} {force : Bool}
    {m : LogManager RecordUpdateList} {text : Str}
    (h : s.wrapper.logManager.flush bytes force = .ok (m, text)) :
    m.lastFlushedTxnId = s.flushTarget bytes force := by
  unfold LogManager.flush at h
  unfold flushTarget
  dsimp only at h ⊢
  split at h
  · rename_i writes
    split at h <;> cases h
    simp_all
  · rename_i quiet
    cases h
    rw [if_neg quiet]

/-- The number of records that a flush erases. -/
def erased (s : Tracked K) (bytes : Nat) (force : Bool) : Nat :=
  (s.log.takeWhile (fun r => decide
    (r.txnId ≤ min s.wrapper.lastMergedLogId (s.flushTarget bytes force)))).length

/-- A flush that finds a record to write drops the leading `erased` records, and nothing
else changes. -/
theorem step_flushLog {s : Tracked K} {bytes : Nat} {force : Bool}
    (h : s.Flushable bytes force) :
    ∃ s', s.step (.flushLog bytes force) = .ok s' ∧
      s'.log = s.log.drop (s.erased bytes force) ∧
      s'.merged = s.merged - s.erased bytes force ∧
      s'.wrapper.index = s.wrapper.index ∧ s'.wrapper.status = s.wrapper.status := by
  obtain ⟨m, text, hm⟩ := s.wrapper.logManager.flush_defined h
  have hlog := LogManager.log_of_flush hm
  have hlast := lastFlushed_of_flush hm
  have drops : (m.erase (min s.wrapper.lastMergedLogId m.lastFlushedTxnId)).log =
      s.log.drop (s.erased bytes force) := by
    rw [LogManager.erase, hlog, hlast, erased]
    exact (Scan.drop_length_takeWhile _ _).symm
  have bound : s.erased bytes force ≤ s.log.length :=
    (List.takeWhile_prefix _).length_le
  let log' := m.erase (min s.wrapper.lastMergedLogId m.lastFlushedTxnId)
  refine ⟨⟨{ s.wrapper with logManager := log' }, s.merged - (s.log.length - log'.log.length)⟩,
    ?_, drops, ?_, rfl, rfl⟩
  · simp only [step, flushLog, if_true, hm]
    rfl
  · simp only [log', drops, List.length_drop]
    omega

omit [KeyTypes K] [ThriftSerialize LogBuffer] in
theorem erased_le_of_covered {s : Tracked K} {bytes : Nat} {force : Bool}
    (h : s.Covered bytes force) : s.erased bytes force ≤ s.merged :=
  Scan.length_takeWhile_le fun r hr => by rw [decide_eq_true_eq, not_le]; exact h r hr

omit [KeyTypes K] [ThriftSerialize LogBuffer] in
/-- On a log with ids in order, the condition says exactly that the flush erases nothing
but merged records. -/
theorem erased_le_iff {s : Tracked K} {bytes : Nat} {force : Bool}
    (sorted : s.log.Pairwise (fun a b => a.txnId ≤ b.txnId)) :
    s.erased bytes force ≤ s.merged ↔ s.Covered bytes force := by
  unfold erased Covered unmerged
  rw [Scan.length_takeWhile_le_iff sorted]
  · simp only [decide_eq_true_eq, not_le]
  · intro a b hab hb
    rw [decide_eq_true_eq] at hb ⊢
    exact hab.trans hb

theorem Inv.flushLog {keyType : Int} {done : List Call} {s : Tracked K}
    (h : Inv keyType done s) {bytes : Nat} {force : Bool}
    (flushable : s.Flushable bytes force) (covered : s.Covered bytes force) :
    ∃ s', s.step (.flushLog bytes force) = .ok s' ∧
      Inv keyType (done ++ [.flushLog bytes force]) s' := by
  obtain ⟨s', hstep, hlog, hmerged, hindex, hstatus⟩ := step_flushLog flushable
  have few := erased_le_of_covered covered
  have within := h.within
  obtain ⟨base, hbase⟩ := h.absorbed
  have same : batches (done ++ [.flushLog bytes force]) = batches done := by
    simp [batches, Call.batch?]
  -- The log splits into what is erased, the rest of what was merged, and the unmerged.
  let a := s.logged.take (s.erased bytes force)
  let b := (s.logged.take s.merged).drop (s.erased bytes force)
  let c := s.logged.drop s.merged
  have hab : s.logged.take s.merged = a ++ b := by
    have : a = (s.logged.take s.merged).take (s.erased bytes force) := by
      simp [a, List.take_take, few]
    rw [this, List.take_append_drop]
  have habc : s.logged = a ++ b ++ c := by rw [← hab, List.take_append_drop]
  have hlogged : s'.logged = b ++ c := by
    have : s'.logged = s.logged.drop (s.erased bytes force) := by simp [logged, hlog]
    rw [this, habc, List.append_assoc]
    exact List.drop_left' (by simp [a, logged]; omega)
  have hb : b.length = s.merged - s.erased bytes force := by simp [b, logged]; omega
  rw [hab, batchWrites_append] at hbase
  refine ⟨s', hstep, by rw [hstatus, h.normal], by rw [hindex, h.type], ?_,
    by rw [same]; exact h.formed, ?_, ⟨replay (batchWrites K keyType a) base, ?_⟩, ?_⟩
  · intro r hr
    exact List.mem_append_left _ (h.origin r (List.mem_of_mem_drop (hlog ▸ hr)))
  · rw [hmerged, hlog, List.length_drop]
    omega
  · rw [hindex, hbase, hlogged, hmerged, ← hb, List.take_left, replay_append]
  · have old := h.truth
    rw [habc, batchWrites_append, batchWrites_append, replay_append, hbase, replay_idem] at old
    rw [hindex, hbase, hlogged, batchWrites_append, replay_append, replay_suffix_replay, old, same]

omit [ThriftSerialize RecordUpdateList] [ThriftSerialize LogBuffer] in
theorem search_wrapper (w : RangeIndexWrapper K) (t : TxnId) (query : RangeQuery) :
    (w.search t query).2.2 = (w.merge t).2 := by
  unfold RangeIndexWrapper.search
  dsimp only
  split <;> rfl

/-- One call that meets its condition keeps the invariant. -/
theorem Inv.step {keyType : Int} {done : List Call} {s : Tracked K}
    (h : Inv keyType done s) {c : Call} (safe : s.Safe c) :
    ∃ s', s.step c = .ok s' ∧ Inv keyType (done ++ [c]) s' := by
  cases c with
  | update t b => exact ⟨_, rfl, h.update t (h.type ▸ safe)⟩
  | merge t => exact ⟨_, rfl, h.merge t rfl⟩
  | search t query =>
    have same : (⟨(s.wrapper.search t query).2.2, (s.merge t).merged⟩ : Tracked K) =
        s.merge t := by
      rw [search_wrapper]
      rfl
    exact ⟨s.merge t, congrArg _ same, h.merge t rfl⟩
  | flushLog bytes force => exact h.flushLog safe.1 safe.2

omit [ThriftSerialize RecordUpdateList] [ThriftSerialize LogBuffer] in
theorem Inv.start (basePath : Str) (keyType : Int) (dirty : Bool) (lastMerged : TxnId) :
    Inv keyType [] (start basePath keyType dirty lastMerged : Tracked K) where
  normal := rfl
  type := rfl
  origin := by simp [Tracked.start, log]
  formed := by simp [batches]
  within := by simp [Tracked.start]
  absorbed := ⟨∅, by simp [Tracked.start, batchWrites]⟩
  truth := by simp [Tracked.start, logged, log, batches, batchWrites]

omit [ThriftSerialize RecordUpdateList] [ThriftSerialize LogBuffer] in
/-- A merge past every id leaves the index of all accepted batches. -/
theorem Inv.final_merge {keyType : Int} {done : List Call} {s : Tracked K}
    (h : Inv keyType done s) {t : TxnId} (ht : ∀ u b, Call.update u b ∈ done → u ≤ t) :
    (s.wrapper.merge t).1 = .OK ∧
      (s.wrapper.merge t).2.index = (applyRecords (RangeIndex.empty keyType) (batches done)).2 := by
  obtain ⟨ok, type, rel, -, -⟩ := h.merge_spec t
  have whole : s.wrapper.logManager.scan t = s.logged := by
    unfold LogManager.scan logged
    rw [List.takeWhile_eq_self_iff.mpr]
    · rfl
    · exact fun r hr => by simpa using ht _ _ (h.origin r hr)
  have formed : ∀ b ∈ batches done,
      RangeIndex.WellFormed K (RangeIndex.empty (K := K) keyType).keyType b.recordUpdates :=
    h.formed
  obtain ⟨-, type', rel'⟩ := applyRecords_spec formed
  refine ⟨ok, RangeIndex.ext_pairs (type.trans type'.symm) ?_⟩
  rw [rel, rel', whole, h.truth, RangeIndex.pairs_empty]
  rfl

/-- What the callers promise: well-formed batches under ids that do not go back, merges
and searches in normal status, a forced flush only for a record not flushed yet. -/
def Requested (s : Tracked K) : Call → Prop
  | .update t updates =>
    RangeIndex.WellFormed K s.wrapper.index.keyType updates.recordUpdates ∧
      ∀ r ∈ s.log, r.txnId ≤ t
  | .flushLog _ force => force = true →
    s.wrapper.logManager.pending ≠ [] ∨ s.wrapper.logManager.logBuffer.buffer ≠ []
  | _ => s.wrapper.status = .normal

end Tracked

/-! ## No accepted update is lost -/

section Runs

variable [ThriftSerialize RecordUpdateList] [ThriftSerialize LogBuffer]

/-- The run returns, and a merge past all of its ids leaves the index of its batches. -/
def KeepsUpdates (K : Type) [LinearOrder K] [KeyTypes K] (basePath : Str) (keyType : Int)
    (dirty : Bool) (lastMerged : TxnId) (calls : List Call) : Prop :=
  ∃ s : Tracked K,
    Transition.run Tracked.step (Tracked.start basePath keyType dirty lastMerged) calls = .ok s ∧
    ∀ t, (∀ u b, Call.update u b ∈ calls → u ≤ t) →
      (s.wrapper.merge t).1 = .OK ∧
        (s.wrapper.merge t).2.index =
          (applyRecords (RangeIndex.empty keyType) (batches calls)).2

/-- In deferred mode, whatever the uninitialised watermark holds: a run whose flushes all
find the records below the truncation point merged loses no accepted update. -/
theorem deferred_updates_survive (basePath : Str) (keyType : Int) (dirty : Bool)
    (lastMerged : TxnId) (calls : List Call)
    (safe : Transition.Meets Tracked.step Tracked.Safe
      (Tracked.start basePath keyType dirty lastMerged : Tracked K) calls) :
    KeepsUpdates K basePath keyType dirty lastMerged calls := by
  obtain ⟨s, hrun, inv⟩ := Transition.run_invariant
    (fun _ _ _ _ _ h hc => h.step hc) (List.nil_append calls)
    (Tracked.Inv.start basePath keyType dirty lastMerged) safe
  exact ⟨s, hrun, fun t ht => inv.final_merge ht⟩

end Runs

section Example

attribute [local instance] uint64Keys BinaryProtocol.recordUpdateList BinaryProtocol.logBuffer

/-- `insert key oid` as a batch of one record for one index. -/
def insertBatch (key oid : String) : RecordUpdateList where
  rootPath := "/foo/.vsfs/red/0".toList
  name := "red".toList
  recordUpdates := [⟨.insert, key.toList, oid.toList⟩]

theorem insertBatch_wellFormed :
    RangeIndex.WellFormed Int 0 (insertBatch "10" "7").recordUpdates := by decide

/-- An update, a merge that covers it, a flush that erases it, and the update again. -/
theorem merged_update_survives_flush :
    KeepsUpdates Int "/ram/1".toList 0 true 99
      [.update 1 (insertBatch "10" "7"), .merge 1, .flushLog 1 false,
        .update 2 (insertBatch "10" "7")] := by
  refine deferred_updates_survive _ _ _ _ _ ?_
  refine Transition.Meets.cons rfl insertBatch_wellFormed ?_
  refine Transition.Meets.cons rfl trivial ?_
  refine Transition.Meets.cons rfl ⟨.inl (by decide), fun r hr => ?_⟩ ?_
  · cases hr
  · exact Transition.Meets.cons rfl insertBatch_wellFormed trivial

/-- A first update under the id 0 that clients send, and the background flush with a
small `flush_log_size`. -/
def flushBeforeMerge : List Call := [.update 0 (insertBatch "10" "7"), .flushLog 1 false]

/-- The only record is erased before any merge, also when the uninitialised field happens
to be zero: the last merge finds an empty log and leaves an empty index. -/
theorem flush_before_merge_loses_update :
    Transition.Meets Tracked.step Tracked.Requested
        (Tracked.start "/ram/1".toList 0 true 0 : Tracked Int) flushBeforeMerge ∧
      ¬ KeepsUpdates Int "/ram/1".toList 0 true 0 flushBeforeMerge := by
  constructor
  · refine Transition.Meets.cons rfl ⟨insertBatch_wellFormed, ?_⟩ ?_
    · intro r hr
      cases hr
    · exact Transition.Meets.cons rfl (by simp [Tracked.Requested]) trivial
  · rintro ⟨s, hrun, final⟩
    cases hrun
    have lost := (final 0 (by simp [flushBeforeMerge])).2
    have sizes := congrArg (fun ix : RangeIndex Int => ix.index.size) lost
    revert sizes
    decide

end Example

end RangeIndexWrapper

end Vsfs.Indexd

import Vsfs.Indexd.Modes

/-!
# Transaction ids that arrive in any order

`merge(t)` is documented to merge all updates that have an id of at most `t`. Its scan
stops at the first larger id, so it misses records behind one that it should merge; and it
replays what it scans on the index that a larger merge may have left, where an older record
undoes a newer one.

## Main results

* `merges_respect_ids_iff` : all merges of a run leave exactly the batches they should
  exactly when, at each of them, the records that it misses would not change anything.
-/

namespace Vsfs.Indexd

open Index Replay Transition

namespace RangeIndexWrapper

variable {K : Type} [LinearOrder K] [KeyTypes K]

/-! ## What should be merged -/

/-- The record that a request adds to the log. -/
def Request.record? : Request → Option (LogRecord RecordUpdateList)
  | .update t b => some ⟨t, b⟩
  | _ => none

/-- The records of the batches so far, in arrival order. -/
def arrived (done : List Request) : List (LogRecord RecordUpdateList) :=
  done.filterMap Request.record?

/-- The id of the record is at most the largest one that was merged. -/
def covers (done : List Request) (r : LogRecord RecordUpdateList) : Bool :=
  done.any (fun q => q.reads?.any (fun t => decide (r.txnId ≤ t)))

/-- The batches that should be in the index. -/
def due (done : List Request) : List RecordUpdateList :=
  ((arrived done).filter (covers done)).map (·.record)

/-- The wrapper after some requests, in deferred mode. -/
def after (w : RangeIndexWrapper K) (done : List Request) : RangeIndexWrapper K :=
  done.foldl (fun w r => (w.serve false r).2) w

/-- A request that merges leaves the index of exactly the batches that should be in it. -/
def Respects (w : RangeIndexWrapper K) (done : List Request) (r : Request) : Prop :=
  r.reads?.isSome → (w.after (done ++ [r])).index = (applyRecords w.index (due (done ++ [r]))).2

/-! ## What is merged -/

/-- The batches that a merge replays. -/
def scanned (done : List Request) (t : TxnId) : List RecordUpdateList :=
  ((arrived done).takeWhile (fun r => decide (r.txnId ≤ t))).map (·.record)

/-- The batches that should be in the index after a merge, behind the first larger id. -/
def missed (done : List Request) (t : TxnId) : List RecordUpdateList :=
  (((arrived done).dropWhile (fun r => decide (r.txnId ≤ t))).filter
    (fun r => covers done r || decide (r.txnId ≤ t))).map (·.record)

/-- For every pair that a missed batch writes, the last such write agrees with the last
write of the batches that are replayed, or with the index when these do not write it. -/
def Settled (w : RangeIndexWrapper K) (done : List Request) (r : Request) : Prop :=
  ∀ t ∈ r.reads?, ∀ (p : K × ObjectId) (present : Bool),
    last (batchWrites K w.index.keyType (missed done t)) p = some present →
      ((last (batchWrites K w.index.keyType (scanned done t)) p).elim
        (p ∈ (w.after done).index.pairs) (· = true) ↔ present = true)

section

omit [KeyTypes K]

theorem arrived_append_read (done : List Request) {r : Request} {t : TxnId}
    (reads : r.reads? = some t) : arrived (done ++ [r]) = arrived done := by
  cases r <;> simp [arrived, Request.record?, Request.reads?] at reads ⊢

theorem covers_append (done : List Request) (r : Request) (l : LogRecord RecordUpdateList) :
    covers (done ++ [r]) l = (covers done l || r.reads?.any (fun t => decide (l.txnId ≤ t))) := by
  simp [covers]

/-- A merge should leave what it scans and what it misses, in this order. -/
theorem due_append_read (done : List Request) {r : Request} {t : TxnId}
    (reads : r.reads? = some t) : due (done ++ [r]) = scanned done t ++ missed done t := by
  have split : (arrived done).filter (fun l => covers done l || decide (l.txnId ≤ t)) =
      (arrived done).takeWhile (fun l => decide (l.txnId ≤ t)) ++
        ((arrived done).dropWhile (fun l => decide (l.txnId ≤ t))).filter
          (fun l => covers done l || decide (l.txnId ≤ t)) := by
    conv_lhs => rw [← List.takeWhile_append_dropWhile
      (p := fun l : LogRecord RecordUpdateList => decide (l.txnId ≤ t)) (l := arrived done)]
    rw [List.filter_append]
    congr 1
    refine List.filter_eq_self.mpr fun l hl => ?_
    rw [List.mem_takeWhile_imp hl, Bool.or_true]
  have coverage : covers (done ++ [r]) = fun l => covers done l || decide (l.txnId ≤ t) := by
    funext l
    rw [covers_append, reads]
    rfl
  rw [due, arrived_append_read done reads, coverage, split, List.map_append]
  rfl

end

/-! ## The invariant -/

variable {w : RangeIndexWrapper K} {done : List Request}

/-- The log is all that arrived, and the index has those of the first records that were
covered: the records that were there at the last merge. -/
structure Faithful (w : RangeIndexWrapper K) (done : List Request) : Prop where
  normal : (w.after done).status = .normal
  type : (w.after done).index.keyType = w.index.keyType
  log : (w.after done).logManager.log = arrived done
  formed : ∀ r ∈ arrived done, RangeIndex.WellFormed K w.index.keyType r.record.recordUpdates
  merged : ∃ n ≤ (arrived done).length, (w.after done).index.pairs =
    replay (batchWrites K w.index.keyType
      ((((arrived done).take n).filter (covers done)).map (·.record))) w.index.pairs

theorem Faithful.start (normal : w.status = .normal) (unlogged : w.logManager.log = []) :
    Faithful w [] where
  normal := normal
  type := rfl
  log := unlogged
  formed := by simp [arrived]
  merged := ⟨0, Nat.zero_le _, by simp [after, batchWrites]⟩

theorem after_append (w : RangeIndexWrapper K) (done : List Request) (r : Request) :
    w.after (done ++ [r]) = ((w.after done).serve false r).2 := by
  simp [after]

/-- Every request that reads is a merge, as far as the wrapper goes. -/
theorem after_append_read (w : RangeIndexWrapper K) (done : List Request) {r : Request} {t : TxnId}
    (reads : r.reads? = some t) : w.after (done ++ [r]) = ((w.after done).merge t).2 := by
  rw [after_append]
  cases r with
  | update u b => cases reads
  | search u query =>
    cases reads
    exact Tracked.search_wrapper _ _ _
  | info u =>
    cases reads
    rfl
  | merge u =>
    cases reads
    rfl

theorem Faithful.update (h : Faithful w done) {t : TxnId} {b : RecordUpdateList}
    (hb : RangeIndex.WellFormed K w.index.keyType b.recordUpdates) :
    Faithful w (done ++ [.update t b]) := by
  have new : arrived (done ++ [.update t b]) = arrived done ++ [⟨t, b⟩] := by
    simp [arrived, Request.record?]
  have coverage : covers (done ++ [.update t b]) = covers done := by
    funext l
    simp [covers_append, Request.reads?]
  have state := after_append w done (.update t b)
  obtain ⟨n, within, merged⟩ := h.merged
  refine ⟨by rw [state]; exact h.normal, by rw [state]; exact h.type, ?_, fun r hr => ?_, n, ?_, ?_⟩
  · rw [state, new, ← h.log]
    rfl
  · rcases List.mem_append.mp (new ▸ hr) with old | last
    · exact h.formed r old
    · rw [List.mem_singleton.mp last]
      exact hb
  · rw [new, List.length_append]
    omega
  · rw [state, new, coverage, List.take_append_of_le_length within]
    exact merged

omit [LinearOrder K] in
theorem mem_batchWrites {keyType : Int} {batches : List RecordUpdateList}
    {write : Write (K × ObjectId)} :
    write ∈ batchWrites K keyType batches ↔
      ∃ b ∈ batches, write ∈ RangeIndex.writes K keyType b.recordUpdates :=
  List.mem_flatMap

/-- The batches that a merge should leave act on the relation as their writes. -/
theorem Faithful.due_spec (h : Faithful w done) {r : Request} {t : TxnId}
    (reads : r.reads? = some t) :
    (applyRecords w.index (due (done ++ [r]))).2.keyType = w.index.keyType ∧
      (applyRecords w.index (due (done ++ [r]))).2.pairs =
        replay (batchWrites K w.index.keyType (due (done ++ [r]))) w.index.pairs := by
  refine (applyRecords_spec fun b hb => ?_).2
  obtain ⟨l, hl, rfl⟩ := List.mem_map.mp hb
  rw [arrived_append_read done reads] at hl
  exact h.formed l (List.mem_filter.mp hl).1

omit [LinearOrder K] in
/-- Whatever earlier merges have put into the index is due at the next one. -/
theorem touched_covered_subset (keyType : Int) (done : List Request) {r : Request} {t : TxnId}
    (reads : r.reads? = some t) (n : Nat) :
    touched (batchWrites K keyType
        ((((arrived done).take n).filter (covers done)).map (·.record))) ⊆
      touched (batchWrites K keyType (due (done ++ [r]))) := by
  rintro p ⟨write, hw, rfl⟩
  obtain ⟨b, hb, hw⟩ := mem_batchWrites.mp hw
  obtain ⟨l, hl, rfl⟩ := List.mem_map.mp hb
  obtain ⟨taken, covered⟩ := List.mem_filter.mp hl
  refine ⟨write, mem_batchWrites.mpr ⟨l.record, List.mem_map_of_mem ?_, hw⟩, rfl⟩
  refine List.mem_filter.mpr ⟨?_, by simp [covers_append, covered]⟩
  rw [arrived_append_read done reads]
  exact List.mem_of_mem_take taken

/-- A merge leaves the batches that are due exactly when what it misses is settled. -/
theorem Faithful.respects_iff_settled (h : Faithful w done) (r : Request) :
    Respects w done r ↔ Settled w done r := by
  cases reads : r.reads? with
  | none => simp [Respects, Settled, reads]
  | some t =>
    obtain ⟨-, type, rel, -, -⟩ := merge_spec h.normal h.type (by rw [h.log]; exact h.formed) t
    have scan : (w.after done).logManager.scan t = scanned done t := by
      rw [LogManager.scan, h.log, scanned]
    obtain ⟨type', rel'⟩ := h.due_spec reads
    obtain ⟨n, -, merged⟩ := h.merged
    have part := touched_covered_subset (K := K) w.index.keyType done reads n
    rw [due_append_read done reads, batchWrites_append] at part rel'
    have step := replay_eq_replay_append_iff merged part
    rw [← scan, ← rel, scan, ← rel'] at step
    have indices : Respects w done r ↔ ((w.after done).merge t).2.index.pairs =
        (applyRecords w.index (scanned done t ++ missed done t)).2.pairs := by
      rw [Respects, reads, after_append_read w done reads, due_append_read done reads]
      refine ⟨fun same => congrArg _ (same rfl), fun same _ => RangeIndex.ext_pairs ?_ same⟩
      rw [type, ← type', due_append_read done reads]
    rw [indices, step, Settled, reads]
    simp

theorem Faithful.step (h : Faithful w done) {r : Request}
    (formed : ∀ b ∈ r.batch?, RangeIndex.WellFormed K w.index.keyType b.recordUpdates)
    (respects : Respects w done r) : Faithful w (done ++ [r]) := by
  cases reads : r.reads? with
  | none =>
    cases r with
    | update t b => exact h.update (formed b rfl)
    | search t query => cases reads
    | info t => cases reads
    | merge t => cases reads
  | some t =>
    obtain ⟨-, type, -, log, normal⟩ := merge_spec h.normal h.type (by rw [h.log]; exact h.formed) t
    have state := after_append_read w done reads
    have same := arrived_append_read done reads
    refine ⟨by rw [state, normal], by rw [state, type], by rw [state, log, h.log, same],
      by rw [same]; exact h.formed, (arrived (done ++ [r])).length, le_rfl, ?_⟩
    rw [List.take_length, respects (by simp [reads]), (h.due_spec reads).2]
    rfl

/-! ## Runs -/

/-- On an index without a log, in every run of well-formed batches under any ids and of
reads at any ids: every merge leaves exactly the batches that have an id of at most the
largest merged one, in arrival order, if and only if what each merge misses is settled. -/
theorem merges_respect_ids_iff (w : RangeIndexWrapper K) (normal : w.status = .normal)
    (unlogged : w.logManager.log = []) (requests : List Request)
    (formed : ∀ r ∈ requests, ∀ b ∈ r.batch?,
      RangeIndex.WellFormed K w.index.keyType b.recordUpdates) :
    Along (Respects w) requests ↔ Along (Settled w) requests := by
  have start : Faithful w [] := .start normal unlogged
  refine Along.iff_of_invariant start (fun done r rest _ h => h.respects_iff_settled r)
    fun done r rest split h now => ?_
  exact h.step (formed r (by rw [← split]; simp)) now

/-- Ids that never go back leave nothing to miss. -/
theorem settled_of_sorted {requests : List Request}
    (sorted : requests.Pairwise Request.Timely) : Along (Settled w) requests := by
  intro done r rest split t reads p present write
  have none : missed done t = [] := by
    have all : (arrived done).dropWhile (fun l => decide (l.txnId ≤ t)) = [] := by
      refine List.dropWhile_eq_nil_iff.mpr fun l hl => ?_
      obtain ⟨q, hq, record⟩ := List.mem_filterMap.mp hl
      have before := (List.pairwise_append.mp (split ▸ sorted)).2.2 q hq r (by simp)
      have arrives : l.txnId ∈ q.arrives? := by
        cases q <;> simp [Request.record?, Request.arrives?] at record ⊢
        rw [← record]
      simpa using before l.txnId arrives t reads
    simp [missed, all]
  simp [none, batchWrites] at write

section Example

attribute [local instance] uint64Keys

/-- Every read covers what arrived before it. -/
theorem insertAndRemove_respected : Along (Respects newIndex) insertAndRemove :=
  (merges_respect_ids_iff newIndex rfl rfl insertAndRemove (by decide)).mpr
    (settled_of_sorted (by decide))

/-- A batch under the id 1 that arrives behind one under the id 2. -/
def behindLargerId : List Request :=
  [.update 2 (insertBatch "10" "7"), .update 1 (insertBatch "20" "8"), .merge 1]

/-- The merge finds the larger id first, and leaves the index empty. -/
theorem merge_misses_record :
    (∀ r ∈ behindLargerId, ∀ b ∈ r.batch?, RangeIndex.WellFormed Int 0 b.recordUpdates) ∧
      ¬ Along (Respects newIndex) behindLargerId := by
  refine ⟨by decide, fun along => ?_⟩
  have same := along [.update 2 (insertBatch "10" "7"), .update 1 (insertBatch "20" "8")]
    (.merge 1) [] rfl rfl
  have sizes := congrArg (fun ix : RangeIndex Int => ix.index.size) same
  revert sizes
  decide

end Example

end RangeIndexWrapper

end Vsfs.Indexd

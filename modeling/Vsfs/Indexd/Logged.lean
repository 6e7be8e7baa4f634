import Vsfs.Indexd.Findable
import Vsfs.Indexd.Reports

/-!
# Index servers and their clients

Clients ask an index server for partitions and for updates, and leave the transaction ids of
the updates at zero. Such a server has an index for every partition that it knows, and
nothing but zeros in the logs.

## Main results

* `Usable.create`, `logsAtZero_updateAll`.
-/

namespace Vsfs.Indexd

open Std Index Replay FiniteMap

/-- A log with nothing but zeros is merged as a whole. -/
theorem RangeIndexWrapper.merge_of_zeros {K : Type} [LinearOrder K] [KeyTypes K]
    {w : RangeIndexWrapper K} (zeros : ∀ r ∈ w.logManager.log, r.txnId = 0)
    (ok : (w.merge 0).1.ok = true) :
    (w.merge 0).2.index.keyType = w.index.keyType ∧ (w.merge 0).2.index.pairs =
      replay (batchWrites K w.index.keyType (w.logManager.log.map (·.record))) w.index.pairs := by
  have whole : w.logManager.scan 0 = w.logManager.log.map (·.record) := by
    rw [LogManager.scan, List.takeWhile_eq_self_iff.mpr]
    intro r hr
    simp [zeros r hr]
  obtain ⟨-, type, rel⟩ := applyRecords_spec ((merge_ok_iff w 0).mp ok).2
  rw [merge_of_ok ok, ← whole]
  exact ⟨type, rel⟩

namespace IndexManager

variable {K : Type} [LinearOrder K]

/-! ## Updates -/

/-- The logs only get records at the transaction id zero, which clients leave unset. -/
def LogsAtZero (im im' : IndexManager K) : Prop :=
  ∀ (part : Str) (w' : RangeIndexWrapper K), im'.rangeIndexMap[part]? = some w' →
    ∃ w, im.rangeIndexMap[part]? = some w ∧
      ∀ r ∈ w'.logManager.log, r ∈ w.logManager.log ∨ r.txnId = 0

theorem LogsAtZero.refl (im : IndexManager K) : LogsAtZero im im :=
  fun _ w found => ⟨w, found, fun _ hr => .inl hr⟩

theorem LogsAtZero.trans {im im' im'' : IndexManager K} (h : LogsAtZero im im')
    (h' : LogsAtZero im' im'') : LogsAtZero im im'' := by
  intro part w'' found
  obtain ⟨w', found', new'⟩ := h' part w'' found
  obtain ⟨w, found, new⟩ := h part w' found'
  refine ⟨w, found, ?_⟩
  intro r hr
  rcases new' r hr with old | zero
  · exact new r old
  · exact .inr zero

variable [KeyTypes K]

theorem logsAtZero_updateSingleIndex {im im' : IndexManager K} {l : RecordUpdateList}
    {status : Status} (h : im.updateSingleIndex 0 l = .ok (status, im')) : LogsAtZero im im' := by
  rcases updateSingleIndex_cases h with rfl | ⟨w, here, rfl⟩
  · exact .refl _
  · intro part w' found
    rw [getElem?_insert] at found
    split at found
    · rename_i same
      cases found
      refine ⟨w, same ▸ here, ?_⟩
      intro r hr
      have log : r ∈ w.logManager.log ++ [⟨0, l⟩] := hr
      rcases List.mem_append.mp log with old | new
      · exact .inl old
      · exact .inr (by rw [List.mem_singleton.mp new])
    · exact LogsAtZero.refl im part w' found

theorem logsAtZero_updateAll {im im' : IndexManager K} {lists : List RecordUpdateList}
    {status : Status} (h : im.updateAll 0 lists = .ok (status, im')) : LogsAtZero im im' := by
  induction lists generalizing im with
  | nil =>
    cases h
    exact .refl _
  | cons l lists ih =>
    cases first : im.updateSingleIndex 0 l with
    | error crash => simp [updateAll, first, bind, Except.bind] at h
    | ok out =>
      obtain ⟨status₁, im₁⟩ := out
      have now := logsAtZero_updateSingleIndex first
      simp only [updateAll, first, bind, Except.bind, pure, Except.pure] at h
      split at h
      · cases h
        exact now
      · exact now.trans (ih h)

/-- An update is only accepted when the server knows all partitions in it. -/
theorem known_of_updateAll {im im' : IndexManager K} {t : TxnId} {lists : List RecordUpdateList}
    {status : Status} (h : im.updateAll t lists = .ok (status, im')) (ok : status.ok = true) :
    ∀ l ∈ lists, l.rootPath ∈ im.indexInfoMap := by
  induction lists generalizing im with
  | nil => simp
  | cons l lists ih =>
    cases first : im.updateSingleIndex t l with
    | error crash => simp [updateAll, first, bind, Except.bind] at h
    | ok out =>
      obtain ⟨status₁, im₁⟩ := out
      simp only [updateAll, first, bind, Except.bind, pure, Except.pure] at h
      split at h
      · rename_i bad
        cases h
        simp [ok] at bad
      · rename_i fine
        intro l' hl'
        rcases List.mem_cons.mp hl' with rfl | hl'
        · by_contra absent
          have none := (not_mem_iff _ _).mp absent
          simp only [updateSingleIndex, none] at first
          cases first
          exact fine rfl
        · have later := ih h l' hl'
          rwa [indexInfoMap_updateSingleIndex first] at later

/-! ## Partitions -/

omit [KeyTypes K] in
/-- Every partition that the server knows has an index, and the logs have no other
transaction id than zero. -/
structure Usable (im : IndexManager K) : Prop where
  takes : ∀ part ∈ im.indexInfoMap, im.Takes part
  known : ∀ part ∈ im.rangeIndexMap, part ∈ im.indexInfoMap
  logs : ∀ (part : Str) (w : RangeIndexWrapper K), im.rangeIndexMap[part]? = some w →
    ∀ r ∈ w.logManager.log, r.txnId = 0

/-- A new partition leaves the others as they are. -/
theorem Usable.create [PathHash] {im im' : IndexManager K} (h : im.Usable) {id : TxnId}
    {path name : Str} {indexType keyType : Int}
    (made : im.create id path name indexType keyType = (.OK, im')) :
    im'.Usable ∧ (∀ (part : Str) (w : RangeIndexWrapper K), im.rangeIndexMap[part]? = some w →
      im'.rangeIndexMap[part]? = some w) ∧
      ∀ part ∈ im'.rangeIndexMap, part ∈ im.rangeIndexMap ∨ part = path := by
  rcases create_spec made with ⟨bad, -⟩ | ⟨-, new, ⟨-, rfl⟩ | ⟨w, tree, -, -, empty, rfl⟩⟩
  · cases bad
  · exact ⟨h, fun _ _ found => found, fun _ there => .inl there⟩
  · refine ⟨⟨?_, ?_, ?_⟩, ?_, ?_⟩
    · intro part hp
      by_cases same : path = part
      · subst same
        exact ⟨_, w, ExtTreeMap.getElem?_insert_self, tree, ExtTreeMap.getElem?_insert_self⟩
      · obtain ⟨entry, w', known, type, found⟩ := h.takes part (by
          rcases ExtTreeMap.mem_insert.mp hp with same' | old
          · exact absurd (compare_eq_iff_eq.mp same') same
          · exact old)
        refine ⟨entry, w', ?_, type, ?_⟩
        · rw [getElem?_insert, if_neg same, known]
        · rw [getElem?_insert, if_neg same, found]
    · intro part hp
      rcases ExtTreeMap.mem_insert.mp hp with same | old
      · exact ExtTreeMap.mem_insert.mpr (.inl same)
      · exact ExtTreeMap.mem_insert.mpr (.inr (h.known part old))
    · intro part w' found
      rw [getElem?_insert] at found
      split at found
      · cases found
        simp [empty]
      · exact h.logs part w' found
    · intro part w' found
      have old : part ∈ im.rangeIndexMap := (mem_iff_exists _ _).mpr ⟨w', found⟩
      rw [getElem?_insert, if_neg, found]
      rintro rfl
      exact new (h.known _ old)
    · intro part hp
      rcases ExtTreeMap.mem_insert.mp hp with same | old
      · exact .inr (compare_eq_iff_eq.mp same).symm
      · exact .inl old

end IndexManager

end Vsfs.Indexd

import Vsfs.Indexd.Malformed

/-!
# Searches that report failures

`RangeIndexWrapper::search` merges the log and then searches the index. The status of the
merge is passed on up to `IndexManager::search`, but that of the search proper is dropped,
so a bound that does not cast gives an empty answer under `OK`. The merge itself looks at
the leading records of the log only: a batch behind a larger id is not applied, and nothing
is said about it either.

## Main results

* `searchAll_spec` : when a search succeeds, and what it answers then.
* `reports_iff` : a search reports every failure exactly when another failure comes first,
  or there is none of these two kinds.
-/

namespace Vsfs.Indexd

open Std Index Replay FiniteMap

variable {K : Type} [LinearOrder K] [KeyTypes K]

namespace RangeIndexWrapper

/-- A merge succeeds on an index that is not migrating and has no malformed record among those
that it scans. -/
theorem merge_ok_iff (w : RangeIndexWrapper K) (t : TxnId) : (w.merge t).1.ok = true ↔
    w.status = .normal ∧
      ∀ b ∈ w.logManager.scan t, RangeIndex.WellFormed K w.index.keyType b.recordUpdates := by
  rw [← applyRecords_ok_iff]
  unfold merge
  cases status : w.status with
  | migrating => simp [Status.ok]
  | normal =>
    simp only [reduceCtorEq, if_false, true_and]
    split
    · rename_i ok
      simp [ok]
    · rfl

theorem merge_of_ok {w : RangeIndexWrapper K} {t : TxnId} (ok : (w.merge t).1.ok = true) :
    w.merge t = (.OK, { w with
      index := (applyRecords w.index (w.logManager.scan t)).2
      lastMergedLogId := t
      dirty := true }) := by
  obtain ⟨normal, formed⟩ := (merge_ok_iff w t).mp ok
  obtain ⟨done, -, -⟩ := applyRecords_spec formed
  simp [merge, normal, done]

/-- A second merge in a row has nothing to do. -/
theorem merge_again {w : RangeIndexWrapper K} {t : TxnId} (ok : (w.merge t).1.ok = true) :
    (w.merge t).2.merge t = (.OK, (w.merge t).2) := by
  obtain ⟨normal, formed⟩ := (merge_ok_iff w t).mp ok
  obtain ⟨done, type, rel⟩ := applyRecords_spec formed
  have formed' : ∀ b ∈ w.logManager.scan t, RangeIndex.WellFormed K
      (applyRecords w.index (w.logManager.scan t)).2.keyType b.recordUpdates := by
    rwa [type]
  obtain ⟨done', type', rel'⟩ := applyRecords_spec formed'
  have same : (applyRecords (applyRecords w.index (w.logManager.scan t)).2
      (w.logManager.scan t)).2 = (applyRecords w.index (w.logManager.scan t)).2 := by
    refine RangeIndex.ext_pairs type' ?_
    rw [rel', type, rel, replay_idem]
  rw [merge_of_ok ok]
  simp [merge, normal, done', same]

end RangeIndexWrapper

namespace IndexManager

/-! ## What a search answers -/

/-- The index is there, and its log can be merged. -/
def Mergeable (im : IndexManager K) (t : TxnId) (path : Str) : Prop :=
  path ∈ im.indexInfoMap ∧ ∃ w, im.rangeIndexMap[path]? = some w ∧ (w.merge t).1.ok = true

/-- The answer of a range search on the merged index. -/
def mergedAnswer (im : IndexManager K) (t : TxnId) (cq : RangeQuery) : List ObjectId :=
  match im.rangeIndexMap[cq.indexPath]? with
  | none => []
  | some w => ((w.merge t).2.index.search cq).2

/-- The server after the merge of an index. -/
def merged (im : IndexManager K) (path : Str) (w : RangeIndexWrapper K) (t : TxnId) :
    IndexManager K :=
  { im with rangeIndexMap := im.rangeIndexMap.insert path (w.merge t).2 }

variable {im : IndexManager K} {t : TxnId} {path : Str} {w : RangeIndexWrapper K}

theorem takes_merged (takes : ∀ p ∈ im.indexInfoMap, im.Takes p) :
    ∀ p ∈ im.indexInfoMap, (im.merged path w t).Takes p := by
  intro p hp
  obtain ⟨entry, v, registered, tree, found⟩ := takes p hp
  by_cases same : path = p
  · exact ⟨entry, (w.merge t).2, registered, tree, by simp [merged, same]⟩
  · exact ⟨entry, v, registered, tree, by simpa [merged, same] using found⟩

/-- An index that was merged once can be merged again, and one of another path is as before. -/
theorem mergeable_merged (found : im.rangeIndexMap[path]? = some w)
    (ok : (w.merge t).1.ok = true) (p : Str) :
    (im.merged path w t).Mergeable t p ↔ im.Mergeable t p := by
  refine and_congr_right fun _ => ?_
  by_cases same : path = p
  · subst same
    simp [merged, found, ok, RangeIndexWrapper.merge_again ok]
  · simp [merged, same]

theorem mergedAnswer_merged (found : im.rangeIndexMap[path]? = some w)
    (ok : (w.merge t).1.ok = true) (cq : RangeQuery) :
    (im.merged path w t).mergedAnswer t cq = im.mergedAnswer t cq := by
  unfold mergedAnswer
  by_cases same : path = cq.indexPath
  · subst same
    simp [merged, found, RangeIndexWrapper.merge_again ok]
  · simp [merged, same]

/-- A search succeeds when all indices it asks for can be merged, and puts the answers of the
merged indices one after the other. A path may occur more than once. -/
theorem searchAll_spec (takes : ∀ p ∈ im.indexInfoMap, im.Takes p) (results : List ObjectId)
    (cqs : List RangeQuery) : ∃ status out im',
      im.searchAll t results cqs = .ok (status, out, im') ∧
      (status.ok = true ↔ ∀ cq ∈ cqs, im.Mergeable t cq.indexPath) ∧
      (status.ok = true → out = results ++ cqs.flatMap (im.mergedAnswer t)) := by
  induction cqs generalizing im results with
  | nil => exact ⟨.OK, results, im, rfl, by simp, by simp⟩
  | cons cq cqs ih =>
    by_cases known : cq.indexPath ∈ im.indexInfoMap
    · obtain ⟨entry, w, registered, tree, found⟩ := takes _ known
      cases ok : (w.merge t).1.ok with
      | true =>
        have takes' : ∀ p ∈ (im.merged cq.indexPath w t).indexInfoMap,
            (im.merged cq.indexPath w t).Takes p := takes_merged takes
        obtain ⟨status, out, im', rest, sound, answers⟩ :=
          ih takes' (results ++ ((w.merge t).2.index.search cq).2)
        refine ⟨status, out, im', ?_, ?_, fun done => ?_⟩
        · simpa only [searchAll, registered, tree, wrapper, found, bind, Except.bind,
            RangeIndexWrapper.search, ok, if_true, Status.ok_OK, Bool.not_true,
            Bool.false_eq_true, if_false, merged] using rest
        · have first : im.Mergeable t cq.indexPath := ⟨known, w, found, ok⟩
          simp only [sound, mergeable_merged found ok, List.forall_mem_cons, first, true_and]
        · have mine : im.mergedAnswer t cq = ((w.merge t).2.index.search cq).2 := by
            simp only [mergedAnswer, found]
          rw [answers done, List.flatMap_cons, mine, List.append_assoc]
          simp only [funext (mergedAnswer_merged found ok)]
      | false =>
        have fails : ¬ im.Mergeable t cq.indexPath := by
          rintro ⟨-, v, found', ok'⟩
          rw [found] at found'
          cases found'
          rw [ok] at ok'
          cases ok'
        refine ⟨(w.merge t).1, results, im.merged cq.indexPath w t, ?_, ?_, fun done => ?_⟩
        · simp only [searchAll, registered, tree, wrapper, found, bind, Except.bind, pure,
            Except.pure, RangeIndexWrapper.search, ok, if_true, Bool.false_eq_true, if_false,
            Bool.not_false, merged]
        · exact iff_of_false (by simp [ok]) fun all => fails (all cq List.mem_cons_self)
        · rw [ok] at done
          cases done
    · refine ⟨⟨-ENOENT, "The index does not exist."⟩, results, im, ?_, ?_, fun done => ?_⟩
      · simp only [searchAll, (not_mem_iff _ _).mp known]
      · exact iff_of_false (by decide) fun all => known (all cq List.mem_cons_self).1
      · cases done

/-! ## What a search should report -/

/-- An empty text stands for a limit of the type. -/
def Casts (K : Type) [KeyTypes K] (keyType : Int) (text : Str) : Prop :=
  text = [] ∨ (KeyTypes.lexicalCast (K := K) keyType text).isSome

/-- Nothing is wrong with a sub-query: its index is registered and not migrating, the batches
logged under an id of at most `t` all apply, and both bounds cast to the type of its keys. -/
def Sound (im : IndexManager K) (t : TxnId) (cq : RangeQuery) : Prop :=
  cq.indexPath ∈ im.indexInfoMap ∧ ∃ w, im.rangeIndexMap[cq.indexPath]? = some w ∧
    w.status ≠ .migrating ∧
    (∀ r ∈ w.logManager.log, r.txnId ≤ t → (w.index.apply r.record.recordUpdates).1.ok = true) ∧
    Casts K w.index.keyType cq.lower ∧ Casts K w.index.keyType cq.upper

/-- The search returns `OK` exactly when nothing is wrong with any sub-query, and then with the
answers of the merged indices in the order of the query. -/
def Reports (im : IndexManager K) (query : RpcComplexQuery) : Prop :=
  ∃ status results im', im.search query = .ok (status, results, im') ∧
    (status.ok = true ↔ ∀ cq ∈ query.rangeQueries, im.Sound query.txnId cq) ∧
    (status.ok = true → results = query.rangeQueries.flatMap (im.mergedAnswer query.txnId))

/-- A failure that the merge of the index reports. -/
def Refused (im : IndexManager K) (t : TxnId) (cq : RangeQuery) : Prop :=
  cq.indexPath ∉ im.indexInfoMap ∨ ∃ w, im.rangeIndexMap[cq.indexPath]? = some w ∧
    (w.status = .migrating ∨ ∃ b ∈ w.logManager.scan t,
      ¬ RangeIndex.WellFormed K w.index.keyType b.recordUpdates)

/-- No failure that nothing reports: the bounds cast, and the records behind a larger id are
well formed too. -/
def Visible (im : IndexManager K) (t : TxnId) (cq : RangeQuery) : Prop :=
  ∀ w, im.rangeIndexMap[cq.indexPath]? = some w →
    Casts K w.index.keyType cq.lower ∧ Casts K w.index.keyType cq.upper ∧
    ∀ r ∈ w.logManager.log, r.txnId ≤ t →
      RangeIndex.WellFormed K w.index.keyType r.record.recordUpdates

theorem not_mergeable_iff (takes : ∀ p ∈ im.indexInfoMap, im.Takes p) (cq : RangeQuery) :
    ¬ im.Mergeable t cq.indexPath ↔ im.Refused t cq := by
  by_cases known : cq.indexPath ∈ im.indexInfoMap
  · obtain ⟨entry, w, registered, tree, found⟩ := takes _ known
    simp only [Mergeable, Refused, known, found, true_and, not_true, false_or,
      Option.some.injEq, exists_eq_left', RangeIndexWrapper.merge_ok_iff]
    cases w.status <;> simp
  · simp [Mergeable, Refused, known]

/-- A sub-query is sound when its index can be merged and nothing escapes the merge. -/
theorem sound_iff (cq : RangeQuery) :
    im.Sound t cq ↔ im.Mergeable t cq.indexPath ∧ im.Visible t cq := by
  constructor
  · rintro ⟨known, w, found, status, applied, lower, upper⟩
    have formed : ∀ r ∈ w.logManager.log, r.txnId ≤ t →
        RangeIndex.WellFormed K w.index.keyType r.record.recordUpdates :=
      fun r hr le => (RangeIndex.apply_ok_iff _ _).mp (applied r hr le)
    refine ⟨⟨known, w, found, (RangeIndexWrapper.merge_ok_iff w t).mpr ⟨?_, fun b hb => ?_⟩⟩, ?_⟩
    · cases normal : w.status with
      | normal => rfl
      | migrating => exact absurd normal status
    · obtain ⟨r, hr, rfl⟩ := List.mem_map.mp hb
      exact formed r ((List.takeWhile_prefix _).subset hr)
        (by simpa using List.mem_takeWhile_imp hr)
    · intro v found'
      rw [found] at found'
      cases found'
      exact ⟨lower, upper, formed⟩
  · rintro ⟨⟨known, w, found, ok⟩, visible⟩
    obtain ⟨lower, upper, formed⟩ := visible w found
    obtain ⟨normal, -⟩ := (RangeIndexWrapper.merge_ok_iff w t).mp ok
    refine ⟨known, w, found, by simp [normal], fun r hr le => ?_, lower, upper⟩
    exact (RangeIndex.apply_ok_iff _ _).mpr (formed r hr le)

/-- A server all of whose indices are there and of type `BTREE` reports every failure of a
search exactly when the merge of some index refuses it anyway, or no index has a failure that
nothing reports. -/
theorem reports_iff (im : IndexManager K) (takes : ∀ p ∈ im.indexInfoMap, im.Takes p)
    (query : RpcComplexQuery) : im.Reports query ↔
      (∃ cq ∈ query.rangeQueries, im.Refused query.txnId cq) ∨
        ∀ cq ∈ query.rangeQueries, im.Visible query.txnId cq := by
  obtain ⟨status, results, im', ran, merges, answers⟩ :=
    searchAll_spec (t := query.txnId) takes [] query.rangeQueries
  have reports : im.Reports query ↔
      (status.ok = true ↔ ∀ cq ∈ query.rangeQueries, im.Sound query.txnId cq) := by
    constructor
    · rintro ⟨status', results', im'', ran', sound, -⟩
      cases ran.symm.trans ran'
      exact sound
    · exact fun sound => ⟨status, results, im', ran, sound, answers⟩
  rw [reports, merges]
  by_cases all : ∀ cq ∈ query.rangeQueries, im.Mergeable query.txnId cq.indexPath
  · have none : ¬ ∃ cq ∈ query.rangeQueries, im.Refused query.txnId cq := by
      rintro ⟨cq, asked, refused⟩
      exact (not_mergeable_iff takes cq).mpr refused (all cq asked)
    rw [iff_true_left all, or_iff_right none]
    refine forall₂_congr fun cq asked => ?_
    rw [sound_iff, and_iff_right (all cq asked)]
  · refine iff_of_true (iff_of_false all fun sound => ?_) (.inl ?_)
    · exact all fun cq asked => ((sound_iff cq).mp (sound cq asked)).1
    · obtain ⟨cq, missed⟩ := not_forall.mp all
      obtain ⟨asked, refused⟩ := Classical.not_imp.mp missed
      exact ⟨cq, asked, (not_mergeable_iff takes cq).mp refused⟩

section Example

open RangeIndexWrapper (newIndex everything)

attribute [local instance] uint64Keys

theorem takes_oneIndex : ∀ p ∈ oneIndex.indexInfoMap, oneIndex.Takes p := by
  intro p here
  rcases ExtTreeMap.mem_insert.mp here with same | wrong
  · cases Std.compare_eq_iff_eq.mp same
    exact ⟨⟨"/foo/.vsfs/red/0".toList, "red".toList, IndexInfo.BTREE, 0⟩, newIndex,
      by simp only [oneIndex, ExtTreeMap.getElem?_insert_self], rfl,
      by simp only [oneIndex, ExtTreeMap.getElem?_insert_self]⟩
  · simp at wrong

theorem eq_newIndex {w : RangeIndexWrapper Int}
    (found : oneIndex.rangeIndexMap["/foo/.vsfs/red/0".toList]? = some w) : w = newIndex := by
  simp only [oneIndex, ExtTreeMap.getElem?_insert_self, Option.some.injEq] at found
  exact found.symm

/-- The same index twice in one query. -/
theorem everything_reported : oneIndex.Reports ⟨0, [], [everything, everything]⟩ := by
  refine (reports_iff oneIndex takes_oneIndex _).mpr (.inr fun cq asked w found => ?_)
  have whole : cq = everything := by simpa using asked
  rw [whole] at found ⊢
  rw [eq_newIndex found]
  exact ⟨.inl rfl, .inl rfl, fun r logged _ => absurd logged List.not_mem_nil⟩

/-- A lower bound that is not a number. -/
def fromTen : RangeQuery := { everything with lower := "ten".toList }

theorem fromTen_not_reported : ¬ oneIndex.Reports ⟨0, [], [fromTen]⟩ := by
  rintro ⟨status, results, im', ran, sound, -⟩
  have done : status = .OK := by
    have answered := congrArg (Except.map (·.1)) ran
    have computed : Except.map (·.1) (oneIndex.search ⟨0, [], [fromTen]⟩) = .ok Status.OK := by
      decide
    exact Except.ok.inj (answered.symm.trans computed)
  obtain ⟨-, w, found, -, -, lower, -⟩ := sound.mp (by rw [done]; rfl) fromTen (by simp)
  rw [eq_newIndex found] at lower
  revert lower
  simp only [Casts]
  decide

end Example

end IndexManager

end Vsfs.Indexd

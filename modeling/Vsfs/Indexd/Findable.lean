import Vsfs.Indexd.Deferred
import Vsfs.Indexd.IndexManager

/-!
# What a search can find

The object ids that an index server can answer a search with: those that an index has a
record of once its log is applied. A search only makes the index catch up with its log, so
new ids come from the insertions of an update alone.

## Main results

* `IndexServer.findable_of_handle` : where an id that a server can answer with comes from.
* `IndexServer.findable_of_search` : a search is answered with such ids.
-/

namespace Vsfs.Indexd

open Std Index Replay FiniteMap

variable {K : Type} [LinearOrder K] [KeyTypes K]

namespace RangeIndexWrapper

/-- A search can find the id: the log can be applied, and the index then has a record. -/
def Findable (w : RangeIndexWrapper K) (o : ObjectId) : Prop :=
  (w.merge 0).1.ok = true ∧ ∃ k, (k, o) ∈ (w.merge 0).2.index.pairs

/-- The record puts the id into an index of the key type. -/
def Inserts (K : Type) [KeyTypes K] (keyType : Int) (update : RecordUpdateOp) (o : ObjectId) :
    Prop :=
  ∃ k : K, RangeIndex.toWrite keyType update = some ⟨(k, o), true⟩

theorem findable_iff {w : RangeIndexWrapper K} {o : ObjectId} :
    w.Findable o ↔ w.status = .normal ∧
      (∀ b ∈ w.logManager.scan 0, RangeIndex.WellFormed K w.index.keyType b.recordUpdates) ∧
      ∃ k, (k, o) ∈ replay (batchWrites K w.index.keyType (w.logManager.scan 0)) w.index.pairs := by
  unfold Findable merge
  cases status : w.status with
  | migrating => simp [Status.ok]
  | normal =>
    by_cases formed : ∀ b ∈ w.logManager.scan 0,
        RangeIndex.WellFormed K w.index.keyType b.recordUpdates
    · obtain ⟨ok, -, rel⟩ := applyRecords_spec formed
      simp [ok, rel, and_iff_right formed]
    · have bad : ¬ (applyRecords w.index (w.logManager.scan 0)).1.ok = true :=
        fun ok => formed ((applyRecords_ok_iff _ _).mp ok)
      simp [bad, formed]

/-- What a merge leaves alone. -/
theorem merge_rest (w : RangeIndexWrapper K) (t : TxnId) :
    (w.merge t).2.status = w.status ∧ (w.merge t).2.logManager = w.logManager ∧
      (w.merge t).2.index.keyType = w.index.keyType := by
  unfold merge
  split
  · exact ⟨rfl, rfl, rfl⟩
  · dsimp only
    split <;> exact ⟨rfl, rfl, keyType_applyRecords _ _⟩

/-- A merge makes nothing findable. -/
theorem Findable.of_merge {w : RangeIndexWrapper K} {o : ObjectId} (h : (w.merge 0).2.Findable o) :
    w.Findable o := by
  obtain ⟨status, log, type⟩ := merge_rest w 0
  obtain ⟨normal, formed, k, found⟩ := findable_iff.mp h
  rw [status] at normal
  rw [log, type] at formed found
  have merged : (w.merge 0).2.index.pairs =
      replay (batchWrites K w.index.keyType (w.logManager.scan 0)) w.index.pairs := by
    obtain ⟨ok, -, rel⟩ := applyRecords_spec formed
    simp [merge, normal, ok, rel]
  rw [merged, replay_idem] at found
  exact findable_iff.mpr ⟨normal, formed, k, found⟩

/-- One more list at the end of the log is part of the scan or is not. -/
theorem scan_append (m : LogManager RecordUpdateList) (t u : TxnId) (b : RecordUpdateList) :
    (m.append u b).2.scan t = m.scan t ∨ (m.append u b).2.scan t = m.scan t ++ [b] := by
  simp only [LogManager.append, LogManager.scan, List.takeWhile_append]
  split
  · rename_i all
    have whole := (List.takeWhile_prefix fun r : LogRecord RecordUpdateList =>
      decide (r.txnId ≤ t)).eq_of_length all
    rw [whole]
    by_cases now : u ≤ t
    · exact .inr (by simp [now])
    · exact .inl (by simp [now])
  · exact .inl rfl

/-- An update makes findable what it inserts. -/
theorem Findable.of_update {w : RangeIndexWrapper K} {t : TxnId} {b : RecordUpdateList}
    {o : ObjectId} (h : (w.update false t b).2.Findable o) :
    w.Findable o ∨ ∃ u ∈ b.recordUpdates, Inserts K w.index.keyType u o := by
  have after : (w.update false t b).2 =
      { w with logManager := (w.logManager.append t b).2, dirty := true } := rfl
  rw [after] at h
  obtain ⟨normal, formed, k, found⟩ := findable_iff.mp h
  dsimp only at normal formed found
  rcases scan_append w.logManager 0 t b with same | more
  · rw [same] at formed found
    exact .inl (findable_iff.mpr ⟨normal, formed, k, found⟩)
  · rw [more] at formed found
    rw [batchWrites_append, replay_append] at found
    rcases mem_or_written_of_mem_replay found with old | written
    · exact .inl (findable_iff.mpr ⟨normal, fun b' hb' => formed b' (by simp [hb']), k, old⟩)
    · obtain ⟨u, hu, hw⟩ : ∃ u ∈ b.recordUpdates,
          RangeIndex.toWrite w.index.keyType u = some ⟨(k, o), true⟩ := by
        simpa [batchWrites, RangeIndex.writes] using written
      exact .inr ⟨u, hu, k, hw⟩

end RangeIndexWrapper

namespace IndexManager

/-- The server can answer a search with the id. -/
def Findable (im : IndexManager K) (o : ObjectId) : Prop :=
  ∃ (part : Str) (w : RangeIndexWrapper K), im.rangeIndexMap[part]? = some w ∧ w.Findable o

/-- The lists put the id into an index that the server has. -/
def Inserts (im : IndexManager K) (lists : List RecordUpdateList) (o : ObjectId) : Prop :=
  ∃ l ∈ lists, ∃ w : RangeIndexWrapper K, im.rangeIndexMap[l.rootPath]? = some w ∧
    ∃ u ∈ l.recordUpdates, RangeIndexWrapper.Inserts K w.index.keyType u o

variable {im im' : IndexManager K} {o : ObjectId}

/-- One index is replaced. -/
theorem Findable.of_insert {part : Str} {w : RangeIndexWrapper K}
    (h : Findable { im with rangeIndexMap := im.rangeIndexMap.insert part w } o) :
    im.Findable o ∨ w.Findable o := by
  obtain ⟨part', w', found, there⟩ := h
  rw [getElem?_insert] at found
  split at found
  · cases found
    exact .inr there
  · exact .inl ⟨part', w', found, there⟩

theorem Findable.of_merge {part : Str} {w : RangeIndexWrapper K}
    (here : im.rangeIndexMap[part]? = some w)
    (h : Findable { im with rangeIndexMap := im.rangeIndexMap.insert part (w.merge 0).2 } o) :
    im.Findable o := by
  rcases h.of_insert with old | new
  · exact old
  · exact ⟨part, w, here, new.of_merge⟩

/-- A list is refused, or appended to the log of its index. -/
theorem updateSingleIndex_cases {t : TxnId} {l : RecordUpdateList} {status : Status}
    (h : im.updateSingleIndex t l = .ok (status, im')) :
    im' = im ∨ ∃ w, im.rangeIndexMap[l.rootPath]? = some w ∧
      im' = { im with
        rangeIndexMap := im.rangeIndexMap.insert l.rootPath (w.update false t l).2 } := by
  unfold updateSingleIndex at h
  dsimp only at h
  split at h
  · cases h
    exact .inl rfl
  · split at h
    · cases found : im.rangeIndexMap[l.rootPath]? with
      | none => simp [wrapper, found, bind, Except.bind] at h
      | some w =>
        simp only [wrapper, found, bind, Except.bind, pure, Except.pure] at h
        split at h <;> cases h <;> exact .inr ⟨w, rfl, rfl⟩
    · cases h
      exact .inl rfl

theorem Findable.of_updateAll {t : TxnId} {lists : List RecordUpdateList} {status : Status}
    (h : im.updateAll t lists = .ok (status, im')) (found : im'.Findable o) :
    im.Findable o ∨ im.Inserts lists o := by
  induction lists generalizing im with
  | nil =>
    cases h
    exact .inl found
  | cons l lists ih =>
    cases first : im.updateSingleIndex t l with
    | error crash => simp [updateAll, first, bind, Except.bind] at h
    | ok out =>
      obtain ⟨status₁, im₁⟩ := out
      -- What the server can find after the first list, and what the others insert then.
      have rest : im₁.Findable o ∨ im₁.Inserts lists o := by
        simp only [updateAll, first, bind, Except.bind, pure, Except.pure] at h
        split at h
        · cases h
          exact .inl found
        · exact ih h
      rcases updateSingleIndex_cases first with rfl | ⟨w, here, rfl⟩
      · rcases rest with old | ⟨l', hl', inserted⟩
        · exact .inl old
        · exact .inr ⟨l', by simp [hl'], inserted⟩
      · rcases rest with now | ⟨l', hl', w', here', u, hu, inserted⟩
        · rcases now.of_insert with old | new
          · exact .inl old
          · rcases new.of_update with old | ⟨u, hu, inserted⟩
            · exact .inl ⟨_, w, here, old⟩
            · exact .inr ⟨l, by simp, w, here, u, hu, inserted⟩
        · rw [getElem?_insert] at here'
          split at here'
          · rename_i same
            cases here'
            exact .inr ⟨l', by simp [hl'], w, same ▸ here, u, hu, inserted⟩
          · exact .inr ⟨l', by simp [hl'], w', here', u, hu, inserted⟩

/-- A search makes nothing findable, and finds what is. -/
theorem findable_of_searchAll {results out : List ObjectId} {cqs : List RangeQuery}
    {status : Status} (h : im.searchAll 0 results cqs = .ok (status, out, im')) :
    (∀ o, im'.Findable o → im.Findable o) ∧ ∀ o ∈ out, o ∈ results ∨ im.Findable o := by
  induction cqs generalizing im results with
  | nil =>
    cases h
    exact ⟨fun _ found => found, fun _ ho => .inl ho⟩
  | cons cq cqs ih =>
    unfold searchAll at h
    split at h
    · cases h
      exact ⟨fun _ found => found, fun _ ho => .inl ho⟩
    · split at h
      · cases here : im.rangeIndexMap[cq.indexPath]? with
        | none => simp [wrapper, here, bind, Except.bind] at h
        | some w =>
          cases merged : (w.merge 0).1.ok with
          | false =>
            simp only [wrapper, here, bind, Except.bind, pure, Except.pure,
              RangeIndexWrapper.search, merged, Bool.false_eq_true, if_false, Bool.not_false,
              if_true] at h
            cases h
            exact ⟨fun _ found => found.of_merge here, fun _ ho => .inl ho⟩
          | true =>
            simp only [wrapper, here, bind, Except.bind, RangeIndexWrapper.search, merged,
              if_true, Status.ok_OK, Bool.not_true, Bool.false_eq_true, if_false] at h
            obtain ⟨kept, answered⟩ := ih h
            refine ⟨fun o found => (kept o found).of_merge here, fun o ho => ?_⟩
            rcases answered o ho with before | later
            · rcases List.mem_append.mp before with old | mine
              · exact .inl old
              · obtain ⟨k, record, -⟩ := (RangeIndex.mem_search _ _ _).mp mine
                exact .inr ⟨_, w, here, merged, k, record⟩
            · exact .inr (later.of_merge here)
      · cases h
        exact ⟨fun _ found => found, fun _ ho => .inl ho⟩

end IndexManager

namespace IndexServer

/-- The request reads at the transaction id that the client leaves at zero. -/
def Current : {α : Type} → IndexRpc α → Prop
  | _, .search query => query.txnId = 0
  | _, .info txnId _ => txnId = 0
  | _, _ => True

/-- The request puts the id into an index of the server. -/
def Inserting (im : IndexManager K) (o : ObjectId) : {α : Type} → IndexRpc α → Prop
  | _, .update updates => im.Inserts updates.updates o
  | _, _ => False

variable [PathHash] {im im' : IndexManager K} {lastMergedLogId : TxnId} {o : ObjectId}

/-- An id that a server can answer with was there or was inserted by the request. -/
theorem findable_of_handle {α : Type} {request : IndexRpc α} {answer : Except RpcInvalidOp α}
    (current : Current request) (h : handle im lastMergedLogId request = .ok (answer, im'))
    (found : im'.Findable o) : im.Findable o ∨ Inserting im o request := by
  cases request with
  | createIndex index =>
    cases out : im.create lastMergedLogId index.root index.name index.indexType.toInt
      index.keyType.toInt with
    | mk status im₁ =>
      simp only [handle, out, Except.ok.injEq, Prod.mk.injEq] at h
      obtain ⟨-, rfl⟩ := h
      left
      rcases IndexManager.create_spec out with
        ⟨-, rfl⟩ | ⟨-, new, ⟨-, rfl⟩ | ⟨w, -, empty, -, log, rfl⟩⟩
      · exact found
      · exact found
      · have cases : IndexManager.Findable { im with indexInfoMap := _ } o ∨ w.Findable o :=
          IndexManager.Findable.of_insert found
        rcases cases with old | wrong
        · exact old
        · obtain ⟨-, k, record⟩ := wrong
          rw [RangeIndexWrapper.index_merge_of_nil log, empty] at record
          simp at record
  | removeIndex root name =>
    cases h
    exact .inl found
  | update updates =>
    cases out : im.update updates with
    | error crash => simp [handle, out, bind, Except.bind] at h
    | ok answered =>
      simp only [handle, out, bind, Except.bind] at h
      cases h
      exact IndexManager.Findable.of_updateAll out found
  | search query =>
    cases out : im.search query with
    | error crash => simp [handle, out, bind, Except.bind] at h
    | ok answered =>
      simp only [handle, out, bind, Except.bind] at h
      cases h
      unfold IndexManager.search at out
      rw [current] at out
      exact .inl ((IndexManager.findable_of_searchAll out).1 o found)
  | info txnId path =>
    subst current
    cases out : im.info 0 path with
    | error crash => simp [handle, out, bind, Except.bind] at h
    | ok answered =>
      simp only [handle, out, bind, Except.bind] at h
      cases h
      left
      unfold IndexManager.info at out
      split at out
      · cases out
        exact found
      · dsimp only at out
        split at out
        · cases here : im.rangeIndexMap[path]? with
          | none => simp [IndexManager.wrapper, here, bind, Except.bind] at out
          | some w =>
            simp only [IndexManager.wrapper, here, bind, Except.bind, pure, Except.pure] at out
            cases out
            exact found.of_merge here
        · cases out
          exact found

/-- A search is answered with ids that the server can find. -/
theorem findable_of_search {query : RpcComplexQuery} {results : List ObjectId}
    (current : query.txnId = 0)
    (h : handle im lastMergedLogId (.search query) = .ok (.ok results, im')) (ho : o ∈ results) :
    im.Findable o := by
  obtain ⟨status, -, all⟩ := search_answered h
  rw [current] at all
  rcases (IndexManager.findable_of_searchAll all).2 o ho with wrong | found
  · cases wrong
  · exact found

end IndexServer

end Vsfs.Indexd

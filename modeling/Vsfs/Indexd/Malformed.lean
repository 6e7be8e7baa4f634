import Vsfs.Common.Md5
import Vsfs.Indexd.Modes

/-!
# Malformed records

In deferred mode `update` appends a batch without looking at it; its texts are cast when
the log is replayed. The replay stops at the first record that does not cast, and the record
stays in the log, so from then on every search of the index fails.

## Main results

* `search_reflects_iff` : after any requests to an index server, a search past all ids
  succeeds and reflects the accepted batches exactly when all of their records are well
  formed.
-/

namespace Vsfs.Indexd

open Std Index Replay FiniteMap
open RangeIndexWrapper (batchWrites batchWrites_append applyRecords applyRecords_ok_iff merge_spec
  logManager_merge search_of_merge_ok)

namespace IndexManager

variable {K : Type} [LinearOrder K] [KeyTypes K]

/-! ## One index -/

/-- The index after some batches under ids of at most `t`, when it began as `start`. Only
when all of them are well formed is it known what merges have made of them. -/
structure Fed (t : TxnId) (start : RangeIndex K) (batches : List RecordUpdateList)
    (w : RangeIndexWrapper K) : Prop where
  normal : w.status = .normal
  type : w.index.keyType = start.keyType
  log : w.logManager.log.map (·.record) = batches
  ids : ∀ r ∈ w.logManager.log, r.txnId ≤ t
  truth : (∀ b ∈ batches, RangeIndex.WellFormed K start.keyType b.recordUpdates) →
    replay (batchWrites K start.keyType batches) w.index.pairs =
      replay (batchWrites K start.keyType batches) start.pairs

variable {t : TxnId} {start : RangeIndex K} {batches : List RecordUpdateList}
  {w : RangeIndexWrapper K}

theorem Fed.formed (h : Fed t start batches w)
    (all : ∀ b ∈ batches, RangeIndex.WellFormed K start.keyType b.recordUpdates) :
    ∀ r ∈ w.logManager.log, RangeIndex.WellFormed K start.keyType r.record.recordUpdates :=
  fun _ hr => all _ (h.log ▸ List.mem_map_of_mem hr)

theorem Fed.update (h : Fed t start batches w) {u : TxnId} (hu : u ≤ t) (b : RecordUpdateList) :
    Fed t start (batches ++ [b]) (w.update false u b).2 := by
  have logs : (w.update false u b).2.logManager.log = w.logManager.log ++ [⟨u, b⟩] := rfl
  refine ⟨h.normal, h.type, by rw [logs, List.map_append, h.log]; rfl, fun r hr => ?_,
    fun all => ?_⟩
  · rcases List.mem_append.mp (logs ▸ hr) with old | new
    · exact h.ids r old
    · rw [List.mem_singleton.mp new]
      exact hu
  · rw [batchWrites_append, replay_append, replay_append]
    exact congrArg _ (h.truth fun c hc => all c (by simp [hc]))

/-- A merge may stop half way, but only in a log that has a malformed record. -/
theorem Fed.merge (h : Fed t start batches w) (u : TxnId) : Fed t start batches (w.merge u).2 := by
  have kept : (w.merge u).2.status = w.status ∧
      (w.merge u).2.index.keyType = w.index.keyType := by
    unfold RangeIndexWrapper.merge
    split
    · exact ⟨rfl, rfl⟩
    · dsimp only
      split <;> simp
  refine ⟨kept.1.trans h.normal, kept.2.trans h.type, by rw [logManager_merge, h.log],
    by rw [logManager_merge]; exact h.ids, fun all => ?_⟩
  obtain ⟨-, -, rel, -, -⟩ := merge_spec h.normal h.type (h.formed all) u
  have part : batchWrites K start.keyType (w.logManager.scan u) <+:
      batchWrites K start.keyType batches := by
    obtain ⟨rest, split⟩ := (List.takeWhile_prefix (l := w.logManager.log)
      (fun r => decide (r.txnId ≤ u))).map (·.record)
    rw [h.log] at split
    exact ⟨batchWrites K start.keyType rest, by rw [← batchWrites_append, ← split]; rfl⟩
  rw [rel, replay_replay_of_prefix part, h.truth all]

/-- A merge past all ids replays all batches. -/
theorem Fed.scan_eq (h : Fed t start batches w) : w.logManager.scan t = batches := by
  rw [LogManager.scan, List.takeWhile_eq_self_iff.mpr fun r hr => by simpa using h.ids r hr, h.log]

theorem Fed.merge_ok_iff (h : Fed t start batches w) :
    (w.merge t).1.ok = true ↔
      ∀ b ∈ batches, RangeIndex.WellFormed K start.keyType b.recordUpdates := by
  rw [← h.type, ← applyRecords_ok_iff w.index batches]
  unfold RangeIndexWrapper.merge
  rw [if_neg (by simp [h.normal]), h.scan_eq]
  dsimp only
  split
  · rename_i ok
    simp [ok]
  · rfl

/-! ## One index among others -/

/-- Every `BTREE` index that is registered has its wrapper. -/
def Backed (im : IndexManager K) : Prop :=
  ∀ (p : Str) (entry : IndexInfo), im.indexInfoMap[p]? = some entry →
    entry.indexType = IndexInfo.BTREE → ∃ w, im.rangeIndexMap[p]? = some w

/-- The server has the index, after some batches. -/
structure Holds (t : TxnId) (start : RangeIndex K) (path : Str) (batches : List RecordUpdateList)
    (im : IndexManager K) : Prop where
  backed : im.Backed
  registered : ∃ entry, im.indexInfoMap[path]? = some entry ∧ entry.indexType = IndexInfo.BTREE
  fed : ∃ w, im.rangeIndexMap[path]? = some w ∧ Fed t start batches w

variable {path : Str} {im : IndexManager K}

omit [KeyTypes K] in
theorem Backed.insert (h : im.Backed) (p : Str) (v : RangeIndexWrapper K) :
    Backed { im with rangeIndexMap := im.rangeIndexMap.insert p v } := by
  intro q entry registered tree
  obtain ⟨u, found⟩ := h q entry registered tree
  by_cases same : p = q
  · subst same
    exact ⟨v, by simp⟩
  · exact ⟨u, by simpa [same] using found⟩

/-- The wrapper of the index changes. -/
theorem Holds.insert_self (h : Holds t start path batches im) {batches' : List RecordUpdateList}
    {v : RangeIndexWrapper K} (fed : Fed t start batches' v) :
    Holds t start path batches'
      { im with rangeIndexMap := im.rangeIndexMap.insert path v } where
  backed := h.backed.insert path v
  registered := h.registered
  fed := ⟨v, by simp, fed⟩

/-- The wrapper of another index changes. -/
theorem Holds.insert_other (h : Holds t start path batches im) {p : Str} (other : p ≠ path)
    (v : RangeIndexWrapper K) :
    Holds t start path batches { im with rangeIndexMap := im.rangeIndexMap.insert p v } where
  backed := h.backed.insert p v
  registered := h.registered
  fed := by
    obtain ⟨w, found, fed⟩ := h.fed
    exact ⟨w, by simpa [other] using found, fed⟩

/-- A merge of any index leaves what is known of this one. -/
theorem Holds.merge (h : Holds t start path batches im) {p : Str} {v : RangeIndexWrapper K}
    (found : im.rangeIndexMap[p]? = some v) (u : TxnId) :
    Holds t start path batches
      { im with rangeIndexMap := im.rangeIndexMap.insert p (v.merge u).2 } := by
  by_cases same : p = path
  · subst same
    obtain ⟨w, here, fed⟩ := h.fed
    cases found.symm.trans here
    exact h.insert_self (fed.merge u)
  · exact h.insert_other same _

/-! ## Requests -/

/-- A request to an index server, with what it leaves uninitialised. -/
inductive Request where
  | create (lastMergedLogId : TxnId) (rootPath name : Str) (indexType keyType : Int)
  | update (updates : IndexUpdate)
  | search (query : RpcComplexQuery)
  | info (txnId : TxnId) (path : Str)

/-- The batches for a path that `update_single_index` accepts: `update` takes the lists of a
request in order, up to one for an index that does not exist. -/
def acceptedOf (im : IndexManager K) (path : Str) (updates : List RecordUpdateList) :
    List RecordUpdateList :=
  (updates.takeWhile (fun u => decide (u.rootPath ∈ im.indexInfoMap))).filter
    (fun u => decide (u.rootPath = path))

/-- The batches for a path that one request adds. -/
def added (im : IndexManager K) (path : Str) : Request → List RecordUpdateList
  | .update updates => im.acceptedOf path updates.updates
  | _ => []

theorem Holds.updateSingleIndex (h : Holds t start path batches im) {u : TxnId} (hu : u ≤ t)
    {b : RecordUpdateList} (known : b.rootPath ∈ im.indexInfoMap) :
    ∃ im', im.updateSingleIndex u b = .ok (.OK, im') ∧ im'.indexInfoMap = im.indexInfoMap ∧
      Holds t start path (batches ++ if b.rootPath = path then [b] else []) im' := by
  obtain ⟨entry, registered⟩ := (mem_iff_exists _ _).mp known
  by_cases tree : entry.indexType = IndexInfo.BTREE
  · obtain ⟨v, found⟩ := h.backed _ _ registered tree
    refine ⟨{ im with rangeIndexMap := im.rangeIndexMap.insert b.rootPath (v.update false u b).2 },
      ?_, rfl, ?_⟩
    · simp [IndexManager.updateSingleIndex, registered, tree, wrapper, found, bind, Except.bind,
        pure, Except.pure, RangeIndexWrapper.update, LogManager.append]
    · split
      · rename_i same
        obtain ⟨w, here, fed⟩ := h.fed
        rw [same, here] at found
        cases found
        rw [same]
        exact h.insert_self (fed.update hu b)
      · rename_i other
        rw [List.append_nil]
        exact h.insert_other other _
  · refine ⟨im, ?_, rfl, ?_⟩
    · simp [IndexManager.updateSingleIndex, registered, tree]
    · have other : b.rootPath ≠ path := by
        rintro rfl
        obtain ⟨entry', registered', tree'⟩ := h.registered
        cases registered.symm.trans registered'
        exact tree tree'
      simpa [other] using h

/-- A request appends the batches that it gets through. -/
theorem Holds.updateAll (h : Holds t start path batches im) {u : TxnId} (hu : u ≤ t)
    (updates : List RecordUpdateList) :
    ∃ status im', im.updateAll u updates = .ok (status, im') ∧
      Holds t start path (batches ++ im.acceptedOf path updates) im' := by
  induction updates generalizing im batches with
  | nil => exact ⟨.OK, im, rfl, by simpa [acceptedOf] using h⟩
  | cons b updates ih =>
    by_cases known : b.rootPath ∈ im.indexInfoMap
    · obtain ⟨im₁, one, same, next⟩ := h.updateSingleIndex hu known
      obtain ⟨status, im₂, rest, final⟩ := ih next
      refine ⟨status, im₂, ?_, ?_⟩
      · simp [IndexManager.updateAll, one, bind, Except.bind, rest]
      · have split : im.acceptedOf path (b :: updates) =
            (if b.rootPath = path then [b] else []) ++ im₁.acceptedOf path updates := by
          simp only [acceptedOf, same, known, List.takeWhile_cons, decide_true, if_true,
            List.filter_cons, decide_eq_true_eq]
          split <;> simp
        rw [split, ← List.append_assoc]
        exact final
    · refine ⟨⟨-ENOENT, "The index does not exist."⟩, im, ?_, by simpa [acceptedOf, known] using h⟩
      simp [IndexManager.updateAll, IndexManager.updateSingleIndex,
        (not_mem_iff _ _).mp known, bind, Except.bind, pure, Except.pure, Status.ok, ENOENT]

/-- A search merges some of the indices. -/
theorem Holds.searchAll (h : Holds t start path batches im) (u : TxnId) (results : List ObjectId)
    (cqs : List RangeQuery) : ∃ status out im',
      im.searchAll u results cqs = .ok (status, out, im') ∧ Holds t start path batches im' := by
  induction cqs generalizing im results with
  | nil => exact ⟨_, _, im, rfl, h⟩
  | cons cq cqs ih =>
    cases registered : im.indexInfoMap[cq.indexPath]? with
    | none => exact ⟨_, _, im, by simp only [IndexManager.searchAll, registered]; rfl, h⟩
    | some entry =>
      by_cases tree : entry.indexType = IndexInfo.BTREE
      · obtain ⟨v, found⟩ := h.backed _ _ registered tree
        have next := h.merge found u
        rw [← RangeIndexWrapper.Tracked.search_wrapper v u cq] at next
        cases ok : (v.search u cq).1.ok with
        | true =>
          obtain ⟨status, out, im', rest, final⟩ := ih next (results ++ (v.search u cq).2.1)
          refine ⟨status, out, im', ?_, final⟩
          simpa [IndexManager.searchAll, registered, tree, wrapper, found, bind, Except.bind, ok]
            using rest
        | false =>
          refine ⟨(v.search u cq).1, results, _, ?_, next⟩
          simp [IndexManager.searchAll, registered, tree, wrapper, found, bind, Except.bind, pure,
            Except.pure, ok]
      · exact ⟨_, _, im, by simp only [IndexManager.searchAll, registered, tree, if_false]; rfl, h⟩

theorem Holds.info (h : Holds t start path batches im) (u : TxnId) (p : Str) :
    ∃ status out im', im.info u p = .ok (status, out, im') ∧ Holds t start path batches im' := by
  cases registered : im.indexInfoMap[p]? with
  | none => exact ⟨_, _, im, by simp only [IndexManager.info, registered]; rfl, h⟩
  | some entry =>
    by_cases tree : entry.indexType = IndexInfo.BTREE
    · obtain ⟨v, found⟩ := h.backed _ _ registered tree
      exact ⟨_, _, _, RangeIndexWrapper.info_of_wrapper registered tree found u, h.merge found u⟩
    · exact ⟨_, _, im, by simp only [IndexManager.info, registered, tree, if_false]; rfl, h⟩

section Runs

variable [PathHash]

def step (im : IndexManager K) : Request → Cpp (IndexManager K)
  | .create id rootPath name indexType keyType =>
    .ok (im.create id rootPath name indexType keyType).2
  | .update updates => do return (← im.update updates).2
  | .search query => do return (← im.search query).2.2
  | .info txnId path => do return (← im.info txnId path).2.2

/-- The batches for a path that a run of requests adds, in arrival order. -/
def accepted (im : IndexManager K) (path : Str) : List Request → List RecordUpdateList
  | [] => []
  | r :: rs =>
    im.added path r ++
      match im.step r with
      | .ok im' => im'.accepted path rs
      | .error _ => []

/-- A new index of the server is another one. -/
theorem Holds.create (h : Holds t start path batches im) (id : TxnId) (rootPath name : Str)
    (indexType keyType : Int) :
    Holds t start path batches (im.create id rootPath name indexType keyType).2 := by
  cases out : im.create id rootPath name indexType keyType with
  | mk status im' =>
  rcases IndexManager.create_spec out with
    ⟨-, rfl⟩ | ⟨-, new, ⟨-, rfl⟩ | ⟨v, -, -, -, -, rfl⟩⟩
  · exact h
  · exact h
  · -- The path is registered already, so the new index is on another one.
    obtain ⟨entry, registered, tree⟩ := h.registered
    have other : rootPath ≠ path := by
      rintro rfl
      exact new ((mem_iff_exists _ _).mpr ⟨entry, registered⟩)
    obtain ⟨w, found, fed⟩ := h.fed
    refine ⟨fun p e registered' tree' => ?_, ⟨entry, by simpa [other] using registered, tree⟩,
      w, by simpa [other] using found, fed⟩
    by_cases same : rootPath = p
    · subst same
      exact ⟨v, by simp⟩
    · simp only [getElem?_insert, same, if_false] at registered' ⊢
      exact h.backed p e registered' tree'

theorem Holds.step (h : Holds t start path batches im) {r : Request}
    (ids : ∀ updates, r = .update updates → updates.txnId ≤ t) :
    ∃ im', im.step r = .ok im' ∧ Holds t start path (batches ++ im.added path r) im' := by
  cases r with
  | create id rootPath name indexType keyType =>
    exact ⟨_, rfl, by simpa [added] using h.create id rootPath name indexType keyType⟩
  | update updates =>
    obtain ⟨status, im', out, next⟩ := h.updateAll (ids updates rfl) updates.updates
    refine ⟨im', ?_, next⟩
    simp [IndexManager.step, IndexManager.update, out, bind, Except.bind, pure, Except.pure]
  | search query =>
    obtain ⟨status, out, im', ran, next⟩ := h.searchAll query.txnId [] query.rangeQueries
    refine ⟨im', ?_, by simpa [added] using next⟩
    simp [IndexManager.step, IndexManager.search, ran, bind, Except.bind, pure, Except.pure]
  | info u p =>
    obtain ⟨status, out, im', ran, next⟩ := h.info u p
    refine ⟨im', ?_, by simpa [added] using next⟩
    simp [IndexManager.step, ran, bind, Except.bind, pure, Except.pure]

theorem Holds.run (h : Holds t start path batches im) {requests : List Request}
    (ids : ∀ updates, .update updates ∈ requests → updates.txnId ≤ t) :
    ∃ im', Transition.run IndexManager.step im requests = .ok im' ∧
      Holds t start path (batches ++ im.accepted path requests) im' := by
  induction requests generalizing im batches with
  | nil => exact ⟨im, rfl, by simpa [accepted] using h⟩
  | cons r rs ih =>
    obtain ⟨im₁, one, next⟩ := h.step (r := r) fun updates same => ids updates (by simp [same])
    obtain ⟨im₂, rest, final⟩ := ih next fun updates hu => ids updates (by simp [hu])
    refine ⟨im₂, by rw [Transition.run_cons_ok one, rest], ?_⟩
    simpa [accepted, one] using final

end Runs

/-! ## Searches -/

/-- The search returns, and what it returns are the ids that the well-formed records of the
batches leave in range. -/
def Reflects (im : IndexManager K) (start : RangeIndex K) (batches : List RecordUpdateList)
    (txnId : TxnId) (root : Str) (cq : RangeQuery) : Prop :=
  ∃ results im', im.search ⟨txnId, root, [cq]⟩ = .ok (.OK, results, im') ∧
    ∀ o, o ∈ results ↔ ∃ k, (k, o) ∈ replay (batchWrites K start.keyType batches) start.pairs ∧
      start.Matches cq k

/-- Which keys a query asks for depends on the type of the key only. -/
theorem matches_congr {a b : RangeIndex K} (type : a.keyType = b.keyType) (cq : RangeQuery)
    (k : K) : a.Matches cq k ↔ b.Matches cq k := by
  simp only [RangeIndex.Matches, RangeIndex.bounds, type]

theorem Holds.reflects_iff (h : Holds t start path batches im) (root : Str) {cq : RangeQuery}
    (here : cq.indexPath = path) : Reflects im start batches t root cq ↔
      ∀ b ∈ batches, RangeIndex.WellFormed K start.keyType b.recordUpdates := by
  obtain ⟨entry, registered, tree⟩ := h.registered
  obtain ⟨w, found, fed⟩ := h.fed
  rw [← fed.merge_ok_iff]
  subst here
  cases ok : (w.merge t).1.ok with
  | false =>
    refine iff_of_false ?_ (by simp)
    rintro ⟨results, im', ran, -⟩
    simp [IndexManager.search, IndexManager.searchAll, registered, tree, wrapper, found, bind,
      Except.bind, pure, Except.pure, RangeIndexWrapper.search, ok] at ran
    rw [ran.1] at ok
    cases ok
  | true =>
    refine iff_of_true ?_ rfl
    have all := fed.merge_ok_iff.mp ok
    obtain ⟨done, type, rel, -, -⟩ := merge_spec fed.normal fed.type (fed.formed all) t
    refine ⟨((w.merge t).2.index.search cq).2,
      { im with rangeIndexMap := im.rangeIndexMap.insert cq.indexPath (w.merge t).2 }, ?_,
      fun o => ?_⟩
    · simp only [IndexManager.search, IndexManager.searchAll, registered, tree, wrapper, found,
        bind, Except.bind, search_of_merge_ok done, if_true, Status.ok_OK, Bool.not_true,
        Bool.false_eq_true, if_false, List.nil_append]
    · rw [RangeIndex.mem_search, rel, fed.scan_eq, fed.truth all]
      simp only [matches_congr type]

/-- A `BTREE` index without a log, in a server where every such index has its wrapper: after
any requests, a search that casts and is past all ids succeeds and reflects the accepted
batches exactly when these have no malformed record. -/
theorem search_reflects_iff [PathHash] (im : IndexManager K) (backed : im.Backed) (path : Str)
    (entry : IndexInfo) (registered : im.indexInfoMap[path]? = some entry)
    (tree : entry.indexType = IndexInfo.BTREE) (w : RangeIndexWrapper K)
    (found : im.rangeIndexMap[path]? = some w) (normal : w.status = .normal)
    (unlogged : w.logManager.log = []) (requests : List Request) (t : TxnId)
    (ids : ∀ updates, .update updates ∈ requests → updates.txnId ≤ t) (root : Str)
    (cq : RangeQuery) (here : cq.indexPath = path) :
    ∃ im', Transition.run step im requests = .ok im' ∧
      (Reflects im' w.index (im.accepted path requests) t root cq ↔
        ∀ b ∈ im.accepted path requests,
          RangeIndex.WellFormed K w.index.keyType b.recordUpdates) := by
  have start : Holds t w.index path [] im := by
    refine ⟨backed, ⟨entry, registered, tree⟩, w, found, normal, rfl, by simp [unlogged],
      by simp [unlogged], fun _ => rfl⟩
  obtain ⟨im', ran, holds⟩ := start.run ids
  rw [List.nil_append] at holds
  exact ⟨im', ran, holds.reflects_iff root here⟩

section Example

open RangeIndexWrapper (newIndex everything insertBatch removeBatch)

attribute [local instance] uint64Keys Md5.pathHash

/-- A server with one new index. -/
def oneIndex : IndexManager Int where
  basedir := "/ram".toList
  indexInfoMap := (∅ : ExtTreeMap Str IndexInfo).insert "/foo/.vsfs/red/0".toList
    ⟨"/foo/.vsfs/red/0".toList, "red".toList, IndexInfo.BTREE, 0⟩
  rangeIndexMap := (∅ : ExtTreeMap Str (RangeIndexWrapper Int)).insert
    "/foo/.vsfs/red/0".toList newIndex

theorem backed_oneIndex : oneIndex.Backed := by
  intro p entry registered tree
  have here : p ∈ oneIndex.indexInfoMap := (mem_iff_exists _ _).mpr ⟨entry, registered⟩
  rcases ExtTreeMap.mem_insert.mp here with same | wrong
  · cases compare_eq_iff_eq.mp same
    exact ⟨newIndex, by simp [oneIndex]⟩
  · simp at wrong

/-- Well-formed batches, with a search in between. -/
def wellFormedRequests : List Request :=
  [.update { updates := [insertBatch "10" "7"] }, .search ⟨0, [], [everything]⟩,
    .update { updates := [removeBatch "10" "7", insertBatch "20" "8"] }]

theorem wellFormedRequests_reflected :
    ∃ im', Transition.run step oneIndex wellFormedRequests = .ok im' ∧
      Reflects im' newIndex.index
        (oneIndex.accepted "/foo/.vsfs/red/0".toList wellFormedRequests) 0 [] everything := by
  obtain ⟨im', ran, reflects⟩ := search_reflects_iff oneIndex backed_oneIndex
    "/foo/.vsfs/red/0".toList ⟨"/foo/.vsfs/red/0".toList, "red".toList, IndexInfo.BTREE, 0⟩
    (by simp only [oneIndex, ExtTreeMap.getElem?_insert_self]) rfl newIndex
    (by simp only [oneIndex, ExtTreeMap.getElem?_insert_self]) rfl rfl wellFormedRequests 0
    (by simp [wellFormedRequests]) [] everything rfl
  exact ⟨im', ran, reflects.mpr (by decide +kernel)⟩

/-- A key that is not a number, and a well-formed record after it. -/
def malformedKey : List Request :=
  [.update { updates := [insertBatch "ten" "7"] }, .update { updates := [insertBatch "10" "7"] }]

/-- Both updates return `OK`, and the search fails. -/
theorem malformed_record_poisons_index :
    ∃ im₁ im₂, oneIndex.update { updates := [insertBatch "ten" "7"] } = .ok (.OK, im₁) ∧
      im₁.update { updates := [insertBatch "10" "7"] } = .ok (.OK, im₂) ∧
      Transition.run step oneIndex malformedKey = .ok im₂ ∧
      ¬ Reflects im₂ newIndex.index
        (oneIndex.accepted "/foo/.vsfs/red/0".toList malformedKey) 0 [] everything := by
  refine ⟨_, _, rfl, rfl, rfl, ?_⟩
  rintro ⟨results, im', ran, -⟩
  have fails := congrArg (Except.map (·.1)) ran
  change Except.map _ _ = .ok Status.OK at fails
  revert fails
  decide

end Example

end IndexManager

end Vsfs.Indexd

import Vsfs.Indexd.Deferred
import Vsfs.Indexd.IndexManager

/-!
# Deferred and immediate updating

With `FLAGS_update_immediately` a batch is applied when it arrives; without it the batch
goes to the log, and every search, info or merge replays the log from its beginning on an
index that already holds most of it. A log absorbs its own earlier replays, so both modes
give the same answers as long as every read covers the whole log.

## Main results

* `answers_deferred_eq_immediate` : the two modes answer a run of requests alike.
-/

namespace Vsfs.Indexd

open Index Replay

namespace RangeIndexWrapper

variable {K : Type} [LinearOrder K] [KeyTypes K]

/-! ## Requests -/

/-- What `IndexManager::info` does with a wrapper: a merge, whose status is dropped, and
the number of records. -/
def info (w : RangeIndexWrapper K) (txnId : TxnId) : Nat × RangeIndexWrapper K :=
  let (_, w) := w.merge txnId
  (w.index.size, w)

/-- `IndexManager::info` reports the number of records of the wrapper. -/
theorem info_of_wrapper {im : IndexManager K} {path : Str} {entry : IndexInfo}
    {w : RangeIndexWrapper K} (registered : im.indexInfoMap[path]? = some entry)
    (tree : entry.indexType = IndexInfo.BTREE) (found : im.rangeIndexMap[path]? = some w)
    (txnId : TxnId) :
    im.info txnId path = .ok (.OK,
      some ⟨entry.path, entry.name, entry.indexType, entry.keyType, (w.info txnId).1⟩,
      { im with rangeIndexMap := im.rangeIndexMap.insert path (w.info txnId).2 }) := by
  simp [IndexManager.info, registered, tree, IndexManager.wrapper, found, bind, Except.bind, pure,
    Except.pure, info]

/-- A request to an index. -/
inductive Request where
  | update (txnId : TxnId) (updates : RecordUpdateList)
  | search (txnId : TxnId) (query : RangeQuery)
  | info (txnId : TxnId)
  | merge (txnId : TxnId)

inductive Answer where
  | done (status : Status)
  | found (status : Status) (results : List ObjectId)
  | records (numRecords : Nat)

namespace Request

/-- The id under which a batch arrives. -/
def arrives? : Request → Option TxnId
  | .update t _ => some t
  | _ => none

/-- The id up to which a request asks for the log. -/
def reads? : Request → Option TxnId
  | .update _ _ => none
  | .search t _ => some t
  | .info t => some t
  | .merge t => some t

/-- The batch that a request hands over. -/
def batch? : Request → Option RecordUpdateList
  | .update _ b => some b
  | _ => none

/-- A read that comes later covers the batch. -/
def Timely (earlier later : Request) : Prop :=
  ∀ u ∈ earlier.arrives?, ∀ t ∈ later.reads?, u ≤ t

instance : DecidableRel Timely := fun earlier later =>
  inferInstanceAs (Decidable (∀ u ∈ earlier.arrives?, ∀ t ∈ later.reads?, u ≤ t))

end Request

def serve (immediately : Bool) (w : RangeIndexWrapper K) : Request → Answer × RangeIndexWrapper K
  | .update t updates =>
    let (status, w) := w.update immediately t updates
    (.done status, w)
  | .search t query =>
    let (status, results, w) := w.search t query
    (.found status results, w)
  | .info t =>
    let (numRecords, w) := w.info t
    (.records numRecords, w)
  | .merge t =>
    let (status, w) := w.merge t
    (.done status, w)

/-- The answers to requests that arrive one after the other. -/
def answers (immediately : Bool) (w : RangeIndexWrapper K) : List Request → List Answer
  | [] => []
  | r :: rs =>
    let (answer, w) := w.serve immediately r
    answer :: w.answers immediately rs

/-! ## The simulation -/

/-- The index in immediate mode is the index in deferred mode with the log replayed. -/
structure Mirrors (keyType : Int) (d i : RangeIndexWrapper K) : Prop where
  normal : d.status = .normal ∧ i.status = .normal
  type : d.index.keyType = keyType ∧ i.index.keyType = keyType
  unlogged : i.logManager.log = []
  formed : ∀ r ∈ d.logManager.log, RangeIndex.WellFormed K keyType r.record.recordUpdates
  truth : replay (batchWrites K keyType (d.logManager.log.map (·.record))) d.index.pairs =
    i.index.pairs

theorem Mirrors.start {w : RangeIndexWrapper K} (normal : w.status = .normal)
    (unlogged : w.logManager.log = []) : Mirrors w.index.keyType w w where
  normal := ⟨normal, normal⟩
  type := ⟨rfl, rfl⟩
  unlogged := unlogged
  formed := by simp [unlogged]
  truth := by simp [unlogged, batchWrites]

variable {keyType : Int} {d i : RangeIndexWrapper K}

theorem Mirrors.update (h : Mirrors keyType d i) (t : TxnId) {b : RecordUpdateList}
    (hb : RangeIndex.WellFormed K keyType b.recordUpdates) :
    (d.update false t b).1 = (i.update true t b).1 ∧
      Mirrors keyType (d.update false t b).2 (i.update true t b).2 := by
  obtain ⟨ok, type, rel⟩ := RangeIndex.apply_spec (h.type.2.symm ▸ hb)
  have immediate : (i.update true t b).2.index = (i.index.apply b.recordUpdates).2 := rfl
  have deferred : (d.update false t b).2.index = d.index := rfl
  have logs : (d.update false t b).2.logManager.log = d.logManager.log ++ [⟨t, b⟩] := rfl
  refine ⟨ok.symm, h.normal, ⟨h.type.1, ?_⟩, h.unlogged, fun r hr => ?_, ?_⟩
  · rw [immediate, type, h.type.2]
  · rcases List.mem_append.mp (logs ▸ hr) with old | new
    · exact h.formed r old
    · rw [List.mem_singleton.mp new]
      exact hb
  · rw [logs, immediate, deferred, rel, h.type.2, List.map_append, batchWrites_append,
      replay_append, h.truth]
    simp [batchWrites]

/-- A read of the whole log leaves the index of the immediate mode. -/
theorem Mirrors.merge (h : Mirrors keyType d i) {t : TxnId}
    (covered : ∀ r ∈ d.logManager.log, r.txnId ≤ t) :
    (d.merge t).1 = .OK ∧ (i.merge t).1 = .OK ∧ (d.merge t).2.index = (i.merge t).2.index ∧
      Mirrors keyType (d.merge t).2 (i.merge t).2 := by
  have whole : d.logManager.scan t = d.logManager.log.map (·.record) := by
    unfold LogManager.scan
    rw [List.takeWhile_eq_self_iff.mpr fun r hr => by simpa using covered r hr]
  obtain ⟨okd, typed, reld, logd, normald⟩ := merge_spec h.normal.1 h.type.1 h.formed t
  obtain ⟨oki, typei, reli, logi, normali⟩ :=
    merge_spec h.normal.2 h.type.2 (by simp [h.unlogged]) t
  rw [whole] at reld
  have nothing : i.logManager.scan t = [] := by simp [LogManager.scan, h.unlogged]
  rw [nothing] at reli
  have same : (d.merge t).2.index.pairs = (i.merge t).2.index.pairs := by
    rw [reld, h.truth, reli]
    rfl
  refine ⟨okd, oki, RangeIndex.ext_pairs (typed.trans typei.symm) same, ⟨normald, normali⟩,
    ⟨typed, typei⟩, by rw [logi, h.unlogged], by rw [logd]; exact h.formed, ?_⟩
  -- The log is replayed on an index that holds it already.
  rw [logd, ← same, reld, replay_idem]

theorem search_of_merge_ok {w : RangeIndexWrapper K} {t : TxnId} (ok : (w.merge t).1 = .OK)
    (query : RangeQuery) :
    w.search t query = (.OK, ((w.merge t).2.index.search query).2, (w.merge t).2) := by
  simp [RangeIndexWrapper.search, ok]

theorem logManager_merge (w : RangeIndexWrapper K) (t : TxnId) :
    (w.merge t).2.logManager = w.logManager := by
  unfold RangeIndexWrapper.merge
  split
  · rfl
  · dsimp only
    split <;> rfl

/-- In deferred mode a request leaves the log, or its batch at the end of the log. -/
theorem mem_log_serve {w : RangeIndexWrapper K} {r : Request} {l : LogRecord RecordUpdateList}
    (h : l ∈ (w.serve false r).2.logManager.log) :
    l ∈ w.logManager.log ∨ l.txnId ∈ r.arrives? := by
  cases r with
  | update t b =>
    have logs : (w.serve false (.update t b)).2.logManager.log = w.logManager.log ++ [⟨t, b⟩] := rfl
    rcases List.mem_append.mp (logs ▸ h) with old | new
    · exact .inl old
    · rw [List.mem_singleton.mp new]
      exact .inr rfl
  | search t query =>
    simp only [serve, Tracked.search_wrapper, logManager_merge] at h
    exact .inl h
  | info t =>
    simp only [serve, info, logManager_merge] at h
    exact .inl h
  | merge t =>
    simp only [serve, logManager_merge] at h
    exact .inl h

/-- One request is answered alike in both modes. -/
theorem Mirrors.serve (h : Mirrors keyType d i) {r : Request}
    (formed : ∀ b ∈ r.batch?, RangeIndex.WellFormed K keyType b.recordUpdates)
    (covered : ∀ l ∈ d.logManager.log, ∀ t ∈ r.reads?, l.txnId ≤ t) :
    (d.serve false r).1 = (i.serve true r).1 ∧
      Mirrors keyType (d.serve false r).2 (i.serve true r).2 := by
  cases r with
  | update t b =>
    obtain ⟨status, next⟩ := h.update t (formed b rfl)
    exact ⟨congrArg Answer.done status, next⟩
  | search t query =>
    obtain ⟨okd, oki, same, next⟩ := h.merge fun l hl => covered l hl t rfl
    simp only [RangeIndexWrapper.serve, search_of_merge_ok okd, search_of_merge_ok oki, same]
    exact ⟨trivial, next⟩
  | info t =>
    obtain ⟨-, -, same, next⟩ := h.merge fun l hl => covered l hl t rfl
    simp only [RangeIndexWrapper.serve, RangeIndexWrapper.info, same]
    exact ⟨trivial, next⟩
  | merge t =>
    obtain ⟨okd, oki, -, next⟩ := h.merge fun l hl => covered l hl t rfl
    simp only [RangeIndexWrapper.serve, okd, oki]
    exact ⟨trivial, next⟩

/-- Requests are answered alike from states that mirror each other. -/
theorem Mirrors.answers (h : Mirrors keyType d i) {requests : List Request}
    (formed : ∀ r ∈ requests, ∀ b ∈ r.batch?, RangeIndex.WellFormed K keyType b.recordUpdates)
    (covered : ∀ r ∈ requests, ∀ l ∈ d.logManager.log, ∀ t ∈ r.reads?, l.txnId ≤ t)
    (timely : requests.Pairwise Request.Timely) :
    d.answers false requests = i.answers true requests := by
  induction requests generalizing d i with
  | nil => rfl
  | cons r rs ih =>
    obtain ⟨later, timely⟩ := List.pairwise_cons.mp timely
    obtain ⟨same, next⟩ := h.serve (formed r (by simp)) (covered r (by simp))
    have rest := ih next (fun q hq => formed q (by simp [hq])) (fun q hq l hl t ht => ?_) timely
    · simp only [RangeIndexWrapper.answers, same, rest]
    · rcases mem_log_serve hl with old | new
      · exact covered q (by simp [hq]) l old t ht
      · exact later q hq l.txnId new t ht

/-- On an index without a log, every run of well-formed batches and of reads that cover
them is answered in deferred mode as it is in immediate mode. -/
theorem answers_deferred_eq_immediate (w : RangeIndexWrapper K) (normal : w.status = .normal)
    (unlogged : w.logManager.log = []) (requests : List Request)
    (formed : ∀ r ∈ requests, ∀ b ∈ r.batch?,
      RangeIndex.WellFormed K w.index.keyType b.recordUpdates)
    (timely : requests.Pairwise Request.Timely) :
    w.answers false requests = w.answers true requests :=
  (Mirrors.start normal unlogged).answers formed (by simp [unlogged]) timely

section Example

attribute [local instance] uint64Keys

/-- A new index, with 99 where nothing is initialised. -/
def newIndex : RangeIndexWrapper Int where
  basePath := "/ram/1".toList
  index := .empty 0
  dirty := true
  lastMergedLogId := 99

/-- `remove key oid` as a batch of one record for one index. -/
def removeBatch (key oid : String) : RecordUpdateList where
  rootPath := "/foo/.vsfs/red/0".toList
  name := "red".toList
  recordUpdates := [⟨.remove, key.toList, oid.toList⟩]

/-- All keys. -/
def everything : RangeQuery where
  indexPath := "/foo/.vsfs/red/0".toList
  name := "red".toList
  lower := []
  lowerOpen := false
  upper := []
  upperOpen := false

/-- An insert and a remove that a search replays again after each of them. -/
def insertAndRemove : List Request :=
  [.update 2 (insertBatch "10" "7"), .search 2 everything, .update 1 (removeBatch "10" "7"),
    .search 2 everything, .update 2 (insertBatch "10" "8"), .merge 3, .info 2]

theorem insertAndRemove_answered_alike :
    newIndex.answers false insertAndRemove = newIndex.answers true insertAndRemove :=
  answers_deferred_eq_immediate newIndex rfl rfl insertAndRemove (by decide) (by decide)

end Example

end RangeIndexWrapper

end Vsfs.Indexd

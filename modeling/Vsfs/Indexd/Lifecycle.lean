import Vsfs.Common.Md5
import Vsfs.Indexd.Modes
import Vsfs.Lib.Simulation

/-!
# The life of the indices of a server

`IndexManager` creates, fills, searches and destroys indices, and a thread flushes their logs
in the background. `index_info_map_` and `range_index_map_` are two maps that every operation
looks up one after the other; a path that only the first one has would fail a `CHECK`.

## Main results

* `IndexManager.serves_any_requests` : that never happens, whatever the requests are.
-/

namespace Vsfs.Indexd

open Std Index FiniteMap RangeIndexWrapper

namespace IndexManager

variable {K : Type} [LinearOrder K]

/-- The files of the index are removed afterwards. -/
def destroy (im : IndexManager K) (root name : Str) : Status × IndexManager K :=
  if root.isEmpty ∨ name.isEmpty then (⟨-EINVAL, "Invalid parameters."⟩, im)
  else
    let indexKey := root
    match im.indexInfoMap[indexKey]? with
    | none => (⟨-ENOENT, "Index does not existed."⟩, im)
    | some info =>
      let forgotten := im.indexInfoMap.erase indexKey
      if info.indexType = IndexInfo.BTREE then
        (.OK, { im with
          indexInfoMap := forgotten, rangeIndexMap := im.rangeIndexMap.erase indexKey })
      else if info.indexType = IndexInfo.HASH then (.OK, { im with indexInfoMap := forgotten })
      else (⟨-EINVAL, "Unknown index type."⟩, { im with indexInfoMap := forgotten })

variable [KeyTypes K]

def mergeLogToIndex (im : IndexManager K) (indexPath : Str) (txnId : TxnId) :
    Status × IndexManager K :=
  match im.rangeIndexMap[indexPath]? with
  | none => (⟨-ENOENT, "The index does not exist."⟩, im)
  | some w =>
    let (status, w) := w.merge txnId
    (status, { im with rangeIndexMap := im.rangeIndexMap.insert indexPath w })

section Flush

variable [ThriftSerialize RecordUpdateList] [ThriftSerialize LogBuffer]

/-- One turn of the loop of `background_flush_thread`, for an index that is there. -/
def flushDirty (im : IndexManager K) (bytes : Nat) (opened : Bool) (path : Str) :
    Cpp (IndexManager K) :=
  match im.rangeIndexMap[path]? with
  | none => .ok im
  | some w =>
    if w.dirty then do
      let (_, w, _) ← w.flushLog bytes opened false
      return { im with rangeIndexMap := im.rangeIndexMap.insert path w }
    else .ok im

end Flush

/-- What a server is asked to do, or does on its own. -/
inductive Command where
  | create (lastMergedLogId : TxnId) (root name : Str) (indexType keyType : Int)
  | destroy (root name : Str)
  | update (updates : IndexUpdate)
  | search (query : RpcComplexQuery)
  | info (txnId : TxnId) (path : Str)
  | merge (txnId : TxnId) (path : Str)
  | flush (opened : Bool) (path : Str)

inductive Answer where
  | done (status : Status)
  | found (status : Status) (results : List ObjectId)
  | informed (status : Status) (result : Option RpcIndexInfo)

/-! ## Requests -/

section Requests

variable [PathHash] [ThriftSerialize RecordUpdateList] [ThriftSerialize LogBuffer]

/-- `bytes` is `FLAGS_flush_log_size` and `immediately` is `FLAGS_update_immediately`. Nobody looks
at the outcome of a flush. -/
def perform (bytes : Nat) (immediately : Bool) (im : IndexManager K) :
    Command → Cpp (Answer × IndexManager K)
  | .create lastMergedLogId root name indexType keyType =>
    let (status, im) := im.create lastMergedLogId root name indexType keyType
    .ok (.done status, im)
  | .destroy root name =>
    let (status, im) := im.destroy root name
    .ok (.done status, im)
  | .update updates => do
    let (status, im) ← im.update updates immediately
    return (.done status, im)
  | .search query => do
    let (status, results, im) ← im.search query
    return (.found status results, im)
  | .info txnId path => do
    let (status, result, im) ← im.info txnId path
    return (.informed status result, im)
  | .merge txnId path =>
    let (status, im) := im.mergeLogToIndex path txnId
    .ok (.done status, im)
  | .flush opened path => do
    let im ← im.flushDirty bytes opened path
    return (.done .OK, im)

end Requests

/-- The answer to a request for an index that is not there. -/
def noIndex : Status := ⟨-ENOENT, "The index does not exist."⟩

/-! ## The two maps -/

/-- What the two maps have for one path, on a server with the base directory `basedir`. -/
inductive Slot [PathHash] (basedir path : Str) :
    Option IndexInfo → Option (RangeIndexWrapper K) → Prop where
  | absent : Slot basedir path none none
  | tree {info : IndexInfo} {w : RangeIndexWrapper K} (here : info.path = path)
      (named : info.name ≠ []) (type : info.indexType = IndexInfo.BTREE)
      (known : KeyTypes.known K info.keyType = true) (typed : w.index.keyType = info.keyType)
      (based : w.basePath = ({ basedir } : IndexManager K).getIndexFileBasePath path) :
      Slot basedir path (some info) (some w)

/-- The two maps have the same paths, all of them of indices in memory. -/
def Coherent [PathHash] (im : IndexManager K) : Prop :=
  ∀ path, Slot im.basedir path im.indexInfoMap[path]? im.rangeIndexMap[path]?

/-- A wrapper of the same index: what is in it and in its log may differ. -/
structure SameIndex (w w' : RangeIndexWrapper K) : Prop where
  keyType : w'.index.keyType = w.index.keyType
  basePath : w'.basePath = w.basePath

omit [KeyTypes K] in
theorem SameIndex.rfl {w : RangeIndexWrapper K} : SameIndex w w := ⟨Eq.refl _, Eq.refl _⟩

theorem sameIndex_update (w : RangeIndexWrapper K) (immediately : Bool) (txnId : TxnId)
    (updates : RecordUpdateList) : SameIndex w (w.update immediately txnId updates).2 := by
  cases immediately with
  | false => exact ⟨rfl, rfl⟩
  | true => exact ⟨RangeIndex.keyType_apply w.index updates.recordUpdates, rfl⟩

theorem sameIndex_merge (w : RangeIndexWrapper K) (txnId : TxnId) :
    SameIndex w (w.merge txnId).2 := by
  unfold RangeIndexWrapper.merge
  split
  · exact .rfl
  · dsimp only
    have type := keyType_applyRecords w.index (w.logManager.scan txnId)
    split
    · exact ⟨type, rfl⟩
    · exact ⟨type, rfl⟩

/-! ## Under the invariant -/

section Coherent

variable [PathHash] {im : IndexManager K}

theorem Coherent.start (basedir : Str) : ({ basedir } : IndexManager K).Coherent := fun path => by
  simpa using Slot.absent

/-- An index that is registered has its wrapper. -/
theorem Coherent.takes (h : im.Coherent) {path : Str} {info : IndexInfo}
    (found : im.indexInfoMap[path]? = some info) : im.Takes path := by
  have slot := h path
  rw [found] at slot
  generalize there : im.rangeIndexMap[path]? = w? at slot
  cases slot with
  | tree here named type known typed based => exact ⟨info, _, found, type, there⟩

theorem Coherent.not_mem (h : im.Coherent) {path : Str} (missing : im.indexInfoMap[path]? = none) :
    im.rangeIndexMap[path]? = none := by
  have slot := h path
  rw [missing] at slot
  generalize im.rangeIndexMap[path]? = w? at slot
  cases slot
  rfl

/-- An index may get another wrapper. -/
theorem Coherent.replace (h : im.Coherent) {path : Str} {w w' : RangeIndexWrapper K}
    (found : im.rangeIndexMap[path]? = some w) (same : SameIndex w w') :
    ({ im with rangeIndexMap := im.rangeIndexMap.insert path w' } : IndexManager K).Coherent := by
  intro p
  have slot := h p
  by_cases e : path = p
  · subst e
    simp only [getElem?_insert, if_true]
    rw [found] at slot
    generalize im.indexInfoMap[path]? = info? at slot ⊢
    cases slot with
    | tree here named type known typed based =>
      exact .tree here named type known (same.keyType.trans typed) (same.basePath.trans based)
  · simp only [getElem?_insert, if_neg e]
    exact slot

theorem Coherent.logged (h : im.Coherent) (txnId : TxnId) (updates : RecordUpdateList) :
    (im.logged txnId updates).Coherent := by
  unfold IndexManager.logged
  split
  · exact h
  · next w found => exact h.replace found (sameIndex_update w false txnId updates)

theorem Coherent.mergeLogToIndex (h : im.Coherent) (indexPath : Str) (txnId : TxnId) :
    (im.mergeLogToIndex indexPath txnId).2.Coherent := by
  unfold IndexManager.mergeLogToIndex
  split
  · exact h
  · next w found => exact h.replace found (sameIndex_merge w txnId)

omit [PathHash] in
@[simp] theorem indexInfoMap_logged (im : IndexManager K) (txnId : TxnId)
    (updates : RecordUpdateList) : (im.logged txnId updates).indexInfoMap = im.indexInfoMap := by
  unfold IndexManager.logged
  split <;> rfl

/-! ## What the operations do under the invariant -/

/-- A new index, or one that is gone. -/
theorem Coherent.set (h : im.Coherent) {path : Str} {info? : Option IndexInfo}
    {w? : Option (RangeIndexWrapper K)} (new : Slot im.basedir path info? w?)
    {im' : IndexManager K} (basedir : im'.basedir = im.basedir)
    (infos : ∀ p, im'.indexInfoMap[p]? = if path = p then info? else im.indexInfoMap[p]?)
    (wrappers : ∀ p, im'.rangeIndexMap[p]? = if path = p then w? else im.rangeIndexMap[p]?) :
    im'.Coherent := by
  intro p
  rw [basedir, infos, wrappers]
  by_cases e : path = p
  · subst e
    simpa using new
  · simpa [e] using h p

/-- The wrapper of a new index. -/
def newWrapper (im : IndexManager K) (lastMergedLogId : TxnId) (rootPath : Str) (keyType : Int) :
    RangeIndexWrapper K where
  basePath := im.getIndexFileBasePath rootPath
  index := RangeIndex.empty keyType
  dirty := true
  lastMergedLogId

theorem Coherent.create (h : im.Coherent) (lastMergedLogId : TxnId) (rootPath name : Str)
    (indexType keyType : Int) :
    (im.create lastMergedLogId rootPath name indexType keyType).2.Coherent := by
  unfold IndexManager.create
  dsimp only
  split
  · exact h
  · next valid =>
    split
    · exact h
    · split
      · next tree =>
        split
        · exact h
        · next known =>
          have named : name ≠ [] := fun empty => valid (.inr (by simp [empty]))
          have new : Slot im.basedir rootPath (some ⟨rootPath, name, indexType, keyType⟩)
              (some (im.newWrapper lastMergedLogId rootPath keyType)) :=
            .tree rfl named tree (by simpa using known) rfl rfl
          exact h.set new rfl (fun p => getElem?_insert _ _ _ _) fun p => getElem?_insert _ _ _ _
      · split <;> exact h

/-- An index that is registered is destroyed with its wrapper. -/
theorem Coherent.destroy_eq (h : im.Coherent) (root name : Str) :
    im.destroy root name =
      if root.isEmpty ∨ name.isEmpty then (⟨-EINVAL, "Invalid parameters."⟩, im)
      else if root ∈ im.indexInfoMap then
        (.OK, { im with
          indexInfoMap := im.indexInfoMap.erase root
          rangeIndexMap := im.rangeIndexMap.erase root })
      else (⟨-ENOENT, "Index does not existed."⟩, im) := by
  unfold IndexManager.destroy
  dsimp only
  cases found : im.indexInfoMap[root]? with
  | none => rw [if_neg ((not_mem_iff _ _).mpr found)]
  | some info =>
    obtain ⟨entry, w, found', tree, -⟩ := h.takes found
    cases found.symm.trans found'
    rw [if_pos ((mem_iff_exists _ _).mpr ⟨_, found⟩)]
    simp only [tree, if_true]

theorem Coherent.destroy (h : im.Coherent) (root name : Str) :
    (im.destroy root name).2.Coherent := by
  rw [h.destroy_eq]
  split
  · exact h
  · split
    · exact h.set .absent rfl (fun p => getElem?_erase _ _ _) fun p => getElem?_erase _ _ _
    · exact h

theorem Coherent.updateSingleIndex_eq (h : im.Coherent) (txnId : TxnId)
    (updates : RecordUpdateList) :
    im.updateSingleIndex txnId updates = .ok
      (if updates.rootPath ∈ im.indexInfoMap then .OK
        else noIndex, im.logged txnId updates) := by
  cases found : im.indexInfoMap[updates.rootPath]? with
  | none =>
    have nothing : im.logged txnId updates = im := by
      simp only [IndexManager.logged, h.not_mem found]
    rw [if_neg ((not_mem_iff _ _).mpr found), nothing]
    simp only [updateSingleIndex, found, noIndex]
  | some info =>
    rw [if_pos ((mem_iff_exists _ _).mpr ⟨info, found⟩)]
    exact updateSingleIndex_of_takes (h.takes found) txnId

/-- An update appends lists to logs until a list is for an index that is not there. -/
theorem Coherent.updateAll_cons (h : im.Coherent) (txnId : TxnId) (updates : RecordUpdateList)
    (rest : List RecordUpdateList) :
    im.updateAll txnId (updates :: rest) =
      if updates.rootPath ∈ im.indexInfoMap then (im.logged txnId updates).updateAll txnId rest
      else .ok (noIndex, im.logged txnId updates) := by
  simp only [updateAll, h.updateSingleIndex_eq, bind, Except.bind]
  split
  · simp
  · simp [noIndex, Status.ok, ENOENT, pure, Except.pure]

/-- The index of a list, if there is one, takes it at once, whatever comes of it. -/
theorem Coherent.updateSingleIndex (h : im.Coherent) (txnId : TxnId) (updates : RecordUpdateList)
    (immediately : Bool) : ∃ status im',
      im.updateSingleIndex txnId updates immediately = .ok (status, im') ∧ im'.Coherent := by
  cases found : im.indexInfoMap[updates.rootPath]? with
  | none =>
    exact ⟨noIndex, im, by simp only [IndexManager.updateSingleIndex, found, noIndex], h⟩
  | some info =>
    obtain ⟨entry, w, registered, tree, wrapped⟩ := h.takes found
    have next := h.replace wrapped (sameIndex_update w immediately txnId updates)
    simp only [IndexManager.updateSingleIndex, registered, tree, if_true, wrapper, wrapped, bind,
      Except.bind]
    split
    · exact ⟨_, _, rfl, next⟩
    · exact ⟨_, _, rfl, next⟩

theorem Coherent.updateEach (h : im.Coherent) (txnId : TxnId) (hasFailure : Bool)
    (updates : List RecordUpdateList) : ∃ hasFailure' im',
      im.updateEach txnId hasFailure updates = .ok (hasFailure', im') ∧ im'.Coherent := by
  induction updates generalizing im hasFailure with
  | nil => exact ⟨hasFailure, im, rfl, h⟩
  | cons l updates ih =>
    obtain ⟨status, im₁, first, next⟩ := h.updateSingleIndex txnId l true
    obtain ⟨hasFailure', im', rest, sound⟩ := ih next (hasFailure || !status.ok)
    refine ⟨hasFailure', im', ?_, sound⟩
    simp only [IndexManager.updateEach, first, bind, Except.bind]
    exact rest

theorem Coherent.updateAll (h : im.Coherent) (txnId : TxnId) (updates : List RecordUpdateList) :
    ∃ status im', im.updateAll txnId updates = .ok (status, im') ∧ im'.Coherent := by
  induction updates generalizing im with
  | nil => exact ⟨.OK, im, rfl, h⟩
  | cons l updates ih =>
    have next := h.logged txnId l
    rw [h.updateAll_cons]
    split
    · exact ih next
    · exact ⟨_, _, rfl, next⟩

theorem Coherent.update (h : im.Coherent) (updates : IndexUpdate) (immediately : Bool) :
    ∃ status im', im.update updates immediately = .ok (status, im') ∧ im'.Coherent := by
  cases immediately with
  | false => exact h.updateAll updates.txnId updates.updates
  | true =>
    obtain ⟨hasFailure, im', applied, sound⟩ := h.updateEach updates.txnId false updates.updates
    refine ⟨if hasFailure then ⟨-1, "An error has occured"⟩ else .OK, im', ?_, sound⟩
    simp only [IndexManager.update, if_true, applied, bind, Except.bind]
    rfl

/-- A search of an index that is there, with what the rest of the search does. -/
theorem Coherent.searchAll_cons (h : im.Coherent) (txnId : TxnId) (results : List ObjectId)
    (cq : RangeQuery) (rest : List RangeQuery) {w : RangeIndexWrapper K}
    (found : im.rangeIndexMap[cq.indexPath]? = some w) :
    im.searchAll txnId results (cq :: rest) =
      if (w.merge txnId).1.ok then
        (im.mergeLogToIndex cq.indexPath txnId).2.searchAll txnId
          (results ++ ((w.merge txnId).2.index.search cq).2) rest
      else .ok ((w.merge txnId).1, results, (im.mergeLogToIndex cq.indexPath txnId).2) := by
  have slot := h cq.indexPath
  rw [found] at slot
  have state : (im.mergeLogToIndex cq.indexPath txnId).2 =
      { im with rangeIndexMap := im.rangeIndexMap.insert cq.indexPath (w.merge txnId).2 } := by
    simp only [IndexManager.mergeLogToIndex, found]
  rw [state]
  generalize registered : im.indexInfoMap[cq.indexPath]? = info? at slot
  cases slot with
  | tree here named type known typed based =>
    simp only [searchAll, registered, type, if_true, wrapper, found, bind, Except.bind,
      RangeIndexWrapper.search]
    by_cases ok : (w.merge txnId).1.ok = true
    · simp [ok]
    · simp [ok, pure, Except.pure]

theorem Coherent.searchAll (h : im.Coherent) (txnId : TxnId) (results : List ObjectId)
    (cqs : List RangeQuery) :
    ∃ status out im', im.searchAll txnId results cqs = .ok (status, out, im') ∧ im'.Coherent := by
  induction cqs generalizing im results with
  | nil => exact ⟨.OK, results, im, rfl, h⟩
  | cons cq cqs ih =>
    cases registered : im.indexInfoMap[cq.indexPath]? with
    | none =>
      exact ⟨noIndex, results, im, by simp only [IndexManager.searchAll, registered, noIndex], h⟩
    | some info =>
      obtain ⟨-, w, -, -, found⟩ := h.takes registered
      have next := h.mergeLogToIndex cq.indexPath txnId
      rw [h.searchAll_cons txnId results cq cqs found]
      split
      · exact ih next _
      · exact ⟨_, _, _, rfl, next⟩

/-- What is told about an index that is there. -/
theorem Coherent.info_eq (h : im.Coherent) (txnId : TxnId) {path : Str} {info : IndexInfo}
    {w : RangeIndexWrapper K} (registered : im.indexInfoMap[path]? = some info)
    (found : im.rangeIndexMap[path]? = some w) :
    im.info txnId path = .ok (.OK,
      some ⟨info.path, info.name, info.indexType, info.keyType, (w.merge txnId).2.index.size⟩,
      (im.mergeLogToIndex path txnId).2) := by
  obtain ⟨entry, w', registered', tree, -⟩ := h.takes registered
  cases registered.symm.trans registered'
  simp [IndexManager.info, registered, tree, wrapper, found, bind, Except.bind, pure, Except.pure,
    IndexManager.mergeLogToIndex]

theorem Coherent.info (h : im.Coherent) (txnId : TxnId) (path : Str) :
    ∃ status result im', im.info txnId path = .ok (status, result, im') ∧ im'.Coherent := by
  cases registered : im.indexInfoMap[path]? with
  | none => exact ⟨noIndex, none, im, by simp only [IndexManager.info, registered, noIndex], h⟩
  | some info =>
    obtain ⟨-, w, -, -, found⟩ := h.takes registered
    exact ⟨_, _, _, h.info_eq txnId registered found, h.mergeLogToIndex path txnId⟩

/-! ## Flushing -/

section Flush

variable [ThriftSerialize RecordUpdateList] [ThriftSerialize LogBuffer]

/-- The number of records that the flush of an index erases. -/
def truncated (w : RangeIndexWrapper K) (bytes : Nat) : Nat :=
  Tracked.erased ⟨w, 0⟩ bytes false

omit [PathHash] in
/-- A flush of the background thread is defined, and takes the first records from the log. -/
theorem flushLog_spec (w : RangeIndexWrapper K) {bytes : Nat} (positive : 0 < bytes)
    (opened : Bool) :
    ∃ status w' text, w.flushLog bytes opened false = .ok (status, w', text) ∧
      w'.index = w.index ∧ w'.basePath = w.basePath ∧ w'.status = w.status ∧
      w'.logManager.log = w.logManager.log.drop (if opened then truncated w bytes else 0) := by
  cases opened with
  | false => exact ⟨_, w, [], rfl, rfl, rfl, rfl, rfl⟩
  | true =>
    obtain ⟨m, text, flushed⟩ := w.logManager.flush_defined (.inr (.inr ⟨positive, rfl⟩))
    have flushable : (⟨w, 0⟩ : Tracked K).Flushable bytes false := .inr (.inr ⟨positive, rfl⟩)
    obtain ⟨s', stepped, log, -, -, -⟩ := Tracked.step_flushLog flushable
    simp only [Tracked.step, flushLog, if_true, flushed, bind, Except.bind, pure, Except.pure]
      at stepped ⊢
    cases stepped
    exact ⟨_, _, _, rfl, rfl, rfl, rfl, log⟩

theorem Coherent.flushDirty (h : im.Coherent) {bytes : Nat} (positive : 0 < bytes) (opened : Bool)
    (path : Str) : ∃ im', im.flushDirty bytes opened path = .ok im' ∧ im'.Coherent := by
  unfold IndexManager.flushDirty
  split
  · exact ⟨im, rfl, h⟩
  · next w found =>
    split
    · obtain ⟨status, w', text, flushed, index, base, -, -⟩ := flushLog_spec w positive opened
      rw [flushed]
      exact ⟨_, rfl, h.replace found ⟨by rw [index], base⟩⟩
    · exact ⟨im, rfl, h⟩

/-- Whatever a request is, it is answered, and the maps keep their paths together. -/
theorem Coherent.step (h : im.Coherent) {bytes : Nat} (positive : 0 < bytes) (immediately : Bool)
    (request : Command) : ∃ answer im',
      im.perform bytes immediately request = .ok (answer, im') ∧ im'.Coherent := by
  cases request with
  | create lastMergedLogId root name indexType keyType =>
    exact ⟨_, _, rfl, h.create lastMergedLogId root name indexType keyType⟩
  | destroy root name => exact ⟨_, _, rfl, h.destroy root name⟩
  | update updates =>
    obtain ⟨status, im', updated, sound⟩ := h.update updates immediately
    refine ⟨.done status, im', ?_, sound⟩
    simp only [IndexManager.perform, updated]
    rfl
  | search query =>
    obtain ⟨status, out, im', searched, sound⟩ := h.searchAll query.txnId [] query.rangeQueries
    refine ⟨.found status out, im', ?_, sound⟩
    simp only [IndexManager.perform, IndexManager.search, searched]
    rfl
  | info txnId path =>
    obtain ⟨status, result, im', informed, sound⟩ := h.info txnId path
    refine ⟨.informed status result, im', ?_, sound⟩
    simp only [IndexManager.perform, informed]
    rfl
  | merge txnId path => exact ⟨_, _, rfl, h.mergeLogToIndex path txnId⟩
  | flush opened path =>
    obtain ⟨im', flushed, sound⟩ := h.flushDirty positive opened path
    refine ⟨.done .OK, im', ?_, sound⟩
    simp only [IndexManager.perform, flushed]
    rfl

end Flush

end Coherent

section Example

attribute [local instance] uint64Keys Md5.pathHash BinaryProtocol.recordUpdateList
  BinaryProtocol.logBuffer

/-- A batch that does not cast, a search of an index that is not there, and an index that is
destroyed while its log is not merged. -/
def carelessRequests : List Command :=
  [.create 99 "/foo/.vsfs/red/0".toList "red".toList IndexInfo.BTREE 0,
    .update ⟨7, [insertBatch "ten" "7"]⟩, .search ⟨3, [], [everything]⟩,
    .search ⟨7, [], [{ everything with indexPath := "/bar".toList }]⟩,
    .flush true "/foo/.vsfs/red/0".toList, .destroy "/foo/.vsfs/red/0".toList "red".toList,
    .info 0 "/foo/.vsfs/red/0".toList]

end Example

end IndexManager

end Vsfs.Indexd

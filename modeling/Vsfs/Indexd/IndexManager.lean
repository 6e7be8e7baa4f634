import Vsfs.Common.Path
import Vsfs.Indexd.RangeIndexWrapper
import Vsfs.Masterd.MasterController

/-!
# An index server

`IndexManager` with the handlers of `IndexServer`. An index is a partition of a named
index and is known by the path of that partition only. `FLAGS_update_immediately` is an
argument of the updates, and the handlers have it at its default: updates are deferred. A value
that the source leaves uninitialised is an argument, too.
-/

namespace Vsfs.Indexd

open Std Index FiniteMap

structure IndexInfo where
  path : Str
  name : Str
  indexType : Int
  keyType : Int
  deriving DecidableEq, Repr

/-- The types of index that `create` knows, out of those of the enumeration. -/
def IndexInfo.HASH : Int := 1

def IndexInfo.BTREE : Int := 2

/-- `RpcIndexUpdate`. -/
structure IndexUpdate where
  txnId : TxnId := 0
  updates : List RecordUpdateList := []

/-- `RpcComplexQuery`. -/
structure RpcComplexQuery where
  txnId : TxnId := 0
  root : Str
  rangeQueries : List RangeQuery := []

/-- `RpcIndexInfo`. -/
structure RpcIndexInfo where
  path : Str
  name : Str
  type : Int
  keyType : Int
  numRecords : Nat

structure IndexManager (K : Type) [LinearOrder K] where
  basedir : Str
  indexInfoMap : ExtTreeMap Str IndexInfo := ∅
  rangeIndexMap : ExtTreeMap Str (RangeIndexWrapper K) := ∅

namespace IndexManager

variable {K : Type} [LinearOrder K]

def getIndexFileBasePath [PathHash] (im : IndexManager K) (rootPath : Str) : Str :=
  im.basedir ++ "/".toList ++ (toString (PathHash.pathToHash rootPath).toInt).toList

variable [KeyTypes K]

/-- Nothing is registered for a `HASH` index. -/
def create [PathHash] (im : IndexManager K) (lastMergedLogId : TxnId) (rootPath name : Str)
    (indexType keyType : Int) : Status × IndexManager K :=
  if rootPath.isEmpty ∨ name.isEmpty then (⟨-EINVAL, "Invalid parameters."⟩, im)
  else
    let indexKey := rootPath
    if indexKey ∈ im.indexInfoMap then (⟨-EEXIST, "The index is existed."⟩, im)
    else if indexType = IndexInfo.BTREE then
      if !KeyTypes.known K keyType then
        (⟨-EINVAL, "Unknown key type: " ++ toString keyType⟩, im)
      else
        let wrapper : RangeIndexWrapper K :=
          { basePath := im.getIndexFileBasePath rootPath
            index := RangeIndex.empty keyType
            dirty := true
            lastMergedLogId }
        (.OK, { im with
          indexInfoMap := im.indexInfoMap.insert indexKey ⟨rootPath, name, indexType, keyType⟩
          rangeIndexMap := im.rangeIndexMap.insert indexKey wrapper })
    else if indexType = IndexInfo.HASH then (.OK, im)
    else (⟨-EINVAL, "Unknown index type."⟩, im)

/-- A request that is refused changes nothing; one that succeeds was for a new partition and
registers it, unless it is one of a `HASH` index. -/
theorem create_spec [PathHash] {im im' : IndexManager K} {lastMergedLogId : TxnId}
    {rootPath name : Str} {indexType keyType : Int} {status : Status}
    (h : im.create lastMergedLogId rootPath name indexType keyType = (status, im')) :
    (status.ok = false ∧ im' = im) ∨ (status = .OK ∧ rootPath ∉ im.indexInfoMap ∧
      ((indexType = IndexInfo.HASH ∧ im' = im) ∨
        ∃ w : RangeIndexWrapper K, indexType = IndexInfo.BTREE ∧ w.index = .empty keyType ∧
          w.status = .normal ∧ w.logManager.log = [] ∧
          im' = { im with
            indexInfoMap := im.indexInfoMap.insert rootPath ⟨rootPath, name, indexType, keyType⟩
            rangeIndexMap := im.rangeIndexMap.insert rootPath w })) := by
  unfold create at h
  dsimp only at h
  split at h
  · cases h
    exact .inl ⟨rfl, rfl⟩
  · split at h
    · cases h
      exact .inl ⟨rfl, rfl⟩
    · rename_i new
      split at h
      · rename_i tree
        split at h
        · cases h
          exact .inl ⟨rfl, rfl⟩
        · cases h
          exact .inr ⟨rfl, new, .inr ⟨_, tree, rfl, rfl, rfl, rfl⟩⟩
      · split at h
        · rename_i hash
          cases h
          exact .inr ⟨rfl, new, .inl ⟨hash, rfl⟩⟩
        · cases h
          exact .inl ⟨rfl, rfl⟩

/-- `CHECK_NOTNULL` of the wrapper of a `BTREE` index. -/
def wrapper (im : IndexManager K) (indexKey : Str) : Cpp (RangeIndexWrapper K) :=
  match im.rangeIndexMap[indexKey]? with
  | none => .error (.check "'index' Must be non NULL")
  | some w => .ok w

def updateSingleIndex (im : IndexManager K) (txnId : TxnId) (updates : RecordUpdateList)
    (immediately : Bool := false) : Cpp (Status × IndexManager K) :=
  let indexKey := updates.rootPath
  match im.indexInfoMap[indexKey]? with
  | none => .ok (⟨-ENOENT, "The index does not exist."⟩, im)
  | some info =>
    if info.indexType = IndexInfo.BTREE then do
      let (status, index) := (← im.wrapper indexKey).update immediately txnId updates
      let im := { im with rangeIndexMap := im.rangeIndexMap.insert indexKey index }
      if !status.ok then
        return (⟨-1, "Errors occurs when update index: " ++ String.ofList indexKey⟩, im)
      return (.OK, im)
    else .ok (.OK, im)

/-- The loop of `update` over the lists of a request, in deferred mode. -/
def updateAll (im : IndexManager K) (txnId : TxnId) :
    List RecordUpdateList → Cpp (Status × IndexManager K)
  | [] => .ok (.OK, im)
  | updates :: rest => do
    let (status, im) ← im.updateSingleIndex txnId updates
    if !status.ok then return (status, im)
    im.updateAll txnId rest

/-- The threads of `update` in immediate mode, one for each list. All of them run; the lists are
in the order in which the threads come to their indices. -/
def updateEach (im : IndexManager K) (txnId : TxnId) (hasFailure : Bool) :
    List RecordUpdateList → Cpp (Bool × IndexManager K)
  | [] => .ok (hasFailure, im)
  | updates :: rest => do
    let (status, im) ← im.updateSingleIndex txnId updates true
    im.updateEach txnId (hasFailure || !status.ok) rest

def update (im : IndexManager K) (updates : IndexUpdate) (immediately : Bool := false) :
    Cpp (Status × IndexManager K) :=
  if immediately then do
    let (hasFailure, im) ← im.updateEach updates.txnId false updates.updates
    return (if hasFailure then ⟨-1, "An error has occured"⟩ else .OK, im)
  else im.updateAll updates.txnId updates.updates

@[simp] theorem update_deferred (im : IndexManager K) (updates : IndexUpdate) :
    im.update updates = im.updateAll updates.txnId updates.updates := rfl

/-- The loop of `search` over the ranges of a query; `results` are those found so far. -/
def searchAll (im : IndexManager K) (txnId : TxnId) (results : List ObjectId) :
    List RangeQuery → Cpp (Status × List ObjectId × IndexManager K)
  | [] => .ok (.OK, results, im)
  | cq :: rest =>
    match im.indexInfoMap[cq.indexPath]? with
    | none => .ok (⟨-ENOENT, "The index does not exist."⟩, results, im)
    | some info =>
      if info.indexType = IndexInfo.BTREE then do
        let (status, tmp, index) := (← im.wrapper cq.indexPath).search txnId cq
        let im := { im with rangeIndexMap := im.rangeIndexMap.insert cq.indexPath index }
        if !status.ok then return (status, results, im)
        im.searchAll txnId (results ++ tmp) rest
      else .ok (⟨-1, "Wrong index type."⟩, results, im)

def search (im : IndexManager K) (query : RpcComplexQuery) :
    Cpp (Status × List ObjectId × IndexManager K) :=
  im.searchAll query.txnId [] query.rangeQueries

/-- What a partition adds to the answer of a search. -/
def answer (im : IndexManager K) (txnId : TxnId) (cq : RangeQuery) : List ObjectId :=
  match im.rangeIndexMap[cq.indexPath]? with
  | none => []
  | some w => (w.search txnId cq).2.1

/-- A partition that can be searched has the ids of the keys in range. -/
theorem mem_answer {im : IndexManager K} {txnId : TxnId} {cq : RangeQuery}
    {w : RangeIndexWrapper K} (found : im.rangeIndexMap[cq.indexPath]? = some w)
    (merged : (w.merge txnId).1.ok = true) (o : ObjectId) :
    o ∈ im.answer txnId cq ↔
      ∃ k, (k, o) ∈ (w.merge txnId).2.index.pairs ∧ (w.merge txnId).2.index.Matches cq k := by
  simp only [answer, found, RangeIndexWrapper.search, merged, if_true]
  exact RangeIndex.mem_search _ _ _

/-- A search of different partitions that succeeds puts their answers one after the other,
and touches no other partition. -/
theorem searchAll_ok {im im' : IndexManager K} {txnId : TxnId} {results out : List ObjectId}
    {cqs : List RangeQuery} {status : Status} (distinct : (cqs.map (·.indexPath)).Nodup)
    (h : im.searchAll txnId results cqs = .ok (status, out, im')) (ok : status.ok = true) :
    out = results ++ cqs.flatMap (im.answer txnId) ∧
      (∀ cq ∈ cqs, ∃ w, im.rangeIndexMap[cq.indexPath]? = some w ∧ (w.merge txnId).1.ok = true) ∧
      ∀ p, p ∉ cqs.map (·.indexPath) → im'.rangeIndexMap[p]? = im.rangeIndexMap[p]? := by
  induction cqs generalizing im results with
  | nil =>
    cases h
    simp
  | cons cq cqs ih =>
    obtain ⟨new, distinct⟩ := List.nodup_cons.mp (List.map_cons ▸ distinct)
    unfold searchAll at h
    split at h
    · cases h
      cases ok
    · split at h
      · cases found : im.rangeIndexMap[cq.indexPath]? with
        | none => simp [wrapper, found, bind, Except.bind] at h
        | some w =>
          cases merged : (w.merge txnId).1.ok with
          | false =>
            simp only [wrapper, found, bind, Except.bind, pure, Except.pure,
              RangeIndexWrapper.search, merged, Bool.false_eq_true, if_false, Bool.not_false,
              if_true, Except.ok.injEq, Prod.mk.injEq] at h
            rw [← h.1, merged] at ok
            cases ok
          | true =>
            have mine : im.answer txnId cq = ((w.merge txnId).2.index.search cq).2 := by
              simp [answer, found, RangeIndexWrapper.search, merged]
            simp only [wrapper, found, bind, Except.bind, RangeIndexWrapper.search, merged,
              if_true, Status.ok_OK, Bool.not_true, Bool.false_eq_true, if_false] at h
            obtain ⟨all, others, rest⟩ := ih distinct h
            have kept (p : Str) (hp : p ≠ cq.indexPath) :
                (im.rangeIndexMap.insert cq.indexPath (w.merge txnId).2)[p]? =
                  im.rangeIndexMap[p]? := by
              rw [FiniteMap.getElem?_insert, if_neg (Ne.symm hp)]
            have other (cq' : RangeQuery) (h' : cq' ∈ cqs) : cq'.indexPath ≠ cq.indexPath :=
              fun same => new (same ▸ List.mem_map_of_mem h')
            refine ⟨?_, ?_, fun p hp => ?_⟩
            · rw [all, List.flatMap_cons, ← List.append_assoc, mine]
              congr 1
              refine List.flatMap_congr fun cq' h' => ?_
              simp only [answer, kept _ (other cq' h')]
            · intro cq' h'
              rcases List.mem_cons.mp h' with rfl | h'
              · exact ⟨w, found, merged⟩
              · simpa only [kept _ (other cq' h')] using others cq' h'
            · rw [List.map_cons, List.mem_cons, not_or] at hp
              rw [rest p hp.2, kept p hp.1]
      · cases h
        cases ok

/-- The answer is filled before the type of the index is looked at, and the status of the
merge is dropped. -/
def info (im : IndexManager K) (txnId : TxnId) (path : Str) :
    Cpp (Status × Option RpcIndexInfo × IndexManager K) :=
  match im.indexInfoMap[path]? with
  | none => .ok (⟨-ENOENT, "The index does not exist."⟩, none, im)
  | some info =>
    let result : RpcIndexInfo := ⟨info.path, info.name, info.indexType, info.keyType, 0⟩
    if info.indexType = IndexInfo.BTREE then do
      let (_, index) := (← im.wrapper path).merge txnId
      let im := { im with rangeIndexMap := im.rangeIndexMap.insert path index }
      let numRecords := index.index.size
      return (.OK, some { result with numRecords }, im)
    else .ok (⟨-1, "Wrong index type."⟩, some result, im)

/-! ## Which indices a server has -/

theorem indexInfoMap_updateSingleIndex {im im' : IndexManager K} {txnId : TxnId}
    {updates : RecordUpdateList} {status : Status}
    (h : im.updateSingleIndex txnId updates = .ok (status, im')) :
    im'.indexInfoMap = im.indexInfoMap := by
  unfold updateSingleIndex at h
  dsimp only at h
  split at h
  · cases h
    rfl
  · split at h
    · cases found : im.wrapper updates.rootPath with
      | error crash => simp [found, bind, Except.bind] at h
      | ok w =>
        simp only [found, bind, Except.bind, pure, Except.pure] at h
        split at h <;> cases h <;> rfl
    · cases h
      rfl

theorem indexInfoMap_updateAll {im im' : IndexManager K} {txnId : TxnId}
    {updates : List RecordUpdateList} {status : Status}
    (h : im.updateAll txnId updates = .ok (status, im')) :
    im'.indexInfoMap = im.indexInfoMap := by
  induction updates generalizing im with
  | nil =>
    cases h
    rfl
  | cons u updates ih =>
    cases first : im.updateSingleIndex txnId u with
    | error crash => simp [updateAll, first, bind, Except.bind] at h
    | ok out =>
      obtain ⟨status₁, im₁⟩ := out
      simp only [updateAll, first, bind, Except.bind, pure, Except.pure] at h
      rw [← indexInfoMap_updateSingleIndex first]
      split at h
      · cases h
        rfl
      · exact ih h

theorem indexInfoMap_searchAll {im im' : IndexManager K} {txnId : TxnId}
    {results out : List ObjectId} {cqs : List RangeQuery} {status : Status}
    (h : im.searchAll txnId results cqs = .ok (status, out, im')) :
    im'.indexInfoMap = im.indexInfoMap := by
  induction cqs generalizing im results with
  | nil =>
    cases h
    rfl
  | cons cq cqs ih =>
    unfold searchAll at h
    split at h
    · cases h
      rfl
    · split at h
      · cases found : im.wrapper cq.indexPath with
        | error crash => simp [found, bind, Except.bind] at h
        | ok w =>
          simp only [found, bind, Except.bind, pure, Except.pure] at h
          split at h
          · cases h
            rfl
          · exact (ih h :)
      · cases h
        rfl

theorem indexInfoMap_info {im im' : IndexManager K} {txnId : TxnId} {path : Str}
    {result : Option RpcIndexInfo} {status : Status}
    (h : im.info txnId path = .ok (status, result, im')) :
    im'.indexInfoMap = im.indexInfoMap := by
  unfold info at h
  split at h
  · cases h
    rfl
  · dsimp only at h
    split at h
    · cases found : im.wrapper path with
      | error crash => simp [found, bind, Except.bind] at h
      | ok w =>
        simp only [found, bind, Except.bind, pure, Except.pure] at h
        cases h
        rfl
    · cases h
      rfl

/-! ## Updates that are taken -/

/-- The server has a `BTREE` index for the path. -/
def Takes (im : IndexManager K) (path : Str) : Prop :=
  ∃ entry w, im.indexInfoMap[path]? = some entry ∧ entry.indexType = IndexInfo.BTREE ∧
    im.rangeIndexMap[path]? = some w

/-- The log of the index after a list of records. -/
def logged (im : IndexManager K) (txnId : TxnId) (updates : RecordUpdateList) : IndexManager K :=
  match im.rangeIndexMap[updates.rootPath]? with
  | none => im
  | some w => { im with
      rangeIndexMap := im.rangeIndexMap.insert updates.rootPath (w.update false txnId updates).2 }

def loggedAll (im : IndexManager K) (updates : IndexUpdate) : IndexManager K :=
  updates.updates.foldl (fun im => im.logged updates.txnId) im

theorem getElem?_logged (im : IndexManager K) (txnId : TxnId) (updates : RecordUpdateList)
    (path : Str) : (im.logged txnId updates).rangeIndexMap[path]? =
      if updates.rootPath = path then
        im.rangeIndexMap[path]?.map fun w => (w.update false txnId updates).2
      else im.rangeIndexMap[path]? := by
  cases found : im.rangeIndexMap[updates.rootPath]? with
  | none =>
    simp only [logged, found]
    by_cases same : updates.rootPath = path
    · rw [if_pos same, ← same, found]
      rfl
    · rw [if_neg same]
  | some w =>
    simp only [logged, found]
    by_cases same : updates.rootPath = path
    · rw [if_pos same, ← same, found]
      simp
    · rw [if_neg same]
      simp [same]

theorem Takes.logged {im : IndexManager K} {path : Str} (h : im.Takes path) (txnId : TxnId)
    (updates : RecordUpdateList) : (im.logged txnId updates).Takes path := by
  obtain ⟨entry, w, registered, tree, found⟩ := h
  have info : (im.logged txnId updates).indexInfoMap = im.indexInfoMap := by
    unfold IndexManager.logged
    split <;> rfl
  by_cases same : updates.rootPath = path
  · exact ⟨entry, _, info ▸ registered, tree, by rw [getElem?_logged, if_pos same, found]; rfl⟩
  · exact ⟨entry, w, info ▸ registered, tree, by rw [getElem?_logged, if_neg same, found]⟩

theorem Takes.loggedAll {im : IndexManager K} {path : Str} (h : im.Takes path)
    (updates : IndexUpdate) : (im.loggedAll updates).Takes path := by
  unfold IndexManager.loggedAll
  generalize updates.updates = lists
  induction lists generalizing im with
  | nil => exact h
  | cons l lists ih => exact ih (h.logged _ _)

theorem updateSingleIndex_of_takes {im : IndexManager K} {updates : RecordUpdateList}
    (h : im.Takes updates.rootPath) (txnId : TxnId) :
    im.updateSingleIndex txnId updates = .ok (.OK, im.logged txnId updates) := by
  obtain ⟨entry, w, registered, tree, found⟩ := h
  simp [updateSingleIndex, registered, tree, wrapper, found, bind, Except.bind, pure, Except.pure,
    RangeIndexWrapper.update, LogManager.append, IndexManager.logged]

/-- An update of indices that are there is accepted. -/
theorem update_of_takes {im : IndexManager K} {updates : IndexUpdate}
    (h : ∀ l ∈ updates.updates, im.Takes l.rootPath) :
    im.update updates = .ok (.OK, im.loggedAll updates) := by
  rw [update_deferred]
  unfold IndexManager.loggedAll
  generalize updates.updates = lists at h
  induction lists generalizing im with
  | nil => rfl
  | cons l lists ih =>
    have first := updateSingleIndex_of_takes (h l (by simp)) updates.txnId
    simp only [updateAll, first, bind, Except.bind, Status.ok_OK, Bool.not_true,
      Bool.false_eq_true, if_false, List.foldl_cons]
    exact ih fun l' h' => (h l' (by simp [h'])).logged _ _

/-- The records for an index are appended to its log. -/
theorem wrapper_loggedAll {im : IndexManager K} {path : Str} {w : RangeIndexWrapper K}
    (found : im.rangeIndexMap[path]? = some w) (updates : IndexUpdate) :
    ∃ w', (im.loggedAll updates).rangeIndexMap[path]? = some w' ∧ w'.index = w.index ∧
      w'.logManager.log.map (·.record) = w.logManager.log.map (·.record) ++
        updates.updates.filter fun l => l.rootPath = path := by
  unfold loggedAll
  generalize updates.updates = lists
  induction lists generalizing im w with
  | nil => exact ⟨w, found, rfl, by simp⟩
  | cons l lists ih =>
    rw [List.foldl_cons]
    by_cases same : l.rootPath = path
    · have next : (im.logged updates.txnId l).rangeIndexMap[path]? =
          some (w.update false updates.txnId l).2 := by
        rw [getElem?_logged, if_pos same, found]
        rfl
      obtain ⟨w', there, index, log⟩ := ih next
      refine ⟨w', there, index, ?_⟩
      rw [log]
      simp [RangeIndexWrapper.update, LogManager.append, same]
    · have next : (im.logged updates.txnId l).rangeIndexMap[path]? = some w := by
        rw [getElem?_logged, if_neg same, found]
      obtain ⟨w', there, index, log⟩ := ih next
      exact ⟨w', there, index, by simpa [same] using log⟩

end IndexManager

/-! ## The interface -/

/-- The requests of the `IndexServer` service, with the type of their answers. -/
inductive IndexRpc : Type → Type where
  | createIndex (index : Masterd.IndexCreateRequest) : IndexRpc Unit
  | removeIndex (root name : Str) : IndexRpc Unit
  | update (updates : IndexUpdate) : IndexRpc Unit
  | search (query : RpcComplexQuery) : IndexRpc (List ObjectId)
  | info (txnId : TxnId) (path : Str) : IndexRpc RpcIndexInfo

namespace IndexServer

variable {K : Type} [LinearOrder K] [KeyTypes K] [PathHash]

/-- The handler of a request. `remove_index` is not implemented in the source. -/
def handle (im : IndexManager K) (lastMergedLogId : TxnId) {α : Type} :
    IndexRpc α → Cpp (Except RpcInvalidOp α × IndexManager K)
  | .createIndex index =>
    let (status, im) := im.create lastMergedLogId index.root index.name index.indexType.toInt
      index.keyType.toInt
    .ok (checkStatus status (), im)
  | .removeIndex _ _ => .ok (.ok (), im)
  | .update updates => do
    let (status, im) ← im.update updates
    return (checkStatus status (), im)
  | .search query => do
    let (status, results, im) ← im.search query
    return (checkStatus status results, im)
  | .info txnId path => do
    let (status, result, im) ← im.info txnId path
    return (checkStatus status (result.getD ⟨[], [], 0, 0, 0⟩), im)

/-- A search that is answered has searched all partitions it asks for. -/
theorem search_answered {im im' : IndexManager K} {lastMergedLogId : TxnId}
    {query : RpcComplexQuery} {results : List ObjectId}
    (h : handle im lastMergedLogId (.search query) = .ok (.ok results, im')) :
    ∃ status, status.ok = true ∧
      im.searchAll query.txnId [] query.rangeQueries = .ok (status, results, im') := by
  cases out : im.search query with
  | error crash => simp [handle, out, bind, Except.bind] at h
  | ok answered =>
    obtain ⟨status, found, im₁⟩ := answered
    simp only [handle, out, bind, Except.bind, pure, Except.pure, Except.ok.injEq,
      Prod.mk.injEq] at h
    obtain ⟨ok, rfl⟩ := h
    unfold checkStatus at ok
    split at ok
    · rename_i done
      cases ok
      exact ⟨status, done, out⟩
    · cases ok

/-- Nothing takes an index away, and only those of a `BTREE` are added. -/
structure Kept (im im' : IndexManager K) : Prop where
  old : ∀ {p : Str}, p ∈ im.indexInfoMap → p ∈ im'.indexInfoMap
  new : ∀ {p : Str} {info : IndexInfo}, im'.indexInfoMap[p]? = some info →
    im.indexInfoMap[p]? = some info ∨ info.indexType = IndexInfo.BTREE

omit [KeyTypes K] [PathHash] in
theorem Kept.of_eq {im im' : IndexManager K} (h : im'.indexInfoMap = im.indexInfoMap) :
    Kept im im' :=
  ⟨fun hp => h ▸ hp, fun found => .inl (h ▸ found)⟩

omit [KeyTypes K] [PathHash] in
theorem Kept.trans {im im' im'' : IndexManager K} (h : Kept im im') (h' : Kept im' im'') :
    Kept im im'' := by
  refine ⟨fun hp => h'.old (h.old hp), fun found => ?_⟩
  rcases h'.new found with before | tree
  · exact h.new before
  · exact .inr tree

theorem kept_of_handle {im im' : IndexManager K} {lastMergedLogId : TxnId} {α : Type}
    {request : IndexRpc α} {answer : Except RpcInvalidOp α}
    (h : handle im lastMergedLogId request = .ok (answer, im')) : Kept im im' := by
  cases request with
  | createIndex index =>
    cases out : im.create lastMergedLogId index.root index.name index.indexType.toInt
      index.keyType.toInt with
    | mk status im₁ =>
      simp only [handle, out, Except.ok.injEq, Prod.mk.injEq] at h
      obtain ⟨-, rfl⟩ := h
      rcases IndexManager.create_spec out with
        ⟨-, rfl⟩ | ⟨-, new, ⟨-, rfl⟩ | ⟨w, tree, -, -, -, rfl⟩⟩
      · exact .of_eq rfl
      · exact .of_eq rfl
      · refine ⟨fun hp => ExtTreeMap.mem_insert.mpr (.inr hp), fun {p info} found => ?_⟩
        rw [getElem?_insert] at found
        split at found
        · cases found
          exact .inr tree
        · exact .inl found
  | removeIndex root name =>
    cases h
    exact .of_eq rfl
  | update updates =>
    cases out : im.update updates with
    | error crash => simp [handle, out, bind, Except.bind] at h
    | ok answered =>
      simp only [handle, out, bind, Except.bind] at h
      cases h
      exact .of_eq (IndexManager.indexInfoMap_updateAll out)
  | search query =>
    cases out : im.search query with
    | error crash => simp [handle, out, bind, Except.bind] at h
    | ok answered =>
      simp only [handle, out, bind, Except.bind] at h
      cases h
      exact .of_eq (IndexManager.indexInfoMap_searchAll out)
  | info txnId path =>
    cases out : im.info txnId path with
    | error crash => simp [handle, out, bind, Except.bind] at h
    | ok answered =>
      simp only [handle, out, bind, Except.bind] at h
      cases h
      exact .of_eq (IndexManager.indexInfoMap_info out)

end IndexServer

end Vsfs.Indexd

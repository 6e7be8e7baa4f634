import Vsfs.Common.Md5
import Vsfs.Index.Relation
import Vsfs.Indexd.Lifecycle
import Vsfs.Indexd.Modes

/-!
# An index server is a store of tables

What a user of `IndexManager` sees is a table for every path: an index that was created and not
destroyed, with a set of records. An update changes the records at once, a search lists those in
a range, and merging and flushing cannot be seen. The server has the records in an index and a
log, spread over two maps, and searches what it has just merged.

## Main results

* `IndexManager.serves_tables` : the server answers as the tables do, as long as reads cover the
  log, batches are well formed, and what a flush erases can be done without.
-/

namespace Vsfs.Indexd

open Std Index FiniteMap Replay
open RangeIndexWrapper (batchWrites batchWrites_append merge_spec)

/-- An index as its users see it: what it was created as, and its records. -/
structure Table (K : Type) where
  info : IndexInfo
  records : Set (K × ObjectId)

/-- The indices of a server by their paths. -/
abbrev Tables (K : Type) := Str → Option (Table K)

namespace Tables

open IndexManager

variable {K : Type} [LinearOrder K] [KeyTypes K]

/-- The ids of the records that a query asks for, in the order of their keys. -/
def Lists (t : Table K) (cq : RangeQuery) (out : List ObjectId) : Prop :=
  ∃ groups : List (K × List ObjectId), out = groups.flatMap Prod.snd ∧
    groups.Pairwise (·.1 < ·.1) ∧ (∀ g ∈ groups, g.2.Nodup) ∧
    ∀ k o, (∃ g ∈ groups, g.1 = k ∧ o ∈ g.2) ↔
      (k, o) ∈ t.records ∧ (RangeIndex.empty t.info.keyType : RangeIndex K).Matches cq k

/-- A new table is empty. Nothing is created for a `HASH` index. -/
def create (S : Tables K) (root name : Str) (indexType keyType : Int) : Status × Tables K :=
  if root.isEmpty ∨ name.isEmpty then (⟨-EINVAL, "Invalid parameters."⟩, S)
  else if (S root).isSome then (⟨-EEXIST, "The index is existed."⟩, S)
  else if indexType = IndexInfo.BTREE then
    if !KeyTypes.known K keyType then (⟨-EINVAL, "Unknown key type: " ++ toString keyType⟩, S)
    else (.OK, Function.update S root (some ⟨⟨root, name, indexType, keyType⟩, ∅⟩))
  else if indexType = IndexInfo.HASH then (.OK, S)
  else (⟨-EINVAL, "Unknown index type."⟩, S)

omit [LinearOrder K] [KeyTypes K] in
def destroy (S : Tables K) (root name : Str) : Status × Tables K :=
  if root.isEmpty ∨ name.isEmpty then (⟨-EINVAL, "Invalid parameters."⟩, S)
  else if (S root).isSome then (.OK, Function.update S root none)
  else (⟨-ENOENT, "Index does not existed."⟩, S)

/-- A list of records goes into its table; the first one without a table ends the update. -/
def updateAll (S : Tables K) : List RecordUpdateList → Status × Tables K
  | [] => (.OK, S)
  | l :: ls =>
    match S l.rootPath with
    | none => (noIndex, S)
    | some t =>
      updateAll (Function.update S l.rootPath
        (some { t with
          records := replay (RangeIndex.writes K t.info.keyType l.recordUpdates) t.records })) ls

/-- The answer to some queries: what the tables list, one after the other, up to the first path
without a table. -/
def Finds (S : Tables K) : List RangeQuery → Status → List ObjectId → Prop
  | [], status, out => status = .OK ∧ out = []
  | cq :: cqs, status, out =>
    match S cq.indexPath with
    | none => status = noIndex ∧ out = []
    | some t => ∃ here rest, out = here ++ rest ∧ Lists t cq here ∧ Finds S cqs status rest

/-- What is told about an index: how it was created, and the number of its records. -/
noncomputable def info (S : Tables K) (path : Str) : Status × Option RpcIndexInfo :=
  match S path with
  | none => (noIndex, none)
  | some t => (.OK, some
      ⟨t.info.path, t.info.name, t.info.indexType, t.info.keyType, t.records.ncard⟩)

def merge (S : Tables K) (path : Str) : Status := if (S path).isSome then .OK else noIndex

/-- How the tables answer a request, and what they are then. -/
inductive Serves : Tables K → Command → Answer → Tables K → Prop where
  | create {S : Tables K} {lastMergedLogId : TxnId} {root name : Str} {indexType keyType : Int} :
      Serves S (.create lastMergedLogId root name indexType keyType)
        (.done (S.create root name indexType keyType).1) (S.create root name indexType keyType).2
  | destroy {S : Tables K} {root name : Str} :
      Serves S (.destroy root name) (.done (S.destroy root name).1) (S.destroy root name).2
  | update {S : Tables K} {updates : IndexUpdate} :
      Serves S (.update updates) (.done (S.updateAll updates.updates).1)
        (S.updateAll updates.updates).2
  | search {S : Tables K} {query : RpcComplexQuery} {status : Status} {out : List ObjectId}
      (finds : S.Finds query.rangeQueries status out) :
      Serves S (.search query) (.found status out) S
  | info {S : Tables K} {txnId : TxnId} {path : Str} :
      Serves S (.info txnId path) (.informed (S.info path).1 (S.info path).2) S
  | merge {S : Tables K} {txnId : TxnId} {path : Str} :
      Serves S (.merge txnId path) (.done (S.merge path)) S
  | flush {S : Tables K} {opened : Bool} {path : Str} :
      Serves S (.flush opened path) (.done .OK) S

end Tables

namespace IndexManager

variable {K : Type} [LinearOrder K] [KeyTypes K]

/-! ## One index and its table -/

/-- The writes of the batches in the log. -/
def logWrites (keyType : Int) (w : RangeIndexWrapper K) : List (Write (K × ObjectId)) :=
  batchWrites K keyType (w.logManager.log.map (·.record))

/-- The index with its log replayed is the table. -/
structure Stores (w : RangeIndexWrapper K) (t : Table K) : Prop where
  normal : w.status = .normal
  typed : w.index.keyType = t.info.keyType
  formed : ∀ r ∈ w.logManager.log,
    RangeIndex.WellFormed K t.info.keyType r.record.recordUpdates
  truth : replay (logWrites t.info.keyType w) w.index.pairs = t.records

/-- The first `n` records of the log can be done without: what they write is written again
behind them, or the index has it as the last of them leaves it. -/
def Dispensable (w : RangeIndexWrapper K) (n : Nat) : Prop :=
  let erased := batchWrites K w.index.keyType ((w.logManager.log.take n).map (·.record))
  let rest := batchWrites K w.index.keyType ((w.logManager.log.drop n).map (·.record))
  ∀ write ∈ erased, last rest write.elem = none →
    (write.elem ∈ w.index.entries ↔ last erased write.elem = some true)

instance (w : RangeIndexWrapper K) (n : Nat) : Decidable (Dispensable w n) :=
  inferInstanceAs (Decidable (∀ write ∈ _, _ → (_ ↔ _)))

variable {w w' : RangeIndexWrapper K} {t : Table K}

theorem dispensable_zero (w : RangeIndexWrapper K) : Dispensable w 0 := by
  simp [Dispensable, batchWrites]

theorem Stores.new [PathHash] (im : IndexManager K) (lastMergedLogId : TxnId) (path : Str)
    (info : IndexInfo) :
    Stores (im.newWrapper lastMergedLogId path info.keyType) ⟨info, ∅⟩ where
  normal := rfl
  typed := rfl
  formed := fun _ none => by cases none
  truth := RangeIndex.pairs_empty _

theorem Stores.update (h : Stores w t) (txnId : TxnId) {l : RecordUpdateList}
    (formed : RangeIndex.WellFormed K t.info.keyType l.recordUpdates) :
    Stores (w.update false txnId l).2 { t with
      records := replay (RangeIndex.writes K t.info.keyType l.recordUpdates) t.records } := by
  have log : (w.update false txnId l).2.logManager.log = w.logManager.log ++ [⟨txnId, l⟩] := rfl
  refine ⟨h.normal, h.typed, fun r hr => ?_, ?_⟩
  · rcases List.mem_append.mp (log ▸ hr) with old | new
    · exact h.formed r old
    · rw [List.mem_singleton.mp new]
      exact formed
  · have index : (w.update false txnId l).2.index = w.index := rfl
    rw [logWrites, log, index, List.map_append, batchWrites_append, replay_append, ← h.truth]
    simp [batchWrites, logWrites]

/-- A merge puts a part of the log into the index, where it stays in the log. -/
theorem Stores.merge (h : Stores w t) (txnId : TxnId) :
    (w.merge txnId).1 = .OK ∧ Stores (w.merge txnId).2 t := by
  obtain ⟨ok, type, rel, log, normal⟩ := merge_spec h.normal h.typed h.formed txnId
  have part : batchWrites K t.info.keyType (w.logManager.scan txnId) <+:
      logWrites t.info.keyType w := by
    obtain ⟨rest, split⟩ : w.logManager.log.takeWhile (fun r => decide (r.txnId ≤ txnId)) <+:
        w.logManager.log := List.takeWhile_prefix _
    refine ⟨batchWrites K t.info.keyType (rest.map (·.record)), ?_⟩
    rw [LogManager.scan, ← batchWrites_append, ← List.map_append, split, logWrites]
  refine ⟨ok, normal, type, by rw [log]; exact h.formed, ?_⟩
  rw [rel, logWrites, log]
  exact ( replay_replay_of_prefix part _).trans h.truth

/-- A merge of the whole log leaves the index of the table. -/
theorem Stores.merge_whole (h : Stores w t) {txnId : TxnId}
    (covers : ∀ r ∈ w.logManager.log, r.txnId ≤ txnId) :
    (w.merge txnId).2.index.pairs = t.records := by
  obtain ⟨-, -, rel, -, -⟩ := merge_spec h.normal h.typed h.formed txnId
  have whole : w.logManager.scan txnId = w.logManager.log.map (·.record) := by
    rw [LogManager.scan, List.takeWhile_eq_self_iff.mpr fun r hr => by simpa using covers r hr]
  rw [rel, whole]
  exact h.truth

/-- Records that can be done without may be erased from the log. -/
theorem Stores.truncate (h : Stores w t) {n : Nat} (spare : Dispensable w n)
    (index : w'.index = w.index) (status : w'.status = w.status)
    (log : w'.logManager.log = w.logManager.log.drop n) : Stores w' t := by
  refine ⟨status.trans h.normal, by rw [index, h.typed], fun r hr => ?_, ?_⟩
  · exact h.formed r (List.mem_of_mem_drop (log ▸ hr))
  · have split : logWrites t.info.keyType w =
        batchWrites K t.info.keyType ((w.logManager.log.take n).map (·.record)) ++
          batchWrites K t.info.keyType ((w.logManager.log.drop n).map (·.record)) := by
      rw [← batchWrites_append, ← List.map_append, List.take_append_drop, logWrites]
    rw [← h.truth, split, logWrites, log, index]
    ext p
    rw [mem_replay, mem_replay, last_append]
    cases behind : last (batchWrites K t.info.keyType
        ((w.logManager.log.drop n).map (·.record))) p with
    | some present => rfl
    | none =>
      cases erased : last (batchWrites K t.info.keyType
          ((w.logManager.log.take n).map (·.record))) p with
      | none => rfl
      | some present =>
        obtain ⟨write, inside, rfl⟩ : p ∈ touched (batchWrites K t.info.keyType
            ((w.logManager.log.take n).map (·.record))) := by
          by_contra untouched
          rw [last_eq_none_iff.mpr untouched] at erased
          cases erased
        unfold Dispensable at spare
        rw [h.typed] at spare
        have stands := spare write inside behind
        rw [w.index.mem_entries, erased] at stands
        simpa using stands

/-! ## All indices and their tables -/

/-- What a server has for one path, and its table. -/
inductive Contents : Option IndexInfo → Option (RangeIndexWrapper K) → Option (Table K) →
    Prop where
  | absent : Contents none none none
  | table {w : RangeIndexWrapper K} {t : Table K} (holds : Stores w t) :
      Contents (some t.info) (some w) (some t)

structure Implements [PathHash] (im : IndexManager K) (S : Tables K) : Prop where
  sound : im.Coherent
  contents : ∀ path, Contents im.indexInfoMap[path]? im.rangeIndexMap[path]? (S path)

section Steps

variable [PathHash] {im : IndexManager K} {S : Tables K}

theorem Implements.start (basedir : Str) :
    Implements ({ basedir } : IndexManager K) fun _ => none where
  sound := .start basedir
  contents path := by simpa using Contents.absent

/-- A path is in both maps and has a table, or in none of them. -/
theorem Implements.cases (h : Implements im S) (path : Str) :
    (im.indexInfoMap[path]? = none ∧ im.rangeIndexMap[path]? = none ∧ S path = none) ∨
      ∃ w t, im.indexInfoMap[path]? = some t.info ∧ im.rangeIndexMap[path]? = some w ∧
        S path = some t ∧ Stores w t := by
  have here := h.contents path
  generalize infos : im.indexInfoMap[path]? = info? at here
  generalize wrappers : im.rangeIndexMap[path]? = w? at here
  generalize tables : S path = t? at here
  cases here with
  | absent => exact .inl ⟨rfl, rfl, rfl⟩
  | table holds => exact .inr ⟨_, _, rfl, rfl, rfl, holds⟩

theorem Implements.mem_iff (h : Implements im S) (path : Str) :
    path ∈ im.indexInfoMap ↔ (S path).isSome = true := by
  rw [mem_iff_exists]
  rcases h.cases path with ⟨info, -, table⟩ | ⟨w, t, info, -, table, -⟩
  · simp [info, table]
  · simp [info, table]

/-- One path gets new contents. -/
theorem Implements.set (h : Implements im S) {path : Str} {info? : Option IndexInfo}
    {w? : Option (RangeIndexWrapper K)} {t? : Option (Table K)} (new : Contents info? w? t?)
    {im' : IndexManager K} (sound : im'.Coherent)
    (infos : ∀ p, im'.indexInfoMap[p]? = if path = p then info? else im.indexInfoMap[p]?)
    (wrappers : ∀ p, im'.rangeIndexMap[p]? = if path = p then w? else im.rangeIndexMap[p]?) :
    Implements im' (Function.update S path t?) := by
  refine ⟨sound, fun p => ?_⟩
  rw [infos, wrappers]
  by_cases e : path = p
  · subst e
    simpa using new
  · simpa [e, Function.update_of_ne (Ne.symm e)] using h.contents p

/-- One index gets another wrapper, and its table other records. -/
theorem Implements.replace (h : Implements im S) {path : Str} {w w' : RangeIndexWrapper K}
    {t t' : Table K} (info : im.indexInfoMap[path]? = some t.info)
    (found : im.rangeIndexMap[path]? = some w) (same : SameIndex w w')
    (holds : Stores w' t') (kept : t'.info = t.info) :
    Implements { im with rangeIndexMap := im.rangeIndexMap.insert path w' }
      (Function.update S path (some t')) := by
  refine h.set (.table holds) (h.sound.replace found same) (fun p => ?_)
    fun p => getElem?_insert _ _ _ _
  by_cases e : path = p
  · rw [if_pos e, ← e, info, kept]
  · rw [if_neg e]

/-- One index gets another wrapper, which nobody sees. -/
theorem Implements.unseen (h : Implements im S) {path : Str} {w w' : RangeIndexWrapper K}
    {t : Table K} (info : im.indexInfoMap[path]? = some t.info)
    (found : im.rangeIndexMap[path]? = some w) (table : S path = some t)
    (same : SameIndex w w') (holds : Stores w' t) :
    Implements { im with rangeIndexMap := im.rangeIndexMap.insert path w' } S := by
  have next := h.replace info found same holds rfl
  rwa [← table, Function.update_eq_self] at next

theorem Implements.mergeLogToIndex (h : Implements im S) (path : Str) (txnId : TxnId) :
    (im.mergeLogToIndex path txnId).1 = S.merge path ∧
      Implements (im.mergeLogToIndex path txnId).2 S := by
  rcases h.cases path with ⟨-, missing, none⟩ | ⟨w, t, info, found, table, holds⟩
  · simp only [IndexManager.mergeLogToIndex, missing, Tables.merge, none]
    exact ⟨rfl, h⟩
  · obtain ⟨ok, holds'⟩ := holds.merge txnId
    simp only [IndexManager.mergeLogToIndex, found, Tables.merge, table, ok]
    exact ⟨rfl, h.unseen info found table (sameIndex_merge w txnId) holds'⟩

theorem Implements.create (h : Implements im S) (lastMergedLogId : TxnId) (root name : Str)
    (indexType keyType : Int) :
    (im.create lastMergedLogId root name indexType keyType).1 =
        (S.create root name indexType keyType).1 ∧
      Implements (im.create lastMergedLogId root name indexType keyType).2
        (S.create root name indexType keyType).2 := by
  have sound := h.sound.create lastMergedLogId root name indexType keyType
  unfold IndexManager.create at sound ⊢
  unfold Tables.create
  dsimp only at sound ⊢
  by_cases valid : root.isEmpty ∨ name.isEmpty
  · rw [if_pos valid, if_pos valid]
    exact ⟨rfl, h⟩
  · rw [if_neg valid] at sound
    rw [if_neg valid, if_neg valid]
    by_cases old : root ∈ im.indexInfoMap
    · rw [if_pos old, if_pos ((h.mem_iff root).mp old)]
      exact ⟨rfl, h⟩
    · rw [if_neg old] at sound
      rw [if_neg old, if_neg fun is => old ((h.mem_iff root).mpr is)]
      by_cases tree : indexType = IndexInfo.BTREE
      · rw [if_pos tree] at sound
        rw [if_pos tree, if_pos tree]
        by_cases unknown : (!KeyTypes.known K keyType) = true
        · rw [if_pos unknown, if_pos unknown]
          exact ⟨rfl, h⟩
        · rw [if_neg unknown] at sound
          rw [if_neg unknown, if_neg unknown]
          have new : Contents (some ⟨root, name, indexType, keyType⟩)
              (some (im.newWrapper lastMergedLogId root keyType)) (some ⟨⟨root, name, indexType,
                keyType⟩, ∅⟩) :=
            .table (.new im lastMergedLogId root ⟨root, name, indexType, keyType⟩)
          exact ⟨rfl, h.set new sound (fun p => getElem?_insert _ _ _ _)
            fun p => getElem?_insert _ _ _ _⟩
      · rw [if_neg tree, if_neg tree]
        by_cases hash : indexType = IndexInfo.HASH
        · rw [if_pos hash, if_pos hash]
          exact ⟨rfl, h⟩
        · rw [if_neg hash, if_neg hash]
          exact ⟨rfl, h⟩

theorem Implements.destroy (h : Implements im S) (root name : Str) :
    (im.destroy root name).1 = (S.destroy root name).1 ∧
      Implements (im.destroy root name).2 (S.destroy root name).2 := by
  have sound := h.sound.destroy root name
  rw [h.sound.destroy_eq] at sound ⊢
  unfold Tables.destroy
  by_cases valid : root.isEmpty ∨ name.isEmpty
  · rw [if_pos valid, if_pos valid]
    exact ⟨rfl, h⟩
  · rw [if_neg valid] at sound
    rw [if_neg valid, if_neg valid]
    by_cases old : root ∈ im.indexInfoMap
    · rw [if_pos old] at sound
      rw [if_pos old, if_pos ((h.mem_iff root).mp old)]
      exact ⟨rfl, h.set .absent sound (fun p => getElem?_erase _ _ _)
        fun p => getElem?_erase _ _ _⟩
    · rw [if_neg old, if_neg fun is => old ((h.mem_iff root).mpr is)]
      exact ⟨rfl, h⟩

/-! ## Updates, searches and flushes -/

/-- The batches of an update are well formed for the indices they are for. -/
def FormedFor (im : IndexManager K) (lists : List RecordUpdateList) : Prop :=
  ∀ l ∈ lists, ∀ info ∈ im.indexInfoMap[l.rootPath]?,
    RangeIndex.WellFormed K info.keyType l.recordUpdates

/-- A read under the id covers the log of the index. -/
def CoversLog (im : IndexManager K) (txnId : TxnId) (path : Str) : Prop :=
  ∀ w ∈ im.rangeIndexMap[path]?, ∀ r ∈ w.logManager.log, r.txnId ≤ txnId

theorem Implements.updateAll (h : Implements im S) (txnId : TxnId)
    {lists : List RecordUpdateList} (formed : im.FormedFor lists) :
    ∃ im', im.updateAll txnId lists = .ok ((S.updateAll lists).1, im') ∧
      Implements im' (S.updateAll lists).2 := by
  induction lists generalizing im S with
  | nil => exact ⟨im, rfl, h⟩
  | cons l lists ih =>
    rw [h.sound.updateAll_cons]
    rcases h.cases l.rootPath with ⟨info, missing, none⟩ | ⟨w, t, info, found, table, holds⟩
    · have nothing : im.logged txnId l = im := by simp only [IndexManager.logged, missing]
      rw [if_neg ((not_mem_iff _ _).mpr info), nothing]
      simp only [Tables.updateAll, none]
      exact ⟨im, rfl, h⟩
    · rw [if_pos ((mem_iff_exists _ _).mpr ⟨_, info⟩)]
      simp only [Tables.updateAll, table]
      refine ih ?_ fun l' hl' info' => ?_
      · have grown := holds.update txnId (formed l (by simp) _ info)
        have next := h.replace info found (sameIndex_update w false txnId l) grown rfl
        simpa only [IndexManager.logged, found] using next
      · rw [indexInfoMap_logged]
        exact formed l' (by simp [hl']) info'

omit [PathHash] in
/-- A search that covers the log lists what the table lists. -/
theorem Stores.lists {txnId : TxnId} (h : Stores w t) (covers : ∀ r ∈ w.logManager.log,
    r.txnId ≤ txnId) (cq : RangeQuery) :
    Tables.Lists t cq ((w.merge txnId).2.index.search cq).2 := by
  have records := h.merge_whole covers
  have type : (w.merge txnId).2.index.keyType = t.info.keyType := (h.merge txnId).2.typed
  generalize (w.merge txnId).2.index = index at records type
  have bounds : (RangeIndex.empty t.info.keyType : RangeIndex K).bounds cq = index.bounds cq := by
    simp only [RangeIndex.bounds, RangeIndex.empty, type]
  unfold Tables.Lists RangeIndex.Matches RangeIndex.search
  rw [bounds]
  cases index.bounds cq with
  | none => exact ⟨[], rfl, .nil, by simp, by simp⟩
  | some range =>
    obtain ⟨lower, upper⟩ := range
    obtain ⟨groups, out, ascending, distinct, exact⟩ :=
      index.searchRange_spec lower cq.lowerOpen upper cq.upperOpen
    refine ⟨groups, out, ascending, distinct, fun k o => ?_⟩
    rw [exact, records]
    simp

omit [PathHash] in
/-- Merging one index leaves all logs as they are. -/
theorem CoversLog.mergeLogToIndex {txnId : TxnId} {path : Str} (h : im.CoversLog txnId path)
    (indexPath : Str) (u : TxnId) : (im.mergeLogToIndex indexPath u).2.CoversLog txnId path := by
  intro w found r hr
  unfold IndexManager.mergeLogToIndex at found
  split at found
  · exact h w found r hr
  · next w' there =>
    simp only [getElem?_insert] at found
    split at found
    · next same =>
      cases found
      rw [RangeIndexWrapper.logManager_merge] at hr
      exact h w' (same ▸ there) r hr
    · exact h w found r hr

theorem Implements.searchAll (h : Implements im S) {txnId : TxnId} (results : List ObjectId)
    {cqs : List RangeQuery} (covers : ∀ cq ∈ cqs, im.CoversLog txnId cq.indexPath) :
    ∃ status out im', im.searchAll txnId results cqs = .ok (status, results ++ out, im') ∧
      S.Finds cqs status out ∧ Implements im' S := by
  induction cqs generalizing im results with
  | nil => exact ⟨.OK, [], im, by rw [List.append_nil]; rfl, ⟨rfl, rfl⟩, h⟩
  | cons cq cqs ih =>
    rcases h.cases cq.indexPath with ⟨info, -, none⟩ | ⟨w, t, info, found, table, holds⟩
    · refine ⟨noIndex, [], im, ?_, ?_, h⟩
      · rw [List.append_nil]
        simp only [IndexManager.searchAll, info, noIndex]
      · simp [Tables.Finds, none]
    · have now := covers cq (by simp) w found
      have listed := holds.lists now cq
      obtain ⟨status, out, im', searched, finds, implements⟩ :=
        ih (h.mergeLogToIndex cq.indexPath txnId).2
          (results ++ ((w.merge txnId).2.index.search cq).2)
          fun cq' hcq' => (covers cq' (by simp [hcq'])).mergeLogToIndex cq.indexPath txnId
      refine ⟨status, ((w.merge txnId).2.index.search cq).2 ++ out, im', ?_, ?_, implements⟩
      · rw [h.sound.searchAll_cons txnId results cq cqs found, (holds.merge txnId).1]
        simpa [List.append_assoc] using searched
      · simp only [Tables.Finds, table]
        exact ⟨_, out, rfl, listed, finds⟩

theorem Implements.info (h : Implements im S) {txnId : TxnId} {path : Str}
    (covers : im.CoversLog txnId path) :
    ∃ im', im.info txnId path = .ok ((S.info path).1, (S.info path).2, im') ∧
      Implements im' S := by
  rcases h.cases path with ⟨info, -, none⟩ | ⟨w, t, info, found, table, holds⟩
  · refine ⟨im, ?_, h⟩
    simp only [IndexManager.info, info, Tables.info, none, noIndex]
  · refine ⟨_, ?_, (h.mergeLogToIndex path txnId).2⟩
    rw [h.sound.info_eq txnId info found, RangeIndex.size_eq_ncard,
      holds.merge_whole (covers w found)]
    simp only [Tables.info, table]

section Flush

variable [ThriftSerialize RecordUpdateList] [ThriftSerialize LogBuffer]

theorem Implements.flushDirty (h : Implements im S) {bytes : Nat} (positive : 0 < bytes)
    {opened : Bool} {path : Str} (spare : opened = true → ∀ w ∈ im.rangeIndexMap[path]?,
      Dispensable w (truncated w bytes)) :
    ∃ im', im.flushDirty bytes opened path = .ok im' ∧ Implements im' S := by
  unfold IndexManager.flushDirty
  rcases h.cases path with ⟨-, missing, -⟩ | ⟨w, t, info, found, table, holds⟩
  · rw [missing]
    exact ⟨im, rfl, h⟩
  · simp only [found]
    split
    · obtain ⟨status, w', text, flushed, index, base, normal, log⟩ :=
        flushLog_spec w positive opened
      rw [flushed]
      refine ⟨_, rfl, h.unseen info found table ⟨by rw [index], base⟩ ?_⟩
      refine holds.truncate ?_ index normal log
      cases opened with
      | true => exact spare rfl w found
      | false => exact dispensable_zero w
    · exact ⟨im, rfl, h⟩

/-- What the callers and the flushing thread have to meet: batches are well formed for their
index, a read covers the log, and what a flush erases can be done without. -/
def Meant (bytes : Nat) (im : IndexManager K) : Command → Prop
  | .update updates => im.FormedFor updates.updates
  | .search query => ∀ cq ∈ query.rangeQueries, im.CoversLog query.txnId cq.indexPath
  | .info txnId path => im.CoversLog txnId path
  | .flush opened path => opened = true → ∀ w ∈ im.rangeIndexMap[path]?,
      Dispensable w (truncated w bytes)
  | _ => True

instance (bytes : Nat) (im : IndexManager K) : DecidablePred (Meant bytes im)
  | .create _ _ _ _ _ => .isTrue trivial
  | .destroy _ _ => .isTrue trivial
  | .update updates =>
    inferInstanceAs (Decidable (∀ l ∈ updates.updates, ∀ info ∈ im.indexInfoMap[l.rootPath]?,
      RangeIndex.WellFormed K info.keyType l.recordUpdates))
  | .search query =>
    inferInstanceAs (Decidable (∀ cq ∈ query.rangeQueries, ∀ w ∈ im.rangeIndexMap[cq.indexPath]?,
      ∀ r ∈ w.logManager.log, r.txnId ≤ query.txnId))
  | .info txnId path =>
    inferInstanceAs (Decidable (∀ w ∈ im.rangeIndexMap[path]?, ∀ r ∈ w.logManager.log,
      r.txnId ≤ txnId))
  | .merge _ _ => .isTrue trivial
  | .flush opened path =>
    inferInstanceAs (Decidable (opened = true → ∀ w ∈ im.rangeIndexMap[path]?,
      Dispensable w (truncated w bytes)))

theorem step_simulates {bytes : Nat} (positive : 0 < bytes) :
    Simulation.Simulates (perform bytes false) (Meant bytes) Tables.Serves
      (Implements : IndexManager K → Tables K → Prop) := by
  intro im S request h meant
  cases request with
  | create lastMergedLogId root name indexType keyType =>
    obtain ⟨status, next⟩ := h.create lastMergedLogId root name indexType keyType
    exact ⟨_, _, _, rfl, status ▸ .create, next⟩
  | destroy root name =>
    obtain ⟨status, next⟩ := h.destroy root name
    exact ⟨_, _, _, rfl, status ▸ .destroy, next⟩
  | update updates =>
    obtain ⟨im', updated, next⟩ := h.updateAll updates.txnId meant
    refine ⟨_, im', _, ?_, .update, next⟩
    simp only [IndexManager.perform, update_deferred, updated]
    rfl
  | search query =>
    obtain ⟨status, out, im', searched, finds, next⟩ := h.searchAll [] meant
    refine ⟨_, im', _, ?_, .search finds, next⟩
    simp only [IndexManager.perform, IndexManager.search, searched]
    rfl
  | info txnId path =>
    obtain ⟨im', informed, next⟩ := h.info meant
    refine ⟨_, im', _, ?_, .info, next⟩
    simp only [IndexManager.perform, informed]
    rfl
  | merge txnId path =>
    obtain ⟨status, next⟩ := h.mergeLogToIndex path txnId
    exact ⟨_, _, _, rfl, status ▸ .merge, next⟩
  | flush opened path =>
    obtain ⟨im', flushed, next⟩ := h.flushDirty positive meant
    refine ⟨_, im', _, ?_, .flush, next⟩
    simp only [IndexManager.perform, flushed]
    rfl

end Flush

end Steps

section Example

open RangeIndexWrapper (insertBatch everything)

attribute [local instance] uint64Keys Md5.pathHash BinaryProtocol.recordUpdateList
  BinaryProtocol.logBuffer

/-- An index that is created, filled, searched, flushed and destroyed, and then looked for. -/
def oneLife : List Command :=
  [.create 99 "/foo/.vsfs/red/0".toList "red".toList IndexInfo.BTREE 0,
    .update ⟨0, [insertBatch "10" "7"]⟩, .search ⟨0, [], [everything]⟩,
    .flush true "/foo/.vsfs/red/0".toList, .destroy "/foo/.vsfs/red/0".toList "red".toList,
    .search ⟨0, [], [everything]⟩]

end Example

end IndexManager

end Vsfs.Indexd

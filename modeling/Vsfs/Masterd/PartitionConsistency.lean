import Vsfs.Lib.Transition
import Vsfs.Masterd.PartitionManager
import Vsfs.Rpc.BinaryProtocol

/-!
# Partitions in memory and in the store

The header of `PartitionManager` promises that the content in RAM is consistent with the
store. The operations change memory first and do not take the change back when the write
fails; `remove_partition` moreover drops the status of its write and never releases the
reference it takes.

## Main results

* `partitions_consistent_iff` : in a run, every call keeps memory and store equal, answers
  truthfully and releases what it took exactly when no call runs into one of these.
-/

namespace Vsfs.Masterd.PartitionManager

open Std FiniteMap Transition

/-! ## Rings as they are written -/

/-- The separators are `int64_t`. -/
def Ranged (pm : PartitionMap) : Prop := ∀ sep ∈ pm, (BitVec.ofInt 64 sep).toInt = sep

theorem ranged_insert {pm : PartitionMap} (h : Ranged pm) (sep : HashValueType) (path : Str) :
    Ranged (pm.insert sep.toInt path) := by
  intro s hs
  rcases ExtTreeMap.mem_insert.mp hs with same | old
  · rw [← (Std.compare_eq_iff_eq.mp same), BitVec.ofInt_toInt]
  · exact h s old

theorem ranged_ofRing (ring : IndexConsistentHashRing) : Ranged (ofRing ring) := by
  have all (l : List IndexPartition) (pm : PartitionMap) (h : Ranged pm) :
      Ranged (l.foldl (fun pm p => pm.insert p.hashSep.toInt p.path) pm) := by
    induction l generalizing pm with
    | nil => exact h
    | cons p l ih => exact ih _ (ranged_insert h p.hashSep p.path)
  exact all ring.partitions ∅ (by simp [Ranged])

/-- A ring is read back as it was written. -/
theorem ofRing_toRing {pm : PartitionMap} (h : Ranged pm) : ofRing (toRing pm) = pm := by
  rw [ofRing, toRing, List.foldl_map]
  calc pm.toList.foldl (fun acc e => acc.insert (BitVec.ofInt 64 e.1).toInt e.2) ∅
      = pm.toList.foldl (fun acc e => acc.insert e.1 e.2) ∅ := by
        refine List.foldl_ext _ _ _ fun acc e he => ?_
        have found := ExtTreeMap.mem_toList_iff_getElem?_eq_some.mp he
        rw [h e.1 ((mem_iff_exists _ _).mpr ⟨e.2, found⟩)]
    _ = pm := foldl_insert_toList pm

/-! ## Memory and store -/

/-- The ring that memory has for an index. -/
def ring (pm : PartitionManager) (path : Str) : Option PartitionMap :=
  (pm.partitionMapByIndexPath[path]?).map (·.partitions)

section Store

variable [Thrift IndexConsistentHashRing]

/-- The ring that the record of an index decodes to. -/
def stored (pm : PartitionManager) (path : Str) : Option PartitionMap :=
  pm.store[path]?.bind stringToPartitionMap

/-- Memory and store have the same rings. -/
def Consistent (pm : PartitionManager) : Prop := ∀ path, pm.ring path = pm.stored path

variable {pm : PartitionManager} {path : Str}

theorem Consistent.ranged (h : Consistent pm) {partitions : PartitionMap}
    (found : pm.ring path = some partitions) : Ranged partitions := by
  rw [h path] at found
  obtain ⟨buffer, -, decoded⟩ := Option.bind_eq_some_iff.mp found
  obtain ⟨ring, -, rfl⟩ := Option.map_eq_some_iff.mp decoded
  exact ranged_ofRing ring

/-- The ring can be serialized and the store takes it. -/
def Written (io : Status) (partitions : PartitionMap) : Prop :=
  io.ok = true ∧ (ThriftSerialize.serialize (toRing partitions)).isEmpty = false

/-- A write either puts the ring into the store or fails and changes nothing. -/
theorem writePartitionMap_spec {partition : Partition} (io : Status)
    (found : pm.partitionMapByIndexPath[path]? = some partition) :
    ∃ status store, pm.writePartitionMap io path = .ok (status, { pm with store }) ∧
      ((Written io partition.partitions ∧ status.ok = true ∧
          store = pm.store.insert path (ThriftSerialize.serialize (toRing partition.partitions))) ∨
        (¬ Written io partition.partitions ∧ status.ok = false ∧ store = pm.store)) := by
  unfold writePartitionMap
  simp only [found]
  cases empty : (ThriftSerialize.serialize (toRing partition.partitions)).isEmpty with
  | true => exact ⟨_, pm.store, rfl, .inr ⟨by simp [Written, empty], rfl, rfl⟩⟩
  | false =>
    cases ok : io.ok with
    | true =>
      refine ⟨io, _, rfl, .inl ⟨⟨ok, empty⟩, ok, ?_⟩⟩
      simp [LevelDBStore.put, ok]
    | false =>
      refine ⟨io, _, rfl, .inr ⟨by simp [Written, ok], ok, ?_⟩⟩
      simp [LevelDBStore.put, ok]

/-! ## Calls -/

/-- A call, with how its write to the store ends, and what it leaves uninitialised or gets
from the ring. -/
inductive Request where
  | addIndex (io : Status) (refcount : BitVec 64) (path : Str)
  | removeIndex (io : Status) (path : Str)
  | addPartition (io : Status) (path : Str) (sep : HashValueType)
  | removePartition (io : Status) (missing : Failure) (path : Str) (sep : HashValueType)

def serve (pm : PartitionManager) : Request → Cpp (Status × PartitionManager)
  | .addIndex io refcount path => pm.addIndex io refcount path
  | .removeIndex io path => .ok (pm.removeIndex io path)
  | .addPartition io path sep => pm.addPartition io path sep
  | .removePartition io missing path sep => pm.removePartition io missing path sep

def step (pm : PartitionManager) (r : Request) : Cpp PartitionManager := do
  return (← pm.serve r).2

/-- What a call is to make of the rings, unless it is refused. -/
def change (rings : Str → Option PartitionMap) : Request → Option (Str → Option PartitionMap)
  | .addIndex _ _ path =>
    match rings path with
    | some _ => none
    | none => some (Function.update rings path
        (some ((∅ : PartitionMap).insert 0 (partitionName path 0))))
  | .removeIndex _ path => some (Function.update rings path none)
  | .addPartition _ path sep =>
    match rings path with
    | none => none
    | some partitions =>
      if sep.toInt ∈ partitions then none
      else some (Function.update rings path
        (some (partitions.insert sep.toInt (partitionName path sep))))
  | .removePartition _ _ path sep =>
    match rings path with
    | none => none
    | some partitions =>
      if sep.toInt ∈ partitions then
        some (Function.update rings path (some (partitions.erase sep.toInt)))
      else none

/-- The call returns and leaves memory and store equal, it returns a success when its change
was made and a failure when nothing was changed, and it leaves the reference counts. -/
def Keeps (pm : PartitionManager) (r : Request) : Prop :=
  ∃ status pm', pm.serve r = .ok (status, pm') ∧ Consistent pm' ∧
    (status.ok = true ∧ change pm.ring r = some pm'.ring ∨
      status.ok = false ∧ pm'.ring = pm.ring) ∧
    ∀ (path : Str) (p p' : Partition), pm.partitionMapByIndexPath[path]? = some p →
      pm'.partitionMapByIndexPath[path]? = some p' → p'.refcount = p.refcount

/-- The call does not run into a write that fails after memory was changed, and is not a
`remove_partition` that takes a reference. -/
def Safe (pm : PartitionManager) : Request → Prop
  | .addIndex io _ path => path ∈ pm.partitionMapByIndexPath ∨
      Written io ((∅ : PartitionMap).insert 0 (partitionName path 0))
  | .removeIndex _ _ => True
  | .addPartition io path sep => ∀ partitions, pm.ring path = some partitions →
      sep.toInt ∈ partitions ∨
        Written io (partitions.insert sep.toInt (partitionName path sep))
  | .removePartition _ _ path _ => path ∉ pm.partitionMapByIndexPath

/-! ## One call -/

omit [Thrift IndexConsistentHashRing] in
theorem ring_of_insert {pm' : PartitionManager} {p : Partition}
    (maps : pm'.partitionMapByIndexPath = pm.partitionMapByIndexPath.insert path p) :
    pm'.ring = Function.update pm.ring path (some p.partitions) := by
  funext q
  by_cases same : path = q
  · subst same
    simp [ring, maps]
  · simp [ring, maps, same, Ne.symm same]

omit [Thrift IndexConsistentHashRing] in
theorem ring_eq_none (new : path ∉ pm.partitionMapByIndexPath) : pm.ring path = none := by
  simp [ring, (not_mem_iff _ _).mp new]

variable [LawfulThrift IndexConsistentHashRing]

/-- A ring is put into memory and written. When the write fails, memory and store are equal
only if the ring was there before. -/
theorem Consistent.insert_write (h : Consistent pm) (io : Status) (path : Str) {p : Partition}
    (ranged : Ranged p.partitions) : ∃ status pm',
    { pm with partitionMapByIndexPath :=
        pm.partitionMapByIndexPath.insert path p }.writePartitionMap io path = .ok (status, pm') ∧
      pm'.partitionMapByIndexPath = pm.partitionMapByIndexPath.insert path p ∧
      (Written io p.partitions ∧ status.ok = true ∧ Consistent pm' ∨
        ¬ Written io p.partitions ∧ status.ok = false ∧
          (Consistent pm' → pm.ring path = some p.partitions)) := by
  let pm₁ := { pm with partitionMapByIndexPath := pm.partitionMapByIndexPath.insert path p }
  have found : pm₁.partitionMapByIndexPath[path]? = some p := by simp [pm₁]
  obtain ⟨status, store, out, ⟨written, ok, rfl⟩ | ⟨failed, bad, rfl⟩⟩ :=
    writePartitionMap_spec io found
  · refine ⟨status, _, out, rfl, .inl ⟨written, ok, fun q => ?_⟩⟩
    rw [ring_of_insert rfl]
    by_cases same : path = q
    · subst same
      simp [stored, stringToPartitionMap, ofRing_toRing ranged]
    · have other := h q
      simpa [stored, same, Ne.symm same] using other
  · refine ⟨status, _, out, rfl, .inr ⟨failed, bad, fun consistent => ?_⟩⟩
    have here := consistent path
    rw [ring_of_insert rfl, Function.update_self] at here
    exact (h path).trans here.symm

omit [LawfulThrift IndexConsistentHashRing] in
/-- A call that is refused keeps everything. -/
theorem Consistent.keeps_of_refused (h : Consistent pm) {r : Request} {status : Status}
    (out : pm.serve r = .ok (status, pm)) (bad : status.ok = false) : Keeps pm r := by
  refine ⟨status, pm, out, h, .inr ⟨bad, rfl⟩, fun q p p' hp hp' => ?_⟩
  cases hp.symm.trans hp'
  rfl

theorem Consistent.keeps_addIndex_iff (h : Consistent pm) (io : Status) (refcount : BitVec 64)
    (path : Str) :
    Keeps pm (.addIndex io refcount path) ↔ Safe pm (.addIndex io refcount path) := by
  by_cases old : path ∈ pm.partitionMapByIndexPath
  · exact iff_of_true (h.keeps_of_refused (by simp only [serve, addIndex, old, if_true]; rfl) rfl)
      (.inl old)
  have ranged : Ranged ((∅ : PartitionMap).insert 0 (partitionName path 0)) :=
    ranged_insert (by simp [Ranged]) 0 _
  obtain ⟨status, pm', out, maps, ended⟩ := h.insert_write io path
    (p := ⟨refcount, (∅ : PartitionMap).insert 0 (partitionName path 0)⟩) ranged
  have ran : pm.serve (.addIndex io refcount path) = .ok (status, pm') := by
    simp only [serve, addIndex, old, if_false]
    exact out
  have absent := ring_eq_none old
  rcases ended with ⟨written, ok, consistent⟩ | ⟨failed, -, was⟩
  · refine iff_of_true ⟨status, pm', ran, consistent, .inl ⟨ok, ?_⟩, ?_⟩ (.inr written)
    · rw [ring_of_insert maps]
      simp [change, absent]
    · intro q p p' hp hp'
      have other : path ≠ q := by
        rintro rfl
        exact old ((mem_iff_exists _ _).mpr ⟨p, hp⟩)
      rw [maps, getElem?_insert, if_neg other, hp] at hp'
      cases hp'
      rfl
  · refine iff_of_false ?_ (fun safe => safe.elim old failed)
    rintro ⟨_, _, ran', consistent, -, -⟩
    cases ran.symm.trans ran'
    rw [absent] at was
    cases was consistent

omit [LawfulThrift IndexConsistentHashRing] in
theorem Consistent.keeps_removeIndex (h : Consistent pm) (io : Status) (path : Str) :
    Keeps pm (.removeIndex io path) := by
  cases ok : io.ok with
  | false =>
    exact h.keeps_of_refused (by simp [serve, removeIndex, LevelDBStore.remove, ok]) ok
  | true =>
    have rings (q : Str) : ring ⟨pm.partitionMapByIndexPath.erase path, pm.store.erase path⟩ q =
        Function.update pm.ring path none q := by
      by_cases same : path = q
      · subst same
        simp [ring]
      · simp [ring, same, Ne.symm same]
    refine ⟨.OK, ⟨pm.partitionMapByIndexPath.erase path, pm.store.erase path⟩, ?_, fun q => ?_,
      .inl ⟨rfl, ?_⟩, ?_⟩
    · simp [serve, removeIndex, LevelDBStore.remove, ok]
    · rw [rings q]
      by_cases same : path = q
      · subst same
        simp [stored]
      · have other := h q
        simpa [stored, same, Ne.symm same] using other
    · rw [change, funext rings]
    · intro q p p' hp hp'
      rw [getElem?_erase] at hp'
      split at hp'
      · cases hp'
      · cases hp.symm.trans hp'
        rfl

omit [Thrift IndexConsistentHashRing] [LawfulThrift IndexConsistentHashRing] in
/-- Only the entry of one index changes, and its count does not. -/
theorem refcount_of_insert {pm' : PartitionManager} {old new : Partition}
    (maps : pm'.partitionMapByIndexPath = pm.partitionMapByIndexPath.insert path new)
    (found : pm.partitionMapByIndexPath[path]? = some old) (count : new.refcount = old.refcount)
    (q : Str) (p p' : Partition) (hp : pm.partitionMapByIndexPath[q]? = some p)
    (hp' : pm'.partitionMapByIndexPath[q]? = some p') : p'.refcount = p.refcount := by
  rw [maps, getElem?_insert] at hp'
  split at hp'
  · rename_i same
    subst same
    cases hp'
    cases found.symm.trans hp
    exact count
  · cases hp.symm.trans hp'
    rfl

omit [Thrift IndexConsistentHashRing] [LawfulThrift IndexConsistentHashRing] in
/-- To take a reference and release it is to do nothing. -/
theorem insert_released {old : Partition} (found : pm.partitionMapByIndexPath[path]? = some old) :
    pm.partitionMapByIndexPath.insert path { old with refcount := old.refcount + 1 - 1 } =
      pm.partitionMapByIndexPath := by
  refine ExtTreeMap.ext_getElem? fun q => ?_
  rw [getElem?_insert]
  split
  · rename_i same
    rw [← same, found, BitVec.add_sub_cancel]
  · rfl

theorem Consistent.keeps_addPartition_iff (h : Consistent pm) (io : Status) (path : Str)
    (sep : HashValueType) :
    Keeps pm (.addPartition io path sep) ↔ Safe pm (.addPartition io path sep) := by
  cases found : pm.partitionMapByIndexPath[path]? with
  | none =>
    have out : pm.serve (.addPartition io path sep) =
        .ok (⟨-ENOENT, "The index does not existed."⟩, pm) := by
      simp only [serve, addPartition, found]
    exact iff_of_true (h.keeps_of_refused out (by decide)) (by simp [Safe, ring, found])
  | some old =>
    have here : pm.ring path = some old.partitions := by simp [ring, found]
    by_cases used : sep.toInt ∈ old.partitions
    · have out : pm.serve (.addPartition io path sep) =
          .ok (⟨-1, "The separator is already existed."⟩, pm) := by
        simp only [serve, addPartition, found, used, if_true, insert_released found]
      exact iff_of_true (h.keeps_of_refused out (by decide)) (by simp [Safe, here, used])
    have ranged := ranged_insert (h.ranged here) sep (partitionName path sep)
    obtain ⟨status, pm', out, maps, ended⟩ := h.insert_write io path
      (p := ⟨old.refcount + 1 - 1, old.partitions.insert sep.toInt (partitionName path sep)⟩) ranged
    have ran : pm.serve (.addPartition io path sep) = .ok (status, pm') := by
      simp only [serve, addPartition, found, used, if_false]
      exact out
    rcases ended with ⟨written, ok, consistent⟩ | ⟨failed, -, was⟩
    · refine iff_of_true ⟨status, pm', ran, consistent, .inl ⟨ok, ?_⟩, ?_⟩ ?_
      · rw [ring_of_insert maps]
        simp [change, here, used]
      · exact refcount_of_insert maps found (BitVec.add_sub_cancel _ _)
      · intro partitions same
        cases here.symm.trans same
        exact .inr written
    · refine iff_of_false ?_ fun safe => (safe _ here).elim used failed
      rintro ⟨_, _, ran', consistent, -, -⟩
      cases ran.symm.trans ran'
      -- The new separator is in the ring only after the call.
      have same := Option.some.inj (here.symm.trans (was consistent))
      refine used ?_
      rw [same]
      exact ExtTreeMap.mem_insert_self

omit [LawfulThrift IndexConsistentHashRing] in
/-- A `remove_partition` that finds its index keeps the reference it takes. -/
theorem removePartition_leaks {old : Partition} (io : Status) (missing : Failure)
    (sep : HashValueType) (found : pm.partitionMapByIndexPath[path]? = some old) :
    ∃ status pm' p', pm.serve (.removePartition io missing path sep) = .ok (status, pm') ∧
      pm'.partitionMapByIndexPath[path]? = some p' ∧ p'.refcount = old.refcount + 1 := by
  by_cases used : sep.toInt ∈ old.partitions
  · let p' : Partition := ⟨old.refcount + 1, old.partitions.erase sep.toInt⟩
    have there : ({ pm with partitionMapByIndexPath :=
        pm.partitionMapByIndexPath.insert path p' }).partitionMapByIndexPath[path]? = some p' := by
      simp
    obtain ⟨status, store, out, -⟩ := writePartitionMap_spec io there
    refine ⟨.OK, ⟨pm.partitionMapByIndexPath.insert path p', store⟩, p', ?_, there, rfl⟩
    simp only [serve, removePartition, found, used, not_true, if_false]
    rw [out]
    rfl
  · let p' : Partition := ⟨old.refcount + 1, old.partitions⟩
    refine ⟨missing.1, { pm with partitionMapByIndexPath :=
      pm.partitionMapByIndexPath.insert path p' }, p', ?_, by simp, rfl⟩
    simp only [serve, removePartition, found, used, not_false_iff, if_true]
    rfl

omit [LawfulThrift IndexConsistentHashRing] in
theorem Consistent.keeps_removePartition_iff (h : Consistent pm) (io : Status) (missing : Failure)
    (path : Str) (sep : HashValueType) :
    Keeps pm (.removePartition io missing path sep) ↔
      Safe pm (.removePartition io missing path sep) := by
  cases found : pm.partitionMapByIndexPath[path]? with
  | none =>
    have out : pm.serve (.removePartition io missing path sep) =
        .ok (⟨-ENOENT, "The index does not existed."⟩, pm) := by
      simp only [serve, removePartition, found]
    exact iff_of_true (h.keeps_of_refused out (by decide)) ((not_mem_iff _ _).mpr found)
  | some old =>
    refine iff_of_false ?_ fun safe => safe ((mem_iff_exists _ _).mpr ⟨old, found⟩)
    rintro ⟨_, _, ran, -, -, counts⟩
    obtain ⟨_, _, p', ran', there, leaked⟩ := removePartition_leaks io missing sep found
    cases ran'.symm.trans ran
    have same := (counts path old p' found there).symm.trans leaked
    bv_omega

theorem Consistent.keeps_iff_safe (h : Consistent pm) (r : Request) : Keeps pm r ↔ Safe pm r := by
  cases r with
  | addIndex io refcount path => exact h.keeps_addIndex_iff io refcount path
  | removeIndex io path => exact iff_of_true (h.keeps_removeIndex io path) trivial
  | addPartition io path sep => exact h.keeps_addPartition_iff io path sep
  | removePartition io missing path sep => exact h.keeps_removePartition_iff io missing path sep

/-! ## Loading -/

omit [LawfulThrift IndexConsistentHashRing] in
theorem consistent_of_init {io : Status} {refcount : BitVec 64} {store : LevelDBStore}
    (start : init io refcount store = (.OK, pm)) : Consistent pm := by
  have adds (maps : ExtTreeMap Str Partition) (key : Str) (partitions : PartitionMap) (k : Str)
      (_ : maps[key]? = none) : (maps.insert key ⟨refcount, partitions⟩)[k]? =
        if key = k then some (Partition.mk refcount partitions) else maps[k]? :=
    getElem?_insert _ _ _ _
  unfold init at start
  split at start
  · rename_i bad
    cases start
    cases bad
  · have readable : store.Readable stringToPartitionMap := fun key value found =>
      LevelDBStore.readable_of_readAll (by decide) (congrArg Prod.fst start) (key, value)
        (LevelDBStore.mem_records.mpr found)
    obtain ⟨-, all⟩ := LevelDBStore.readAll_records
      ⟨-1, "Failed to parse thrift object."⟩ adds readable
    cases congrArg Prod.snd start
    intro path
    calc ((load refcount store.records).2[path]?).map (·.partitions)
        = ((store[path]?.bind stringToPartitionMap).map (Partition.mk refcount)).map
            (·.partitions) := by rw [load, all path]
      _ = store[path]?.bind stringToPartitionMap := by rw [Option.map_map]; exact Option.map_id'

/-! ## Runs -/

theorem Consistent.meets_iff (h : Consistent pm) (requests : List Request) :
    Meets step Keeps pm requests ↔ Meets step Safe pm requests := by
  refine Meets.iff_of_invariant (fun pm r _ h => h.keeps_iff_safe r) ?_ h
  rintro pm pm' r - - ⟨status, pm₁, out, consistent, -⟩ ran
  rw [step, out] at ran
  cases ran
  exact consistent

/-- In a run of calls on a manager that was loaded from a store, every call keeps the
promise exactly when every call is safe. -/
theorem partitions_consistent_iff (io : Status) (refcount : BitVec 64) (store : LevelDBStore)
    (pm : PartitionManager) (start : init io refcount store = (.OK, pm))
    (requests : List Request) : Meets step Keeps pm requests ↔ Meets step Safe pm requests :=
  (consistent_of_init start).meets_iff requests

instance decidableSafe (pm : PartitionManager) : (r : Request) → Decidable (Safe pm r)
  | .addIndex .. => inferInstanceAs (Decidable (_ ∨ _ ∧ _))
  | .removeIndex .. => .isTrue trivial
  | .addPartition .. => inferInstanceAs (Decidable (∀ _, _ = some _ → _ ∨ _ ∧ _))
  | .removePartition .. => inferInstanceAs (Decidable (_ ∉ _))

end Store

section Example

attribute [local instance] BinaryProtocol.indexConsistentHashRingThrift

/-- A run of calls that take effect or are refused. -/
def splitAndRemove : List Request :=
  [.addIndex .OK 0 "/foo".toList, .addPartition .OK "/foo".toList 7,
    .addPartition ⟨-1, "Mock failure"⟩ "/foo".toList 7,
    .addIndex ⟨-1, "Mock failure"⟩ 0 "/foo".toList,
    .removeIndex ⟨-1, "Mock failure"⟩ "/foo".toList, .removeIndex .OK "/foo".toList,
    .removePartition .OK ⟨⟨-1, "No such key"⟩, rfl⟩ "/foo".toList 7]

theorem splitAndRemove_consistent : Meets step Keeps {} splitAndRemove :=
  (partitions_consistent_iff .OK 0 ∅ {} rfl splitAndRemove).mpr (by decide +kernel)

/-- The second partition is in memory and not in the store. -/
theorem refused_partition_stays : ¬ Meets step Keeps {}
    [.addIndex .OK 0 "/foo".toList, .addPartition ⟨-1, "Mock failure"⟩ "/foo".toList 7] := by
  have start : init .OK 0 ∅ = (.OK, {}) := rfl
  rw [(consistent_of_init start).meets_iff]
  decide +kernel

end Example

end Vsfs.Masterd.PartitionManager

import Mathlib.Order.Compare
import Mathlib.Data.BitVec
import Vsfs.Common.LexicalCast
import Vsfs.Lib.FiniteMap
import Vsfs.Lib.Replay
import Vsfs.Lib.Scan

/-!
# In-memory range indices

`IndexImpl` and `RangeIndex` of `vsfs/index`: an ordered map from keys to sets of
object ids. The index stands for the relation of its key and object id pairs; a batch
of well-formed updates is a replay of point writes on that relation.
-/

namespace Vsfs

namespace Index

open Std Replay

/-! ## Requests -/

/-- `RpcIndexUpdateOpCode`; every code without a `case` of its own is `unknown`. -/
inductive UpdateOpCode where
  | unknown
  | insert
  | update
  | remove
  deriving DecidableEq, Repr

/-- `RpcIndexRecordUpdateOp`. An unset `value` is the empty string. -/
structure RecordUpdateOp where
  op : UpdateOpCode
  key : Str
  value : Str := []
  deriving DecidableEq, Repr

/-- `RpcRangeQuery`. -/
structure RangeQuery where
  indexPath : Str
  name : Str
  lower : Str
  lowerOpen : Bool
  upper : Str
  upperOpen : Bool
  deriving DecidableEq, Repr

/-- The key types a `RangeIndex<Key>` is instantiated at, told apart by their type id.
`lexicalCast` is `boost::lexical_cast<Key>`, `none` where it throws; `min` and `max`
are the limits of the type. -/
class KeyTypes (K : Type) where
  known : Int → Bool
  lexicalCast : Int → Str → Option K
  min : Int → K
  max : Int → K
  /-- `boost::lexical_cast<ObjectId>`. -/
  castObjectId : Str → Option ObjectId

/-- The universe with `RangeIndex<uint64_t>` only. -/
@[reducible] def uint64Keys : KeyTypes Int where
  known _ := true
  lexicalCast _ := lexicalCastInt false 64
  min _ := 0
  max _ := 2 ^ 64 - 1
  castObjectId s := (lexicalCastInt true 64 s).map (BitVec.ofInt 64)

section

variable {K : Type} [LinearOrder K]

/-- `IndexImpl<Key, map<Key, unordered_set<ObjectId>>>` with the type id of its key.
No key is mapped to an empty set. -/
structure RangeIndex (K : Type) [LinearOrder K] where
  keyType : Int
  index : ExtTreeMap K (ExtTreeSet ObjectId)
  noEmptySet : ∀ (k : K) (ids : ExtTreeSet ObjectId), index[k]? = some ids → ids ≠ ∅

namespace RangeIndex

/-- A new `RangeIndex<Key>`. -/
def empty (keyType : Int) : RangeIndex K := ⟨keyType, ∅, by simp⟩

/-- The relation an index stands for. -/
def pairs (ix : RangeIndex K) : Set (K × ObjectId) :=
  {p | ∃ ids, ix.index[p.1]? = some ids ∧ p.2 ∈ ids}

@[simp] theorem pairs_empty (keyType : Int) : (empty keyType : RangeIndex K).pairs = ∅ := by
  ext p
  simp [pairs, empty]

/-- An index is determined by its key type and its relation. -/
theorem ext_pairs {a b : RangeIndex K} (type : a.keyType = b.keyType)
    (same : a.pairs = b.pairs) : a = b := by
  have half : ∀ {a b : RangeIndex K}, a.pairs = b.pairs → ∀ {k : K} {ids : ExtTreeSet ObjectId},
      a.index[k]? = some ids → ∃ ids', b.index[k]? = some ids' ∧ ∀ o ∈ ids, o ∈ ids' := by
    intro a b same k ids hk
    obtain ⟨o, ho⟩ : ∃ o, o ∈ ids := by
      by_contra none
      exact a.noEmptySet k ids hk (ExtTreeSet.eq_empty_iff_forall_not_mem.mpr (by simpa using none))
    have move : ∀ o ∈ ids, (k, o) ∈ b.pairs := fun o ho => same ▸ ⟨ids, hk, ho⟩
    obtain ⟨ids', hk', _⟩ := move o ho
    refine ⟨ids', hk', fun o ho => ?_⟩
    obtain ⟨ids'', hk'', ho''⟩ := move o ho
    rw [hk'] at hk''
    cases hk''
    exact ho''
  have maps : a.index = b.index := by
    apply ExtTreeMap.ext_getElem?
    intro k
    cases hk : a.index[k]? with
    | some ids =>
      obtain ⟨ids', hk', sub⟩ := half same hk
      obtain ⟨ids'', hk'', sup⟩ := half same.symm hk'
      rw [hk] at hk''
      cases hk''
      rw [hk', ExtTreeSet.ext_mem fun o => ⟨sub o, sup o⟩]
    | none =>
      cases hk' : b.index[k]? with
      | none => rfl
      | some ids =>
        obtain ⟨_, hk'', _⟩ := half same.symm hk'
        rw [hk] at hk''
        cases hk''
  cases a
  cases b
  simp_all

/-! ## Updates -/

/-- `insert(key, obj_id)`: `index_[key].insert(obj_id)`. -/
def insert (ix : RangeIndex K) (key : K) (oid : ObjectId) : RangeIndex K where
  keyType := ix.keyType
  index := ix.index.insert key ((ix.index[key]?.getD ∅).insert oid)
  noEmptySet := by
    intro k ids hk
    rw [ExtTreeMap.getElem?_insert] at hk
    split at hk
    · cases hk
      exact fun h => ExtTreeSet.eq_empty_iff_forall_not_mem.mp h oid (by simp)
    · exact ix.noEmptySet k ids hk

/-- `erase_with_lock(key, obj_id)`. -/
def eraseWithLock (ix : RangeIndex K) (key : K) (oid : ObjectId) : RangeIndex K :=
  match ix.index[key]? with
  | none => ix
  | some ids =>
    if h : (ids.erase oid).isEmpty then
      { ix with
        index := ix.index.erase key
        noEmptySet := by
          intro k s hk
          rw [ExtTreeMap.getElem?_erase] at hk
          split at hk
          · cases hk
          · exact ix.noEmptySet k s hk }
    else
      { ix with
        index := ix.index.insert key (ids.erase oid)
        noEmptySet := by
          intro k s hk
          rw [ExtTreeMap.getElem?_insert] at hk
          split at hk
          · cases hk
            simpa [ExtTreeSet.isEmpty_iff] using h
          · exact ix.noEmptySet k s hk }

/-- `erase(key)`: all records with the key. -/
def eraseKey (ix : RangeIndex K) (key : K) : RangeIndex K where
  keyType := ix.keyType
  index := ix.index.erase key
  noEmptySet := by
    intro k ids hk
    rw [ExtTreeMap.getElem?_erase] at hk
    split at hk
    · cases hk
    · exact ix.noEmptySet k ids hk

/-- `clear()`. -/
def clear (ix : RangeIndex K) : RangeIndex K := ⟨ix.keyType, ∅, by simp⟩

/-- `index_[key]`, without the empty set that it makes for a key that is not there. -/
def idsAt (ix : RangeIndex K) (key : K) : ExtTreeSet ObjectId := ix.index[key]?.getD ∅

/-- `index_[key]` is replaced by a set that has an object id. -/
def setKey (ix : RangeIndex K) (key : K) (ids : ExtTreeSet ObjectId)
    (some_id : ¬ ids.isEmpty = true) : RangeIndex K where
  keyType := ix.keyType
  index := ix.index.insert key ids
  noEmptySet := by
    intro k ids' hk
    rw [ExtTreeMap.getElem?_insert] at hk
    split at hk
    · cases hk
      exact fun empty => some_id (ExtTreeSet.isEmpty_iff.mpr empty)
    · exact ix.noEmptySet k ids' hk

@[simp] theorem keyType_insert (ix : RangeIndex K) (key : K) (oid : ObjectId) :
    (ix.insert key oid).keyType = ix.keyType := rfl

@[simp] theorem keyType_eraseWithLock (ix : RangeIndex K) (key : K) (oid : ObjectId) :
    (ix.eraseWithLock key oid).keyType = ix.keyType := by
  unfold eraseWithLock
  split
  · rfl
  · split <;> rfl

theorem pairs_insert (ix : RangeIndex K) (key : K) (oid : ObjectId) :
    (ix.insert key oid).pairs = (Write.mk (key, oid) true).apply ix.pairs := by
  ext ⟨k, o⟩
  by_cases h : key = k
  · subst h
    cases hk : ix.index[key]? <;> simp [pairs, insert, Write.apply, hk, eq_comm (a := o)]
  · simp [pairs, insert, Write.apply, h, Ne.symm h]

theorem pairs_eraseWithLock (ix : RangeIndex K) (key : K) (oid : ObjectId) :
    (ix.eraseWithLock key oid).pairs = (Write.mk (key, oid) false).apply ix.pairs := by
  ext ⟨k, o⟩
  unfold eraseWithLock
  cases hk : ix.index[key]? with
  | none =>
    by_cases h : k = key <;> simp_all [pairs, Write.apply]
  | some ids =>
    by_cases h : key = k
    · subst h
      by_cases he : (ids.erase oid).isEmpty
      · have gone := ExtTreeSet.eq_empty_iff_forall_not_mem.mp (ExtTreeSet.isEmpty_iff.mp he) o
        have only : o ∈ ids → oid = o := by simpa [not_imp_not] using gone
        simpa [he, pairs, Write.apply, hk, eq_comm (a := o)] using only
      · simp [he, pairs, Write.apply, hk, eq_comm (a := o), and_comm]
    · by_cases he : (ids.erase oid).isEmpty <;> simp [he, pairs, Write.apply, h, Ne.symm h]

theorem pairs_eraseKey (ix : RangeIndex K) (key : K) :
    (ix.eraseKey key).pairs = {p ∈ ix.pairs | p.1 ≠ key} := by
  ext ⟨k, o⟩
  by_cases h : key = k
  · subst h
    simp [pairs, eraseKey]
  · simp [pairs, eraseKey, h, Ne.symm h]

theorem mem_idsAt (ix : RangeIndex K) (key : K) (oid : ObjectId) :
    oid ∈ ix.idsAt key ↔ (key, oid) ∈ ix.pairs := by
  cases hk : ix.index[key]? <;> simp [pairs, idsAt, hk]

theorem mem_pairs_setKey (ix : RangeIndex K) {key : K} {ids : ExtTreeSet ObjectId}
    (some_id : ¬ ids.isEmpty = true) (p : K × ObjectId) :
    p ∈ (ix.setKey key ids some_id).pairs ↔ if key = p.1 then p.2 ∈ ids else p ∈ ix.pairs := by
  split
  · next same => simp [pairs, setKey, same]
  · next ne => simp [pairs, setKey, ne]

@[simp] theorem pairs_clear (ix : RangeIndex K) : ix.clear.pairs = ∅ := by
  ext p
  simp [pairs, clear]

section Apply

variable [KeyTypes K]

/-- One turn of the loop of `IndexImpl::apply`. -/
def applyOne (ix : RangeIndex K) (update : RecordUpdateOp) : Status × RangeIndex K :=
  match KeyTypes.lexicalCast (K := K) ix.keyType update.key,
      KeyTypes.castObjectId K update.value with
  | some key, some oid =>
    match update.op with
    | .insert | .update => (.OK, ix.insert key oid)
    | .remove => (.OK, ix.eraseWithLock key oid)
    | .unknown => (⟨-EINVAL, "Unknown op."⟩, ix)
  | _, _ => (⟨-EINVAL, "IndexImpl::apply: bad cast."⟩, ix)

/-- `IndexImpl::apply`. A record that fails stops the loop; the records before it stay
applied. -/
def apply (ix : RangeIndex K) : List RecordUpdateOp → Status × RangeIndex K
  | [] => (.OK, ix)
  | update :: updates =>
    let (status, ix') := ix.applyOne update
    if status.ok then ix'.apply updates else (status, ix')

/-- The point write a record asks for, when its texts cast and its operation is known. -/
def toWrite (keyType : Int) (update : RecordUpdateOp) : Option (Write (K × ObjectId)) :=
  match KeyTypes.lexicalCast (K := K) keyType update.key,
      KeyTypes.castObjectId K update.value, update.op with
  | some key, some oid, .insert => some ⟨(key, oid), true⟩
  | some key, some oid, .update => some ⟨(key, oid), true⟩
  | some key, some oid, .remove => some ⟨(key, oid), false⟩
  | _, _, _ => none

/-- Every record of the batch casts to the key type and has a known operation. -/
def WellFormed (K : Type) [KeyTypes K] (keyType : Int) (updates : List RecordUpdateOp) : Prop :=
  ∀ update ∈ updates, (toWrite (K := K) keyType update).isSome

instance (keyType : Int) (updates : List RecordUpdateOp) :
    Decidable (WellFormed K keyType updates) :=
  inferInstanceAs (Decidable (∀ update ∈ updates, _))

/-- The writes of a batch, in order. -/
def writes (K : Type) [KeyTypes K] (keyType : Int) (updates : List RecordUpdateOp) :
    List (Write (K × ObjectId)) :=
  updates.filterMap (toWrite keyType)

omit [LinearOrder K] in
theorem writes_append (keyType : Int) (us vs : List RecordUpdateOp) :
    writes K keyType (us ++ vs) = writes K keyType us ++ writes K keyType vs :=
  List.filterMap_append

theorem applyOne_spec {ix : RangeIndex K} {update : RecordUpdateOp} {w : Write (K × ObjectId)}
    (h : toWrite ix.keyType update = some w) :
    (ix.applyOne update).1 = .OK ∧ (ix.applyOne update).2.keyType = ix.keyType ∧
      (ix.applyOne update).2.pairs = w.apply ix.pairs := by
  unfold toWrite at h
  unfold applyOne
  split at h <;> cases h <;> simp_all [pairs_insert, pairs_eraseWithLock]

@[simp] theorem keyType_applyOne (ix : RangeIndex K) (update : RecordUpdateOp) :
    (ix.applyOne update).2.keyType = ix.keyType := by
  unfold applyOne
  split
  · split <;> simp
  · rfl

@[simp] theorem keyType_apply (ix : RangeIndex K) (updates : List RecordUpdateOp) :
    (ix.apply updates).2.keyType = ix.keyType := by
  induction updates generalizing ix with
  | nil => rfl
  | cons update updates ih =>
    unfold apply
    dsimp only
    split
    · rw [ih, keyType_applyOne]
    · exact keyType_applyOne ix update

/-- A record that is not well formed is refused. -/
theorem applyOne_ok_iff (ix : RangeIndex K) (update : RecordUpdateOp) :
    (ix.applyOne update).1.ok = true ↔ (toWrite (K := K) ix.keyType update).isSome := by
  unfold applyOne toWrite
  cases KeyTypes.lexicalCast (K := K) ix.keyType update.key <;>
    cases KeyTypes.castObjectId K update.value <;> cases update.op <;>
    simp [Status.ok, Status.OK, EINVAL]

/-- A batch is accepted exactly when all of its records are well formed. -/
theorem apply_ok_iff (ix : RangeIndex K) (updates : List RecordUpdateOp) :
    (ix.apply updates).1.ok = true ↔ WellFormed K ix.keyType updates := by
  induction updates generalizing ix with
  | nil => simp [apply, WellFormed]
  | cons update updates ih =>
    have first := applyOne_ok_iff ix update
    have rest := ih (ix.applyOne update).2
    rw [keyType_applyOne] at rest
    unfold apply
    dsimp only
    split
    · rename_i ok
      rw [rest]
      simpa [WellFormed] using fun _ => first.mp ok
    · rename_i bad
      refine iff_of_false bad fun all => bad (first.mpr (all update (by simp)))

/-- A well-formed batch is accepted whole and acts on the relation as its writes. -/
theorem apply_spec {ix : RangeIndex K} {updates : List RecordUpdateOp}
    (h : WellFormed K ix.keyType updates) :
    (ix.apply updates).1 = .OK ∧ (ix.apply updates).2.keyType = ix.keyType ∧
      (ix.apply updates).2.pairs = replay (writes K ix.keyType updates) ix.pairs := by
  induction updates generalizing ix with
  | nil => exact ⟨rfl, rfl, rfl⟩
  | cons update updates ih =>
    obtain ⟨w, hw⟩ := Option.isSome_iff_exists.mp (h update (by simp))
    obtain ⟨ok, type, rel⟩ := applyOne_spec hw
    have rest : WellFormed K (ix.applyOne update).2.keyType updates :=
      fun v hv => type ▸ h v (by simp [hv])
    obtain ⟨ok', type', rel'⟩ := ih rest
    have unfolded : ix.apply (update :: updates) = (ix.applyOne update).2.apply updates := by
      simp [apply, ok]
    rw [unfolded]
    refine ⟨ok', type'.trans type, ?_⟩
    rw [rel', type, rel]
    simp [writes, hw]

end Apply

/-! ## Searches -/

/-- `empty()`; a new index is `RangeIndex.empty`. -/
def isEmpty (ix : RangeIndex K) : Bool := ix.index.isEmpty

/-- `num_keys()`. -/
def numKeys (ix : RangeIndex K) : Nat := ix.index.size

/-- `size()`: the number of records. -/
def size (ix : RangeIndex K) : Nat := ix.index.toList.foldl (fun ret e => ret + e.2.size) 0

/-- The pairs of an index, key by key. -/
def entries (ix : RangeIndex K) : List (K × ObjectId) :=
  ix.index.toList.flatMap (fun e => e.2.toList.map (fun o => (e.1, o)))

/-- `search(key, results)`. -/
def searchKey (ix : RangeIndex K) (key : K) : List ObjectId :=
  match ix.index[key]? with
  | none => []
  | some ids => ids.toList

/-- `search(lower, lower_open, upper, upper_open)`: from `upper_bound` or `lower_bound`
of `lower` on, until the first key past `upper`. -/
def searchRange (ix : RangeIndex K) (lower : K) (lowerOpen : Bool) (upper : K)
    (upperOpen : Bool) : List ObjectId :=
  let start := ix.index.toList.dropWhile
    (fun e => if lowerOpen then decide (e.1 ≤ lower) else decide (e.1 < lower))
  let visited := start.takeWhile
    (fun e => !(decide (e.1 > upper) || (upperOpen && decide (e.1 ≥ upper))))
  visited.flatMap (fun e => e.2.toList)

/-- The keys a range search asks for. -/
def InRange (lower : K) (lowerOpen : Bool) (upper : K) (upperOpen : Bool) (k : K) : Prop :=
  (if lowerOpen then lower < k else lower ≤ k) ∧ (if upperOpen then k < upper else k ≤ upper)

/-- The keys of an index come in ascending order. -/
theorem sorted_toList (ix : RangeIndex K) : ix.index.toList.Pairwise (fun a b => a.1 < b.1) := by
  simpa only [compare_lt_iff_lt] using ExtTreeMap.ordered_keys_toList (t := ix.index)

/-- The entries a range search visits. -/
def visited (ix : RangeIndex K) (lower : K) (lowerOpen : Bool) (upper : K) (upperOpen : Bool) :
    List (K × ExtTreeSet ObjectId) :=
  (ix.index.toList.dropWhile
    (fun e => if lowerOpen then decide (e.1 ≤ lower) else decide (e.1 < lower))).takeWhile
      (fun e => !(decide (e.1 > upper) || (upperOpen && decide (e.1 ≥ upper))))

theorem searchRange_eq (ix : RangeIndex K) (lower : K) (lowerOpen : Bool) (upper : K)
    (upperOpen : Bool) : ix.searchRange lower lowerOpen upper upperOpen =
      (ix.visited lower lowerOpen upper upperOpen).flatMap (fun e => e.2.toList) := rfl

theorem mem_visited (ix : RangeIndex K) (lower : K) (lowerOpen : Bool) (upper : K)
    (upperOpen : Bool) (k : K) (ids : ExtTreeSet ObjectId compare) :
    (k, ids) ∈ ix.visited lower lowerOpen upper upperOpen ↔
      ix.index[k]? = some ids ∧ InRange lower lowerOpen upper upperOpen k := by
  unfold visited
  rw [Scan.mem_seek_run ix.sorted_toList, ExtTreeMap.mem_toList_iff_getElem?_eq_some]
  · refine and_congr_right fun _ => and_congr ?_ ?_
    · cases lowerOpen <;> simp
    · cases upperOpen
      · simp
      · simpa using fun less => less.le
  · intro a b hab hb
    cases lowerOpen
    · simpa using hab.trans (by simpa using hb)
    · simpa using hab.le.trans (by simpa using hb)
  · intro a b hab _ hb
    cases upperOpen
    · simpa using hab.le.trans (by simpa using hb)
    · have hb' : b.1 < upper := by simpa using (by simpa using hb : b.1 ≤ upper ∧ b.1 < upper).2
      simp [(hab.trans hb').le, hab.trans hb']

theorem mem_searchRange (ix : RangeIndex K) (lower : K) (lowerOpen : Bool) (upper : K)
    (upperOpen : Bool) (o : ObjectId) :
    o ∈ ix.searchRange lower lowerOpen upper upperOpen ↔
      ∃ k, (k, o) ∈ ix.pairs ∧ InRange lower lowerOpen upper upperOpen k := by
  simp only [searchRange_eq, List.mem_flatMap, mem_visited, ExtTreeSet.mem_toList, pairs,
    Prod.exists]
  constructor
  · rintro ⟨k, ids, ⟨hk, inRange⟩, ho⟩
    exact ⟨k, ⟨ids, hk, ho⟩, inRange⟩
  · rintro ⟨k, ⟨ids, hk, ho⟩, inRange⟩
    exact ⟨k, ids, ⟨hk, inRange⟩, ho⟩

section Search

variable [KeyTypes K]

/-- The bounds a query text stands for: the limits of the key type for an empty text,
`none` for a text that does not cast. -/
def bounds (ix : RangeIndex K) (query : RangeQuery) : Option (K × K) := do
  let lower ← if query.lower.isEmpty then some (KeyTypes.min ix.keyType)
    else KeyTypes.lexicalCast ix.keyType query.lower
  let upper ← if query.upper.isEmpty then some (KeyTypes.max ix.keyType)
    else KeyTypes.lexicalCast ix.keyType query.upper
  return (lower, upper)

/-- `RangeIndex::search(query, results)`. -/
def search (ix : RangeIndex K) (query : RangeQuery) : Status × List ObjectId :=
  match ix.bounds query with
  | none => (⟨-1, "Failed to parse upper and lower value of range query."⟩, [])
  | some (lower, upper) =>
    (.OK, ix.searchRange lower query.lowerOpen upper query.upperOpen)

/-- `k` is a key of this index's type that the query asks for. -/
def Matches (ix : RangeIndex K) (query : RangeQuery) (k : K) : Prop :=
  ∃ lower upper, ix.bounds query = some (lower, upper) ∧
    InRange lower query.lowerOpen upper query.upperOpen k

theorem mem_search (ix : RangeIndex K) (query : RangeQuery) (o : ObjectId) :
    o ∈ (ix.search query).2 ↔ ∃ k, (k, o) ∈ ix.pairs ∧ ix.Matches query k := by
  unfold search Matches
  cases ix.bounds query with
  | none => simp
  | some b =>
    obtain ⟨lower, upper⟩ := b
    simp [mem_searchRange]

end Search

end RangeIndex

end

end Index

end Vsfs

import Mathlib.Data.Set.Card
import Vsfs.Index.RangeIndex

/-!
# A range index is a finite relation

Whatever operations an index went through, it answers as the set of key and object id
pairs that the same operations give on sets.
-/

namespace Vsfs.Index

open Std Replay

variable {K : Type} [LinearOrder K]

namespace RangeIndex

/-- What an observer of the index sees of the relation `R`. The ids of one key come in the
order of the set that holds them, which the source leaves open. -/
structure Represents (ix : RangeIndex K) (R : Set (K × ObjectId)) : Prop where
  finite : R.Finite
  noEmptySet : ∀ (k : K) (ids : ExtTreeSet ObjectId), ix.index[k]? = some ids → ids ≠ ∅
  size_eq : ix.size = R.ncard
  numKeys_eq : ix.numKeys = (Set.image Prod.fst R).ncard
  isEmpty_iff : ix.isEmpty = true ↔ R = ∅
  searchKey_exact : ∀ k, (ix.searchKey k).Nodup ∧ ∀ o, o ∈ ix.searchKey k ↔ (k, o) ∈ R
  searchRange_exact : ∀ lower lowerOpen upper upperOpen, ∃ groups : List (K × List ObjectId),
    ix.searchRange lower lowerOpen upper upperOpen = groups.flatMap Prod.snd ∧
    groups.Pairwise (·.1 < ·.1) ∧ (∀ g ∈ groups, g.2.Nodup) ∧
    ∀ k o, (∃ g ∈ groups, g.1 = k ∧ o ∈ g.2) ↔
      (k, o) ∈ R ∧ InRange lower lowerOpen upper upperOpen k

theorem mem_entries (ix : RangeIndex K) (p : K × ObjectId) : p ∈ ix.entries ↔ p ∈ ix.pairs := by
  obtain ⟨k, o⟩ := p
  simp [entries, pairs, ExtTreeMap.mem_toList_iff_getElem?_eq_some]

theorem nodup_ids (ids : ExtTreeSet ObjectId) : ids.toList.Nodup := by
  have distinct := ExtTreeSet.distinct_toList (t := ids)
  refine distinct.imp fun different same => different ?_
  rw [same]
  exact ReflCmp.compare_self

theorem nodup_entries (ix : RangeIndex K) : ix.entries.Nodup := by
  refine List.nodup_flatMap.mpr ⟨fun e _ => ?_, ?_⟩
  · exact (nodup_ids e.2).map fun a b same => (Prod.mk.inj same).2
  · refine ix.sorted_toList.imp fun {a b} less => ?_
    intro p hp hp'
    obtain ⟨o, -, rfl⟩ := List.mem_map.mp hp
    obtain ⟨o', -, same⟩ := List.mem_map.mp hp'
    exact absurd (Prod.mk.inj same).1.symm less.ne

theorem size_eq_length (ix : RangeIndex K) : ix.size = ix.entries.length := by
  have sizes : ∀ (l : List (K × ExtTreeSet ObjectId)) (n : Nat),
      l.foldl (fun ret e => ret + e.2.size) n =
        n + (l.flatMap (fun e => e.2.toList.map (fun o => (e.1, o)))).length := by
    intro l
    induction l with
    | nil => simp
    | cons e l ih =>
      intro n
      simp [ih, ExtTreeSet.length_toList, Nat.add_assoc]
  exact (sizes ix.index.toList 0).trans (Nat.zero_add _)

theorem coe_entries (ix : RangeIndex K) :
    (ix.entries.toFinset : Set (K × ObjectId)) = ix.pairs := by
  ext p
  simp [mem_entries]

theorem size_eq_ncard (ix : RangeIndex K) : ix.size = ix.pairs.ncard := by
  rw [← coe_entries, Set.ncard_coe_finset, List.toFinset_card_of_nodup ix.nodup_entries,
    size_eq_length]

/-- Every key has a record, since no key is mapped to an empty set. -/
theorem mem_fst_pairs (ix : RangeIndex K) (k : K) :
    k ∈ Set.image Prod.fst ix.pairs ↔ k ∈ ix.index := by
  rw [FiniteMap.mem_iff_exists]
  constructor
  · rintro ⟨⟨k, o⟩, ⟨ids, hk, -⟩, rfl⟩
    exact ⟨ids, hk⟩
  · rintro ⟨ids, hk⟩
    have some_id : ∃ o, o ∈ ids := by
      by_contra none
      exact ix.noEmptySet k ids hk
        (ExtTreeSet.eq_empty_iff_forall_not_mem.mpr (by simpa using none))
    obtain ⟨o, ho⟩ := some_id
    exact ⟨(k, o), ⟨ids, hk, ho⟩, rfl⟩

theorem numKeys_eq_ncard (ix : RangeIndex K) :
    ix.numKeys = (Set.image Prod.fst ix.pairs).ncard := by
  have keys : (ix.index.keys.toFinset : Set K) = Set.image Prod.fst ix.pairs := by
    ext k
    rw [mem_fst_pairs]
    simp
  have nodup : ix.index.keys.Nodup := by
    refine ExtTreeMap.distinct_keys.imp fun different same => different ?_
    rw [same]
    exact ReflCmp.compare_self
  rw [← keys, Set.ncard_coe_finset, List.toFinset_card_of_nodup nodup, ExtTreeMap.length_keys]
  rfl

theorem isEmpty_iff_pairs (ix : RangeIndex K) : ix.isEmpty = true ↔ ix.pairs = ∅ := by
  unfold isEmpty
  rw [ExtTreeMap.isEmpty_iff]
  constructor
  · intro none
    ext p
    simp [pairs, none]
  · intro none
    refine ExtTreeMap.eq_empty_iff_forall_not_mem.mpr fun k hk => ?_
    rw [← mem_fst_pairs, none] at hk
    simp at hk

theorem searchKey_spec (ix : RangeIndex K) (k : K) :
    (ix.searchKey k).Nodup ∧ ∀ o, o ∈ ix.searchKey k ↔ (k, o) ∈ ix.pairs := by
  unfold searchKey
  cases h : ix.index[k]? with
  | none => simp [pairs, h]
  | some ids => exact ⟨nodup_ids ids, by simp [pairs, h]⟩

/-- A range search visits the keys in the range, in ascending order. -/
theorem searchRange_spec (ix : RangeIndex K) (lower : K) (lowerOpen : Bool) (upper : K)
    (upperOpen : Bool) : ∃ groups : List (K × List ObjectId),
      ix.searchRange lower lowerOpen upper upperOpen = groups.flatMap Prod.snd ∧
      groups.Pairwise (·.1 < ·.1) ∧ (∀ g ∈ groups, g.2.Nodup) ∧
      ∀ k o, (∃ g ∈ groups, g.1 = k ∧ o ∈ g.2) ↔
        (k, o) ∈ ix.pairs ∧ InRange lower lowerOpen upper upperOpen k := by
  let visited := ix.visited lower lowerOpen upper upperOpen
  have ascending : visited.Pairwise (fun a b => a.1 < b.1) :=
    ix.sorted_toList.sublist ((List.takeWhile_sublist _).trans (List.dropWhile_sublist _))
  refine ⟨visited.map (fun e => (e.1, e.2.toList)), ?_, ?_, ?_, fun k o => ?_⟩
  · rw [List.flatMap_map]
    rfl
  · exact List.pairwise_map.mpr ascending
  · intro g hg
    obtain ⟨e, -, rfl⟩ := List.mem_map.mp hg
    exact nodup_ids e.2
  · constructor
    · rintro ⟨g, hg, rfl, ho⟩
      obtain ⟨e, he, rfl⟩ := List.mem_map.mp hg
      obtain ⟨hk, inRange⟩ := (ix.mem_visited ..).mp he
      exact ⟨⟨e.2, hk, ExtTreeSet.mem_toList.mp ho⟩, inRange⟩
    · rintro ⟨⟨ids, hk, ho⟩, inRange⟩
      have he : (k, ids) ∈ visited := (ix.mem_visited ..).mpr ⟨hk, inRange⟩
      exact ⟨(k, ids.toList), List.mem_map_of_mem he, rfl, ExtTreeSet.mem_toList.mpr ho⟩

/-- An index represents the relation of its pairs. -/
theorem represents_pairs (ix : RangeIndex K) : ix.Represents ix.pairs where
  finite := coe_entries ix ▸ Finset.finite_toSet _
  noEmptySet := ix.noEmptySet
  size_eq := ix.size_eq_ncard
  numKeys_eq := ix.numKeys_eq_ncard
  isEmpty_iff := ix.isEmpty_iff_pairs
  searchKey_exact := ix.searchKey_spec
  searchRange_exact := ix.searchRange_spec

/-! ## Runs -/

/-- An operation that changes an index. -/
inductive Change (K : Type) where
  | insert (key : K) (oid : ObjectId)
  | erase (key : K) (oid : ObjectId)
  | eraseKey (key : K)
  | clear
  | apply (updates : List RecordUpdateOp)
  deriving DecidableEq, Repr

variable [KeyTypes K]

/-- The operation on the index. -/
def change (ix : RangeIndex K) : Change K → RangeIndex K
  | .insert key oid => ix.insert key oid
  | .erase key oid => ix.eraseWithLock key oid
  | .eraseKey key => ix.eraseKey key
  | .clear => ix.clear
  | .apply updates => (ix.apply updates).2

/-- The operation on sets. A batch puts in or takes out the pairs of its records, one after
the other. -/
def Change.onSet (keyType : Int) (R : Set (K × ObjectId)) : Change K → Set (K × ObjectId)
  | .insert key oid => R ∪ {(key, oid)}
  | .erase key oid => R \ {(key, oid)}
  | .eraseKey key => {p ∈ R | p.1 ≠ key}
  | .clear => ∅
  | .apply updates => replay (writes K keyType updates) R

/-- Batches are well formed. -/
def Change.Accepted (keyType : Int) : Change K → Prop
  | .apply updates => WellFormed K keyType updates
  | _ => True

theorem change_spec (ix : RangeIndex K) {c : Change K} (h : c.Accepted ix.keyType) :
    (ix.change c).keyType = ix.keyType ∧ (ix.change c).pairs = c.onSet ix.keyType ix.pairs := by
  cases c with
  | insert key oid => exact ⟨rfl, by simp [change, pairs_insert, Write.apply, Change.onSet]⟩
  | erase key oid =>
    exact ⟨keyType_eraseWithLock ix key oid, pairs_eraseWithLock ix key oid⟩
  | eraseKey key => exact ⟨rfl, ix.pairs_eraseKey key⟩
  | clear => exact ⟨rfl, ix.pairs_clear⟩
  | apply updates => exact (apply_spec h).2

theorem run_spec (ix : RangeIndex K) {changes : List (Change K)}
    (h : ∀ c ∈ changes, c.Accepted ix.keyType) :
    (changes.foldl change ix).pairs = changes.foldl (Change.onSet ix.keyType) ix.pairs := by
  induction changes generalizing ix with
  | nil => rfl
  | cons c changes ih =>
    obtain ⟨type, rel⟩ := ix.change_spec (h c List.mem_cons_self)
    have later : ∀ d ∈ changes, d.Accepted (ix.change c).keyType :=
      fun d hd => type ▸ h d (List.mem_cons_of_mem c hd)
    rw [List.foldl_cons, ih _ later, List.foldl_cons, type, rel]

/-- After any operations, with well-formed batches, a new index represents the relation that
the same operations give on sets. -/
theorem represents_of_changes (keyType : Int) {changes : List (Change K)}
    (h : ∀ c ∈ changes, c.Accepted keyType) :
    (changes.foldl change (empty keyType)).Represents
      (changes.foldl (Change.onSet keyType) ∅) := by
  have same : (changes.foldl change (empty keyType)).pairs =
      changes.foldl (Change.onSet keyType) ∅ := by
    rw [run_spec (empty keyType) h, pairs_empty]
    rfl
  rw [← same]
  exact represents_pairs _

section Examples

attribute [local instance] uint64Keys

/-- The record of a key that is left after the other one is erased, by a batch. -/
theorem represents_erased :
    ([.insert 7 1, .insert 7 2, .insert 9 1, .eraseKey 9,
        .apply [⟨.remove, "7".toList, "1".toList⟩]].foldl change
      (empty 0 : RangeIndex Int)).Represents
        ([.insert 7 1, .insert 7 2, .insert 9 1, .eraseKey 9,
          .apply [⟨.remove, "7".toList, "1".toList⟩]].foldl (Change.onSet 0) ∅) := by
  refine represents_of_changes 0 fun c hc => ?_
  simp only [List.mem_cons, List.not_mem_nil, or_false] at hc
  rcases hc with rfl | rfl | rfl | rfl | rfl
  · trivial
  · trivial
  · trivial
  · trivial
  · change WellFormed Int 0 [⟨.remove, "7".toList, "1".toList⟩]
    decide +kernel

end Examples

end RangeIndex

end Vsfs.Index

import Vsfs.Index.Relation
import Vsfs.Lib.Rank

/-!
# Splitting an index

`IndexImpl::split` moves the records of the larger half of the object ids into an empty index.
The containers are iterated in any order, as those of a hash index are. The last loop is read as
one over the other index.
-/

namespace Vsfs.Index

open Std

/-- The orders in which the map of an index and its sets of object ids are iterated. -/
class Iteration (K : Type) [LinearOrder K] where
  entries : ExtTreeMap K (ExtTreeSet ObjectId) → List (K × ExtTreeSet ObjectId)
  ids : ExtTreeSet ObjectId → List ObjectId

/-- An iteration visits every element once. -/
class LawfulIteration (K : Type) [LinearOrder K] [Iteration K] : Prop where
  entries_perm : ∀ index : ExtTreeMap K (ExtTreeSet ObjectId),
    (Iteration.entries index).Perm index.toList
  ids_perm : ∀ ids : ExtTreeSet ObjectId, (Iteration.ids K ids).Perm ids.toList

/-- `std::nth_element`. -/
class NthElement where
  nthElement : List ObjectId → Nat → List ObjectId

/-- The elements are rearranged, and the one of the rank is in its place. -/
class LawfulNthElement [NthElement] : Prop where
  perm : ∀ ids n, (NthElement.nthElement ids n).Perm ids
  rank : ∀ (ids : List ObjectId) (n : Nat), n < ids.length →
    ∃ a, (NthElement.nthElement ids n)[n]? = some a ∧ Rank.HasRank BitVec.toInt ids n a

namespace RangeIndex

variable {K : Type} [LinearOrder K]

section Operations

variable [Iteration K]

/-- The ids of all records, an id once for each of its keys. -/
def allObjIds (ix : RangeIndex K) : List ObjectId :=
  (Iteration.entries ix.index).flatMap fun entry => Iteration.ids K entry.2

def movedObjIds (K : Type) [LinearOrder K] [Iteration K] (median : ObjectId)
    (ids : ExtTreeSet ObjectId) : ExtTreeSet ObjectId :=
  (Iteration.ids K ids).foldl
    (fun moved oid => if median.sle oid then moved.insert oid else moved) ∅

/-- One turn of the loop that fills the other index. -/
def move (median : ObjectId) (other : RangeIndex K) (entry : K × ExtTreeSet ObjectId) :
    RangeIndex K :=
  let movedObjIds := movedObjIds K median entry.2
  if h : movedObjIds.isEmpty then other else other.setKey entry.1 movedObjIds h

/-- The ids that are left of a set, when others are erased. -/
def leftIds (K : Type) [LinearOrder K] [Iteration K] (ids gone : ExtTreeSet ObjectId) :
    ExtTreeSet ObjectId :=
  (Iteration.ids K gone).foldl (fun left oid => left.erase oid) ids

/-- One turn of the loop that erases what was moved: `index_[key]` makes an empty set for a key
that is not there, and a key with an empty set is erased. -/
def eraseMoved (ix : RangeIndex K) (entry : K × ExtTreeSet ObjectId) : RangeIndex K :=
  let left := leftIds K (ix.idsAt entry.1) entry.2
  if h : left.isEmpty then ix.eraseKey entry.1 else ix.setKey entry.1 left h

/-- The median, this index and the other one. -/
def split [NthElement] (ix other : RangeIndex K) : Cpp (ObjectId × RangeIndex K × RangeIndex K) :=
  if !other.isEmpty then .error (.check "other->empty()")
  else
    let medianPos := ix.size / 2
    match (NthElement.nthElement ix.allObjIds medianPos)[medianPos]? with
    | none => .error (.undefined "all_obj_ids[median_pos]")
    | some median =>
      let other := (Iteration.entries ix.index).foldl (move median) other
      .ok (median, (Iteration.entries other.index).foldl eraseMoved ix, other)

end Operations

section Loops

variable [Iteration K] [LawfulIteration K]

theorem mem_movedObjIds (median : ObjectId) (ids : ExtTreeSet ObjectId) (o : ObjectId) :
    o ∈ movedObjIds K median ids ↔ o ∈ ids ∧ median.toInt ≤ o.toInt := by
  have loop : ∀ (l : List ObjectId) (moved : ExtTreeSet ObjectId),
      o ∈ l.foldl (fun moved oid => if median.sle oid then moved.insert oid else moved) moved ↔
        o ∈ moved ∨ o ∈ l ∧ median.toInt ≤ o.toInt := by
    intro l
    induction l with
    | nil => simp
    | cons a l ih =>
      intro moved
      rw [List.foldl_cons, ih, BitVec.sle_eq_decide, List.mem_cons]
      by_cases above : median.toInt ≤ a.toInt
      · rw [if_pos (decide_eq_true above), ExtTreeSet.mem_insert, Std.compare_eq_iff_eq]
        grind
      · rw [if_neg (by simpa using above)]
        grind
  rw [movedObjIds, loop, (LawfulIteration.ids_perm (K := K) ids).mem_iff]
  simp

theorem mem_leftIds (ids gone : ExtTreeSet ObjectId) (o : ObjectId) :
    o ∈ leftIds K ids gone ↔ o ∈ ids ∧ o ∉ gone := by
  have loop : ∀ (l : List ObjectId) (left : ExtTreeSet ObjectId),
      o ∈ l.foldl (fun left oid => left.erase oid) left ↔ o ∈ left ∧ o ∉ l := by
    intro l
    induction l with
    | nil => simp
    | cons a l ih =>
      intro left
      rw [List.foldl_cons, ih, ExtTreeSet.mem_erase, ne_eq, Std.compare_eq_iff_eq, List.mem_cons]
      grind
  rw [leftIds, loop, (LawfulIteration.ids_perm (K := K) gone).mem_iff, ExtTreeSet.mem_toList]

/-! ## The loop that fills the other index -/

omit [LawfulIteration K] in
theorem getElem?_move (median : ObjectId) (other : RangeIndex K) {k : K}
    {entry : K × ExtTreeSet ObjectId} (ne : entry.1 ≠ k) :
    (move median other entry).index[k]? = other.index[k]? := by
  simp only [move]
  split
  · rfl
  · exact (FiniteMap.getElem?_insert _ _ _ _).trans (if_neg ne)

/-- A key that is new in the other index takes its larger ids along. -/
theorem pairs_move (median : ObjectId) (other : RangeIndex K) {entry : K × ExtTreeSet ObjectId}
    (new : other.index[entry.1]? = none) :
    (move median other entry).pairs = other.pairs ∪
      {p | p.1 = entry.1 ∧ p.2 ∈ entry.2 ∧ median.toInt ≤ p.2.toInt} := by
  ext ⟨k, o⟩
  by_cases same : entry.1 = k
  · subst same
    have absent : (entry.1, o) ∉ other.pairs := by
      rintro ⟨ids, here, _⟩
      rw [new] at here
      cases here
    have moved : (entry.1, o) ∈ (move median other entry).pairs ↔
        o ∈ movedObjIds K median entry.2 := by
      simp only [move]
      split
      · next none =>
        have empty := ExtTreeSet.isEmpty_iff.mp none
        rw [empty]
        simpa using absent
      · rw [mem_pairs_setKey, if_pos rfl]
    rw [moved, mem_movedObjIds]
    simp [absent]
  · have kept : (k, o) ∈ (move median other entry).pairs ↔ (k, o) ∈ other.pairs := by
      simp only [pairs, Set.mem_ofPred_eq, getElem?_move median other same]
    rw [kept]
    simp [Ne.symm same]

theorem pairs_foldl_move (median : ObjectId) (other : RangeIndex K)
    {entries : List (K × ExtTreeSet ObjectId)} (keys : (entries.map Prod.fst).Nodup)
    (new : ∀ entry ∈ entries, other.index[entry.1]? = none) :
    (entries.foldl (move median) other).pairs = other.pairs ∪
      {p | (∃ entry ∈ entries, p.1 = entry.1 ∧ p.2 ∈ entry.2) ∧ median.toInt ≤ p.2.toInt} := by
  induction entries generalizing other with
  | nil => simp
  | cons entry entries ih =>
    rw [List.map_cons, List.nodup_cons] at keys
    obtain ⟨fresh, keys⟩ := keys
    have later : ∀ e ∈ entries, (move median other entry).index[e.1]? = none := by
      intro e he
      have ne : entry.1 ≠ e.1 := fun same => fresh (same ▸ List.mem_map_of_mem he)
      rw [getElem?_move median other ne]
      exact new e (List.mem_cons_of_mem entry he)
    rw [List.foldl_cons, ih _ keys later, pairs_move median other (new entry List.mem_cons_self)]
    ext p
    simp only [Set.mem_union, Set.mem_ofPred_eq, List.mem_cons]
    grind

/-! ## The loop that erases what was moved -/

theorem pairs_eraseMoved (ix : RangeIndex K) (entry : K × ExtTreeSet ObjectId) :
    (ix.eraseMoved entry).pairs = {p ∈ ix.pairs | ¬ (p.1 = entry.1 ∧ p.2 ∈ entry.2)} := by
  ext ⟨k, o⟩
  by_cases same : entry.1 = k
  · subst same
    have left : (entry.1, o) ∈ (ix.eraseMoved entry).pairs ↔
        o ∈ leftIds K (ix.idsAt entry.1) entry.2 := by
      simp only [eraseMoved]
      split
      · next none =>
        have empty := ExtTreeSet.isEmpty_iff.mp none
        rw [empty, pairs_eraseKey]
        simp
      · rw [mem_pairs_setKey, if_pos rfl]
    rw [left, mem_leftIds, mem_idsAt]
    simp
  · have kept : (k, o) ∈ (ix.eraseMoved entry).pairs ↔ (k, o) ∈ ix.pairs := by
      simp only [eraseMoved]
      split
      · rw [pairs_eraseKey]
        simp [Ne.symm same]
      · rw [mem_pairs_setKey, if_neg same]
    rw [kept]
    simp [Ne.symm same]

theorem pairs_foldl_eraseMoved (ix : RangeIndex K) (entries : List (K × ExtTreeSet ObjectId)) :
    (entries.foldl eraseMoved ix).pairs =
      {p ∈ ix.pairs | ¬ ∃ entry ∈ entries, p.1 = entry.1 ∧ p.2 ∈ entry.2} := by
  induction entries generalizing ix with
  | nil => simp
  | cons entry entries ih =>
    rw [List.foldl_cons, ih, pairs_eraseMoved]
    ext p
    simp only [Set.mem_ofPred_eq, List.mem_cons]
    grind

/-! ## The whole split -/

theorem keys_entries (ix : RangeIndex K) :
    ((Iteration.entries ix.index).map Prod.fst).Nodup := by
  have perm := (LawfulIteration.entries_perm ix.index).map Prod.fst
  have keys : (ix.index.toList.map Prod.fst).Nodup :=
    List.pairwise_map.mpr (ix.sorted_toList.imp fun less => less.ne)
  exact perm.nodup_iff.mpr keys

theorem exists_mem_entries (ix : RangeIndex K) (p : K × ObjectId) :
    (∃ entry ∈ Iteration.entries ix.index, p.1 = entry.1 ∧ p.2 ∈ entry.2) ↔ p ∈ ix.pairs := by
  have visited : ∀ entry, entry ∈ Iteration.entries ix.index ↔
      ix.index[entry.1]? = some entry.2 := fun entry =>
    (LawfulIteration.entries_perm ix.index).mem_iff.trans
      ExtTreeMap.mem_toList_iff_getElem?_eq_some
  constructor
  · rintro ⟨⟨k, ids⟩, here, key, mem⟩
    exact ⟨ids, key ▸ (visited (k, ids)).mp here, mem⟩
  · rintro ⟨ids, here, mem⟩
    exact ⟨(p.1, ids), (visited (p.1, ids)).mpr here, rfl, mem⟩

/-- The ids that the median is taken of are those of the records. -/
theorem allObjIds_perm (ix : RangeIndex K) :
    ix.allObjIds.Perm (ix.entries.map Prod.snd) := by
  have ids : ix.entries.map Prod.snd = ix.index.toList.flatMap fun entry => entry.2.toList := by
    unfold entries
    rw [List.map_flatMap]
    congr 1
    funext entry
    rw [List.map_map]
    exact List.map_id _
  rw [ids]
  unfold allObjIds
  refine (List.Perm.flatMap_right _ (LawfulIteration.entries_perm ix.index)).trans ?_
  exact List.Perm.flatMap_left _ fun entry _ => LawfulIteration.ids_perm entry.2

theorem length_allObjIds (ix : RangeIndex K) : ix.allObjIds.length = ix.size := by
  rw [ix.allObjIds_perm.length_eq, List.length_map, size_eq_length]

/-- What a split leaves of the records: those below the median here and the others there, each
of them once. -/
structure Halves (ix : RangeIndex K) (median : ObjectId) (this other : RangeIndex K) : Prop where
  this_pairs : this.pairs = {p ∈ ix.pairs | p.2.toInt < median.toInt}
  other_pairs : other.pairs = {p ∈ ix.pairs | median.toInt ≤ p.2.toInt}
  conserved : (this.entries ++ other.entries).Perm ix.entries
  this_noEmptySet : ∀ k : K, this.index[k]? ≠ some ∅
  other_noEmptySet : ∀ k : K, other.index[k]? ≠ some ∅
  other_nonempty : other.isEmpty = false
  half : this.size ≤ ix.size / 2

omit [Iteration K] [LawfulIteration K] in
theorem entries_perm_filter {ix part : RangeIndex K} {keep : K × ObjectId → Bool}
    (kept : ∀ p, p ∈ part.pairs ↔ p ∈ ix.pairs ∧ keep p = true) :
    part.entries.Perm (ix.entries.filter keep) := by
  refine (List.perm_ext_iff_of_nodup part.nodup_entries (ix.nodup_entries.filter keep)).mpr ?_
  intro p
  rw [mem_entries, kept, List.mem_filter, mem_entries]

/-- The records below an id of rank `n` are at most `n`. -/
theorem size_le_of_hasRank {ix this : RangeIndex K} {median : ObjectId} {n : Nat}
    (rank : Rank.HasRank BitVec.toInt ix.allObjIds n median)
    (below : this.pairs = {p ∈ ix.pairs | p.2.toInt < median.toInt}) : this.size ≤ n := by
  have kept : this.entries.Perm (ix.entries.filter fun p => p.2.toInt < median.toInt) := by
    apply entries_perm_filter
    intro p
    simp [below]
  calc this.size
      = (ix.entries.filter fun p => p.2.toInt < median.toInt).length := by
        rw [size_eq_length, kept.length_eq]
    _ = ((ix.entries.map Prod.snd).filter fun o => o.toInt < median.toInt).length := by
        rw [List.filter_map, List.length_map]
        rfl
    _ = (ix.allObjIds.filter fun o => o.toInt < median.toInt).length :=
        ((ix.allObjIds_perm.filter _).length_eq).symm
    _ ≤ n := rank.length_below_le

/-- The records below an id of rank `n` and the others are halves. -/
theorem halves_of_pairs {ix this other : RangeIndex K} {median : ObjectId}
    (rank : Rank.HasRank BitVec.toInt ix.allObjIds (ix.size / 2) median)
    (this_pairs : this.pairs = {p ∈ ix.pairs | p.2.toInt < median.toInt})
    (other_pairs : other.pairs = {p ∈ ix.pairs | median.toInt ≤ p.2.toInt}) :
    Halves ix median this other where
  this_pairs := this_pairs
  other_pairs := other_pairs
  conserved := by
    have lower := @entries_perm_filter K _ ix this (fun p => p.2.toInt < median.toInt)
      fun p => by simp [this_pairs]
    have upper := @entries_perm_filter K _ ix other (fun p => !(p.2.toInt < median.toInt))
      fun p => by simp [other_pairs]
    exact (lower.append upper).trans (List.filter_append_perm _ ix.entries)
  this_noEmptySet := fun k here => this.noEmptySet k ∅ here rfl
  other_noEmptySet := fun k here => other.noEmptySet k ∅ here rfl
  other_nonempty := by
    -- The record of the median itself has moved.
    obtain ⟨p, here, rfl⟩ := List.mem_map.mp (ix.allObjIds_perm.mem_iff.mp rank.mem)
    have moved : p ∈ other.pairs := by
      rw [other_pairs]
      exact ⟨(mem_entries ix p).mp here, Int.le_refl _⟩
    rw [Bool.eq_false_iff, Ne, isEmpty_iff_pairs]
    intro none
    rw [none] at moved
    exact moved
  half := size_le_of_hasRank rank this_pairs

/-- The two loops one after the other. -/
theorem pairs_loops {ix other : RangeIndex K} (median : ObjectId) (empty : other.isEmpty = true) :
    ((Iteration.entries ix.index).foldl (move median) other).pairs =
        {p ∈ ix.pairs | median.toInt ≤ p.2.toInt} ∧
      ((Iteration.entries ((Iteration.entries ix.index).foldl (move median) other).index).foldl
          eraseMoved ix).pairs = {p ∈ ix.pairs | p.2.toInt < median.toInt} := by
  have fresh : ∀ entry ∈ Iteration.entries ix.index, other.index[entry.1]? = none := by
    intro entry _
    rw [ExtTreeMap.isEmpty_iff.mp empty]
    exact ExtTreeMap.getElem?_empty
  have filled : ((Iteration.entries ix.index).foldl (move median) other).pairs =
      {p ∈ ix.pairs | median.toInt ≤ p.2.toInt} := by
    rw [pairs_foldl_move median other ix.keys_entries fresh, (isEmpty_iff_pairs other).mp empty,
      Set.empty_union]
    simp only [exists_mem_entries]
  refine ⟨filled, ?_⟩
  rw [pairs_foldl_eraseMoved]
  ext p
  simp only [exists_mem_entries, filled, Set.mem_ofPred_eq]
  grind

omit [LawfulIteration K] in
theorem split_eq [NthElement] {ix other : RangeIndex K} {median : ObjectId}
    (empty : other.isEmpty = true)
    (found : (NthElement.nthElement ix.allObjIds (ix.size / 2))[ix.size / 2]? = some median) :
    ix.split other = .ok (median,
      (Iteration.entries ((Iteration.entries ix.index).foldl (move median) other).index).foldl
        eraseMoved ix,
      (Iteration.entries ix.index).foldl (move median) other) := by
  simp only [split, empty, found, Bool.not_true, Bool.false_eq_true, if_false]

theorem exists_median [NthElement] [LawfulNthElement] {ix : RangeIndex K} (records : 0 < ix.size) :
    ∃ median, (NthElement.nthElement ix.allObjIds (ix.size / 2))[ix.size / 2]? = some median ∧
      Rank.HasRank BitVec.toInt ix.allObjIds (ix.size / 2) median := by
  have inside : ix.size / 2 < ix.allObjIds.length := by
    rw [length_allObjIds]
    omega
  exact LawfulNthElement.rank ix.allObjIds (ix.size / 2) inside

/-- An index with a record is split at the median of its ids. -/
theorem split_halves [NthElement] [LawfulNthElement] {ix other : RangeIndex K}
    (records : 0 < ix.size) (empty : other.isEmpty = true) :
    ∃ median this other', ix.split other = .ok (median, this, other') ∧
      Halves ix median this other' := by
  obtain ⟨median, found, rank⟩ := exists_median records
  obtain ⟨filled, left⟩ := @pairs_loops K _ _ _ ix other median empty
  exact ⟨median, _, _, split_eq empty found, halves_of_pairs rank left filled⟩

/-- Without a record there is no median. -/
theorem split_isOk_iff [NthElement] [LawfulNthElement] (ix other : RangeIndex K) :
    (∃ halves, ix.split other = .ok halves) ↔ 0 < ix.size ∧ other.isEmpty = true := by
  constructor
  · rintro ⟨halves, ran⟩
    by_cases empty : other.isEmpty = true
    · refine ⟨?_, empty⟩
      by_contra none
      have short : (NthElement.nthElement ix.allObjIds (ix.size / 2)).length ≤ ix.size / 2 := by
        rw [(LawfulNthElement.perm ix.allObjIds (ix.size / 2)).length_eq, length_allObjIds]
        omega
      simp only [split, empty, List.getElem?_eq_none short, Bool.not_true, Bool.false_eq_true,
        if_false, reduceCtorEq] at ran
    · simp only [split, empty, Bool.not_false, if_true, reduceCtorEq] at ran
  · rintro ⟨records, empty⟩
    obtain ⟨median, found, _⟩ := exists_median records
    exact ⟨_, split_eq empty found⟩

end Loops

section Example

/-- Keys and ids in ascending order, and a sort in place of `std::nth_element`. -/
@[reducible] def ascending : Iteration Int := ⟨ExtTreeMap.toList, ExtTreeSet.toList⟩

@[reducible] def sorting : NthElement :=
  ⟨fun ids _ => ids.mergeSort fun a b => a.toInt ≤ b.toInt⟩

attribute [local instance] ascending sorting

theorem lawfulIteration_ascending : LawfulIteration Int where
  entries_perm _ := List.Perm.refl _
  ids_perm _ := List.Perm.refl _

theorem lawfulNthElement_sorting : LawfulNthElement where
  perm ids _ := List.mergeSort_perm ids _
  rank ids _ inside := Rank.hasRank_mergeSort ids inside

attribute [local instance] lawfulIteration_ascending lawfulNthElement_sorting

/-- One id under two keys, and a negative one. -/
theorem split_sharedId : ∃ median this other',
    (((empty 0 : RangeIndex Int).insert 7 5).insert 9 5 |>.insert 9 (-1)).split (empty 0) =
      .ok (median, this, other') ∧
    Halves (((empty 0 : RangeIndex Int).insert 7 5).insert 9 5 |>.insert 9 (-1)) median
      this other' :=
  split_halves (by decide) (by decide)

end Example

end RangeIndex

end Vsfs.Index

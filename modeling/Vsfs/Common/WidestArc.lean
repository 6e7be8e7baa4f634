import Vsfs.Common.ServerMap

/-!
# Joining in the middle of an arc

A server that joins is put into the middle of the widest arc of the ring. The three formulas
for the middle treat the hashes as unsigned, which they are not.

## Main results

* `lands_iff` : exactly when a joining server lands in the middle.
-/

namespace Vsfs.ServerMap

open Std

/-! ## Arcs -/

/-- How far it is up from one hash to another, around the end of the ring if need be. -/
def distance (lower upper : HashValueType) : Nat := (upper - lower).toNat

/-- The length of an arc. The arc of the only separator is the whole ring. -/
def arcLength (lower upper : HashValueType) : Nat :=
  if lower = upper then 2 ^ 64 else distance lower upper

/-- What is documented of `ConsistentHashMap::get_max_range`: the range lies between
consecutive separators, and no other such range is wider. -/
structure MaxRange (ring : HashRing) (lower upper : HashValueType) : Prop where
  lower_mem : lower.toInt ∈ ring
  upper_mem : upper.toInt ∈ ring
  consecutive : ∀ s : HashValueType, s.toInt ∈ ring → s ≠ lower →
    arcLength lower upper ≤ distance lower s
  widest : ∀ a b : HashValueType, a.toInt ∈ ring → b.toInt ∈ ring →
    (∀ s : HashValueType, s.toInt ∈ ring → s ≠ a → arcLength a b ≤ distance a s) →
    arcLength a b ≤ arcLength lower upper

/-- The numbers of `int64_t`. -/
def IsInt64 (i : Int) : Prop := -2 ^ 63 ≤ i ∧ i < 2 ^ 63

/-- The results of the operations by which `add` computes the position, as integers. -/
def steps (lower upper : Int) : List Int :=
  let max : Int := 2 ^ 63 - 1
  if lower < upper then [lower + upper, (lower + upper).tdiv 2]
  else if lower = upper then [lower + max.tdiv 2]
  else [max.tdiv 2 - lower.tdiv 2, max.tdiv 2 - lower.tdiv 2 + upper.tdiv 2,
    max.tdiv 2 - lower.tdiv 2 + upper.tdiv 2 + lower]

/-- The server joins in the middle: no operation overflows, the position is inside the arc if
the arc has an inner point, and cuts it into halves, and where there is an inner point the
position is a new one and the join succeeds. -/
structure Lands (servers : ServerMap) (answers : RingAnswers) (node : NodeInfo)
    (lower upper : HashValueType) : Prop where
  noOverflow : ∀ i ∈ steps lower.toInt upper.toInt, IsInt64 i
  inside : 1 < arcLength lower upper → 0 < distance lower (median lower upper) ∧
    distance lower (median lower upper) < arcLength lower upper
  halves : 2 * distance lower (median lower upper) ≤ arcLength lower upper + 1 ∧
    arcLength lower upper ≤ 2 * distance lower (median lower upper) + 1
  joins : 1 < arcLength lower upper → (median lower upper).toInt ∉ servers.ring ∧
    (servers.add answers node).1.ok = true

/-! ## Distances as integers -/

theorem toNat_eq_toInt (x : HashValueType) : (x.toNat : Int) = x.toInt % 2 ^ 64 := by
  have := x.isLt
  rw [BitVec.toInt_eq_toNat_cond]
  omega

theorem distance_eq (lower upper : HashValueType) :
    (distance lower upper : Int) = (upper.toInt - lower.toInt) % 2 ^ 64 := by
  unfold distance
  rw [BitVec.toNat_sub, BitVec.toInt_eq_toNat_cond, BitVec.toInt_eq_toNat_cond]
  have := lower.isLt
  have := upper.isLt
  omega

theorem isInt64_toInt (x : HashValueType) : IsInt64 x.toInt := ⟨x.le_toInt, x.toInt_lt⟩

/-- Half a number, towards zero. -/
theorem tdiv_two (x : Int) : (0 ≤ x ∧ 2 * x.tdiv 2 ≤ x ∧ x ≤ 2 * x.tdiv 2 + 1) ∨
    (x < 0 ∧ x ≤ 2 * x.tdiv 2 ∧ 2 * x.tdiv 2 ≤ x + 1) := by
  by_cases positive : 0 ≤ x
  · rw [Int.tdiv_eq_ediv_of_nonneg positive]
    omega
  · have half : x.tdiv 2 = -((-x) / 2) := by
      rw [← Int.neg_neg x, Int.neg_tdiv, Int.neg_neg, Int.tdiv_eq_ediv_of_nonneg (by omega)]
    omega

theorem toInt_sdiv_two (x : HashValueType) : (x.sdiv 2).toInt = x.toInt.tdiv 2 :=
  BitVec.toInt_sdiv_of_ne_or_ne x 2 (.inr (by decide))

theorem toInt_of_isInt64 {i : Int} (h : IsInt64 i) : i.bmod (2 ^ 64) = i :=
  Int.bmod_eq_of_le (by have := h.1; omega) (by have := h.2; omega)

/-! ## The three formulas -/

section Median

variable {lower upper : HashValueType}

theorem median_of_lt (less : lower.toInt < upper.toInt)
    (fits : IsInt64 (lower.toInt + upper.toInt)) :
    (median lower upper).toInt = (lower.toInt + upper.toInt).tdiv 2 := by
  unfold median
  rw [if_pos (BitVec.slt_iff_toInt_lt.mpr less), toInt_sdiv_two, BitVec.toInt_add,
    toInt_of_isInt64 fits]

/-- An arc that does not cross the end of the ring is halved. -/
theorem halves_of_lt (less : lower.toInt < upper.toInt)
    (fits : IsInt64 (lower.toInt + upper.toInt)) :
    (arcLength lower upper : Int) = upper.toInt - lower.toInt ∧
      (distance lower (median lower upper) : Int) =
        (lower.toInt + upper.toInt).tdiv 2 - lower.toInt := by
  have low := isInt64_toInt lower
  have high := isInt64_toInt upper
  have half := tdiv_two (lower.toInt + upper.toInt)
  have distinct : lower ≠ upper := by
    rintro rfl
    exact lt_irrefl _ less
  unfold IsInt64 at low high
  constructor
  · rw [arcLength, if_neg distinct, distance_eq]
    omega
  · rw [distance_eq, median_of_lt less fits]
    omega

theorem distance_of_eq (x : HashValueType) : distance x (median x x) = 2 ^ 62 - 1 := by
  have notLess : ¬ x.slt x = true := fun less => lt_irrefl _ (BitVec.slt_iff_toInt_lt.mp less)
  have quarter : ((BitVec.intMax 64).sdiv 2).toNat = 2 ^ 62 - 1 := by decide
  rw [distance, median, if_neg notLess, if_pos rfl, BitVec.add_comm, BitVec.add_sub_cancel, quarter]

/-- Across the end of the ring, the position is a quarter of the ring too low. -/
theorem distance_of_gt (greater : upper.toInt < lower.toInt) :
    (distance lower (median lower upper) : Int) =
      (2 ^ 62 - 1 - lower.toInt.tdiv 2 + upper.toInt.tdiv 2) % 2 ^ 64 := by
  have notLess : ¬ lower.slt upper = true := fun less =>
    lt_asymm greater (BitVec.slt_iff_toInt_lt.mp less)
  have distinct : lower ≠ upper := by
    rintro rfl
    exact lt_irrefl _ greater
  have quarter : (BitVec.intMax 64).toInt.tdiv 2 = 2 ^ 62 - 1 := by decide
  rw [distance, median, if_neg notLess, if_neg distinct, BitVec.add_sub_cancel, toNat_eq_toInt,
    BitVec.toInt_add, BitVec.toInt_sub, toInt_sdiv_two, toInt_sdiv_two, toInt_sdiv_two, quarter,
    Int.bmod_add_bmod]
  exact_mod_cast Int.bmod_emod

end Median

/-! ## Landing -/

variable {servers : ServerMap} {answers : RingAnswers} {lower upper : HashValueType}

theorem not_halves_of_eq :
    ¬ arcLength lower lower ≤ 2 * distance lower (median lower lower) + 1 := by
  rw [arcLength, if_pos rfl, distance_of_eq]
  decide

theorem not_halves_of_gt (greater : upper.toInt < lower.toInt) :
    ¬ (2 * distance lower (median lower upper) ≤ arcLength lower upper + 1 ∧
      arcLength lower upper ≤ 2 * distance lower (median lower upper) + 1) := by
  have low := isInt64_toInt lower
  have high := isInt64_toInt upper
  have half := tdiv_two lower.toInt
  have half' := tdiv_two upper.toInt
  have first := distance_of_gt greater
  have length := distance_eq lower upper
  have distinct : lower ≠ upper := by
    rintro rfl
    exact lt_irrefl _ greater
  unfold IsInt64 at low high
  rw [arcLength, if_neg distinct]
  omega

/-- A range of consecutive separators has no separator inside. -/
theorem MaxRange.not_mem {ring : HashRing} (range : MaxRange ring lower upper)
    {pos : HashValueType} (above : 0 < distance lower pos)
    (below : distance lower pos < arcLength lower upper) : pos.toInt ∉ ring := by
  intro used
  have distinct : pos ≠ lower := by
    rintro rfl
    simp [distance] at above
  exact absurd (range.consecutive pos used distinct) (Nat.not_le.mpr below)

/-- A joining server lands in the middle of the widest arc exactly when the arc does not cross
the end of the ring and the sum of its ends is a number of 64 bits. -/
theorem lands_iff (node : NodeInfo) (range : MaxRange servers.ring lower upper)
    (answered : answers.maxRange = .ok (lower, upper))
    (inserts : (median lower upper).toInt ∉ servers.ring → answers.insert = .OK) :
    Lands servers answers node lower upper ↔
      lower.toInt < upper.toInt ∧ IsInt64 (lower.toInt + upper.toInt) := by
  constructor
  · intro lands
    rcases Int.lt_trichotomy lower.toInt upper.toInt with less | same | greater
    · refine ⟨less, lands.noOverflow _ ?_⟩
      rw [steps, if_pos less]
      exact List.mem_cons_self
    · obtain rfl := BitVec.toInt_inj.mp same
      exact absurd lands.halves.2 not_halves_of_eq
    · exact absurd lands.halves (not_halves_of_gt greater)
  · rintro ⟨less, fits⟩
    obtain ⟨length, first⟩ := halves_of_lt less fits
    have half := tdiv_two (lower.toInt + upper.toInt)
    have inside : 1 < arcLength lower upper → 0 < distance lower (median lower upper) ∧
        distance lower (median lower upper) < arcLength lower upper := by omega
    refine ⟨fun i hi => ?_, inside, by omega, fun wide => ?_⟩
    · rw [steps, if_pos less] at hi
      unfold IsInt64 at fits ⊢
      simp only [List.mem_cons, List.not_mem_nil, or_false] at hi
      omega
    · have new := range.not_mem (inside wide).1 (inside wide).2
      have some_server : servers.ring.isEmpty = false := by
        refine ExtTreeMap.isEmpty_eq_false_iff.mpr fun empty => ?_
        have used := range.lower_mem
        simp [empty] at used
      refine ⟨new, ?_⟩
      rw [add, if_neg (by simp [some_server]), answered]
      simp only [insertAt, inserts new, Status.ok_OK]

/-! ## Rings of one and of two servers -/

def someNode : NodeInfo := { address := ⟨"host".toList, 1⟩ }

def joinAnswers (lower upper : HashValueType) : RingAnswers where
  random := 0
  maxRange := .ok (lower, upper)
  insert := .OK

def oneServer : ServerMap := ⟨(∅ : HashRing).insert 0 someNode⟩

theorem mem_oneServer {s : HashValueType} (h : s.toInt ∈ oneServer.ring) : s = 0 := by
  have same : 0 = s.toInt := by simpa [oneServer] using h
  exact BitVec.toInt_inj.mp same.symm

theorem maxRange_oneServer : MaxRange oneServer.ring 0 0 where
  lower_mem := ExtTreeMap.mem_insert_self
  upper_mem := ExtTreeMap.mem_insert_self
  consecutive s hs other := absurd (mem_oneServer hs) other
  widest a b ha hb _ := by rw [mem_oneServer ha, mem_oneServer hb]

/-- The second server gets a quarter of the ring. -/
theorem not_lands_oneServer : MaxRange oneServer.ring 0 0 ∧
    distance 0 (median 0 0) = 2 ^ 62 - 1 ∧ arcLength 0 0 = 2 ^ 64 ∧
      ¬ Lands oneServer (joinAnswers 0 0) someNode 0 0 :=
  ⟨maxRange_oneServer, by decide, by decide, fun lands => not_halves_of_eq lands.halves.2⟩

def lowest : HashValueType := BitVec.intMin 64

/-- The last hash but one. -/
def nearlyHighest : HashValueType := BitVec.intMax 64 - 1

def twoServers : ServerMap :=
  ⟨((∅ : HashRing).insert lowest.toInt someNode).insert nearlyHighest.toInt someNode⟩

theorem mem_twoServers {s : HashValueType} :
    s.toInt ∈ twoServers.ring ↔ s = nearlyHighest ∨ s = lowest := by
  simp only [twoServers, ExtTreeMap.mem_insert, Std.compare_eq_iff_eq, BitVec.toInt_inj,
    ExtTreeMap.not_mem_empty, or_false]
  exact or_congr eq_comm eq_comm

theorem maxRange_twoServers : MaxRange twoServers.ring lowest nearlyHighest where
  lower_mem := mem_twoServers.mpr (.inr rfl)
  upper_mem := mem_twoServers.mpr (.inl rfl)
  consecutive s hs other := by
    rcases mem_twoServers.mp hs with rfl | rfl
    · decide
    · exact absurd rfl other
  widest a b ha hb next := by
    rcases mem_twoServers.mp ha with rfl | rfl <;> rcases mem_twoServers.mp hb with rfl | rfl
    · exact absurd (next lowest (mem_twoServers.mpr (.inr rfl)) (by decide)) (by decide)
    · decide
    · exact le_rfl
    · exact absurd (next nearlyHighest (mem_twoServers.mpr (.inl rfl)) (by decide)) (by decide)

theorem lands_twoServers :
    Lands twoServers (joinAnswers lowest nearlyHighest) someNode lowest nearlyHighest := by
  have sum : lowest.toInt < nearlyHighest.toInt ∧
      IsInt64 (lowest.toInt + nearlyHighest.toInt) := by
    refine ⟨by decide, ?_, ?_⟩ <;> decide
  exact (lands_iff someNode maxRange_twoServers rfl fun _ => rfl).mpr sum

end Vsfs.ServerMap

import Mathlib.Data.Set.Finite.Lattice
import Mathlib.Order.Bounds.Basic
import Mathlib.Order.Interval.Set.Basic
import Mathlib.Data.Set.Finite.Lemmas

/-!
# Consistent hashing

A ring is a set of separators in a linear order. A key belongs to the greatest separator at
or below it, and to the greatest of all when there is none. Two keys cut the ring in two
arcs: the separators between them, and the others. Each separator is followed by the next
one above it, and the greatest by the least.

## Main results

* `owner_unique`, `owner_exists` : every key has one owner on a finite ring.
* `agree_iff` : what two keys are mapped to agrees exactly when an arc is empty or the last
  separators of the two arcs are mapped to the same.
* `next_unique`, `next_exists` : every separator of a finite ring has one next separator.
-/

namespace HashRing

universe u

variable {α : Type u} [LinearOrder α]

/-- The separator a key belongs to. -/
def Owner (S : Set α) (k s : α) : Prop :=
  IsGreatest (S ∩ Set.Iic k) s ∨ (S ∩ Set.Iic k = ∅ ∧ IsGreatest S s)

/-- The separators between two keys. -/
def inner (S : Set α) (lo hi : α) : Set α := S ∩ Set.Ioc lo hi

/-- The separators outside. -/
def outer (S : Set α) (lo hi : α) : Set α := S \ Set.Ioc lo hi

/-- The last separator of the outer arc, which runs from `hi` up and around to `lo`. -/
def LastOuter (S : Set α) (lo hi s : α) : Prop :=
  IsGreatest (S ∩ Set.Iic lo) s ∨ (S ∩ Set.Iic lo = ∅ ∧ IsGreatest (S ∩ Set.Ioi hi) s)

theorem Owner.mem {S : Set α} {k s : α} (h : Owner S k s) : s ∈ S := by
  rcases h with h | h
  · exact h.1.1
  · exact h.2.1

theorem owner_unique {S : Set α} {k s t : α} (hs : Owner S k s) (ht : Owner S k t) : s = t := by
  rcases hs with hs | ⟨none, hs⟩ <;> rcases ht with ht | ⟨none', ht⟩
  · exact hs.unique ht
  · exact absurd hs.1 (by simp [none'])
  · exact absurd ht.1 (by simp [none])
  · exact hs.unique ht

theorem exists_isGreatest {S : Set α} (finite : S.Finite) (nonempty : S.Nonempty) :
    ∃ s, IsGreatest S s := by
  obtain ⟨s, hs, greatest⟩ := Set.exists_max_image S id finite nonempty
  exact ⟨s, hs, greatest⟩

theorem owner_exists {S : Set α} (finite : S.Finite) (nonempty : S.Nonempty) (k : α) :
    ∃ s, Owner S k s := by
  rcases (S ∩ Set.Iic k).eq_empty_or_nonempty with none | some
  · obtain ⟨s, hs⟩ := exists_isGreatest finite nonempty
    exact ⟨s, .inr ⟨none, hs⟩⟩
  · obtain ⟨s, hs⟩ := exists_isGreatest (finite.subset Set.inter_subset_left) some
    exact ⟨s, .inl hs⟩

/-- Without separators in between, two keys have the same owner. -/
theorem owner_of_inner_empty {S : Set α} {lo hi s : α} (le : lo ≤ hi) (none : inner S lo hi = ∅)
    (h : Owner S lo s) : Owner S hi s := by
  have same : S ∩ Set.Iic hi = S ∩ Set.Iic lo := by
    ext t
    simp only [Set.mem_inter_iff, Set.mem_Iic]
    refine ⟨fun ⟨ht, below⟩ => ⟨ht, ?_⟩, fun ⟨ht, below⟩ => ⟨ht, below.trans le⟩⟩
    by_contra above
    have : t ∈ inner S lo hi := ⟨ht, not_le.mp above, below⟩
    simp [none] at this
  rwa [Owner, same]

/-- With separators in between, the upper key belongs to the last of them. -/
theorem owner_of_isGreatest_inner {S : Set α} {lo hi s : α} (h : IsGreatest (inner S lo hi) s) :
    Owner S hi s := by
  refine .inl ⟨⟨h.1.1, h.1.2.2⟩, fun t ht => ?_⟩
  by_cases above : lo < t
  · exact h.2 ⟨ht.1, above, ht.2⟩
  · exact (not_lt.mp above).trans h.1.2.1.le

/-- With separators outside, the lower key belongs to the last of them. -/
theorem owner_of_lastOuter {S : Set α} {lo hi s : α} (h : LastOuter S lo hi s) :
    Owner S lo s := by
  rcases h with h | ⟨none, h⟩
  · exact .inl h
  · refine .inr ⟨none, h.1.1, fun t ht => ?_⟩
    by_cases above : hi < t
    · exact h.2 ⟨ht, above⟩
    · exact (not_lt.mp above).trans h.1.2.le

theorem lastOuter_exists {S : Set α} (finite : S.Finite) {lo hi : α}
    (some : (outer S lo hi).Nonempty) : ∃ s, LastOuter S lo hi s := by
  rcases (S ∩ Set.Iic lo).eq_empty_or_nonempty with none | low
  · have high : (S ∩ Set.Ioi hi).Nonempty := by
      obtain ⟨t, ht, out⟩ := some
      refine ⟨t, ht, ?_⟩
      by_contra below
      have : t ∉ S ∩ Set.Iic lo := by simp [none]
      exact out ⟨not_le.mp fun le => this ⟨ht, le⟩, not_lt.mp below⟩
    obtain ⟨s, hs⟩ := exists_isGreatest (finite.subset Set.inter_subset_left) high
    exact ⟨s, .inr ⟨none, hs⟩⟩
  · obtain ⟨s, hs⟩ := exists_isGreatest (finite.subset Set.inter_subset_left) low
    exact ⟨s, .inl hs⟩

/-- With all separators in between, both keys belong to the greatest. -/
theorem owner_of_outer_empty {S : Set α} {lo hi s : α} (none : outer S lo hi = ∅)
    (h : Owner S lo s) : Owner S hi s := by
  have inside (t : α) (ht : t ∈ S) : t ∈ Set.Ioc lo hi := by
    by_contra out
    have : t ∈ outer S lo hi := ⟨ht, out⟩
    simp [none] at this
  rcases h with h | ⟨-, h⟩
  · exact absurd h.1.2 (not_le.mpr (inside s h.1.1).1)
  · exact .inl ⟨⟨h.1, (inside s h.1).2⟩, fun t ht => h.2 ht.1⟩

theorem agree_iff {β : Type*} {S : Set α} (finite : S.Finite) (f : α → β) {lo hi s t : α}
    (le : lo ≤ hi) (hs : Owner S lo s) (ht : Owner S hi t) :
    f s = f t ↔ inner S lo hi = ∅ ∨ outer S lo hi = ∅ ∨
      ∃ a b, IsGreatest (inner S lo hi) a ∧ LastOuter S lo hi b ∧ f a = f b := by
  by_cases noInner : inner S lo hi = ∅
  · rw [owner_unique ht (owner_of_inner_empty le noInner hs)]
    simp [noInner]
  by_cases noOuter : outer S lo hi = ∅
  · rw [owner_unique ht (owner_of_outer_empty noOuter hs)]
    simp [noOuter]
  obtain ⟨a, ha⟩ := exists_isGreatest (finite.subset Set.inter_subset_left)
    (Set.nonempty_iff_ne_empty.mpr noInner)
  obtain ⟨b, hb⟩ := lastOuter_exists finite (Set.nonempty_iff_ne_empty.mpr noOuter)
  have upper : t = a := owner_unique ht (owner_of_isGreatest_inner ha)
  have lower : s = b := owner_unique hs (owner_of_lastOuter hb)
  subst upper lower
  constructor
  · exact fun same => .inr (.inr ⟨t, s, ha, hb, same.symm⟩)
  · rintro (none | none | ⟨a, b, ha', hb', same⟩)
    · exact absurd none noInner
    · exact absurd none noOuter
    · rw [← owner_unique ht (owner_of_isGreatest_inner ha'),
        ← owner_unique hs (owner_of_lastOuter hb')] at same
      exact same.symm

/-! ## The next separator -/

/-- The separator that comes after another one, around the ring. -/
def Next (S : Set α) (s t : α) : Prop :=
  IsLeast (S ∩ Set.Ioi s) t ∨ (S ∩ Set.Ioi s = ∅ ∧ IsLeast S t)

theorem Next.mem {S : Set α} {s t : α} (h : Next S s t) : t ∈ S := by
  rcases h with h | h
  · exact h.1.1
  · exact h.2.1

theorem next_unique {S : Set α} {s t u : α} (ht : Next S s t) (hu : Next S s u) : t = u := by
  rcases ht with ht | ⟨none, ht⟩ <;> rcases hu with hu | ⟨none', hu⟩
  · exact ht.unique hu
  · exact absurd ht.1 (by simp [none'])
  · exact absurd hu.1 (by simp [none])
  · exact ht.unique hu

theorem exists_isLeast {S : Set α} (finite : S.Finite) (nonempty : S.Nonempty) :
    ∃ s, IsLeast S s := by
  obtain ⟨s, hs, least⟩ := Set.exists_min_image S id finite nonempty
  exact ⟨s, hs, least⟩

theorem next_exists {S : Set α} (finite : S.Finite) (nonempty : S.Nonempty) (s : α) :
    ∃ t, Next S s t := by
  rcases (S ∩ Set.Ioi s).eq_empty_or_nonempty with none | some
  · obtain ⟨t, ht⟩ := exists_isLeast finite nonempty
    exact ⟨t, .inr ⟨none, ht⟩⟩
  · obtain ⟨t, ht⟩ := exists_isLeast (finite.subset Set.inter_subset_left) some
    exact ⟨t, .inl ht⟩

/-- Only the single separator of a ring comes after itself. -/
theorem eq_of_next_self {S : Set α} {s t : α} (h : Next S s s) (ht : t ∈ S) : t = s := by
  rcases h with h | ⟨none, least⟩
  · exact absurd h.1.2 (lt_irrefl s)
  · by_contra other
    have above : s < t := lt_of_le_of_ne (least.2 ht) (Ne.symm other)
    have : t ∈ S ∩ Set.Ioi s := ⟨ht, above⟩
    simp [none] at this

/-- Two separators that come after each other are all there are. -/
theorem eq_or_eq_of_next_next {S : Set α} {s t u : α} (hst : Next S s t) (hts : Next S t s)
    (hu : u ∈ S) : u = s ∨ u = t := by
  have below {a b c : α} (hab : Next S a b) (hba : Next S b a) (hc : c ∈ S)
      (ordered : a < b) : c = a ∨ c = b := by
    have up : IsLeast (S ∩ Set.Ioi a) b := by
      refine hab.resolve_right ?_
      rintro ⟨none, -⟩
      have : b ∈ S ∩ Set.Ioi a := ⟨hab.mem, ordered⟩
      simp [none] at this
    have down : S ∩ Set.Ioi b = ∅ ∧ IsLeast S a := by
      refine hba.resolve_left fun h => ?_
      exact absurd h.1.2 (not_lt.mpr ordered.le)
    have least := down.2.2 hc
    by_contra neither
    obtain ⟨notA, notB⟩ := not_or.mp neither
    have fromB := up.2 ⟨hc, lt_of_le_of_ne least (Ne.symm notA)⟩
    have : c ∈ S ∩ Set.Ioi b := ⟨hc, lt_of_le_of_ne fromB (Ne.symm notB)⟩
    simp [down.1] at this
  rcases lt_trichotomy s t with less | rfl | more
  · exact below hst hts hu less
  · exact .inl (eq_of_next_self hst hu)
  · exact (below hts hst hu more).symm

end HashRing

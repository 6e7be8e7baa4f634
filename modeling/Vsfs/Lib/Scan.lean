import Mathlib.Data.List.Basic
import Mathlib.Data.List.Flatten

/-!
# Scans of a sorted list

An iterator that seeks to the first entry past a bound and stops at the first entry
past another one visits, on a sorted list, exactly the entries between the bounds.
-/

namespace Scan

variable {α : Type*}

/-- Skipping while `p` keeps the entries outside `p`, when `p` is downward closed
along the list. -/
theorem dropWhile_eq_filter {r : α → α → Prop} {p : α → Bool} {l : List α}
    (sorted : l.Pairwise r) (down : ∀ a b, r a b → p b → p a) :
    l.dropWhile p = l.filter (fun a => !p a) := by
  induction l with
  | nil => rfl
  | cons a l ih =>
    obtain ⟨ha, hl⟩ := List.pairwise_cons.mp sorted
    by_cases h : p a
    · simp [h, ih hl]
    · have rest : ∀ b ∈ l, (!p b) = true := by
        intro b hb
        simpa using fun hp => h (down a b (ha b hb) hp)
      simp [h, List.filter_eq_self.mpr rest]

theorem takeWhile_eq_filter {r : α → α → Prop} {p : α → Bool} {l : List α}
    (sorted : l.Pairwise r) (down : ∀ a b, r a b → p b → p a) :
    l.takeWhile p = l.filter p := by
  induction l with
  | nil => rfl
  | cons a l ih =>
    obtain ⟨ha, hl⟩ := List.pairwise_cons.mp sorted
    by_cases h : p a
    · simp [h, ih hl]
    · have rest : ∀ b ∈ l, ¬ p b := fun b hb hp => h (down a b (ha b hb) hp)
      simp [h, List.filter_eq_nil_iff.mpr rest]

theorem drop_length_takeWhile (p : α → Bool) (l : List α) :
    l.drop (l.takeWhile p).length = l.dropWhile p := by
  have split : l.takeWhile p ++ l.dropWhile p = l := List.takeWhile_append_dropWhile
  calc l.drop (l.takeWhile p).length
      = (l.takeWhile p ++ l.dropWhile p).drop (l.takeWhile p).length := by rw [split]
    _ = l.dropWhile p := List.drop_left

/-- A run ends by position `n` when nothing from there on would be accepted. -/
theorem length_takeWhile_le {p : α → Bool} {l : List α} {n : Nat}
    (h : ∀ a ∈ l.drop n, ¬ p a) : (l.takeWhile p).length ≤ n := by
  induction l generalizing n with
  | nil => simp
  | cons a l ih =>
    cases n with
    | zero => simp [h a (by simp)]
    | succ n =>
      by_cases hp : p a
      · simpa [hp] using ih (by simpa using h)
      · simp [hp]

theorem length_takeWhile_le_iff {r : α → α → Prop} {p : α → Bool} {l : List α} {n : Nat}
    (sorted : l.Pairwise r) (down : ∀ a b, r a b → p b → p a) :
    (l.takeWhile p).length ≤ n ↔ ∀ a ∈ l.drop n, ¬ p a := by
  refine ⟨fun h a ha => ?_, length_takeWhile_le⟩
  have late : a ∈ l.dropWhile p := by
    rw [← drop_length_takeWhile]
    exact (List.drop_sublist_drop_left l h).subset ha
  rw [dropWhile_eq_filter sorted down] at late
  simpa using (List.mem_filter.mp late).2

/-- Seek past `before`, then run while `within`: on a sorted list this is the selection
of the entries that are not `before` and are `within`. -/
theorem seek_run_eq_filter {r : α → α → Prop} (before within : α → Bool) {l : List α}
    (sorted : l.Pairwise r) (seek : ∀ a b, r a b → before b → before a)
    (run : ∀ a b, r a b → before a = false → within b → within a) :
    (l.dropWhile before).takeWhile within = l.filter (fun a => !before a && within a) := by
  have past : ∀ a ∈ l.dropWhile before, before a = false := by
    rw [dropWhile_eq_filter sorted seek]
    intro a ha
    simpa using (List.mem_filter.mp ha).2
  have tail : (l.dropWhile before).Pairwise (fun a b => r a b ∧ before a = false) :=
    (sorted.sublist (List.dropWhile_sublist _)).imp_of_mem fun ha _ hr => ⟨hr, past _ ha⟩
  rw [takeWhile_eq_filter tail fun a b h => run a b h.1 h.2, dropWhile_eq_filter sorted seek,
    List.filter_filter]
  simp only [Bool.and_comm]

theorem mem_seek_run {r : α → α → Prop} {before within : α → Bool} {l : List α}
    (sorted : l.Pairwise r) (seek : ∀ a b, r a b → before b → before a)
    (run : ∀ a b, r a b → before a = false → within b → within a) (a : α) :
    a ∈ (l.dropWhile before).takeWhile within ↔ a ∈ l ∧ before a = false ∧ within a = true := by
  rw [seek_run_eq_filter before within sorted seek run]
  simp

/-! ## Selections that give the same -/

/-- A narrower selection gives the same as a wider one exactly when the entries it leaves out
give nothing. -/
theorem flatMap_filter_eq_iff {β : Type*} {p q : α → Bool} (narrower : ∀ a, q a → p a)
    (g : α → List β) (l : List α) :
    (l.filter p).flatMap g = (l.filter q).flatMap g ↔ ∀ a ∈ l, p a → ¬ q a → g a = [] := by
  induction l with
  | nil => simp
  | cons a l ih =>
    by_cases hq : q a
    · simp [hq, narrower a hq, ih]
    by_cases hp : p a
    · have shorter : ((l.filter q).flatMap g).length ≤ ((l.filter p).flatMap g).length :=
        ((List.monotone_filter_right l narrower).flatMap g).length_le
      have left : ((a :: l).filter p).flatMap g = g a ++ (l.filter p).flatMap g := by simp [hp]
      have right : ((a :: l).filter q).flatMap g = (l.filter q).flatMap g := by simp [hq]
      rw [left, right]
      constructor
      · intro same
        have lengths := congrArg List.length same
        rw [List.length_append] at lengths
        have nothing : g a = [] := List.length_eq_zero_iff.mp (by omega)
        rw [nothing, List.nil_append] at same
        intro b hb
        rcases List.mem_cons.mp hb with rfl | hb
        · exact fun _ _ => nothing
        · exact ih.mp same b hb
      · intro nothing
        rw [nothing a List.mem_cons_self hp hq, List.nil_append]
        exact ih.mpr fun b hb => nothing b (List.mem_cons_of_mem a hb)
    · simp [hq, hp, ih]

end Scan

import Mathlib.Data.List.Basic
import Mathlib.Data.List.TakeWhile

/-!
# Cutting a list at its separators

The prefixes of a list that end in front of a separator form a chain. The longest of them is
what is in front of the last separator, and the others are the prefixes of that one.
-/

namespace Cuts

variable {α : Type*} [DecidableEq α]

/-- What is in front of the last separator. -/
def beforeLast (sep : α) (l : List α) : Option (List α) :=
  match l.reverse.dropWhile (fun a => decide (a ≠ sep)) with
  | [] => none
  | _ :: rest => some rest.reverse

/-- The list is cut in front of a separator. -/
def Cut (sep : α) (l q : List α) : Prop := q ++ [sep] <+: l

variable {sep : α} {l r q : List α}

omit [DecidableEq α] in
/-- A separator that occurs has a last occurrence. -/
theorem exists_last (here : sep ∈ l) : ∃ r tail, l = r ++ sep :: tail ∧ sep ∉ tail := by
  obtain ⟨back, front, split, absent⟩ := List.eq_append_cons_of_mem (List.mem_reverse.mpr here)
  refine ⟨front.reverse, back.reverse, ?_, by simpa using absent⟩
  rw [← List.reverse_reverse l, split]
  simp

theorem beforeLast_of_not_mem (absent : sep ∉ l) : beforeLast sep l = none := by
  have all : l.reverse.dropWhile (fun a => decide (a ≠ sep)) = [] := by
    rw [List.dropWhile_eq_nil_iff]
    intro a ha
    have other : a ≠ sep := fun same => absent (same ▸ List.mem_reverse.mp ha)
    simpa using other
  unfold beforeLast
  rw [all]

theorem beforeLast_append (absent : sep ∉ q) : beforeLast sep (l ++ sep :: q) = some l := by
  have skip : (l ++ sep :: q).reverse.dropWhile (fun a => decide (a ≠ sep)) =
      sep :: l.reverse := by
    rw [List.reverse_append, List.reverse_cons, List.append_assoc, List.dropWhile_append_of_pos]
    · simp
    · intro a ha
      have other : a ≠ sep := fun same => absent (same ▸ List.mem_reverse.mp ha)
      simpa using other
  unfold beforeLast
  rw [skip]
  exact congrArg some (List.reverse_reverse l)

/-- The list goes on with a separator, and with no further one. -/
theorem exists_of_beforeLast (h : beforeLast sep l = some r) :
    ∃ tail, l = r ++ sep :: tail ∧ sep ∉ tail := by
  by_cases here : sep ∈ l
  · obtain ⟨front, tail, rfl, absent⟩ := exists_last here
    rw [beforeLast_append absent] at h
    cases h
    exact ⟨tail, rfl, absent⟩
  · rw [beforeLast_of_not_mem here] at h
    cases h

/-- Without a separator there is no cut. -/
theorem not_cut (h : beforeLast sep l = none) : ¬ Cut sep l q := by
  intro cut
  have here : sep ∈ l := cut.subset (by simp)
  obtain ⟨r, tail, rfl, absent⟩ := exists_last here
  rw [beforeLast_append absent] at h
  cases h

/-- The cuts are the longest one and its own cuts. -/
theorem cut_iff (h : beforeLast sep l = some r) : Cut sep l q ↔ q = r ∨ Cut sep r q := by
  obtain ⟨tail, rfl, absent⟩ := exists_of_beforeLast h
  constructor
  · rintro ⟨rest, whole⟩
    rw [List.append_assoc, List.singleton_append] at whole
    rcases List.append_eq_append_iff.mp whole with ⟨more, rfl, shifted⟩ | ⟨more, rfl, shifted⟩
    · cases more with
      | nil => exact .inl (by simp)
      | cons a more =>
        cases shifted
        exact .inr ⟨more, by simp⟩
    · cases more with
      | nil => exact .inl (by simp)
      | cons a more =>
        cases shifted
        simp at absent
  · rintro (rfl | ⟨rest, rfl⟩)
    · exact ⟨tail, by simp⟩
    · exact ⟨rest ++ sep :: tail, by simp⟩

omit [DecidableEq α] in
theorem Cut.length_lt (h : Cut sep l q) : q.length < l.length := by
  have := h.length_le
  rw [List.length_append, List.length_singleton] at this
  omega

end Cuts

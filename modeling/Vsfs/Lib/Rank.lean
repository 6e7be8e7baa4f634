import Mathlib.Data.List.Sort
import Mathlib.Order.Basic

/-!
# The element of a rank

The element of rank `n` of a list is the one that stands at `n` when the list is sorted. Keys
may occur several times; at most `n` elements have a smaller key.
-/

namespace Rank

variable {α β : Type*} [LinearOrder β]

/-- `a` stands at `n` when the list is sorted by the key. -/
def HasRank (key : α → β) (l : List α) (n : Nat) (a : α) : Prop :=
  ∃ sorted : List α, sorted.Perm l ∧ sorted.Pairwise (fun a b => key a ≤ key b) ∧
    sorted[n]? = some a

variable {key : α → β} {l : List α} {n : Nat} {a : α}

theorem HasRank.mem (h : HasRank key l n a) : a ∈ l := by
  obtain ⟨sorted, perm, _, here⟩ := h
  exact perm.mem_iff.mp (List.mem_of_getElem? here)

/-- Only what stands in front of the element can be below it. -/
theorem HasRank.length_below_le (h : HasRank key l n a) :
    (l.filter fun b => key b < key a).length ≤ n := by
  obtain ⟨sorted, perm, ascending, here⟩ := h
  obtain ⟨inside, at_n⟩ := List.getElem?_eq_some_iff.mp here
  have back : (sorted.drop n).filter (fun b => decide (key b < key a)) = [] := by
    rw [List.drop_eq_getElem_cons inside, at_n, List.filter_eq_nil_iff]
    intro b hb
    have least : key a ≤ key b := by
      rcases List.mem_cons.mp hb with rfl | later
      · exact le_refl _
      · have tail := ascending.sublist (List.drop_sublist n sorted)
        rw [List.drop_eq_getElem_cons inside, at_n] at tail
        exact List.rel_of_pairwise_cons tail later
    simpa using least
  calc (l.filter fun b => key b < key a).length
      = (sorted.filter fun b => key b < key a).length := (perm.filter _).length_eq.symm
    _ = ((sorted.take n).filter fun b => key b < key a).length := by
        conv_lhs => rw [← List.take_append_drop n sorted, List.filter_append, back, List.append_nil]
    _ ≤ (sorted.take n).length := List.length_filter_le _ _
    _ ≤ n := List.length_take_le n sorted

/-- Sorting puts an element of every rank in its place. -/
theorem hasRank_mergeSort (l : List α) (inside : n < l.length) :
    ∃ a, (l.mergeSort fun a b => key a ≤ key b)[n]? = some a ∧ HasRank key l n a := by
  have perm := List.mergeSort_perm l fun a b => decide (key a ≤ key b)
  have here : n < (l.mergeSort fun a b => key a ≤ key b).length := perm.length_eq ▸ inside
  refine ⟨_, List.getElem?_eq_getElem here, _, perm, ?_, List.getElem?_eq_getElem here⟩
  have sorted := @List.pairwise_mergeSort α (fun a b => decide (key a ≤ key b))
    (by simpa using fun a b c => le_trans) (by simpa using fun a b => le_total _ _) l
  simpa using sorted

end Rank

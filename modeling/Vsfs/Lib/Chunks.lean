import Mathlib.Data.List.Basic
import Mathlib.Data.List.Induction

/-!
# Cutting a list into chunks as it comes

Elements are collected one after the other; as soon as there are enough of them they are put
aside as a chunk. What is left over at the end is shorter than a chunk.
-/

namespace Chunks

universe u

variable {α : Type u}

/-- The chunks put aside, and the elements collected since. -/
def add (size : Nat) : List (List α) × List α → α → List (List α) × List α
  | (full, part), a =>
    if size ≤ (part ++ [a]).length then (full ++ [part ++ [a]], []) else (full, part ++ [a])

def chunks (size : Nat) (l : List α) : List (List α) × List α := l.foldl (add size) ([], [])

theorem chunks_concat (size : Nat) (l : List α) (a : α) :
    chunks size (l ++ [a]) = add size (chunks size l) a := by
  simp [chunks]

/-- Nothing is lost or moved. -/
theorem flatten_chunks (size : Nat) (l : List α) :
    (chunks size l).1.flatten ++ (chunks size l).2 = l := by
  induction l using List.reverseRecOn with
  | nil => rfl
  | append_singleton l a ih =>
    rw [chunks_concat, add]
    split
    · rw [List.flatten_append, List.flatten_singleton, List.append_nil, ← List.append_assoc, ih]
    · rw [← List.append_assoc, ih]

/-- There is no chunk of nothing, even where nothing is enough for one. -/
theorem length_chunks (size : Nat) (l : List α) :
    (∀ chunk ∈ (chunks size l).1, chunk.length = max 1 size) ∧
      (chunks size l).2.length < max 1 size := by
  induction l using List.reverseRecOn with
  | nil => exact ⟨by simp [chunks], Nat.lt_of_lt_of_le Nat.one_pos (Nat.le_max_left 1 size)⟩
  | append_singleton l a ih =>
    obtain ⟨sizes, short⟩ := ih
    rw [chunks_concat, add]
    have longer : ((chunks size l).2 ++ [a]).length = (chunks size l).2.length + 1 := by simp
    split
    · next enough =>
      rw [longer] at enough
      refine ⟨fun chunk mem => ?_, Nat.lt_of_lt_of_le Nat.one_pos (Nat.le_max_left 1 size)⟩
      rcases List.mem_append.mp mem with old | new
      · exact sizes chunk old
      · rw [List.mem_singleton.mp new, longer]
        omega
    · next few =>
      rw [longer] at few
      exact ⟨sizes, by rw [longer]; omega⟩

/-- The chunks of a beginning are the first ones. -/
theorem chunks_prefix (size : Nat) (l l' : List α) :
    (chunks size l).1 <+: (chunks size (l ++ l')).1 := by
  induction l' using List.reverseRecOn with
  | nil => simp
  | append_singleton l' a ih =>
    rw [← List.append_assoc, chunks_concat, add]
    split
    · exact ih.trans (List.prefix_append _ _)
    · exact ih

/-- A list in chunks that are full but for the last one; what is left out is shorter than a
chunk, and nothing where the list is `whole`. -/
structure Chunked (size : Nat) (l : List α) (whole : Bool) (plan : List (List α)) : Prop where
  flatten : ∃ left, plan.flatten ++ left = l ∧ left.length < max 1 size ∧
    (whole = true → left = [])
  full : ∀ chunk ∈ plan.dropLast, chunk.length = max 1 size
  bounded : ∀ chunk ∈ plan, 0 < chunk.length ∧ chunk.length ≤ max 1 size

theorem bounded_chunks (size : Nat) (l : List α) :
    ∀ chunk ∈ (chunks size l).1, 0 < chunk.length ∧ chunk.length ≤ max 1 size := by
  intro chunk mem
  rw [(length_chunks size l).1 chunk mem]
  exact ⟨Nat.lt_of_lt_of_le Nat.one_pos (Nat.le_max_left 1 size), Nat.le_refl _⟩

theorem chunked_full (size : Nat) {l : List α} {whole : Bool}
    (none : whole = true → (chunks size l).2 = []) : Chunked size l whole (chunks size l).1 where
  flatten := ⟨(chunks size l).2, flatten_chunks size l, (length_chunks size l).2, none⟩
  full chunk mem := (length_chunks size l).1 chunk (List.dropLast_subset _ mem)
  bounded := bounded_chunks size l

theorem chunked_rest (size : Nat) {l : List α} (some : (chunks size l).2 ≠ []) (whole : Bool) :
    Chunked size l whole ((chunks size l).1 ++ [(chunks size l).2]) where
  flatten := by
    refine ⟨[], ?_, Nat.lt_of_lt_of_le Nat.one_pos (Nat.le_max_left 1 size), fun _ => rfl⟩
    rw [List.flatten_append, List.flatten_singleton, List.append_nil, flatten_chunks]
  full chunk mem := by
    rw [List.dropLast_concat] at mem
    exact (length_chunks size l).1 chunk mem
  bounded chunk mem := by
    rcases List.mem_append.mp mem with old | last
    · exact bounded_chunks size l chunk old
    · rw [List.mem_singleton.mp last]
      exact ⟨List.length_pos_iff.mpr some, Nat.le_of_lt (length_chunks size l).2⟩

end Chunks

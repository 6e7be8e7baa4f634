import Mathlib.Data.List.Basic

/-!
# Streams of frames

A stream is the concatenation of the frames of its messages. A byte prefix of it, such as
a file after a crash, holds the frames of the first messages and at its end possibly a
torn frame: a proper prefix of the frame of the next message.
-/

namespace Framing

variable {α β : Type*}

/-- The messages that lie wholly inside the first `n` places of the stream. -/
def whole (frame : β → List α) : Nat → List β → List β
  | _, [] => []
  | n, b :: bs =>
    if (frame b).length ≤ n then b :: whole frame (n - (frame b).length) bs else []

theorem mem_of_mem_whole {frame : β → List α} {n : Nat} {b : β} {bs : List β}
    (h : b ∈ whole frame n bs) : b ∈ bs := by
  induction bs generalizing n with
  | nil => cases h
  | cons c bs ih =>
    unfold whole at h
    split at h
    · rcases List.mem_cons.mp h with rfl | h
      · exact List.mem_cons_self
      · exact List.mem_cons_of_mem c (ih h)
    · cases h

/-- `tail` is what a frame of one of the messages leaves when it is cut off. -/
def Torn (frame : β → List α) (bs : List β) (tail : List α) : Prop :=
  tail = [] ∨ ∃ b ∈ bs, tail <+: frame b ∧ tail ≠ frame b

/-- A prefix of a stream is the frames of the messages inside it and a torn tail. -/
theorem prefix_split {frame : β → List α} {bs : List β} {p : List α}
    (h : p <+: bs.flatMap frame) :
    ∃ tail, p = (whole frame p.length bs).flatMap frame ++ tail ∧ Torn frame bs tail := by
  induction bs generalizing p with
  | nil =>
    have empty : p = [] := by simpa using h
    exact ⟨[], by simp [empty, whole], .inl rfl⟩
  | cons b bs ih =>
    by_cases inside : (frame b).length ≤ p.length
    · have first : frame b <+: p :=
        List.prefix_of_prefix_length_le (List.prefix_append _ _) h inside
      obtain ⟨q, rfl⟩ := first
      have next : q <+: bs.flatMap frame := by
        rw [List.flatMap_cons] at h
        exact (List.prefix_append_right_inj _).mp h
      obtain ⟨tail, split, torn⟩ := ih next
      have rest : (frame b ++ q).length - (frame b).length = q.length := by simp
      refine ⟨tail, ?_, torn.imp id fun ⟨c, hc, cut⟩ => ⟨c, List.mem_cons_of_mem b hc, cut⟩⟩
      rw [whole, if_pos inside, rest, List.flatMap_cons, List.append_assoc, ← split]
    · have cut : p <+: frame b := by
        rw [List.flatMap_cons] at h
        exact List.prefix_of_prefix_length_le h (List.prefix_append _ _) (by omega)
      refine ⟨p, by simp [whole, inside], .inr ⟨b, List.mem_cons_self, cut, ?_⟩⟩
      rintro rfl
      exact inside (Nat.le_refl _)

end Framing

import Mathlib.Data.List.Nodup
import Mathlib.Logic.Function.Iterate

/-!
# Walking a cursor over a list

A cursor reads an element where it stands and moves on by one step. A walk says which elements
it reads between two places.
-/

namespace Vsfs.Traversal

variable {σ α : Type*} {read : σ → Option α} {next : σ → σ}

/-- From the first place the cursor reads the elements of the list, one a step, and then
stands at the second. -/
inductive Walks (read : σ → Option α) (next : σ → σ) : σ → List α → σ → Prop where
  | done (s : σ) : Walks read next s [] s
  | step {s t : σ} {a : α} {as : List α} : read s = some a → Walks read next (next s) as t →
      Walks read next s (a :: as) t

theorem Walks.append {s t u : σ} {as bs : List α} (first : Walks read next s as t)
    (second : Walks read next t bs u) : Walks read next s (as ++ bs) u := by
  induction first with
  | done s => exact second
  | step here rest ih => exact .step here (ih second)

theorem Walks.iterate {s t : σ} {as : List α} (walk : Walks read next s as t) :
    next^[as.length] s = t := by
  induction walk with
  | done s => rfl
  | step here rest ih => simpa using ih

theorem Walks.read_iterate {s t : σ} {as : List α} (walk : Walks read next s as t) {n : Nat}
    (inside : n < as.length) : read (next^[n] s) = as[n]? := by
  induction walk generalizing n with
  | done s => simp at inside
  | step here rest ih =>
    cases n with
    | zero => simpa using here
    | succ n => simpa using ih (by simpa using inside)

/-- A walk to a place that stays where it is and reads nothing arrives there after as many
steps as it reads elements, and not before. -/
theorem Walks.arrives_iff {s t : σ} {as : List α} (walk : Walks read next s as t)
    (stays : next t = t) (silent : read t = none) (n : Nat) : next^[n] s = t ↔ as.length ≤ n := by
  constructor
  · intro arrived
    by_contra early
    have reads := walk.read_iterate (Nat.lt_of_not_le early)
    rw [arrived, silent] at reads
    have := List.getElem?_eq_none_iff.mp reads.symm
    omega
  · intro late
    obtain ⟨k, rfl⟩ := Nat.exists_eq_add_of_le' late
    rw [Function.iterate_add_apply, walk.iterate, Function.iterate_fixed stays]

/-- A walk over distinct elements reads each of them at one step. -/
theorem Walks.existsUnique_of_mem {s t : σ} {as : List α} (walk : Walks read next s as t)
    (distinct : as.Nodup) {a : α} (mem : a ∈ as) :
    ∃! n, n < as.length ∧ read (next^[n] s) = some a := by
  obtain ⟨n, inside, rfl⟩ := List.getElem_of_mem mem
  refine ⟨n, ⟨inside, ?_⟩, ?_⟩
  · rw [walk.read_iterate inside, List.getElem?_eq_getElem inside]
  · rintro m ⟨within, reads⟩
    rw [walk.read_iterate within] at reads
    obtain ⟨_, same⟩ := List.getElem?_eq_some_iff.mp reads
    exact distinct.getElem_inj_iff.mp same

end Vsfs.Traversal

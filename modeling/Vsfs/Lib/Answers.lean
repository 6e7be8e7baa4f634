import Vsfs.Lib.Program

/-!
# Fixed answers

When every call always has the same answer, a program without loops has one result, and a loop
whose turns are such programs runs until a turn is the last one, or for ever.
-/

namespace Program

universe v

open Prog

variable {E : Type → Type v} {φ ε α β : Type}

/-- Calls are answered in one way and change nothing. -/
def Fixed (answer : (β : Type) → E β → Except φ β) : Exec E φ Unit :=
  fun β e _ b _ => b = answer β e

/-- What a program without loops comes to. -/
def Prog.result (answer : (β : Type) → E β → Except φ β) {α : Type} :
    Prog E φ ε α → Option (Except ε α)
  | .ret a => some (.ok a)
  | .throw e => some (.error e)
  | .call e k => (k (answer _ e)).result answer
  | .iter _ _ _ => none

variable {answer : (β : Type) → E β → Except φ β} {post : Except ε β → Unit → Prop}

theorem result_bind_ok {p : Prog E φ ε α} {f : α → Prog E φ ε β} {a : α}
    (h : p.result answer = some (.ok a)) : (p.bind f).result answer = (f a).result answer := by
  induction p with
  | ret b =>
    cases h
    rfl
  | throw e => cases h
  | call e k ih => exact ih _ h
  | iter body x k => cases h

theorem result_bind_error {p : Prog E φ ε α} {f : α → Prog E φ ε β} {e : ε}
    (h : p.result answer = some (.error e)) : (p.bind f).result answer = some (.error e) := by
  induction p with
  | ret b => cases h
  | throw e =>
    cases h
    rfl
  | call e k ih => exact ih _ h
  | iter body x k => cases h

/-- What follows a program with a result goes on with the result. -/
theorem ends_bind_iff {p : Prog E φ ε α} {f : α → Prog E φ ε β} {r : Except ε α} {s : Unit}
    (h : p.result answer = some r) :
    Ends (Fixed answer) post (p.bind f) s ↔ Then (Fixed answer) f post r s := by
  induction p with
  | ret a =>
    cases h
    rfl
  | throw e =>
    cases h
    rw [throw_bind]
    constructor
    · rintro (_ | now | _ | _)
      exact now
    · intro now
      exact .throw now
  | call e k ih =>
    rw [call_bind, ends_call_iff, ← ih (answer _ e) h]
    constructor
    · exact fun rest => rest _ s rfl
    · rintro rest b s' rfl
      exact rest
  | iter body x k => cases h

/-- Every end of a program with a result is that result. -/
theorem always_of_result {p : Prog E φ ε α} {post : Except ε α → Unit → Prop} {r : Except ε α}
    {s : Unit} (h : p.result answer = some r) (now : post r ()) :
    Always (Fixed answer) post p s := by
  induction p with
  | ret a =>
    cases h
    exact .ret now
  | throw e =>
    cases h
    exact .throw now
  | call e k ih =>
    refine .call fun b s' same => ?_
    subst same
    exact ih _ h now
  | iter body x k => cases h

/-! ## Loops -/

section Loop

variable {σ : Type}

/-- The loop comes to its end at `r`. -/
inductive Stops (answer : (β : Type) → E β → Except φ β) (body : σ → Prog E φ ε (σ ⊕ α)) :
    σ → Except ε α → Prop where
  | last {x : σ} {a : α} (turn : (body x).result answer = some (.ok (.inr a))) :
      Stops answer body x (.ok a)
  | thrown {x : σ} {e : ε} (turn : (body x).result answer = some (.error e)) :
      Stops answer body x (.error e)
  | again {x y : σ} {r : Except ε α} (turn : (body x).result answer = some (.ok (.inl y)))
      (rest : Stops answer body y r) : Stops answer body x r

variable {body : σ → Prog E φ ε (σ ⊕ α)} {k : α → Prog E φ ε β} {x : σ}

theorem Stops.ends_iff {r : Except ε α} (stops : Stops answer body x r) {s : Unit} :
    Ends (Fixed answer) post (.iter body x k) s ↔ Then (Fixed answer) k post r s := by
  induction stops with
  | last turn => exact ends_iter_iff.trans (ends_bind_iff turn)
  | thrown turn => exact ends_iter_iff.trans (ends_bind_iff turn)
  | again turn _ ih => exact (ends_iter_iff.trans (ends_bind_iff turn)).trans ih

/-- A loop that ends has an end. -/
theorem exists_stops (turns : ∀ x, ∃ r, (body x).result answer = some r) {s : Unit}
    (total : Ends (Fixed answer) post (.iter body x k) s) : ∃ r, Stops answer body x r := by
  -- Where the loop stops from a later turn on, it stops.
  have always : Always (Fixed answer) (fun r _ => Stops answer body x r) (loop body x) s := by
    have each (y : σ) (t : Unit) (later : ∀ r, Stops answer body y r → Stops answer body x r) :
        Always (Fixed answer) (Turns (Fixed answer)
          (fun y _ => ∀ r, Stops answer body y r → Stops answer body x r) .ret
          fun r _ => Stops answer body x r) (body y) t := by
      obtain ⟨r, turn⟩ := turns y
      refine always_of_result turn ?_
      match r, turn with
      | .ok (.inl z), turn => exact fun r' stops => later r' (.again turn stops)
      | .ok (.inr a), turn => exact .ret (later _ (.last turn))
      | .error e, turn => exact later _ (.thrown turn)
    exact .iter each fun _ stops => stops
  obtain ⟨r, s', run⟩ := total.exists_evals fun β e s => ⟨answer β e, s, rfl⟩
  rw [← loop_bind] at run
  rcases run.bind_cases with ⟨a, s₁, first, -⟩ | ⟨e, -, first⟩
  · exact ⟨_, always _ _ first⟩
  · exact ⟨_, always _ _ first⟩

end Loop

end Program

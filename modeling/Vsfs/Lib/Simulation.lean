import Vsfs.Lib.Transition

/-!
# Simulations between a server and its specification

A server takes requests one after the other and answers each of them; a crash ends the run.
A specification says which answers are right in which of its own, more abstract states, and
may leave a choice. A relation between the states that every request keeps carries over to
runs: the answers of the server are answers of the specification.

## Main results

* `Simulates.serve` : the answers to a run of requests are right.
* `serve_agrees` : servers that answer every request alike answer every run alike.
-/

namespace Simulation

open Transition

universe u v w x

variable {σ : Type u} {τ : Type v} {α : Type w} {β : Type x} {ε : Type}

/-- The answers to the requests, in order, and the state at the end. -/
def serve (step : σ → α → Except ε (β × σ)) (s : σ) : List α → Except ε (List β × σ)
  | [] => .ok ([], s)
  | a :: as =>
    match step s a with
    | .error e => .error e
    | .ok (b, s') =>
      match serve step s' as with
      | .error e => .error e
      | .ok (bs, s'') => .ok (b :: bs, s'')

/-- The step of a server without its answer. -/
def moves (step : σ → α → Except ε (β × σ)) (s : σ) (a : α) : Except ε σ := (step s a).map Prod.snd

/-- The specification may give these answers, one after the other. -/
inductive Answers (spec : τ → α → β → τ → Prop) : τ → List α → List β → τ → Prop where
  | nil {t : τ} : Answers spec t [] [] t
  | cons {t t' t'' : τ} {a : α} {b : β} {as : List α} {bs : List β} (now : spec t a b t')
      (later : Answers spec t' as bs t'') : Answers spec t (a :: as) (b :: bs) t''

/-- Whenever a request meets the condition, the server answers it as the specification may,
and the states stay related. -/
def Simulates (step : σ → α → Except ε (β × σ)) (cond : σ → α → Prop)
    (spec : τ → α → β → τ → Prop) (R : σ → τ → Prop) : Prop :=
  ∀ s t a, R s t → cond s a → ∃ b s' t', step s a = .ok (b, s') ∧ spec t a b t' ∧ R s' t'

/-- Two servers crash alike, or give the same answer and stay related. -/
inductive Agrees (R : σ → τ → Prop) : Except ε (β × σ) → Except ε (β × τ) → Prop where
  | answered {b : β} {s : σ} {t : τ} (related : R s t) : Agrees R (.ok (b, s)) (.ok (b, t))
  | crashed {e : ε} : Agrees R (.error e) (.error e)

theorem Agrees.map {γ : Type*} {R : σ → τ → Prop} {x : Except ε (β × σ)} {y : Except ε (β × τ)}
    (agrees : Agrees R x y) (g : β → γ) :
    Agrees R (x.map fun (b, s) => (g b, s)) (y.map fun (b, t) => (g b, t)) := by
  cases agrees with
  | answered related => exact .answered related
  | crashed => exact .crashed

theorem moves_of_step {step : σ → α → Except ε (β × σ)} {s s' : σ} {a : α} {b : β}
    (h : step s a = .ok (b, s')) : moves step s a = .ok s' := by
  rw [moves, h]
  rfl

theorem serve_cons_ok {step : σ → α → Except ε (β × σ)} {s s' s'' : σ} {a : α} {b : β}
    {as : List α} {bs : List β} (now : step s a = .ok (b, s'))
    (later : serve step s' as = .ok (bs, s'')) : serve step s (a :: as) = .ok (b :: bs, s'') := by
  simp only [serve, now, later]

variable {step : σ → α → Except ε (β × σ)} {cond : σ → α → Prop} {spec : τ → α → β → τ → Prop}
  {R : σ → τ → Prop}

/-- From related states, every run of requests that meet their conditions ends, and its
answers are right. -/
theorem Simulates.serve (sim : Simulates step cond spec R) {s : σ} {t : τ} {as : List α}
    (related : R s t) (meets : Meets (moves step) cond s as) :
    ∃ bs s' t', serve step s as = .ok (bs, s') ∧ Answers spec t as bs t' ∧ R s' t' := by
  induction as generalizing s t with
  | nil => exact ⟨[], s, t, rfl, .nil, related⟩
  | cons a as ih =>
    obtain ⟨b, s₁, t₁, stepped, right, related₁⟩ := sim s t a related meets.1
    obtain ⟨bs, s₂, t₂, served, rest, related₂⟩ := ih related₁ (meets.2 s₁ (moves_of_step stepped))
    exact ⟨b :: bs, s₂, t₂, serve_cons_ok stepped served, .cons right rest, related₂⟩

theorem serve_agrees {step' : τ → α → Except ε (β × τ)} (ask : α → Prop)
    (each : ∀ s t a, R s t → ask a → Agrees R (step s a) (step' t a)) {as : List α}
    (asked : ∀ a ∈ as, ask a) {s : σ} {t : τ} (related : R s t) :
    Agrees R (Simulation.serve step s as) (Simulation.serve step' t as) := by
  induction as generalizing s t with
  | nil => exact .answered related
  | cons a as ih =>
    have now := each s t a related (asked a (by simp))
    have later := fun s' t' => ih (s := s') (t := t') fun b hb => asked b (by simp [hb])
    unfold Simulation.serve
    generalize step s a = first at now ⊢
    generalize step' t a = second at now ⊢
    cases now with
    | crashed => exact .crashed
    | @answered b s' t' related' =>
      have rest := later s' t' related'
      dsimp only
      generalize Simulation.serve step s' as = first at rest ⊢
      generalize Simulation.serve step' t' as = second at rest ⊢
      cases rest with
      | crashed => exact .crashed
      | answered related'' => exact .answered related''

end Simulation

import Vsfs.Lib.Custody

/-!
# Programs side by side where calls can go wrong

A `Custody` shows that nothing goes wrong. An `Oversight` is for programs that may throw, in an
environment in which a call may take everything down for a reason that is expected: an invariant
of the state and of what each task has come to is kept as far as a run goes. `Upholds` is the
judgement about one program.

## Main results

* `Oversight.upheld_run` : if every program upholds the invariant, every run does to its end, or
  until everything is taken down for a reason that is expected.
-/

namespace Program

open Prog Function

universe u v

variable {E : Type → Type v} {φ ε α L I κ H : Type} {S : Type u}

/-- An invariant of the state and of what each task has come to; what the environment keeps to when
it serves a call; what a task may have come to that throws; and what may take everything down. -/
structure Oversight (E : Type → Type v) (L I κ H : Type) (S : Type u) where
  idle : H
  inv : S → (Nat → H) → Prop
  fair : (β : Type) → L → I → E β → S → Prop
  thrown : H → Prop
  down : κ → Prop

namespace Oversight

/-- Task `i`, which has come to `h`, keeps the invariant by each of its calls, and what it returns
and has come to in the end meets `post`. -/
def Upholds (C : Oversight E L I κ H S) (serve : Serve E φ I κ S) (i : Nat) (label : L) :
    {α : Type} → Prog E φ ε α → H → (α → H → Prop) → Prop
  | _, .ret a, h, post => post a h
  | _, .throw _, h, _ => C.thrown h
  | _, .call e k, h, post => ∀ s hs input, hs i = h → C.inv s hs → C.fair _ label input e s →
      (∀ halt, serve _ input e s = .error halt → C.down halt) ∧
      ∀ answer s', serve _ input e s = .ok (answer, s') →
        ∃ h', C.inv s' (update hs i h') ∧ Upholds C serve i label (k answer) h' post
  | _, .iter body x k, h, post => ∃ J : _ → H → Prop, J x h ∧ ∀ y g, J y g →
      Upholds C serve i label (body y) g fun r g' =>
        match r with
        | .inl z => J z g'
        | .inr b => Upholds C serve i label (k b) g' post

section Rules

variable {C : Oversight E L I κ H S} {serve : Serve E φ I κ S} {i : Nat} {label : L}

theorem Upholds.mono {p : Prog E φ ε α} {h : H} {post post' : α → H → Prop}
    (upholds : C.Upholds serve i label p h post) (weaker : ∀ a g, post a g → post' a g) :
    C.Upholds serve i label p h post' := by
  induction p generalizing h with
  | ret a => exact weaker a h upholds
  | throw e => exact upholds
  | call e k ih =>
    intro s hs input holds inv fair
    obtain ⟨down, next⟩ := upholds s hs input holds inv fair
    refine ⟨down, fun answer s' served => ?_⟩
    obtain ⟨h', inv', rest⟩ := next answer s' served
    exact ⟨h', inv', ih answer rest weaker⟩
  | iter body x k ihb ih =>
    obtain ⟨J, start, turn⟩ := upholds
    refine ⟨J, start, fun y g here => ihb y (turn y g here) fun r g' ended => ?_⟩
    cases r with
    | inl z => exact ended
    | inr b => exact ih b ended weaker

theorem Upholds.bind {β : Type} {p : Prog E φ ε α} {f : α → Prog E φ ε β} {h : H}
    {mid : α → H → Prop} {post : β → H → Prop} (first : C.Upholds serve i label p h mid)
    (rest : ∀ a g, mid a g → C.Upholds serve i label (f a) g post) :
    C.Upholds serve i label (p.bind f) h post := by
  induction p generalizing h with
  | ret a => exact rest a h first
  | throw e => exact first
  | call e k ih =>
    intro s hs input holds inv fair
    obtain ⟨down, next⟩ := first s hs input holds inv fair
    refine ⟨down, fun answer s' served => ?_⟩
    obtain ⟨h', inv', later⟩ := next answer s' served
    exact ⟨h', inv', ih answer later rest⟩
  | iter body x k _ ih =>
    obtain ⟨J, start, turn⟩ := first
    refine ⟨J, start, fun y g here => (turn y g here).mono fun r g' ended => ?_⟩
    cases r with
    | inl z => exact ended
    | inr b => exact ih b ended rest

/-- One turn of a loop and what follows it. -/
theorem Upholds.turn {σ β : Type} {body : σ → Prog E φ ε (σ ⊕ β)} {x : σ} {k : β → Prog E φ ε α}
    {h : H} {post : α → H → Prop} (upholds : C.Upholds serve i label (.iter body x k) h post) :
    C.Upholds serve i label ((body x).bind (again body k)) h post := by
  obtain ⟨J, start, turn⟩ := upholds
  refine (turn x h start).bind fun r g ended => ?_
  cases r with
  | inl z => exact ⟨J, ended, turn⟩
  | inr b => exact ended

/-- A program that makes only calls after which the task has come to nothing else. -/
theorem upholds_of_calls {allowed : (β : Type) → E β → Prop} {h : H} (thrown : C.thrown h)
    (each : ∀ β (e : E β) s hs input, allowed β e → hs i = h → C.inv s hs →
      C.fair β label input e s → (∀ halt, serve β input e s = .error halt → C.down halt) ∧
      ∀ answer s', serve β input e s = .ok (answer, s') → C.inv s' hs)
    {p : Prog E φ ε α} (calls : p.Calls allowed) :
    C.Upholds serve i label p h fun _ g => g = h := by
  induction p with
  | ret a => rfl
  | throw e => exact thrown
  | call e k ih =>
    intro s hs input holds inv fair
    obtain ⟨down, kept⟩ := each _ e s hs input calls.1 holds inv fair
    refine ⟨down, fun answer s' served => ⟨h, ?_, ih answer (calls.2 answer)⟩⟩
    have kept := kept answer s' served
    rwa [← holds, update_eq_self]
  | iter body x k ihb ih =>
    refine ⟨fun _ g => g = h, rfl, fun y g here => ?_⟩
    subst here
    refine (ihb y (calls.1 y)).mono fun r g' same => ?_
    subst same
    cases r with
    | inl z => rfl
    | inr b => exact ih b (calls.2 b)

end Rules

/-! ## Runs -/

variable (C : Oversight E L I κ H S)

/-- Only programs that are allowed are started, and every call is served fairly. -/
def Fair (allow : L → Prop) (p : Pool E φ ε α L S) : Event L I → Prop
  | .start label => allow label
  | .advance i input => ∀ label calls β (e : E β) (k : Except φ β → Prog E φ ε α),
      p.tasks[i]? = some ⟨label, calls, .call e k⟩ → C.fair β label input e p.state

instance decidableFair (allow : L → Prop) [DecidablePred allow]
    [∀ β label input (e : E β) s, Decidable (C.fair β label input e s)] (p : Pool E φ ε α L S)
    (event : Event L I) : Decidable (C.Fair allow p event) :=
  match event with
  | .start label => inferInstanceAs (Decidable (allow label))
  | .advance i input =>
    match found : p.tasks[i]? with
    | some ⟨label, calls, .call e k⟩ =>
      decidable_of_iff (C.fair _ label input e p.state)
        ⟨fun h _ _ _ _ _ same => by rw [found] at same; cases same; exact h,
          fun h => h _ _ _ _ _ found⟩
    | some ⟨_, _, .ret _⟩ => .isTrue fun _ _ _ _ _ same => by rw [found] at same; cases same
    | some ⟨_, _, .throw _⟩ => .isTrue fun _ _ _ _ _ same => by rw [found] at same; cases same
    | some ⟨_, _, .iter _ _ _⟩ => .isTrue fun _ _ _ _ _ same => by rw [found] at same; cases same
    | none => .isTrue fun _ _ _ _ _ same => by rw [found] at same; cases same

/-- What each task of a pool has come to is enough for what is left of its program. -/
abbrev Upheld (serve : Serve E φ I κ S) (post : L → α → H → Prop) : Pool E φ ε α L S → Prop :=
  Pool.Assigned C.inv C.idle fun i t h => C.Upholds serve i t.label t.prog h (post t.label)

variable {C} {serve : Serve E φ I κ S} {allow : L → Prop} {post : L → α → H → Prop}

theorem Upheld.step {program : L → Prog E φ ε α}
    (programs : ∀ i label, allow label →
      C.Upholds serve i label (program label) C.idle (post label))
    {p p' : Pool E φ ε α L S} {event : Event L I} (upheld : C.Upheld serve post p)
    (stepped : p.step program serve event = .ok p') (fair : C.Fair allow p event) :
    C.Upheld serve post p' := by
  cases Pool.stepped_of_step stepped with
  | start label => exact upheld.start fun i => programs i label fair
  | idle => exact upheld
  | turn found =>
    obtain ⟨hs, inv, each, rest⟩ := upheld
    have mine := each _ _ found
    exact .set found (by rwa [update_eq_self]) each rest mine.turn
  | call found served =>
    obtain ⟨hs, inv, each, rest⟩ := upheld
    obtain ⟨-, next⟩ := each _ _ found _ _ _ rfl inv (fair _ _ _ _ _ found)
    obtain ⟨h', inv', next⟩ := next _ _ served
    exact .set found inv' each rest next

/-- A step that takes everything down does so for a reason that is expected. -/
theorem Upheld.down {program : L → Prog E φ ε α} {p : Pool E φ ε α L S} {event : Event L I}
    {halt : κ} (upheld : C.Upheld serve post p)
    (stepped : p.step program serve event = .error halt) (fair : C.Fair allow p event) :
    C.down halt := by
  obtain ⟨i, input, label, calls, β, e, k, rfl, found, served⟩ := Pool.call_of_step_error stepped
  obtain ⟨hs, inv, each, -⟩ := upheld
  exact (each _ _ found _ _ _ rfl inv (fair _ _ _ _ _ found)).1 halt served

/-- Every fair run of programs that uphold the invariant upholds it, unless everything is taken
down for a reason that is expected. -/
theorem upheld_run {program : L → Prog E φ ε α}
    (programs : ∀ i label, allow label →
      C.Upholds serve i label (program label) C.idle (post label))
    {s : S} (start : C.inv s fun _ => C.idle) {events : List (Event L I)}
    (fair : Transition.Meets (Pool.step program serve) (C.Fair allow) ⟨s, []⟩ events) :
    Transition.Barring C.down (C.Upheld serve post)
      (Transition.run (Pool.step program serve) ⟨s, []⟩ events) :=
  Transition.run_barring
    (fun _ _ _ upheld stepped fair => upheld.step programs stepped fair)
    (fun _ _ _ upheld stepped fair => Upheld.down upheld stepped fair) (.empty start) fair

end Oversight

end Program

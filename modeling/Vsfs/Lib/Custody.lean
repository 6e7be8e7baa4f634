import Mathlib.Logic.Function.Basic
import Vsfs.Lib.Pool

/-!
# Programs that keep what they hold in custody

Programs that run side by side can be checked one at a time when every task holds what it works
on. A `Custody` fixes an invariant of the state and of what each task holds, what a task must
hold to make a call, and what the environment keeps to. `Keeps` is the judgement that a program
makes only calls it may make and keeps the invariant by each, whatever the other tasks hold.

## Main results

* `Custody.kept_run` : if every program keeps the custody, every run of the pool does, and no
  call takes everything down.
-/

namespace Program

open Prog Function

universe u v

variable {E : Type → Type v} {φ ε α L I κ H : Type} {S : Type u}

/-! ## What the tasks of a pool hold -/

namespace Pool

/-- Every task holds what its judgement asks for, and together they meet the invariant. -/
def Assigned (inv : S → (Nat → H) → Prop) (idle : H) (judge : Nat → Task E φ ε α L → H → Prop)
    (p : Pool E φ ε α L S) : Prop :=
  ∃ hs, inv p.state hs ∧ (∀ i t, p.tasks[i]? = some t → judge i t (hs i)) ∧
    ∀ i, p.tasks.length ≤ i → hs i = idle

variable {inv : S → (Nat → H) → Prop} {idle : H} {judge : Nat → Task E φ ε α L → H → Prop}

theorem Assigned.empty {s : S} (start : inv s fun _ => idle) :
    Assigned inv idle judge (⟨s, []⟩ : Pool E φ ε α L S) := by
  refine ⟨_, start, fun i t found => ?_, fun _ _ => rfl⟩
  simp at found

/-- A new task holds nothing yet. -/
theorem Assigned.start {p : Pool E φ ε α L S} {t : Task E φ ε α L}
    (assigned : Assigned inv idle judge p) (new : ∀ i, judge i t idle) :
    Assigned inv idle judge { p with tasks := p.tasks ++ [t] } := by
  obtain ⟨hs, holds, each, rest⟩ := assigned
  refine ⟨hs, holds, fun i u found => ?_, fun i outside => rest i ?_⟩
  · rw [List.getElem?_append] at found
    split at found
    · exact each i u found
    · rw [List.getElem?_singleton] at found
      split at found
      · cases found
        rw [rest i (by omega)]
        exact new i
      · cases found
  · rw [List.length_append] at outside
    omega

/-- Task `i` has moved on, and holds `h` now. -/
theorem Assigned.set {p : Pool E φ ε α L S} {hs : Nat → H} {i : Nat} {t t' : Task E φ ε α L}
    {state : S} {h : H} (found : p.tasks[i]? = some t) (holds : inv state (update hs i h))
    (others : ∀ j u, p.tasks[j]? = some u → judge j u (hs j))
    (rest : ∀ j, p.tasks.length ≤ j → hs j = idle) (moved : judge i t' h) :
    Assigned inv idle judge ⟨state, p.tasks.set i t'⟩ := by
  obtain ⟨inside, _⟩ := List.getElem?_eq_some_iff.mp found
  refine ⟨update hs i h, holds, fun j u entry => ?_, fun j outside => ?_⟩
  · rw [List.getElem?_set] at entry
    split at entry
    · next same =>
      subst same
      cases entry
      rwa [update_self]
    · next other =>
      rw [update_of_ne (Ne.symm other)]
      exact others j u entry
  · rw [List.length_set] at outside
    rw [update_of_ne (by omega)]
    exact rest j outside

end Pool

/-! ## Custody -/

/-- An invariant of the state and of what each task holds; what the environment keeps to when it
serves a call of a task; and what a task must hold to make a call. -/
structure Custody (E : Type → Type v) (L I H : Type) (S : Type u) where
  idle : H
  inv : S → (Nat → H) → Prop
  fair : (β : Type) → Nat → I → E β → S → Prop
  entitled : (β : Type) → L → E β → H → Prop

namespace Custody

/-- Task `i`, which holds `h`, makes only calls that it may make, each of which is served and
leaves the invariant true, and what it returns and holds in the end meets `post`. -/
def Keeps (C : Custody E L I H S) (serve : Serve E φ I κ S) (i : Nat) (label : L) :
    {α : Type} → Prog E φ ε α → H → (α → H → Prop) → Prop
  | _, .ret a, h, post => post a h
  | _, .throw _, _, _ => False
  | _, .call e k, h, post => C.entitled _ label e h ∧
      ∀ s hs input, hs i = h → C.inv s hs → C.fair _ i input e s →
        ∃ answer s' h', serve _ input e s = .ok (answer, s') ∧ C.inv s' (update hs i h') ∧
          Keeps C serve i label (k answer) h' post
  | _, .iter body x k, h, post => ∃ J : _ → H → Prop, J x h ∧ ∀ y g, J y g →
      Keeps C serve i label (body y) g fun r g' =>
        match r with
        | .inl z => J z g'
        | .inr b => Keeps C serve i label (k b) g' post

section Rules

variable {C : Custody E L I H S} {serve : Serve E φ I κ S} {i : Nat} {label : L}

theorem Keeps.mono {p : Prog E φ ε α} {h : H} {post post' : α → H → Prop}
    (keeps : C.Keeps serve i label p h post) (weaker : ∀ a g, post a g → post' a g) :
    C.Keeps serve i label p h post' := by
  induction p generalizing h with
  | ret a => exact weaker a h keeps
  | throw e => exact keeps
  | call e k ih =>
    refine ⟨keeps.1, fun s hs input holds inv fair => ?_⟩
    obtain ⟨answer, s', h', served, inv', rest⟩ := keeps.2 s hs input holds inv fair
    exact ⟨answer, s', h', served, inv', ih answer rest weaker⟩
  | iter body x k ihb ih =>
    obtain ⟨J, start, turn⟩ := keeps
    refine ⟨J, start, fun y g here => ihb y (turn y g here) fun r g' ended => ?_⟩
    cases r with
    | inl z => exact ended
    | inr b => exact ih b ended weaker

theorem Keeps.bind {β : Type} {p : Prog E φ ε α} {f : α → Prog E φ ε β} {h : H}
    {mid : α → H → Prop} {post : β → H → Prop} (first : C.Keeps serve i label p h mid)
    (rest : ∀ a g, mid a g → C.Keeps serve i label (f a) g post) :
    C.Keeps serve i label (p.bind f) h post := by
  induction p generalizing h with
  | ret a => exact rest a h first
  | throw e => exact first
  | call e k ih =>
    refine ⟨first.1, fun s hs input holds inv fair => ?_⟩
    obtain ⟨answer, s', h', served, inv', later⟩ := first.2 s hs input holds inv fair
    exact ⟨answer, s', h', served, inv', ih answer later rest⟩
  | iter body x k _ ih =>
    obtain ⟨J, start, turn⟩ := first
    refine ⟨J, start, fun y g here => (turn y g here).mono fun r g' ended => ?_⟩
    cases r with
    | inl z => exact ended
    | inr b => exact ih b ended rest

/-- One turn of a loop and what follows it. -/
theorem Keeps.turn {σ β : Type} {body : σ → Prog E φ ε (σ ⊕ β)} {x : σ} {k : β → Prog E φ ε α}
    {h : H} {post : α → H → Prop} (keeps : C.Keeps serve i label (.iter body x k) h post) :
    C.Keeps serve i label ((body x).bind (again body k)) h post := by
  obtain ⟨J, start, turn⟩ := keeps
  refine (turn x h start).bind fun r g ended => ?_
  cases r with
  | inl z => exact ⟨J, ended, turn⟩
  | inr b => exact ended

end Rules

/-! ## Runs -/

variable (C : Custody E L I H S)

/-- Only programs that are allowed are started, and every call is served fairly. -/
def Fair (allow : L → Prop) (p : Pool E φ ε α L S) : Event L I → Prop
  | .start label => allow label
  | .advance i input => ∀ label calls β (e : E β) (k : Except φ β → Prog E φ ε α),
      p.tasks[i]? = some ⟨label, calls, .call e k⟩ → C.fair β i input e p.state

instance decidableFair (allow : L → Prop) [DecidablePred allow]
    [∀ β i input (e : E β) s, Decidable (C.fair β i input e s)] (p : Pool E φ ε α L S)
    (event : Event L I) : Decidable (C.Fair allow p event) :=
  match event with
  | .start label => inferInstanceAs (Decidable (allow label))
  | .advance i input =>
    match found : p.tasks[i]? with
    | some ⟨label, calls, .call e k⟩ =>
      decidable_of_iff (C.fair _ i input e p.state)
        ⟨fun h _ _ _ _ _ same => by rw [found] at same; cases same; exact h,
          fun h => h _ _ _ _ _ found⟩
    | some ⟨_, _, .ret _⟩ => .isTrue fun _ _ _ _ _ same => by rw [found] at same; cases same
    | some ⟨_, _, .throw _⟩ => .isTrue fun _ _ _ _ _ same => by rw [found] at same; cases same
    | some ⟨_, _, .iter _ _ _⟩ => .isTrue fun _ _ _ _ _ same => by rw [found] at same; cases same
    | none => .isTrue fun _ _ _ _ _ same => by rw [found] at same; cases same

/-- What each task of a pool holds is enough for what is left of its program. -/
def Kept (serve : Serve E φ I κ S) (post : L → α → H → Prop) (p : Pool E φ ε α L S) : Prop :=
  ∃ hs, C.inv p.state hs ∧
    (∀ i t, p.tasks[i]? = some t → C.Keeps serve i t.label t.prog (hs i) (post t.label)) ∧
    ∀ i, p.tasks.length ≤ i → hs i = C.idle

variable {C} {serve : Serve E φ I κ S} {allow : L → Prop} {post : L → α → H → Prop}

theorem kept_iff {p : Pool E φ ε α L S} : C.Kept serve post p ↔ Pool.Assigned C.inv C.idle
    (fun i t h => C.Keeps serve i t.label t.prog h (post t.label)) p := Iff.rfl

theorem Kept.step {program : L → Prog E φ ε α}
    (programs : ∀ i label, allow label → C.Keeps serve i label (program label) C.idle (post label))
    {p : Pool E φ ε α L S} {event : Event L I} (kept : C.Kept serve post p)
    (fair : C.Fair allow p event) :
    ∃ p', p.step program serve event = .ok p' ∧ C.Kept serve post p' := by
  obtain ⟨hs, inv, each, rest⟩ := kept
  cases event with
  | start label =>
    refine ⟨_, rfl, kept_iff.mpr (Pool.Assigned.start ⟨hs, inv, each, rest⟩ fun i => ?_)⟩
    exact programs i label fair
  | advance i input =>
    cases found : p.tasks[i]? with
    | none => exact ⟨p, by simp only [Pool.step, found], hs, inv, each, rest⟩
    | some t =>
      obtain ⟨label, calls, prog⟩ := t
      have mine := each i _ found
      cases prog with
      | ret a => exact ⟨p, by simp only [Pool.step, found], hs, inv, each, rest⟩
      | throw e => exact ⟨p, by simp only [Pool.step, found], hs, inv, each, rest⟩
      | iter body x k =>
        refine ⟨⟨p.state, p.tasks.set i ⟨label, calls, (body x).bind (again body k)⟩⟩,
          by simp only [Pool.step, found], ?_⟩
        exact kept_iff.mpr (.set found (by rwa [update_eq_self]) each rest mine.turn)
      | call e k =>
        obtain ⟨answer, s', h', served, inv', next⟩ :=
          mine.2 p.state hs input rfl inv (fair _ _ _ _ _ found)
        exact ⟨⟨s', p.tasks.set i ⟨label, calls + 1, k answer⟩⟩,
          by simp only [Pool.step, found, served],
          kept_iff.mpr (.set found inv' each rest next)⟩

/-- Every fair run of programs that keep the custody goes through, and keeps it. -/
theorem kept_run {program : L → Prog E φ ε α}
    (programs : ∀ i label, allow label → C.Keeps serve i label (program label) C.idle (post label))
    {s : S} (start : C.inv s fun _ => C.idle) {events : List (Event L I)}
    (fair : Transition.Meets (Pool.step program serve) (C.Fair allow) ⟨s, []⟩ events) :
    ∃ p, Transition.run (Pool.step program serve) ⟨s, []⟩ events = .ok p ∧
      C.Kept serve post p := by
  have nothing : C.Kept serve post (⟨s, []⟩ : Pool E φ ε α L S) := kept_iff.mpr (.empty start)
  have keeps (done : List (Event L I)) (p : Pool E φ ε α L S) (event : Event L I)
      (later : List (Event L I)) (_ : done ++ event :: later = events)
      (kept : C.Kept serve post p) (fair : C.Fair allow p event) :
      ∃ p', p.step program serve event = .ok p' ∧ C.Kept serve post p' := kept.step programs fair
  exact Transition.run_invariant keeps (List.nil_append events) nothing fair

end Custody

end Program

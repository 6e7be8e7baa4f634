import Mathlib.Algebra.BigOperators.Group.List.Basic
import Mathlib.Tactic.Abel
import Vsfs.Lib.Program
import Vsfs.Lib.Transition

/-!
# Interleaved programs

Any number of programs run side by side, one call or one turn of a loop at a time, in any
order. A call is served in one step by a shared state.

`Audit` is a way to reason about them with accounts: the state has a balance in a
commutative group, every program owes a part of it, a call changes the balance by what it
changes the debt, and a program that has ended owes nothing. When all programs have ended,
the balance is even.
-/

namespace Program

open Prog

universe u v w

variable {E : Type → Type v} {φ ε α L I κ : Type} {S : Type u}

/-- A program that was started for `label` and has made some calls. -/
structure Task (E : Type → Type v) (φ ε α L : Type) where
  label : L
  calls : Nat := 0
  prog : Prog E φ ε α

def Task.Done (t : Task E φ ε α L) : Prop :=
  match t.prog with
  | .ret _ => True
  | .throw _ => True
  | _ => False

instance (t : Task E φ ε α L) : Decidable t.Done :=
  match t with
  | ⟨_, _, .ret _⟩ => .isTrue trivial
  | ⟨_, _, .throw _⟩ => .isTrue trivial
  | ⟨_, _, .call _ _⟩ => .isFalse fun h => h
  | ⟨_, _, .iter _ _ _⟩ => .isFalse fun h => h

structure Pool (E : Type → Type v) (φ ε α L : Type) (S : Type u) where
  state : S
  tasks : List (Task E φ ε α L) := []

/-- Start a new program, or let one advance; a call is served with the given input. -/
inductive Event (L I : Type) where
  | start (label : L)
  | advance (i : Nat) (input : I)

/-- How a call is served, unless that takes everything down. -/
abbrev Serve (E : Type → Type v) (φ I κ : Type) (S : Type u) :=
  (β : Type) → I → E β → S → Except κ (Except φ β × S)

namespace Pool

def step (program : L → Prog E φ ε α) (serve : Serve E φ I κ S) (p : Pool E φ ε α L S) :
    Event L I → Except κ (Pool E φ ε α L S)
  | .start label => .ok { p with tasks := p.tasks ++ [{ label, prog := program label }] }
  | .advance i input =>
    match p.tasks[i]? with
    | none => .ok p
    | some ⟨label, calls, prog⟩ =>
      match prog with
      | .ret _ => .ok p
      | .throw _ => .ok p
      | .iter body x k =>
        .ok { p with tasks := p.tasks.set i ⟨label, calls, (body x).bind (again body k)⟩ }
      | .call e k =>
        match serve _ input e p.state with
        | .error crash => .error crash
        | .ok (answer, state) => .ok ⟨state, p.tasks.set i ⟨label, calls + 1, k answer⟩⟩

/-- Everything a step can be. -/
inductive Stepped (program : L → Prog E φ ε α) (serve : Serve E φ I κ S)
    (p : Pool E φ ε α L S) : Event L I → Pool E φ ε α L S → Prop where
  | start (label : L) : Stepped program serve p (.start label)
      { p with tasks := p.tasks ++ [{ label, prog := program label }] }
  | idle {i : Nat} {input : I} : Stepped program serve p (.advance i input) p
  | turn {i : Nat} {input : I} {label : L} {calls : Nat} {σ β : Type}
      {body : σ → Prog E φ ε (σ ⊕ β)} {x : σ} {k : β → Prog E φ ε α}
      (found : p.tasks[i]? = some ⟨label, calls, .iter body x k⟩) :
      Stepped program serve p (.advance i input)
        { p with tasks := p.tasks.set i ⟨label, calls, (body x).bind (again body k)⟩ }
  | call {i : Nat} {input : I} {label : L} {calls : Nat} {β : Type} {e : E β}
      {k : Except φ β → Prog E φ ε α} {answer : Except φ β} {state : S}
      (found : p.tasks[i]? = some ⟨label, calls, .call e k⟩)
      (served : serve β input e p.state = .ok (answer, state)) :
      Stepped program serve p (.advance i input)
        ⟨state, p.tasks.set i ⟨label, calls + 1, k answer⟩⟩

theorem stepped_of_step {program : L → Prog E φ ε α} {serve : Serve E φ I κ S}
    {p p' : Pool E φ ε α L S} {event : Event L I} (h : p.step program serve event = .ok p') :
    Stepped program serve p event p' := by
  cases event with
  | start label =>
    cases h
    exact .start label
  | advance i input =>
    cases found : p.tasks[i]? with
    | none =>
      simp only [step, found] at h
      cases h
      exact .idle
    | some t =>
      obtain ⟨label, calls, prog⟩ := t
      cases prog with
      | ret a =>
        simp only [step, found] at h
        cases h
        exact .idle
      | throw e =>
        simp only [step, found] at h
        cases h
        exact .idle
      | iter body x k =>
        simp only [step, found] at h
        cases h
        exact .turn found
      | call e k =>
        simp only [step, found] at h
        split at h
        · cases h
        · cases h
          exact .call found ‹_›

/-- A step takes everything down by the call of a task. -/
theorem call_of_step_error {program : L → Prog E φ ε α} {serve : Serve E φ I κ S}
    {p : Pool E φ ε α L S} {event : Event L I} {halt : κ}
    (h : p.step program serve event = .error halt) :
    ∃ i input label calls β, ∃ (e : E β) (k : Except φ β → Prog E φ ε α),
      event = .advance i input ∧ p.tasks[i]? = some ⟨label, calls, .call e k⟩ ∧
        serve β input e p.state = .error halt := by
  cases event with
  | start label => cases h
  | advance i input =>
    cases found : p.tasks[i]? with
    | none =>
      simp only [step, found] at h
      cases h
    | some t =>
      obtain ⟨label, calls, prog⟩ := t
      cases prog with
      | call e k =>
        simp only [step, found] at h
        split at h
        · cases h
          exact ⟨i, input, label, calls, _, e, k, rfl, found, ‹_›⟩
        · cases h
      | ret a =>
        simp only [step, found] at h
        cases h
      | throw e =>
        simp only [step, found] at h
        cases h
      | iter body x k =>
        simp only [step, found] at h
        cases h

/-- What every program of a kind can call, the tasks of a run can. -/
theorem Stepped.calls {program : L → Prog E φ ε α} {serve : Serve E φ I κ S}
    {p p' : Pool E φ ε α L S} {event : Event L I} {allowed : (β : Type) → E β → Prop}
    (start : ∀ label, (program label).Calls allowed) (stepped : Stepped program serve p event p')
    (calls : ∀ t ∈ p.tasks, t.prog.Calls allowed) : ∀ t ∈ p'.tasks, t.prog.Calls allowed := by
  cases stepped with
  | start label =>
    intro t ht
    rcases List.mem_append.mp ht with old | new
    · exact calls t old
    · rw [List.mem_singleton.mp new]
      exact start label
  | idle => exact calls
  | turn found =>
    intro t ht
    rcases List.mem_or_eq_of_mem_set ht with old | rfl
    · exact calls t old
    · exact (calls _ (List.mem_of_getElem? found)).turn
  | call found served =>
    intro t ht
    rcases List.mem_or_eq_of_mem_set ht with old | rfl
    · exact calls t old
    · exact (calls _ (List.mem_of_getElem? found)).2 _

/-- Only programs that are allowed are started, and every call is made in a state in which
the program may make it. -/
def Obeys (allow : L → Prop) (may : (β : Type) → L → Nat → E β → S → Prop)
    (p : Pool E φ ε α L S) : Event L I → Prop
  | .start label => allow label
  | .advance i _ => ∀ label calls β (e : E β) (k : Except φ β → Prog E φ ε α),
      p.tasks[i]? = some ⟨label, calls, .call e k⟩ → may β label calls e p.state

instance (allow : L → Prop) (may : (β : Type) → L → Nat → E β → S → Prop) [DecidablePred allow]
    [∀ β label calls (e : E β) s, Decidable (may β label calls e s)] (p : Pool E φ ε α L S)
    (event : Event L I) : Decidable (p.Obeys allow may event) :=
  match event with
  | .start label => inferInstanceAs (Decidable (allow label))
  | .advance i _ =>
    match found : p.tasks[i]? with
    | some ⟨label, calls, .call e k⟩ =>
      decidable_of_iff (may _ label calls e p.state)
        ⟨fun h _ _ _ _ _ same => by rw [found] at same; cases same; exact h,
          fun h => h _ _ _ _ _ found⟩
    | some ⟨_, _, .ret _⟩ => .isTrue fun _ _ _ _ _ same => by rw [found] at same; cases same
    | some ⟨_, _, .throw _⟩ => .isTrue fun _ _ _ _ _ same => by rw [found] at same; cases same
    | some ⟨_, _, .iter _ _ _⟩ => .isTrue fun _ _ _ _ _ same => by rw [found] at same; cases same
    | none => .isTrue fun _ _ _ _ _ same => by rw [found] at same; cases same

end Pool

/-- Accounts for the programs of a pool: `owes` says what a task owes. -/
structure Audit {A : Type w} [AddCommGroup A] (program : L → Prog E φ ε α)
    (serve : Serve E φ I κ S) (allow : L → Prop)
    (may : (β : Type) → L → Nat → E β → S → Prop) (good : S → Prop) (balance : S → A)
    (owes : L → Nat → Prog E φ ε α → A → Prop) : Prop where
  start : ∀ label, allow label → owes label 0 (program label) 0
  turn : ∀ {label calls σ β d} {body : σ → Prog E φ ε (σ ⊕ β)} {x : σ}
    {k : β → Prog E φ ε α}, owes label calls (.iter body x k) d →
    owes label calls ((body x).bind (again body k)) d
  call : ∀ {label calls β input s s' answer d} {e : E β} {k : Except φ β → Prog E φ ε α},
    good s → owes label calls (.call e k) d → may β label calls e s →
    serve β input e s = .ok (answer, s') →
    good s' ∧ ∃ d', owes label (calls + 1) (k answer) d' ∧ balance s' + d = balance s + d'
  ret : ∀ {label calls a d}, owes label calls (.ret a) d → d = 0
  throw : ∀ {label calls e d}, owes label calls (.throw e) d → d = 0

namespace Audit

variable {A : Type w} [AddCommGroup A] {program : L → Prog E φ ε α} {serve : Serve E φ I κ S}
  {allow : L → Prop} {may : (β : Type) → L → Nat → E β → S → Prop} {good : S → Prop}
  {balance : S → A} {owes : L → Nat → Prog E φ ε α → A → Prop}

/-- The books of a pool: every task with what it owes, and together they owe the balance. -/
def Even (good : S → Prop) (balance : S → A) (owes : L → Nat → Prog E φ ε α → A → Prop)
    (p : Pool E φ ε α L S) : Prop :=
  good p.state ∧ ∃ books : List (Task E φ ε α L × A), books.map (·.1) = p.tasks ∧
    (∀ b ∈ books, owes b.1.label b.1.calls b.1.prog b.2) ∧
    balance p.state = (books.map (·.2)).sum

/-- One entry of the books changes, and the balance with it. -/
theorem even_set {p : Pool E φ ε α L S} {books : List (Task E φ ε α L × A)} {i : Nat}
    {t t' : Task E φ ε α L} {d d' : A} {state : S} (tasks : books.map (·.1) = p.tasks)
    (owed : ∀ b ∈ books, owes b.1.label b.1.calls b.1.prog b.2)
    (sum : balance p.state = (books.map (·.2)).sum) (entry : books[i]? = some (t, d))
    (fine : good state) (new : owes t'.label t'.calls t'.prog d')
    (change : balance state + d = balance p.state + d') :
    Even good balance owes ⟨state, p.tasks.set i t'⟩ := by
  refine ⟨fine, books.set i (t', d'), by simp [List.map_set, tasks], fun b hb => ?_, ?_⟩
  · rcases List.mem_or_eq_of_mem_set hb with old | rfl
    · exact owed b old
    · exact new
  · obtain ⟨inside, here⟩ := List.getElem?_eq_some_iff.mp entry
    have total := List.sum_set' (books.map (·.2)) i d'
    simp only [List.length_map, inside, dif_pos, List.getElem_map, here] at total
    rw [List.map_set, total, ← sum]
    calc balance state = balance p.state + d' - d := eq_sub_of_add_eq change
      _ = balance p.state + (-d + d') := by abel

theorem even_step (audit : Audit program serve allow may good balance owes)
    {p p' : Pool E φ ε α L S} {event : Event L I} (even : Even good balance owes p)
    (hs : p.step program serve event = .ok p') (obeys : p.Obeys allow may event) :
    Even good balance owes p' := by
  obtain ⟨fine, books, tasks, owed, sum⟩ := even
  have entryOf {i : Nat} {t : Task E φ ε α L} (found : p.tasks[i]? = some t) :
      ∃ d, books[i]? = some (t, d) ∧ owes t.label t.calls t.prog d := by
    obtain ⟨⟨t', d⟩, entry, same⟩ : ∃ b, books[i]? = some b ∧ b.1 = t := by
      rw [← tasks, List.getElem?_map] at found
      simpa using found
    simp only at same
    subst same
    exact ⟨d, entry, owed _ (List.mem_of_getElem? entry)⟩
  cases Pool.stepped_of_step hs with
  | start label =>
    refine ⟨fine, books ++ [(⟨label, 0, program label⟩, 0)], by simp [tasks], ?_, by simp [sum]⟩
    intro b hb
    rcases List.mem_append.mp hb with old | new
    · exact owed b old
    · rw [List.mem_singleton] at new
      subst new
      exact audit.start label obeys
  | idle => exact ⟨fine, books, tasks, owed, sum⟩
  | turn found =>
    obtain ⟨d, entry, mine⟩ := entryOf found
    exact even_set tasks owed sum entry fine (audit.turn mine) rfl
  | call found served =>
    obtain ⟨d, entry, mine⟩ := entryOf found
    obtain ⟨fine', d', new, change⟩ := audit.call fine mine (obeys _ _ _ _ _ found) served
    exact even_set tasks owed sum entry fine' new change

/-- When all programs of a run have ended, the balance is even. -/
theorem balance_of_done (audit : Audit program serve allow may good balance owes) {s : S}
    (fine : good s) (even : balance s = 0) {events : List (Event L I)}
    (obeys : Transition.Meets (Pool.step program serve) (Pool.Obeys allow may) ⟨s, []⟩ events)
    {p : Pool E φ ε α L S}
    (run : Transition.run (Pool.step program serve) ⟨s, []⟩ events = .ok p)
    (done : ∀ t ∈ p.tasks, t.Done) : balance p.state = 0 := by
  obtain ⟨-, books, tasks, owed, sum⟩ : Even good balance owes p :=
    Transition.run_preserves (fun _ _ _ => audit.even_step)
      ⟨fine, [], rfl, by simp, by simpa using even⟩ obeys run
  rw [sum]
  refine List.sum_eq_zero fun d hd => ?_
  obtain ⟨⟨⟨label, calls, prog⟩, d⟩, hb, rfl⟩ := List.mem_map.mp hd
  have ended : (⟨label, calls, prog⟩ : Task E φ ε α L).Done :=
    done _ (tasks ▸ List.mem_map.mpr ⟨_, hb, rfl⟩)
  cases prog with
  | ret a => exact audit.ret (owed _ hb)
  | throw e => exact audit.throw (owed _ hb)
  | call e k => cases ended
  | iter body x k => cases ended

end Audit

end Program

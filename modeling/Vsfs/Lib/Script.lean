import Mathlib.Data.List.Forall2
import Mathlib.Data.List.Perm.Basic
import Vsfs.Lib.Pool

/-!
# Programs with a script

Some calls only ask for what nobody changes, and others act on the state in a way that does
not depend on it. A program with such calls only has a script: the actions it takes,
whatever happens in between. However the programs of a pool are scheduled, they end after
the actions of all scripts in some order, and whole scripts can be put in any order.
-/

namespace Program

open Prog

universe u v w

variable {E : Type → Type v} {φ ε α β L I κ : Type} {S : Type u} {A : Type w}

/-- The program runs to `r` and takes the actions `as`, when `asks` answers the questions and
`acts` the actions. -/
inductive Plays (asks : (β : Type) → E β → Except φ β → Prop)
    (acts : (β : Type) → E β → A → Except φ β → Prop) {α : Type} :
    Prog E φ ε α → List A → Except ε α → Prop where
  | ret {a : α} : Plays asks acts (.ret a) [] (.ok a)
  | throw {e : ε} : Plays asks acts (.throw e) [] (.error e)
  | ask {β : Type} {e : E β} {k : Except φ β → Prog E φ ε α} {b : Except φ β} {as : List A}
      {r : Except ε α} (now : asks β e b) (rest : Plays asks acts (k b) as r) :
      Plays asks acts (.call e k) as r
  | act {β : Type} {e : E β} {k : Except φ β → Prog E φ ε α} {b : Except φ β} {a : A}
      {as : List A} {r : Except ε α} (now : acts β e a b) (rest : Plays asks acts (k b) as r) :
      Plays asks acts (.call e k) (a :: as) r
  | iter {σ β : Type} {body : σ → Prog E φ ε (σ ⊕ β)} {x : σ} {k : β → Prog E φ ε α}
      {as : List A} {r : Except ε α}
      (rest : Plays asks acts ((body x).bind (again body k)) as r) :
      Plays asks acts (.iter body x k) as r

variable {asks : (β : Type) → E β → Except φ β → Prop}
  {acts : (β : Type) → E β → A → Except φ β → Prop}

theorem Plays.bind {p : Prog E φ ε α} {f : α → Prog E φ ε β} {as bs : List A} {a : α}
    {r : Except ε β} (first : Plays asks acts p as (.ok a)) (second : Plays asks acts (f a) bs r) :
    Plays asks acts (p.bind f) (as ++ bs) r := by
  generalize result : (Except.ok a : Except ε α) = ra at first
  induction first with
  | ret =>
    cases result
    exact second
  | throw => cases result
  | ask now _ ih => exact .ask now (ih result)
  | act now _ ih => exact .act now (ih result)
  | iter _ ih =>
    refine .iter ?_
    have turn := ih result
    rw [bind_assoc] at turn
    simpa only [again_bind] using turn

/-- A first program that only asks. -/
theorem Plays.bind_nil {p : Prog E φ ε α} {f : α → Prog E φ ε β} {bs : List A} {a : α}
    {r : Except ε β} (first : Plays asks acts p [] (.ok a)) (second : Plays asks acts (f a) bs r) :
    Plays asks acts (p.bind f) bs r := first.bind second

/-- A script without actions is a run wherever the questions are answered so. -/
theorem Plays.evals {S : Type*} {exec : Exec E φ S} {s : S}
    (served : ∀ β e b, asks β e b → exec β e s b s) {p : Prog E φ ε α} {r : Except ε α}
    (plays : Plays asks acts p [] r) : Evals exec p s r s := by
  generalize none : ([] : List A) = as at plays
  induction plays with
  | ret => exact .ret
  | throw => exact .throw
  | ask now _ ih => exact .call (served _ _ _ now) (ih none)
  | act => cases none
  | iter _ ih => exact .iter (ih none)

/-- Questions are answered alike in every good state, and actions have the effect `act`. -/
structure Answered (serve : Serve E φ I κ S) (asks : (β : Type) → E β → Except φ β → Prop)
    (acts : (β : Type) → E β → A → Except φ β → Prop) (act : S → A → S) (good : S → Prop) :
    Prop where
  ask : ∀ {β : Type} (input : I) {e : E β} {b : Except φ β} {s : S}, good s → asks β e b →
    serve β input e s = .ok (b, s)
  act : ∀ {β : Type} (input : I) {e : E β} {a : A} {b : Except φ β} {s : S}, good s →
    acts β e a b → serve β input e s = .ok (b, act s a) ∧ good (act s a)

namespace Pool

variable {program : L → Prog E φ ε α} {serve : Serve E φ I κ S} {act : S → A → S}
  {good : S → Prop}

/-- Let the tasks advance in the order of a schedule. -/
def follow (program : L → Prog E φ ε α) (serve : Serve E φ I κ S) (p : Pool E φ ε α L S)
    (schedule : List (Nat × I)) : Except κ (Pool E φ ε α L S) :=
  Transition.run (step program serve) p (schedule.map fun (i, input) => .advance i input)

theorem follow_append {p p' : Pool E φ ε α L S} {first : List (Nat × I)}
    (h : p.follow program serve first = .ok p') (second : List (Nat × I)) :
    p.follow program serve (first ++ second) = p'.follow program serve second := by
  induction first generalizing p with
  | nil =>
    cases h
    rfl
  | cons e first ih =>
    unfold follow at h ih ⊢
    simp only [List.map_cons, List.cons_append, Transition.run] at h ⊢
    split at h
    · exact ih h
    · cases h

/-! ## Any schedule -/

/-- The tasks have gone through `taken`, and the rest of their scripts is still to come. -/
structure Playing (asks : (β : Type) → E β → Except φ β → Prop)
    (acts : (β : Type) → E β → A → Except φ β → Prop) (act : S → A → S) (good : S → Prop)
    (r : Except ε α) (s : S) (all taken : List A) (scripts : List (List A))
    (p : Pool E φ ε α L S) : Prop where
  good : good p.state
  state : p.state = taken.foldl act s
  tasks : List.Forall₂ (fun t as => Plays asks acts t.prog as r) p.tasks scripts
  all : (taken ++ scripts.flatten).Perm all

/-- Taking the first action of one of the scripts. -/
theorem flatten_set_perm {scripts : List (List A)} {i : Nat} {a : A} {as : List A}
    (h : scripts[i]? = some (a :: as)) :
    (a :: (scripts.set i as).flatten).Perm scripts.flatten := by
  induction scripts generalizing i with
  | nil => simp at h
  | cons script scripts ih =>
    cases i with
    | zero =>
      simp only [List.getElem?_cons_zero, Option.some.injEq] at h
      subst h
      simp
    | succ i =>
      rw [List.getElem?_cons_succ] at h
      rw [List.set_cons_succ, List.flatten_cons, List.flatten_cons]
      exact List.perm_middle.symm.trans ((ih h).append_left script)

theorem set_of_getElem? {γ : Type*} {xs : List γ} {i : Nat} {x : γ} (found : xs[i]? = some x) :
    xs.set i x = xs := by
  obtain ⟨inside, rfl⟩ := List.getElem?_eq_some_iff.mp found
  exact List.set_getElem_self inside

theorem forall₂_set {γ δ : Type*} {R : γ → δ → Prop} {xs : List γ} {ys : List δ}
    (h : List.Forall₂ R xs ys) (i : Nat) {x : γ} {y : δ} (new : R x y) :
    List.Forall₂ R (xs.set i x) (ys.set i y) := by
  induction h generalizing i with
  | nil => exact .nil
  | cons now rest ih =>
    cases i with
    | zero => exact .cons new rest
    | succ i => exact .cons now (ih i)

theorem forall₂_getElem? {γ δ : Type*} {R : γ → δ → Prop} {xs : List γ} {ys : List δ}
    (h : List.Forall₂ R xs ys) {i : Nat} {x : γ} (found : xs[i]? = some x) :
    ∃ y, ys[i]? = some y ∧ R x y := by
  induction h generalizing i with
  | nil => simp at found
  | cons now rest ih =>
    cases i with
    | zero =>
      cases found
      exact ⟨_, rfl, now⟩
    | succ i => exact ih found

variable {r : Except ε α} {s : S} {all taken : List A} {scripts : List (List A)}

/-- One step leaves the scripts as they are or takes an action. -/
theorem Playing.step (answered : Answered serve asks acts act good) {p p' : Pool E φ ε α L S}
    (h : Playing asks acts act good r s all taken scripts p) {i : Nat} {input : I}
    (hs : p.step program serve (.advance i input) = .ok p') :
    ∃ taken' scripts', Playing asks acts act good r s all taken' scripts' p' := by
  cases stepped_of_step hs with
  | idle => exact ⟨taken, scripts, h⟩
  | turn found =>
    obtain ⟨as, here, plays⟩ := forall₂_getElem? h.tasks found
    cases plays with
    | iter rest =>
      refine ⟨taken, scripts, h.good, h.state, ?_, h.all⟩
      have same : scripts.set i as = scripts := set_of_getElem? here
      exact same ▸ forall₂_set h.tasks i rest
  | call found served =>
    obtain ⟨as, here, plays⟩ := forall₂_getElem? h.tasks found
    cases plays with
    | ask now rest =>
      cases (answered.ask input h.good now).symm.trans served
      refine ⟨taken, scripts, h.good, h.state, ?_, h.all⟩
      have same : scripts.set i as = scripts := set_of_getElem? here
      exact same ▸ forall₂_set h.tasks i rest
    | @act _ _ _ b a as _ now rest =>
      obtain ⟨effect, fine⟩ := answered.act input h.good now
      cases effect.symm.trans served
      refine ⟨taken ++ [a], scripts.set i as, fine, ?_, forall₂_set h.tasks i rest, ?_⟩
      · simp [h.state]
      · rw [List.append_assoc, List.singleton_append]
        exact ((flatten_set_perm here).append_left taken).trans h.all

theorem Playing.follow (answered : Answered serve asks acts act good) {p p' : Pool E φ ε α L S}
    (h : Playing asks acts act good r s all taken scripts p) {schedule : List (Nat × I)}
    (run : p.follow program serve schedule = .ok p') :
    ∃ taken' scripts', Playing asks acts act good r s all taken' scripts' p' := by
  induction schedule generalizing p taken scripts with
  | nil =>
    cases run
    exact ⟨taken, scripts, h⟩
  | cons e schedule ih =>
    unfold Pool.follow at run ih
    simp only [List.map_cons, Transition.run] at run
    split at run
    · obtain ⟨taken₁, scripts₁, next⟩ := h.step answered ‹_›
      exact ih next run
    · cases run

/-- When all tasks are done, all actions of the scripts were taken, in some order. -/
theorem follow_done (answered : Answered serve asks acts act good) {p p' : Pool E φ ε α L S}
    (fine : good p.state)
    (tasks : List.Forall₂ (fun t as => Plays asks acts t.prog as r) p.tasks scripts)
    {schedule : List (Nat × I)} (run : p.follow program serve schedule = .ok p')
    (done : ∀ t ∈ p'.tasks, t.Done) :
    ∃ taken : List A, taken.Perm scripts.flatten ∧ p'.state = taken.foldl act p.state := by
  have start : Playing asks acts act good r p.state scripts.flatten [] scripts p :=
    ⟨fine, rfl, tasks, by simp⟩
  obtain ⟨taken, left, playing⟩ := start.follow answered run
  have ended (as : List A) (has : as ∈ left) : as = [] := by
    obtain ⟨i, here⟩ := List.getElem?_of_mem has
    obtain ⟨⟨label, calls, prog⟩, found, plays⟩ := forall₂_getElem? playing.tasks.flip here
    have finished := done _ (List.mem_of_getElem? found)
    have plays : Plays asks acts prog as r := plays
    cases plays with
    | ret => rfl
    | throw => rfl
    | ask => cases finished
    | act => cases finished
    | iter => cases finished
  have nothing : left.flatten = [] := List.flatten_eq_nil_iff.mpr ended
  refine ⟨taken, ?_, playing.state⟩
  have all := playing.all
  rwa [nothing, List.append_nil] at all

/-! ## One task among others -/

section Sees

universe x

variable {T : Type x} {allowed : (β : Type) → E β → Prop} {inv : S → Prop} {exec : Exec E φ T}

/-- Whatever is going on beside it, a task that only makes such calls is answered as in
`exec`, and keeps what the answers depend on. -/
structure Sees (serve : Serve E φ I κ S) (allowed : (β : Type) → E β → Prop) (inv : S → Prop)
    (exec : Exec E φ T) : Prop where
  keeps : ∀ {β : Type} {input : I} {e : E β} {s s' : S} {b : Except φ β}, allowed β e → inv s →
    serve β input e s = .ok (b, s') → inv s'
  told : ∀ {β : Type} {input : I} {e : E β} {s s' : S} {b : Except φ β} (y : T), allowed β e →
    inv s → serve β input e s = .ok (b, s') → ∃ y', exec β e y b y'

/-- What is known of all elements once one of them is replaced is known before, when it is for
that one. -/
theorem forall_exists_of_set {γ : Type*} {R : γ → γ → Prop} {xs ys : List γ} {j : Nat} {old new : γ}
    (here : xs[j]? = some old)
    (later : ∀ (i : Nat) (x : γ), (xs.set j new)[i]? = some x → ∃ y, ys[i]? = some y ∧ R x y)
    (back : ∀ y, R new y → R old y) :
    ∀ (i : Nat) (x : γ), xs[i]? = some x → ∃ y, ys[i]? = some y ∧ R x y := by
  intro i x found
  by_cases mine : j = i
  · subst mine
    cases here.symm.trans found
    have inside := (List.getElem?_eq_some_iff.mp here).1
    obtain ⟨y, there, related⟩ := later j new (List.getElem?_set_self inside)
    exact ⟨y, there, back y related⟩
  · exact later i x ((List.getElem?_set_ne mine).trans found)

/-- A task that returns has a run of its own, with the answers that it got. -/
theorem Sees.follow (sees : Sees serve allowed inv exec)
    (start : ∀ label, (program label).Calls allowed) {p p' : Pool E φ ε α L S}
    (fine : inv p.state) (calls : ∀ t ∈ p.tasks, t.prog.Calls allowed) {schedule : List (Nat × I)}
    (run : p.follow program serve schedule = .ok p') :
    inv p'.state ∧ ∀ (i : Nat) (t : Task E φ ε α L), p.tasks[i]? = some t →
      ∃ t', p'.tasks[i]? = some t' ∧ ∀ (a : α) (y : T), t'.prog = .ret a →
        ∃ y', Evals exec t.prog y (.ok a) y' := by
  induction schedule generalizing p with
  | nil =>
    cases run
    refine ⟨fine, ?_⟩
    intro i t found
    refine ⟨t, found, ?_⟩
    intro a y ended
    exact ⟨y, ended ▸ .ret⟩
  | cons event schedule ih =>
    obtain ⟨j, input⟩ := event
    unfold Pool.follow at run ih
    simp only [List.map_cons, Transition.run] at run
    split at run
    · rename_i p₁ now
      have stepped := stepped_of_step now
      have calls₁ := stepped.calls start calls
      cases stepped with
      | idle => exact ih fine calls run
      | @turn _ _ label calls' σ β body x k here =>
        obtain ⟨fine', later⟩ := @ih
          ⟨p.state, p.tasks.set j ⟨label, calls', (body x).bind (again body k)⟩⟩ fine calls₁ run
        refine ⟨fine', forall_exists_of_set here later ?_⟩
        intro t' own a y ended
        obtain ⟨y', rest⟩ := own a y ended
        exact ⟨y', .iter rest⟩
      | @call _ _ label calls' β e k b state here served =>
        have may : allowed _ e := (calls _ (List.mem_of_getElem? here)).1
        have fine₁ := sees.keeps may fine served
        obtain ⟨fine', later⟩ := @ih
          ⟨state, p.tasks.set j ⟨label, calls' + 1, k b⟩⟩ fine₁ calls₁ run
        refine ⟨fine', forall_exists_of_set here later ?_⟩
        intro t' own a y ended
        obtain ⟨y₁, told⟩ := sees.told y may fine served
        obtain ⟨y', rest⟩ := own a y₁ ended
        exact ⟨y', .call told rest⟩
    · cases run

end Sees

/-! ## One task after the other -/

/-- A task that is alone for long enough comes to its end. -/
theorem follow_alone (answered : Answered serve asks acts act good) (input : I) {s : S}
    (fine : good s) {tasks : List (Task E φ ε α L)} {i : Nat} {label : L} {calls : Nat}
    {prog : Prog E φ ε α} {as : List A} (found : tasks[i]? = some ⟨label, calls, prog⟩)
    (plays : Plays asks acts prog as r) :
    ∃ (schedule : List (Nat × I)) (t : Task E φ ε α L), t.Done ∧ good (as.foldl act s) ∧
      Pool.follow program serve ⟨s, tasks⟩ schedule = .ok ⟨as.foldl act s, tasks.set i t⟩ := by
  induction plays generalizing s tasks calls with
  | @ret a =>
    refine ⟨[], ⟨label, calls, .ret a⟩, trivial, fine, ?_⟩
    rw [set_of_getElem? found]
    rfl
  | @throw e =>
    refine ⟨[], ⟨label, calls, .throw e⟩, trivial, fine, ?_⟩
    rw [set_of_getElem? found]
    rfl
  | @ask β e k b as r now rest ih =>
    have inside : i < tasks.length := (List.getElem?_eq_some_iff.mp found).1
    obtain ⟨schedule, t, done, fine', run⟩ := ih fine
      (List.getElem?_set_self inside : (tasks.set i ⟨label, calls + 1, k b⟩)[i]? = _)
    refine ⟨(i, input) :: schedule, t, done, fine', ?_⟩
    rw [List.set_set] at run
    rw [← run]
    refine Transition.run_cons_ok ?_ _
    simp only [Pool.step, found, answered.ask input fine now]
  | @act β e k b a as r now rest ih =>
    have inside : i < tasks.length := (List.getElem?_eq_some_iff.mp found).1
    obtain ⟨effect, fine₁⟩ := answered.act input fine now
    obtain ⟨schedule, t, done, fine', run⟩ := ih fine₁
      (List.getElem?_set_self inside : (tasks.set i ⟨label, calls + 1, k b⟩)[i]? = _)
    refine ⟨(i, input) :: schedule, t, done, fine', ?_⟩
    rw [List.set_set] at run
    rw [List.foldl_cons, ← run]
    refine Transition.run_cons_ok ?_ _
    simp only [Pool.step, found, effect]
  | @iter σ β body x k as r rest ih =>
    have inside : i < tasks.length := (List.getElem?_eq_some_iff.mp found).1
    obtain ⟨schedule, t, done, fine', run⟩ := ih fine (List.getElem?_set_self inside :
      (tasks.set i ⟨label, calls, (body x).bind (again body k)⟩)[i]? = _)
    refine ⟨(i, input) :: schedule, t, done, fine', ?_⟩
    rw [List.set_set] at run
    rw [← run]
    refine Transition.run_cons_ok ?_ _
    simp only [Pool.step, found]

/-- The script of a task. -/
def scriptAt (scripts : List (List A)) (i : Nat) : List A := scripts[i]?.getD []

/-- Some of the tasks one after the other, in any order. -/
theorem follow_in_order (answered : Answered serve asks acts act good) (input : I)
    {order : List Nat} (distinct : order.Nodup) {p : Pool E φ ε α L S} (fine : good p.state)
    (tasks : ∀ i ∈ order, ∃ t as, p.tasks[i]? = some t ∧ scripts[i]? = some as ∧
      Plays asks acts t.prog as r) :
    ∃ (schedule : List (Nat × I)) (p' : Pool E φ ε α L S),
      p.follow program serve schedule = .ok p' ∧
      p'.state = (order.flatMap (scriptAt scripts)).foldl act p.state ∧
      (∀ i ∈ order, ∀ t, p'.tasks[i]? = some t → t.Done) ∧
      p'.tasks.length = p.tasks.length ∧ ∀ i, i ∉ order → p'.tasks[i]? = p.tasks[i]? := by
  induction order generalizing p with
  | nil => exact ⟨[], p, rfl, rfl, by simp, rfl, by simp⟩
  | cons i order ih =>
    obtain ⟨new, distinct⟩ := List.nodup_cons.mp distinct
    obtain ⟨⟨label, calls, prog⟩, as, found, script, plays⟩ := tasks i (by simp)
    obtain ⟨schedule, t, done, fine', run⟩ : ∃ (schedule : List (Nat × I)) (t : Task E φ ε α L),
        t.Done ∧ good (as.foldl act p.state) ∧
        p.follow program serve schedule = .ok ⟨as.foldl act p.state, p.tasks.set i t⟩ :=
      follow_alone answered input fine found plays
    have others (j : Nat) (hj : j ≠ i) : (p.tasks.set i t)[j]? = p.tasks[j]? :=
      List.getElem?_set_ne (Ne.symm hj)
    obtain ⟨schedule', p', run', state, ended, length, rest⟩ := @ih distinct
      ⟨as.foldl act p.state, p.tasks.set i t⟩ fine' fun j hj => by
        simpa only [others j fun same => new (same ▸ hj)] using tasks j (by simp [hj])
    refine ⟨schedule ++ schedule', p', ?_, ?_, fun j hj u found' => ?_, ?_, fun j hj => ?_⟩
    · rw [follow_append run, run']
    · rw [state, List.flatMap_cons, List.foldl_append, scriptAt, script, Option.getD_some]
    · rcases List.mem_cons.mp hj with rfl | hj
      · rw [rest j new, List.getElem?_set_self (List.getElem?_eq_some_iff.mp found).1] at found'
        cases found'
        exact done
      · exact ended j hj u found'
    · rw [length, List.length_set]
    · rw [List.mem_cons, not_or] at hj
      rw [rest j hj.2, others j hj.1]

end Pool

end Program

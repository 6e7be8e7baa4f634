import Mathlib.Data.List.Induction
import Mathlib.Data.List.Basic

/-!
# Runs of a step function that can crash

A run takes a list of requests one after the other. `Meets` says that every step of the
run, in the state it is taken in, meets a condition on that state and the request; the
invariant rule turns a step lemma under the condition into a statement about all runs
that meet it.
-/

namespace Transition

universe u v w

variable {σ : Type u} {α : Type v} {ε : Type w}

/-- Take the requests in order; the first crash ends the run. -/
def run (step : σ → α → Except ε σ) (s : σ) : List α → Except ε σ
  | [] => .ok s
  | a :: as =>
    match step s a with
    | .ok s' => run step s' as
    | .error e => .error e

/-- Every step of the run is taken in a state in which the request meets `cond`. -/
def Meets (step : σ → α → Except ε σ) (cond : σ → α → Prop) (s : σ) : List α → Prop
  | [] => True
  | a :: as => cond s a ∧ ∀ s', step s a = .ok s' → Meets step cond s' as

@[simp] theorem run_nil (step : σ → α → Except ε σ) (s : σ) : run step s [] = .ok s := rfl

theorem run_cons_ok {step : σ → α → Except ε σ} {s s' : σ} {a : α} (h : step s a = .ok s')
    (as : List α) : run step s (a :: as) = run step s' as := by
  simp [run, h]

theorem Meets.cons {step : σ → α → Except ε σ} {cond : σ → α → Prop} {s s' : σ} {a : α}
    {as : List α} (h : step s a = .ok s') (now : cond s a) (later : Meets step cond s' as) :
    Meets step cond s (a :: as) := by
  refine ⟨now, fun s₁ hs => ?_⟩
  cases h.symm.trans hs
  exact later

theorem Meets.imp {step : σ → α → Except ε σ} {cond cond' : σ → α → Prop} {s : σ} {as : List α}
    (h : ∀ s, ∀ a ∈ as, cond s a → cond' s a) (meets : Meets step cond s as) :
    Meets step cond' s as := by
  induction as generalizing s with
  | nil => trivial
  | cons a as ih =>
    refine ⟨h s a (by simp) meets.1, fun s' hs => ih (fun s b hb => ?_) (meets.2 s' hs)⟩
    exact h s b (List.mem_cons_of_mem a hb)

/-- The first requests of a run. -/
theorem Meets.of_append {step : σ → α → Except ε σ} {cond : σ → α → Prop} {s : σ}
    {as bs : List α} (meets : Meets step cond s (as ++ bs)) : Meets step cond s as := by
  induction as generalizing s with
  | nil => trivial
  | cons a as ih => exact ⟨meets.1, fun s' hs => ih (meets.2 s' hs)⟩

theorem meets_true (step : σ → α → Except ε σ) (s : σ) (as : List α) :
    Meets step (fun _ _ => True) s as := by
  induction as generalizing s with
  | nil => trivial
  | cons a as ih => exact ⟨trivial, fun s' _ => ih s'⟩

instance decidableMeets (step : σ → α → Except ε σ) (cond : σ → α → Prop)
    [∀ s a, Decidable (cond s a)] : (s : σ) → (as : List α) → Decidable (Meets step cond s as)
  | _, [] => .isTrue trivial
  | s, a :: as =>
    match h : step s a with
    | .ok s' =>
      have := decidableMeets step cond s' as
      decidable_of_iff (cond s a ∧ Meets step cond s' as)
        ⟨fun hm => .cons h hm.1 hm.2, fun hm => ⟨hm.1, hm.2 s' h⟩⟩
    | .error _ =>
      decidable_of_iff (cond s a)
        ⟨fun hc => ⟨hc, fun s' hs => by rw [h] at hs; cases hs⟩, fun hm => hm.1⟩

/-- The invariant rule. `inv done s` may speak of the requests `done` so far, and a step of
the requests that make up the whole run. -/
theorem run_invariant {step : σ → α → Except ε σ} {cond : σ → α → Prop}
    {inv : List α → σ → Prop} {all : List α}
    (keeps : ∀ done s a rest, done ++ a :: rest = all → inv done s → cond s a →
      ∃ s', step s a = .ok s' ∧ inv (done ++ [a]) s')
    {done : List α} {s : σ} {as : List α} (total : done ++ as = all) (start : inv done s)
    (meets : Meets step cond s as) : ∃ s', run step s as = .ok s' ∧ inv all s' := by
  induction as generalizing done s with
  | nil => exact ⟨s, rfl, by simpa [← total] using start⟩
  | cons a as ih =>
    obtain ⟨s₁, hs, next⟩ := keeps done s a as total start meets.1
    obtain ⟨s₂, hr, final⟩ := ih (by simpa using total) next (meets.2 s₁ hs)
    exact ⟨s₂, by rw [run_cons_ok hs, hr], final⟩

/-- The rule for runs that are known not to crash. -/
theorem run_preserves {step : σ → α → Except ε σ} {cond : σ → α → Prop} {inv : σ → Prop}
    (keeps : ∀ s s' a, inv s → step s a = .ok s' → cond s a → inv s') {s s' : σ} {as : List α}
    (start : inv s) (meets : Meets step cond s as) (hr : run step s as = .ok s') : inv s' := by
  induction as generalizing s with
  | nil =>
    cases hr
    exact start
  | cons a as ih =>
    unfold run at hr
    split at hr
    · rename_i s₁ hs
      exact ih (keeps s s₁ a start hs meets.1) (meets.2 s₁ hs) hr
    · cases hr

/-- A run comes to an end that meets `P`, or crashes for a reason in `down`. -/
inductive Barring (down : ε → Prop) (P : σ → Prop) : Except ε σ → Prop where
  | ended {s : σ} (meets : P s) : Barring down P (.ok s)
  | crashed {e : ε} (expected : down e) : Barring down P (.error e)

theorem Barring.imp {down : ε → Prop} {P Q : σ → Prop} {r : Except ε σ} (barring : Barring down P r)
    (weaker : ∀ s, P s → Q s) : Barring down Q r := by
  cases barring with
  | ended meets => exact .ended (weaker _ meets)
  | crashed expected => exact .crashed expected

/-- The rule for runs that only crash for some reasons. -/
theorem run_barring {step : σ → α → Except ε σ} {cond : σ → α → Prop} {inv : σ → Prop}
    {down : ε → Prop} (keeps : ∀ s s' a, inv s → step s a = .ok s' → cond s a → inv s')
    (crashes : ∀ s a e, inv s → step s a = .error e → cond s a → down e) {s : σ} {as : List α}
    (start : inv s) (meets : Meets step cond s as) : Barring down inv (run step s as) := by
  induction as generalizing s with
  | nil => exact .ended start
  | cons a as ih =>
    cases hs : step s a with
    | ok s₁ =>
      rw [run_cons_ok hs]
      exact ih (keeps s s₁ a start hs meets.1) (meets.2 s₁ hs)
    | error e =>
      simp only [run, hs]
      exact .crashed (crashes s a e start hs meets.1)

/-- Two conditions that are the same under an invariant that they keep are met by the same
runs. -/
theorem Meets.iff_of_invariant {step : σ → α → Except ε σ} {cond cond' : σ → α → Prop}
    {inv : σ → Prop} {as : List α} (same : ∀ s, ∀ a ∈ as, inv s → (cond s a ↔ cond' s a))
    (keeps : ∀ s s', ∀ a ∈ as, inv s → cond s a → step s a = .ok s' → inv s') {s : σ}
    (start : inv s) : Meets step cond s as ↔ Meets step cond' s as := by
  induction as generalizing s with
  | nil => exact Iff.rfl
  | cons a as ih =>
    have rest {s : σ} := ih (fun s b hb => same s b (List.mem_cons_of_mem a hb))
      (fun s s' b hb => keeps s s' b (List.mem_cons_of_mem a hb)) (s := s)
    constructor
    · rintro ⟨now, later⟩
      exact ⟨(same s a (by simp) start).mp now, fun s' hs =>
        (rest (keeps s s' a (by simp) start now hs)).mp (later s' hs)⟩
    · rintro ⟨now, later⟩
      have now' := (same s a (by simp) start).mpr now
      exact ⟨now', fun s' hs => (rest (keeps s s' a (by simp) start now' hs)).mpr (later s' hs)⟩

/-- Two conditions that are the same where a third one holds are met by the same of the runs
that meet the third one. -/
theorem Meets.iff_of_meets {step : σ → α → Except ε σ} {pre cond cond' : σ → α → Prop}
    (same : ∀ s a, pre s a → (cond s a ↔ cond' s a)) {s : σ} {as : List α}
    (meets : Meets step pre s as) : Meets step cond s as ↔ Meets step cond' s as := by
  induction as generalizing s with
  | nil => exact Iff.rfl
  | cons a as ih =>
    refine and_congr (same s a meets.1) (forall_congr' fun s' => forall_congr' fun hs => ?_)
    exact ih (meets.2 s' hs)

/-! ## Conditions on the requests so far -/

/-- Every request of the list meets a condition on the requests before it. -/
def Along (cond : List α → α → Prop) (all : List α) : Prop :=
  ∀ done a rest, done ++ a :: rest = all → cond done a

theorem Along.invariant {cond : List α → α → Prop} {inv : List α → Prop} {all : List α}
    (start : inv [])
    (keeps : ∀ done a rest, done ++ a :: rest = all → inv done → cond done a → inv (done ++ [a]))
    (along : Along cond all) {done rest : List α} (total : done ++ rest = all) : inv done := by
  induction done using List.reverseRecOn generalizing rest with
  | nil => exact start
  | append_singleton done a ih =>
    have split : done ++ a :: rest = all := by simpa using total
    exact keeps done a rest split (ih split) (along done a rest split)

/-- Two conditions that are the same under an invariant that they keep are the same along
a run. -/
theorem Along.iff_of_invariant {cond cond' : List α → α → Prop} {inv : List α → Prop}
    {all : List α} (start : inv [])
    (same : ∀ done a rest, done ++ a :: rest = all → inv done → (cond done a ↔ cond' done a))
    (keeps : ∀ done a rest, done ++ a :: rest = all → inv done → cond done a → inv (done ++ [a])) :
    Along cond all ↔ Along cond' all := by
  constructor
  · intro along done a rest split
    exact (same done a rest split (along.invariant start keeps split)).mp (along done a rest split)
  · intro along done a rest split
    have inv := along.invariant start (fun done a rest split now here =>
      keeps done a rest split now ((same done a rest split now).mpr here)) split
    exact (same done a rest split inv).mpr (along done a rest split)

/-- A condition on the state of each step, as a condition on the requests before it. -/
theorem meets_iff_along {step : σ → α → Except ε σ} {cond : σ → α → Prop} {s : σ} {as : List α} :
    Meets step cond s as ↔ Along (fun done a => ∀ s', run step s done = .ok s' → cond s' a) as := by
  induction as generalizing s with
  | nil =>
    refine ⟨fun _ done a rest split => ?_, fun _ => trivial⟩
    simp at split
  | cons b as ih =>
    constructor
    · rintro ⟨now, later⟩ done a rest split s' hr
      cases done with
      | nil =>
        cases split
        cases hr
        exact now
      | cons c done =>
        obtain ⟨rfl, total⟩ := List.cons.inj split
        unfold run at hr
        split at hr
        · rename_i s₁ hs
          exact ih.mp (later s₁ hs) done a rest total s' hr
        · cases hr
    · intro along
      refine ⟨along [] b as rfl s rfl, fun s₁ hs => ih.mpr fun done a rest split s' hr => ?_⟩
      exact along (b :: done) a rest (by simp [split]) s' (by rw [run_cons_ok hs, hr])

end Transition

import Vsfs.Lib.Program

/-!
# One-shot futures

Tasks are submitted to a pool, which works on them in any order while the program goes on. Each
has a future, whose result can be taken once the task has finished, and only once: after that the
future has no state and asking it again fails.
-/

namespace Program

variable {T R ε α : Type}

/-- The calls to a pool for tasks in `T` with results in `R`. Futures are counted. -/
inductive FutureCall (T R : Type) : Type → Type where
  | submit (task : T) : FutureCall T R Nat
  | get (future : Nat) : FutureCall T R R

/-- The exceptions of `get`: its own, and that of the task. -/
inductive FutureError (ε : Type) where
  | noState
  | thrown (e : ε)
  deriving DecidableEq, Repr

structure Futures (T : Type) where
  submitted : List T := []
  finished : List Nat := []
  taken : List Nat := []

/-- Of the first `n` tasks some more may have finished. -/
structure Progress (n : Nat) (finished finished' : List Nat) : Prop where
  keeps : finished ⊆ finished'
  only : ∀ i ∈ finished', i ∈ finished ∨ i < n

/-- How the pool serves a call when the task `i` has the outcome `outcome i`. -/
inductive Serves (outcome : Nat → Except ε R) :
    Exec (FutureCall T R) (FutureError ε) (Futures T) where
  | submit {task : T} {s : Futures T} {finished : List Nat}
      (more : Progress (s.submitted.length + 1) s.finished finished) :
      Serves outcome _ (.submit task) s (.ok s.submitted.length)
        ⟨s.submitted ++ [task], finished, s.taken⟩
  | get {i : Nat} {s : Futures T} {finished : List Nat}
      (more : Progress s.submitted.length s.finished finished) (valid : i < s.submitted.length)
      (fresh : i ∉ s.taken) (done : i ∈ finished) :
      Serves outcome _ (.get i) s ((outcome i).mapError .thrown)
        ⟨s.submitted, finished, i :: s.taken⟩
  | invalid {i : Nat} {s : Futures T} {finished : List Nat}
      (more : Progress s.submitted.length s.finished finished)
      (bad : s.submitted.length ≤ i ∨ i ∈ s.taken) :
      Serves outcome _ (.get i) s (.error .noState) ⟨s.submitted, finished, s.taken⟩

variable {outcome : Nat → Except ε R} {post : Except (FutureError ε) α → Futures T → Prop}

/-- A call is never left without an answer. -/
theorem serves_answers (β : Type) (e : FutureCall T R β) (s : Futures T) :
    ∃ b s', Serves outcome β e s b s' := by
  cases e with
  | submit task => exact ⟨_, _, .submit ⟨fun _ h => h, fun _ h => .inl h⟩⟩
  | get i =>
    by_cases valid : i < s.submitted.length ∧ i ∉ s.taken
    · have more : Progress s.submitted.length s.finished (i :: s.finished) := by
        refine ⟨fun _ h => List.mem_cons_of_mem _ h, fun j hj => ?_⟩
        rcases List.mem_cons.mp hj with rfl | old
        · exact .inr valid.1
        · exact .inl old
      exact ⟨_, _, .get more valid.1 valid.2 List.mem_cons_self⟩
    · refine ⟨_, _, .invalid ⟨fun _ h => h, fun _ h => .inl h⟩ ?_⟩
      grind

/-! ## Rules -/

variable {i : Nat} {s : Futures T}

theorem ends_submit {task : T} {k : Except (FutureError ε) Nat → Prog (FutureCall T R) _ _ α}
    (rest : ∀ s' : Futures T, s'.submitted = s.submitted ++ [task] → s'.taken = s.taken →
      Ends (Serves outcome) post (k (.ok s.submitted.length)) s') :
    Ends (Serves outcome) post (.call (.submit task) k) s := by
  refine .call fun b s' served => ?_
  cases served
  exact rest _ rfl rfl

/-- The first time, `get` waits for the task. -/
theorem ends_get {k : Except (FutureError ε) R → Prog (FutureCall T R) _ _ α}
    (valid : i < s.submitted.length) (fresh : i ∉ s.taken)
    (rest : ∀ s' : Futures T, s'.submitted = s.submitted → s'.taken = i :: s.taken →
      s.finished ⊆ s'.finished → i ∈ s'.finished →
        Ends (Serves outcome) post (k ((outcome i).mapError .thrown)) s') :
    Ends (Serves outcome) post (.call (.get i) k) s := by
  refine .call fun b s' served => ?_
  cases served with
  | get more _ _ done => exact rest _ rfl rfl more.keeps done
  | invalid _ bad =>
    rcases bad with unknown | taken
    · omega
    · exact absurd taken fresh

/-- The second time, it fails. -/
theorem ends_get_again {k : Except (FutureError ε) R → Prog (FutureCall T R) _ _ α}
    (taken : i ∈ s.taken)
    (rest : ∀ s' : Futures T, s'.submitted = s.submitted →
      Ends (Serves outcome) post (k (.error .noState)) s') :
    Ends (Serves outcome) post (.call (.get i) k) s := by
  refine .call fun b s' served => ?_
  cases served with
  | get _ _ fresh => exact absurd taken fresh
  | invalid => exact rest _ rfl

end Program

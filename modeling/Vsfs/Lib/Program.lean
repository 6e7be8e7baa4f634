import Mathlib.Logic.Basic

/-!
# Programs that call out

A `Prog E φ ε α` is a sequential program that makes calls `e : E β`, each answered with a
`β` or with a failure `φ`, and returns an `α` or throws an `ε`. Loops are part of the
syntax, so a program may run for ever. What a call does is a relation `exec` on a state:
several outcomes when the environment has a choice, none when the run stops there.

`Evals` is the big-step semantics and `Ends` total correctness under every choice of the
environment; the rules for `bind` let a proof follow the structure of the program.
-/

namespace Program

universe u v w

/-- Programs with calls in `E`, which fail with a `φ`, and exceptions in `ε`. -/
inductive Prog (E : Type → Type v) (φ ε : Type) : Type → Type (max 1 v) where
  | ret {α : Type} (a : α) : Prog E φ ε α
  | throw {α : Type} (e : ε) : Prog E φ ε α
  | call {α β : Type} (e : E β) (k : Except φ β → Prog E φ ε α) : Prog E φ ε α
  /-- `body` is run again as long as it returns on the left. -/
  | iter {α σ β : Type} (body : σ → Prog E φ ε (σ ⊕ β)) (x : σ) (k : β → Prog E φ ε α) :
      Prog E φ ε α

namespace Prog

variable {E : Type → Type v} {φ ε α β γ : Type}

def bind : Prog E φ ε α → (α → Prog E φ ε β) → Prog E φ ε β
  | .ret a, f => f a
  | .throw e, _ => .throw e
  | .call e k, f => .call e (fun b => (k b).bind f)
  | .iter body x k, f => .iter body x (fun b => (k b).bind f)

instance : Monad (Prog E φ ε) where
  pure := .ret
  bind := .bind

/-- One call, with its answer as the result. -/
def perform (e : E α) : Prog E φ ε (Except φ α) := .call e .ret

/-- Run `body` from `x` until it returns on the right. -/
def loop {σ : Type} (body : σ → Prog E φ ε (σ ⊕ β)) (x : σ) : Prog E φ ε β := .iter body x .ret

/-- What follows one turn of a loop. -/
def again {σ : Type} (body : σ → Prog E φ ε (σ ⊕ β)) (k : β → Prog E φ ε α) : σ ⊕ β → Prog E φ ε α
  | .inl x => .iter body x k
  | .inr b => k b

@[simp] theorem pure_eq (a : α) : (pure a : Prog E φ ε α) = .ret a := rfl

@[simp] theorem bind_eq (p : Prog E φ ε α) (f : α → Prog E φ ε β) : p >>= f = p.bind f := rfl

@[simp] theorem ret_bind (a : α) (f : α → Prog E φ ε β) : (ret a : Prog E φ ε α).bind f = f a := rfl

@[simp] theorem throw_bind (e : ε) (f : α → Prog E φ ε β) :
    (throw e : Prog E φ ε α).bind f = .throw e := rfl

@[simp] theorem call_bind {δ : Type} (e : E δ) (k : Except φ δ → Prog E φ ε α)
    (f : α → Prog E φ ε β) :
    (call e k).bind f = .call e (fun b => (k b).bind f) := rfl

@[simp] theorem iter_bind {σ δ : Type} (body : σ → Prog E φ ε (σ ⊕ δ)) (x : σ)
    (k : δ → Prog E φ ε α) (f : α → Prog E φ ε β) :
    (iter body x k).bind f = .iter body x (fun b => (k b).bind f) := rfl

@[simp] theorem perform_bind (e : E α) (f : Except φ α → Prog E φ ε β) :
    (perform e).bind f = .call e f := rfl

@[simp] theorem loop_bind {σ : Type} (body : σ → Prog E φ ε (σ ⊕ β)) (x : σ)
    (f : β → Prog E φ ε γ) : (loop body x).bind f = .iter body x f := rfl

theorem bind_assoc (p : Prog E φ ε α) (f : α → Prog E φ ε β) (g : β → Prog E φ ε γ) :
    (p.bind f).bind g = p.bind (fun a => (f a).bind g) := by
  induction p with
  | ret a => rfl
  | throw e => rfl
  | call e k ih => simp [ih]
  | iter body x k _ ih => simp [ih]

theorem bind_ret (p : Prog E φ ε α) : p.bind .ret = p := by
  induction p with
  | ret a => rfl
  | throw e => rfl
  | call e k ih => simp [ih]
  | iter body x k _ ih => simp [ih]

/-- What returns at once has a first part that returns at once. -/
theorem ret_of_bind_eq_ret {p : Prog E φ ε α} {f : α → Prog E φ ε β} {b : β}
    (h : p.bind f = .ret b) : ∃ a, p = .ret a ∧ f a = .ret b := by
  cases p with
  | ret a => exact ⟨a, rfl, h⟩
  | throw e => cases h
  | call e k => cases h
  | iter body x k => cases h

instance : LawfulMonad (Prog E φ ε) := LawfulMonad.mk' _ bind_ret (fun _ _ => rfl) bind_assoc

theorem mapM_ret {γ : Type} {f : γ → Prog E φ ε β} {g : γ → β} {l : List γ}
    (h : ∀ x ∈ l, f x = .ret (g x)) : l.mapM f = .ret (l.map g) := by
  induction l with
  | nil => rfl
  | cons x l ih =>
    rw [List.mapM_cons, h x (by simp), ih fun y hy => h y (by simp [hy])]
    rfl

theorem foldlM_ret {γ : Type} {f : α → γ → Prog E φ ε α} {g : α → γ → α} {l : List γ}
    (h : ∀ a, ∀ x ∈ l, f a x = .ret (g a x)) (a : α) : l.foldlM f a = .ret (l.foldl g a) := by
  induction l generalizing a with
  | nil => rfl
  | cons x l ih =>
    rw [List.foldlM_cons, h a x (by simp), List.foldl_cons]
    exact ih (fun a y hy => h a y (by simp [hy])) (g a x)

/-- A loop over a list with an element at which it throws. -/
theorem foldlM_throws {γ : Type} {f : α → γ → Prog E φ ε α} {P : ε → Prop} {l : List γ}
    (each : ∀ a, ∀ x ∈ l, (∃ e, P e ∧ f a x = .throw e) ∨ ∃ a', f a x = .ret a')
    (bad : ∃ x ∈ l, ∀ a, ∃ e, f a x = .throw e) (a : α) :
    ∃ e, P e ∧ l.foldlM f a = .throw e := by
  induction l generalizing a with
  | nil => simp at bad
  | cons x l ih =>
    rw [List.foldlM_cons]
    rcases each a x (by simp) with ⟨e, of, thrown⟩ | ⟨a', done⟩
    · exact ⟨e, of, by rw [thrown]; rfl⟩
    · rw [done, bind_eq, ret_bind]
      obtain ⟨y, mem, throws⟩ := bad
      rcases List.mem_cons.mp mem with rfl | later
      · obtain ⟨e, thrown⟩ := throws a
        rw [done] at thrown
        cases thrown
      · exact ih (fun a z hz => each a z (by simp [hz])) ⟨y, later, throws⟩ a'

/-- A loop that is followed by `f` goes on with `f` after its last turn. -/
theorem again_bind {σ δ : Type} (body : σ → Prog E φ ε (σ ⊕ δ)) (k : δ → Prog E φ ε α)
    (f : α → Prog E φ ε β) (r : σ ⊕ δ) :
    (again body k r).bind f = again body (fun b => (k b).bind f) r := by
  cases r <;> rfl

/-- Every call that the program can come to is an allowed one. -/
def Calls (allowed : (β : Type) → E β → Prop) {α : Type} : Prog E φ ε α → Prop
  | .ret _ => True
  | .throw _ => True
  | .call e k => allowed _ e ∧ ∀ b, (k b).Calls allowed
  | .iter body _ k => (∀ x, (body x).Calls allowed) ∧ ∀ b, (k b).Calls allowed

theorem Calls.bind {allowed : (β : Type) → E β → Prop} {p : Prog E φ ε α} {f : α → Prog E φ ε β}
    (first : p.Calls allowed) (rest : ∀ a, (f a).Calls allowed) : (p.bind f).Calls allowed := by
  induction p with
  | ret a => exact rest a
  | throw e => trivial
  | call e k ih => exact ⟨first.1, fun b => ih b (first.2 b) rest⟩
  | iter body x k _ ih => exact ⟨first.1, fun b => ih b (first.2 b) rest⟩

theorem Calls.mono {allowed allowed' : (β : Type) → E β → Prop}
    (h : ∀ β (e : E β), allowed β e → allowed' β e) {p : Prog E φ ε α} (calls : p.Calls allowed) :
    p.Calls allowed' := by
  induction p with
  | ret a => trivial
  | throw e => trivial
  | call e k ih => exact ⟨h _ _ calls.1, fun b => ih b (calls.2 b)⟩
  | iter body x k ihb ih => exact ⟨fun x => ihb x (calls.1 x), fun b => ih b (calls.2 b)⟩

theorem calls_any (p : Prog E φ ε α) : p.Calls fun _ _ => True := by
  induction p with
  | ret a => trivial
  | throw e => trivial
  | call e k ih => exact ⟨trivial, ih⟩
  | iter body x k ihb ih => exact ⟨ihb, ih⟩

/-- One turn of a loop and what follows it. -/
theorem Calls.turn {σ : Type} {allowed : (β : Type) → E β → Prop} {body : σ → Prog E φ ε (σ ⊕ β)}
    {x : σ} {k : β → Prog E φ ε α} (calls : (iter body x k).Calls allowed) :
    ((body x).bind (again body k)).Calls allowed := by
  refine (calls.1 x).bind fun r => ?_
  cases r with
  | inl x => exact calls
  | inr b => exact calls.2 b

theorem Calls.foldlM {δ : Type} {allowed : (β : Type) → E β → Prop} {f : α → δ → Prog E φ ε α}
    (turn : ∀ a d, (f a d).Calls allowed) (l : List δ) (a : α) :
    (l.foldlM f a).Calls allowed := by
  induction l generalizing a with
  | nil => trivial
  | cons d l ih =>
    rw [List.foldlM_cons]
    exact (turn a d).bind fun a' => ih a'

theorem Calls.mapM {δ : Type} {allowed : (β : Type) → E β → Prop} {f : δ → Prog E φ ε β}
    (each : ∀ d, (f d).Calls allowed) (l : List δ) : (l.mapM f).Calls allowed := by
  induction l with
  | nil => trivial
  | cons d l ih =>
    rw [List.mapM_cons]
    exact (each d).bind fun b => ih.bind fun bs => trivial

/-- The same program, with each of its calls made as another one. -/
def mapCalls {E' : Type → Type w} (f : {β : Type} → E β → E' β) {α : Type} :
    Prog E φ ε α → Prog E' φ ε α
  | .ret a => .ret a
  | .throw e => .throw e
  | .call e k => .call (f e) fun b => (k b).mapCalls f
  | .iter body x k => .iter (fun y => (body y).mapCalls f) x fun b => (k b).mapCalls f

theorem mapCalls_bind {E' : Type → Type w} (f : {β : Type} → E β → E' β) (p : Prog E φ ε α)
    (g : α → Prog E φ ε β) :
    (p.bind g).mapCalls f = (p.mapCalls f).bind fun a => (g a).mapCalls f := by
  induction p with
  | ret a => rfl
  | throw e => rfl
  | call e k ih => simp only [call_bind, mapCalls, ih]
  | iter body x k _ ih => simp only [iter_bind, mapCalls, ih]

theorem Calls.mapCalls {E' : Type → Type w} {f : {β : Type} → E β → E' β}
    {allowed : (β : Type) → E β → Prop} {allowed' : (β : Type) → E' β → Prop}
    (each : ∀ β (e : E β), allowed β e → allowed' β (f e)) {p : Prog E φ ε α}
    (calls : p.Calls allowed) : (p.mapCalls f).Calls allowed' := by
  induction p with
  | ret a => trivial
  | throw e => trivial
  | call e k ih => exact ⟨each _ e calls.1, fun b => ih b (calls.2 b)⟩
  | iter body x k ihb ih => exact ⟨fun x => ihb x (calls.1 x), fun b => ih b (calls.2 b)⟩

/-- As long as every answer is one to rely on, every call is an allowed one and what is
returned meets `post`. Nothing is asked of the turns of a loop but their calls. -/
def Guarantees (rely : (β : Type) → E β → Except φ β → Prop) (allowed : (β : Type) → E β → Prop) :
    {α : Type} → Prog E φ ε α → (α → Prop) → Prop
  | _, .ret a, post => post a
  | _, .throw _, _ => True
  | _, .call e k, post => allowed _ e ∧ ∀ b, rely _ e b → (k b).Guarantees rely allowed post
  | _, .iter body _ k, post => (∀ x, (body x).Guarantees rely allowed fun _ => True) ∧
      ∀ b, (k b).Guarantees rely allowed post

variable {rely : (β : Type) → E β → Except φ β → Prop} {allowed : (β : Type) → E β → Prop}

theorem Guarantees.bind {p : Prog E φ ε α} {f : α → Prog E φ ε β} {mid : α → Prop} {post : β → Prop}
    (first : p.Guarantees rely allowed mid)
    (rest : ∀ a, mid a → (f a).Guarantees rely allowed post) :
    (p.bind f).Guarantees rely allowed post := by
  induction p with
  | ret a => exact rest a first
  | throw e => trivial
  | call e k ih => exact ⟨first.1, fun b relied => ih b (first.2 b relied) rest⟩
  | iter body x k _ ih => exact ⟨first.1, fun b => ih b (first.2 b) rest⟩

theorem Guarantees.turn {σ : Type} {body : σ → Prog E φ ε (σ ⊕ β)} {x : σ} {k : β → Prog E φ ε α}
    {post : α → Prop} (h : (iter body x k).Guarantees rely allowed post) :
    ((body x).bind (again body k)).Guarantees rely allowed post := by
  refine (h.1 x).bind fun r _ => ?_
  cases r with
  | inl x => exact h
  | inr b => exact h.2 b

/-- A program without calls that are not allowed, whatever the answers. -/
theorem Calls.guarantees {p : Prog E φ ε α} (calls : p.Calls allowed) :
    p.Guarantees rely allowed fun _ => True := by
  induction p with
  | ret a => trivial
  | throw e => trivial
  | call e k ih => exact ⟨calls.1, fun b _ => ih b (calls.2 b)⟩
  | iter body x k ihb ih => exact ⟨fun x => ihb x (calls.1 x), fun b => ih b (calls.2 b)⟩

theorem Guarantees.calls {p : Prog E φ ε α} {post : α → Prop}
    (h : p.Guarantees (fun _ _ _ => True) allowed post) : p.Calls allowed := by
  induction p with
  | ret a => trivial
  | throw e => trivial
  | call e k ih => exact ⟨h.1, fun b => ih b (h.2 b trivial)⟩
  | iter body x k ihb ih => exact ⟨fun x => ihb x (h.1 x), fun b => ih b (h.2 b)⟩

end Prog

/-! ## Semantics -/

section Semantics

open Prog

variable {E : Type → Type v} {φ ε α β : Type} {S : Type u}

/-- What a call does to the state of the environment: `exec _ e s b s'` for an answer `b`. -/
abbrev Exec (E : Type → Type v) (φ : Type) (S : Type u) :=
  (β : Type) → E β → S → Except φ β → S → Prop

/-- `p` can run from `s` to the end `r`, in the state `s'`. -/
inductive Evals (exec : Exec E φ S) {α : Type} : Prog E φ ε α → S → Except ε α → S → Prop where
  | ret {a : α} {s : S} : Evals exec (.ret a) s (.ok a) s
  | throw {e : ε} {s : S} : Evals exec (.throw e) s (.error e) s
  | call {β : Type} {e : E β} {k : Except φ β → Prog E φ ε α} {s s₁ s₂ : S}
      {b : Except φ β} {r : Except ε α}
      (now : exec β e s b s₁) (rest : Evals exec (k b) s₁ r s₂) : Evals exec (.call e k) s r s₂
  | iter {σ β : Type} {body : σ → Prog E φ ε (σ ⊕ β)} {x : σ} {k : β → Prog E φ ε α} {s s' : S}
      {r : Except ε α} (rest : Evals exec ((body x).bind (again body k)) s r s') :
      Evals exec (.iter body x k) s r s'

/-- However the environment answers, `p` ends, and in a result and a state that meet `post`. -/
inductive Ends (exec : Exec E φ S) {α : Type} (post : Except ε α → S → Prop) :
    Prog E φ ε α → S → Prop where
  | ret {a : α} {s : S} (h : post (.ok a) s) : Ends exec post (.ret a) s
  | throw {e : ε} {s : S} (h : post (.error e) s) : Ends exec post (.throw e) s
  | call {β : Type} {e : E β} {k : Except φ β → Prog E φ ε α} {s : S}
      (rest : ∀ b s', exec β e s b s' → Ends exec post (k b) s') : Ends exec post (.call e k) s
  | iter {σ β : Type} {body : σ → Prog E φ ε (σ ⊕ β)} {x : σ} {k : β → Prog E φ ε α} {s : S}
      (rest : Ends exec post ((body x).bind (again body k)) s) :
      Ends exec post (.iter body x k) s

variable {exec : Exec E φ S} {post : Except ε α → S → Prop}

/-- What every run ends in, this run ends in. -/
theorem Ends.sound {p : Prog E φ ε α} {s s' : S} {r : Except ε α} (total : Ends exec post p s)
    (run : Evals exec p s r s') : post r s' := by
  induction run with
  | ret =>
    cases total with
    | ret h => exact h
  | throw =>
    cases total with
    | throw h => exact h
  | call now _ ih =>
    cases total with
    | call rest => exact ih (rest _ _ now)
  | iter _ ih =>
    cases total with
    | iter rest => exact ih rest

theorem ends_ret_iff {a : α} {s : S} : Ends exec post (.ret a) s ↔ post (.ok a) s := by
  constructor
  · rintro (h | _ | _ | _)
    exact h
  · exact .ret

theorem ends_call_iff {β : Type} {e : E β} {k : Except φ β → Prog E φ ε α} {s : S} :
    Ends exec post (.call e k) s ↔ ∀ b s', exec β e s b s' → Ends exec post (k b) s' := by
  constructor
  · rintro (_ | _ | rest | _)
    exact rest
  · exact .call

theorem ends_iter_iff {σ β : Type} {body : σ → Prog E φ ε (σ ⊕ β)} {x : σ} {k : β → Prog E φ ε α}
    {s : S} : Ends exec post (.iter body x k) s ↔
      Ends exec post ((body x).bind (again body k)) s := by
  constructor
  · rintro (_ | _ | _ | rest)
    exact rest
  · exact .iter

/-- A program that ends has a run, in an environment that answers every call. -/
theorem Ends.exists_evals (answers : ∀ (β : Type) (e : E β) s, ∃ b s', exec β e s b s')
    {p : Prog E φ ε α} {s : S} (total : Ends exec post p s) : ∃ r s', Evals exec p s r s' := by
  induction total with
  | ret _ => exact ⟨_, _, .ret⟩
  | throw _ => exact ⟨_, _, .throw⟩
  | call _ ih =>
    obtain ⟨b, s₁, now⟩ := answers _ _ _
    obtain ⟨r, s₂, rest⟩ := ih b s₁ now
    exact ⟨r, s₂, .call now rest⟩
  | iter _ ih =>
    obtain ⟨r, s', rest⟩ := ih
    exact ⟨r, s', .iter rest⟩

/-- A run of two programs is a run of the first, followed by one of the second unless the
first one throws. -/
theorem Evals.bind_cases {f : α → Prog E φ ε β} {p : Prog E φ ε α} {s s' : S} {r : Except ε β}
    (run : Evals exec (p.bind f) s r s') :
    (∃ a s₁, Evals exec p s (.ok a) s₁ ∧ Evals exec (f a) s₁ r s') ∨
      ∃ e, r = .error e ∧ Evals exec p s (.error e) s' := by
  generalize whole : p.bind f = q at run
  induction run generalizing p with
  | ret =>
    cases p with
    | ret a => exact .inl ⟨a, _, .ret, (show f a = _ from whole) ▸ .ret⟩
    | throw e => cases whole
    | call e k => cases whole
    | iter body x k => cases whole
  | throw =>
    cases p with
    | ret a => exact .inl ⟨a, _, .ret, (show f a = _ from whole) ▸ .throw⟩
    | throw e =>
      cases whole
      exact .inr ⟨_, rfl, .throw⟩
    | call e k => cases whole
    | iter body x k => cases whole
  | call now rest ih =>
    cases p with
    | ret a => exact .inl ⟨a, _, .ret, (show f a = _ from whole) ▸ .call now rest⟩
    | throw e => cases whole
    | call e k =>
      cases whole
      rcases ih rfl with ⟨a, s₁, first, second⟩ | ⟨e, same, first⟩
      · exact .inl ⟨a, s₁, .call now first, second⟩
      · exact .inr ⟨e, same, .call now first⟩
    | iter body x k => cases whole
  | @iter σ δ body x k s s' r rest ih =>
    cases p with
    | ret a => exact .inl ⟨a, _, .ret, (show f a = _ from whole) ▸ .iter rest⟩
    | throw e => cases whole
    | call e k => cases whole
    | iter body x k' =>
      cases whole
      -- One turn and what follows it, before `f`.
      have turn : ((body x).bind (again body k')).bind f =
          (body x).bind (again body fun b => (k' b).bind f) := by
        rw [bind_assoc]
        simp only [again_bind]
      rcases ih turn with ⟨a, s₁, first, second⟩ | ⟨e, same, first⟩
      · exact .inl ⟨a, s₁, .iter first, second⟩
      · exact .inr ⟨e, same, .iter first⟩

/-- A run of a program that returns, and then one of what follows it. -/
theorem Evals.bind {f : α → Prog E φ ε β} {p : Prog E φ ε α} {a : α} {s s₁ s' : S}
    {r : Except ε β} (first : Evals exec p s (.ok a) s₁) (rest : Evals exec (f a) s₁ r s') :
    Evals exec (p.bind f) s r s' := by
  generalize result : (Except.ok a : Except ε α) = out at first
  induction first with
  | ret =>
    cases result
    exact rest
  | throw => cases result
  | call now _ ih => exact .call now (ih rest result)
  | @iter σ δ body x k s s' r _ ih =>
    refine .iter ?_
    have later := ih rest result
    rw [bind_assoc] at later
    simpa only [again_bind] using later

/-- A run of a program is one in any environment that follows this one on the allowed calls. -/
theorem Evals.map_of_calls {S' : Type*} {exec' : Exec E φ S'}
    {allowed : (β : Type) → E β → Prop} (f : S → S')
    (each : ∀ (β : Type) (e : E β) s b s', allowed β e → exec β e s b s' →
      exec' β e (f s) b (f s'))
    {p : Prog E φ ε α} {s s' : S} {r : Except ε α} (run : Evals exec p s r s')
    (calls : p.Calls allowed) : Evals exec' p (f s) r (f s') := by
  induction run with
  | ret => exact .ret
  | throw => exact .throw
  | call now _ ih => exact .call (each _ _ _ _ _ calls.1 now) (ih (calls.2 _))
  | iter _ ih => exact .iter (ih calls.turn)

/-- A run is one in any environment that follows this one. -/
theorem Evals.map {S' : Type*} {exec' : Exec E φ S'} (f : S → S')
    (each : ∀ (β : Type) (e : E β) s b s', exec β e s b s' → exec' β e (f s) b (f s'))
    {p : Prog E φ ε α} {s s' : S} {r : Except ε α} (run : Evals exec p s r s') :
    Evals exec' p (f s) r (f s') := by
  induction run with
  | ret => exact .ret
  | throw => exact .throw
  | call now _ ih => exact .call (each _ _ _ _ _ now) ih
  | iter _ ih => exact .iter ih

theorem Evals.mono {exec' : Exec E φ S}
    (weaker : ∀ (β : Type) (e : E β) s b s', exec β e s b s' → exec' β e s b s')
    {p : Prog E φ ε α} {s s' : S} {r : Except ε α} (run : Evals exec p s r s') :
    Evals exec' p s r s' :=
  run.map id weaker

/-- What every allowed call keeps, a run of a program with only such calls keeps. -/
theorem Evals.invariant {allowed : (β : Type) → E β → Prop} {inv : S → Prop}
    (keeps : ∀ β e s b s', allowed β e → exec β e s b s' → inv s → inv s')
    {p : Prog E φ ε α} {s s' : S} {r : Except ε α} (run : Evals exec p s r s')
    (calls : p.Calls allowed) (start : inv s) : inv s' := by
  induction run with
  | ret => exact start
  | throw => exact start
  | call now _ ih => exact ih (calls.2 _) (keeps _ _ _ _ _ calls.1 now start)
  | iter _ ih => exact ih calls.turn start

theorem Ends.imp {post' : Except ε α → S → Prop} (h : ∀ r s, post r s → post' r s)
    {p : Prog E φ ε α} {s : S} (total : Ends exec post p s) : Ends exec post' p s := by
  induction total with
  | ret now => exact .ret (h _ _ now)
  | throw now => exact .throw (h _ _ now)
  | call _ ih => exact .call ih
  | iter _ ih => exact .iter ih

/-- What every allowed call keeps, a program with only such calls keeps to its end. -/
theorem Ends.invariant {allowed : (β : Type) → E β → Prop} {inv : S → Prop}
    (keeps : ∀ β e s b s', allowed β e → exec β e s b s' → inv s → inv s')
    {p : Prog E φ ε α} {s : S} (total : Ends exec post p s) (calls : p.Calls allowed)
    (start : inv s) : Ends exec (fun r s' => post r s' ∧ inv s') p s := by
  induction total with
  | ret h => exact .ret ⟨h, start⟩
  | throw h => exact .throw ⟨h, start⟩
  | call _ ih =>
    exact .call fun b s' now => ih b s' now (calls.2 b) (keeps _ _ _ _ _ calls.1 now start)
  | iter _ ih => exact .iter (ih calls.turn start)

/-- The postcondition for the first of two programs: the second one ends, or there is an
exception to pass on. -/
def Then (exec : Exec E φ S) (f : α → Prog E φ ε β) (post : Except ε β → S → Prop) :
    Except ε α → S → Prop
  | .ok a, s => Ends exec post (f a) s
  | .error e, s => post (.error e) s

theorem Ends.bind {post : Except ε β → S → Prop} {f : α → Prog E φ ε β} {p : Prog E φ ε α} {s : S}
    (first : Ends exec (Then exec f post) p s) : Ends exec post (p.bind f) s := by
  induction first with
  | ret h => exact h
  | throw h => exact .throw h
  | call _ ih => exact .call ih
  | @iter σ β body x k s _ ih =>
    refine .iter ?_
    rw [bind_assoc] at ih
    simpa only [again_bind] using ih

/-- A loop over a list keeps an invariant that may speak of the elements passed so far. -/
theorem Ends.foldlM {δ : Type} {f : α → δ → Prog E φ ε α} {inv : List δ → α → S → Prop}
    {all : List δ}
    (turn : ∀ done d rest a s, done ++ d :: rest = all → inv done a s →
      Ends exec (fun r s' => match r with
        | .ok a' => inv (done ++ [d]) a' s'
        | .error e => post (.error e) s') (f a d) s)
    (last : ∀ a s, inv all a s → post (.ok a) s) {done rest : List δ} {a : α} {s : S}
    (total : done ++ rest = all) (start : inv done a s) :
    Ends exec post (rest.foldlM f a) s := by
  induction rest generalizing done a s with
  | nil =>
    have : done = all := by simpa using total
    exact .ret (last a s (this ▸ start))
  | cons d rest ih =>
    rw [List.foldlM_cons]
    refine .bind ((turn done d rest a s total start).imp fun r s' h => ?_)
    cases r with
    | ok a' => exact ih (by simpa using total) h
    | error e => exact h

/-! ## Partial correctness -/

/-- Every run of `p` that comes to an end meets `post`; there may be runs that do not. -/
def Always (exec : Exec E φ S) (post : Except ε α → S → Prop) (p : Prog E φ ε α) (s : S) : Prop :=
  ∀ r s', Evals exec p s r s' → post r s'

theorem Always.ret {a : α} {s : S} (h : post (.ok a) s) : Always exec post (.ret a) s := by
  rintro r s' (_ | _ | _ | _)
  exact h

theorem Always.throw {e : ε} {s : S} (h : post (.error e) s) : Always exec post (.throw e) s := by
  rintro r s' (_ | _ | _ | _)
  exact h

theorem Always.call {β : Type} {e : E β} {k : Except φ β → Prog E φ ε α} {s : S}
    (rest : ∀ b s', exec β e s b s' → Always exec post (k b) s') :
    Always exec post (.call e k) s := by
  rintro r s' (_ | _ | ⟨now, after⟩ | _)
  exact rest _ _ now _ _ after

theorem Always.imp {post' : Except ε α → S → Prop} (h : ∀ r s, post r s → post' r s)
    {p : Prog E φ ε α} {s : S} (first : Always exec post p s) : Always exec post' p s :=
  fun r s' run => h r s' (first r s' run)

/-- What the first of two programs has to end in. -/
def Leads (exec : Exec E φ S) (f : α → Prog E φ ε β) (post : Except ε β → S → Prop) :
    Except ε α → S → Prop
  | .ok a, s => Always exec post (f a) s
  | .error e, s => post (.error e) s

theorem Always.bind {post : Except ε β → S → Prop} {f : α → Prog E φ ε β} {p : Prog E φ ε α} {s : S}
    (first : Always exec (Leads exec f post) p s) : Always exec post (p.bind f) s := by
  intro r s' run
  rcases run.bind_cases with ⟨a, s₁, run₁, run₂⟩ | ⟨e, rfl, run₁⟩
  · exact first _ _ run₁ _ _ run₂
  · exact first _ _ run₁

/-- What a turn of a loop has to end in: the invariant before the next turn, or what follows
the loop. -/
def Turns (exec : Exec E φ S) {σ : Type} (inv : σ → S → Prop) (k : β → Prog E φ ε α)
    (post : Except ε α → S → Prop) : Except ε (σ ⊕ β) → S → Prop
  | .ok (.inl x), s => inv x s
  | .ok (.inr b), s => Always exec post (k b) s
  | .error e, s => post (.error e) s

/-- A run that is in the middle of a turn. -/
theorem Always.again {σ : Type} {body : σ → Prog E φ ε (σ ⊕ β)} {k : β → Prog E φ ε α}
    {inv : σ → S → Prop}
    (turn : ∀ x s, inv x s → Always exec (Turns exec inv k post) (body x) s)
    {p : Prog E φ ε (σ ⊕ β)} {s s' : S} {r : Except ε α}
    (middle : Always exec (Turns exec inv k post) p s)
    (run : Evals exec (p.bind (Prog.again body k)) s r s') : post r s' := by
  generalize whole : p.bind (Prog.again body k) = q at run
  induction run generalizing p with
  | @ret a s =>
    cases p with
    | ret b =>
      have here := middle _ _ .ret
      cases b with
      | inl x => cases whole
      | inr b => exact here _ _ ((show k b = _ from whole) ▸ .ret)
    | throw e => cases whole
    | call e k => cases whole
    | iter body x k => cases whole
  | @throw e s =>
    cases p with
    | ret b =>
      have here := middle _ _ .ret
      cases b with
      | inl x => cases whole
      | inr b => exact here _ _ ((show k b = _ from whole) ▸ .throw)
    | throw e =>
      cases whole
      exact middle _ _ .throw
    | call e k => cases whole
    | iter body x k => cases whole
  | call now rest ih =>
    cases p with
    | ret b =>
      have here := middle _ _ .ret
      cases b with
      | inl x => cases whole
      | inr b => exact here _ _ ((show k b = _ from whole) ▸ .call now rest)
    | throw e => cases whole
    | call e k =>
      cases whole
      exact ih (fun r s run => middle r s (.call now run)) rfl
    | iter body x k => cases whole
  | iter rest ih =>
    cases p with
    | ret b =>
      have here := middle _ _ .ret
      cases b with
      | inl x =>
        cases whole
        exact ih (turn x _ here) rfl
      | inr b => exact here _ _ ((show k b = _ from whole) ▸ .iter rest)
    | throw e => cases whole
    | call e k => cases whole
    | iter body' x' k' =>
      cases whole
      refine ih (fun r s run => middle r s (.iter run)) ?_
      rw [bind_assoc]
      simp only [again_bind]

/-- A loop keeps the invariant of its turns. -/
theorem Always.iter {σ : Type} {body : σ → Prog E φ ε (σ ⊕ β)} {k : β → Prog E φ ε α}
    {inv : σ → S → Prop}
    (turn : ∀ x s, inv x s → Always exec (Turns exec inv k post) (body x) s) {x : σ} {s : S}
    (start : inv x s) : Always exec post (.iter body x k) s := by
  rintro r s' (_ | _ | _ | rest)
  exact Always.again turn (turn x s start) rest

/-! ## Running a program -/

/-- Run `p` for at most `fuel` calls and turns of loops. -/
def eval (answer : (β : Type) → E β → S → Option (Except φ β × S)) :
    Nat → Prog E φ ε α → S → Option (Except ε α × S)
  | 0, _, _ => none
  | _ + 1, .ret a, s => some (.ok a, s)
  | _ + 1, .throw e, s => some (.error e, s)
  | fuel + 1, .call e k, s =>
    match answer _ e s with
    | none => none
    | some (b, s') => eval answer fuel (k b) s'
  | fuel + 1, .iter body x k, s => eval answer fuel ((body x).bind (again body k)) s

theorem eval_sound {answer : (β : Type) → E β → S → Option (Except φ β × S)}
    (sound : ∀ β e s b s', answer β e s = some (b, s') → exec β e s b s') {fuel : Nat}
    {p : Prog E φ ε α} {s s' : S} {r : Except ε α} (h : eval answer fuel p s = some (r, s')) :
    Evals exec p s r s' := by
  induction fuel generalizing p s with
  | zero => cases h
  | succ fuel ih =>
    cases p with
    | ret a =>
      cases h
      exact .ret
    | throw e =>
      cases h
      exact .throw
    | call e k =>
      simp only [eval] at h
      split at h
      · cases h
      · exact .call (sound _ _ _ _ _ ‹_›) (ih h)
    | iter body x k => exact .iter (ih h)

end Semantics

end Program

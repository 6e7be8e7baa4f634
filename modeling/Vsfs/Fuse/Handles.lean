import Vsfs.Fuse.OpenFiles
import Vsfs.Lib.Divided
import Vsfs.Lib.FiniteMap

/-!
# Handles and what they stand for

The descriptors, the `File` objects and the entries of the table each belong to one thread, or to
a handle that the kernel knows. They change hands as a whole: a thread that opens a file enters it
into the table and hands it to the kernel; a release takes it back, and closes it and erases it
within one critical section.
-/

namespace Vsfs.Fuse.OpenFiles

open Std Program Function

/-- A `File`, the descriptor of its handler, and what that is open on. -/
structure Opened where
  file : Address
  fd : Int
  description : Description

/-- What one owner has to itself. -/
inductive Held where
  | nothing
  | descriptor (fd : Int) (description : Description)
  /-- An object that is not in the table. -/
  | unlisted (o : Opened)
  | entry (o : Opened)
  /-- An entry of the table whose descriptor has been closed. -/
  | closing (fh : BitVec 64) (file : Address) (handler : Option PosixFileHandler)
  /-- An object that has left the table. -/
  | removed (file : Address) (handler : Option PosixFileHandler)

namespace Held

def descriptorCell : Held → Option (Int × Description)
  | .descriptor fd description => some (fd, description)
  | .unlisted o => some (o.fd, o.description)
  | .entry o => some (o.fd, o.description)
  | _ => none

def objectCell : Held → Option (Address × File)
  | .unlisted o => some (o.file, ⟨some ⟨o.fd⟩⟩)
  | .entry o => some (o.file, ⟨some ⟨o.fd⟩⟩)
  | .closing _ file handler => some (file, ⟨handler⟩)
  | .removed file handler => some (file, ⟨handler⟩)
  | _ => none

def entryCell : Held → Option (BitVec 64 × Address)
  | .entry o => some (handleOf o.fd, o.file)
  | .closing fh file _ => some (fh, file)
  | _ => none

end Held

/-- What a thread has: what it owns, the handle it works on, and whether it has the mutex. -/
structure Holding where
  held : Held := .nothing
  working : Option (BitVec 64 × Opened) := none
  locked : Bool := false

/-- The owners are the threads and the handles of the kernel. -/
def cells {γ : Type} (f : Held → Option γ) (own : Nat → Holding) (lent : BitVec 64 → Held) :
    Nat ⊕ BitVec 64 → Option γ :=
  Sum.elim (fun i => f (own i).held) (fun fh => f (lent fh))

/-- What thread `i` has besides what it owns. -/
structure Placed (s : Mount) (lent : BitVec 64 → Held) (i : Nat) (h : Holding) : Prop where
  working : ∀ {fh o}, h.working = some (fh, o) → lent fh = .entry o ∧
    ∃ known, s.handles[fh]? = some known ∧ i ∈ known.users
  mutex : h.locked = true ↔ s.objMapMutex = some i
  closing : ∀ {fh file handler}, h.held = .closing fh file handler → h.locked = true

structure Consistent (s : Mount) (own : Nat → Holding) (lent : BitVec 64 → Held) : Prop where
  descriptors : Divided (fun fd : Int => s.descriptors[fd]?) (cells Held.descriptorCell own lent)
  objects : Divided (fun file : Address => s.objects[file]?) (cells Held.objectCell own lent)
  entries : Divided (fun fh : BitVec 64 => s.fhToObjMap[fh]?) (cells Held.entryCell own lent)
  range : ∀ {fd : Int} {d}, s.descriptors[fd]? = some d → 0 ≤ fd ∧ fd < 2 ^ 31
  known : ∀ {fh h}, s.handles[fh]? = some h → ∃ o, lent fh = .entry o ∧ handleOf o.fd = fh ∧
    o.description.thread = h.thread
  unknown : ∀ {fh}, s.handles[fh]? = none → lent fh = .nothing
  threads : ∀ i, Placed s lent i (own i)

/-! ## Descriptors as handles -/

theorem descriptorOf_handleOf {fd : Int} (small : 0 ≤ fd ∧ fd < 2 ^ 31) :
    descriptorOf (handleOf fd) = fd := by
  obtain ⟨n, rfl⟩ := Int.eq_ofNat_of_zero_le small.1
  have bound : n < 2 ^ 31 := by omega
  have bits : (handleOf n).toNat = n := by
    rw [handleOf, BitVec.ofInt_natCast, BitVec.toNat_ofNat, Nat.mod_eq_of_lt (by omega)]
  rw [descriptorOf, bits, toInt32_eq_iff]
  exact bound

theorem handleOf_injective {fd fd' : Int} (small : 0 ≤ fd ∧ fd < 2 ^ 31)
    (small' : 0 ≤ fd' ∧ fd' < 2 ^ 31) (same : handleOf fd = handleOf fd') : fd = fd' := by
  rw [← descriptorOf_handleOf small, same, descriptorOf_handleOf small']

/-! ## One thread moves on -/

section Cells

variable {γ : Type} (f : Held → Option γ) (own : Nat → Holding) (lent : BitVec 64 → Held)

@[simp] theorem cells_inl (i : Nat) : cells f own lent (.inl i) = f (own i).held := rfl

@[simp] theorem cells_inr (fh : BitVec 64) : cells f own lent (.inr fh) = f (lent fh) := rfl

theorem cells_update (i : Nat) (h : Holding) :
    cells f (update own i h) lent = update (cells f own lent) (.inl i) (f h.held) := by
  funext o
  cases o with
  | inl j =>
    by_cases same : j = i
    · subst same
      simp
    · rw [update_of_ne (by simpa using same), cells_inl, cells_inl, update_of_ne same]
  | inr fh => rw [update_of_ne (by simp), cells_inr, cells_inr]

theorem cells_update_lent (fh : BitVec 64) (held : Held) :
    cells f own (update lent fh held) = update (cells f own lent) (.inr fh) (f held) := by
  funext o
  cases o with
  | inl i => rw [update_of_ne (by simp), cells_inl, cells_inl]
  | inr fh' =>
    by_cases same : fh' = fh
    · subst same
      simp
    · rw [update_of_ne (by simpa using same), cells_inr, cells_inr, update_of_ne same]

end Cells

variable {s s' : Mount} {own : Nat → Holding} {lent : BitVec 64 → Held} {i : Nat}

/-- What the thread that moves on has, and the others keep. -/
theorem placed_update {h : Holding} {lent' : BitVec 64 → Held} (mine : Placed s' lent' i h)
    (others : ∀ j, j ≠ i → Placed s' lent' j (own j)) (j : Nat) :
    Placed s' lent' j (update own i h j) := by
  by_cases same : j = i
  · subst same
    rwa [update_self]
  · rw [update_of_ne same]
    exact others j same

/-- A handle changes that the thread does not work on. -/
theorem Placed.unused {fh : BitVec 64} {held : Held} {j : Nat} {h : Holding}
    (placed : Placed s lent j h) (unused : ∀ known, s.handles[fh]? = some known → j ∉ known.users)
    (handles : ∀ fh', fh ≠ fh' → s'.handles[fh']? = s.handles[fh']?)
    (mutex : s'.objMapMutex = s.objMapMutex) : Placed s' (update lent fh held) j h := by
  refine ⟨fun {fh' o} works => ?_, mutex ▸ placed.mutex, placed.closing⟩
  obtain ⟨entry, known, found, user⟩ := placed.working works
  have other : fh ≠ fh' := by
    rintro rfl
    exact unused known found user
  rw [update_of_ne (Ne.symm other), handles fh' other]
  exact ⟨entry, known, found, user⟩

namespace Consistent

/-- A thread changes what it owns, and the maps with it. -/
theorem hold {held held' : Held} {w : Option (BitVec 64 × Opened)} {l : Bool}
    (c : Consistent s own lent) (holds : own i = ⟨held, w, l⟩)
    (descriptors : Divided (fun fd : Int => s'.descriptors[fd]?)
      (update (cells Held.descriptorCell own lent) (.inl i) held'.descriptorCell))
    (objects : Divided (fun file : Address => s'.objects[file]?)
      (update (cells Held.objectCell own lent) (.inl i) held'.objectCell))
    (entries : Divided (fun fh : BitVec 64 => s'.fhToObjMap[fh]?)
      (update (cells Held.entryCell own lent) (.inl i) held'.entryCell))
    (range : ∀ {fd : Int} {d}, s'.descriptors[fd]? = some d → 0 ≤ fd ∧ fd < 2 ^ 31)
    (closing : ∀ {fh file handler}, held' = .closing fh file handler → l = true)
    (handles : s'.handles = s.handles) (mutex : s'.objMapMutex = s.objMapMutex) :
    Consistent s' (update own i ⟨held', w, l⟩) lent where
  descriptors := by rwa [cells_update]
  objects := by rwa [cells_update]
  entries := by rwa [cells_update]
  range := range
  known {fh h} found := c.known (handles ▸ found)
  unknown {fh} missing := c.unknown (handles ▸ missing)
  threads := by
    have kept {j : Nat} {h : Holding} (placed : Placed s lent j h) : Placed s' lent j h :=
      ⟨fun works => handles ▸ placed.working works, mutex ▸ placed.mutex, placed.closing⟩
    have before : Placed s lent i ⟨held, w, l⟩ := holds ▸ c.threads i
    refine placed_update ⟨(kept before).working, (kept before).mutex, closing⟩ fun j _ => ?_
    exact kept (c.threads j)

section Cell

variable {held : Held} {w : Option (BitVec 64 × Opened)} {l : Bool}

/-- A cell that stays as it is. -/
theorem same_cell {κ ν : Type} {m : κ → Option ν} {f : Held → Option (κ × ν)} {held' : Held}
    (d : Divided m (cells f own lent)) (holds : own i = ⟨held, w, l⟩) (same : f held' = f held) :
    Divided m (update (cells f own lent) (.inl i) (f held')) := by
  have here : f held' = cells f own lent (.inl i) := by rw [cells_inl, holds, same]
  rwa [here, update_eq_self]

/-- A thread without anything of its own gets a descriptor. -/
theorem opened {fd : Int} {d : Description} (c : Consistent s own lent)
    (holds : own i = ⟨.nothing, w, l⟩) (small : 0 ≤ fd ∧ fd < 2 ^ 31)
    (new : s.descriptors[fd]? = none) :
    Consistent { s with descriptors := s.descriptors.insert fd d }
      (update own i ⟨.descriptor fd d, w, l⟩) lent := by
  refine c.hold holds ?_ ?_ ?_ (fun {fd' d'} found => ?_) nofun rfl rfl
  · rw [FiniteMap.lookup_insert]
    exact c.descriptors.take new (by rw [cells_inl, holds]; rfl)
  · exact same_cell c.objects holds rfl
  · exact same_cell c.entries holds rfl
  · rw [FiniteMap.getElem?_insert] at found
    split at found
    · next same => exact same ▸ small
    · exact c.range found

/-- A thread closes a descriptor of its own. -/
theorem closed {held' : Held} {fd : Int} {d : Description} (c : Consistent s own lent)
    (holds : own i = ⟨held, w, l⟩) (cell : held.descriptorCell = some (fd, d))
    (gone : held'.descriptorCell = none) (object : held'.objectCell = held.objectCell)
    (entry : held'.entryCell = held.entryCell)
    (closing : ∀ {fh file handler}, held' = .closing fh file handler → l = true) :
    Consistent { s with descriptors := s.descriptors.erase fd }
      (update own i ⟨held', w, l⟩) lent := by
  refine c.hold holds ?_ ?_ ?_ (fun {fd' d'} found => ?_) closing rfl rfl
  · rw [FiniteMap.lookup_erase, gone]
    exact c.descriptors.drop (by rw [cells_inl, holds]; exact cell)
  · exact same_cell c.objects holds object
  · exact same_cell c.entries holds entry
  · rw [FiniteMap.getElem?_erase] at found
    split at found
    · cases found
    · exact c.range found

/-- A `File` for a descriptor of the thread. -/
theorem allocated {o : Opened} (c : Consistent s own lent)
    (holds : own i = ⟨.descriptor o.fd o.description, w, l⟩) (new : s.objects[o.file]? = none) :
    Consistent { s with objects := s.objects.insert o.file ⟨some ⟨o.fd⟩⟩ }
      (update own i ⟨.unlisted o, w, l⟩) lent := by
  refine c.hold holds ?_ ?_ ?_ c.range nofun rfl rfl
  · exact same_cell c.descriptors holds rfl
  · rw [FiniteMap.lookup_insert]
    exact c.objects.take new (by rw [cells_inl, holds]; rfl)
  · exact same_cell c.entries holds rfl

/-- A thread writes to an object of its own. -/
theorem stored {file : Address} {object object' : File} (c : Consistent s own lent)
    (held' : Held) (holds : own i = ⟨held, w, l⟩) (cell : held.objectCell = some (file, object))
    (cell' : held'.objectCell = some (file, object'))
    (descriptor : held'.descriptorCell = held.descriptorCell)
    (entry : held'.entryCell = held.entryCell)
    (closing : ∀ {fh file handler}, held' = .closing fh file handler → l = true) :
    Consistent { s with objects := s.objects.insert file object' }
      (update own i ⟨held', w, l⟩) lent := by
  refine c.hold holds ?_ ?_ ?_ c.range closing rfl rfl
  · exact same_cell c.descriptors holds descriptor
  · rw [FiniteMap.lookup_insert, cell']
    exact c.objects.put (by rw [cells_inl, holds]; exact cell)
  · exact same_cell c.entries holds entry

theorem freed {file : Address} {handler : Option PosixFileHandler} (c : Consistent s own lent)
    (holds : own i = ⟨.removed file handler, w, l⟩) :
    Consistent { s with objects := s.objects.erase file } (update own i ⟨.nothing, w, l⟩) lent := by
  refine c.hold holds ?_ ?_ ?_ c.range nofun rfl rfl
  · exact same_cell c.descriptors holds rfl
  · rw [FiniteMap.lookup_erase]
    exact c.objects.drop (by rw [cells_inl, holds]; rfl)
  · exact same_cell c.entries holds rfl

/-- Nobody else has an entry for the number of a descriptor that is open: its owner would have
the descriptor too, or be about to erase the entry and so have the mutex. -/
theorem entry_free {o : Opened} (c : Consistent s own lent)
    (holds : own i = ⟨.unlisted o, w, true⟩) : s.fhToObjMap[handleOf o.fd]? = none := by
  have mine : cells Held.descriptorCell own lent (.inl i) = some (o.fd, o.description) := by
    rw [cells_inl, holds]
    rfl
  cases found : s.fhToObjMap[handleOf o.fd]? with
  | none => rfl
  | some file =>
    exfalso
    obtain ⟨owner, cell⟩ := c.entries.whole found
    -- The owner of the entry has the descriptor, and is the thread itself.
    have other (o' : Opened) (descriptor : cells Held.descriptorCell own lent owner =
        some (o'.fd, o'.description)) (same : handleOf o'.fd = handleOf o.fd) : owner = .inl i := by
      have equal := handleOf_injective (c.range (c.descriptors.part descriptor))
        (c.range (c.descriptors.part mine)) same
      rw [equal] at descriptor
      exact c.descriptors.apart descriptor mine
    cases owner with
    | inr fh =>
      rw [cells_inr] at cell
      cases held : lent fh with
      | entry o' =>
        rw [held] at cell
        have same := (Prod.mk.inj (Option.some.inj cell)).1
        cases other o' (by rw [cells_inr, held]; rfl) same
      | closing fh' file' handler =>
        -- The kernel never has such an entry.
        cases isKnown : s.handles[fh]? with
        | none =>
          rw [c.unknown isKnown] at held
          cases held
        | some h =>
          obtain ⟨o', entry, -, -⟩ := c.known isKnown
          rw [entry] at held
          cases held
      | nothing => rw [held] at cell; cases cell
      | descriptor fd d => rw [held] at cell; cases cell
      | unlisted o' => rw [held] at cell; cases cell
      | removed file' handler => rw [held] at cell; cases cell
    | inl j =>
      rw [cells_inl] at cell
      cases held : (own j).held with
      | entry o' =>
        rw [held] at cell
        have same := (Prod.mk.inj (Option.some.inj cell)).1
        cases other o' (by rw [cells_inl, held]; rfl) same
        rw [holds] at held
        cases held
      | closing fh' file' handler =>
        have locked := (c.threads j).mutex.mp ((c.threads j).closing held)
        rw [(c.threads i).mutex.mp (by rw [holds])] at locked
        cases locked
        rw [holds] at held
        cases held
      | nothing => rw [held] at cell; cases cell
      | descriptor fd d => rw [held] at cell; cases cell
      | unlisted o' => rw [held] at cell; cases cell
      | removed file' handler => rw [held] at cell; cases cell

theorem assigned {o : Opened} (c : Consistent s own lent)
    (holds : own i = ⟨.unlisted o, w, true⟩) :
    Consistent { s with fhToObjMap := s.fhToObjMap.insert (handleOf o.fd) o.file }
      (update own i ⟨.entry o, w, true⟩) lent := by
  refine c.hold holds ?_ ?_ ?_ c.range nofun rfl rfl
  · exact same_cell c.descriptors holds rfl
  · exact same_cell c.objects holds rfl
  · rw [FiniteMap.lookup_insert]
    exact c.entries.take (c.entry_free holds) (by rw [cells_inl, holds]; rfl)

theorem erased {fh : BitVec 64} {file : Address} {handler : Option PosixFileHandler}
    (c : Consistent s own lent) (holds : own i = ⟨.closing fh file handler, w, l⟩) :
    Consistent { s with fhToObjMap := s.fhToObjMap.erase fh }
      (update own i ⟨.removed file handler, w, l⟩) lent := by
  refine c.hold holds ?_ ?_ ?_ c.range nofun rfl rfl
  · exact same_cell c.descriptors holds rfl
  · exact same_cell c.objects holds rfl
  · rw [FiniteMap.lookup_erase]
    exact c.entries.drop (by rw [cells_inl, holds]; rfl)

/-- A thread takes the mutex, or gives it back. -/
theorem relocked {l' : Bool} {owner : Option Nat} (c : Consistent s own lent)
    (holds : own i = ⟨held, w, l⟩) (mine : l' = true ↔ owner = some i)
    (others : ∀ j, j ≠ i → ((own j).locked = true ↔ owner = some j))
    (closing : ∀ {fh file handler}, held = .closing fh file handler → l' = true) :
    Consistent { s with objMapMutex := owner } (update own i ⟨held, w, l'⟩) lent where
  descriptors := by
    rw [cells_update]
    exact same_cell c.descriptors holds rfl
  objects := by
    rw [cells_update]
    exact same_cell c.objects holds rfl
  entries := by
    rw [cells_update]
    exact same_cell c.entries holds rfl
  range := c.range
  known := c.known
  unknown := c.unknown
  threads := by
    have before : Placed s lent i ⟨held, w, l⟩ := holds ▸ c.threads i
    refine placed_update ⟨before.working, mine, closing⟩ fun j other => ?_
    exact ⟨(c.threads j).working, others j other, (c.threads j).closing⟩

theorem lock (c : Consistent s own lent) (holds : own i = ⟨held, w, false⟩)
    (free : s.objMapMutex = none) :
    Consistent { s with objMapMutex := some i } (update own i ⟨held, w, true⟩) lent := by
  refine c.relocked holds (by simp) (fun j other => ?_) fun _ => rfl
  rw [(c.threads j).mutex, free]
  simp [Ne.symm other]

theorem unlock (c : Consistent s own lent) (holds : own i = ⟨held, w, true⟩)
    (done : ∀ {fh file handler}, held ≠ .closing fh file handler) :
    s.objMapMutex = some i ∧
      Consistent { s with objMapMutex := none } (update own i ⟨held, w, false⟩) lent := by
  have mine : s.objMapMutex = some i := (c.threads i).mutex.mp (by rw [holds])
  refine ⟨mine, c.relocked holds (by simp) (fun j other => ?_) fun is => (done is).elim⟩
  rw [(c.threads j).mutex, mine]
  simp [Ne.symm other]

end Cell

/-! ### The handles of the kernel -/

section Kernel

variable {w : Option (BitVec 64 × Opened)} {l : Bool} {o : Opened} {fh : BitVec 64}

theorem not_handed (c : Consistent s own lent) (holds : own i = ⟨.entry o, w, l⟩) :
    s.handles[handleOf o.fd]? = none := by
  cases found : s.handles[handleOf o.fd]? with
  | none => rfl
  | some h =>
    obtain ⟨o', entry, same, -⟩ := c.known found
    have mine : cells Held.entryCell own lent (.inl i) = some (handleOf o.fd, o.file) := by
      rw [cells_inl, holds]
      rfl
    have its : cells Held.entryCell own lent (.inr (handleOf o.fd)) =
        some (handleOf o.fd, o'.file) := by
      rw [cells_inr, entry]
      exact congrArg (fun fh => some (fh, o'.file)) same
    cases c.entries.apart mine its

/-- The kernel gets the file that a thread has entered into the table. -/
theorem handed (c : Consistent s own lent) (holds : own i = ⟨.entry o, w, l⟩)
    (mine : o.description.thread = i) :
    Consistent { s with handles := s.handles.insert (handleOf o.fd) ⟨i, []⟩ }
      (update own i ⟨.nothing, w, l⟩) (update lent (handleOf o.fd) (.entry o)) := by
  have new := c.not_handed holds
  have moves {κ ν : Type} [DecidableEq κ] {m : κ → Option ν} {f : Held → Option (κ × ν)} {k : κ}
      {v : ν}
      (d : Divided m (cells f own lent)) (cell : f (.entry o) = some (k, v))
      (none : f .nothing = none) :
      Divided m (cells f (update own i ⟨.nothing, w, l⟩)
        (update lent (handleOf o.fd) (.entry o))) := by
    rw [cells_update_lent, cells_update, none, cell]
    refine d.move ?_ ?_
    · rw [cells_inl, holds, cell]
    · rw [cells_inr, c.unknown new, none]
  exact {
    descriptors := moves c.descriptors rfl rfl
    objects := moves c.objects rfl rfl
    entries := moves c.entries rfl rfl
    range := c.range
    known := by
      intro fh h found
      rw [FiniteMap.getElem?_insert] at found
      split at found
      · next same =>
        subst same
        cases found
        exact ⟨o, update_self _ _ _, rfl, mine⟩
      · next other =>
        rw [update_of_ne (Ne.symm other)]
        exact c.known found
    unknown := by
      intro fh missing
      rw [FiniteMap.getElem?_insert] at missing
      split at missing
      · cases missing
      · next other =>
        rw [update_of_ne (Ne.symm other)]
        exact c.unknown missing
    threads := by
      have kept {j : Nat} {h : Holding} (placed : Placed s lent j h) :
          Placed { s with handles := s.handles.insert (handleOf o.fd) ⟨i, []⟩ }
            (update lent (handleOf o.fd) (.entry o)) j h := by
        refine placed.unused (fun known found => ?_) (fun fh other => ?_) rfl
        · rw [new] at found
          cases found
        · rw [FiniteMap.getElem?_insert, if_neg other]
      have before : Placed s lent i ⟨.entry o, w, l⟩ := holds ▸ c.threads i
      refine placed_update ⟨(kept before).working, (kept before).mutex, nofun⟩ fun j _ => ?_
      exact kept (c.threads j) }

/-- The users of a handle change, for the thread that changes them at most. -/
theorem regrouped {held : Held} {w' : Option (BitVec 64 × Opened)} {change : List Nat → List Nat}
    (c : Consistent s own lent) (holds : own i = ⟨held, w, l⟩)
    (others : ∀ j, j ≠ i → ∀ users, j ∈ users → j ∈ change users)
    (mine : ∀ fh' o, w' = some (fh', o) → lent fh' = .entry o ∧
      ∃ known, (s.handles.modify fh fun h => { h with users := change h.users })[fh']? =
        some known ∧ i ∈ known.users) :
    Consistent
      { s with handles := s.handles.modify fh fun h => { h with users := change h.users } }
      (update own i ⟨held, w', l⟩) lent where
  descriptors := by
    rw [cells_update]
    exact same_cell c.descriptors holds rfl
  objects := by
    rw [cells_update]
    exact same_cell c.objects holds rfl
  entries := by
    rw [cells_update]
    exact same_cell c.entries holds rfl
  range := c.range
  known {fh' h} found := by
    rw [FiniteMap.getElem?_modify] at found
    split at found
    · next same =>
      subst same
      obtain ⟨before, there, rfl⟩ := Option.map_eq_some_iff.mp found
      obtain ⟨o, entry, number, thread⟩ := c.known there
      exact ⟨o, entry, number, thread⟩
    · exact c.known found
  unknown {fh'} missing := by
    rw [FiniteMap.getElem?_modify] at missing
    split at missing
    · next same =>
      subst same
      exact c.unknown (Option.map_eq_none_iff.mp missing)
    · exact c.unknown missing
  threads := by
    have before : Placed s lent i ⟨held, w, l⟩ := holds ▸ c.threads i
    refine placed_update ⟨fun works => mine _ _ works, before.mutex, before.closing⟩
      fun j other => ?_
    refine ⟨fun {fh' o} works => ?_, (c.threads j).mutex, (c.threads j).closing⟩
    obtain ⟨entry, known, found, user⟩ := (c.threads j).working works
    refine ⟨entry, ?_⟩
    rw [FiniteMap.getElem?_modify]
    split
    · next same =>
      subst same
      exact ⟨_, by rw [found]; rfl, others j other _ user⟩
    · exact ⟨known, found, user⟩

theorem descriptorOf_eq (c : Consistent s own lent) (entry : lent fh = .entry o)
    (number : handleOf o.fd = fh) : descriptorOf fh = o.fd := by
  have isOpen : s.descriptors[o.fd]? = some o.description :=
    c.descriptors.part (o := .inr fh) (by rw [cells_inr, entry]; rfl)
  rw [← number, descriptorOf_handleOf (c.range isOpen)]

/-- A thread begins to work on a handle. -/
theorem entered {held : Held} (c : Consistent s own lent) (holds : own i = ⟨held, none, l⟩)
    (isKnown : fh ∈ s.handles) : ∃ o, handleOf o.fd = fh ∧ descriptorOf fh = o.fd ∧
      Consistent
        { s with handles := s.handles.modify fh fun h => { h with users := i :: h.users } }
        (update own i ⟨held, some (fh, o), l⟩) lent := by
  obtain ⟨h, found⟩ := (FiniteMap.mem_iff_exists _ _).mp isKnown
  obtain ⟨o, entry, number, -⟩ := c.known found
  refine ⟨o, number, c.descriptorOf_eq entry number,
    c.regrouped holds (fun j _ users user => List.mem_cons_of_mem i user) ?_⟩
  rintro fh' o' works
  cases works
  exact ⟨entry, _, by rw [FiniteMap.getElem?_modify, if_pos rfl, found]; rfl, by simp⟩

/-- A thread has done its work on a handle. -/
theorem left {held : Held} (c : Consistent s own lent) (holds : own i = ⟨held, w, l⟩) :
    Consistent
      { s with handles := s.handles.modify fh fun h => { h with users := h.users.erase i } }
      (update own i ⟨held, none, l⟩) lent :=
  c.regrouped holds (fun _ other _ user => (List.mem_erase_of_ne other).mpr user) nofun

/-- The kernel forgets a handle that no thread works on, and a thread gets the file. -/
theorem retired {h : Handle} (c : Consistent s own lent) (holds : own i = ⟨.nothing, w, l⟩)
    (found : s.handles[fh]? = some h) (unused : h.users = []) : ∃ o, handleOf o.fd = fh ∧
      Consistent { s with handles := s.handles.erase fh } (update own i ⟨.entry o, w, l⟩)
        (update lent fh .nothing) := by
  obtain ⟨o, entry, same, -⟩ := c.known found
  refine ⟨o, same, ?_⟩
  have moves {κ ν : Type} [DecidableEq κ] {m : κ → Option ν} {f : Held → Option (κ × ν)} {k : κ}
      {v : ν} (d : Divided m (cells f own lent)) (cell : f (.entry o) = some (k, v))
      (none : f .nothing = none) :
      Divided m (cells f (update own i ⟨.entry o, w, l⟩) (update lent fh .nothing)) := by
    rw [cells_update, cells_update_lent, none, cell]
    refine d.move ?_ ?_
    · rw [cells_inr, entry, cell]
    · rw [cells_inl, holds, none]
  have kept {j : Nat} {g : Holding} (placed : Placed s lent j g) :
      Placed { s with handles := s.handles.erase fh } (update lent fh .nothing) j g := by
    refine placed.unused (fun known found' => ?_) (fun fh' other => ?_) rfl
    · rw [found] at found'
      cases found'
      rw [unused]
      exact List.not_mem_nil
    · rw [FiniteMap.getElem?_erase, if_neg other]
  exact {
    descriptors := moves c.descriptors rfl rfl
    objects := moves c.objects rfl rfl
    entries := moves c.entries rfl rfl
    range := c.range
    known := by
      intro fh' h' found'
      rw [FiniteMap.getElem?_erase] at found'
      split at found'
      · cases found'
      · next other =>
        rw [update_of_ne (Ne.symm other)]
        exact c.known found'
    unknown := by
      intro fh' missing
      by_cases equal : fh' = fh
      · rw [equal, update_self]
      · rw [FiniteMap.getElem?_erase, if_neg (Ne.symm equal)] at missing
        rw [update_of_ne equal]
        exact c.unknown missing
    threads := by
      have before : Placed s lent i ⟨.nothing, w, l⟩ := holds ▸ c.threads i
      refine placed_update ⟨(kept before).working, (kept before).mutex, nofun⟩ fun j _ => ?_
      exact kept (c.threads j) }

end Kernel

end Consistent

end Vsfs.Fuse.OpenFiles

import Vsfs.Fuse.Handles

/-!
# Requests on open files, side by side

Each function of the mount is checked on its own, for a thread that holds what the function works
on, and together they keep every run in order.
-/

namespace Vsfs.Fuse.OpenFiles

open Std Program Function

/-- The thread works on the handle of its request, which has the descriptor `fd`. -/
def Works (label : Request) (fd : Int) (h : Holding) : Prop :=
  ∃ fh o, h.working = some (fh, o) ∧ label.fh = some fh ∧ o.fd = fd

/-- What a thread must have to make a call. -/
def Entitled (β : Type) (label : Request) (op : Op β) (h : Holding) : Prop :=
  match op with
  | .close fd => fd < 0 ∨ ∃ description, h.held.descriptorCell = some (fd, description)
  | .dup fd => Works label fd h
  | .pread fd _ _ => Works label fd h
  | .pwrite fd _ _ => Works label fd h
  | .control fd _ => Works label fd h
  | .find _ => h.locked = true
  | .assign _ _ => h.locked = true
  | .erase _ => h.locked = true
  | _ => True

def custody : Custody Op Request Input Holding Mount where
  idle := {}
  inv s own := ∃ lent, Consistent s own lent
  fair := Fair
  entitled := Entitled

instance (β : Type) (i : Nat) (input : Input) (op : Op β) (s : Mount) :
    Decidable (custody.fair β i input op s) := inferInstanceAs (Decidable (Fair β i input op s))

/-- A thread with `h` goes through, and ends with a result and with what meets `post`. -/
abbrev Safe {α : Type} (i : Nat) (label : Request) (p : Thread α) (h : Holding)
    (post : α → Holding → Prop) : Prop :=
  custody.Keeps Mount.serve i label p h post

variable {i : Nat} {label : Request} {h : Holding}

/-! ## Calls -/

section Calls

variable {β : Type} {post : β → Holding → Prop}

theorem safe_call {op : Op β} (may : Entitled β label op h)
    (serves : ∀ s own lent input, own i = h → Consistent s own lent → Fair β i input op s →
      ∃ b s' h' lent', Mount.serve β input op s = .ok (.ok b, s') ∧
        Consistent s' (update own i h') lent' ∧ post b h') :
    Safe i label (call op) h post := by
  refine ⟨may, fun s own input holds ⟨lent, c⟩ fair => ?_⟩
  obtain ⟨b, s', h', lent', served, c', ends⟩ := serves s own lent input holds c fair
  exact ⟨.ok b, s', h', served, ⟨lent', c'⟩, ends⟩

/-- A call that changes nothing. -/
theorem safe_look {op : Op β} (may : Entitled β label op h)
    (serves : ∀ s own lent input, own i = h → Consistent s own lent → Fair β i input op s →
      ∃ b, Mount.serve β input op s = .ok (.ok b, s) ∧ post b h) :
    Safe i label (call op) h post := by
  refine safe_call may fun s own lent input holds c fair => ?_
  obtain ⟨b, served, ends⟩ := serves s own lent input holds c fair
  refine ⟨b, s, h, lent, served, ?_, ends⟩
  rwa [← holds, update_eq_self]

end Calls

section Rules

variable {held : Held} {w : Option (BitVec 64 × Opened)} {l : Bool} {o : Opened}

theorem safe_open {localPath : Str} {flags : BitVec 32} {mode : Option (BitVec 32)} :
    Safe i label (call (.open localPath flags mode)) ⟨.nothing, w, l⟩ fun answer g =>
      (∃ errno, answer = .error errno ∧ errno ≠ 0 ∧ g = ⟨.nothing, w, l⟩) ∨
        ∃ fd d, answer = .ok fd ∧ g = ⟨.descriptor fd d, w, l⟩ ∧ d.thread = i := by
  refine safe_call trivial fun s own lent input holds c fair => ?_
  obtain ⟨thread, code, above, below, new⟩ := fair
  cases failed : input.errno with
  | some errno =>
    refine ⟨.error errno, s, _, lent, by simp only [Mount.serve, Mount.newDescriptor, failed], ?_,
      .inl ⟨errno, rfl, ?_, rfl⟩⟩
    · rwa [← holds, update_eq_self]
    · rintro rfl
      exact code failed
  | none =>
    exact ⟨.ok input.fd, _, _, lent, by simp only [Mount.serve, Mount.newDescriptor, failed],
      c.opened (d := ⟨input.thread, localPath, flags⟩) holds ⟨above, below⟩ new,
      .inr ⟨_, _, rfl, rfl, thread⟩⟩

theorem safe_dup {fh : BitVec 64} {fd : Int} (mine : label.fh = some fh) (same : o.fd = fd) :
    Safe i label (call (.dup fd)) ⟨.nothing, some (fh, o), l⟩ fun answer g =>
      (∃ errno, answer = .error errno ∧ g = ⟨.nothing, some (fh, o), l⟩) ∨
        ∃ fd' d, answer = .ok fd' ∧ g = ⟨.descriptor fd' d, some (fh, o), l⟩ := by
  refine safe_call ⟨fh, o, rfl, mine, same⟩ fun s own lent input holds c fair => ?_
  obtain ⟨-, -, above, below, new⟩ := fair
  have keeps : Consistent s (update own i ⟨.nothing, some (fh, o), l⟩) lent := by
    rwa [← holds, update_eq_self]
  cases found : s.descriptors[fd]? with
  | none =>
    exact ⟨.error EBADF, s, _, lent, by simp only [Mount.serve, found], keeps, .inl ⟨_, rfl, rfl⟩⟩
  | some d =>
    cases failed : input.errno with
    | some errno =>
      exact ⟨.error errno, s, _, lent,
        by simp only [Mount.serve, found, Mount.newDescriptor, failed], keeps, .inl ⟨_, rfl, rfl⟩⟩
    | none =>
      exact ⟨.ok input.fd, _, _, lent,
        by simp only [Mount.serve, found, Mount.newDescriptor, failed],
        c.opened (d := d) holds ⟨above, below⟩ new, .inr ⟨_, _, rfl, rfl⟩⟩

/-- A descriptor of the thread's own is closed. -/
theorem safe_close {held' : Held} {fd : Int} {d : Description}
    (cell : held.descriptorCell = some (fd, d)) (gone : held'.descriptorCell = none)
    (object : held'.objectCell = held.objectCell) (entry : held'.entryCell = held.entryCell)
    (closing : ∀ {fh file handler}, held' = .closing fh file handler → l = true) :
    Safe i label (call (.close fd)) ⟨held, w, l⟩ fun answer g =>
      answer = .ok () ∧ g = ⟨held', w, l⟩ := by
  refine safe_call (.inr ⟨d, cell⟩) fun s own lent input holds c fair => ?_
  have isOpen : s.descriptors[fd]? = some d :=
    c.descriptors.part (o := .inl i) (by rw [cells_inl, holds]; exact cell)
  have inside : fd ∈ s.descriptors := (FiniteMap.mem_iff_exists _ _).mpr ⟨d, isOpen⟩
  refine ⟨.ok (), _, _, lent, ?_, c.closed holds cell gone object entry closing, rfl, rfl⟩
  simp only [Mount.serve, Mount.closeDescriptor, if_pos inside, Input.orErrno, fair.2.2]

theorem safe_close_descriptor {fd : Int} {d : Description} :
    Safe i label (call (.close fd)) ⟨.descriptor fd d, w, l⟩ fun answer g =>
      answer = .ok () ∧ g = ⟨.nothing, w, l⟩ :=
  safe_close rfl rfl rfl rfl nofun

theorem safe_close_entry :
    Safe i label (call (.close o.fd)) ⟨.entry o, w, true⟩ fun answer g =>
      answer = .ok () ∧ g = ⟨.closing (handleOf o.fd) o.file (some ⟨o.fd⟩), w, true⟩ :=
  safe_close rfl rfl rfl rfl fun _ => rfl

/-- The number of no descriptor. -/
theorem safe_close_negative {fd : Int} (negative : fd < 0) :
    Safe i label (call (.close fd)) h fun answer g => answer = .error EBADF ∧ g = h := by
  refine safe_look (.inl negative) fun s own lent input holds c _ => ?_
  have outside : fd ∉ s.descriptors := by
    intro inside
    obtain ⟨d, found⟩ := (FiniteMap.mem_iff_exists _ _).mp inside
    have := c.range found
    omega
  exact ⟨.error EBADF, by simp only [Mount.serve, Mount.closeDescriptor, if_neg outside], rfl, rfl⟩

theorem safe_newFile {fd : Int} {d : Description} :
    Safe i label (call (.newFile fd)) ⟨.descriptor fd d, w, l⟩ fun file g =>
      g = ⟨.unlisted ⟨file, fd, d⟩, w, l⟩ := by
  refine safe_call trivial fun s own lent input holds c fair => ?_
  exact ⟨_, _, _, lent, rfl, c.allocated (o := ⟨input.file, fd, d⟩) holds fair.2.2, rfl⟩

/-- An object of the thread's own. -/
theorem safe_fileHandler {file : Address} {object : File}
    (cell : held.objectCell = some (file, object)) :
    Safe i label (call (.fileHandler file)) ⟨held, w, l⟩ fun handler g =>
      handler = object.fileHandler ∧ g = ⟨held, w, l⟩ := by
  refine safe_look trivial fun s own lent input holds c _ => ?_
  have found : s.objects[file]? = some object :=
    c.objects.part (o := .inl i) (by rw [cells_inl, holds]; exact cell)
  exact ⟨object.fileHandler, by simp only [Mount.serve, found], rfl, rfl⟩

/-- The object behind the handle that the thread works on. -/
theorem safe_fileHandler_working {fh : BitVec 64} :
    Safe i label (call (.fileHandler o.file)) ⟨held, some (fh, o), l⟩ fun handler g =>
      handler = some ⟨o.fd⟩ ∧ g = ⟨held, some (fh, o), l⟩ := by
  refine safe_look trivial fun s own lent input holds c _ => ?_
  obtain ⟨entry, -⟩ := (c.threads i).working (by rw [holds])
  have found : s.objects[o.file]? = some ⟨some ⟨o.fd⟩⟩ :=
    c.objects.part (o := .inr fh) (by rw [cells_inr, entry]; rfl)
  exact ⟨some ⟨o.fd⟩, by simp only [Mount.serve, found], rfl, rfl⟩

theorem safe_setHandler {fh : BitVec 64} {file : Address}
    {handler handler' : Option PosixFileHandler} :
    Safe i label (call (.setHandler file handler')) ⟨.closing fh file handler, w, true⟩ fun _ g =>
      g = ⟨.closing fh file handler', w, true⟩ := by
  refine safe_call trivial fun s own lent input holds c _ => ?_
  have found : s.objects[file]? = some ⟨handler⟩ :=
    c.objects.part (o := .inl i) (by rw [cells_inl, holds]; rfl)
  exact ⟨(), _, _, lent, by simp only [Mount.serve, found],
    c.stored (.closing fh file handler') holds rfl rfl rfl rfl fun _ => rfl, rfl⟩

theorem safe_free {file : Address} {handler : Option PosixFileHandler} :
    Safe i label (call (.free file)) ⟨.removed file handler, w, l⟩ fun _ g =>
      g = ⟨.nothing, w, l⟩ := by
  refine safe_call trivial fun s own lent input holds c _ => ?_
  have found : s.objects[file]? = some ⟨handler⟩ :=
    c.objects.part (o := .inl i) (by rw [cells_inl, holds]; rfl)
  exact ⟨(), _, _, lent, by simp only [Mount.serve, found], c.freed holds, rfl⟩

theorem safe_lock :
    Safe i label (call .lock) ⟨held, w, false⟩ fun _ g => g = ⟨held, w, true⟩ := by
  refine safe_call trivial fun s own lent input holds c fair => ?_
  obtain ⟨rfl, -, free⟩ := fair
  exact ⟨_, _, _, lent, rfl, c.lock holds free, rfl⟩

theorem safe_unlock (done : ∀ {fh file handler}, held ≠ .closing fh file handler) :
    Safe i label (call .unlock) ⟨held, w, true⟩ fun _ g => g = ⟨held, w, false⟩ := by
  refine safe_call trivial fun s own lent input holds c fair => ?_
  obtain ⟨rfl, -⟩ := fair
  obtain ⟨mine, c'⟩ := c.unlock holds done
  exact ⟨(), _, _, lent, by simp only [Mount.serve, if_pos mine], c', rfl⟩

/-- The entry of the thread's own file. -/
theorem safe_find :
    Safe i label (call (.find (handleOf o.fd))) ⟨.entry o, w, true⟩ fun found g =>
      found = some o.file ∧ g = ⟨.entry o, w, true⟩ := by
  refine safe_look rfl fun s own lent input holds c _ => ?_
  have found : s.fhToObjMap[handleOf o.fd]? = some o.file :=
    c.entries.part (o := .inl i) (by rw [cells_inl, holds]; rfl)
  exact ⟨some o.file, by simp only [Mount.serve, found], rfl, rfl⟩

/-- The entry behind the handle that the thread works on. -/
theorem safe_find_working {fh : BitVec 64} (number : handleOf o.fd = fh) :
    Safe i label (call (.find fh)) ⟨held, some (fh, o), true⟩ fun found g =>
      found = some o.file ∧ g = ⟨held, some (fh, o), true⟩ := by
  refine safe_look rfl fun s own lent input holds c _ => ?_
  obtain ⟨entry, -⟩ := (c.threads i).working (by rw [holds])
  have found : s.fhToObjMap[fh]? = some o.file :=
    c.entries.part (o := .inr fh) (by rw [cells_inr, entry, ← number]; rfl)
  exact ⟨some o.file, by simp only [Mount.serve, found], rfl, rfl⟩

theorem safe_assign :
    Safe i label (call (.assign (handleOf o.fd) o.file)) ⟨.unlisted o, w, true⟩ fun old g =>
      old = none ∧ g = ⟨.entry o, w, true⟩ := by
  refine safe_call rfl fun s own lent input holds c _ => ?_
  exact ⟨none, _, _, lent, by simp only [Mount.serve, c.entry_free holds], c.assigned holds,
    rfl, rfl⟩

theorem safe_erase {fh : BitVec 64} {file : Address} {handler : Option PosixFileHandler} :
    Safe i label (call (.erase fh)) ⟨.closing fh file handler, w, true⟩ fun old g =>
      old = some file ∧ g = ⟨.removed file handler, w, true⟩ := by
  refine safe_call rfl fun s own lent input holds c _ => ?_
  have found : s.fhToObjMap[fh]? = some file :=
    c.entries.part (o := .inl i) (by rw [cells_inl, holds]; rfl)
  exact ⟨some file, _, _, lent, by simp only [Mount.serve, found], c.erased holds, rfl, rfl⟩

theorem safe_hand (mine : o.description.thread = i) :
    Safe i label (call (.hand (handleOf o.fd))) ⟨.entry o, w, l⟩ fun _ g =>
      g = ⟨.nothing, w, l⟩ := by
  refine safe_call trivial fun s own lent input holds c fair => ?_
  obtain ⟨rfl, -⟩ := fair
  exact ⟨_, _, _, _, rfl, c.handed holds mine, rfl⟩

theorem safe_enter {fh : BitVec 64} :
    Safe i label (call (.enter fh)) ⟨held, none, l⟩ fun _ g =>
      ∃ o, handleOf o.fd = fh ∧ descriptorOf fh = o.fd ∧ g = ⟨held, some (fh, o), l⟩ := by
  refine safe_call trivial fun s own lent input holds c fair => ?_
  obtain ⟨rfl, -, isKnown⟩ := fair
  obtain ⟨o, number, descriptor, c'⟩ := c.entered holds isKnown
  exact ⟨_, _, _, _, rfl, c', o, number, descriptor, rfl⟩

theorem safe_leave {fh : BitVec 64} :
    Safe i label (call (.leave fh)) ⟨held, w, l⟩ fun _ g => g = ⟨held, none, l⟩ := by
  refine safe_call trivial fun s own lent input holds c fair => ?_
  obtain ⟨rfl, -⟩ := fair
  exact ⟨_, _, _, _, rfl, c.left holds, rfl⟩

theorem safe_retire {fh : BitVec 64} :
    Safe i label (call (.retire fh)) ⟨.nothing, w, l⟩ fun _ g =>
      ∃ o, handleOf o.fd = fh ∧ g = ⟨.entry o, w, l⟩ := by
  refine safe_call trivial fun s own lent input holds c fair => ?_
  obtain ⟨known, found, unused⟩ := Option.map_eq_some_iff.mp fair.2.2
  obtain ⟨o, number, c'⟩ := c.retired holds found unused
  exact ⟨_, _, _, _, rfl, c', o, number, rfl⟩

end Rules

/-! ## Files -/

section Files

variable {w : Option (BitVec 64 × Opened)} {l : Bool} {o : Opened}

/-- An object that has lost its handler stays as it is. -/
theorem safe_resetHandler_none {held : Held} {file : Address}
    (object : held.objectCell = some (file, ⟨none⟩)) :
    Safe i label (File.resetHandler file) ⟨held, w, l⟩ fun _ g => g = ⟨held, w, l⟩ := by
  refine (safe_fileHandler object).bind ?_
  rintro _ g ⟨rfl, rfl⟩
  exact rfl

/-- The handler has closed its descriptor before. -/
theorem safe_resetHandler {fh : BitVec 64} {file : Address} :
    Safe i label (File.resetHandler file) ⟨.closing fh file (some ⟨-1⟩), w, true⟩ fun _ g =>
      g = ⟨.closing fh file none, w, true⟩ := by
  refine (safe_fileHandler rfl).bind ?_
  rintro _ g ⟨rfl, rfl⟩
  exact safe_setHandler

/-- The file of an entry is closed. -/
theorem safe_File_close :
    Safe i label (File.close o.file) ⟨.entry o, w, true⟩ fun status g =>
      status = .OK ∧ g = ⟨.closing (handleOf o.fd) o.file none, w, true⟩ := by
  refine (safe_fileHandler rfl).bind ?_
  rintro _ g ⟨rfl, rfl⟩
  have close : Safe i label (PosixFileHandler.close ⟨o.fd⟩ o.file) ⟨.entry o, w, true⟩
      fun status g => status = .OK ∧
        g = ⟨.closing (handleOf o.fd) o.file (some ⟨-1⟩), w, true⟩ := by
    refine safe_close_entry.bind ?_
    rintro _ g ⟨rfl, rfl⟩
    refine safe_setHandler.bind ?_
    rintro _ g rfl
    exact ⟨rfl, rfl⟩
  refine close.bind ?_
  rintro _ g ⟨rfl, rfl⟩
  refine safe_resetHandler.bind ?_
  rintro _ g rfl
  exact ⟨rfl, rfl⟩

/-- An object that has lost its handler is destroyed, with nothing left to close. -/
theorem safe_destroy {file : Address} :
    Safe i label (File.destroy file) ⟨.removed file none, w, l⟩ fun _ g =>
      g = ⟨.nothing, w, l⟩ := by
  have close : Safe i label (File.close file) ⟨.removed file none, w, l⟩ fun _ g =>
      g = ⟨.removed file none, w, l⟩ := by
    refine (safe_fileHandler rfl).bind ?_
    rintro _ g ⟨rfl, rfl⟩
    exact rfl
  refine close.bind ?_
  rintro _ g rfl
  refine (safe_resetHandler_none rfl).bind ?_
  rintro _ g rfl
  exact safe_free

theorem safe_fd :
    Safe i label (File.fd o.file) ⟨.unlisted o, w, l⟩ fun fd g =>
      fd = o.fd ∧ g = ⟨.unlisted o, w, l⟩ := by
  refine (safe_fileHandler rfl).bind ?_
  rintro _ g ⟨rfl, rfl⟩
  exact ⟨rfl, rfl⟩

/-- A write through the object behind the handle that the thread works on. -/
theorem safe_write {fh : BitVec 64} {buf : List Byte} {offset : Int} (mine : label.fh = some fh) :
    Safe i label (File.write o.file buf offset) ⟨.nothing, some (fh, o), l⟩ fun _ g =>
      g = ⟨.nothing, some (fh, o), l⟩ := by
  refine safe_fileHandler_working.bind ?_
  rintro _ g ⟨rfl, rfl⟩
  exact safe_look ⟨fh, o, rfl, mine, rfl⟩ fun s own lent input holds c _ => ⟨_, rfl, rfl⟩

theorem safe_openFile [FsPath] {sm : StorageManager} {path : Str} {objId : ObjectId}
    {flags : BitVec 32} {mode : Option (BitVec 32)} :
    Safe i label (openFile sm path objId flags mode) ⟨.nothing, w, l⟩ fun answer g =>
      (∃ status, answer = .error status ∧ status.error ≠ 0 ∧ g = ⟨.nothing, w, l⟩) ∨
        ∃ o, answer = .ok o.file ∧ g = ⟨.unlisted o, w, l⟩ ∧ o.description.thread = i := by
  refine safe_open.bind ?_
  rintro _ g (⟨errno, rfl, code, rfl⟩ | ⟨fd, d, rfl, rfl, mine⟩)
  · exact .inl ⟨_, rfl, Int.neg_ne_zero.mpr code, rfl⟩
  · refine safe_newFile.bind ?_
    rintro file g rfl
    exact .inr ⟨⟨file, fd, d⟩, rfl, rfl, mine⟩

/-! ## The table of open files -/

theorem safe_addFile :
    Safe i label (addFile (handleOf o.fd) o.file) ⟨.unlisted o, w, false⟩ fun _ g =>
      g = ⟨.entry o, w, false⟩ := by
  refine safe_lock.bind ?_
  rintro _ g rfl
  refine safe_assign.bind ?_
  rintro _ g ⟨rfl, rfl⟩
  refine safe_unlock ?_
  exact nofun

theorem safe_closeFile :
    Safe i label (closeFile (handleOf o.fd)) ⟨.entry o, w, false⟩ fun _ g =>
      g = ⟨.nothing, w, false⟩ := by
  refine safe_lock.bind ?_
  rintro _ g rfl
  refine safe_find.bind ?_
  rintro _ g ⟨rfl, rfl⟩
  refine safe_File_close.bind ?_
  rintro _ g ⟨rfl, rfl⟩
  refine safe_erase.bind ?_
  rintro _ g ⟨rfl, rfl⟩
  refine safe_destroy.bind ?_
  rintro _ g rfl
  refine (safe_unlock ?_).bind ?_
  · exact nofun
  rintro _ g rfl
  exact rfl

theorem safe_getFile {held : Held} {fh : BitVec 64} (number : handleOf o.fd = fh)
    (idle : ∀ {fh file handler}, held ≠ .closing fh file handler) :
    Safe i label (getFile fh) ⟨held, some (fh, o), false⟩ fun found g =>
      found = some o.file ∧ g = ⟨held, some (fh, o), false⟩ := by
  refine safe_lock.bind ?_
  rintro _ g rfl
  refine (safe_find_working number).bind ?_
  rintro _ g ⟨rfl, rfl⟩
  refine (safe_unlock idle).bind ?_
  rintro _ g rfl
  exact ⟨rfl, rfl⟩

end Files

/-! ## Operations -/

section Operations

variable {o : Opened} {fh : BitVec 64}

/-- A file has been opened and entered, or the request has failed. -/
def Answered (i : Nat) (result : Int × FuseFileInfo) (h : Holding) : Prop :=
  (result.1 ≠ 0 ∧ h = {}) ∨
    ∃ o, result.1 = 0 ∧ result.2.fh = handleOf o.fd ∧ h = { held := .entry o } ∧
      o.description.thread = i

/-- Opening for a status and an object id of the master. -/
theorem safe_opening [FsPath] {sm : StorageManager} {path : Str} {flags : BitVec 32}
    {mode : Option (BitVec 32)} {fi : FuseFileInfo} {ask : Op (Status × ObjectId)}
    {enter : Address → Thread (Int × FuseFileInfo)}
    (asked : Safe i label (call ask) {} fun _ g => g = {})
    (entered : ∀ o : Opened, o.description.thread = i →
      Safe i label (enter o.file) { held := .unlisted o } (Answered i)) :
    Safe i label (do
      let (status, oid) ← call ask
      if !status.ok then return (status.error, fi)
      match ← openFile sm path oid flags mode with
      | .error status => return (status.error, fi)
      | .ok file => enter file) {} (Answered i) := by
  refine asked.bind ?_
  rintro ⟨status, oid⟩ g rfl
  cases ok : status.ok with
  | false =>
    have failed : status.error ≠ 0 := by simpa [Status.ok] using ok
    simp only [ok]
    exact Or.inl ⟨failed, rfl⟩
  | true =>
    simp only [ok]
    refine safe_openFile.bind ?_
    rintro _ g (⟨status, rfl, code, rfl⟩ | ⟨o, rfl, rfl, mine⟩)
    · exact Or.inl ⟨code, rfl⟩
    · exact entered o mine

/-- The new file gets the handle of its descriptor. -/
theorem safe_entering {fi : FuseFileInfo} (mine : o.description.thread = i) :
    Safe i label (do
      let fd ← File.fd o.file
      addFile (handleOf fd) o.file
      return (0, { fi with fh := handleOf fd })) { held := .unlisted o } (Answered i) := by
  refine safe_fd.bind ?_
  rintro _ g ⟨rfl, rfl⟩
  refine safe_addFile.bind ?_
  rintro _ g rfl
  exact Or.inr ⟨o, rfl, rfl, rfl, mine⟩

theorem safe_vsfsOpen [FsPath] {sm : StorageManager} {path : Str} {fi : FuseFileInfo} :
    Safe i label (vsfsOpen sm path fi) {} (Answered i) := by
  exact safe_opening (safe_look trivial fun s own lent input _ _ _ => ⟨_, rfl, rfl⟩)
    fun o mine => safe_entering mine

theorem safe_vsfsCreate [FsPath] {sm : StorageManager} {path : Str} {mode : BitVec 32}
    {fi : FuseFileInfo} : Safe i label (vsfsCreate sm path mode fi) {} (Answered i) := by
  exact safe_opening (safe_look trivial fun s own lent input _ _ _ => ⟨_, rfl, rfl⟩)
    fun o mine => safe_entering mine

/-- The kernel gets the handle, or nothing is left behind. -/
theorem safe_handing {opening : Thread (Int × FuseFileInfo)}
    (opens : Safe i label opening {} (Answered i)) :
    Safe i label (handing opening) {} fun _ g => g = {} := by
  refine opens.bind ?_
  rintro ⟨code, fi⟩ g (⟨failed, rfl⟩ | ⟨o, done, number, rfl, mine⟩)
  · simp only [if_neg failed]
    exact rfl
  · have number : fi.fh = handleOf o.fd := number
    simp only [if_pos done, number]
    refine (safe_hand mine).bind ?_
    rintro _ g rfl
    exact rfl

/-- A request that works on a handle has it back in the end. -/
theorem safe_workingOn {work : Thread Int}
    (works : ∀ o, handleOf o.fd = fh → descriptorOf fh = o.fd →
      Safe i label work { working := some (fh, o) } fun _ g => g = { working := some (fh, o) }) :
    Safe i label (workingOn fh work) {} fun _ g => g = {} := by
  refine safe_enter.bind ?_
  rintro _ g ⟨o, number, descriptor, rfl⟩
  refine (works o number descriptor).bind ?_
  rintro _ g rfl
  refine safe_leave.bind ?_
  rintro _ g rfl
  exact rfl

section Working

variable (fi : FuseFileInfo) (mine : label.fh = some fi.fh) (number : handleOf o.fd = fi.fh)
  (descriptor : descriptorOf fi.fh = o.fd)

include mine number descriptor in
theorem safe_vsfsRead {size : Nat} {offset : Int} :
    Safe i label (vsfsRead size offset fi) { working := some (fi.fh, o) } fun _ g =>
      g = { working := some (fi.fh, o) } := by
  refine Custody.Keeps.bind (safe_getFile number ?_) ?_
  · exact nofun
  rintro _ g ⟨rfl, rfl⟩
  have read : Safe i label (call (.pread (descriptorOf fi.fh) size offset))
      { working := some (fi.fh, o) } fun _ g => g = { working := some (fi.fh, o) } :=
    safe_look ⟨_, o, rfl, mine, descriptor.symm⟩ fun s own lent input _ _ _ => ⟨_, rfl, rfl⟩
  refine read.bind ?_
  rintro answer g rfl
  cases answer with
  | error errno => exact rfl
  | ok buf => exact rfl

include mine number in
theorem safe_vsfsWrite {buf : List Byte} {offset : Int} :
    Safe i label (vsfsWrite buf offset fi) { working := some (fi.fh, o) } fun _ g =>
      g = { working := some (fi.fh, o) } := by
  refine Custody.Keeps.bind (safe_getFile number ?_) ?_
  · exact nofun
  rintro _ g ⟨rfl, rfl⟩
  refine (safe_write mine).bind ?_
  rintro answer g rfl
  cases answer with
  | error errno => exact rfl
  | ok nwrite => exact rfl

include mine in
theorem safe_writeBufs {off total : Int} {bufs : List FuseBuf} :
    Safe i label (writeBufs o.file off total bufs) { working := some (fi.fh, o) } fun _ g =>
      g = { working := some (fi.fh, o) } := by
  induction bufs generalizing total with
  | nil => exact rfl
  | cons buf bufs ih =>
    refine (safe_write mine).bind ?_
    rintro answer g rfl
    cases answer with
    | error errno => exact rfl
    | ok nwrite => exact ih

include mine number in
theorem safe_vsfsWriteBuf {bufv : FuseBufvec} {off : Int} :
    Safe i label (vsfsWriteBuf bufv off fi) { working := some (fi.fh, o) } fun _ g =>
      g = { working := some (fi.fh, o) } := by
  refine Custody.Keeps.bind (safe_getFile number ?_) ?_
  · exact nofun
  rintro _ g ⟨rfl, rfl⟩
  exact safe_writeBufs fi mine

include mine descriptor in
theorem safe_vsfsFlush :
    Safe i label (vsfsFlush fi) { working := some (fi.fh, o) } fun _ g =>
      g = { working := some (fi.fh, o) } := by
  refine (safe_dup mine descriptor.symm).bind ?_
  rintro _ g (⟨errno, rfl, rfl⟩ | ⟨fd, d, rfl, rfl⟩)
  · refine (safe_close_negative (show (-1 : Int) < 0 by decide)).bind ?_
    rintro _ g ⟨rfl, rfl⟩
    exact rfl
  · refine safe_close_descriptor.bind ?_
    rintro _ g ⟨rfl, rfl⟩
    exact rfl

include mine descriptor in
theorem safe_controlFile {what : Control} :
    Safe i label (controlFile what fi) { working := some (fi.fh, o) } fun _ g =>
      g = { working := some (fi.fh, o) } := by
  have asked : Safe i label (call (.control (descriptorOf fi.fh) what))
      { working := some (fi.fh, o) } fun _ g => g = { working := some (fi.fh, o) } :=
    safe_look ⟨_, o, rfl, mine, descriptor.symm⟩ fun s own lent input _ _ _ => ⟨_, rfl, rfl⟩
  refine asked.bind ?_
  rintro answer g rfl
  cases answer with
  | error errno => exact rfl
  | ok _ => exact rfl

end Working

theorem safe_vsfsRelease (fi : FuseFileInfo) (number : handleOf o.fd = fi.fh) :
    Safe i label (vsfsRelease fi) { held := .entry o } fun _ g => g = {} := by
  have closes : Safe i label (closeFile fi.fh) { held := .entry o } fun _ g => g = {} :=
    number ▸ safe_closeFile
  refine closes.bind ?_
  rintro _ g rfl
  exact rfl

/-- Every request starts with nothing, and leaves nothing behind. -/
theorem safe_handle [FsPath] (sm : StorageManager) (i : Nat) (label : Request) :
    Safe i label (handle sm label) {} fun _ g => g = {} := by
  cases label with
  | create path mode flags => exact safe_handing safe_vsfsCreate
  | «open» path flags => exact safe_handing safe_vsfsOpen
  | read fh size offset =>
    refine safe_workingOn fun o number descriptor => ?_
    refine (safe_vsfsRead { flags := 0, fh } rfl number descriptor).bind ?_
    rintro _ g rfl
    exact rfl
  | write fh buf offset =>
    exact safe_workingOn fun o number _ => safe_vsfsWrite { flags := 0, fh } rfl number
  | writeBuf fh bufv off =>
    exact safe_workingOn fun o number _ => safe_vsfsWriteBuf { flags := 0, fh } rfl number
  | flush fh =>
    exact safe_workingOn fun o _ descriptor => safe_vsfsFlush { flags := 0, fh } rfl descriptor
  | control fh what =>
    exact safe_workingOn fun o _ descriptor => safe_controlFile { flags := 0, fh } rfl descriptor
  | release fh =>
    refine safe_retire.bind ?_
    rintro _ g ⟨o, number, rfl⟩
    exact safe_vsfsRelease { flags := 0, fh } number

end Operations

end Vsfs.Fuse.OpenFiles

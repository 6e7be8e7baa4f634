import Vsfs.Common.LexicalCast
import Vsfs.Common.StorageManager
import Vsfs.Lib.FileTree

/-!
# What the storage managers do to the local file system

Every operation of a storage manager is at most one system call on a local path. The objects of
an `ObjectStorageManager` are files in a few directories of the local file system; seen from
outside they are a store without directories that knows its objects by their ids. A
`PosixStorageManager` shows the tree below its base directory.

## Main results

* `objects_answer_alike` : the object storage answers every run of requests as that store does.
* `opened_apart` : in a run, no two objects have the same file behind their open files.
* `paths_answer_alike` : the POSIX storage answers as the tree below the base directory does.
-/

namespace Vsfs

open FileTree Simulation

/-- The flags of `open` that the local file system looks at. -/
def flagsOf (flags : BitVec 32) : Flags where
  creat := flags &&& 0o100 ≠ 0
  excl := flags &&& 0o200 ≠ 0
  trunc := flags &&& 0o1000 ≠ 0
  write := flags &&& 3 ≠ 0

/-- An `errno`, where a system call fails for reasons of its own. -/
abbrev ErrorNumber := { e : Int // 0 < e }

/-- The answer of a storage manager, with what comes back beside the status. -/
abbrev StorageAnswer := Status × Reply (BitVec 8)

/-- One system call, and `Status::system_error(errno)` where it fails. -/
def system {ν : Type} [Ord ν] [Std.TransOrd ν] [DecidableEq ν] [InDirectory ν]
    (fault : Option ErrorNumber) (c : Call ν (BitVec 8)) (t : Tree ν (BitVec 8)) :
    Except Follows (StorageAnswer × Tree ν (BitVec 8)) :=
  match fault with
  | some errno => .ok ((.systemError errno, .done), t)
  | none =>
    match exec t c with
    | .ok (.ok reply, t') => .ok ((.OK, reply), t')
    | .ok (.error errno, t') => .ok ((.systemError errno, .done), t')
    | .error follows => .error follows

/-- `readlink(2)` copies at most `size` bytes and no final zero. -/
def cut (size : Nat) : StorageAnswer → StorageAnswer
  | (status, .text target) => (status, .text (target.take size))
  | answer => answer

/-- A system call of a storage manager fails and changes nothing, or goes as the call does. -/
theorem system_cases {ν : Type} [Ord ν] [Std.TransOrd ν] [DecidableEq ν] [InDirectory ν]
    {t t' : Tree ν (BitVec 8)} {fault : Option ErrorNumber} {c : Call ν (BitVec 8)}
    {a : StorageAnswer} (h : system fault c t = .ok (a, t')) :
    (a.1.ok = false ∧ t' = t) ∨ ∃ reply, a = (.OK, reply) ∧ exec t c = .ok (.ok reply, t') := by
  have failed {e : Int} (positive : 0 < e) : (Status.systemError e).ok = false := by
    have other : -e ≠ 0 := by omega
    simpa [Status.systemError, Status.ok] using other
  unfold system at h
  split at h
  · next errno =>
    cases h
    exact .inl ⟨failed errno.2, rfl⟩
  · split at h
    · next reply t₁ done =>
      cases h
      exact .inr ⟨reply, rfl, done⟩
    · next errno t₁ done =>
      cases h
      obtain ⟨positive, same⟩ := exec_error done
      exact .inl ⟨failed positive, same⟩
    · cases h

theorem system_ok {ν : Type} [Ord ν] [Std.TransOrd ν] [DecidableEq ν] [InDirectory ν]
    {t : Tree ν (BitVec 8)} {c : Call ν (BitVec 8)} (ok : ∃ r, exec t c = .ok r)
    (fault : Option ErrorNumber) : ∃ r, system fault c t = .ok r := by
  obtain ⟨⟨outcome, t'⟩, done⟩ := ok
  cases fault with
  | some errno => exact ⟨_, rfl⟩
  | none => cases outcome <;> exact ⟨_, by rw [system, done]⟩

/-- The operations of the interface, and those on an open file. -/
inductive StorageRequest where
  | open_ (path : Str) (objId : ObjectId) (flags : BitVec 32)
  | openMode (path : Str) (objId : ObjectId) (flags : BitVec 32) (mode : BitVec 32)
  | unlink (path : Str) (objId : ObjectId)
  | mkdir (path : Str) (mode : BitVec 32)
  | rmdir (path : Str)
  | readlink (path : Str) (objId : ObjectId) (size : Nat)
  | getattr (path : Str) (objId : ObjectId)
  | symlink (fpath : Str) (linkPath : Str) (linkObjId : ObjectId)
  | read (ino : Nat) (size offset : Nat)
  | write (ino : Nat) (data : List (BitVec 8)) (offset : Nat)

/-- The path of a request, but for one on an open file. -/
def StorageRequest.path : StorageRequest → Option Str
  | .open_ path _ _ | .openMode path _ _ _ | .unlink path _ | .mkdir path _ | .rmdir path
  | .readlink path _ _ | .getattr path _ | .symlink _ path _ => some path
  | .read .. | .write .. => none

/-- What a request opens. -/
def StorageRequest.opens : StorageRequest → Option (Str × ObjectId)
  | .open_ path objId _ | .openMode path objId _ _ => some (path, objId)
  | _ => none

/-- The request makes no object and removes none; the object storage makes no directories. -/
def StorageRequest.Looks : StorageRequest → Prop
  | .open_ _ _ flags => (flagsOf flags).creat = false
  | .openMode _ _ _ _ => False
  | .unlink _ _ => False
  | .symlink _ _ _ => False
  | _ => True

instance : DecidablePred StorageRequest.Looks
  | .open_ _ _ flags => inferInstanceAs (Decidable ((flagsOf flags).creat = false))
  | .openMode _ _ _ _ => .isFalse id
  | .unlink _ _ => .isFalse id
  | .symlink _ _ _ => .isFalse id
  | .mkdir _ _ => .isTrue trivial
  | .rmdir _ => .isTrue trivial
  | .readlink _ _ _ => .isTrue trivial
  | .getattr _ _ => .isTrue trivial
  | .read _ _ _ => .isTrue trivial
  | .write _ _ _ => .isTrue trivial

/-- What the local file system does, with a failure of its own or without. -/
abbrev Local := Option ErrorNumber → Tree Path (BitVec 8) →
  Except Follows (StorageAnswer × Tree Path (BitVec 8))

/-! ## Making the directories -/

/-- Each of the directories, unless it is there. -/
def makeAll : List Path → Tree Path (BitVec 8) → Outcome Path (BitVec 8) Unit
  | [], t => .ok (.ok (), t)
  | p :: ps, t =>
    match t.entries[p]? with
    | some .dir => makeAll ps t
    | none => makeAll ps (t.put p .dir)
    | some (.file _) => t.fails (if ps = [] then EEXIST else ENOTDIR)
    | some (.link _) => .error .link

/-- `boost::filesystem::create_directories`; with a fault it fails after some of them. -/
def createDirectories (p : Path) (fault : Option (Nat × ErrorNumber)) (t : Tree Path (BitVec 8)) :
    Outcome Path (BitVec 8) Unit :=
  match fault with
  | none => makeAll p.inits t
  | some (made, errno) =>
    match makeAll (p.inits.take made) t with
    | .ok (.ok (), t') => t'.fails errno
    | outcome => outcome

namespace StorageManager

variable [FsPath] (cwd : Path)

/-- The loop of `init`. -/
def initDirs (basePath : Str) (faults : Nat → Option (Nat × ErrorNumber)) :
    List Nat → Tree Path (BitVec 8) → Except Follows (Status × Tree Path (BitVec 8))
  | [], t => .ok (.OK, t)
  | i :: is, t =>
    match createDirectories (resolve cwd (subdir basePath i)) (faults i) t with
    | .ok (.ok (), t') => initDirs basePath faults is t'
    | .ok (.error ec, t') =>
      if 0 < ec then .ok (⟨ec, strerror ec⟩, t') else initDirs basePath faults is t'
    | .error follows => .error follows

def init (faults : Nat → Option (Nat × ErrorNumber)) (t : Tree Path (BitVec 8)) :
    StorageManager → Except Follows (Status × Tree Path (BitVec 8))
  | .posix _ => .ok (.OK, t)
  | .object basePath numSubdirs _ =>
    initDirs cwd basePath faults (List.range numSubdirs.toInt.toNat) t

/-! ## Operations -/

variable (sm : StorageManager)

/-- A system call on a local path. -/
def onPath (c : Call Str (BitVec 8)) : Local := fun fault => system fault (c.map (resolve cwd))

def open_ (path : Str) (objId : ObjectId) (flags : BitVec 32) : Local :=
  onPath cwd (.open_ (sm.translatePath path objId) (flagsOf flags))

/-- The mode is of no concern to the tree. -/
def openMode (path : Str) (objId : ObjectId) (flags : BitVec 32) (_mode : BitVec 32) : Local :=
  onPath cwd (.open_ (sm.translatePath path objId) (flagsOf flags))

def unlink (path : Str) (objId : ObjectId) : Local :=
  onPath cwd (.unlink (sm.translatePath path objId))

/-- The object storage has no directories of its own. -/
def mkdir (path : Str) (_mode : BitVec 32) : Local :=
  match sm with
  | .posix _ => onPath cwd (.mkdir (sm.translatePath path 0))
  | .object .. => fun _ t => .ok ((.OK, .done), t)

def rmdir (path : Str) : Local :=
  match sm with
  | .posix _ => onPath cwd (.rmdir (sm.translatePath path 0))
  | .object .. => fun _ t => .ok ((.OK, .done), t)

def readlink (path : Str) (objId : ObjectId) (size : Nat) : Local := fun fault t =>
  (onPath cwd (.readlink (sm.translatePath path objId)) fault t).map fun (answer, t') =>
    (cut size answer, t')

def getattr (path : Str) (objId : ObjectId) : Local :=
  onPath cwd (.stat (sm.translatePath path objId))

def symlink (fpath linkPath : Str) (linkObjId : ObjectId) : Local :=
  onPath cwd (.symlink fpath (sm.translatePath linkPath linkObjId))

/-- One request, with the failure of the local file system that comes with it. -/
def perform (t : Tree Path (BitVec 8)) :
    StorageRequest × Option ErrorNumber → Except Follows (StorageAnswer × Tree Path (BitVec 8))
  | (.open_ path objId flags, fault) => sm.open_ cwd path objId flags fault t
  | (.openMode path objId flags mode, fault) => sm.openMode cwd path objId flags mode fault t
  | (.unlink path objId, fault) => sm.unlink cwd path objId fault t
  | (.mkdir path mode, fault) => sm.mkdir cwd path mode fault t
  | (.rmdir path, fault) => sm.rmdir cwd path fault t
  | (.readlink path objId size, fault) => sm.readlink cwd path objId size fault t
  | (.getattr path objId, fault) => sm.getattr cwd path objId fault t
  | (.symlink fpath linkPath linkObjId, fault) =>
    sm.symlink cwd fpath linkPath linkObjId fault t
  | (.read ino size offset, fault) => system fault (.pread ino size offset) t
  | (.write ino data offset, fault) => system fault (.pwrite ino data offset) t

end StorageManager

/-! ## What they stand for -/

/-- Requests on a tree in which everything has a name. Without `dirs`, no directory is made
or removed. -/
def performNamed {ν : Type} [Ord ν] [Std.TransOrd ν] [DecidableEq ν] [InDirectory ν]
    (name : Str → ObjectId → ν) (dirs : Bool) (t : Tree ν (BitVec 8)) :
    StorageRequest × Option ErrorNumber → Except Follows (StorageAnswer × Tree ν (BitVec 8))
  | (.open_ path objId flags, fault) => system fault (.open_ (name path objId) (flagsOf flags)) t
  | (.openMode path objId flags _, fault) =>
    system fault (.open_ (name path objId) (flagsOf flags)) t
  | (.unlink path objId, fault) => system fault (.unlink (name path objId)) t
  | (.mkdir path _, fault) =>
    if dirs then system fault (.mkdir (name path 0)) t else .ok ((.OK, .done), t)
  | (.rmdir path, fault) =>
    if dirs then system fault (.rmdir (name path 0)) t else .ok ((.OK, .done), t)
  | (.readlink path objId size, fault) =>
    (system fault (.readlink (name path objId)) t).map fun (answer, t') => (cut size answer, t')
  | (.getattr path objId, fault) => system fault (.stat (name path objId)) t
  | (.symlink fpath linkPath linkObjId, fault) =>
    system fault (.symlink fpath (name linkPath linkObjId)) t
  | (.read ino size offset, fault) => system fault (.pread ino size offset) t
  | (.write ino data offset, fault) => system fault (.pwrite ino data offset) t

/-- Objects are not in directories. -/
instance : InDirectory ObjectId where
  parent _ := none

/-- A store that knows its objects by their ids alone. -/
abbrev ObjectStore := Tree ObjectId (BitVec 8)

def ObjectStore.perform (t : ObjectStore) :
    StorageRequest × Option ErrorNumber → Except Follows (StorageAnswer × ObjectStore) :=
  performNamed (fun _ objId => objId) false t

/-- A tree that knows its files by their paths alone. -/
abbrev PathStore := Tree Path (BitVec 8)

def PathStore.perform (t : PathStore) :
    StorageRequest × Option ErrorNumber → Except Follows (StorageAnswer × PathStore) :=
  performNamed (fun path _ => resolve [] path) true t

section Agreement

variable {ν μ : Type} [Ord ν] [Std.TransOrd ν] [Std.LawfulEqOrd ν] [DecidableEq ν]
  [InDirectory ν] [Ord μ] [Std.TransOrd μ] [Std.LawfulEqOrd μ] [DecidableEq μ] [InDirectory μ]
  {f : μ → ν} {t : Tree ν (BitVec 8)} {u : Tree μ (BitVec 8)}

theorem system_agrees (embeds : Embeds f) (mirrors : Mirrors f t u) (fault : Option ErrorNumber)
    (c : Call μ (BitVec 8)) :
    Agrees (Mirrors f) (system fault (c.map f) t) (system fault c u) := by
  cases fault with
  | some errno => exact .answered mirrors
  | none =>
    have same := mirrors.exec embeds c
    unfold system
    generalize exec t (c.map f) = large at same ⊢
    generalize exec u c = small at same ⊢
    cases same with
    | crashed => exact .crashed
    | @answered outcome t' u' related =>
      cases outcome with
      | error errno => exact .answered related
      | ok reply => exact .answered related

/-- Requests of which the names correspond. -/
theorem performNamed_agrees (embeds : Embeds f) (mirrors : Mirrors f t u)
    {name : Str → ObjectId → ν} {name' : Str → ObjectId → μ} (asked : Str → Prop)
    (named : ∀ path objId, asked path → name path objId = f (name' path objId)) (dirs : Bool)
    (r : StorageRequest × Option ErrorNumber) (asks : ∀ path ∈ r.1.path, asked path) :
    Agrees (Mirrors f) (performNamed name dirs t r) (performNamed name' dirs u r) := by
  obtain ⟨request, fault⟩ := r
  cases request with
  | open_ path objId flags =>
    rw [performNamed, named path objId (asks path rfl)]
    exact system_agrees embeds mirrors fault (.open_ _ _)
  | openMode path objId flags mode =>
    rw [performNamed, named path objId (asks path rfl)]
    exact system_agrees embeds mirrors fault (.open_ _ _)
  | unlink path objId =>
    rw [performNamed, named path objId (asks path rfl)]
    exact system_agrees embeds mirrors fault (.unlink _)
  | mkdir path mode =>
    rw [performNamed, named path 0 (asks path rfl)]
    cases dirs with
    | true => exact system_agrees embeds mirrors fault (.mkdir _)
    | false => exact .answered mirrors
  | rmdir path =>
    rw [performNamed, named path 0 (asks path rfl)]
    cases dirs with
    | true => exact system_agrees embeds mirrors fault (.rmdir _)
    | false => exact .answered mirrors
  | readlink path objId size =>
    rw [performNamed, named path objId (asks path rfl)]
    exact (system_agrees embeds mirrors fault (.readlink _)).map (cut size)
  | getattr path objId =>
    rw [performNamed, named path objId (asks path rfl)]
    exact system_agrees embeds mirrors fault (.stat _)
  | symlink fpath linkPath linkObjId =>
    rw [performNamed, named linkPath linkObjId (asks linkPath rfl)]
    exact system_agrees embeds mirrors fault (.symlink _ _)
  | read ino size offset => exact system_agrees embeds mirrors fault (.pread _ _ _)
  | write ino data offset => exact system_agrees embeds mirrors fault (.pwrite _ _ _)

end Agreement

/-! ## What `init` makes -/

section Making

/-- The directories that were made have at most `n` names; nothing else has changed. -/
structure Extended (n : Nat) (t t' : Tree Path (BitVec 8)) : Prop where
  contents : t'.contents = t.contents
  nextIno : t'.nextIno = t.nextIno
  entries : ∀ p : Path, t'.entries[p]? = t.entries[p]? ∨
    p.length ≤ n ∧ t.entries[p]? = none ∧ t'.entries[p]? = some .dir

variable {n : Nat} {t t' t'' : Tree Path (BitVec 8)}

theorem Extended.refl (n : Nat) (t : Tree Path (BitVec 8)) : Extended n t t :=
  ⟨rfl, rfl, fun _ => .inl rfl⟩

theorem Extended.dir (extended : Extended n t t') {p : Path} (dir : t.entries[p]? = some .dir) :
    t'.entries[p]? = some .dir := by
  rcases extended.entries p with same | ⟨-, absent, -⟩
  · rw [same, dir]
  · rw [dir] at absent
    cases absent

theorem Extended.trans (first : Extended n t t') (second : Extended n t' t'') :
    Extended n t t'' where
  contents := second.contents.trans first.contents
  nextIno := second.nextIno.trans first.nextIno
  entries p := by
    rcases first.entries p with same | ⟨short, absent, made⟩
    · rw [← same]
      exact second.entries p
    · exact .inr ⟨short, absent, second.dir made⟩

theorem Extended.put {p : Path} (short : p.length ≤ n) (absent : t.entries[p]? = none) :
    Extended n t (t.put p .dir) where
  contents := rfl
  nextIno := rfl
  entries q := by
    have updated : (t.put p .dir).entries[q]? = if p = q then some .dir else t.entries[q]? :=
      FiniteMap.getElem?_insert _ _ _ _
    by_cases here : p = q
    · subst here
      exact .inr ⟨short, absent, by rw [updated, if_pos rfl]⟩
    · exact .inl (by rw [updated, if_neg here])

theorem makeAll_spec {ps : List Path} {r : Except Int Unit} (short : ∀ p ∈ ps, p.length ≤ n)
    (h : makeAll ps t = .ok (r, t')) :
    Extended n t t' ∧ (r = .ok () → ∀ p ∈ ps, t'.entries[p]? = some .dir) ∧
      ∀ e, r = .error e → 0 < e := by
  induction ps generalizing t with
  | nil =>
    cases h
    exact ⟨.refl _ _, by simp, by simp⟩
  | cons p ps ih =>
    have shorter : ∀ q ∈ ps, q.length ≤ n := fun q mem => short q (by simp [mem])
    unfold makeAll at h
    split at h
    · next there =>
      obtain ⟨extended, made, errno⟩ := ih shorter h
      refine ⟨extended, fun ok q mem => ?_, errno⟩
      rcases List.mem_cons.mp mem with rfl | later
      · exact extended.dir there
      · exact made ok q later
    · next absent =>
      obtain ⟨extended, made, errno⟩ := ih shorter h
      refine ⟨(Extended.put (short p (by simp)) absent).trans extended, fun ok q mem => ?_, errno⟩
      rcases List.mem_cons.mp mem with rfl | later
      · exact extended.dir (by simp [Tree.put])
      · exact made ok q later
    · cases h
      refine ⟨.refl _ _, by simp, fun e thrown => ?_⟩
      cases thrown
      split <;> decide
    · cases h

theorem createDirectories_spec {p : Path} {fault : Option (Nat × ErrorNumber)}
    {r : Except Int Unit} (short : p.length ≤ n) (h : createDirectories p fault t = .ok (r, t')) :
    Extended n t t' ∧ (r = .ok () → t'.entries[p]? = some .dir) ∧ ∀ e, r = .error e → 0 < e := by
  have inits (q : Path) (mem : q ∈ p.inits) : q.length ≤ n :=
    ((List.mem_inits q p).mp mem).length_le.trans short
  unfold createDirectories at h
  split at h
  · obtain ⟨extended, made, errno⟩ := makeAll_spec inits h
    exact ⟨extended, fun ok => made ok p ((List.mem_inits p p).mpr List.prefix_rfl), errno⟩
  · next made errno =>
    have some (q : Path) (mem : q ∈ p.inits.take made) : q.length ≤ n :=
      inits q (List.mem_of_mem_take mem)
    split at h
    · next t₁ first =>
      cases h
      refine ⟨(makeAll_spec some first).1, by simp, fun e thrown => ?_⟩
      cases thrown
      exact errno.2
    · next outcome other =>
      obtain ⟨extended, -, positive⟩ := makeAll_spec some h
      refine ⟨extended, ?_, positive⟩
      rintro rfl
      exact absurd h (other t')

end Making

/-! ## The files behind open files -/

section Owners

variable {ν : Type} [Ord ν] [Std.TransOrd ν] [Std.LawfulEqOrd ν] [DecidableEq ν] [InDirectory ν]
  {own : Nat → Option ν} {t t' : Tree ν (BitVec 8)}

/-- What an answer says of the owners: an open file has the name that was asked for. -/
def Opens (name : Str → ObjectId → ν) (own : Nat → Option ν) (r : StorageRequest)
    (a : StorageAnswer) : Prop :=
  ∀ path objId i, r.opens = some (path, objId) → a.2 = .opened (some i) →
    own i = some (name path objId)

theorem system_owned (owned : Owned own t) {fault : Option ErrorNumber} {c : Call ν (BitVec 8)}
    {a : StorageAnswer} (h : system fault c t = .ok (a, t')) :
    ∃ own', Keeps own own' ∧ Owned own' t' ∧
      ∀ n flags i, c = .open_ n flags → a.2 = .opened (some i) → own' i = some n := by
  unfold system at h
  split at h
  · cases h
    exact ⟨own, .refl own, owned, by simp⟩
  · split at h
    · next reply t₁ done =>
      cases h
      obtain ⟨own', keeps, owned', tells⟩ := owned.exec done
      refine ⟨own', keeps, owned', ?_⟩
      rintro n flags i rfl opened
      cases opened
      exact tells
    · next errno t₁ done =>
      cases h
      obtain ⟨own', keeps, owned', -⟩ := owned.exec done
      exact ⟨own', keeps, owned', by simp⟩
    · cases h

/-- Only two of the requests open a file. -/
theorem performNamed_owned (owned : Owned own t) {name : Str → ObjectId → ν} {dirs : Bool}
    {r : StorageRequest × Option ErrorNumber} {a : StorageAnswer}
    (h : performNamed name dirs t r = .ok (a, t')) :
    ∃ own', Keeps own own' ∧ Owned own' t' ∧ Opens name own' r.1 a := by
  obtain ⟨request, fault⟩ := r
  have silent {c : Call ν (BitVec 8)} {request : StorageRequest}
      (none : request.opens = none) (h : system fault c t = .ok (a, t')) :
      ∃ own', Keeps own own' ∧ Owned own' t' ∧ Opens name own' request a := by
    obtain ⟨own', keeps, owned', -⟩ := system_owned owned h
    exact ⟨own', keeps, owned', fun path objId i opens => by simp [none] at opens⟩
  have nothing {request : StorageRequest} (none : request.opens = none) (same : t' = t) :
      ∃ own', Keeps own own' ∧ Owned own' t' ∧ Opens name own' request a :=
    ⟨own, .refl own, same ▸ owned, fun path objId i opens => by simp [none] at opens⟩
  have opening {path : Str} {objId : ObjectId} {flags : Flags} {request : StorageRequest}
      (opens : request.opens = some (path, objId))
      (h : system fault (.open_ (name path objId) flags) t = .ok (a, t')) :
      ∃ own', Keeps own own' ∧ Owned own' t' ∧ Opens name own' request a := by
    obtain ⟨own', keeps, owned', opened⟩ := system_owned owned h
    refine ⟨own', keeps, owned', fun path' objId' i opens' answer => ?_⟩
    cases opens.symm.trans opens'
    exact opened _ flags i rfl answer
  cases request with
  | open_ path objId flags => exact opening rfl h
  | openMode path objId flags mode => exact opening rfl h
  | unlink path objId => exact silent rfl h
  | mkdir path mode =>
    cases dirs with
    | true => exact silent rfl h
    | false =>
      cases h
      exact nothing rfl rfl
  | rmdir path =>
    cases dirs with
    | true => exact silent rfl h
    | false =>
      cases h
      exact nothing rfl rfl
  | readlink path objId size =>
    rw [performNamed] at h
    cases done : system fault (.readlink (name path objId)) t with
    | error follows =>
      rw [done] at h
      cases h
    | ok answer =>
      rw [done] at h
      cases h
      obtain ⟨own', keeps, owned', -⟩ := system_owned owned done
      exact ⟨own', keeps, owned', fun path objId i opens => by cases opens⟩
  | getattr path objId => exact silent rfl h
  | symlink fpath linkPath linkObjId => exact silent rfl h
  | read ino size offset => exact silent (c := .pread ino size offset) rfl h
  | write ino data offset => exact silent (c := .pwrite ino data offset) rfl h

/-- In a run of requests every inode stays with the name under which it was opened first. -/
theorem serve_owned (owned : Owned own t) {name : Str → ObjectId → ν} {dirs : Bool}
    {requests : List (StorageRequest × Option ErrorNumber)} {answers : List StorageAnswer}
    (h : serve (performNamed name dirs) t requests = .ok (answers, t')) :
    ∃ own', Keeps own own' ∧ Owned own' t' ∧
      List.Forall₂ (fun r a => Opens name own' r.1 a) requests answers := by
  induction requests generalizing t own answers with
  | nil =>
    cases h
    exact ⟨own, .refl own, owned, .nil⟩
  | cons r rs ih =>
    unfold serve at h
    split at h
    · cases h
    · next a t₁ first =>
      split at h
      · cases h
      · next later t₂ rest =>
        cases h
        obtain ⟨own₁, keeps₁, owned₁, opens⟩ := performNamed_owned owned first
        obtain ⟨own₂, keeps₂, owned₂, others⟩ := ih owned₁ rest
        refine ⟨own₂, keeps₁.trans keeps₂, owned₂, .cons ?_ others⟩
        exact fun path objId i asked opened => keeps₂ i _ (opens path objId i asked opened)

end Owners

/-! ## Local names -/

/-- A name is put behind a path with one separator. -/
class JoinsName [FsPath] : Prop where
  join_name : ∀ {p s}, Plain s → FsPath.join p s =
    if p = [] ∨ p.getLast? = some '/' then p ++ s else p ++ '/' :: s

theorem toString_injective {i j : Int} (same : (toString i).toList = (toString j).toList) :
    i = j := by
  have parts : (decide (i < 0), i.natAbs.repr.toList) = (decide (j < 0), j.natAbs.repr.toList) := by
    rw [← sign_toString, ← sign_toString, same]
  obtain ⟨signs, digits⟩ := Prod.mk.inj parts
  have sizes : i.natAbs = j.natAbs := by
    have values := congrArg digitsValue digits
    rw [digitsValue_repr, digitsValue_repr] at values
    exact Option.some.inj values
  rw [decide_eq_decide] at signs
  omega

/-- A number is a name in a directory. -/
theorem number_name (i : Int) : Plain (toString i).toList ∧ Ordinary (toString i).toList := by
  have chars : ∀ c ∈ (toString i).toList, c.isDigit = true ∨ c = '-' := by
    intro c mem
    rw [toList_toString] at mem
    split at mem
    · rcases List.mem_cons.mp mem with minus | digit
      · exact .inr minus
      · exact .inl (isDigit_of_mem_repr digit)
    · exact .inl (isDigit_of_mem_repr mem)
  have absent (c : Char) (other : ¬(c.isDigit = true ∨ c = '-')) : c ∉ (toString i).toList :=
    fun mem => other (chars c mem)
  have some : (toString i).toList ≠ [] := by
    obtain ⟨c, rest, text, -⟩ := repr_cases i.natAbs
    rw [toList_toString, text]
    split <;> simp
  have noDot := absent '.' (by decide)
  refine ⟨⟨some, absent '/' (by decide)⟩, some, ?_, ?_⟩
  · intro dot
    exact noDot (dot ▸ by decide)
  · intro dots
    exact noDot (dots ▸ by decide)

namespace StorageManager

variable [FsPath] [JoinsName] (cwd : Path) {t t' : Tree Path (BitVec 8)}

/-- A number after a path is one name more. -/
theorem resolve_join (p : Str) (i : Int) :
    resolve cwd (FsPath.join p (toString i).toList) = resolve cwd p ++ [(toString i).toList] := by
  obtain ⟨plain, ordinary⟩ := number_name i
  rw [JoinsName.join_name plain]
  split
  · next ends =>
    rcases ends with rfl | slash
    · have first : (toString i).toList.head? ≠ some '/' :=
        fun h => plain.2 (List.mem_of_mem_head? h)
      rw [List.nil_append, resolve, if_neg first, List.splitOn_eq_singleton plain.2]
      exact walk_ordinary cwd ordinary
    · obtain ⟨front, rfl⟩ := List.getLast?_eq_some_iff.mp slash
      rw [List.append_assoc, List.cons_append, List.nil_append, resolve_append_slash,
        List.splitOn_eq_singleton plain.2]
      exact walk_ordinary _ ordinary
  · next none =>
    exact resolve_name cwd (not_or.mp none).1 plain.2 ordinary

/-- The local name of an object. -/
def objectName (basePath : Str) (numSubdirs : BitVec 32) (objId : ObjectId) : Path :=
  resolve cwd basePath ++ [(toString ((subdirNum numSubdirs objId).toNat : Int)).toList] ++
    [(toString objId.toInt).toList]

/-- What the local file system has under the name of an object. -/
def objectAt (basePath : Str) (numSubdirs : BitVec 32) (t : Tree Path (BitVec 8))
    (objId : ObjectId) : Option Entry :=
  t.entries[objectName cwd basePath numSubdirs objId]?

theorem resolve_subdir (basePath : Str) (i : Int) :
    resolve cwd (subdir basePath i) = resolve cwd basePath ++ [(toString i).toList] :=
  resolve_join cwd basePath i

theorem resolve_translatePath (basePath : Str) (numSubdirs : BitVec 32) (nonzero : numSubdirs ≠ 0)
    (path : Str) (objId : ObjectId) :
    resolve cwd ((StorageManager.object basePath numSubdirs nonzero).translatePath path objId) =
      objectName cwd basePath numSubdirs objId := by
  rw [translatePath, resolve_join, resolve_subdir]
  rfl

omit [FsPath] [JoinsName] in
theorem length_objectName (basePath : Str) (numSubdirs : BitVec 32) (objId : ObjectId) :
    (objectName cwd basePath numSubdirs objId).length = (resolve cwd basePath).length + 2 := by
  simp [objectName]

omit [FsPath] [JoinsName] in
/-- Objects have names of their own, in directories that are not objects. -/
theorem embeds_objectName (basePath : Str) (numSubdirs : BitVec 32) :
    Embeds (objectName cwd basePath numSubdirs) where
  injective o o' same := by
    have last := (List.append_inj_right' same (by simp))
    exact BitVec.eq_of_toInt_eq (toString_injective (List.head_eq_of_cons_eq last))
  parent_some up := by cases up
  parent_none {o d} _ above o' same := by
    rw [objectName, parent_append] at above
    cases above
    have shorter := congrArg List.length same
    rw [length_objectName] at shorter
    simp at shorter

/-- An `init` that succeeds has made the directories, and has left everything below them as it
was. -/
theorem initDirs_spec {basePath : Str} {faults : Nat → Option (Nat × ErrorNumber)} {is : List Nat}
    (h : initDirs cwd basePath faults is t = .ok (.OK, t')) :
    Extended ((resolve cwd basePath).length + 1) t t' ∧
      ∀ i ∈ is, t'.entries[resolve cwd basePath ++ [(toString (i : Int)).toList]]? = some .dir := by
  induction is generalizing t with
  | nil =>
    cases h
    exact ⟨.refl _ _, by simp⟩
  | cons i is ih =>
    have short : (resolve cwd (subdir basePath i)).length ≤ (resolve cwd basePath).length + 1 := by
      rw [resolve_subdir]
      simp
    unfold initDirs at h
    split at h
    · next t₁ first =>
      obtain ⟨extended, made, -⟩ := createDirectories_spec short first
      obtain ⟨later, rest⟩ := ih h
      refine ⟨extended.trans later, fun j mem => ?_⟩
      rcases List.mem_cons.mp mem with rfl | there
      · rw [← resolve_subdir]
        exact later.dir (made rfl)
      · exact rest j there
    · next ec t₁ first =>
      rw [if_pos ((createDirectories_spec short first).2.2 ec rfl)] at h
      have positive := (createDirectories_spec short first).2.2 ec rfl
      have code : ec = 0 := by
        have status := (Prod.mk.inj (Except.ok.inj h)).1
        exact congrArg Status.error status
      omega
    · cases h

omit [FsPath] [JoinsName] in
/-- The directory of an object is one of those that `init` makes. -/
theorem subdirNum_lt {numSubdirs : BitVec 32} (positive : 0 < numSubdirs.toInt) (objId : ObjectId) :
    (subdirNum numSubdirs objId).toNat < numSubdirs.toInt.toNat := by
  have wide : (numSubdirs.signExtend 64).toNat = numSubdirs.toInt.toNat := by
    have same : (numSubdirs.signExtend 64).toInt = numSubdirs.toInt :=
      BitVec.toInt_signExtend_of_le (by decide)
    have natural := BitVec.toInt_eq_toNat_cond (numSubdirs.signExtend 64)
    have bound := (numSubdirs.signExtend 64).isLt
    have small := BitVec.toInt_lt (x := numSubdirs)
    rw [same] at natural
    split at natural <;> omega
  rw [subdirNum, BitVec.toNat_umod, wide]
  exact Nat.mod_lt _ (by omega)

/-! ## Objects and paths -/

/-- The local file system holds the objects of a store under their names, and nothing below
them. -/
structure Stores (basePath : Str) (numSubdirs : BitVec 32) (t : Tree Path (BitVec 8))
    (u : ObjectStore) : Prop where
  same : ∀ objId, t.entries[objectName cwd basePath numSubdirs objId]? = u.entries[objId]?
  contents : t.contents = u.contents
  nextIno : t.nextIno = u.nextIno
  leaves : ∀ objId p, p ∈ t.entries →
    InDirectory.parent p ≠ some (objectName cwd basePath numSubdirs objId)

/-- After `init` the directories of the objects are there. -/
theorem Stores.mirrors {basePath : Str} {numSubdirs : BitVec 32} {u : ObjectStore}
    {faults : Nat → Option (Nat × ErrorNumber)} (positive : 0 < numSubdirs.toInt)
    (stores : Stores cwd basePath numSubdirs t u)
    (inited : initDirs cwd basePath faults (List.range numSubdirs.toInt.toNat) t = .ok (.OK, t')) :
    Mirrors (objectName cwd basePath numSubdirs) t' u := by
  obtain ⟨extended, made⟩ := initDirs_spec cwd inited
  constructor
  · intro objId
    rcases extended.entries (objectName cwd basePath numSubdirs objId) with same | ⟨short, -, -⟩
    · rw [same, stores.same]
    · rw [length_objectName] at short
      omega
  · rw [extended.contents, stores.contents]
  · rw [extended.nextIno, stores.nextIno]
  · intro objId d _ above
    rw [objectName, parent_append] at above
    cases above
    exact made _ (List.mem_range.mpr (subdirNum_lt positive objId))
  · intro objId p mem inside
    exfalso
    rcases extended.entries p with same | ⟨short, -, -⟩
    · refine stores.leaves objId p ?_ inside
      rw [FiniteMap.mem_iff_exists] at mem ⊢
      rwa [same] at mem
    · -- What was made is too short to be below an object.
      rcases List.eq_nil_or_concat p with rfl | ⟨front, name, rfl⟩
      · simp at inside
      · rw [List.concat_eq_append, parent_append] at inside
        have long := congrArg List.length (Option.some.inj inside)
        rw [length_objectName] at long
        simp at short
        omega

omit [JoinsName] in
/-- The managers perform requests under local names. -/
theorem perform_eq (sm : StorageManager) (r : StorageRequest × Option ErrorNumber) :
    sm.perform cwd t r = performNamed (fun path objId => resolve cwd (sm.translatePath path objId))
      (match sm with | .posix _ => true | .object .. => false) t r := by
  obtain ⟨request, fault⟩ := r
  cases sm <;> cases request <;> rfl

/-- After an `init` that succeeds, the answers of the object storage to any requests, and the
objects at the end, are those of a store that knows its objects by their ids. -/
theorem objects_answer_alike {basePath : Str} {numSubdirs : BitVec 32} (nonzero : numSubdirs ≠ 0)
    (positive : 0 < numSubdirs.toInt) {faults : Nat → Option (Nat × ErrorNumber)}
    {u : ObjectStore} (stores : Stores cwd basePath numSubdirs t u)
    (inited : init cwd faults t (.object basePath numSubdirs nonzero) = .ok (.OK, t'))
    (requests : List (StorageRequest × Option ErrorNumber)) :
    Agrees (Mirrors (objectName cwd basePath numSubdirs))
      (serve ((StorageManager.object basePath numSubdirs nonzero).perform cwd) t' requests)
      (serve ObjectStore.perform u requests) := by
  refine serve_agrees (fun _ => True) (fun t u r mirrors _ => ?_) (fun _ _ => trivial)
    (stores.mirrors cwd positive inited)
  rw [perform_eq]
  refine performNamed_agrees (embeds_objectName cwd basePath numSubdirs) mirrors
    (fun _ => True) (fun path objId _ => ?_) false r (fun _ _ => trivial)
  exact resolve_translatePath cwd basePath numSubdirs nonzero path objId

/-- An absolute path without the names that lead upwards. -/
def Downwards (path : Str) : Prop :=
  path.head? = some '/' ∧ ∀ name ∈ path.splitOn '/', name ≠ ['.'] ∧ name ≠ ['.', '.']

omit [JoinsName] in
/-- The answers of the POSIX storage to any requests are those of the tree below its base
directory. -/
theorem paths_answer_alike {basePath : Str} {u : PathStore}
    (mirrors : Mirrors (fun p : Path => resolve cwd (basePath ++ ['/']) ++ p) t u)
    {requests : List (StorageRequest × Option ErrorNumber)}
    (down : ∀ r ∈ requests, ∀ path ∈ r.1.path, Downwards path) :
    Agrees (Mirrors fun p : Path => resolve cwd (basePath ++ ['/']) ++ p)
      (serve ((StorageManager.posix basePath).perform cwd) t requests)
      (serve PathStore.perform u requests) := by
  refine serve_agrees (fun r => ∀ path ∈ r.1.path, Downwards path)
    (fun t u r mirrors asked => ?_) down mirrors
  rw [perform_eq]
  refine performNamed_agrees (embeds_below _) mirrors Downwards (fun path _ below => ?_) true
    r asked
  obtain ⟨absolute, names⟩ := below
  obtain ⟨rest, rfl⟩ := List.head?_eq_some_iff.mp absolute
  have cutOff : ('/' :: rest).splitOn '/' = [] :: rest.splitOn '/' :=
    List.splitOn_append_cons_self [] rest
  have later : ∀ name ∈ rest.splitOn '/', name ≠ ['.'] ∧ name ≠ ['.', '.'] :=
    fun name mem => names name (by simp [cutOff, mem])
  change resolve cwd (basePath ++ '/' :: rest) = _ ++ resolve [] ('/' :: rest)
  rw [resolve_append_slash, foldl_walk later]
  have own : resolve [] ('/' :: rest) = (rest.splitOn '/').filter fun name => name ≠ [] := by
    rw [resolve, cutOff, List.foldl_cons]
    exact foldl_walk later []
  rw [own]

/-- In a run of requests, files that are opened for two objects are never the same one, under
whatever paths, and also after one of the objects was removed. -/
theorem opened_apart {basePath : Str} {numSubdirs : BitVec 32} (nonzero : numSubdirs ≠ 0)
    {own : Nat → Option Path} (owned : Owned own t)
    {requests : List (StorageRequest × Option ErrorNumber)} {answers : List StorageAnswer}
    (served : (serve ((StorageManager.object basePath numSubdirs nonzero).perform cwd) t
      requests).map Prod.fst = .ok answers)
    {k l i j : Nat} {r r' : StorageRequest × Option ErrorNumber} {path path' : Str}
    {objId objId' : ObjectId} (different : objId ≠ objId') {status status' : Status}
    (first : requests[k]? = some r) (opens : r.1.opens = some (path, objId))
    (answer : answers[k]? = some (status, .opened (some i)))
    (second : requests[l]? = some r') (opens' : r'.1.opens = some (path', objId'))
    (answer' : answers[l]? = some (status', .opened (some j))) : i ≠ j := by
  have performed : (StorageManager.object basePath numSubdirs nonzero).perform cwd =
      performNamed (fun _ objId => objectName cwd basePath numSubdirs objId) false := by
    funext t r
    rw [perform_eq]
    simp only [resolve_translatePath]
  rw [performed] at served
  obtain ⟨t', done⟩ : ∃ t', serve (performNamed
      (fun _ objId => objectName cwd basePath numSubdirs objId) false) t requests =
      .ok (answers, t') := by
    cases done : serve (performNamed (fun _ objId => objectName cwd basePath numSubdirs objId)
        false) t requests with
    | error follows =>
      rw [done] at served
      cases served
    | ok r =>
      rw [done] at served
      cases served
      exact ⟨r.2, rfl⟩
  obtain ⟨own', -, -, all⟩ := serve_owned owned done
  have each (k : Nat) {r : StorageRequest × Option ErrorNumber} {a : StorageAnswer}
      (asked : requests[k]? = some r) (answered : answers[k]? = some a) :
      Opens (fun _ objId => objectName cwd basePath numSubdirs objId) own' r.1 a := by
    obtain ⟨length, related⟩ := List.forall₂_iff_get.mp all
    obtain ⟨inside, rfl⟩ := List.getElem?_eq_some_iff.mp asked
    obtain ⟨inside', rfl⟩ := List.getElem?_eq_some_iff.mp answered
    exact related k inside inside'
  have one := each k first answer path objId i opens rfl
  have other := each l second answer' path' objId' j opens' rfl
  rintro rfl
  exact different ((embeds_objectName cwd basePath numSubdirs).injective
    (Option.some.inj (one.symm.trans other)))

/-! ## What requests do to the objects -/

section Objects

variable {basePath : Str} {numSubdirs : BitVec 32} {nonzero : numSubdirs ≠ 0} {path : Str}
  {objId : ObjectId} {fault : Option ErrorNumber} {a : StorageAnswer}

omit [JoinsName] in
theorem entries_of_looks {request : StorageRequest} (looks : request.Looks)
    (h : (StorageManager.object basePath numSubdirs nonzero).perform cwd t (request, fault) =
      .ok (a, t')) : t'.entries = t.entries ∧ t'.nextIno = t.nextIno := by
  have call {c : Call Path (BitVec 8)} {b : StorageAnswer} {t₁ : Tree Path (BitVec 8)}
      (looks : c.Looks) (h : system fault c t = .ok (b, t₁)) :
      t₁.entries = t.entries ∧ t₁.nextIno = t.nextIno := by
    rcases system_cases h with ⟨-, rfl⟩ | ⟨reply, -, done⟩
    · exact ⟨rfl, rfl⟩
    · exact exec_looks looks done
  cases request with
  | open_ path objId flags =>
    have closed : (flagsOf flags).creat = false := looks
    exact call (c := .open_ _ (flagsOf flags)) closed h
  | openMode path objId flags mode => cases looks
  | unlink path objId => cases looks
  | symlink fpath linkPath linkObjId => cases looks
  | mkdir path mode =>
    cases h
    exact ⟨rfl, rfl⟩
  | rmdir path =>
    cases h
    exact ⟨rfl, rfl⟩
  | readlink path objId size =>
    simp only [perform, readlink] at h
    cases done : onPath cwd (.readlink ((StorageManager.object basePath numSubdirs
        nonzero).translatePath path objId)) fault t with
    | error follows =>
      rw [done] at h
      cases h
    | ok answer =>
      rw [done] at h
      cases h
      exact call (c := .readlink _) trivial done
  | getattr path objId => exact call (c := .stat _) trivial h
  | read ino size offset => exact call (c := .pread ino size offset) trivial h
  | write ino data offset => exact call (c := .pwrite ino data offset) trivial h

omit [FsPath] [JoinsName] in
/-- The directories of the objects are no links. -/
def Solid (basePath : Str) (numSubdirs : BitVec 32) (t : Tree Path (BitVec 8)) : Prop :=
  ∀ objId, t.Solid (objectName cwd basePath numSubdirs objId)

omit [FsPath] [JoinsName] in
/-- The directory of an object is not the name of another. -/
theorem solid_of_objectName {o : ObjectId} (e : Option Entry)
    (entries : ∀ p : Path, t'.entries[p]? =
      if objectName cwd basePath numSubdirs o = p then e else t.entries[p]?)
    (solid : Solid cwd basePath numSubdirs t) : Solid cwd basePath numSubdirs t' := by
  intro objId d target inside
  have other := (embeds_objectName cwd basePath numSubdirs).parent_none (m := objId) rfl inside o
  rw [entries, if_neg other]
  exact solid objId d target inside

/-! A request that makes or removes an object meets no link. -/

theorem openMode_served {flags mode : BitVec 32}
    (solid : t.Solid (objectName cwd basePath numSubdirs objId))
    (absent : t.entries[objectName cwd basePath numSubdirs objId]? = none) :
    ∃ r, (StorageManager.object basePath numSubdirs nonzero).perform cwd t
      (.openMode path objId flags mode, fault) = .ok r := by
  rw [← resolve_translatePath cwd basePath numSubdirs nonzero path objId] at solid absent
  exact system_ok (exec_open_ok solid absent _) fault

theorem unlink_served (solid : t.Solid (objectName cwd basePath numSubdirs objId)) :
    ∃ r, (StorageManager.object basePath numSubdirs nonzero).perform cwd t
      (.unlink path objId, fault) = .ok r := by
  rw [← resolve_translatePath cwd basePath numSubdirs nonzero path objId] at solid
  exact system_ok (exec_unlink_ok solid) fault

theorem symlink_served {fpath : Str}
    (solid : t.Solid (objectName cwd basePath numSubdirs objId)) :
    ∃ r, (StorageManager.object basePath numSubdirs nonzero).perform cwd t
      (.symlink fpath path objId, fault) = .ok r := by
  rw [← resolve_translatePath cwd basePath numSubdirs nonzero path objId] at solid
  exact system_ok (exec_symlink_ok solid fpath) fault

/-- An object that is not there is made, or nothing has changed. -/
theorem openMode_new {flags mode : BitVec 32} (creat : (flagsOf flags).creat = true)
    (absent : t.entries[objectName cwd basePath numSubdirs objId]? = none)
    (h : (StorageManager.object basePath numSubdirs nonzero).perform cwd t
      (.openMode path objId flags mode, fault) = .ok (a, t')) :
    (a.1.ok = false ∧ t' = t) ∨ (a = (.OK, .opened (some t.nextIno)) ∧
      t' = t.create (objectName cwd basePath numSubdirs objId)) := by
  have called : system fault (.open_ (objectName cwd basePath numSubdirs objId) (flagsOf flags)) t =
      .ok (a, t') := by
    rw [← resolve_translatePath cwd basePath numSubdirs nonzero path objId]
    exact h
  rcases system_cases called with failed | ⟨reply, rfl, done⟩
  · exact .inl failed
  · obtain ⟨rfl, made⟩ := exec_open_new absent creat done
    exact .inr ⟨rfl, made⟩

theorem unlink_object (h : (StorageManager.object basePath numSubdirs nonzero).perform cwd t
      (.unlink path objId, fault) = .ok (a, t')) :
    (a.1.ok = false ∧ t' = t) ∨ (a.1 = .OK ∧
      (∃ e, t.entries[objectName cwd basePath numSubdirs objId]? = some e) ∧
        t' = t.drop (objectName cwd basePath numSubdirs objId)) := by
  have called : system fault (.unlink (objectName cwd basePath numSubdirs objId)) t =
      .ok (a, t') := by
    rw [← resolve_translatePath cwd basePath numSubdirs nonzero path objId]
    exact h
  rcases system_cases called with failed | ⟨reply, rfl, done⟩
  · exact .inl failed
  · exact .inr ⟨rfl, exec_unlink done⟩

theorem symlink_object {fpath : Str}
    (h : (StorageManager.object basePath numSubdirs nonzero).perform cwd t
      (.symlink fpath path objId, fault) = .ok (a, t')) :
    (a.1.ok = false ∧ t' = t) ∨ (a.1 = .OK ∧
      t.entries[objectName cwd basePath numSubdirs objId]? = none ∧
        t' = t.put (objectName cwd basePath numSubdirs objId) (.link fpath)) := by
  have called : system fault (.symlink fpath (objectName cwd basePath numSubdirs objId)) t =
      .ok (a, t') := by
    rw [← resolve_translatePath cwd basePath numSubdirs nonzero path objId]
    exact h
  rcases system_cases called with failed | ⟨reply, rfl, done⟩
  · exact .inl failed
  · exact .inr ⟨rfl, exec_symlink done⟩

end Objects

end StorageManager

/-! ## A fresh storage with two directories -/

namespace StorageManager

attribute [local instance] Posix.fsPath

instance joinsName_posix : JoinsName where
  join_name {p s} plain := by
    have first : s.head? ≠ some '/' := fun h => plain.2 (List.mem_of_mem_head? h)
    change Posix.join p s = _
    simp only [Posix.join, if_neg plain.1, first, or_false]

def srv : Str := "/srv".toList

def srvName (names : List String) : Path := "srv".toList :: names.map String.toList

/-- Only the root directory. -/
def bare : Tree Path (BitVec 8) := ⟨(∅ : Std.ExtTreeMap Path Entry).insert [] .dir, fun _ => [], 0⟩

def noObjects : ObjectStore := ⟨∅, fun _ => [], 0⟩

def twoDirs : Tree Path (BitVec 8) :=
  ((bare.put (srvName []) .dir).put (srvName ["0"]) .dir).put (srvName ["1"]) .dir

theorem inited_twoDirs : init [] (fun _ => none) bare (.object srv 2 (by decide)) =
    .ok (.OK, twoDirs) := by
  rfl

theorem stores_noObjects : Stores [] srv 2 bare noObjects where
  same objId := by
    have other : ([] : Path) ≠ objectName [] srv 2 objId := by
      intro same
      have lengths := congrArg List.length same
      rw [length_objectName] at lengths
      simp at lengths
    exact (FiniteMap.getElem?_insert _ _ _ _).trans (if_neg other)
  contents := rfl
  nextIno := rfl
  leaves objId p mem inside := by
    obtain rfl : [] = p := by simpa [bare] using mem
    cases inside

/-- An object under a path, then another one under the same path. -/
def reused : List (StorageRequest × Option ErrorNumber) :=
  [(.openMode "/a".toList 7 0o101 0o644, none), (.write 0 [1, 2] 0, none),
    (.unlink "/a".toList 7, none), (.openMode "/a".toList 8 0o101 0o644, none),
    (.read 1 2 0, none)]

theorem reused_answers_alike : Agrees (Mirrors (objectName [] srv 2))
    (serve ((StorageManager.object srv 2 (by decide)).perform []) twoDirs reused)
    (serve ObjectStore.perform noObjects reused) :=
  objects_answer_alike [] (by decide) (by decide) stores_noObjects inited_twoDirs reused

theorem owned_twoDirs : Owned (fun _ => none) twoDirs where
  file p i found := by
    simp only [twoDirs, bare, Tree.put, FiniteMap.getElem?_insert] at found
    split_ifs at found <;> simp at found
  unused _ _ := rfl

def reusedAnswers : List StorageAnswer :=
  [(.OK, .opened (some 0)), (.OK, .count 2), (.OK, .done), (.OK, .opened (some 1)),
    (.OK, .bytes [])]

theorem reused_answered : (serve ((StorageManager.object srv 2 (by decide)).perform []) twoDirs
    reused).map Prod.fst = .ok reusedAnswers := by
  rfl

theorem reused_apart : reusedAnswers[0]? = some (.OK, .opened (some 0)) ∧
    reusedAnswers[3]? = some (.OK, .opened (some 1)) ∧ (0 : Nat) ≠ 1 :=
  ⟨rfl, rfl, opened_apart [] (by decide) owned_twoDirs reused_answered
    (show (7 : ObjectId) ≠ 8 by decide) (show reused[0]? = some _ from rfl) rfl
    (show reusedAnswers[0]? = _ from rfl) (show reused[3]? = some _ from rfl) rfl
    (show reusedAnswers[3]? = _ from rfl)⟩

end StorageManager

end Vsfs

import Std.Data.ExtTreeMap.Lemmas
import Mathlib.Logic.Function.Basic
import Vsfs.Lib.FiniteMap
import Vsfs.Lib.Overlay
import Vsfs.Lib.Simulation

/-!
# Trees of files

The part of a POSIX file system that names files: under a name there is a directory, a regular
file with its inode, or a symbolic link. `exec` is what the system calls that take one name do
there. Names are of any type: all that is asked of it is which directory a name is in.

A tree may be a part of a larger one, with other names. `Mirrors` relates the two, and every
call in the smaller tree is answered as the call in the larger one is.

## Main results

* `Mirrors.exec` : calls on mirrored names have the same answers and keep the mirror.
* `Owned.exec` : an inode stays with the name that it was first given.
* `embeds_below` : the names below a directory keep their directories.
-/

namespace FileTree

open Std FiniteMap Simulation

/-- Names, each with the directory that it is in. Where there is none, the name can always be
used. -/
class InDirectory (ν : Type) where
  parent : ν → Option ν

open InDirectory

inductive Entry where
  | dir
  | file (ino : Nat)
  | link (target : List Char)
  deriving DecidableEq, Repr

/-- The names in use, and what every inode holds. Inodes are not used again. -/
structure Tree (ν β : Type) [Ord ν] where
  entries : ExtTreeMap ν Entry
  contents : Nat → List β
  nextIno : Nat

/-- The flags of `open(2)` that matter to a tree. -/
structure Flags where
  creat : Bool
  excl : Bool
  trunc : Bool
  write : Bool
  deriving DecidableEq, Repr

/-- The calls; `pread` and `pwrite` are on what an `open` has returned. -/
inductive Call (ν β : Type) where
  | open_ (name : ν) (flags : Flags)
  | unlink (name : ν)
  | mkdir (name : ν)
  | rmdir (name : ν)
  | symlink (target : List Char) (name : ν)
  | readlink (name : ν)
  | stat (name : ν)
  | pread (ino : Nat) (size offset : Nat)
  | pwrite (ino : Nat) (data : List β) (offset : Nat)

/-- What a call returns: an open file is known by its inode, and a directory has none. -/
inductive Reply (β : Type) where
  | done
  | opened (ino : Option Nat)
  | text (target : List Char)
  | attributes (ino : Option Nat) (size : Nat)
  | bytes (data : List β)
  | count (n : Nat)
  deriving DecidableEq, Repr

/-- Where a call would follow a symbolic link, the tree does not say what it comes to. -/
inductive Follows where
  | link
  deriving DecidableEq, Repr

namespace Errno

def ENOENT : Int := 2
def EEXIST : Int := 17
def ENOTDIR : Int := 20
def EISDIR : Int := 21
def EINVAL : Int := 22
def ENOTEMPTY : Int := 39

end Errno

open Errno

/-- The outcome of a call and the tree after it; a failure is an error number. -/
abbrev Outcome (ν β α : Type) [Ord ν] := Except Follows (Except Int α × Tree ν β)

variable {ν μ β : Type} [Ord ν] [TransOrd ν] [LawfulEqOrd ν] [DecidableEq ν] [InDirectory ν]

namespace Tree

/-- What a call does that fails. -/
def fails {α : Type} (t : Tree ν β) (errno : Int) : Outcome ν β α := .ok (.error errno, t)

/-- The directory of a name has to be there. -/
def within {α : Type} (t : Tree ν β) (name : ν) (next : Outcome ν β α) : Outcome ν β α :=
  match parent name with
  | none => next
  | some d =>
    match t.entries[d]? with
    | some .dir => next
    | none => t.fails ENOENT
    | some (.file _) => t.fails ENOTDIR
    | some (.link _) => .error .link

def put (t : Tree ν β) (name : ν) (e : Entry) : Tree ν β :=
  { t with entries := t.entries.insert name e }

def drop (t : Tree ν β) (name : ν) : Tree ν β := { t with entries := t.entries.erase name }

/-- A new, empty file. -/
def create (t : Tree ν β) (name : ν) : Tree ν β where
  entries := t.entries.insert name (.file t.nextIno)
  contents := Function.update t.contents t.nextIno []
  nextIno := t.nextIno + 1

def fill (t : Tree ν β) (ino : Nat) (data : List β) : Tree ν β :=
  { t with contents := Function.update t.contents ino data }

/-- There is something in the directory. -/
def hasChild (t : Tree ν β) (name : ν) : Bool :=
  t.entries.toList.any fun e => decide (parent e.1 = some name)

omit [DecidableEq ν] [InDirectory ν] [TransOrd ν] [LawfulEqOrd ν] in
@[simp] theorem entries_fill (t : Tree ν β) (ino : Nat) (data : List β) :
    (t.fill ino data).entries = t.entries := rfl

theorem hasChild_iff (t : Tree ν β) (name : ν) :
    t.hasChild name = true ↔ ∃ n ∈ t.entries, parent n = some name := by
  simp only [hasChild, List.any_eq_true, decide_eq_true_eq, Prod.exists,
    ExtTreeMap.mem_toList_iff_getElem?_eq_some]
  constructor
  · rintro ⟨n, e, found, inside⟩
    exact ⟨n, (mem_iff_exists _ _).mpr ⟨e, found⟩, inside⟩
  · rintro ⟨n, mem, inside⟩
    obtain ⟨e, found⟩ := (mem_iff_exists _ _).mp mem
    exact ⟨n, e, found, inside⟩

end Tree

/-- One system call. -/
def exec [Zero β] (t : Tree ν β) : Call ν β → Outcome ν β (Reply β)
  | .open_ name flags => t.within name <|
    match t.entries[name]? with
    | none =>
      if flags.creat then .ok (.ok (.opened (some t.nextIno)), t.create name) else t.fails ENOENT
    | some e =>
      if flags.creat && flags.excl then t.fails EEXIST
      else
        match e with
        | .dir =>
          if flags.creat || flags.write then t.fails EISDIR else .ok (.ok (.opened none), t)
        | .file ino =>
          .ok (.ok (.opened (some ino)), if flags.trunc then t.fill ino [] else t)
        | .link _ => .error .link
  | .unlink name => t.within name <|
    match t.entries[name]? with
    | none => t.fails ENOENT
    | some .dir => t.fails EISDIR
    | some _ => .ok (.ok .done, t.drop name)
  | .mkdir name => t.within name <|
    match t.entries[name]? with
    | none => .ok (.ok .done, t.put name .dir)
    | some _ => t.fails EEXIST
  | .rmdir name => t.within name <|
    match t.entries[name]? with
    | none => t.fails ENOENT
    | some .dir => if t.hasChild name then t.fails ENOTEMPTY else .ok (.ok .done, t.drop name)
    | some _ => t.fails ENOTDIR
  | .symlink target name => t.within name <|
    match t.entries[name]? with
    | none => .ok (.ok .done, t.put name (.link target))
    | some _ => t.fails EEXIST
  | .readlink name => t.within name <|
    match t.entries[name]? with
    | none => t.fails ENOENT
    | some (.link target) => .ok (.ok (.text target), t)
    | some _ => t.fails EINVAL
  | .stat name => t.within name <|
    match t.entries[name]? with
    | none => t.fails ENOENT
    | some .dir => .ok (.ok (.attributes none 0), t)
    | some (.file ino) => .ok (.ok (.attributes (some ino) (t.contents ino).length), t)
    | some (.link _) => .error .link
  | .pread ino size offset => .ok (.ok (.bytes (((t.contents ino).drop offset).take size)), t)
  | .pwrite ino data offset =>
    .ok (.ok (.count data.length), t.fill ino (Overlay.write (t.contents ino) offset data))

/-- The same call on other names. -/
def Call.map (f : μ → ν) : Call μ β → Call ν β
  | .open_ name flags => .open_ (f name) flags
  | .unlink name => .unlink (f name)
  | .mkdir name => .mkdir (f name)
  | .rmdir name => .rmdir (f name)
  | .symlink target name => .symlink target (f name)
  | .readlink name => .readlink (f name)
  | .stat name => .stat (f name)
  | .pread ino size offset => .pread ino size offset
  | .pwrite ino data offset => .pwrite ino data offset

/-- What the name is in is not a link. -/
def Tree.Solid (t : Tree ν β) (name : ν) : Prop :=
  ∀ d target, parent name = some d → t.entries[d]? ≠ some (.link target)

/-! ## What a call does to the names -/

/-- The call makes no name and removes none. -/
def Call.Looks : Call ν β → Prop
  | .open_ _ flags => flags.creat = false
  | .readlink _ => True
  | .stat _ => True
  | .pread _ _ _ => True
  | .pwrite _ _ _ => True
  | _ => False

section Names

variable {t t' : Tree ν β}

omit [LawfulEqOrd ν] [DecidableEq ν] in
/-- What holds of the call holds of it within a directory, where it may fail. -/
theorem within_cases {α : Type} {name : ν} {next : Outcome ν β α} {r : Except Int α}
    (h : t.within name next = .ok (r, t')) :
    next = .ok (r, t') ∨ (∃ e, 0 < e ∧ r = .error e) ∧ t' = t := by
  unfold Tree.within at h
  split at h
  · exact .inl h
  · split at h
    · exact .inl h
    · cases h
      exact .inr ⟨⟨_, by decide, rfl⟩, rfl⟩
    · cases h
      exact .inr ⟨⟨_, by decide, rfl⟩, rfl⟩
    · cases h

omit [LawfulEqOrd ν] [DecidableEq ν] in
theorem within_ok {α : Type} {name : ν} {next : Outcome ν β α} (solid : t.Solid name)
    (ok : ∃ r, next = .ok r) : ∃ r, t.within name next = .ok r := by
  unfold Tree.within
  split
  · exact ok
  · next d inside =>
    split
    · exact ok
    · exact ⟨_, rfl⟩
    · exact ⟨_, rfl⟩
    · next target found => exact absurd found (solid d target inside)

/-! A call that makes or removes a name follows no link but those that the name leads through. -/

omit [LawfulEqOrd ν] in
theorem exec_open_ok [Zero β] {name : ν} (solid : t.Solid name) (absent : t.entries[name]? = none)
    (flags : Flags) : ∃ r, exec t (.open_ name flags) = .ok r := by
  refine within_ok solid ?_
  rw [absent]
  dsimp only
  split <;> exact ⟨_, rfl⟩

omit [LawfulEqOrd ν] in
theorem exec_unlink_ok [Zero β] {name : ν} (solid : t.Solid name) :
    ∃ r, exec t (.unlink name) = .ok r := by
  refine within_ok solid ?_
  split <;> exact ⟨_, rfl⟩

omit [LawfulEqOrd ν] in
theorem exec_symlink_ok [Zero β] {name : ν} (solid : t.Solid name) (target : List Char) :
    ∃ r, exec t (.symlink target name) = .ok r := by
  refine within_ok solid ?_
  split <;> exact ⟨_, rfl⟩

omit [LawfulEqOrd ν] in
/-- A call that fails has an error number and changes nothing. -/
theorem exec_error [Zero β] {c : Call ν β} {e : Int} (h : exec t c = .ok (.error e, t')) :
    0 < e ∧ t' = t := by
  have inside {name : ν} {next : Outcome ν β (Reply β)}
      (h : t.within name next = .ok (.error e, t'))
      (then_ : next = .ok (.error e, t') → 0 < e ∧ t' = t) : 0 < e ∧ t' = t := by
    rcases within_cases h with done | ⟨⟨e, positive, same⟩, rfl⟩
    · exact then_ done
    · cases same
      exact ⟨positive, rfl⟩
  cases c with
  | pread ino size offset => cases h
  | pwrite ino data offset => cases h
  | open_ name flags =>
    refine inside h fun done => ?_
    split at done
    · split at done <;> cases done
      exact ⟨by decide, rfl⟩
    · split at done
      · cases done
        exact ⟨by decide, rfl⟩
      · split at done
        · split at done <;> cases done
          exact ⟨by decide, rfl⟩
        · cases done
        · cases done
  | rmdir name =>
    refine inside h fun done => ?_
    split at done
    · cases done
      exact ⟨by decide, rfl⟩
    · split at done <;> cases done
      exact ⟨by decide, rfl⟩
    · cases done
      exact ⟨by decide, rfl⟩
  | _ =>
    refine inside h fun done => ?_
    split at done <;> cases done <;> exact ⟨by decide, rfl⟩

omit [LawfulEqOrd ν] in
theorem exec_looks [Zero β] {c : Call ν β} {r : Except Int (Reply β)} (looks : c.Looks)
    (h : exec t c = .ok (r, t')) : t'.entries = t.entries ∧ t'.nextIno = t.nextIno := by
  have inside {name : ν} {next : Outcome ν β (Reply β)} (h : t.within name next = .ok (r, t'))
      (then_ : next = .ok (r, t') → t'.entries = t.entries ∧ t'.nextIno = t.nextIno) :
      t'.entries = t.entries ∧ t'.nextIno = t.nextIno := by
    rcases within_cases h with done | ⟨-, rfl⟩
    · exact then_ done
    · exact ⟨rfl, rfl⟩
  cases c with
  | open_ name flags =>
    have old : flags.creat = false := looks
    refine inside h fun done => ?_
    simp only [old, Bool.false_and, Bool.false_or, Bool.false_eq_true, if_false] at done
    split at done
    · cases done
      exact ⟨rfl, rfl⟩
    · split at done
      · split at done <;> cases done <;> exact ⟨rfl, rfl⟩
      · cases done
        split <;> exact ⟨rfl, rfl⟩
      · cases done
  | readlink name =>
    refine inside h fun done => ?_
    split at done <;> cases done <;> exact ⟨rfl, rfl⟩
  | stat name =>
    refine inside h fun done => ?_
    split at done <;> cases done <;> exact ⟨rfl, rfl⟩
  | pread ino size offset =>
    cases h
    exact ⟨rfl, rfl⟩
  | pwrite ino data offset =>
    cases h
    exact ⟨rfl, rfl⟩
  | _ => cases looks

omit [LawfulEqOrd ν] in
/-- A file that is opened and was not there is made. -/
theorem exec_open_new [Zero β] {name : ν} {flags : Flags} {reply : Reply β}
    (absent : t.entries[name]? = none) (creat : flags.creat = true)
    (h : exec t (.open_ name flags) = .ok (.ok reply, t')) :
    reply = .opened (some t.nextIno) ∧ t' = t.create name := by
  rcases within_cases h with done | ⟨⟨e, -, same⟩, -⟩
  · simp only [absent, creat, if_true] at done
    cases done
    exact ⟨rfl, rfl⟩
  · cases same

omit [LawfulEqOrd ν] in
theorem exec_unlink [Zero β] {name : ν} {reply : Reply β}
    (h : exec t (.unlink name) = .ok (.ok reply, t')) :
    (∃ e, t.entries[name]? = some e) ∧ t' = t.drop name := by
  rcases within_cases h with done | ⟨⟨e, -, same⟩, -⟩
  · split at done
    · cases done
    · cases done
    · next e other found =>
      cases done
      exact ⟨⟨e, found⟩, rfl⟩
  · cases same

omit [LawfulEqOrd ν] in
theorem exec_symlink [Zero β] {name : ν} {target : List Char} {reply : Reply β}
    (h : exec t (.symlink target name) = .ok (.ok reply, t')) :
    t.entries[name]? = none ∧ t' = t.put name (.link target) := by
  rcases within_cases h with done | ⟨⟨e, -, same⟩, -⟩
  · split at done
    · next absent =>
      cases done
      exact ⟨absent, rfl⟩
    · cases done
  · cases same

end Names

/-! ## A tree within another -/

/-- Names that keep their directories. A name without one gets a directory that no name has. -/
structure Embeds [InDirectory μ] (f : μ → ν) : Prop where
  injective : Function.Injective f
  parent_some : ∀ {m d}, parent m = some d → parent (f m) = some (f d)
  parent_none : ∀ {m d}, parent m = none → parent (f m) = some d → ∀ m', f m' ≠ d

/-- The smaller tree is what the larger one has under the names of `f`: those whose directory
is not among them find it in place, and nothing else is in a directory that has a name. -/
structure Mirrors [Ord μ] [TransOrd μ] [InDirectory μ] (f : μ → ν) (t : Tree ν β) (u : Tree μ β) :
    Prop where
  same : ∀ m, t.entries[f m]? = u.entries[m]?
  contents : t.contents = u.contents
  nextIno : t.nextIno = u.nextIno
  held : ∀ m d, parent m = none → parent (f m) = some d → t.entries[d]? = some .dir
  whole : ∀ m n, n ∈ t.entries → parent n = some (f m) → ∃ m', f m' = n ∧ parent m' = some m

section Mirror

variable [Ord μ] [TransOrd μ] [LawfulEqOrd μ] [DecidableEq μ] [InDirectory μ] {f : μ → ν}
  {t : Tree ν β} {u : Tree μ β}

omit [LawfulEqOrd ν] [LawfulEqOrd μ] in
/-- A new entry or none at a name of the smaller tree. -/
theorem Mirrors.set (embeds : Embeds f) (mirrors : Mirrors f t u) (m : μ) {t' : Tree ν β}
    {u' : Tree μ β} (e : Option Entry)
    (large : ∀ n, t'.entries[n]? = if f m = n then e else t.entries[n]?)
    (small : ∀ m', u'.entries[m']? = if m = m' then e else u.entries[m']?)
    (contents : t'.contents = u'.contents) (nextIno : t'.nextIno = u'.nextIno) :
    Mirrors f t' u' where
  same m' := by
    rw [large, small, mirrors.same]
    simp only [embeds.injective.eq_iff]
  contents := contents
  nextIno := nextIno
  held m' d top inside := by
    rw [large, if_neg (embeds.parent_none top inside m)]
    exact mirrors.held m' d top inside
  whole m' n mem inside := by
    by_cases here : f m = n
    · subst here
      refine ⟨m, rfl, ?_⟩
      cases up : parent m with
      | none => exact absurd rfl (embeds.parent_none up inside m')
      | some d =>
        have same : f d = f m' := Option.some.inj ((embeds.parent_some up).symm.trans inside)
        rw [embeds.injective same]
    · refine mirrors.whole m' n ?_ inside
      rw [mem_iff_exists] at mem ⊢
      simpa only [large, if_neg here] using mem

theorem Mirrors.put (embeds : Embeds f) (mirrors : Mirrors f t u) (m : μ) (e : Entry) :
    Mirrors f (t.put (f m) e) (u.put m e) :=
  mirrors.set embeds m (some e) (fun _ => getElem?_insert _ _ _ _)
    (fun _ => getElem?_insert _ _ _ _) mirrors.contents mirrors.nextIno

theorem Mirrors.drop (embeds : Embeds f) (mirrors : Mirrors f t u) (m : μ) :
    Mirrors f (t.drop (f m)) (u.drop m) :=
  mirrors.set embeds m none (fun _ => getElem?_erase _ _ _) (fun _ => getElem?_erase _ _ _)
    mirrors.contents mirrors.nextIno

theorem Mirrors.create (embeds : Embeds f) (mirrors : Mirrors f t u) (m : μ) :
    Mirrors f (t.create (f m)) (u.create m) := by
  refine mirrors.set embeds m (some (.file t.nextIno)) (fun _ => getElem?_insert _ _ _ _) ?_ ?_ ?_
  · intro m'
    rw [mirrors.nextIno]
    exact getElem?_insert _ _ _ _
  · simp only [Tree.create, mirrors.contents, mirrors.nextIno]
  · simp only [Tree.create, mirrors.nextIno]

omit [LawfulEqOrd ν] [DecidableEq ν] [LawfulEqOrd μ] [DecidableEq μ] in
theorem Mirrors.fill (mirrors : Mirrors f t u) (ino : Nat) (data : List β) :
    Mirrors f (t.fill ino data) (u.fill ino data) where
  same := mirrors.same
  contents := by simp only [Tree.fill, mirrors.contents]
  nextIno := mirrors.nextIno
  held := mirrors.held
  whole := mirrors.whole

omit [LawfulEqOrd ν] [DecidableEq ν] [LawfulEqOrd μ] [DecidableEq μ] in
theorem Mirrors.fails {α : Type} (mirrors : Mirrors f t u) (errno : Int) :
    Agrees (Mirrors f) (t.fails errno : Outcome ν β α) (u.fails errno) := .answered mirrors

omit [LawfulEqOrd ν] [DecidableEq ν] [LawfulEqOrd μ] [DecidableEq μ] in
/-- Whether the directory of a name is there is the same question in both trees. -/
theorem Mirrors.within {α : Type} (embeds : Embeds f) (mirrors : Mirrors f t u) (m : μ)
    {x : Outcome ν β α} {y : Outcome μ β α} (next : Agrees (Mirrors f) x y) :
    Agrees (Mirrors f) (t.within (f m) x) (u.within m y) := by
  unfold Tree.within
  cases up : parent m with
  | some d =>
    simp only [embeds.parent_some up, mirrors.same]
    cases u.entries[d]? with
    | none => exact mirrors.fails _
    | some e =>
      cases e with
      | dir => exact next
      | file ino => exact mirrors.fails _
      | link target => exact .crashed
  | none =>
    cases above : parent (f m) with
    | none => exact next
    | some d =>
      simp only [mirrors.held m d up above]
      exact next

theorem Mirrors.hasChild (embeds : Embeds f) (mirrors : Mirrors f t u) (m : μ) :
    t.hasChild (f m) = u.hasChild m := by
  rw [Bool.eq_iff_iff, Tree.hasChild_iff, Tree.hasChild_iff]
  constructor
  · rintro ⟨n, mem, inside⟩
    obtain ⟨m', rfl, up⟩ := mirrors.whole m n mem inside
    refine ⟨m', ?_, up⟩
    rw [mem_iff_exists] at mem ⊢
    simpa only [mirrors.same] using mem
  · rintro ⟨m', mem, up⟩
    refine ⟨f m', ?_, embeds.parent_some up⟩
    rw [mem_iff_exists] at mem ⊢
    simpa only [mirrors.same] using mem

/-- One call on a name that both trees have. -/
theorem Mirrors.exec [Zero β] (embeds : Embeds f) (mirrors : Mirrors f t u) (c : Call μ β) :
    Agrees (Mirrors f) (exec t (c.map f)) (exec u c) := by
  cases c with
  | open_ m flags =>
    refine mirrors.within embeds m ?_
    rw [mirrors.same]
    cases u.entries[m]? with
    | none =>
      dsimp only
      split
      · rw [mirrors.nextIno]
        exact .answered (mirrors.create embeds m)
      · exact mirrors.fails _
    | some e =>
      dsimp only
      split
      · exact mirrors.fails _
      · cases e with
        | dir =>
          dsimp only
          split
          · exact mirrors.fails _
          · exact .answered mirrors
        | file ino =>
          refine .answered ?_
          split
          · exact mirrors.fill ino []
          · exact mirrors
        | link target => exact .crashed
  | unlink m =>
    refine mirrors.within embeds m ?_
    rw [mirrors.same]
    split
    · exact mirrors.fails _
    · exact mirrors.fails _
    · exact .answered (mirrors.drop embeds m)
  | mkdir m =>
    refine mirrors.within embeds m ?_
    rw [mirrors.same]
    split
    · exact .answered (mirrors.put embeds m .dir)
    · exact mirrors.fails _
  | rmdir m =>
    refine mirrors.within embeds m ?_
    rw [mirrors.same, mirrors.hasChild embeds]
    split
    · exact mirrors.fails _
    · split
      · exact mirrors.fails _
      · exact .answered (mirrors.drop embeds m)
    · exact mirrors.fails _
  | symlink target m =>
    refine mirrors.within embeds m ?_
    rw [mirrors.same]
    split
    · exact .answered (mirrors.put embeds m (.link target))
    · exact mirrors.fails _
  | readlink m =>
    refine mirrors.within embeds m ?_
    rw [mirrors.same]
    split
    · exact mirrors.fails _
    · exact .answered mirrors
    · exact mirrors.fails _
  | stat m =>
    refine mirrors.within embeds m ?_
    rw [mirrors.same]
    split
    · exact mirrors.fails _
    · exact .answered mirrors
    · rw [mirrors.contents]
      exact .answered mirrors
    · exact .crashed
  | pread ino size offset =>
    simp only [Call.map, FileTree.exec, mirrors.contents]
    exact .answered mirrors
  | pwrite ino data offset =>
    refine .answered ?_
    rw [mirrors.contents]
    exact mirrors.fill ino _

end Mirror

/-! ## Inodes and names -/

/-- Every file is the file of one name, and inodes that were never used are of none. -/
structure Owned (own : Nat → Option ν) (t : Tree ν β) : Prop where
  file : ∀ n i, t.entries[n]? = some (.file i) → own i = some n
  unused : ∀ i, t.nextIno ≤ i → own i = none

/-- No inode has changed its name. -/
def Keeps (own own' : Nat → Option ν) : Prop := ∀ i n, own i = some n → own' i = some n

section Owners

variable {own own' : Nat → Option ν} {t t' : Tree ν β}

omit [Ord ν] [TransOrd ν] [LawfulEqOrd ν] [DecidableEq ν] [InDirectory ν] in
theorem Keeps.refl (own : Nat → Option ν) : Keeps own own := fun _ _ h => h

omit [Ord ν] [TransOrd ν] [LawfulEqOrd ν] [DecidableEq ν] [InDirectory ν] in
theorem Keeps.trans {own'' : Nat → Option ν} (first : Keeps own own') (second : Keeps own' own'') :
    Keeps own own'' := fun i n h => second i n (first i n h)

/-- What an answer to a call says of the owners: an open file has its name. -/
def Tells (own : Nat → Option ν) : Call ν β → Except Int (Reply β) → Prop
  | .open_ n _, .ok (.opened (some i)) => own i = some n
  | _, _ => True

omit [LawfulEqOrd ν] [DecidableEq ν] [InDirectory ν] in
/-- Without new files, the owners stay. -/
theorem Owned.of_subset (owned : Owned own t) (nextIno : t'.nextIno = t.nextIno)
    (old : ∀ (n : ν) (i : Nat), t'.entries[n]? = some (.file i) →
      t.entries[n]? = some (.file i)) :
    Owned own t' where
  file n i found := owned.file n i (old n i found)
  unused i later := owned.unused i (nextIno ▸ later)

omit [LawfulEqOrd ν] [DecidableEq ν] [InDirectory ν] in
theorem Owned.ne_nextIno (owned : Owned own t) {i : Nat} {n : ν} (old : own i = some n) :
    i ≠ t.nextIno := by
  rintro rfl
  rw [owned.unused _ (Nat.le_refl _)] at old
  cases old

omit [InDirectory ν] in
theorem Owned.create (owned : Owned own t) (name : ν) :
    Owned (Function.update own t.nextIno (some name)) (t.create name) where
  file n i found := by
    have updated : (t.create name).entries[n]? =
        if name = n then some (.file t.nextIno) else t.entries[n]? := getElem?_insert _ _ _ _
    rw [updated] at found
    split at found
    · next here =>
      cases found
      rw [Function.update_self, here]
    · have old := owned.file n i found
      rw [Function.update_of_ne (owned.ne_nextIno old), old]
  unused i later := by
    have later' : t.nextIno + 1 ≤ i := later
    rw [Function.update_of_ne (by omega), owned.unused i (by omega)]

omit [LawfulEqOrd ν] [DecidableEq ν] [InDirectory ν] in
theorem Owned.keeps_create (owned : Owned own t) (name : ν) :
    Keeps own (Function.update own t.nextIno (some name)) := by
  intro i n old
  rw [Function.update_of_ne (owned.ne_nextIno old), old]

omit [InDirectory ν] in
theorem Owned.put (owned : Owned own t) {name : ν} {e : Entry} (noFile : ∀ i, e ≠ .file i) :
    Owned own (t.put name e) := by
  refine owned.of_subset rfl fun n i found => ?_
  have updated : (t.put name e).entries[n]? = if name = n then some e else t.entries[n]? :=
    getElem?_insert _ _ _ _
  rw [updated] at found
  split at found
  · exact absurd (Option.some.inj found) (noFile i)
  · exact found

omit [InDirectory ν] in
theorem Owned.drop (owned : Owned own t) (name : ν) : Owned own (t.drop name) := by
  refine owned.of_subset rfl fun n i found => ?_
  have updated : (t.drop name).entries[n]? = if name = n then none else t.entries[n]? :=
    getElem?_erase _ _ _
  rw [updated] at found
  split at found
  · cases found
  · exact found

omit [LawfulEqOrd ν] [DecidableEq ν] [InDirectory ν] in
theorem Owned.fill (owned : Owned own t) (ino : Nat) (data : List β) :
    Owned own (t.fill ino data) :=
  owned.of_subset rfl fun _ _ found => found

/-- One call: a file that is opened has the name it was opened under, and no file changes its
name. -/
theorem Owned.exec [Zero β] (owned : Owned own t) {c : Call ν β} {r : Except Int (Reply β)}
    (h : exec t c = .ok (r, t')) : ∃ own', Keeps own own' ∧ Owned own' t' ∧ Tells own' c r := by
  have failed (e : Int) (c : Call ν β) : Tells own c (.error e) := by
    cases c <;> trivial
  have outside {next : Outcome ν β (Reply β)} {name : ν} (inside : t.within name next = .ok (r, t'))
      (then_ : next = .ok (r, t') → ∃ own', Keeps own own' ∧ Owned own' t' ∧ Tells own' c r) :
      ∃ own', Keeps own own' ∧ Owned own' t' ∧ Tells own' c r := by
    rcases within_cases inside with done | ⟨⟨e, -, rfl⟩, rfl⟩
    · exact then_ done
    · exact ⟨own, .refl own, owned, failed e c⟩
  cases c with
  | open_ name flags =>
    refine outside h fun done => ?_
    split at done
    · split at done
      · cases done
        exact ⟨_, owned.keeps_create name, owned.create name, Function.update_self ..⟩
      · cases done
        exact ⟨own, .refl own, owned, trivial⟩
    · next e found =>
      split at done
      · cases done
        exact ⟨own, .refl own, owned, trivial⟩
      · split at done
        · split at done
          · cases done
            exact ⟨own, .refl own, owned, trivial⟩
          · cases done
            exact ⟨own, .refl own, owned, trivial⟩
        · next ino =>
          cases done
          refine ⟨own, .refl own, ?_, owned.file name ino found⟩
          split
          · exact owned.fill ino []
          · exact owned
        · cases done
  | unlink name =>
    refine outside h fun done => ?_
    split at done <;> cases done
    · exact ⟨own, .refl own, owned, trivial⟩
    · exact ⟨own, .refl own, owned, trivial⟩
    · exact ⟨own, .refl own, owned.drop name, trivial⟩
  | mkdir name =>
    refine outside h fun done => ?_
    split at done <;> cases done
    · exact ⟨own, .refl own, owned.put (by simp), trivial⟩
    · exact ⟨own, .refl own, owned, trivial⟩
  | rmdir name =>
    refine outside h fun done => ?_
    split at done
    · cases done
      exact ⟨own, .refl own, owned, trivial⟩
    · split at done <;> cases done
      · exact ⟨own, .refl own, owned, trivial⟩
      · exact ⟨own, .refl own, owned.drop name, trivial⟩
    · cases done
      exact ⟨own, .refl own, owned, trivial⟩
  | symlink target name =>
    refine outside h fun done => ?_
    split at done <;> cases done
    · exact ⟨own, .refl own, owned.put (by simp), trivial⟩
    · exact ⟨own, .refl own, owned, trivial⟩
  | readlink name =>
    refine outside h fun done => ?_
    split at done <;> cases done <;> exact ⟨own, .refl own, owned, trivial⟩
  | stat name =>
    refine outside h fun done => ?_
    split at done <;> cases done <;> exact ⟨own, .refl own, owned, trivial⟩
  | pread ino size offset =>
    cases h
    exact ⟨own, .refl own, owned, trivial⟩
  | pwrite ino data offset =>
    cases h
    exact ⟨own, .refl own, owned.fill ino _, trivial⟩

end Owners

/-! ## Paths -/

/-- The names from the root down. -/
abbrev Path := List (List Char)

instance : InDirectory Path where
  parent p := if p = [] then none else some p.dropLast

/-- One name of a path, from a directory on. -/
def walk (here : Path) (name : List Char) : Path :=
  if name = [] ∨ name = ['.'] then here
  else if name = ['.', '.'] then here.dropLast
  else here ++ [name]

/-- What a text names, where no directory on the way is a symbolic link. -/
def resolve (cwd : Path) (text : List Char) : Path :=
  (text.splitOn '/').foldl walk (if text.head? = some '/' then [] else cwd)

/-- A name that leads one directory further down. -/
def Ordinary (name : List Char) : Prop := name ≠ [] ∧ name ≠ ['.'] ∧ name ≠ ['.', '.']

@[simp] theorem parent_nil : parent ([] : Path) = none := rfl

@[simp] theorem parent_append (p : Path) (name : List Char) : parent (p ++ [name]) = some p := by
  simp [parent]

theorem walk_ordinary (here : Path) {name : List Char} (ordinary : Ordinary name) :
    walk here name = here ++ [name] := by
  rw [walk, if_neg (not_or.mpr ⟨ordinary.1, ordinary.2.1⟩), if_neg ordinary.2.2]

theorem resolve_append_slash (cwd : Path) (p q : List Char) :
    resolve cwd (p ++ '/' :: q) = (q.splitOn '/').foldl walk (resolve cwd (p ++ ['/'])) := by
  have start : (p ++ '/' :: q).head? = (p ++ ['/']).head? := by
    cases p <;> rfl
  have last : ['/'].splitOn '/' = [[], []] := by decide
  rw [resolve, resolve, start, List.splitOn_append_cons_self, List.splitOn_append_cons_self,
    List.splitOn_nil, List.foldl_append, List.foldl_append]
  simp [walk]

theorem resolve_append_nil (cwd : Path) {p : List Char} (some : p ≠ []) :
    resolve cwd (p ++ ['/']) = resolve cwd p := by
  obtain ⟨c, rest, rfl⟩ := List.exists_cons_of_ne_nil some
  rw [resolve, resolve, List.splitOn_append_cons_self, List.splitOn_nil, List.foldl_append]
  simp [walk]

/-- A name in a directory, after the text of the directory. -/
theorem resolve_name (cwd : Path) {p name : List Char} (some : p ≠ []) (plain : '/' ∉ name)
    (ordinary : Ordinary name) : resolve cwd (p ++ '/' :: name) = resolve cwd p ++ [name] := by
  rw [resolve_append_slash, resolve_append_nil cwd some, List.splitOn_eq_singleton plain]
  exact walk_ordinary _ ordinary

/-- Names that do not lead upwards are taken as they are. -/
theorem foldl_walk {names : List (List Char)}
    (down : ∀ name ∈ names, name ≠ ['.'] ∧ name ≠ ['.', '.']) (here : Path) :
    names.foldl walk here = here ++ names.filter fun name => name ≠ [] := by
  induction names generalizing here with
  | nil => simp
  | cons name names ih =>
    rw [List.foldl_cons, ih fun n mem => down n (by simp [mem])]
    by_cases empty : name = []
    · subst empty
      simp [walk]
    · have one : walk here name = here ++ [name] := walk_ordinary here ⟨empty, down name (by simp)⟩
      rw [one, List.filter_cons_of_pos (by simpa using empty), List.append_assoc]
      rfl

/-- The tree below a directory. -/
theorem embeds_below (root : Path) : Embeds fun p : Path => root ++ p where
  injective p q same := List.append_cancel_left same
  parent_some {p d} up := by
    rcases List.eq_nil_or_concat p with rfl | ⟨front, name, rfl⟩
    · simp at up
    · rw [List.concat_eq_append, parent_append] at up
      cases up
      rw [List.concat_eq_append, ← List.append_assoc, parent_append]
  parent_none {p d} up above q same := by
    rcases List.eq_nil_or_concat p with rfl | ⟨front, name, rfl⟩
    · rcases List.eq_nil_or_concat root with rfl | ⟨front, name, rfl⟩
      · simp at above
      · have shorter := congrArg List.length same
        rw [List.append_nil, List.concat_eq_append, parent_append] at above
        cases above
        simp at shorter
    · rw [List.concat_eq_append, parent_append] at up
      cases up

end FileTree

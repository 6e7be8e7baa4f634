import Vsfs.Fuse.Paths
import Vsfs.Lib.Lifetimes
import Vsfs.Lib.Oversight
import Vsfs.Masterd.Ids

/-!
# The masters and the storage together

What the masters have on record and what is in the storage, as the books of a registry and a store.
An object id begins with bits of the hash of the path, which lead to one master, and goes on with
bits of the counter of that master.

## Main results

* `effect_of_rpc` : an RPC gives out an id, takes one back, or leaves the books as they are.
* `Holds.given`, `Holds.taken`, `Holds.make`, `Holds.erase` : the steps that keep the invariant.
-/

namespace Vsfs.Fuse.Paths

open Std Program Prog FileTree Client Masterd Indexd Index Lifetimes Function StorageManager

section Books

variable {K : Type} [LinearOrder K]

def Site.ids (s : Site K) (a : NodeAddress) : ExtTreeMap ObjectId Str :=
  (s.servers.masters a).namespace.idToPathMap

def Site.counter (s : Site K) (a : NodeAddress) : ObjectId :=
  (s.servers.masters a).namespace.nextObjId

/-- A master has a file with the id. -/
def Site.Recorded (s : Site K) (o : ObjectId) : Prop := ∃ a, o ∈ s.ids a

/-- Where the mounts keep their objects, the counters of the masters in the beginning, and the
master that is asked to make files whose hashes begin in some way. -/
structure Setup where
  cwd : Path
  basePath : Str
  numSubdirs : BitVec 32
  nonzero : numSubdirs ≠ 0
  first : NodeAddress → ObjectId
  home : BitVec 16 → NodeAddress

variable (setup : Setup)

abbrev Setup.storage : StorageManager :=
  .object setup.basePath setup.numSubdirs setup.nonzero

def Site.object [FsPath] (s : Site K) (o : ObjectId) : Option Entry :=
  objectAt setup.cwd setup.basePath setup.numSubdirs s.files o

/-- How many ids the master has given out. -/
def Site.given (s : Site K) (a : NodeAddress) : Nat := (s.counter a - setup.first a).toNat

/-- The id may have been given out: its master has been at its counter. -/
def Site.Issued (s : Site K) (o : ObjectId) : Prop :=
  ∃ k < s.given setup (setup.home (hashPart o)),
    counterPart o = counterPart (setup.first (setup.home (hashPart o)) + BitVec.ofNat 64 k)

def Site.books [FsPath] (s : Site K) : Books ObjectId Entry where
  issued := {o | s.Issued setup o}
  recorded := {o | s.Recorded o}
  stored := s.object setup

end Books

/-! ## What an RPC does to the books -/

section Effects

variable {K : Type} [LinearOrder K]

/-- The answer to the RPC is an id that was given out or taken back. -/
def Transfers : {β : Type} → Rpc β → Prop
  | _, .master _ request => request.Transfers
  | _, .index _ _ => False

/-- What an RPC does to the ids of the masters, together with its answer. -/
inductive Site.Effect [PathHash] (s s' : Site K) :
    {β : Type} → Rpc β → Except RpcInvalidOp β → Prop where
  | same {β : Type} {request : Rpc β} {answer : Except RpcInvalidOp β} (ids : s'.ids = s.ids)
      (counter : s'.counter = s.counter)
      (refused : Transfers request → ∃ ouch, answer = .error ouch) :
      Effect s s' request answer
  | given {a : NodeAddress} {path : Str} {mode uid gid : BitVec 64} {o : ObjectId}
      (id : o = objectIdOf (PathHash.pathToHash path) (s.counter a))
      (ids : s'.ids = update s.ids a ((s.ids a).insert o path))
      (counter : s'.counter = update s.counter a (s.counter a + 1)) :
      Effect s s' (.master a (.create path mode uid gid)) (.ok o)
  | taken {a : NodeAddress} {path : Str} {o : ObjectId} (mapped : o ∈ s.ids a)
      (ids : s'.ids = update s.ids a ((s.ids a).erase o)) (counter : s'.counter = s.counter) :
      Effect s s' (.master a (.remove path)) (.ok o)

variable [KeyTypes K] [FsPath] [PathHash] [ThriftSerialize FileMetadata]
  [ThriftSerialize IndexNamespaceNode] {s s' : Site K} {input : Input} {β : Type}
  {request : Rpc β} {answer : Except RpcInvalidOp β}

theorem effect_of_rpc (h : s.rpc input request = .ok (answer, s')) :
    s'.files = s.files ∧ Site.Effect s s' request answer := by
  unfold Site.rpc at h
  split at h
  · cases h
  · next answered servers served =>
    cases h
    refine ⟨rfl, ?_⟩
    have answers : s.servers.Answers request answer servers := ⟨_, _, served⟩
    cases request with
    | index address request =>
      obtain ⟨id, im, -, rfl⟩ := Servers.answers_index answers
      exact .same rfl rfl nofun
    | master address request =>
      obtain ⟨now, mc, handled, rfl⟩ := Servers.answers_master answers
      have ids : Site.ids { s with servers := s.servers.setMaster address mc } =
          update s.ids address mc.namespace.idToPathMap := by
        funext a
        simp only [Site.ids, Servers.setMaster_masters, update_apply]
        split <;> rfl
      have counter : Site.counter { s with servers := s.servers.setMaster address mc } =
          update s.counter address mc.namespace.nextObjId := by
        funext a
        simp only [Site.counter, Servers.setMaster_masters, update_apply]
        split <;> rfl
      cases MasterServer.idEffect_of_handle handled with
      | same ids' counter' refused =>
        refine .same ?_ ?_ refused
        · rw [ids, ids']
          exact update_eq_self _ _
        · rw [counter, counter']
          exact update_eq_self _ _
      | given ids' counter' =>
        exact .given rfl (by rw [ids, ids']; rfl) (by rw [counter, counter']; rfl)
      | taken mapped ids' counter' =>
        refine .taken ((FiniteMap.mem_iff_exists _ _).mpr ⟨_, mapped⟩) (by rw [ids, ids']; rfl) ?_
        rw [counter, counter']
        exact update_eq_self _ _

end Effects

/-! ## The invariant -/

section Invariant

variable {K : Type} [LinearOrder K] [FsPath] (setup : Setup)

/-- Every file that was made is another one. -/
def Apart (nextIno : Nat) (own : Nat → Stage ObjectId Entry) : Prop :=
  ∀ i o ino, own i = .made o (.file ino) →
    ino < nextIno ∧ ∀ j o', own j = .made o' (.file ino) → j = i

/-- The directories of the storage are no links. -/
def Site.Solid (s : Site K) : Prop :=
  StorageManager.Solid setup.cwd setup.basePath setup.numSubdirs s.files

/-- Every id is on record at the master that its first bits lead to, the books are sound, and the
objects are where their names say. -/
structure Holds (strict : Prop) (s : Site K) (own : Nat → Stage ObjectId Entry) : Prop where
  homes : ∀ a o, o ∈ s.ids a → setup.home (hashPart o) = a
  solid : s.Solid setup
  sound : Sound strict (s.books setup) own
  apart : Apart s.files.nextIno own

variable {setup} {strict : Prop} {s s' : Site K} {own : Nat → Stage ObjectId Entry} {i : Nat}
  {a : NodeAddress} {o : ObjectId}

omit [LinearOrder K] [FsPath] in
theorem Apart.other {n : Nat} (apart : Apart n own) {x : Stage ObjectId Entry}
    (noFile : ∀ o ino, x ≠ .made o (.file ino)) : Apart n (update own i x) := by
  have old {j : Nat} {o : ObjectId} {ino : Nat} (made : update own i x j = .made o (.file ino)) :
      own j = .made o (.file ino) := by
    by_cases here : j = i
    · rw [here, update_self] at made
      exact absurd made (noFile o ino)
    · rwa [update_of_ne here] at made
  intro j o ino made
  obtain ⟨small, alone⟩ := apart j o ino (old made)
  exact ⟨small, fun k o' made' => alone k o' (old made')⟩

omit [LinearOrder K] [FsPath] in
/-- A new file. -/
theorem Apart.made {n : Nat} (apart : Apart n own) :
    Apart (n + 1) (update own i (.made o (.file n))) := by
  intro j o' ino made
  by_cases here : j = i
  · rw [here, update_self] at made
    cases made
    refine ⟨Nat.lt_succ_self n, fun k o' made' => ?_⟩
    by_cases there : k = i
    · rw [here, there]
    · rw [update_of_ne there] at made'
      exact absurd (apart k o' n made').1 (Nat.lt_irrefl n)
  · rw [update_of_ne here] at made
    obtain ⟨small, alone⟩ := apart j o' ino made
    refine ⟨small.trans (Nat.lt_succ_self n), fun k o' made' => ?_⟩
    by_cases there : k = i
    · rw [there, update_self] at made'
      cases made'
      exact absurd small (Nat.lt_irrefl n)
    · rw [update_of_ne there] at made'
      exact alone k o' made'

theorem books_eq (files : s'.files = s.files) (ids : s'.ids = s.ids)
    (counter : s'.counter = s.counter) : s'.books setup = s.books setup := by
  have object : s'.object setup = s.object setup := by
    funext o
    rw [Site.object, Site.object, files]
  simp only [Site.books, Site.Issued, Site.given, Site.Recorded, object, ids, counter]

omit [FsPath] in
/-- The counter, from where it was in the beginning. -/
theorem counter_eq (s : Site K) (a : NodeAddress) :
    s.counter a = setup.first a + BitVec.ofNat 64 (s.given setup a) := by
  rw [Site.given, BitVec.ofNat_toNat, BitVec.setWidth_eq, BitVec.add_comm, BitVec.sub_add_cancel]

omit [FsPath] in
theorem given_succ (few : s.given setup a < 2 ^ 48)
    (counter : s'.counter = update s.counter a (s.counter a + 1)) (a' : NodeAddress) :
    s'.given setup a' = if a' = a then s.given setup a + 1 else s.given setup a' := by
  by_cases here : a' = a
  · subst here
    have next : s'.counter a' - setup.first a' = (s.counter a' - setup.first a') + 1 := by
      rw [counter, update_self]
      bv_omega
    have small : (s.counter a' - setup.first a').toNat < 2 ^ 48 := few
    rw [if_pos rfl, Site.given, Site.given, next]
    bv_omega
  · rw [if_neg here, Site.given, Site.given, counter, update_of_ne here]

omit [FsPath] in
theorem mem_ids_given {path : Str} (ids : s'.ids = update s.ids a ((s.ids a).insert o path))
    (a' : NodeAddress) (o' : ObjectId) :
    o' ∈ s'.ids a' ↔ (a' = a ∧ o' = o) ∨ o' ∈ s.ids a' := by
  rw [ids]
  by_cases here : a' = a
  · subst here
    simp [ExtTreeMap.mem_insert, eq_comm (a := o)]
  · simp [here]

variable [PathHash] {path : Str}

/-- A new id, and what the books say before and after it is given out. -/
theorem given_spec (id : o = objectIdOf (PathHash.pathToHash path) (s.counter a))
    (home : setup.home (hashPart (PathHash.pathToHash path)) = a) (few : s.given setup a < 2 ^ 48)
    (ids : s'.ids = update s.ids a ((s.ids a).insert o path))
    (counter : s'.counter = update s.counter a (s.counter a + 1)) :
    o ∉ (s.books setup).issued ∧ (s.books setup).issued ⊆ (s'.books setup).issued ∧
      o ∈ (s'.books setup).issued ∧
        (s'.books setup).recorded = insert o (s.books setup).recorded := by
  have given := given_succ few counter
  have master : setup.home (hashPart o) = a := by rw [id, hashPart_objectIdOf, home]
  have low : counterPart o = counterPart (setup.first a + BitVec.ofNat 64 (s.given setup a)) := by
    rw [id, counterPart_objectIdOf, ← counter_eq]
  refine ⟨?_, ?_, ?_, ?_⟩
  · rintro ⟨k, less, same⟩
    rw [master] at less same
    have equal := counterPart_inj (same.symm.trans low) (by omega) few
    omega
  · rintro o' ⟨k, less, same⟩
    refine ⟨k, ?_, same⟩
    rw [given]
    split
    · next here =>
      rw [here] at less
      omega
    · exact less
  · refine ⟨s.given setup a, ?_, ?_⟩
    · rw [master, given, if_pos rfl]
      omega
    · rw [master, low]
  · ext o'
    simp only [Site.books, Site.Recorded, Set.mem_ofPred_eq, Set.mem_insert_iff, mem_ids_given ids]
    constructor
    · rintro ⟨a', ⟨-, new⟩ | old⟩
      · exact .inl new
      · exact .inr ⟨a', old⟩
    · rintro (new | ⟨a', old⟩)
      · exact ⟨a, .inl ⟨rfl, new⟩⟩
      · exact ⟨a', .inr old⟩

omit [FsPath] [PathHash] in
theorem mem_ids_taken (ids : s'.ids = update s.ids a ((s.ids a).erase o)) (a' : NodeAddress)
    (o' : ObjectId) : o' ∈ s'.ids a' ↔ o' ∈ s.ids a' ∧ ¬ (a' = a ∧ o' = o) := by
  rw [ids]
  by_cases here : a' = a
  · subst here
    simp [ExtTreeMap.mem_erase, and_comm, eq_comm (a := o)]
  · simp [here]

omit [PathHash] in
/-- An id that is taken back is on record nowhere. -/
theorem taken_spec (homes : ∀ a o, o ∈ s.ids a → setup.home (hashPart o) = a) (mapped : o ∈ s.ids a)
    (ids : s'.ids = update s.ids a ((s.ids a).erase o)) (counter : s'.counter = s.counter) :
    (s'.books setup).issued = (s.books setup).issued ∧
      (s'.books setup).recorded = (s.books setup).recorded \ {o} := by
  refine ⟨by simp only [Site.books, Site.Issued, Site.given, counter], ?_⟩
  ext o'
  simp only [Site.books, Site.Recorded, Set.mem_ofPred_eq, Set.mem_sdiff, Set.mem_singleton_iff,
    mem_ids_taken ids]
  constructor
  · rintro ⟨a', there, other⟩
    refine ⟨⟨a', there⟩, ?_⟩
    rintro rfl
    exact other ⟨(homes a' o' there).symm.trans (homes a o' mapped), rfl⟩
  · rintro ⟨⟨a', there⟩, other⟩
    exact ⟨a', there, fun same => other same.2⟩

omit [PathHash] in
/-- A job that has come to nothing else. -/
theorem Holds.stays (holds : Holds setup strict s own) {h : Stage ObjectId Entry}
    (mine : own i = h) : Holds setup strict s (update own i h) := by
  rwa [← mine, update_eq_self]

/-! ### RPCs -/

omit [PathHash] in
theorem Holds.same (holds : Holds setup strict s own) (files : s'.files = s.files)
    (ids : s'.ids = s.ids) (counter : s'.counter = s.counter) : Holds setup strict s' own where
  homes := by
    rw [ids]
    exact holds.homes
  solid o := files ▸ holds.solid o
  sound := by
    rw [books_eq files ids counter]
    exact holds.sound
  apart := files ▸ holds.apart

omit [PathHash] in
theorem object_eq (files : s'.files = s.files) :
    (s'.books setup).stored = (s.books setup).stored := by
  funext o
  change s'.object setup o = s.object setup o
  rw [Site.object, Site.object, files]

section Given

variable (holds : Holds setup strict s own) (files : s'.files = s.files)
  (id : o = objectIdOf (PathHash.pathToHash path) (s.counter a))
  (home : setup.home (hashPart (PathHash.pathToHash path)) = a) (few : s.given setup a < 2 ^ 48)
  (ids : s'.ids = update s.ids a ((s.ids a).insert o path))
  (counter : s'.counter = update s.counter a (s.counter a + 1))
include holds files id home few ids counter

omit files few counter in
theorem homes_given (a' : NodeAddress) (o' : ObjectId) (there : o' ∈ s'.ids a') :
    setup.home (hashPart o') = a' := by
  rcases (mem_ids_given ids a' o').mp there with ⟨rfl, rfl⟩ | old
  · rw [id, hashPart_objectIdOf, home]
  · exact holds.homes a' o' old

theorem Holds.given_unheard : Holds setup strict s' own where
  homes := homes_given holds id home ids
  solid o := files ▸ holds.solid o
  sound := by
    obtain ⟨new, more, now, recorded⟩ := given_spec id home few ids counter
    exact holds.sound.issue_unheard new more now recorded (object_eq files)
  apart := files ▸ holds.apart

theorem Holds.given (idle : own i = .idle) : Holds setup strict s' (update own i (.making o)) where
  homes := homes_given holds id home ids
  solid o := files ▸ holds.solid o
  sound := by
    obtain ⟨new, more, now, recorded⟩ := given_spec id home few ids counter
    exact holds.sound.issue new more now recorded (object_eq files) idle
  apart := files ▸ holds.apart.other nofun

end Given

section Taken

variable (holds : Holds setup strict s own) (files : s'.files = s.files) (mapped : o ∈ s.ids a)
  (ids : s'.ids = update s.ids a ((s.ids a).erase o)) (counter : s'.counter = s.counter)
include holds files mapped ids counter

omit [PathHash] in
theorem Holds.taken_unheard (lax : ¬ strict) : Holds setup strict s' own where
  homes a' o' there := holds.homes a' o' ((mem_ids_taken ids a' o').mp there).1
  solid o := files ▸ holds.solid o
  sound := by
    obtain ⟨issued, recorded⟩ := taken_spec holds.homes mapped ids counter
    refine holds.sound.withdraw_unheard lax issued ?_ (object_eq files)
    rw [recorded]
    exact Set.sdiff_subset
  apart := files ▸ holds.apart

omit [PathHash] in
theorem Holds.taken (idle : own i = .idle) :
    Holds setup strict s' (update own i (.removing o)) where
  homes a' o' there := holds.homes a' o' ((mem_ids_taken ids a' o').mp there).1
  solid o := files ▸ holds.solid o
  sound := by
    obtain ⟨issued, recorded⟩ := taken_spec holds.homes mapped ids counter
    exact holds.sound.withdraw idle ⟨a, mapped⟩ issued recorded (object_eq files)
  apart := files ▸ holds.apart.other nofun

end Taken

/-! ### The storage -/

section Stored

variable {files : Tree Path (BitVec 8)} {e : Entry}

omit [PathHash] in
theorem stored_insert (entries : files.entries =
      s.files.entries.insert (objectName setup.cwd setup.basePath setup.numSubdirs o) e) :
    (Site.books setup { s with files }).stored = update (s.books setup).stored o (some e) := by
  funext o'
  change files.entries[_]? = update (s.object setup) o (some e) o'
  rw [entries, FiniteMap.getElem?_insert, update_apply, Site.object, objectAt]
  simp only [(embeds_objectName _ _ _).injective.eq_iff, eq_comm (a := o)]

omit [PathHash] in
theorem stored_erase (entries : files.entries =
      s.files.entries.erase (objectName setup.cwd setup.basePath setup.numSubdirs o)) :
    (Site.books setup { s with files }).stored = update (s.books setup).stored o none := by
  funext o'
  change files.entries[_]? = update (s.object setup) o none o'
  rw [entries, FiniteMap.getElem?_erase, update_apply, Site.object, objectAt]
  simp only [(embeds_objectName _ _ _).injective.eq_iff, eq_comm (a := o)]

omit [PathHash] in
theorem Holds.make (holds : Holds setup strict s own) (mine : own i = .making o)
    (entries : files.entries =
      s.files.entries.insert (objectName setup.cwd setup.basePath setup.numSubdirs o) e)
    (apart : Apart files.nextIno (update own i (.made o e))) :
    Holds setup strict { s with files } (update own i (.made o e)) where
  homes := holds.homes
  solid := by
    refine solid_of_objectName setup.cwd (o := o) (some e) (fun p => ?_) holds.solid
    rw [entries, FiniteMap.getElem?_insert]
  sound := holds.sound.make mine rfl rfl (stored_insert entries)
  apart := apart

omit [PathHash] in
theorem Holds.erase (holds : Holds setup strict s own) (mine : own i = .removing o)
    (there : ∃ e, s.files.entries[objectName setup.cwd setup.basePath setup.numSubdirs o]? = some e)
    (entries : files.entries =
      s.files.entries.erase (objectName setup.cwd setup.basePath setup.numSubdirs o))
    (nextIno : files.nextIno = s.files.nextIno) :
    Holds setup strict { s with files } (update own i (.gone o)) where
  homes := holds.homes
  solid := by
    refine solid_of_objectName setup.cwd (o := o) none (fun p => ?_) holds.solid
    rw [entries, FiniteMap.getElem?_erase]
  sound := by
    obtain ⟨e, found⟩ := there
    refine holds.sound.erase mine ?_ rfl rfl (stored_erase entries)
    change s.object setup o ≠ none
    rw [Site.object, objectAt, found]
    nofun
  apart := by
    rw [nextIno]
    exact holds.apart.other nofun

end Stored

end Invariant

end Vsfs.Fuse.Paths

import Vsfs.Masterd.Consistency

/-!
# Requests that fail

A request to the namespace may be refused, or its write to the store may fail. Most of the
operations write before they touch the maps, `mkdir` takes its entries back, `create` tries
to, and `setattr` does not.

## Main results

* `atomic_iff` : exactly when a request that does not succeed leaves maps and store alone.
-/

namespace Vsfs.Masterd.Namespace

open Std FiniteMap

/-- The maps and the store are the same. -/
structure SameData (ns ns' : Namespace) : Prop where
  store : ns'.store = ns.store
  directories : ns'.directories = ns.directories
  metadataMap : ns'.metadataMap = ns.metadataMap
  idToPathMap : ns'.idToPathMap = ns.idToPathMap

theorem SameData.refl (ns : Namespace) : SameData ns ns := ⟨rfl, rfl, rfl, rfl⟩

section Calls

variable [FsPath] [PathHash] [ThriftSerialize FileMetadata]

/-- One request, with the status of its write to the store. -/
def call (ns : Namespace) (io : Status) : Request → Cpp (Status × Namespace)
  | .create path mode uid gid now =>
    (ns.create io now path mode uid gid).map fun result => (result.1, result.2.2)
  | .remove path => (ns.remove io path).map fun result => (result.1, result.2.2)
  | .mkdir path mode uid gid now => .ok (ns.mkdir io now path mode uid gid)
  | .rmdir path => .ok (ns.rmdir io path)
  | .addSubfile parent subfile => .ok (ns.addSubfile io parent subfile)
  | .removeSubfile parent subfile => .ok (ns.removeSubfile io parent subfile)
  | .setattr path info => .ok (ns.setattr io path info)

omit [FsPath] [PathHash] [ThriftSerialize FileMetadata] in
/-- The request has nothing to take back when the store fails: no new file, and no record
that the attributes change. -/
def NothingToUndo (ns : Namespace) : Request → Prop
  | .create path .. => path ∈ ns.metadataMap
  | .setattr path info => ∀ m, ns.metadataMap[path]? = some m → FileMetadata.assign m info = m
  | _ => True

/-- Everything a request can do, whatever becomes of its write. -/
inductive Outcome (ns : Namespace) (io : Status) : Request → Cpp (Status × Namespace) → Prop where
  | refused {r : Request} {status : Status} (bad : status.ok = false) (idle : ns.NothingToUndo r) :
      Outcome ns io r (.ok (status, ns))
  | failed {r : Request} (bad : io.ok = false) (idle : ns.NothingToUndo r) :
      Outcome ns io r (.ok (io, ns))
  /-- The attempt to undo is undefined. -/
  | createFailed {path : Str} {mode uid gid : BitVec 32} {now : Double} (bad : io.ok = false)
      (absent : ns.metadataMap[path]? = none) :
      Outcome ns io (.create path mode uid gid now)
        (.error (.undefined "meta refers to an erased element"))
  /-- The attributes stay in memory. -/
  | setattrFailed {path : Str} {info : RpcFileInfo} {m : FileMetadata} (bad : io.ok = false)
      (found : ns.metadataMap[path]? = some m) :
      Outcome ns io (.setattr path info) (.ok (io, { ns with
        metadataMap := ns.metadataMap.insert path (FileMetadata.assign m info) }))
  | create {path : Str} {mode uid gid : BitVec 32} {now : Double} (ok : io.ok = true)
      (absent : ns.metadataMap[path]? = none) :
      Outcome ns io (.create path mode uid gid now)
        (.ok (io, ns.withFile path (newFile (ns.nextId path) mode uid gid now)))
  | remove {path : Str} {m : FileMetadata} (ok : io.ok = true)
      (found : ns.metadataMap[path]? = some m) (file : ¬ S_ISDIR m.mode) :
      Outcome ns io (.remove path) (.ok (.OK, ns.withoutFile path m.objectId))
  | mkdir {path : Str} {mode uid gid : BitVec 32} {now : Double} (ok : io.ok = true)
      (absent : ns.metadataMap[path]? = none) :
      Outcome ns io (.mkdir path mode uid gid now)
        (.ok (.OK, ns.withDirectory path (newDirectory mode uid gid now)))
  | rmdir {path : Str} {dir : Directory} (ok : io.ok = true)
      (found : ns.directories[path]? = some dir) (empty : dir.subfiles.isEmpty = true) :
      Outcome ns io (.rmdir path) (.ok (.OK, ns.withoutDirectory path))
  | addSubfile {parent subfile : Str} {dir : Directory} (ok : io.ok = true)
      (found : ns.directories[parent]? = some dir) :
      Outcome ns io (.addSubfile parent subfile) (.ok (.OK, ns.withSubfile parent dir subfile))
  | removeSubfile {parent subfile : Str} {dir : Directory} (ok : io.ok = true)
      (found : ns.directories[parent]? = some dir) :
      Outcome ns io (.removeSubfile parent subfile)
        (.ok (.OK, ns.withoutSubfile parent dir subfile))
  | setattr {path : Str} {info : RpcFileInfo} {m : FileMetadata} (ok : io.ok = true)
      (found : ns.metadataMap[path]? = some m) :
      Outcome ns io (.setattr path info)
        (.ok (io, ns.withMetadata path (FileMetadata.assign m info)))

variable {ns : Namespace} {io : Status}

omit [FsPath] [PathHash] [ThriftSerialize FileMetadata] in
theorem put_of_failed {store : LevelDBStore} (failed : io.ok = false) (key value : Str) :
    store.put io key value = (io, store) := by
  simp [LevelDBStore.put, failed]

omit [FsPath] [PathHash] [ThriftSerialize FileMetadata] in
theorem remove_of_failed {store : LevelDBStore} (failed : io.ok = false) (key : Str) :
    store.remove io key = (io, store) := by
  simp [LevelDBStore.remove, failed]

/-! ## The operations -/

theorem outcome_create (h : Consistent ns) (path : Str) (mode uid gid : BitVec 32)
    (now : Double) : Outcome ns io (.create path mode uid gid now)
      (ns.call io (.create path mode uid gid now)) := by
  cases found : ns.metadataMap[path]? with
  | some m =>
    have old : path ∈ ns.metadataMap := (mem_iff_exists _ _).mpr ⟨m, found⟩
    have refused : ns.call io (.create path mode uid gid now) = .ok (.systemError EEXIST, ns) := by
      simp only [call, Namespace.create, if_pos old, Except.map]
    exact refused ▸ .refused rfl old
  | none =>
    have new : path ∉ ns.metadataMap := (not_mem_iff _ _).mpr found
    have unmapped : ns.idToPathMap[ns.nextId path]? ≠ some path := by
      intro clash
      obtain ⟨m, hm, -⟩ := h.ids.mp clash
      exact new ((mem_iff_exists _ _).mpr ⟨m, hm⟩)
    have unknown : (ns.idToPathMap[ns.nextId path]? == some path) = false :=
      beq_eq_false_iff_ne.mpr unmapped
    unfold nextId at unknown
    cases ok : io.ok with
    | false =>
      have undone : ns.call io (.create path mode uid gid now) =
          .error (.undefined "meta refers to an erased element") := by
        simp only [call, Namespace.create, if_neg new, getObjectId, containIdAndPath, unknown,
          storeMetadata, LevelDBStore.put, ok]
        rfl
      exact undone ▸ .createFailed ok found
    | true =>
      have done : ns.call io (.create path mode uid gid now) =
          .ok (io, ns.withFile path (newFile (ns.nextId path) mode uid gid now)) := by
        simp only [call, Namespace.create, if_neg new, getObjectId, containIdAndPath, unknown,
          storeMetadata, LevelDBStore.put, ok]
        rfl
      exact done ▸ .create ok found

theorem outcome_remove (h : Consistent ns) (path : Str) :
    Outcome ns io (.remove path) (ns.call io (.remove path)) := by
  cases found : ns.metadataMap[path]? with
  | none =>
    have refused : ns.call io (.remove path) = .ok (.systemError ENOENT, ns) := by
      simp only [call, Namespace.remove, found, Except.map]
    exact refused ▸ .refused rfl trivial
  | some m =>
    by_cases dir : S_ISDIR m.mode
    · have refused : ns.call io (.remove path) = .ok (.systemError EISDIR, ns) := by
        simp only [call, Namespace.remove, found, if_pos dir, Except.map]
      exact refused ▸ .refused rfl trivial
    have mapped : ns.idToPathMap[m.objectId]? = some path := h.ids.mpr ⟨m, found, dir, rfl⟩
    cases ok : io.ok with
    | false =>
      have failed : ns.call io (.remove path) = .ok (io, ns) := by
        simp only [call, Namespace.remove, found, if_neg dir, remove_of_failed ok, ok]
        rfl
      exact failed ▸ .failed ok trivial
    | true =>
      have done : ns.call io (.remove path) = .ok (.OK, ns.withoutFile path m.objectId) := by
        simp only [call, Namespace.remove, found, if_neg dir, LevelDBStore.remove, ok,
          containIdAndPath, mapped, beq_self_eq_true]
        rfl
      exact done ▸ .remove ok found dir

theorem outcome_mkdir (h : Consistent ns) (path : Str) (mode uid gid : BitVec 32)
    (now : Double) : Outcome ns io (.mkdir path mode uid gid now)
      (ns.call io (.mkdir path mode uid gid now)) := by
  cases found : ns.metadataMap[path]? with
  | some m =>
    have old : path ∈ ns.metadataMap := (mem_iff_exists _ _).mpr ⟨m, found⟩
    have refused : ns.call io (.mkdir path mode uid gid now) = .ok (.systemError EEXIST, ns) := by
      simp only [call, Namespace.mkdir, if_pos old]
    exact refused ▸ .refused rfl trivial
  | none =>
    have new : path ∉ ns.metadataMap := (not_mem_iff _ _).mpr found
    have unlisted : path ∉ ns.directories := by
      intro listed
      obtain ⟨m, hm, -⟩ := h.dirs.mp listed
      exact new ((mem_iff_exists _ _).mpr ⟨m, hm⟩)
    cases ok : io.ok with
    | false =>
      have failed : ns.call io (.mkdir path mode uid gid now) = .ok (io, ns) := by
        simp only [call, Namespace.mkdir, if_neg new, storeMetadata, put_of_failed ok, ok,
          Bool.not_false, if_true, erase_insert_of_not_mem new,
          erase_insertIfNew_of_not_mem unlisted]
      exact failed ▸ .failed ok trivial
    | true =>
      have done : ns.call io (.mkdir path mode uid gid now) =
          .ok (.OK, ns.withDirectory path (newDirectory mode uid gid now)) := by
        simp only [call, Namespace.mkdir, if_neg new, storeMetadata, LevelDBStore.put, ok]
        rfl
      exact done ▸ .mkdir ok found

theorem outcome_rmdir (path : Str) :
    Outcome ns io (.rmdir path) (ns.call io (.rmdir path)) := by
  cases found : ns.directories[path]? with
  | none =>
    have refused : ns.call io (.rmdir path) = .ok (.systemError ENOENT, ns) := by
      simp only [call, Namespace.rmdir, found]
    exact refused ▸ .refused rfl trivial
  | some dir =>
    cases empty : dir.subfiles.isEmpty with
    | false =>
      have refused : ns.call io (.rmdir path) = .ok (.systemError ENOTEMPTY, ns) := by
        simp only [call, Namespace.rmdir, found, empty]
        rfl
      exact refused ▸ .refused rfl trivial
    | true =>
      cases ok : io.ok with
      | false =>
        have failed : ns.call io (.rmdir path) = .ok (io, ns) := by
          simp only [call, Namespace.rmdir, found, empty, remove_of_failed ok, ok]
          rfl
        exact failed ▸ .failed ok trivial
      | true =>
        have done : ns.call io (.rmdir path) = .ok (.OK, ns.withoutDirectory path) := by
          simp only [call, Namespace.rmdir, found, empty, LevelDBStore.remove, ok]
          rfl
        exact done ▸ .rmdir ok found empty

theorem outcome_addSubfile (parent subfile : Str) :
    Outcome ns io (.addSubfile parent subfile) (ns.call io (.addSubfile parent subfile)) := by
  cases found : ns.directories[parent]? with
  | none =>
    have refused : ns.call io (.addSubfile parent subfile) = .ok (.systemError ENOENT, ns) := by
      simp only [call, Namespace.addSubfile, found]
    exact refused ▸ .refused rfl trivial
  | some dir =>
    by_cases listed : subfile ∈ dir.subfiles
    · have refused : ns.call io (.addSubfile parent subfile) = .ok (.systemError EEXIST, ns) := by
        simp only [call, Namespace.addSubfile, found, if_pos listed]
      exact refused ▸ .refused rfl trivial
    cases ok : io.ok with
    | false =>
      have failed : ns.call io (.addSubfile parent subfile) = .ok (io, ns) := by
        simp only [call, Namespace.addSubfile, found, if_neg listed, put_of_failed ok, ok]
        rfl
      exact failed ▸ .failed ok trivial
    | true =>
      have done : ns.call io (.addSubfile parent subfile) =
          .ok (.OK, ns.withSubfile parent dir subfile) := by
        simp only [call, Namespace.addSubfile, found, if_neg listed, LevelDBStore.put, ok]
        rfl
      exact done ▸ .addSubfile ok found

theorem outcome_removeSubfile (parent subfile : Str) : Outcome ns io
    (.removeSubfile parent subfile) (ns.call io (.removeSubfile parent subfile)) := by
  cases found : ns.directories[parent]? with
  | none =>
    have refused : ns.call io (.removeSubfile parent subfile) = .ok (.systemError ENOENT, ns) := by
      simp only [call, Namespace.removeSubfile, found]
    exact refused ▸ .refused rfl trivial
  | some dir =>
    by_cases listed : subfile ∈ dir.subfiles
    · have taken : ¬ subfile ∉ dir.subfiles := not_not.mpr listed
      cases ok : io.ok with
      | false =>
        have failed : ns.call io (.removeSubfile parent subfile) = .ok (io, ns) := by
          simp only [call, Namespace.removeSubfile, found, if_neg taken, remove_of_failed ok, ok]
          rfl
        exact failed ▸ .failed ok trivial
      | true =>
        have done : ns.call io (.removeSubfile parent subfile) =
            .ok (.OK, ns.withoutSubfile parent dir subfile) := by
          simp only [call, Namespace.removeSubfile, found, if_neg taken, LevelDBStore.remove, ok]
          rfl
        exact done ▸ .removeSubfile ok found
    · have refused : ns.call io (.removeSubfile parent subfile) =
          .ok (.systemError ENOENT, ns) := by
        simp only [call, Namespace.removeSubfile, found, if_pos listed]
      exact refused ▸ .refused rfl trivial

theorem outcome_setattr (path : Str) (info : RpcFileInfo) :
    Outcome ns io (.setattr path info) (ns.call io (.setattr path info)) := by
  cases found : ns.metadataMap[path]? with
  | none =>
    have refused : ns.call io (.setattr path info) = .ok (.systemError ENOENT, ns) := by
      simp only [call, Namespace.setattr, found]
    have idle : ns.NothingToUndo (.setattr path info) := by
      intro m hm
      cases found.symm.trans hm
    exact refused ▸ .refused rfl idle
  | some m =>
    cases ok : io.ok with
    | false =>
      have failed : ns.call io (.setattr path info) = .ok (io, { ns with
          metadataMap := ns.metadataMap.insert path (FileMetadata.assign m info) }) := by
        simp only [call, Namespace.setattr, found, storeMetadata, put_of_failed ok]
      exact failed ▸ .setattrFailed ok found
    | true =>
      have done : ns.call io (.setattr path info) =
          .ok (io, ns.withMetadata path (FileMetadata.assign m info)) := by
        simp only [call, Namespace.setattr, found, storeMetadata, LevelDBStore.put, ok]
        rfl
      exact done ▸ .setattr ok found

theorem outcome_of_call (h : Consistent ns) (io : Status) (r : Request) :
    Outcome ns io r (ns.call io r) := by
  cases r with
  | create path mode uid gid now => exact outcome_create h path mode uid gid now
  | remove path => exact outcome_remove h path
  | mkdir path mode uid gid now => exact outcome_mkdir h path mode uid gid now
  | rmdir path => exact outcome_rmdir path
  | addSubfile parent subfile => exact outcome_addSubfile parent subfile
  | removeSubfile parent subfile => exact outcome_removeSubfile parent subfile
  | setattr path info => exact outcome_setattr path info

/-! ## Atomicity -/

/-- The request returns, and if its status is an error then nothing has changed. -/
def Atomic (ns : Namespace) (io : Status) (r : Request) : Prop :=
  ∃ status ns', ns.call io r = .ok (status, ns') ∧ (status.ok = false → SameData ns ns')

/-- A request that succeeds. -/
theorem atomic_of_ok {r : Request} {status : Status} {ns' : Namespace}
    (returns : ns.call io r = .ok (status, ns')) (ok : status.ok = true) : Atomic ns io r :=
  ⟨status, ns', returns, fun bad => absurd (ok.symm.trans bad) (by decide)⟩

/-- A request to a consistent namespace that answers with an error has changed nothing,
exactly when its write to the store succeeds or it had nothing to undo. -/
theorem atomic_iff (h : Consistent ns) (io : Status) (r : Request) :
    Atomic ns io r ↔ io.ok = true ∨ ns.NothingToUndo r := by
  have outcome := outcome_of_call h io r
  generalize returns : ns.call io r = result at outcome
  cases outcome with
  | refused bad idle => exact iff_of_true ⟨_, ns, returns, fun _ => .refl ns⟩ (.inr idle)
  | failed bad idle => exact iff_of_true ⟨_, ns, returns, fun _ => .refl ns⟩ (.inr idle)
  | createFailed bad absent =>
    refine iff_of_false ?_ (not_or.mpr ⟨by simp [bad], (not_mem_iff _ _).mpr absent⟩)
    rintro ⟨status, ns', returns', -⟩
    cases returns.symm.trans returns'
  | setattrFailed bad found =>
    simp only [bad, NothingToUndo, found, Option.some.injEq, forall_eq',
      ← insert_eq_self_iff found, Bool.false_eq_true, false_or]
    constructor
    · rintro ⟨status, ns', returns', same⟩
      cases returns.symm.trans returns'
      exact (same bad).metadataMap
    · exact fun same => ⟨io, _, returns, fun _ => ⟨rfl, rfl, same, rfl⟩⟩
  | create ok => exact iff_of_true (atomic_of_ok returns ok) (.inl ok)
  | setattr ok => exact iff_of_true (atomic_of_ok returns ok) (.inl ok)
  | remove ok => exact iff_of_true (atomic_of_ok returns rfl) (.inl ok)
  | mkdir ok => exact iff_of_true (atomic_of_ok returns rfl) (.inl ok)
  | rmdir ok => exact iff_of_true (atomic_of_ok returns rfl) (.inl ok)
  | addSubfile ok => exact iff_of_true (atomic_of_ok returns rfl) (.inl ok)
  | removeSubfile ok => exact iff_of_true (atomic_of_ok returns rfl) (.inl ok)

end Calls

section Example

attribute [local instance] Posix.fsPath Md5.pathHash BinaryProtocol.fileMetadataThrift

/-- A namespace with one file. -/
def oneFile : Namespace :=
  withFile { nextObjId := 5 } "/a".toList (newFile 5 0o644 1 1 0)

theorem consistent_oneFile : Consistent oneFile :=
  (Consistent.empty 5).withFile ExtTreeMap.getElem?_empty (not_isDir_regular _)
    ExtTreeMap.getElem?_empty

def ioError : Status := ⟨-5, "IO error"⟩

theorem atomic_mkdir_ioError : Atomic oneFile ioError (.mkdir "/d".toList 0o755 0 0 0) :=
  (atomic_iff consistent_oneFile ioError _).mpr (.inr trivial)

/-- The new owner is in memory although the store has the old one. -/
theorem not_atomic_setattr_ioError : Consistent oneFile ∧
    ¬ Atomic oneFile ioError (.setattr "/a".toList { uid := some 7 }) := by
  refine ⟨consistent_oneFile, fun atomic => ?_⟩
  have found : oneFile.metadataMap["/a".toList]? = some (newFile 5 0o644 1 1 0) := by
    simp [oneFile]
  have changed : FileMetadata.assign (newFile 5 0o644 1 1 0) { uid := some 7 } ≠
      newFile 5 0o644 1 1 0 := by decide
  obtain ⟨status, ns', returns, same⟩ := atomic
  have outcome := outcome_of_call consistent_oneFile ioError
    (.setattr "/a".toList { uid := some 7 })
  rw [returns] at outcome
  cases outcome with
  | refused bad idle => exact changed (idle _ found)
  | failed bad idle => exact changed (idle _ found)
  | setattrFailed bad found' =>
    obtain rfl := Option.some.inj (found.symm.trans found')
    exact changed ((insert_eq_self_iff found).mp (same bad).metadataMap)
  | setattr ok => cases ok

end Example

end Vsfs.Masterd.Namespace

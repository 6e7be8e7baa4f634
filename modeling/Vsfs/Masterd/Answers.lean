import Vsfs.Masterd.Effects
import Vsfs.Masterd.MasterController

/-!
# Answers of a master

What a request does to the namespace of a master, and what a client may conclude from the
answer: a refusal has a code other than zero and leaves the master as it was, and a success
has made exactly the change that was asked for.
-/

namespace Vsfs.Masterd.MasterServer

open Std FiniteMap Namespace

/-- The request was refused and nothing changed. -/
def Refused {α : Type} (mc : MasterController) (answer : Except RpcInvalidOp α)
    (mc' : MasterController) : Prop :=
  (∃ ouch, answer = .error ouch ∧ ouch.what ≠ 0) ∧ mc' = mc

/-- The master with another namespace. -/
@[simps] def withNamespace (mc : MasterController) (ns : Namespace) : MasterController where
  indexNamespace := mc.indexNamespace
  indexPartitionManager := mc.indexPartitionManager
  «namespace» := ns

theorem refused_checkStatus {α : Type} {mc : MasterController} (status : Status) (a : α)
    (h : status.error ≠ 0) : Refused mc (checkStatus status a) mc := by
  have failed : status.ok = false := by simpa [Status.ok] using h
  exact ⟨⟨⟨status.error, status.message⟩, by simp [checkStatus, failed], h⟩, rfl⟩

variable [FsPath] [PathHash] [ThriftSerialize FileMetadata] [ThriftSerialize IndexNamespaceNode]

/-- The request to the namespace that a call on the master can lead to. -/
inductive Issues (now : Double) : {α : Type} → MasterRpc α → Request → Prop where
  | mkdir {path : Str} {info : RpcFileInfo} (valid : MasterController.isValidPath path = true) :
      Issues now (.mkdir path info) (.mkdir path ((info.mode.getD 0).setWidth 32)
        ((info.uid.getD 0).setWidth 32) ((info.gid.getD 0).setWidth 32) now)
  | rmdir {path : Str} : Issues now (.rmdir path) (.rmdir path)
  | addSubfile {parent subfile : Str} (valid : MasterController.isValidPath parent = true) :
      Issues now (.addSubfile parent subfile) (.addSubfile parent subfile)
  | removeSubfile {parent subfile : Str} :
      Issues now (.removeSubfile parent subfile) (.removeSubfile parent subfile)
  | create {path : Str} {mode uid gid : BitVec 64}
      (valid : MasterController.isValidPath path = true) :
      Issues now (.create path mode uid gid)
        (.create path (mode.setWidth 32) (uid.setWidth 32) (gid.setWidth 32) now)
  | remove {path : Str} : Issues now (.remove path) (.remove path)
  | setattr {path : Str} {info : RpcFileInfo} : Issues now (.setattr path info) (.setattr path info)
  | createIndex {index : IndexCreateRequest} :
      Issues now (.createIndex index) (.mkdir (PathUtil.indexPath index.root index.name)
        (index.mode.setWidth 32) (index.uid.setWidth 32) (index.gid.setWidth 32) now)

omit [PathHash] in
theorem namespace_of_createIndex {mc mc' : MasterController} {now : Double}
    {index : IndexCreateRequest} {status : Status}
    (h : mc.createIndex .OK .OK .OK now index = .ok (status, mc')) :
    mc'.namespace = mc.namespace ∨
      mc'.namespace = (mc.namespace.mkdir .OK now (PathUtil.indexPath index.root index.name)
        (index.mode.setWidth 32) (index.uid.setWidth 32) (index.gid.setWidth 32)).2 := by
  simp only [MasterController.createIndex, bind, Except.bind, pure, Except.pure] at h
  split at h
  · cases h
  · split at h
    · cases h
      exact .inl rfl
    · split at h
      · split at h
        · cases h
        · cases h
          exact .inr rfl
      · cases h
        exact .inr rfl

omit [PathHash] [ThriftSerialize FileMetadata] in
theorem namespace_of_removeIndex {mc mc' : MasterController} {root name : Str} {status : Status}
    (h : mc.removeIndex .OK .OK root name = .ok (status, mc')) :
    mc'.namespace = mc.namespace := by
  simp only [MasterController.removeIndex, bind, Except.bind, pure, Except.pure] at h
  split at h
  · cases h
  · cases h
    rfl

/-- What a call does to the namespace of the master. -/
theorem namespace_of_handle {mc mc' : MasterController} {now : Double} {α : Type}
    {rpc : MasterRpc α} {answer : Except RpcInvalidOp α}
    (h : handle mc now rpc = .ok (answer, mc')) :
    mc'.namespace = mc.namespace ∨
      ∃ r, Issues now rpc r ∧ Effect mc.namespace r mc'.namespace := by
  cases rpc with
  | mkdir path info =>
    by_cases valid : MasterController.isValidPath path = true
    · simp only [handle, MasterController.mkdir, valid] at h
      cases h
      exact .inr ⟨_, .mkdir valid, effect_of_step rfl⟩
    · simp only [handle, MasterController.mkdir, valid] at h
      cases h
      exact .inl rfl
  | rmdir path =>
    cases h
    exact .inr ⟨_, .rmdir, effect_of_step rfl⟩
  | addSubfile parent subfile =>
    by_cases valid : MasterController.isValidPath parent = true
    · simp only [handle, MasterController.addSubfile, valid] at h
      cases h
      exact .inr ⟨_, .addSubfile valid, effect_of_step rfl⟩
    · simp only [handle, MasterController.addSubfile, valid] at h
      cases h
      exact .inl rfl
  | removeSubfile parent subfile =>
    cases h
    exact .inr ⟨_, .removeSubfile, effect_of_step rfl⟩
  | create path mode uid gid =>
    by_cases valid : MasterController.isValidPath path = true
    · cases hc : mc.namespace.create .OK now path (mode.setWidth 32) (uid.setWidth 32)
        (gid.setWidth 32) with
      | error e =>
        simp [handle, MasterController.create, valid, hc, bind, Except.bind] at h
      | ok out =>
        simp only [handle, MasterController.create, valid, hc, bind, Except.bind] at h
        cases h
        refine .inr ⟨_, .create valid, effect_of_step ?_⟩
        simp only [step, hc]
        rfl
    · simp only [handle, MasterController.create, valid] at h
      cases h
      exact .inl rfl
  | remove path =>
    cases hr : mc.namespace.remove .OK path with
    | error e => simp [handle, MasterController.remove, hr, bind, Except.bind] at h
    | ok out =>
      simp only [handle, MasterController.remove, hr, bind, Except.bind] at h
      cases h
      refine .inr ⟨_, .remove, effect_of_step ?_⟩
      simp only [step, hr]
      rfl
  | setattr path info =>
    cases h
    exact .inr ⟨_, .setattr, effect_of_step rfl⟩
  | createIndex index =>
    cases hc : mc.createIndex .OK .OK .OK now index with
    | error e => simp [handle, hc, bind, Except.bind] at h
    | ok out =>
      simp only [handle, hc, bind, Except.bind] at h
      cases h
      rcases namespace_of_createIndex hc with same | made
      · exact .inl same
      · exact .inr ⟨_, .createIndex, by rw [made]; exact effect_of_step rfl⟩
  | removeIndex root name =>
    cases hr : mc.removeIndex .OK .OK root name with
    | error e => simp [handle, hr, bind, Except.bind] at h
    | ok out =>
      simp only [handle, hr, bind, Except.bind] at h
      cases h
      exact .inl (namespace_of_removeIndex hr)
  | _ =>
    cases h
    exact .inl rfl

/-- A master stays tidy. -/
theorem tidy_of_handle {mc mc' : MasterController} {now : Double} {α : Type}
    {rpc : MasterRpc α} {answer : Except RpcInvalidOp α}
    (h : handle mc now rpc = .ok (answer, mc')) (tidy : Tidy mc.namespace) :
    Tidy mc'.namespace := by
  rcases namespace_of_handle h with same | ⟨r, -, e⟩
  · rwa [same]
  · exact tidy.effect e

/-! ## One request at a time -/

variable {mc mc' : MasterController} {now : Double}

theorem answer_create {path : Str} {mode uid gid : BitVec 64}
    {answer : Except RpcInvalidOp ObjectId}
    (h : handle mc now (.create path mode uid gid) = .ok (answer, mc')) :
    Refused mc answer mc' ∨
      (mc.namespace.metadataMap[path]? = none ∧ (∃ oid, answer = .ok oid) ∧
        mc' = withNamespace mc (mc.namespace.withFile path
          (newFile (mc.namespace.nextId path) (mode.setWidth 32) (uid.setWidth 32)
            (gid.setWidth 32) now))) := by
  by_cases valid : MasterController.isValidPath path = true
  · cases found : mc.namespace.metadataMap[path]? with
    | none =>
      right
      by_cases clash : mc.namespace.idToPathMap[mc.namespace.nextId path]? = some path
      · simp [handle, MasterController.create, valid, create_absent _ _ _ _ found, clash, bind,
          Except.bind] at h
      · simp only [handle, MasterController.create, valid, create_absent _ _ _ _ found, clash] at h
        cases h
        exact ⟨rfl, ⟨_, rfl⟩, rfl⟩
    | some metadata =>
      left
      have old : path ∈ mc.namespace.metadataMap := (mem_iff_exists _ _).mpr ⟨_, found⟩
      simp only [handle, MasterController.create, valid, create, old, if_true] at h
      cases h
      exact refused_checkStatus (.systemError EEXIST) _ (by decide)
  · left
    simp only [handle, MasterController.create, valid] at h
    cases h
    exact refused_checkStatus MasterController.notAbsolute _ (by decide)

theorem answer_remove {path : Str} {answer : Except RpcInvalidOp ObjectId}
    (h : handle mc now (.remove path) = .ok (answer, mc')) :
    (Refused mc answer mc' ∧ ∀ m, mc.namespace.metadataMap[path]? = some m → S_ISDIR m.mode) ∨
      ∃ m, mc.namespace.metadataMap[path]? = some m ∧ ¬ S_ISDIR m.mode ∧
        mc.namespace.idToPathMap[m.objectId]? = some path ∧ (∃ oid, answer = .ok oid) ∧
        mc' = withNamespace mc (mc.namespace.withoutFile path m.objectId) := by
  cases found : mc.namespace.metadataMap[path]? with
  | none =>
    left
    simp only [handle, MasterController.remove, remove, found] at h
    cases h
    exact ⟨refused_checkStatus (.systemError ENOENT) _ (by decide), by simp⟩
  | some m =>
    by_cases dir : S_ISDIR m.mode
    · left
      simp only [handle, MasterController.remove, remove, found, dir, if_true] at h
      cases h
      refine ⟨refused_checkStatus (.systemError EISDIR) _ (by decide), fun m' hm' => ?_⟩
      exact Option.some.inj hm' ▸ dir
    · right
      by_cases mapped : mc.namespace.idToPathMap[m.objectId]? = some path
      · simp only [handle, MasterController.remove, remove_file found dir, mapped, if_true] at h
        cases h
        exact ⟨m, rfl, dir, mapped, ⟨_, rfl⟩, rfl⟩
      · simp [handle, MasterController.remove, remove_file found dir, mapped, bind,
          Except.bind] at h

theorem answer_mkdir {path : Str} {info : RpcFileInfo} {answer : Except RpcInvalidOp Unit}
    (h : handle mc now (.mkdir path info) = .ok (answer, mc')) :
    Refused mc answer mc' ∨
      (mc.namespace.metadataMap[path]? = none ∧ answer = .ok () ∧
        mc' = withNamespace mc (mc.namespace.withDirectory path
          (newDirectory ((info.mode.getD 0).setWidth 32) ((info.uid.getD 0).setWidth 32)
            ((info.gid.getD 0).setWidth 32) now))) := by
  by_cases valid : MasterController.isValidPath path = true
  · cases found : mc.namespace.metadataMap[path]? with
    | none =>
      right
      simp only [handle, MasterController.mkdir, valid, mkdir_absent _ _ _ _ found] at h
      cases h
      exact ⟨rfl, rfl, rfl⟩
    | some metadata =>
      left
      have old : path ∈ mc.namespace.metadataMap := (mem_iff_exists _ _).mpr ⟨_, found⟩
      simp only [handle, MasterController.mkdir, valid, mkdir, old, if_true] at h
      cases h
      exact refused_checkStatus (.systemError EEXIST) _ (by decide)
  · left
    simp only [handle, MasterController.mkdir, valid] at h
    cases h
    exact refused_checkStatus MasterController.notAbsolute _ (by decide)

theorem answer_rmdir {path : Str} {answer : Except RpcInvalidOp Unit}
    (h : handle mc now (.rmdir path) = .ok (answer, mc')) :
    Refused mc answer mc' ∨
      ∃ dir, mc.namespace.directories[path]? = some dir ∧ dir.subfiles.isEmpty = true ∧
        answer = .ok () ∧ mc' = withNamespace mc (mc.namespace.withoutDirectory path) := by
  cases found : mc.namespace.directories[path]? with
  | none =>
    left
    simp only [handle, MasterController.rmdir, rmdir, found] at h
    cases h
    exact refused_checkStatus (.systemError ENOENT) _ (by decide)
  | some dir =>
    by_cases empty : dir.subfiles.isEmpty = true
    · right
      simp only [handle, MasterController.rmdir, rmdir_empty found empty] at h
      cases h
      exact ⟨dir, rfl, empty, rfl, rfl⟩
    · left
      simp only [handle, MasterController.rmdir, rmdir, found, empty] at h
      cases h
      exact refused_checkStatus (.systemError ENOTEMPTY) _ (by decide)

theorem answer_addSubfile {parent subfile : Str} {answer : Except RpcInvalidOp Unit}
    (h : handle mc now (.addSubfile parent subfile) = .ok (answer, mc')) :
    Refused mc answer mc' ∨
      ∃ dir, mc.namespace.directories[parent]? = some dir ∧ subfile ∉ dir.subfiles ∧
        answer = .ok () ∧ mc' = withNamespace mc (mc.namespace.withSubfile parent dir subfile) := by
  by_cases valid : MasterController.isValidPath parent = true
  · cases found : mc.namespace.directories[parent]? with
    | none =>
      left
      simp only [handle, MasterController.addSubfile, valid, addSubfile, found] at h
      cases h
      exact refused_checkStatus (.systemError ENOENT) _ (by decide)
    | some dir =>
      by_cases listed : subfile ∈ dir.subfiles
      · left
        simp only [handle, MasterController.addSubfile, valid, addSubfile, found, listed,
          if_true] at h
        cases h
        exact refused_checkStatus (.systemError EEXIST) _ (by decide)
      · right
        simp only [handle, MasterController.addSubfile, valid, addSubfile_new found listed] at h
        cases h
        exact ⟨dir, rfl, listed, rfl, rfl⟩
  · left
    simp only [handle, MasterController.addSubfile, valid] at h
    cases h
    exact refused_checkStatus MasterController.notAbsolute _ (by decide)

theorem answer_removeSubfile {parent subfile : Str} {answer : Except RpcInvalidOp Unit}
    (h : handle mc now (.removeSubfile parent subfile) = .ok (answer, mc')) :
    Refused mc answer mc' ∨
      ∃ dir, mc.namespace.directories[parent]? = some dir ∧ subfile ∈ dir.subfiles ∧
        answer = .ok () ∧
        mc' = withNamespace mc (mc.namespace.withoutSubfile parent dir subfile) := by
  cases found : mc.namespace.directories[parent]? with
  | none =>
    left
    simp only [handle, MasterController.removeSubfile, removeSubfile, found] at h
    cases h
    exact refused_checkStatus (.systemError ENOENT) _ (by decide)
  | some dir =>
    by_cases listed : subfile ∈ dir.subfiles
    · right
      simp only [handle, MasterController.removeSubfile, removeSubfile_listed found listed] at h
      cases h
      exact ⟨dir, rfl, listed, rfl, rfl⟩
    · left
      simp only [handle, MasterController.removeSubfile, removeSubfile, found, listed,
        not_false_eq_true, if_true] at h
      cases h
      exact refused_checkStatus (.systemError ENOENT) _ (by decide)

/-- What can be read is a directory. -/
theorem answer_readdir {path : Str} {files : List Str}
    (h : handle mc now (.readdir path) = .ok (.ok files, mc')) :
    path ∈ mc.namespace.directories := by
  cases found : mc.namespace.directories[path]? with
  | none =>
    simp only [handle, MasterController.readdir, Namespace.readdir, found] at h
    split at h <;> cases h
  | some dir => exact (mem_iff_exists _ _).mpr ⟨dir, found⟩

theorem answer_getattr {path : Str} {answer : Except RpcInvalidOp RpcFileInfo}
    (h : handle mc now (.getattr path) = .ok (answer, mc')) :
    mc' = mc ∧ ∀ info, answer = .ok info → ∃ m, mc.namespace.metadataMap[path]? = some m ∧
      info.mode = some (m.mode.signExtend 64) := by
  cases found : mc.namespace.metadataMap[path]? with
  | none =>
    simp only [handle, Namespace.getattr, found] at h
    cases h
    exact ⟨rfl, fun info hi => by cases hi⟩
  | some m =>
    simp only [handle, Namespace.getattr, found] at h
    cases h
    exact ⟨rfl, fun info hi => ⟨m, rfl, by cases hi; rfl⟩⟩

omit [PathHash] [FsPath] [ThriftSerialize FileMetadata] in
/-- A name that was inserted is registered and was not before; the others stay. -/
theorem insert_ok {idx idx' : IndexNamespace} {root name : Str} {status : Status}
    (h : idx.insert .OK root name = .ok (status, idx')) (ok : status.ok = true) :
    ¬ idx.Registered root name ∧ idx'.Registered root name ∧
      ∀ r n, idx.Registered r n → idx'.Registered r n := by
  unfold IndexNamespace.insert at h
  cases clean : IndexNamespace.cleanupPath root with
  | error e => simp [clean, bind, Except.bind] at h
  | ok key =>
    simp only [clean, bind, Except.bind, pure, Except.pure] at h
    split at h
    · cases h
      cases ok
    · rename_i new
      cases h
      refine ⟨?_, ⟨key, _, clean, by rw [getElem?_insert, if_pos rfl], by simp⟩, ?_⟩
      · rintro ⟨key', node, clean', found, listed⟩
        cases clean.symm.trans clean'
        exact new (by simpa [found] using listed)
      · rintro r n ⟨key', node, clean', found, listed⟩
        by_cases same : key = key'
        · subst same
          refine ⟨key, _, clean', by rw [getElem?_insert, if_pos rfl], ?_⟩
          simp [found, listed]
        · exact ⟨key', node, clean', by rw [getElem?_insert, if_neg same, found], listed⟩

omit [PathHash] [FsPath] [ThriftSerialize FileMetadata] in
theorem insert_not_ok {idx idx' : IndexNamespace} {root name : Str} {status : Status}
    (h : idx.insert .OK root name = .ok (status, idx')) (bad : status.ok = false) : idx' = idx := by
  unfold IndexNamespace.insert at h
  cases clean : IndexNamespace.cleanupPath root with
  | error e => simp [clean, bind, Except.bind] at h
  | ok key =>
    simp only [clean, bind, Except.bind, pure, Except.pure] at h
    split at h
    · cases h
      rfl
    · cases h
      cases bad

omit [PathHash] [FsPath] [ThriftSerialize FileMetadata] in
theorem not_registered_of_remove {idx idx' : IndexNamespace} {root name : Str} {status : Status}
    (h : idx.remove .OK root name = .ok (status, idx')) : ¬ idx'.Registered root name := by
  rintro ⟨key, node, clean, found, listed⟩
  simp only [IndexNamespace.remove, clean, bind, Except.bind, pure, Except.pure] at h
  cases before : idx.nodes[key]? with
  | none =>
    simp only [before, Except.ok.injEq, Prod.mk.injEq] at h
    obtain ⟨-, rfl⟩ := h
    cases before.symm.trans found
  | some node' =>
    simp only [before] at h
    split at h
    · rename_i new
      cases h
      cases before.symm.trans found
      exact new listed
    · cases h
      rw [getElem?_insert, if_pos rfl] at found
      cases found
      simp at listed

/-- An index is created by a name that is inserted and a directory that is made. -/
theorem inserted_of_createIndex {index : IndexCreateRequest}
    (h : handle mc now (.createIndex index) = .ok (.ok (), mc')) :
    (∃ status, status.ok = true ∧ mc.indexNamespace.insert .OK index.root index.name =
        .ok (status, mc'.indexNamespace)) ∧
      mc'.namespace = mc.namespace.withDirectory (PathUtil.indexPath index.root index.name)
        (newDirectory (index.mode.setWidth 32) (index.uid.setWidth 32) (index.gid.setWidth 32)
          now) := by
  cases inserted : mc.indexNamespace.insert .OK index.root index.name with
  | error e => simp [handle, MasterController.createIndex, inserted, bind, Except.bind] at h
  | ok out =>
    obtain ⟨status, idx⟩ := out
    cases ok : status.ok with
    | false =>
      simp [handle, MasterController.createIndex, inserted, ok, bind, Except.bind, pure,
        Except.pure, checkStatus] at h
    | true =>
      cases found : mc.namespace.metadataMap[PathUtil.indexPath index.root index.name]? with
      | none =>
        simp only [handle, MasterController.createIndex, inserted, ok, bind, Except.bind, pure,
          Except.pure, mkdir_absent _ _ _ _ found] at h
        cases h
        exact ⟨⟨status, ok, rfl⟩, rfl⟩
      | some m =>
        -- The directory exists, so the request ends in a refusal, if it ends.
        have old : PathUtil.indexPath index.root index.name ∈ mc.namespace.metadataMap :=
          (mem_iff_exists _ _).mpr ⟨m, found⟩
        simp only [handle, MasterController.createIndex, inserted, ok, bind, Except.bind, pure,
          Except.pure, mkdir, old, if_true] at h
        cases removed : idx.remove .OK index.root index.name with
        | error e => simp [removed, Status.systemError, Status.ok, EEXIST] at h
        | ok out =>
          simp [removed, Status.systemError, Status.ok, EEXIST, checkStatus] at h

/-- An index that was created is registered and has a directory. -/
theorem answer_createIndex {index : IndexCreateRequest}
    (h : handle mc now (.createIndex index) = .ok (.ok (), mc')) :
    ¬ mc.indexNamespace.Registered index.root index.name ∧
      mc'.indexNamespace.Registered index.root index.name ∧
      (∀ r n, mc.indexNamespace.Registered r n → mc'.indexNamespace.Registered r n) ∧
      mc'.namespace = mc.namespace.withDirectory (PathUtil.indexPath index.root index.name)
        (newDirectory (index.mode.setWidth 32) (index.uid.setWidth 32) (index.gid.setWidth 32)
          now) := by
  obtain ⟨⟨status, ok, inserted⟩, made⟩ := inserted_of_createIndex h
  obtain ⟨new, registered, others⟩ := insert_ok inserted ok
  exact ⟨new, registered, others, made⟩

/-- A master that refuses an index has taken back what it had begun. -/
theorem refused_createIndex {index : IndexCreateRequest} {ouch : RpcInvalidOp}
    (h : handle mc now (.createIndex index) = .ok (.error ouch, mc')) :
    mc'.namespace = mc.namespace ∧
      (mc'.indexNamespace.Registered index.root index.name ↔
        mc.indexNamespace.Registered index.root index.name) := by
  cases inserted : mc.indexNamespace.insert .OK index.root index.name with
  | error e => simp [handle, MasterController.createIndex, inserted, bind, Except.bind] at h
  | ok out =>
    obtain ⟨status, idx⟩ := out
    cases ok : status.ok with
    | false =>
      simp only [handle, MasterController.createIndex, inserted, ok, bind, Except.bind, pure,
        Except.pure, Bool.not_false, if_true, Except.ok.injEq, Prod.mk.injEq] at h
      obtain ⟨-, rfl⟩ := h
      exact ⟨rfl, by rw [insert_not_ok inserted ok]⟩
    | true =>
      cases found : mc.namespace.metadataMap[PathUtil.indexPath index.root index.name]? with
      | none =>
        simp only [handle, MasterController.createIndex, inserted, ok, bind, Except.bind, pure,
          Except.pure, mkdir_absent _ _ _ _ found] at h
        cases h
      | some m =>
        -- The directory exists, so the name is taken out again.
        have old : PathUtil.indexPath index.root index.name ∈ mc.namespace.metadataMap :=
          (mem_iff_exists _ _).mpr ⟨m, found⟩
        simp only [handle, MasterController.createIndex, inserted, ok, bind, Except.bind, pure,
          Except.pure, mkdir, old, if_true] at h
        cases removed : idx.remove .OK index.root index.name with
        | error e => simp [removed, Status.systemError, Status.ok, EEXIST] at h
        | ok out =>
          obtain ⟨status', idx'⟩ := out
          simp [removed, Status.systemError, Status.ok, EEXIST, checkStatus] at h
          obtain ⟨-, rfl⟩ := h
          exact ⟨rfl, iff_of_false (not_registered_of_remove removed) (insert_ok inserted ok).1⟩

end Vsfs.Masterd.MasterServer

import Mathlib.Algebra.Group.Pi.Basic
import Vsfs.Client.Servers

/-!
# The balance of records and listings

Every path below the root has a record or not, and is listed by its parent or not. The
balance counts the first minus the second. A request to a master changes the balance of one
path only, and `Moves` says by how much.
-/

namespace Vsfs.Client

open Std Masterd Indexd Index FiniteMap Namespace

/-- One if it holds, else zero. -/
noncomputable def ind (P : Prop) : ℤ := open Classical in if P then 1 else 0

theorem ind_of {P : Prop} (h : P) : ind P = 1 := if_pos h

theorem ind_not {P : Prop} (h : ¬ P) : ind P = 0 := if_neg h

/-- The namespace lists `file` in the directory `parent`. -/
def Lists (ns : Namespace) (parent file : Str) : Prop :=
  ∃ dir, ns.directories[parent]? = some dir ∧ file ∈ dir.subfiles

/-- Another listing of a directory changes nothing for the names that it does not touch. -/
theorem lists_of_others {ns ns' : Namespace} {dir dir' : Directory} {p name : Str}
    (found : ns.directories[p]? = some dir)
    (kept : ∀ {file : Str}, file ≠ name → (file ∈ dir'.subfiles ↔ file ∈ dir.subfiles))
    (relisted : ns'.directories = ns.directories.insert p dir') {parent file : Str}
    (other : ¬ (parent = p ∧ file = name)) : Lists ns' parent file ↔ Lists ns parent file := by
  by_cases same : p = parent
  · subst same
    have untouched : file ≠ name := fun same => other ⟨rfl, same⟩
    simp [Lists, relisted, found, kept untouched]
  · simp [Lists, relisted, same]

variable {K : Type} [LinearOrder K] [FsPath] [PathHash] [ConsistentHashMap]

theorem listed_iff {s : Servers K} {c : VSFSRpcClient} {path : Str} {node : NodeInfo}
    (home : c.masterMap.getByPath (FsPath.parentPath path) = (.OK, some node)) :
    s.Listed c path ↔
      Lists (s.masters node.address).namespace (FsPath.parentPath path) (FsPath.filename path) := by
  constructor
  · rintro ⟨node', dir, home', found, entry⟩
    cases home.symm.trans home'
    exact ⟨dir, found, entry⟩
  · rintro ⟨dir, found, entry⟩
    exact ⟨node, dir, home, found, entry⟩

/-- The record of a path minus its listing. -/
noncomputable def weight (c : VSFSRpcClient) (s : Servers K) (path : Str) : ℤ :=
  ind (s.Recorded c path) - ind (s.Listed c path)

/-- From `s` to `s'` the weight of `q` changes by `δ`, and no other. -/
def Moves (c : VSFSRpcClient) (q : Str) (δ : ℤ) (s s' : Servers K) : Prop :=
  ∀ p, Normal p → p ≠ ['/'] → weight c s' p = weight c s p + if p = q then δ else 0

theorem Moves.refl (c : VSFSRpcClient) (q : Str) (s : Servers K) : Moves c q 0 s s := by
  intro p _ _
  simp

omit [FsPath] in
theorem recorded_congr {c : VSFSRpcClient} {s s' : Servers K} {p : Str}
    (h : ∀ a, p ∈ (s'.masters a).namespace.metadataMap ↔
      p ∈ (s.masters a).namespace.metadataMap) : s'.Recorded c p ↔ s.Recorded c p :=
  exists_congr fun node => and_congr_right fun _ => h node.address

theorem listed_congr {c : VSFSRpcClient} {s s' : Servers K} {p : Str}
    (h : ∀ a, Lists (s'.masters a).namespace (FsPath.parentPath p) (FsPath.filename p) ↔
      Lists (s.masters a).namespace (FsPath.parentPath p) (FsPath.filename p)) :
    s'.Listed c p ↔ s.Listed c p := by
  constructor
  · rintro ⟨node, dir, home, found, entry⟩
    obtain ⟨dir', found', entry'⟩ := (h node.address).mp ⟨dir, found, entry⟩
    exact ⟨node, dir', home, found', entry'⟩
  · rintro ⟨node, dir, home, found, entry⟩
    obtain ⟨dir', found', entry'⟩ := (h node.address).mpr ⟨dir, found, entry⟩
    exact ⟨node, dir', home, found', entry'⟩

/-! ## Changes of one master -/

section Changes

variable {c : VSFSRpcClient} {q : Str} {node : NodeInfo} {δ : ℤ} {s : Servers K} {ns : Namespace}

/-- The record of `q` changes on its master, and no listing does. -/
theorem moves_record (home : c.masterMap.getByPath q = (.OK, some node))
    (others : ∀ p, p ≠ q →
      (p ∈ ns.metadataMap ↔ p ∈ (s.masters node.address).namespace.metadataMap))
    (listing : ∀ parent file,
      Lists ns parent file ↔ Lists (s.masters node.address).namespace parent file)
    (change : ind (q ∈ ns.metadataMap) =
      ind (q ∈ (s.masters node.address).namespace.metadataMap) + δ) :
    Moves c q δ s (s.setMaster node.address
      (MasterServer.withNamespace (s.masters node.address) ns)) := by
  intro p _ _
  have listed : Servers.Listed (s.setMaster node.address
      (MasterServer.withNamespace (s.masters node.address) ns)) c p ↔ s.Listed c p := by
    refine listed_congr fun a => ?_
    by_cases same : a = node.address
    · subst same
      simpa using listing _ _
    · simp [same]
  unfold weight
  rw [listed]
  by_cases hp : p = q
  · subst hp
    rw [Servers.recorded_iff home, Servers.recorded_iff home]
    simp only [Servers.setMaster_masters, Function.update_self,
      MasterServer.withNamespace_namespace, change, if_true]
    omega
  · have recorded : Servers.Recorded (s.setMaster node.address
        (MasterServer.withNamespace (s.masters node.address) ns)) c p ↔ s.Recorded c p := by
      refine recorded_congr fun a => ?_
      by_cases same : a = node.address
      · subst same
        simpa using others p hp
      · simp [same]
    rw [recorded, if_neg hp]
    omega

variable [LawfulFsPath]

/-- The listing of `q` changes on the master of its parent, and no record does. -/
theorem moves_listing (normal : Normal q) (below : q ≠ ['/'])
    (home : c.masterMap.getByPath (FsPath.parentPath q) = (.OK, some node))
    (records : ns.metadataMap = (s.masters node.address).namespace.metadataMap)
    (others : ∀ parent file, ¬ (parent = FsPath.parentPath q ∧ file = FsPath.filename q) →
      (Lists ns parent file ↔ Lists (s.masters node.address).namespace parent file))
    (change : ind (Lists ns (FsPath.parentPath q) (FsPath.filename q)) + δ =
      ind (Lists (s.masters node.address).namespace (FsPath.parentPath q) (FsPath.filename q))) :
    Moves c q δ s (s.setMaster node.address
      (MasterServer.withNamespace (s.masters node.address) ns)) := by
  intro p hn hr
  have recorded : Servers.Recorded (s.setMaster node.address
      (MasterServer.withNamespace (s.masters node.address) ns)) c p ↔ s.Recorded c p := by
    refine recorded_congr fun a => ?_
    by_cases same : a = node.address
    · subst same
      simp [records]
    · simp [same]
  unfold weight
  rw [recorded]
  by_cases hp : p = q
  · subst hp
    rw [listed_iff home, listed_iff home]
    simp only [Servers.setMaster_masters, Function.update_self,
      MasterServer.withNamespace_namespace, if_true]
    omega
  · have listed : Servers.Listed (s.setMaster node.address
        (MasterServer.withNamespace (s.masters node.address) ns)) c p ↔ s.Listed c p := by
      refine listed_congr fun a => ?_
      by_cases same : a = node.address
      · subst same
        simp only [Servers.setMaster_masters, Function.update_self,
          MasterServer.withNamespace_namespace]
        refine others _ _ fun ⟨parent, file⟩ => hp ?_
        rw [hn.eq_child hr, normal.eq_child below, parent, file]
      · simp [same]
    rw [listed, if_neg hp]
    omega

end Changes

/-! ## Requests

A request that is refused changes nothing. -/

section Requests

variable [KeyTypes K] [ThriftSerialize FileMetadata] [ThriftSerialize IndexNamespaceNode]
  {c : VSFSRpcClient} {q : Str} {node : NodeInfo} {s s' : Servers K}

/-- The request was refused, and no weight changed. -/
def Refusal {α : Type} (c : VSFSRpcClient) (q : Str) (answer : Except RpcInvalidOp α)
    (s s' : Servers K) : Prop :=
  (∃ ouch, answer = .error ouch ∧ ouch.what ≠ 0) ∧ Moves c q 0 s s'

omit [KeyTypes K] [ThriftSerialize FileMetadata] [ThriftSerialize IndexNamespaceNode] in
theorem refusal_of_refused {α : Type} {answer : Except RpcInvalidOp α} {mc : MasterController}
    (c : VSFSRpcClient) (q : Str)
    (refused : MasterServer.Refused (s.masters node.address) answer mc) :
    Refusal c q answer s (s.setMaster node.address mc) := by
  obtain ⟨error, rfl⟩ := refused
  rw [s.setMaster_self]
  exact ⟨error, .refl c q s⟩

theorem create_moves {mode uid gid : BitVec 64} {answer : Except RpcInvalidOp ObjectId}
    (home : c.masterMap.getByPath q = (.OK, some node))
    (h : s.Answers (.master node.address (.create q mode uid gid)) answer s') :
    Refusal c q answer s s' ∨
      (¬ s.Recorded c q ∧ (∃ oid, answer = .ok oid) ∧ Moves c q 1 s s') := by
  obtain ⟨now, mc, handled, rfl⟩ := Servers.answers_master h
  rcases MasterServer.answer_create handled with refused | ⟨absent, done, rfl⟩
  · exact .inl (refusal_of_refused c q refused)
  · have new := (not_mem_iff _ _).mpr absent
    refine .inr ⟨(Servers.recorded_iff home).not.mpr new, done, moves_record home ?_ ?_ ?_⟩
    · intro p hp
      simp [Ne.symm hp]
    · exact fun parent file => Iff.rfl
    · rw [ind_not new, ind_of (by simp)]
      rfl

theorem mkdir_moves {info : RpcFileInfo} {answer : Except RpcInvalidOp Unit}
    (home : c.masterMap.getByPath q = (.OK, some node))
    (tidy : Tidy (s.masters node.address).namespace)
    (h : s.Answers (.master node.address (.mkdir q info)) answer s') :
    Refusal c q answer s s' ∨ (answer = .ok () ∧ Moves c q 1 s s') := by
  obtain ⟨now, mc, handled, rfl⟩ := Servers.answers_master h
  rcases MasterServer.answer_mkdir handled with refused | ⟨absent, done, rfl⟩
  · exact .inl (refusal_of_refused c q refused)
  · have new := (not_mem_iff _ _).mpr absent
    have free : (s.masters node.address).namespace.directories[q]? = none :=
      (not_mem_iff _ _).mp fun known => new (tidy.known known)
    refine .inr ⟨done, moves_record home ?_ ?_ ?_⟩
    · intro p hp
      simp [Ne.symm hp]
    · -- The new directory lists nothing.
      intro parent file
      by_cases same : q = parent
      · subst same
        simp only [Lists, withDirectory_directories, getElem?_insertIfNew, free, and_self,
          if_true, Option.some.injEq, reduceCtorEq, false_and, exists_false, iff_false]
        rintro ⟨dir, rfl, listed⟩
        exact ExtTreeSet.not_mem_empty listed
      · simp [Lists, same]
    · rw [ind_not new, ind_of (by simp)]
      rfl

theorem rmdir_moves {answer : Except RpcInvalidOp Unit}
    (home : c.masterMap.getByPath q = (.OK, some node))
    (tidy : Tidy (s.masters node.address).namespace)
    (h : s.Answers (.master node.address (.rmdir q)) answer s') :
    Refusal c q answer s s' ∨ (answer = .ok () ∧ Moves c q (-1) s s') := by
  obtain ⟨now, mc, handled, rfl⟩ := Servers.answers_master h
  rcases MasterServer.answer_rmdir handled with refused | ⟨dir, found, empty, done, rfl⟩
  · exact .inl (refusal_of_refused c q refused)
  · have old := tidy.known ((mem_iff_exists _ _).mpr ⟨dir, found⟩)
    refine .inr ⟨done, moves_record home ?_ ?_ ?_⟩
    · intro p hp
      simp [Ne.symm hp]
    · -- The directory that goes listed nothing.
      intro parent file
      by_cases same : q = parent
      · subst same
        have none : file ∉ dir.subfiles := by
          rw [ExtTreeSet.isEmpty_iff.mp empty]
          exact ExtTreeSet.not_mem_empty
        simp [Lists, found, none]
      · simp [Lists, same]
    · rw [ind_of old, ind_not (by simp)]
      rfl

/-- The master of a path has a file there. -/
def HasFile (s : Servers K) (address : NodeAddress) (path : Str) : Prop :=
  ∃ m, (s.masters address).namespace.metadataMap[path]? = some m ∧ ¬ S_ISDIR m.mode

instance (s : Servers K) (address : NodeAddress) (path : Str) :
    Decidable (HasFile s address path) :=
  match found : (s.masters address).namespace.metadataMap[path]? with
  | some m => decidable_of_iff (¬ S_ISDIR m.mode) (by simp [HasFile, found])
  | none => .isFalse (by simp [HasFile, found])

theorem remove_moves {answer : Except RpcInvalidOp ObjectId}
    (home : c.masterMap.getByPath q = (.OK, some node))
    (h : s.Answers (.master node.address (.remove q)) answer s') :
    (Refusal c q answer s s' ∧ ¬ HasFile s node.address q) ∨
      (HasFile s node.address q ∧ (∃ oid, answer = .ok oid) ∧ Moves c q (-1) s s') := by
  obtain ⟨now, mc, handled, rfl⟩ := Servers.answers_master h
  rcases MasterServer.answer_remove handled with
    ⟨refused, directory⟩ | ⟨m, found, file, mapped, done, rfl⟩
  · exact .inl ⟨refusal_of_refused c q refused, fun ⟨m, found, file⟩ => file (directory m found)⟩
  · have old := (mem_iff_exists _ _).mpr ⟨m, found⟩
    refine .inr ⟨⟨m, found, file⟩, done, moves_record home ?_ ?_ ?_⟩
    · intro p hp
      simp [Ne.symm hp]
    · exact fun parent file => Iff.rfl
    · rw [ind_of old, ind_not (by simp)]
      rfl

variable [LawfulFsPath]

theorem addSubfile_moves {answer : Except RpcInvalidOp Unit} (normal : Normal q)
    (below : q ≠ ['/']) (home : c.masterMap.getByPath (FsPath.parentPath q) = (.OK, some node))
    (h : s.Answers (.master node.address (.addSubfile (FsPath.parentPath q) (FsPath.filename q)))
      answer s') :
    Refusal c q answer s s' ∨ (answer = .ok () ∧ Moves c q (-1) s s') := by
  obtain ⟨now, mc, handled, rfl⟩ := Servers.answers_master h
  rcases MasterServer.answer_addSubfile handled with refused | ⟨dir, found, new, done, rfl⟩
  · exact .inl (refusal_of_refused c q refused)
  · refine .inr ⟨done, moves_listing normal below home rfl ?_ ?_⟩
    · intro parent file other
      refine lists_of_others found (fun name => ?_) rfl other
      simp [Ne.symm name]
    · rw [ind_not (P := Lists (s.masters node.address).namespace _ _) (by simp [Lists, found, new]),
        ind_of (by simp [Lists])]
      rfl

theorem removeSubfile_moves {answer : Except RpcInvalidOp Unit} (normal : Normal q)
    (below : q ≠ ['/']) (home : c.masterMap.getByPath (FsPath.parentPath q) = (.OK, some node))
    (h : s.Answers
      (.master node.address (.removeSubfile (FsPath.parentPath q) (FsPath.filename q))) answer s') :
    Refusal c q answer s s' ∨ (s.Listed c q ∧ answer = .ok () ∧ Moves c q 1 s s') := by
  obtain ⟨now, mc, handled, rfl⟩ := Servers.answers_master h
  rcases MasterServer.answer_removeSubfile handled with refused | ⟨dir, found, old, done, rfl⟩
  · exact .inl (refusal_of_refused c q refused)
  · have listed : Lists (s.masters node.address).namespace (FsPath.parentPath q)
        (FsPath.filename q) := ⟨dir, found, old⟩
    refine .inr ⟨(listed_iff home).mpr listed, done, moves_listing normal below home rfl ?_ ?_⟩
    · intro parent file other
      refine lists_of_others found (fun name => ?_) rfl other
      simp [Ne.symm name]
    · rw [ind_of listed, ind_not (by simp [Lists])]
      rfl

end Requests

end Vsfs.Client

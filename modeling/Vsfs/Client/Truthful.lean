import Vsfs.Client.Rollback
import Vsfs.Common.Md5
import Vsfs.Rpc.BinaryProtocol

/-!
# Truthful operations

An operation of several RPCs is truthful when it reports a success exactly if its effect is
there, and has changed nothing otherwise. Which attempt fails decides whether `create`,
`mkdir` and `create_index` are.

## Main results

* `multi_rpc_operations_truthful` : the failed attempts after which the three operations
  are truthful.
-/

namespace Vsfs.Client

open Std Program Masterd Indexd Index FiniteMap VSFSRpcClient

variable {K : Type} [LinearOrder K]

/-- The namespace and the registered indices are as before. -/
structure Unchanged (s s' : Servers K) : Prop where
  records : ∀ a, (s'.masters a).namespace.metadataMap = (s.masters a).namespace.metadataMap
  listings : ∀ a, (s'.masters a).namespace.directories = (s.masters a).namespace.directories
  indices : ∀ a, (s'.masters a).indexNamespace.nodes = (s.masters a).indexNamespace.nodes
  partitions : ∀ a, (s'.indexServers a).indexInfoMap = (s.indexServers a).indexInfoMap ∧
    (s'.indexServers a).rangeIndexMap = (s.indexServers a).rangeIndexMap

theorem Unchanged.refl (s : Servers K) : Unchanged s s :=
  ⟨fun _ => rfl, fun _ => rfl, fun _ => rfl, fun _ => ⟨rfl, rfl⟩⟩

/-- A success is reported exactly when the effect is there; else nothing has changed. -/
def Truthful (effect unchanged : Prop) (status : Status) : Prop :=
  (status.ok = true ↔ effect) ∧ (status.ok = false → unchanged)

theorem Truthful.of_ok {effect unchanged : Prop} {status : Status} (ok : status.ok = true)
    (h : effect) : Truthful effect unchanged status :=
  ⟨⟨fun _ => h, fun _ => ok⟩, fun bad => by simp [ok] at bad⟩

theorem Truthful.of_not_ok {effect unchanged : Prop} {status : Status} (bad : status.ok = false)
    (h : ¬ effect) (same : unchanged) : Truthful effect unchanged status :=
  ⟨⟨fun ok => by simp [bad] at ok, fun e => absurd e h⟩, fun _ => same⟩

section Operations

variable [PathHash] [ConsistentHashMap]

theorem Unchanged.recorded {s s' : Servers K} (h : Unchanged s s') {c : VSFSRpcClient}
    {path : Str} (recorded : s'.Recorded c path) : s.Recorded c path := by
  obtain ⟨node, home, found⟩ := recorded
  exact ⟨node, home, h.records node.address ▸ found⟩

variable [FsPath]

theorem not_made_self (c : VSFSRpcClient) (path : Str) (s : Servers K) : ¬ Made c path s s :=
  fun h => h.new h.recorded

variable [LawfulConsistentHashMap] [KeyTypes K] [ThriftSerialize FileMetadata]
  [ThriftSerialize IndexNamespaceNode]

theorem create_truthful_iff (c : VSFSRpcClient) (path : Str) (mode uid gid : BitVec 64)
    (s : Servers K) : Ends (Attempt fun _ => True) (fun r s' => ∃ status oid,
      r = .ok (status, oid) ∧
        (Truthful (Made c path s s'.servers) (Unchanged s s'.servers) status ↔
          ∀ f ∈ s'.failures, f.code = 0)) (c.create path mode uid gid) ⟨s, []⟩ := by
  by_cases ring : c.masterMap.ring = ∅
  · have stopped : c.isInitialized = false := by simp [isInitialized, ring]
    simp only [create, stopped, Bool.not_false, if_true]
    refine .ret ⟨_, _, rfl, iff_of_true ?_ (by simp)⟩
    exact .of_not_ok rfl (not_made_self c path s) (.refl s)
  · refine (create_ends ring path mode uid gid ⟨s, []⟩).imp ?_
    rintro r s' ⟨status, oid, rfl, outcome⟩
    refine ⟨status, oid, rfl, ?_⟩
    cases outcome with
    | made ok effect _ quiet =>
      refine iff_of_true (.of_ok ok effect) fun f hf => ?_
      exact ((quiet f hf).resolve_left (by simp)).2
    | left _ failed _ _ code bad new recorded =>
      refine iff_of_false (fun truthful => ?_) (by simpa [failed] using code)
      exact new ((truthful.2 bad).recorded recorded)
    | undone _ failed _ _ code ok gone =>
      refine iff_of_false (fun truthful => ?_) (by simpa [failed] using code)
      exact gone (truthful.1.mp ok).recorded

theorem mkdir_truthful_iff (c : VSFSRpcClient) (path : Str) (mode uid gid : BitVec 64)
    (s : Servers K) : Ends (Attempt fun _ => True) (fun r s' => ∃ status, r = .ok status ∧
      (Truthful (Made c path s s'.servers) (Unchanged s s'.servers) status ↔
        ∀ f ∈ s'.failures, f.kind = .mkdir ↔ f.code ≠ 0)) (c.mkdir path mode uid gid) ⟨s, []⟩ := by
  by_cases ring : c.masterMap.ring = ∅
  · have stopped : c.isInitialized = false := by simp [isInitialized, ring]
    simp only [mkdir, stopped, Bool.not_false, if_true]
    refine .ret ⟨_, rfl, iff_of_true ?_ (by simp)⟩
    exact .of_not_ok rfl (not_made_self c path s) (.refl s)
  · refine (mkdir_ends ring path mode uid gid ⟨s, []⟩).imp ?_
    rintro r s' ⟨status, rfl, outcome⟩
    refine ⟨status, rfl, ?_⟩
    cases outcome with
    | made ok effect _ quiet =>
      refine iff_of_true (.of_ok ok effect) fun f hf => ?_
      obtain ⟨kind, code⟩ := (quiet f hf).resolve_left (by simp)
      simp [kind, code]
    | @failed f _ after _ kind code =>
      subst after
      by_cases zero : f.code = 0
      · have ok : status.ok = true := by simp [Status.ok, code, zero]
        refine iff_of_false (fun truthful => ?_) (by simp [kind, zero])
        exact not_made_self c path s (truthful.1.mp ok)
      · have bad : status.ok = false := by simp [Status.ok, code, zero]
        refine iff_of_true (.of_not_ok bad (not_made_self c path s) (.refl s)) ?_
        simp [kind, zero]
    | undone _ failed _ lists code ok gone =>
      refine iff_of_false (fun truthful => ?_) (by simp [failed, lists.kind, code])
      exact gone (truthful.1.mp ok).recorded

/-! ## Indices -/

/-- The master of a path has a record of a directory for it. -/
def IsDirectory (c : VSFSRpcClient) (s : Servers K) (path : Str) : Prop :=
  ∃ node m, c.masterMap.getByPath path = (.OK, some node) ∧
    (s.masters node.address).namespace.metadataMap[path]? = some m ∧ S_ISDIR m.mode

/-- The index server holds the new partition, the master has registered the index with its
directory, and the file of the partition is made. -/
structure IndexMade (c : VSFSRpcClient) (root name : Str) (s s' : Servers K) : Prop where
  partition : ∃ node, c.indexServerMap.getByPath (PathUtil.partitionPath root name 0) =
      (.OK, some node) ∧
    PathUtil.partitionPath root name 0 ∉ (s.indexServers node.address).indexInfoMap ∧
    PathUtil.partitionPath root name 0 ∈ (s'.indexServers node.address).indexInfoMap ∧
    PathUtil.partitionPath root name 0 ∈ (s'.indexServers node.address).rangeIndexMap
  registered : ∃ node, c.masterMap.getByPath (PathUtil.indexPath root name) = (.OK, some node) ∧
    (s'.masters node.address).indexNamespace.Registered root name ∧
    PathUtil.indexPath root name ∈ (s'.masters node.address).namespace.directories
  file : Made c (PathUtil.partitionPath root name 0) s s'

omit [LawfulConsistentHashMap] [KeyTypes K] [ThriftSerialize FileMetadata]
  [ThriftSerialize IndexNamespaceNode] in
/-- An index that is made has a new partition. -/
theorem not_indexMade {c : VSFSRpcClient} {root name : Str} {s s' : Servers K}
    (same : s'.indexServers = s.indexServers) : ¬ IndexMade c root name s s' := by
  rintro ⟨⟨_, _, new, made, _⟩, _, _⟩
  rw [same] at made
  exact new made

omit [PathHash] [ConsistentHashMap] [FsPath] [LawfulConsistentHashMap]
  [ThriftSerialize FileMetadata] [ThriftSerialize IndexNamespaceNode] in
/-- The bits of a mode survive the way to the client. -/
theorem setWidth_signExtend (mode : BitVec 32) : (mode.signExtend 64).setWidth 32 = mode := by
  ext i hi
  have wide : i < 64 := by omega
  rw [BitVec.getElem_setWidth, BitVec.getLsbD_signExtend]
  simp [hi, wide]

/-- The names of the directory of indices, of the one of the index, and of its first partition
are told apart. -/
def Apart (root name : Str) : Prop :=
  FsPath.filename (root ++ "/.vsfs".toList) ≠ FsPath.filename (PathUtil.partitionPath root name 0) ∧
    root ++ "/.vsfs".toList ≠ PathUtil.indexPath root name

omit [PathHash] [ConsistentHashMap] [LawfulConsistentHashMap] [ThriftSerialize FileMetadata]
  [ThriftSerialize IndexNamespaceNode] in
/-- They are for every normalised path below the root. -/
theorem apart_of_normal [LawfulFsPath] {root name : Str} (normal : Normal root)
    (below : root ≠ ['/']) (plain : Plain name) : Apart root name := by
  have directory : root ++ "/.vsfs".toList = child root ".vsfs".toList := (if_neg below).symm
  have inside : child (child root ".vsfs".toList) name =
      child root ".vsfs".toList ++ '/' :: name :=
    if_neg (child_ne_root root PathUtil.plain_dot_vsfs)
  constructor
  · rw [directory, LawfulFsPath.filename_child normal PathUtil.plain_dot_vsfs,
      PathUtil.partitionPath_zero normal plain, PathUtil.indexPath_append normal plain,
      LawfulFsPath.filename_child (PathUtil.normal_indexPath normal plain) (by decide)]
    decide
  · rw [directory, PathUtil.indexPath_eq normal plain, inside]
    simp

/-- The failed attempts that `create_index` copes with once it makes the index: those that it takes
for a success; `.vsfs` exists, or is listed at the second attempt; the index was registered before,
with its directory, and its first partition is new. -/
def Copes (c : VSFSRpcClient) (s : Servers K) (root name : Str) : Failure → Prop
  | ⟨.master _ (.mkdir _ _), e⟩ => e.status.error = 0 ∨ e.status.error = -EEXIST
  | ⟨.master _ (.addSubfile _ file), e⟩ => e.status.error = 0 ∨
      (file = FsPath.filename (root ++ "/.vsfs".toList) ∧
        file ≠ FsPath.filename (PathUtil.partitionPath root name 0))
  | ⟨.master _ (.create _ _ _ _), e⟩ => e.status.error = 0
  | ⟨.master a (.createIndex _), _⟩ => (s.masters a).indexNamespace.Registered root name ∧
      PathUtil.indexPath root name ∈ (s.masters a).namespace.directories ∧
      ¬ s.Recorded c (PathUtil.partitionPath root name 0)
  | _ => False

/-- When `create_index` is truthful: the client knows a master, and where it sees a directory, an
index server too, which refuses the partition; or the index is no `HASH` index, and the failed
attempt is one to cope with. -/
def CanIndex (c : VSFSRpcClient) (s : Servers K) (root name : Str) (indexType : BitVec 32)
    (failures : List Failure) : Prop :=
  c.masterMap.ring ≠ ∅ ∧ (IsDirectory c s root → (∃ f ∈ failures, f.kind = .getattr) ∨
    c.indexServerMap.ring ≠ ∅ ∧ ((∃ f ∈ failures, f.kind = .indexServer ∧ f.code ≠ 0) ∨
      (indexType.toInt ≠ IndexInfo.HASH ∧ ∀ f ∈ failures, Copes c s root name f)))

section Failures

variable {c : VSFSRpcClient} {s : Servers K} {root name : Str} {f : Failure}

omit [LawfulConsistentHashMap] [KeyTypes K] [ThriftSerialize FileMetadata]
  [ThriftSerialize IndexNamespaceNode] in
theorem copes_mkdir (kind : f.kind = .mkdir) :
    Copes c s root name f ↔ f.code = 0 ∨ f.code = -EEXIST := by
  obtain ⟨rpc, e⟩ := f
  cases rpc with
  | index a request => cases kind
  | master a request =>
    cases request with
    | mkdir path info => exact .rfl
    | _ => cases kind

omit [LawfulConsistentHashMap] [KeyTypes K] [ThriftSerialize FileMetadata]
  [ThriftSerialize IndexNamespaceNode] in
theorem copes_of_passed (passed : Passed f) : Copes c s root name f := by
  obtain ⟨kind, zero⟩ := passed
  obtain ⟨rpc, e⟩ := f
  cases rpc with
  | index a request => rcases kind with kind | kind <;> cases kind
  | master a request =>
    cases request with
    | create path mode uid gid => exact zero
    | addSubfile parent file => exact .inl zero
    | _ => rcases kind with kind | kind <;> cases kind

omit [LawfulConsistentHashMap] [KeyTypes K] [ThriftSerialize FileMetadata]
  [ThriftSerialize IndexNamespaceNode] in
theorem not_copes_index (kind : f.kind = .indexServer) : ¬ Copes c s root name f := by
  obtain ⟨rpc, e⟩ := f
  cases rpc with
  | index a request => exact id
  | master a request => cases request <;> cases kind

omit [LawfulConsistentHashMap] [KeyTypes K] [ThriftSerialize FileMetadata]
  [ThriftSerialize IndexNamespaceNode] in
theorem not_copes_file (lists : f.Lists (PathUtil.partitionPath root name 0)) (code : f.code ≠ 0) :
    ¬ Copes c s root name f := by
  obtain ⟨a, e, rfl⟩ := lists
  rintro (zero | ⟨-, other⟩)
  · exact code zero
  · exact other rfl

end Failures

/-- What a look at a path has come to. Nothing changes, and a directory is only seen where there
is one and the look has not failed. -/
inductive Look (c : VSFSRpcClient) (path : Str) (s : Servers K) :
    Status → Option Stat → Session K → Prop where
  | directory {stat : Stat} (dir : S_ISDIR stat.mode) (there : IsDirectory c s path) :
      Look c path s .OK (some stat) ⟨s, []⟩
  | other {status : Status} {stat : Option Stat} {failures : List Failure}
      (nothing : stat = none → status.ok = false) (file : ∀ st ∈ stat, ¬ S_ISDIR st.mode)
      (failed : IsDirectory c s path → ∃ f ∈ failures, f.kind = .getattr) :
      Look c path s status stat ⟨s, failures⟩

theorem getattrStat_ends {c : VSFSRpcClient} (ring : c.masterMap.ring ≠ ∅) (path : Str)
    (s : Servers K) : Ends (Attempt fun _ => True) (fun r s' => ∃ status stat,
      r = .ok (status, stat) ∧ Look c path s status stat s') (c.getattrStat path) ⟨s, []⟩ := by
  obtain ⟨node, home⟩ := ServerMap.get_of_ring_ne ring (PathHash.pathToHash path)
  have found : c.masterMap.getByPath path = (.OK, some node) := home
  simp only [getattrStat, getattr, found, checkGet, Prog.bind_eq, Prog.ret_bind,
    Prog.perform_bind, Prog.call_bind]
  refine .call fun b s₁ h₁ => ?_
  rcases h₁.split (stays_getattr _ _) with ⟨info, rfl, answered, same⟩ | ⟨e, rfl, -, -, rfl⟩
  · obtain ⟨now, mc, handled, after⟩ := Servers.answers_master answered
    obtain ⟨rfl, attributes⟩ := MasterServer.answer_getattr handled
    obtain ⟨m, record, mode⟩ := attributes info rfl
    rw [s.setMaster_self] at after
    obtain ⟨servers, failures⟩ := s₁
    cases after
    cases same
    refine .ret ⟨_, _, rfl, ?_⟩
    have shown : (info.mode.getD 0).setWidth 32 = m.mode := by
      rw [mode, Option.getD_some, setWidth_signExtend]
    by_cases dir : S_ISDIR m.mode
    · exact .directory (by rwa [shown]) ⟨node, m, found, record, dir⟩
    · refine .other (by simp) (fun st hst => ?_) ?_
      · cases hst
        rwa [shown]
      · rintro ⟨node', m', found', record', dir'⟩
        cases found.symm.trans found'
        cases record.symm.trans record'
        exact absurd dir' dir
  · have failed : IsDirectory c s path → ∃ f ∈ [(⟨.master node.address (.getattr path), e⟩ :
        Failure)], f.kind = .getattr := fun _ => ⟨_, List.mem_singleton_self _, rfl⟩
    cases ok : e.status.ok with
    | true =>
      simp only [Prog.pure_eq, Prog.ret_bind, ok, Bool.not_true, Bool.false_eq_true, if_false]
      refine .ret ⟨_, _, rfl, .other (by simp) (fun st hst => ?_) failed⟩
      cases hst
      decide
    | false =>
      simp only [Prog.pure_eq, Prog.ret_bind, ok, Bool.not_false, if_true]
      exact .ret ⟨_, _, rfl, .other (fun _ => ok) (by simp) failed⟩

/-- How `create_index` ends: with a status where it knows the servers it needs, and truthfully
when it can index. Where the names are told apart, it is truthful only then. -/
structure Indexing (c : VSFSRpcClient) (s : Servers K) (root name : Str) (indexType : BitVec 32)
    (r : Except Exit Status) (s' : Session K) : Prop where
  returns : c.masterMap.ring ≠ ∅ → (IsDirectory c s root → c.indexServerMap.ring ≠ ∅) →
    ∃ status, r = .ok status
  truthful : CanIndex c s root name indexType s'.failures →
    ∃ status, r = .ok status ∧
      Truthful (IndexMade c root name s s'.servers) (Unchanged s s'.servers) status
  exact : Apart root name → (∃ status, r = .ok status ∧
      Truthful (IndexMade c root name s s'.servers) (Unchanged s s'.servers) status) →
    CanIndex c s root name indexType s'.failures

section Indexing

variable {c : VSFSRpcClient} {s : Servers K} {root name : Str} {indexType keyType : BitVec 32}
  {mode uid gid : BitVec 64} {s' : Session K} {status : Status}

omit [LawfulConsistentHashMap] [KeyTypes K] [ThriftSerialize FileMetadata]
  [ThriftSerialize IndexNamespaceNode] in
theorem Indexing.of_truthful
    (h : Truthful (IndexMade c root name s s'.servers) (Unchanged s s'.servers) status)
    (can : Apart root name → CanIndex c s root name indexType s'.failures) :
    Indexing c s root name indexType (.ok status) s' :=
  ⟨fun _ _ => ⟨status, rfl⟩, fun _ => ⟨status, rfl, h⟩, fun apart _ => can apart⟩

omit [LawfulConsistentHashMap] [KeyTypes K] [ThriftSerialize FileMetadata]
  [ThriftSerialize IndexNamespaceNode] in
/-- A success is reported, and the effect is missing. -/
theorem Indexing.of_lie (ok : status.ok = true)
    (missing : Apart root name → ¬ IndexMade c root name s s'.servers)
    (cannot : ¬ CanIndex c s root name indexType s'.failures) :
    Indexing c s root name indexType (.ok status) s' := by
  refine ⟨fun _ _ => ⟨status, rfl⟩, fun can => absurd can cannot, fun apart h => ?_⟩
  obtain ⟨_, ⟨⟩, truthful⟩ := h
  exact absurd (truthful.1.mp ok) (missing apart)

omit [LawfulConsistentHashMap] [KeyTypes K] [ThriftSerialize FileMetadata]
  [ThriftSerialize IndexNamespaceNode] in
/-- A server that is needed is not known. -/
theorem Indexing.of_throw {e : Exit}
    (unknown : c.masterMap.ring ≠ ∅ → IsDirectory c s root ∧ c.indexServerMap.ring = ∅)
    (cannot : ¬ CanIndex c s root name indexType s'.failures) :
    Indexing c s root name indexType (.error e) s' := by
  refine ⟨fun some knows => ?_, fun can => absurd can cannot, fun _ h => ?_⟩
  · obtain ⟨there, none⟩ := unknown some
    exact absurd none (knows there)
  · obtain ⟨_, wrong, -⟩ := h
    cases wrong

/-- Where `create_index` stands after it has seen to `.vsfs`. -/
structure Underway (c : VSFSRpcClient) (s : Servers K) (root name : Str) (indexType : BitVec 32)
    (s' : Session K) : Prop where
  grows : s.Grows s'.servers
  partition : indexType.toInt ≠ IndexInfo.HASH → ∃ node,
    c.indexServerMap.getByPath (PathUtil.partitionPath root name 0) = (.OK, some node) ∧
      PathUtil.partitionPath root name 0 ∉ (s.indexServers node.address).indexInfoMap ∧
      PathUtil.partitionPath root name 0 ∈ (s'.servers.indexServers node.address).indexInfoMap ∧
      PathUtil.partitionPath root name 0 ∈ (s'.servers.indexServers node.address).rangeIndexMap
  unmade : Apart root name → indexType.toInt = IndexInfo.HASH →
    s'.servers.indexServers = s.indexServers
  indices : Apart root name → ∀ a,
    (s'.servers.masters a).indexNamespace = (s.masters a).indexNamespace
  directory : Apart root name → ∀ a,
    PathUtil.indexPath root name ∈ (s'.servers.masters a).namespace.directories →
      PathUtil.indexPath root name ∈ (s.masters a).namespace.directories
  quiet : ∀ f ∈ s'.failures, f.kind ≠ .getattr ∧ f.kind ≠ .indexServer
  copes : Apart root name → ∀ f ∈ s'.failures, Copes c s root name f

omit [LawfulConsistentHashMap] [KeyTypes K] [ThriftSerialize FileMetadata]
  [ThriftSerialize IndexNamespaceNode] in
theorem canIndex_of_copes {failures : List Failure} (ring : c.masterMap.ring ≠ ∅)
    (indexRing : c.indexServerMap.ring ≠ ∅) (tree : indexType.toInt ≠ IndexInfo.HASH)
    (copes : ∀ f ∈ failures, Copes c s root name f) : CanIndex c s root name indexType failures :=
  ⟨ring, fun _ => .inr ⟨indexRing, .inr ⟨tree, copes⟩⟩⟩

omit [LawfulConsistentHashMap] [KeyTypes K] [ThriftSerialize FileMetadata]
  [ThriftSerialize IndexNamespaceNode] in
/-- Once the index server has been asked, only failures to cope with are left. -/
theorem copes_of_canIndex {failures : List Failure} (there : IsDirectory c s root)
    (quiet : ∀ f ∈ failures, f.kind ≠ .getattr ∧ f.kind ≠ .indexServer)
    (can : CanIndex c s root name indexType failures) :
    indexType.toInt ≠ IndexInfo.HASH ∧ ∀ f ∈ failures, Copes c s root name f := by
  rcases can.2 there with ⟨f, hf, kind⟩ | ⟨-, ⟨f, hf, kind, -⟩ | copes⟩
  · exact absurd kind (quiet f hf).1
  · exact absurd kind (quiet f hf).2
  · exact copes

theorem registerIndex_indexing (ring : c.masterMap.ring ≠ ∅)
    (indexRing : c.indexServerMap.ring ≠ ∅) (there : IsDirectory c s root)
    (request : IndexCreateRequest) (underway : Underway c s request.root request.name indexType s')
    (at_root : request.root = root) (named : request.name = name) :
    Ends (Attempt fun _ => True) (Indexing c s root name indexType)
      (c.registerIndex request) s' := by
  subst at_root named
  refine (registerIndex_ends ring indexRing request s').imp ?_
  rintro r s'' ⟨rfl, partitions, registration⟩
  cases registration with
  | done home registered directory file grows quiet =>
    have known : ∀ f ∈ s''.failures, f.kind ≠ .getattr ∧ f.kind ≠ .indexServer := by
      intro f hf
      rcases quiet f hf with hf | ⟨kind | kind, -⟩
      · exact underway.quiet f hf
      · simp [kind]
      · simp [kind]
    by_cases hash : indexType.toInt = IndexInfo.HASH
    · refine .of_lie rfl (fun apart => ?_) fun can => (copes_of_canIndex there known can).1 hash
      exact not_indexMade (partitions.trans (underway.unmade apart hash))
    · obtain ⟨node, at_node, new, info, range⟩ := underway.partition hash
      refine .of_truthful (.of_ok rfl ⟨⟨node, at_node, new, ?_⟩, ⟨_, home, registered, directory⟩,
        fun old => file.new (old.grows underway.grows), file.recorded, file.listed⟩) fun apart => ?_
      · rw [partitions]
        exact ⟨info, range⟩
      · refine canIndex_of_copes ring indexRing hash fun f hf => ?_
        exact (quiet f hf).elim (underway.copes apart f) copes_of_passed
  | @missed e node home first failed registered directory recorded listed =>
    have known : ∀ f ∈ s''.failures, f.kind ≠ .getattr ∧ f.kind ≠ .indexServer := by
      simp [failed, Failure.kind]
    by_cases can : CanIndex c s request.root request.name indexType s''.failures
    · obtain ⟨tree, copes⟩ := copes_of_canIndex there known can
      obtain ⟨registered', directory', new⟩ := copes _ (failed ▸ List.mem_singleton_self _)
      obtain ⟨server, at_server, unknown, info, range⟩ := underway.partition tree
      obtain ⟨d, found⟩ := (mem_iff_exists _ _).mp directory'
      obtain ⟨d', found', -⟩ := underway.grows.listings found
      refine .of_truthful (.of_ok rfl ⟨⟨server, at_server, unknown, ?_⟩, ⟨node, home,
        registered.mpr (underway.grows.indices registered'),
        directory.mpr ((mem_iff_exists _ _).mpr ⟨d', found'⟩)⟩, new, recorded, listed⟩) fun _ => can
      rw [partitions]
      exact ⟨info, range⟩
    · refine .of_lie rfl (fun apart effect => can ?_) can
      have tree : indexType.toInt ≠ IndexInfo.HASH := by
        intro hash
        exact not_indexMade (partitions.trans (underway.unmade apart hash)) effect
      obtain ⟨node', home', registered', directory'⟩ := effect.registered
      cases home.symm.trans home'
      refine canIndex_of_copes ring indexRing tree fun f hf => ?_
      rw [failed, List.mem_singleton] at hf
      subst hf
      refine ⟨?_, underway.directory apart _ (directory.mp directory'), effect.file.new⟩
      rw [← underway.indices apart]
      exact registered.mp registered'
  | undone first failed lists code gone =>
    have known : ∀ f ∈ s''.failures, f.kind ≠ .getattr ∧ f.kind ≠ .indexServer := by
      simp [failed, lists.kind]
    refine .of_lie rfl (fun _ effect => gone effect.file.recorded) fun can => ?_
    have copes := (copes_of_canIndex there known can).2
    exact not_copes_file lists code (copes _ (failed ▸ List.mem_singleton_self _))

/-- The directory is made, and what does not concern it stays. -/
theorem mkdir_undisturbed (ring : c.masterMap.ring ≠ ∅) (path p : Str) (s : Session K) :
    Ends (Attempt fun _ => True) (fun r s' => ∃ status, r = .ok status ∧
      DirectoryCreation (fun _ => True) c path s status s' ∧
        (path ≠ p → Undisturbed p s.servers s'.servers)) (c.mkdir path mode uid gid) s := by
  by_cases same : path = p
  · refine (mkdir_ends ring path mode uid gid s).imp ?_
    rintro r s' ⟨status, rfl, outcome⟩
    exact ⟨status, rfl, outcome, fun other => absurd same other⟩
  · refine (ends_undisturbed p (mkdir_ends ring path mode uid gid s) (mkdir_calls (fun _ _ => same)
      (fun _ _ _ => trivial) fun _ => trivial)).imp ?_
    rintro r s' ⟨⟨status, rfl, outcome⟩, undisturbed⟩
    exact ⟨status, rfl, outcome, fun _ => undisturbed⟩

/-- The part of `create_index` after a partition that was made. -/
theorem made_indexing (ring : c.masterMap.ring ≠ ∅) (indexRing : c.indexServerMap.ring ≠ ∅)
    (there : IsDirectory c s root) {node : NodeInfo} {index : IndexCreateRequest}
    (home : c.indexServerMap.getByPath (PathUtil.partitionPath root name 0) = (.OK, some node))
    (of : index.root = PathUtil.partitionPath root name 0) (type : index.indexType = indexType)
    (answered : s.Answers (.index node.address (.createIndex index)) (.ok ()) s'.servers)
    (none : s'.failures = []) {request : IndexCreateRequest} (at_root : request.root = root)
    (named : request.name = name) :
    Ends (Attempt fun _ => True) (Indexing c s root name indexType)
      ((c.mkdir (root ++ "/.vsfs".toList) mode uid gid).bind fun status =>
        if !status.ok ∧ status.error ≠ -EEXIST then c.removeIndex root name
        else c.registerIndex request) s' := by
  obtain ⟨new, grows, partition⟩ := Servers.partitionCreated answered
  have masters : s'.servers.masters = s.masters := by
    obtain ⟨id, im, -, after⟩ := Servers.answers_index answered
    rw [after]
    rfl
  refine .bind ((mkdir_undisturbed ring (root ++ "/.vsfs".toList)
    (PathUtil.indexPath root name) s').imp ?_)
  rintro r s₂ ⟨status, rfl, outcome, undisturbed⟩
  -- Where `mkdir` has come to something to go on with.
  have goesOn (passed : ¬ ((!status.ok) = true ∧ status.error ≠ -EEXIST))
      (grows' : s'.servers.Grows s₂.servers)
      (quiet : ∀ f ∈ s₂.failures, f.kind ≠ .getattr ∧ f.kind ≠ .indexServer)
      (copes : Apart root name → ∀ f ∈ s₂.failures, Copes c s root name f) :
      Then (Attempt fun _ => True) (fun status =>
        if !status.ok ∧ status.error ≠ -EEXIST then c.removeIndex root name
        else c.registerIndex request) (Indexing c s root name indexType) (.ok status) s₂ := by
    simp only [Then, passed, if_false]
    refine registerIndex_indexing ring indexRing there request ?_ at_root named
    subst at_root named type
    refine ⟨grows.trans grows', fun tree => ?_, fun apart hash => ?_, fun apart a => ?_,
      fun apart a => ?_, quiet, copes⟩
    · rw [of] at new partition
      exact ⟨node, home, new, grows'.partitions (partition tree)⟩
    · rw [(undisturbed apart.2).partitions, Servers.hashIgnored hash answered]
    · rw [(undisturbed apart.2).indices, masters]
    · rw [(undisturbed apart.2).directory, masters]
      exact id
  cases outcome with
  | made ok _ grows' quiet =>
    refine goesOn (by simp [ok]) grows' (fun f hf => ?_) fun _ f hf => ?_
    · simp [((quiet f hf).resolve_left (by simp [none])).1]
    · obtain ⟨kind, zero⟩ := (quiet f hf).resolve_left (by simp [none])
      exact copes_of_passed ⟨.inr kind, zero⟩
  | undone _ failed _ lists _ ok _ grows' =>
    refine goesOn (by simp [ok]) grows' (by simp [failed, lists.kind]) fun apart f hf => ?_
    rw [failed, List.mem_singleton] at hf
    subst hf
    obtain ⟨a, e, rfl⟩ := lists
    exact .inr ⟨rfl, apart.1⟩
  | @failed f _ after _ kind code =>
    subst after
    by_cases copes : Copes c s root name f
    · refine goesOn ?_ (.refl _) (by simp [kind]) fun _ f' hf => ?_
      · rcases (copes_mkdir kind).mp copes with zero | exist
        · simp [Status.ok, code, zero]
        · simp [code, exist]
      · rw [List.mem_singleton] at hf
        rwa [hf]
    · -- The rollback makes no record, so the file of the partition is missing.
      have stops : (!status.ok) = true ∧ status.error ≠ -EEXIST := by
        rw [copes_mkdir kind, not_or] at copes
        simpa [Status.ok, code] using copes
      have spent : (⟨s'.servers, [f]⟩ : Session K).failures ≠ [] := by simp
      simp only [Then]
      rw [if_pos stops]
      refine (removeIndex_ends ring indexRing root name spent).imp ?_
      rintro r s₃ ⟨rfl, failures, -, records⟩
      refine .of_lie rfl (fun _ effect => effect.file.new ?_) fun can => copes ?_
      · obtain ⟨master, at_master, recorded⟩ := effect.file.recorded
        exact ⟨master, at_master, masters ▸ records _ _ recorded⟩
      · refine (copes_of_canIndex there (fun g hg => ?_) can).2 f (by simp [failures])
        rw [failures, List.mem_singleton] at hg
        simp [hg, kind]

/-- The part of `create_index` after a partition that the client takes for made. -/
theorem unmade_ends (ring : c.masterMap.ring ≠ ∅) (indexRing : c.indexServerMap.ring ≠ ∅)
    {request : IndexCreateRequest} (spent : s'.failures ≠ []) :
    Ends (Attempt fun _ => True) (fun r s'' => r = .ok .OK ∧
      (root ++ "/.vsfs".toList ≠ PathUtil.indexPath root name →
        s''.servers.indexServers = s'.servers.indexServers))
      ((c.mkdir (root ++ "/.vsfs".toList) mode uid gid).bind fun status =>
        if !status.ok ∧ status.error ≠ -EEXIST then c.removeIndex root name
        else c.registerIndex request) s' := by
  refine .bind ((mkdir_undisturbed ring (root ++ "/.vsfs".toList)
    (PathUtil.indexPath root name) s').imp ?_)
  rintro r s₂ ⟨status, rfl, outcome, undisturbed⟩
  cases outcome with
  | made ok =>
    have passed : ¬ ((!status.ok) = true ∧ status.error ≠ -EEXIST) := by simp [ok]
    simp only [Then, passed, if_false]
    refine (registerIndex_ends ring indexRing request s₂).imp ?_
    rintro r s₃ ⟨rfl, partitions, -⟩
    exact ⟨rfl, fun apart => partitions.trans (undisturbed apart).partitions⟩
  | failed first => exact absurd first spent
  | undone first => exact absurd first spent

theorem unmade_indexing (ring : c.masterMap.ring ≠ ∅) (indexRing : c.indexServerMap.ring ≠ ∅)
    (there : IsDirectory c s root) {f : Failure} (kind : f.kind = .indexServer) (zero : f.code = 0)
    {request : IndexCreateRequest} :
    Ends (Attempt fun _ => True) (Indexing c s root name indexType)
      ((c.mkdir (root ++ "/.vsfs".toList) mode uid gid).bind fun status =>
        if !status.ok ∧ status.error ≠ -EEXIST then c.removeIndex root name
        else c.registerIndex request) ⟨s, [f]⟩ := by
  have spent : (⟨s, [f]⟩ : Session K).failures ≠ [] := by simp
  refine (ends_spent (unmade_ends ring indexRing spent) spent).imp ?_
  rintro r s' ⟨⟨rfl, partitions⟩, same⟩
  refine .of_lie rfl (fun apart => ?_) fun can => ?_
  · exact not_indexMade (partitions apart.2)
  · rw [same] at can
    rcases can.2 there with ⟨g, hg, look⟩ | ⟨-, ⟨g, hg, -, code⟩ | ⟨-, copes⟩⟩
    · rw [List.mem_singleton.mp hg, kind] at look
      cases look
    · exact code (List.mem_singleton.mp hg ▸ zero)
    · exact not_copes_index kind (copes f (List.mem_singleton_self f))

/-- While at most one attempt fails, `create_index` ends. -/
theorem createIndex_indexing (c : VSFSRpcClient) (root name : Str) (indexType keyType : BitVec 32)
    (mode uid gid : BitVec 64) (s : Servers K) :
    Ends (Attempt fun _ => True) (Indexing c s root name indexType)
      (c.createIndex root name indexType keyType mode uid gid) ⟨s, []⟩ := by
  by_cases ring : c.masterMap.ring = ∅
  · have absent : (c.masterMap.getByPath root).2 = none := ServerMap.get_of_ring_eq ring _
    simp only [createIndex, getattrStat, getattr, checkGet_none absent, Prog.bind_eq,
      Prog.throw_bind]
    exact .throw (.of_throw (fun some => absurd ring some) fun can => absurd ring can.1)
  unfold createIndex
  refine .bind ((getattrStat_ends ring root s).imp ?_)
  rintro r s₁ ⟨status, stat, rfl, look⟩
  cases look with
  | @other _ _ failures nothing file failed =>
    have refused {status : Status} (bad : status.ok = false) :
        Indexing c s root name indexType (.ok status) ⟨s, failures⟩ :=
      .of_truthful (.of_not_ok bad (not_indexMade rfl) (.refl s)) fun _ =>
        ⟨ring, fun dir => .inl (failed dir)⟩
    cases stat with
    | none => exact .ret (refused (nothing rfl))
    | some st =>
      simp only [Then, file st rfl, not_false_eq_true, if_true]
      exact .ret (refused rfl)
  | directory dir there =>
    by_cases indexRing : c.indexServerMap.ring = ∅
    · have absent : (c.indexServerMap.get
          (PathHash.pathToHash (PathUtil.partitionPath root name 0))).2 = none :=
        ServerMap.get_of_ring_eq indexRing _
      simp only [Then, dir, not_true_eq_false, if_false, checkGet_none absent, Prog.bind_eq,
        Prog.throw_bind]
      refine .throw (.of_throw (fun _ => ⟨there, indexRing⟩) fun can => ?_)
      rcases can.2 there with ⟨f, hf, -⟩ | ⟨some, -⟩
      · cases hf
      · exact absurd indexRing some
    obtain ⟨node, home⟩ := ServerMap.get_of_ring_ne indexRing
      (PathHash.pathToHash (PathUtil.partitionPath root name 0))
    simp only [Then, dir, home, checkGet, Prog.bind_eq, Prog.ret_bind, Prog.perform_bind,
      not_true_eq_false, if_false]
    refine .call fun b s₁ h₁ => ?_
    rcases h₁.split (stays_createPartition _ _) with
      ⟨⟨⟩, rfl, answered, same⟩ | ⟨e, rfl, -, -, rfl⟩
    · simp only [Status.ok_OK, Bool.not_true, Bool.false_eq_true, if_false]
      exact made_indexing ring indexRing there home rfl rfl answered same rfl rfl
    · by_cases zero : e.status.error = 0
      · have ok : e.status.ok = true := by simp [Status.ok, zero]
        simp only [ok, Bool.not_true, Bool.false_eq_true, if_false]
        exact unmade_indexing (f := ⟨_, e⟩) ring indexRing there rfl zero
      · have bad : e.status.ok = false := by simpa [Status.ok] using zero
        simp only [bad, Bool.not_false, if_true]
        refine .ret (.of_truthful (.of_not_ok bad (not_indexMade rfl) (.refl s))
          fun _ => ⟨ring, fun _ =>
            .inr ⟨indexRing, .inl ⟨_, List.mem_singleton_self _, rfl, zero⟩⟩⟩)

end Indexing

/-- While at most one attempt fails, each operation ends. `create` is truthful exactly when no
attempt fails with a code other than zero; `mkdir` exactly when the attempt that fails, if any, is
the one to make the directory, with a code other than zero, or the one to list it, with a code of
zero; and `create_index` exactly when it can index. -/
theorem multi_rpc_operations_truthful (c : VSFSRpcClient) (s : Servers K) :
    (∀ path mode uid gid, Ends (Attempt fun _ => True) (fun r s' => ∃ status oid,
      r = .ok (status, oid) ∧
        (Truthful (Made c path s s'.servers) (Unchanged s s'.servers) status ↔
          ∀ f ∈ s'.failures, f.code = 0)) (c.create path mode uid gid) ⟨s, []⟩) ∧
    (∀ path mode uid gid, Ends (Attempt fun _ => True) (fun r s' => ∃ status, r = .ok status ∧
      (Truthful (Made c path s s'.servers) (Unchanged s s'.servers) status ↔
        ∀ f ∈ s'.failures, f.kind = .mkdir ↔ f.code ≠ 0)) (c.mkdir path mode uid gid) ⟨s, []⟩) ∧
    (∀ root name indexType keyType mode uid gid, Ends (Attempt fun _ => True)
      (Indexing c s root name indexType) (c.createIndex root name indexType keyType mode uid gid)
        ⟨s, []⟩) :=
  ⟨fun path mode uid gid => create_truthful_iff c path mode uid gid s,
    fun path mode uid gid => mkdir_truthful_iff c path mode uid gid s,
    fun root name indexType keyType mode uid gid =>
      createIndex_indexing c root name indexType keyType mode uid gid s⟩

end Operations

section Example

attribute [local instance] SortedRing.consistentHashMap Posix.fsPath Md5.pathHash
  BinaryProtocol.fileMetadataThrift BinaryProtocol.indexNamespaceNode uint64Keys

/-- A connection that could not be opened. -/
def notOpen : RpcError := .transport 1 "Transport not open"

/-- Serve every attempt at time zero, but lose the first one of a kind. -/
def losing (kind : Option Failure.Kind) (β : Type) (rpc : Rpc β) (s : Session Int) :
    Option (Except RpcError β × Session Int) :=
  if s.failures.isEmpty ∧ kind = some (Failure.kind ⟨rpc, notOpen⟩) then
    some (.error notOpen, ⟨s.servers, [⟨rpc, notOpen⟩]⟩)
  else
    match s.servers.serve 0 0 rpc with
    | .ok (.ok a, servers) => some (.ok a, ⟨servers, s.failures⟩)
    | _ => none

theorem losing_sound {allowed : Failure → Prop} {kind : Option Failure.Kind}
    (may : ∀ f : Failure, kind = some f.kind → allowed f) (β : Type) (rpc : Rpc β)
    (s : Session Int) (b : Except RpcError β) (s' : Session Int)
    (h : losing kind β rpc s = some (b, s')) : Attempt allowed β rpc s b s' := by
  unfold losing at h
  split at h
  · rename_i lost
    cases h
    exact .lost (List.isEmpty_iff.mp lost.1) (may _ lost.2) trivial
  · split at h
    · cases h
      exact .served ⟨0, 0, ‹_›⟩
    · cases h

/-- `create("/f")`, losing the first attempt of a kind. -/
def createRun (kind : Option Failure.Kind) :
    Option (Except Exit (Status × Option ObjectId) × Session Int) :=
  eval (losing kind) 9 (oneServer.create "/f".toList 0o644 0 0)
    ⟨rootOnly, []⟩

/-- When the first request to list a file is lost, the second one lists it, `create` then
removes its record and reports a success. -/
theorem lost_listing_undoes_file :
    ¬ ∀ (c : VSFSRpcClient) (s : Servers Int) (path : Str) (mode uid gid : BitVec 64)
      (r : Except Exit (Status × Option ObjectId)) (s' : Session Int),
      Evals (Attempt fun _ => True) (c.create path mode uid gid) ⟨s, []⟩ r s' →
      ∃ status oid, r = .ok (status, oid) ∧
        Truthful (Made c path s s'.servers) (Unchanged s s'.servers) status := by
  intro claim
  have undone : (createRun (some .addSubfile)).map (fun (r, s') => (r.map (·.1),
      (s'.servers.masters ⟨"m".toList, 1⟩).namespace.metadataMap.contains "/f".toList)) =
        some (.ok .OK, false) := by
    decide +kernel
  have home : oneServer.masterMap.getByPath "/f".toList =
      (.OK, some { address := ⟨"m".toList, 1⟩ }) := by decide +kernel
  cases run : createRun (some .addSubfile) with
  | none =>
    rw [run] at undone
    cases undone
  | some out =>
    obtain ⟨r, s'⟩ := out
    rw [run] at undone
    obtain ⟨status, oid, rfl, truthful⟩ := claim oneServer rootOnly _ _ _ _ r s'
      (eval_sound (losing_sound fun _ _ => trivial) run)
    simp only [Option.map_some, Except.map, Option.some.injEq, Prod.mk.injEq,
      Except.ok.injEq] at undone
    obtain ⟨rfl, gone⟩ := undone
    have recorded := (truthful.1.mp rfl).recorded
    rw [Servers.recorded_iff home] at recorded
    rw [ExtTreeMap.mem_iff_contains, gone] at recorded
    cases recorded

/-- Servers that know the root and the directory `/d`. -/
def oneDirectory : Servers Int where
  masters _ := { «namespace» := ((rootOnly.masters ⟨[], 0⟩).namespace.withDirectory "/d".toList
    (Namespace.newDirectory 0o755 0 0 0)) }
  indexServers _ := { basedir := [] }

/-- A `BTREE` index `size` on `/d`, with no attempt lost. -/
def createIndexRun : Option (Except Exit Status × Session Int) :=
  eval (losing none) 30
    (oneServer.createIndex "/d".toList "size".toList 2 0 0o755 0 0) ⟨oneDirectory, []⟩

/-- A file and an index that are made when nothing fails. -/
theorem oneServer_operations_truthful :
    (∃ oid s', Evals (Attempt fun _ => True) (oneServer.create "/f".toList 0o644 0 0)
      ⟨rootOnly, []⟩ (.ok (.OK, oid)) s' ∧ Made oneServer "/f".toList rootOnly s'.servers) ∧
    (∃ s', Evals (Attempt fun _ => True)
      (oneServer.createIndex "/d".toList "size".toList 2 0 0o755 0 0) ⟨oneDirectory, []⟩
      (.ok .OK) s' ∧ IndexMade oneServer "/d".toList "size".toList oneDirectory s'.servers ∧
      CanIndex oneServer oneDirectory "/d".toList "size".toList 2 s'.failures) := by
  constructor
  · have ends : (createRun none).map (fun (r, s') => (r.map (·.1), s'.failures.isEmpty)) =
        some (.ok .OK, true) := by
      decide +kernel
    cases run : createRun none with
    | none =>
      rw [run] at ends
      cases ends
    | some out =>
      obtain ⟨r, s'⟩ := out
      have evals : Evals (Attempt fun _ => True) (oneServer.create "/f".toList 0o644 0 0)
          ⟨rootOnly, []⟩ r s' := eval_sound (losing_sound fun _ _ => trivial) run
      obtain ⟨status, oid, rfl, truthful⟩ :=
        ((multi_rpc_operations_truthful oneServer rootOnly).1 _ _ _ _).sound evals
      rw [run] at ends
      simp only [Option.map_some, Except.map, Option.some.injEq, Prod.mk.injEq,
        Except.ok.injEq, List.isEmpty_iff] at ends
      obtain ⟨rfl, none⟩ := ends
      exact ⟨oid, s', evals, (truthful.mpr (by simp [none])).1.mp rfl⟩
  · have ends : createIndexRun.map (fun (r, s') => (r, s'.failures.isEmpty)) =
        some (.ok .OK, true) := by
      decide +kernel
    cases run : createIndexRun with
    | none =>
      rw [run] at ends
      cases ends
    | some out =>
      obtain ⟨r, s'⟩ := out
      have evals : Evals (Attempt fun _ => True) (oneServer.createIndex "/d".toList "size".toList 2
          0 0o755 0 0) ⟨oneDirectory, []⟩ r s' := eval_sound (losing_sound fun _ _ => trivial) run
      have outcome := ((multi_rpc_operations_truthful oneServer oneDirectory).2.2
        "/d".toList "size".toList 2 0 0o755 0 0).sound evals
      rw [run] at ends
      simp only [Option.map_some, Option.some.injEq, Prod.mk.injEq, List.isEmpty_iff] at ends
      obtain ⟨rfl, none⟩ := ends
      obtain ⟨status, ⟨⟩, truthful⟩ := outcome.truthful ⟨ExtTreeMap.insert_ne_empty, fun _ =>
        .inr ⟨ExtTreeMap.insert_ne_empty, .inr ⟨by decide, by simp [none]⟩⟩⟩
      have apart : Apart "/d".toList "size".toList :=
        apart_of_normal (.top (by decide)) (by decide) (by decide)
      exact ⟨s', evals, truthful.1.mp rfl, outcome.exact apart ⟨_, rfl, truthful⟩⟩

end Example

end Vsfs.Client

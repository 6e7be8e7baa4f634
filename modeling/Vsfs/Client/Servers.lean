import Mathlib.Logic.Function.Basic
import Vsfs.Client.VsfsRpcClient
import Vsfs.Masterd.Answers
import Vsfs.Rpc.BinaryProtocol

/-!
# The servers of a cluster

The masters and the index servers behind the RPCs of a client, each at its address, and
what a client makes of them: which paths have a record and which are listed. The requests
that make something only let records, listings and indices grow.
-/

namespace Vsfs.Client

open Std Program Masterd Indexd Index FiniteMap

structure Servers (K : Type) [LinearOrder K] where
  masters : NodeAddress → MasterController
  indexServers : NodeAddress → IndexManager K

namespace Servers

variable {K : Type} [LinearOrder K]

@[simps] def setMaster (s : Servers K) (address : NodeAddress) (mc : MasterController) :
    Servers K where
  masters := Function.update s.masters address mc
  indexServers := s.indexServers

@[simps] def setIndexServer (s : Servers K) (address : NodeAddress) (im : IndexManager K) :
    Servers K where
  masters := s.masters
  indexServers := Function.update s.indexServers address im

theorem setMaster_self (s : Servers K) (address : NodeAddress) :
    s.setMaster address (s.masters address) = s := by
  simp [setMaster]

/-! ## Growth -/

/-- Records, listings and indices only grow. -/
structure Grows (s s' : Servers K) : Prop where
  records : ∀ {a : NodeAddress} {p : Str}, p ∈ (s.masters a).namespace.metadataMap →
    p ∈ (s'.masters a).namespace.metadataMap
  listings : ∀ {a : NodeAddress} {p : Str} {d : Directory},
    (s.masters a).namespace.directories[p]? = some d →
    ∃ d', (s'.masters a).namespace.directories[p]? = some d' ∧ ∀ f ∈ d.subfiles, f ∈ d'.subfiles
  indices : ∀ {a : NodeAddress} {root name : Str},
    (s.masters a).indexNamespace.Registered root name →
    (s'.masters a).indexNamespace.Registered root name
  partitions : ∀ {a : NodeAddress} {p : Str},
    p ∈ (s.indexServers a).indexInfoMap ∧ p ∈ (s.indexServers a).rangeIndexMap →
    p ∈ (s'.indexServers a).indexInfoMap ∧ p ∈ (s'.indexServers a).rangeIndexMap

theorem Grows.refl (s : Servers K) : Grows s s :=
  ⟨fun h => h, fun h => ⟨_, h, fun _ hf => hf⟩, fun h => h, fun h => h⟩

theorem Grows.trans {s t u : Servers K} (h : Grows s t) (h' : Grows t u) : Grows s u := by
  refine ⟨fun hp => h'.records (h.records hp), fun hd => ?_,
    fun hr => h'.indices (h.indices hr), fun hp => h'.partitions (h.partitions hp)⟩
  obtain ⟨d', hd', sub⟩ := h.listings hd
  obtain ⟨d'', hd'', sub'⟩ := h'.listings hd'
  exact ⟨d'', hd'', fun f hf => sub' f (sub f hf)⟩

/-- A change of one master that only adds. -/
theorem grows_setMaster {s : Servers K} {address : NodeAddress} {mc : MasterController}
    (records : ∀ p ∈ (s.masters address).namespace.metadataMap, p ∈ mc.namespace.metadataMap)
    (listings : ∀ (p : Str) (d : Directory),
      (s.masters address).namespace.directories[p]? = some d →
        ∃ d', mc.namespace.directories[p]? = some d' ∧ ∀ f ∈ d.subfiles, f ∈ d'.subfiles)
    (indices : ∀ root name, (s.masters address).indexNamespace.Registered root name →
      mc.indexNamespace.Registered root name) :
    Grows s (s.setMaster address mc) := by
  refine ⟨fun {a p} hp => ?_, fun {a p d} hd => ?_, fun {a root name} hr => ?_, fun h => h⟩
  · by_cases same : a = address
    · subst same
      simpa using records p hp
    · simpa [same] using hp
  · by_cases same : a = address
    · subst same
      simpa using listings p d hd
    · exact ⟨d, by simpa [same] using hd, fun f hf => hf⟩
  · by_cases same : a = address
    · subst same
      simpa using indices root name hr
    · simpa [same] using hr

/-! ## Records and listings -/

section Records

variable [PathHash] [ConsistentHashMap]

/-- The master of a path has a record for it. -/
def Recorded (s : Servers K) (c : VSFSRpcClient) (path : Str) : Prop :=
  ∃ node, c.masterMap.getByPath path = (.OK, some node) ∧
    path ∈ (s.masters node.address).namespace.metadataMap

/-- The master of the parent has a directory for it that lists the path. -/
def Listed [FsPath] (s : Servers K) (c : VSFSRpcClient) (path : Str) : Prop :=
  ∃ node dir, c.masterMap.getByPath (FsPath.parentPath path) = (.OK, some node) ∧
    (s.masters node.address).namespace.directories[FsPath.parentPath path]? = some dir ∧
      FsPath.filename path ∈ dir.subfiles

instance (s : Servers K) (c : VSFSRpcClient) (path : Str) : Decidable (s.Recorded c path) :=
  match home : c.masterMap.getByPath path with
  | (status, some node) =>
    decidable_of_iff (status = .OK ∧ path ∈ (s.masters node.address).namespace.metadataMap) (by
      simp [Recorded, home])
  | (_, none) => .isFalse (by simp [Recorded, home])

instance [FsPath] (s : Servers K) (c : VSFSRpcClient) (path : Str) : Decidable (s.Listed c path) :=
  match home : c.masterMap.getByPath (FsPath.parentPath path) with
  | (status, some node) =>
    match found : (s.masters node.address).namespace.directories[FsPath.parentPath path]? with
    | some dir =>
      decidable_of_iff (status = .OK ∧ FsPath.filename path ∈ dir.subfiles) (by
        simp [Listed, home, found])
    | none => .isFalse (by simp [Listed, home, found])
  | (_, none) => .isFalse (by simp [Listed, home])

theorem recorded_iff {s : Servers K} {c : VSFSRpcClient} {path : Str} {node : NodeInfo}
    (home : c.masterMap.getByPath path = (.OK, some node)) :
    s.Recorded c path ↔ path ∈ (s.masters node.address).namespace.metadataMap := by
  constructor
  · rintro ⟨node', home', found⟩
    cases home.symm.trans home'
    exact found
  · exact fun found => ⟨node, home, found⟩

theorem Recorded.grows {s s' : Servers K} {c : VSFSRpcClient} {path : Str} (h : Grows s s')
    (recorded : s.Recorded c path) : s'.Recorded c path := by
  obtain ⟨node, home, found⟩ := recorded
  exact ⟨node, home, h.records found⟩

end Records

/-! ## Requests -/

variable [KeyTypes K] [FsPath] [PathHash] [ThriftSerialize FileMetadata]
  [ThriftSerialize IndexNamespaceNode]

/-- A server takes a request at time `now`; a new index is left with `lastMergedLogId`. -/
def serve (s : Servers K) (now : Double) (lastMergedLogId : TxnId) {α : Type} :
    Rpc α → Cpp (Except RpcInvalidOp α × Servers K)
  | .master address request => do
    let (answer, mc) ← MasterServer.handle (s.masters address) now request
    return (answer, s.setMaster address mc)
  | .index address request => do
    let (answer, im) ← IndexServer.handle (s.indexServers address) lastMergedLogId request
    return (answer, s.setIndexServer address im)

/-- `s.Answers rpc answer s'`: at some time, `rpc` is answered so and leads to `s'`. -/
def Answers (s : Servers K) {α : Type} (rpc : Rpc α) (answer : Except RpcInvalidOp α)
    (s' : Servers K) : Prop :=
  ∃ now lastMergedLogId, s.serve now lastMergedLogId rpc = .ok (answer, s')

theorem answers_master {s s' : Servers K} {α : Type} {address : NodeAddress}
    {request : MasterRpc α} {answer : Except RpcInvalidOp α}
    (h : s.Answers (.master address request) answer s') : ∃ now mc,
      MasterServer.handle (s.masters address) now request = .ok (answer, mc) ∧
        s' = s.setMaster address mc := by
  obtain ⟨now, _, h⟩ := h
  cases out : MasterServer.handle (s.masters address) now request with
  | error e => simp [serve, out, bind, Except.bind] at h
  | ok answered =>
    simp only [serve, out, bind, Except.bind] at h
    cases h
    exact ⟨now, answered.2, out, rfl⟩

theorem answers_index {s s' : Servers K} {α : Type} {address : NodeAddress}
    {request : IndexRpc α} {answer : Except RpcInvalidOp α}
    (h : s.Answers (.index address request) answer s') : ∃ lastMergedLogId im,
      IndexServer.handle (s.indexServers address) lastMergedLogId request = .ok (answer, im) ∧
        s' = s.setIndexServer address im := by
  obtain ⟨_, lastMergedLogId, h⟩ := h
  cases out : IndexServer.handle (s.indexServers address) lastMergedLogId request with
  | error e => simp [serve, out, bind, Except.bind] at h
  | ok answered =>
    simp only [serve, out, bind, Except.bind] at h
    cases h
    exact ⟨lastMergedLogId, answered.2, out, rfl⟩

/-- A file was made: it had no record before. -/
theorem created {s s' : Servers K} {address : NodeAddress} {path : Str}
    {mode uid gid : BitVec 64} {oid : ObjectId}
    (h : s.Answers (.master address (.create path mode uid gid)) (.ok oid) s') :
    path ∉ (s.masters address).namespace.metadataMap ∧
      path ∈ (s'.masters address).namespace.metadataMap ∧ Grows s s' := by
  obtain ⟨now, mc, handled, rfl⟩ := answers_master h
  rcases MasterServer.answer_create handled with ⟨⟨_, wrong, -⟩, -⟩ | ⟨absent, -, rfl⟩
  · cases wrong
  · refine ⟨(not_mem_iff _ _).mpr absent, by simp, grows_setMaster (fun p hp => ?_)
      (fun p d hd => ⟨d, hd, fun f hf => hf⟩) fun _ _ h => h⟩
    exact ExtTreeMap.mem_insert.mpr (.inr hp)

/-- A directory was made: it had no record before. -/
theorem directoryMade {s s' : Servers K} {address : NodeAddress} {path : Str}
    {info : RpcFileInfo} (h : s.Answers (.master address (.mkdir path info)) (.ok ()) s') :
    path ∉ (s.masters address).namespace.metadataMap ∧
      path ∈ (s'.masters address).namespace.metadataMap ∧ Grows s s' := by
  obtain ⟨now, mc, handled, rfl⟩ := answers_master h
  rcases MasterServer.answer_mkdir handled with ⟨⟨_, wrong, -⟩, -⟩ | ⟨absent, -, rfl⟩
  · cases wrong
  · refine ⟨(not_mem_iff _ _).mpr absent, by simp, grows_setMaster (fun p hp => ?_)
      (fun p d hd => ⟨d, ?_, fun f hf => hf⟩) fun _ _ h => h⟩
    · exact ExtTreeMap.mem_insert.mpr (.inr hp)
    · simp [hd]

/-- A name was listed. -/
theorem subfileAdded {s s' : Servers K} {address : NodeAddress} {parent subfile : Str}
    (h : s.Answers (.master address (.addSubfile parent subfile)) (.ok ()) s') :
    (∃ dir, (s'.masters address).namespace.directories[parent]? = some dir ∧
      subfile ∈ dir.subfiles) ∧ Grows s s' := by
  obtain ⟨now, mc, handled, rfl⟩ := answers_master h
  rcases MasterServer.answer_addSubfile handled with ⟨⟨_, wrong, -⟩, -⟩ | ⟨dir, found, -, -, rfl⟩
  · cases wrong
  · refine ⟨⟨⟨dir.subfiles.insert subfile⟩, by simp, by simp⟩, grows_setMaster (fun p hp => hp)
      (fun p d hd => ?_) fun _ _ h => h⟩
    by_cases same : parent = p
    · subst same
      rw [found] at hd
      refine ⟨⟨dir.subfiles.insert subfile⟩, by simp, fun f hf => ?_⟩
      exact ExtTreeSet.mem_insert.mpr (.inr (Option.some.inj hd ▸ hf))
    · exact ⟨d, by simpa [same] using hd, fun f hf => hf⟩

/-- A record was removed. -/
theorem removed {s s' : Servers K} {address : NodeAddress} {path : Str} {oid : ObjectId}
    (h : s.Answers (.master address (.remove path)) (.ok oid) s') :
    path ∉ (s'.masters address).namespace.metadataMap := by
  obtain ⟨now, mc, handled, rfl⟩ := answers_master h
  rcases MasterServer.answer_remove handled with ⟨⟨⟨_, wrong, -⟩, -⟩, -⟩ | ⟨m, -, -, -, -, rfl⟩
  · cases wrong
  · simp

/-- What was new is removed again, and all that was there before is left. -/
theorem Grows.removed {s t u : Servers K} {address : NodeAddress} {path : Str} {oid : ObjectId}
    (grows : Grows s t) (new : path ∉ (s.masters address).namespace.metadataMap)
    (h : t.Answers (.master address (.remove path)) (.ok oid) u) : Grows s u := by
  obtain ⟨now, mc, handled, rfl⟩ := answers_master h
  rcases MasterServer.answer_remove handled with ⟨⟨⟨_, wrong, -⟩, -⟩, -⟩ | ⟨m, -, -, -, -, rfl⟩
  · cases wrong
  refine ⟨fun {a p} hp => ?_, fun {a p d} hd => ?_, fun {a root name} hr => ?_, grows.partitions⟩
  · have there := grows.records hp
    by_cases same : a = address
    · subst same
      have other : path ≠ p := fun e => new (e ▸ hp)
      simpa [other] using there
    · simpa [same] using there
  · obtain ⟨d', hd', sub⟩ := grows.listings hd
    refine ⟨d', ?_, sub⟩
    by_cases same : a = address
    · subst same
      simpa using hd'
    · simpa [same] using hd'
  · have there := grows.indices hr
    by_cases same : a = address
    · subst same
      simpa using there
    · simpa [same] using there

/-- An index was registered on a master, which had it on no path before. -/
theorem indexRegistered {s s' : Servers K} {address : NodeAddress} {index : IndexCreateRequest}
    (h : s.Answers (.master address (.createIndex index)) (.ok ()) s') :
    ¬ (s.masters address).indexNamespace.Registered index.root index.name ∧
      (s'.masters address).indexNamespace.Registered index.root index.name ∧
      PathUtil.indexPath index.root index.name ∈ (s'.masters address).namespace.directories ∧
      Grows s s' := by
  obtain ⟨now, mc, handled, rfl⟩ := answers_master h
  obtain ⟨new, registered, others, made⟩ := MasterServer.answer_createIndex handled
  refine ⟨new, by simpa using registered, by simp [made], grows_setMaster (fun p hp => ?_)
    (fun p d hd => ⟨d, ?_, fun f hf => hf⟩) others⟩
  · rw [made]
    exact ExtTreeMap.mem_insert.mpr (.inr hp)
  · simp [made, hd]

/-- An index was refused by a master, which has it registered or not as before. -/
theorem indexRefused {s s' : Servers K} {address : NodeAddress} {index : IndexCreateRequest}
    {ouch : RpcInvalidOp}
    (h : s.Answers (.master address (.createIndex index)) (.error ouch) s') :
    s'.indexServers = s.indexServers ∧
      (∀ a, (s'.masters a).namespace = (s.masters a).namespace) ∧
      ((s'.masters address).indexNamespace.Registered index.root index.name ↔
        (s.masters address).indexNamespace.Registered index.root index.name) := by
  obtain ⟨now, mc, handled, rfl⟩ := answers_master h
  obtain ⟨same, registered⟩ := MasterServer.refused_createIndex handled
  refine ⟨rfl, fun a => ?_, by simpa using registered⟩
  by_cases other : a = address
  · subst other
    simpa using same
  · simp [other]

/-- A partition was created on an index server, which registers those of a `BTREE` only. -/
theorem partitionCreated {s s' : Servers K} {address : NodeAddress} {index : IndexCreateRequest}
    (h : s.Answers (.index address (.createIndex index)) (.ok ()) s') :
    index.root ∉ (s.indexServers address).indexInfoMap ∧ Grows s s' ∧
      (index.indexType.toInt ≠ IndexInfo.HASH →
        index.root ∈ (s'.indexServers address).indexInfoMap ∧
          index.root ∈ (s'.indexServers address).rangeIndexMap) := by
  obtain ⟨id, im, handled, rfl⟩ := answers_index h
  cases out : (s.indexServers address).create id index.root index.name index.indexType.toInt
    index.keyType.toInt with
  | mk status im' =>
    simp only [IndexServer.handle, out, Except.ok.injEq, Prod.mk.injEq] at handled
    obtain ⟨ok, rfl⟩ := handled
    rcases IndexManager.create_spec out with ⟨bad, -⟩ | ⟨-, new, ⟨hash, rfl⟩ | ⟨w, -, -, -, -, rfl⟩⟩
    · simp [checkStatus, bad] at ok
    · refine ⟨new, ?_, fun other => absurd hash other⟩
      simpa [setIndexServer] using Grows.refl s
    · refine ⟨new, ⟨fun h => h, fun h => ⟨_, h, fun _ hf => hf⟩, fun h => h, ?_⟩,
        fun _ => by simp⟩
      intro a p hp
      by_cases same : a = address
      · subst same
        simp [hp.1, hp.2]
      · simpa [same] using hp

/-- A `HASH` index is taken for created and is not. -/
theorem hashIgnored {s s' : Servers K} {address : NodeAddress} {index : IndexCreateRequest}
    (hash : index.indexType.toInt = IndexInfo.HASH)
    (h : s.Answers (.index address (.createIndex index)) (.ok ()) s') : s' = s := by
  obtain ⟨id, im, handled, rfl⟩ := answers_index h
  cases out : (s.indexServers address).create id index.root index.name index.indexType.toInt
    index.keyType.toInt with
  | mk status im' =>
    simp only [IndexServer.handle, out, Except.ok.injEq, Prod.mk.injEq] at handled
    obtain ⟨ok, rfl⟩ := handled
    rcases IndexManager.create_spec out with ⟨bad, -⟩ | ⟨-, -, ⟨-, rfl⟩ | ⟨w, tree, -⟩⟩
    · simp [checkStatus, bad] at ok
    · simp [setIndexServer]
    · cases hash.symm.trans tree

end Servers

section

variable {K : Type} [LinearOrder K] [KeyTypes K] [FsPath] [PathHash] [ThriftSerialize FileMetadata]
  [ThriftSerialize IndexNamespaceNode]

/-- Every RPC is delivered: it is answered by the server, which may refuse it. -/
def Delivered : Exec Rpc RpcError (Servers K) :=
  fun _ rpc s b s' => ∃ answer, s.Answers rpc answer s' ∧ b = answer.mapError .invalidOp

end

/-! ## A small cluster -/

section Example

attribute [local instance] BinaryProtocol.fileMetadataThrift

/-- A client that knows one master and one index server. -/
def oneServer : VSFSRpcClient where
  masterMap := ⟨(∅ : HashRing).insert 0 { address := ⟨"m".toList, 1⟩ }⟩
  indexServerMap := ⟨(∅ : HashRing).insert 0 { address := ⟨"i".toList, 2⟩ }⟩

section

variable [ConsistentHashMap] [LawfulConsistentHashMap]

theorem oneServer_master (key : HashValueType) :
    oneServer.masterMap.get key = (.OK, some { address := ⟨"m".toList, 1⟩ }) :=
  ServerMap.get_of_single rfl key

theorem oneServer_indexServer (key : HashValueType) :
    oneServer.indexServerMap.get key = (.OK, some { address := ⟨"i".toList, 2⟩ }) :=
  ServerMap.get_of_single rfl key

end

/-- Servers that know the root directory only. -/
def rootOnly : Servers Int where
  masters _ := { «namespace» :=
    ({ nextObjId := 0 } : Namespace).withDirectory ['/'] (Namespace.newDirectory 0o755 0 0 0) }
  indexServers _ := { basedir := [] }

end Example

end Vsfs.Client

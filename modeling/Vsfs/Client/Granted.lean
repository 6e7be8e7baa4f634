import Vsfs.Client.Served
import Vsfs.Masterd.Additions

/-!
# Calls that are granted

What `mkdir`, `create` and `create_index` leave when their RPCs succeed. The directory of the
indices may be there already. The masters only get more, and an index is registered after its
partition was made.

## Main results

* `mkdir_granted`, `create_granted`, `createIndex_granted`.
-/

namespace Vsfs.Client

open Std Program Prog Masterd Indexd Index FiniteMap VSFSRpcClient

section Granted

variable {K : Type} [LinearOrder K]

/-! ## More on the masters -/

/-- The masters have more, and at most `k` new files each. -/
structure Servers.Extends (k : Nat) (s s' : Servers K) : Prop where
  indexServers : s'.indexServers = s.indexServers
  masters : ∀ a, (s.masters a).Extends k (s'.masters a)

namespace Servers

theorem Extends.refl (s : Servers K) : s.Extends 0 s := ⟨rfl, fun a => .refl 0 (s.masters a)⟩

theorem Extends.trans {k k' : Nat} {s s' s'' : Servers K} (h : s.Extends k s')
    (h' : s'.Extends k' s'') : s.Extends (k + k') s'' :=
  ⟨h'.indexServers.trans h.indexServers, fun a => (h.masters a).trans (h'.masters a)⟩

theorem extends_setMaster {k : Nat} {s : Servers K} {a : NodeAddress} {mc : MasterController}
    (h : (s.masters a).Extends k mc) : s.Extends k (s.setMaster a mc) := by
  refine ⟨rfl, ?_⟩
  intro a'
  by_cases same : a' = a
  · subst same
    simpa using h
  · simpa [same] using MasterController.Extends.refl k (s.masters a')

variable [KeyTypes K] [FsPath] [PathHash] [ThriftSerialize FileMetadata]
  [ThriftSerialize IndexNamespaceNode]

theorem extends_of_answers {s s' : Servers K} {a : NodeAddress} {β : Type} {request : MasterRpc β}
    {b : β} (adds : MasterServer.Adds request) (h : s.Answers (.master a request) (.ok b) s') :
    s.Extends (MasterServer.newFiles request) s' := by
  obtain ⟨now, mc, handled, rfl⟩ := answers_master h
  exact extends_setMaster (MasterServer.extends_of_handle adds handled)

end Servers

variable [KeyTypes K] [FsPath] [PathHash] [ConsistentHashMap] [ThriftSerialize FileMetadata]
  [ThriftSerialize IndexNamespaceNode] {c : VSFSRpcClient} {s : Servers K}

omit [FsPath] [PathHash] [ConsistentHashMap] in
def IsMkdir : {β : Type} → Rpc β → Prop
  | _, .master _ (.mkdir _ _) => True
  | _, _ => False

/-- Every RPC succeeds, or is for a directory that is there already. -/
def Granted : Exec Rpc RpcError (Servers K) := fun _ rpc s b s' =>
  ∃ answer, b = answer.mapError .invalidOp ∧ s.Answers rpc answer s' ∧
    ∀ ouch, answer = .error ouch → IsMkdir rpc ∧ ouch.what = -EEXIST

omit [ConsistentHashMap] in
/-- A call that is not for a directory succeeds. -/
theorem Granted.must {s s' : Servers K} {β : Type} {rpc : Rpc β} {b : Except RpcError β}
    (other : ¬ IsMkdir rpc) (h : Granted β rpc s b s') :
    ∃ a, b = .ok a ∧ s.Answers rpc (.ok a) s' := by
  obtain ⟨answer, rfl, answers, refused⟩ := h
  cases answer with
  | ok a => exact ⟨a, rfl, answers⟩
  | error ouch => exact absurd (refused ouch rfl).1 other

/-! ## Listing -/

omit [ConsistentHashMap] in
theorem subfileLoop_granted (a : NodeAddress) (parent subfile : Str) (s : Servers K) :
    Always Granted (fun r s' => r = .ok .OK ∧ s.Extends 0 s')
      (subfileLoop a (.addSubfile parent subfile)) s := by
  -- The first attempt succeeds.
  have turn (x : Nat × Status) (s' : Servers K) (inv : x = (kNumBackOffs, .OK) ∧ s' = s) :
      Always Granted (Turns Granted (fun x s' => x = (kNumBackOffs, .OK) ∧ s' = s) .ret
        fun r s' => r = .ok .OK ∧ s.Extends 0 s')
        (subfileTurn a (.addSubfile parent subfile) x) s' := by
    obtain ⟨rfl, rfl⟩ := inv
    refine .call ?_
    intro b s₁ granted
    have adds : MasterServer.Adds (.addSubfile parent subfile) := trivial
    have other : ¬ IsMkdir (.master a (.addSubfile parent subfile)) := fun h => h
    obtain ⟨answer, rfl, answers⟩ := granted.must other
    exact .ret (.ret ⟨rfl, Servers.extends_of_answers adds answers⟩)
  exact .iter turn ⟨rfl, rfl⟩

theorem addSubfile_granted (path : Str) (s : Servers K) :
    Always Granted (fun r s' => s.Extends 0 s' ∧ ∀ status, r = .ok status → status = .OK)
      (c.addSubfile path) s := by
  unfold addSubfile
  split
  · exact .ret ⟨.refl s, fun status same => by cases same; rfl⟩
  · rcases get_cases c.masterMap (PathHash.pathToHash (FsPath.parentPath path)) with
      absent | ⟨node, home⟩
    · simp only [checkGet_none absent]
      exact .throw ⟨.refl s, by simp⟩
    · simp only [home]
      refine (subfileLoop_granted node.address _ _ s).imp ?_
      rintro r s' ⟨rfl, extended⟩
      exact ⟨extended, fun status same => by cases same; rfl⟩

/-! ## Directories -/

omit [FsPath] [PathHash] [ThriftSerialize FileMetadata] [ThriftSerialize IndexNamespaceNode] in
theorem Reachable.isInitialized [LawfulConsistentHashMap] (reachable : Reachable c) :
    c.isInitialized = true := by
  obtain ⟨node, home, -⟩ := reachable.masters 0
  obtain ⟨sep, onRing⟩ := ServerMap.onRing_of_get home
  have nonempty : c.masterMap.ring ≠ ∅ := by
    intro empty
    simp [empty] at onRing
  simpa [VSFSRpcClient.isInitialized, ExtTreeMap.isEmpty_iff] using nonempty

variable [LawfulConsistentHashMap]

/-- A directory is made, or is there. -/
theorem mkdir_granted (reachable : Reachable c) (path : Str) (mode uid gid : BitVec 64)
    (s : Servers K) : Always Granted (fun r s' => s.Extends 0 s' ∧ ∀ status, r = .ok status →
      status.ok = true ∨ status.error = -EEXIST) (c.mkdir path mode uid gid) s := by
  obtain ⟨node, home⟩ := get_of_named (reachable.masters (PathHash.pathToHash path))
  simp only [mkdir, reachable.isInitialized, home, Bool.not_true, Bool.false_eq_true, if_false,
    bind_eq, perform_bind]
  refine .call ?_
  rintro b s₁ ⟨answer, rfl, answers, refused⟩
  cases answer with
  | error ouch =>
    obtain rfl := stays_mkdir _ _ _ _ _ _ answers
    refine .ret ⟨.refl _, ?_⟩
    intro status same
    cases same
    exact .inr (refused ouch rfl).2
  | ok a =>
    have adds (info : RpcFileInfo) : MasterServer.Adds (.mkdir path info) := trivial
    have made : s.Extends 0 s₁ := Servers.extends_of_answers (adds _) answers
    refine .bind ((addSubfile_granted path s₁).imp ?_)
    rintro r s' ⟨listed, fine⟩
    cases r with
    | error exit => exact ⟨made.trans listed, by simp⟩
    | ok status =>
      obtain rfl := fine status rfl
      refine .ret ⟨made.trans listed, ?_⟩
      intro status same
      cases same
      exact .inl rfl

/-! ## Files -/

/-- The master of the path has a file with an id that leads back to the path. -/
def Filed (c : VSFSRpcClient) (s : Servers K) (path : Str) (o : ObjectId) : Prop :=
  ∃ node m, c.masterMap.getByPath path = (.OK, some node) ∧
    (s.masters node.address).namespace.metadataMap[path]? = some m ∧ m.objectId = o ∧
      (s.masters node.address).namespace.idToPathMap[o]? = some path

/-- A file is made, and then the masters have more. -/
def FileAdded (c : VSFSRpcClient) (path : Str) (s s' : Servers K) : Prop :=
  ∃ s₁ o, s.Extends 1 s₁ ∧ Filed c s₁ path o ∧ s₁.Extends 0 s'

omit [LawfulConsistentHashMap] in
theorem filed_of_answers {s s' : Servers K} {path : Str} {mode uid gid : BitVec 64}
    {oid : ObjectId} {node : NodeInfo} (home : c.masterMap.getByPath path = (.OK, some node))
    (h : s.Answers (.master node.address (.create path mode uid gid)) (.ok oid) s') :
    ∃ o, Filed c s' path o := by
  obtain ⟨now, mc, handled, rfl⟩ := Servers.answers_master h
  rcases MasterServer.answer_create handled with ⟨⟨_, wrong, -⟩, -⟩ | ⟨-, -, rfl⟩
  · cases wrong
  · refine ⟨_, node, Namespace.newFile ((s.masters node.address).namespace.nextId path)
      (mode.setWidth 32) (uid.setWidth 32) (gid.setWidth 32) now, home, ?_, rfl, ?_⟩
    · simp
    · simp

omit [ConsistentHashMap] [LawfulConsistentHashMap] in
theorem createLoop_granted (a : NodeAddress) (path : Str) (mode uid gid : BitVec 64)
    (s : Servers K) : Always Granted (fun r s' => ∃ oid, r = .ok (.OK, some oid) ∧
      s.Answers (.master a (.create path mode uid gid)) (.ok oid) s')
      (createLoop a path mode uid gid) s := by
  have turn (x : Nat × Status) (s' : Servers K) (inv : x = (kNumBackOffs, .OK) ∧ s' = s) :
      Always Granted (Turns Granted (fun x s' => x = (kNumBackOffs, .OK) ∧ s' = s) .ret
        fun r s' => ∃ oid, r = .ok (.OK, some oid) ∧
          s.Answers (.master a (.create path mode uid gid)) (.ok oid) s')
        (createTurn a path mode uid gid x) s' := by
    obtain ⟨rfl, rfl⟩ := inv
    refine .call ?_
    intro b s₁ granted
    have other : ¬ IsMkdir (.master a (.create path mode uid gid)) := fun h => h
    obtain ⟨oid, rfl, answers⟩ := granted.must other
    exact .ret (.ret ⟨oid, rfl, answers⟩)
  exact .iter turn ⟨rfl, rfl⟩

/-- A file is made and then listed. -/
theorem create_granted (reachable : Reachable c) (path : Str) (mode uid gid : BitVec 64)
    (s : Servers K) : Always Granted (fun r s' => ∀ status oid, r = .ok (status, oid) →
      status.ok = true ∧ FileAdded c path s s') (c.create path mode uid gid) s := by
  obtain ⟨node, home⟩ := get_of_named (reachable.masters (PathHash.pathToHash path))
  simp only [create, reachable.isInitialized, home, Bool.not_true, Bool.false_eq_true, if_false,
    bind_eq]
  refine .bind ((createLoop_granted node.address path _ uid gid s).imp ?_)
  rintro r s₁ ⟨oid, rfl, answers⟩
  obtain ⟨o, filed⟩ := filed_of_answers home answers
  have adds (mode : BitVec 64) : MasterServer.Adds (.create path mode uid gid) := trivial
  have made : s.Extends 1 s₁ := Servers.extends_of_answers (adds _) answers
  refine .bind ((addSubfile_granted path s₁).imp ?_)
  rintro r s' ⟨listed, fine⟩
  cases r with
  | error exit =>
    intro status oid' same
    cases same
  | ok status =>
    obtain rfl := fine status rfl
    refine .ret ?_
    intro status oid' same
    cases same
    exact ⟨rfl, s₁, o, made, filed, listed⟩

/-! ## Indices -/

omit [LawfulConsistentHashMap] in
theorem getattrStat_granted (reachable : Reachable c) (path : Str) (s : Servers K) :
    Always Granted (fun r s' => s' = s ∧ ∃ stat, r = .ok (.OK, some stat))
      (c.getattrStat path) s := by
  obtain ⟨node, home⟩ := get_of_named (reachable.masters (PathHash.pathToHash path))
  have found : c.masterMap.getByPath path = (.OK, some node) := home
  simp only [getattrStat, getattr, found, checkGet, bind_eq, ret_bind, perform_bind, call_bind]
  refine .call ?_
  intro b s₁ granted
  have other : ¬ IsMkdir (.master node.address (.getattr path)) := fun h => h
  obtain ⟨info, rfl, answers⟩ := granted.must other
  obtain ⟨now, mc, handled, rfl⟩ := Servers.answers_master answers
  rw [(MasterServer.answer_getattr handled).1, s.setMaster_self]
  exact .ret ⟨rfl, _, rfl⟩

omit [KeyTypes K] [FsPath] [PathHash] [ConsistentHashMap] [LawfulConsistentHashMap]
  [ThriftSerialize FileMetadata] [ThriftSerialize IndexNamespaceNode] in
theorem OnMaster.extends {s s' : Servers K} {k : Nat} {root name : Str}
    (h : OnMaster c s root name) (more : s.Extends k s') : OnMaster c s' root name := by
  obtain ⟨sep, node, onRing, registered⟩ := h
  exact ⟨sep, node, onRing, (more.masters _).registered registered⟩

/-- The index is registered, and then the file of its partition is made. -/
theorem registerIndex_granted (reachable : Reachable c) {request : IndexCreateRequest}
    (hr : Normal request.root) (s : Servers K) :
    Always Granted (fun r s' => ∀ status, r = .ok status → ∃ s₁, s.Extends 0 s₁ ∧
      OnMaster c s₁ request.root request.name ∧
      FileAdded c (PathUtil.partitionPath request.root request.name 0) s₁ s')
      (c.registerIndex request) s := by
  obtain ⟨node, home⟩ := get_of_named (reachable.masters
    (PathHash.pathToHash (PathUtil.indexPath request.root request.name)))
  obtain ⟨sep, onRing⟩ := ServerMap.onRing_of_get (congrArg Prod.snd home)
  simp only [registerIndex, home, checkGet, bind_eq, ret_bind, perform_bind]
  refine .call ?_
  intro b s₁ granted
  have other : ¬ IsMkdir (.master node.address (.createIndex request)) := fun h => h
  obtain ⟨⟨⟩, rfl, answers⟩ := granted.must other
  have registered := (Servers.indexRegistered answers).2.1
  have adds : MasterServer.Adds (.createIndex request) := hr
  have more : s.Extends 0 s₁ := Servers.extends_of_answers adds answers
  simp only [Status.ok_OK, Bool.not_true, Bool.false_eq_true, if_false]
  refine .bind ((create_granted reachable _ _ _ _ s₁).imp ?_)
  intro r s' created
  cases r with
  | error exit =>
    intro status same
    cases same
  | ok out =>
    obtain ⟨status, oid⟩ := out
    obtain ⟨ok, added⟩ := created status oid rfl
    simp only [Leads, ok, Bool.not_true, Bool.false_eq_true, if_false]
    refine .ret ?_
    intro status' same
    exact ⟨s₁, more, ⟨sep, node, onRing, registered⟩, added⟩

/-- The partition is made on its server, if the index has one there; then the index is
registered and the file of the partition is made. -/
def IndexAdded (c : VSFSRpcClient) (root name : Str) (s s' : Servers K) : Prop :=
  ∃ a id indexType keyType im s₁, (s.indexServers a).create id (PathUtil.partitionPath root name 0)
      name indexType keyType = (.OK, im) ∧
    (s.setIndexServer a im).Extends 0 s₁ ∧ OnMaster c s₁ root name ∧
    FileAdded c (PathUtil.partitionPath root name 0) s₁ s'

theorem createIndex_granted (reachable : Reachable c) {root : Str} (hr : Normal root) (name : Str)
    (indexType keyType : BitVec 32) (mode uid gid : BitVec 64) (s : Servers K) :
    Always Granted (fun r s' => ∀ status, r = .ok status → status.ok = true →
      IndexAdded c root name s s') (c.createIndex root name indexType keyType mode uid gid) s := by
  unfold createIndex
  refine .bind ((getattrStat_granted reachable root s).imp ?_)
  rintro r s' ⟨rfl, stat, rfl⟩
  simp only [Leads]
  split
  · refine .ret ?_
    intro status same ok
    cases same
    cases ok
  obtain ⟨node, home⟩ := get_of_named (reachable.indexServers
    (PathHash.pathToHash (PathUtil.partitionPath root name 0)))
  simp only [home, checkGet, bind_eq, ret_bind, perform_bind]
  refine .call ?_
  intro b s₁ granted
  have other (request : IndexCreateRequest) :
      ¬ IsMkdir (.index node.address (.createIndex request)) := fun h => h
  obtain ⟨⟨⟩, rfl, answers⟩ := granted.must (other _)
  obtain ⟨id, im, handled, rfl⟩ := Servers.answers_index answers
  cases out : (s'.indexServers node.address).create id (PathUtil.partitionPath root name 0) name
    indexType.toInt keyType.toInt with
  | mk status im' =>
    simp only [IndexServer.handle, out, Except.ok.injEq, Prod.mk.injEq] at handled
    obtain ⟨ok, rfl⟩ := handled
    have fine : status = .OK := by
      rcases IndexManager.create_spec out with ⟨bad, -⟩ | ⟨fine, -⟩
      · simp [checkStatus, bad] at ok
      · exact fine
    subst fine
    simp only [Status.ok_OK, Bool.not_true, Bool.false_eq_true, if_false]
    refine .bind ((mkdir_granted reachable _ mode uid gid _).imp ?_)
    rintro r s₂ ⟨more, fine⟩
    cases r with
    | error exit =>
      intro status same
      cases same
    | ok status =>
      have carryOn : ¬ ((!status.ok) = true ∧ status.error ≠ -EEXIST) := by
        rcases fine status rfl with ok | there
        · simp [ok]
        · simp [there]
      simp only [Leads, carryOn, if_false]
      have run := registerIndex_granted reachable
        (show Normal (⟨root, name, indexType, keyType, mode, uid, gid⟩ : IndexCreateRequest).root
          from hr) s₂
      refine run.imp ?_
      intro r s₃ registered status' same _
      obtain ⟨s₄, more', onMaster, added⟩ := registered status' same
      exact ⟨node.address, id, indexType.toInt, keyType.toInt, im', s₄, out, more.trans more',
        onMaster, added⟩

end Granted

end Vsfs.Client

import Mathlib.Logic.Relation
import Vsfs.Client.Calls
import Vsfs.Client.Results
import Vsfs.Client.Truthful

/-!
# Removing an index

`VSFSRpcClient::remove_index` unlinks the partitions of an index and asks the index server
of each to remove it. The index servers do nothing, and no master is asked to take the
registration back.

## Main results

* `removeIndex_leaves_index` : after `create_index` and `remove_index` the masters locate
  what they located before the removal, the index servers have the indices they had, and
  the index cannot be made again.
-/

namespace Vsfs.Client

open Std Program Prog Masterd Indexd Index FiniteMap VSFSRpcClient

section Removal

variable [FsPath] [PathHash] [ConsistentHashMap]

/-! ## Servers that answer -/

variable {K : Type} [LinearOrder K] [KeyTypes K] [ThriftSerialize FileMetadata]
  [ThriftSerialize IndexNamespaceNode]

/-- The servers come from one state to the other by answering RPCs, of whatever clients. -/
def Reaches : Servers K → Servers K → Prop :=
  Relation.ReflTransGen fun s s' => ∃ (α : Type) (rpc : Rpc α) (answer : Except RpcInvalidOp α),
    s.Answers rpc answer s'

omit [ConsistentHashMap] in
theorem reaches_of_evals {α : Type} {p : ClientM α} {s s' : Servers K} {r : Except Exit α}
    (run : Evals Delivered p s r s') : Reaches s s' := by
  induction run with
  | ret => exact .refl
  | throw => exact .refl
  | call now _ ih =>
    obtain ⟨answer, answered, -⟩ := now
    exact .head ⟨_, _, answer, answered⟩ ih
  | iter _ ih => exact ih

omit [ConsistentHashMap] in
theorem kept_of_reaches {s s' : Servers K} (h : Reaches s s') (a : NodeAddress) :
    IndexServer.Kept (s.indexServers a) (s'.indexServers a) := by
  induction h with
  | refl => exact .of_eq rfl
  | tail _ step ih =>
    obtain ⟨α, rpc, answer, answered⟩ := step
    refine ih.trans ?_
    cases rpc with
    | master address request =>
      obtain ⟨now, mc, -, rfl⟩ := Servers.answers_master answered
      exact .of_eq rfl
    | index address request =>
      obtain ⟨id, im, handled, rfl⟩ := Servers.answers_index answered
      by_cases same : a = address
      · subst same
        simpa using IndexServer.kept_of_handle handled
      · exact .of_eq (by simp [same])

/-! ## Making an index -/

/-- What the client sends to the index server for a new index. -/
def partitionRequest (root name : Str) (indexType keyType : BitVec 32) (mode uid gid : BitVec 64) :
    IndexCreateRequest :=
  { root := PathUtil.partitionPath root name 0, name, indexType, keyType, mode, uid, gid }

omit [ConsistentHashMap] in
theorem not_ok_of_refused {address : NodeAddress} {request : IndexCreateRequest}
    {s s' : Servers K} {ouch : RpcInvalidOp}
    (h : s.Answers (.index address (.createIndex request)) (.error ouch) s') :
    (RpcError.invalidOp ouch).status.ok = false := by
  obtain ⟨id, im, handled, -⟩ := Servers.answers_index h
  simp only [IndexServer.handle, Except.ok.injEq, Prod.mk.injEq] at handled
  have refused := handled.1
  unfold checkStatus at refused
  split at refused
  · cases refused
  · rename_i bad
    cases refused
    simpa [RpcError.status, Status.ok] using bad

/-- Without attributes there is no success. -/
theorem getattrStat_none {c : VSFSRpcClient} {path : Str} {s s' : Servers K} {status : Status}
    (run : Evals Delivered (c.getattrStat path) s (.ok (status, none)) s') :
    status.ok = false := by
  unfold getattrStat at run
  rcases run.bind_cases with ⟨⟨status', info⟩, s₁, -, last⟩ | ⟨e, wrong, -⟩
  · cases ok : status'.ok with
    | true =>
      simp only [ok, Bool.not_true, Bool.false_eq_true, if_false] at last
      cases last
    | false =>
      simp only [ok, Bool.not_false, if_true] at last
      cases last
      exact ok
  · cases wrong

/-- A `create_index` that succeeds has made the partition on its index server. -/
theorem createIndex_ok {c : VSFSRpcClient} {root name : Str} {indexType keyType : BitVec 32}
    {mode uid gid : BitVec 64} {s s' : Servers K}
    (run : Evals Delivered (c.createIndex root name indexType keyType mode uid gid) s
      (.ok .OK) s') :
    ∃ node s₁ s₂,
      (c.indexServerMap.get (PathHash.pathToHash (PathUtil.partitionPath root name 0))).2 =
        some node ∧
      Reaches s s₁ ∧ s₁.Answers (.index node.address
        (.createIndex (partitionRequest root name indexType keyType mode uid gid))) (.ok ()) s₂ ∧
      Reaches s₂ s' := by
  unfold createIndex at run
  rcases run.bind_cases with ⟨⟨status, stbuf⟩, s₁, first, rest⟩ | ⟨e, wrong, -⟩
  · cases stbuf with
    | none =>
      cases rest
      cases getattrStat_none first
    | some stbuf =>
      by_cases dir : S_ISDIR stbuf.mode
      · cases home : (c.indexServerMap.get
            (PathHash.pathToHash (PathUtil.partitionPath root name 0))).2 with
        | none =>
          simp only [dir, not_true, if_false] at rest
          rw [checkGet_none home] at rest
          cases rest
        | some node =>
          simp only [dir, not_true, if_false] at rest
          rw [checkGet_some home] at rest
          cases rest with
          | call now rest =>
            obtain ⟨answer, answered, rfl⟩ := now
            refine ⟨node, s₁, _, rfl, reaches_of_evals first, ?_, reaches_of_evals rest⟩
            cases answer with
            | ok _ => exact answered
            | error ouch =>
              have bad := not_ok_of_refused answered
              change Evals Delivered (if !(RpcError.invalidOp ouch).status.ok then
                .ret (RpcError.invalidOp ouch).status else _) _ _ _ at rest
              rw [bad] at rest
              generalize (RpcError.invalidOp ouch).status = status at rest bad
              cases rest
              cases bad
      · simp only [dir, not_false_iff, if_true] at rest
        cases rest
  · cases wrong

/-! ## Removing it -/

/-- The registrations and the index servers are as before. -/
structure SameIndices (s s' : Servers K) : Prop where
  registrations : ∀ a, (s'.masters a).indexNamespace = (s.masters a).indexNamespace
  servers : s'.indexServers = s.indexServers

omit [ConsistentHashMap] in
theorem indexNamespace_of_handle {mc mc' : MasterController} {now : Double} {α : Type}
    {address : NodeAddress} {request : MasterRpc α} {answer : Except RpcInvalidOp α}
    (allowed : RemovalRpc α (.master address request))
    (h : MasterServer.handle mc now request = .ok (answer, mc')) :
    mc'.indexNamespace = mc.indexNamespace := by
  cases request with
  | readdir path =>
    cases h
    rfl
  | removeSubfile parent subfile =>
    cases h
    rfl
  | remove path =>
    cases out : mc.namespace.remove .OK path with
    | error crash =>
      simp [MasterServer.handle, MasterController.remove, out, Bind.bind, Except.bind] at h
    | ok removed =>
      simp only [MasterServer.handle, MasterController.remove, out, Bind.bind, Except.bind, pure,
        Except.pure] at h
      cases h
      rfl
  | _ => cases allowed

omit [ConsistentHashMap] in
theorem SameIndices.answers {s₀ s s' : Servers K} {α : Type} {rpc : Rpc α}
    {answer : Except RpcInvalidOp α} (allowed : RemovalRpc α rpc) (h : s.Answers rpc answer s')
    (same : SameIndices s₀ s) : SameIndices s₀ s' := by
  cases rpc with
  | master address request =>
    obtain ⟨now, mc, handled, rfl⟩ := Servers.answers_master h
    have kept : mc.indexNamespace = (s.masters address).indexNamespace :=
      indexNamespace_of_handle allowed handled
    refine ⟨fun a => ?_, same.servers⟩
    by_cases here : a = address
    · subst here
      simp [kept, same.registrations]
    · simp [here, same.registrations]
  | index address request =>
    obtain ⟨id, im, handled, rfl⟩ := Servers.answers_index h
    cases request with
    | removeIndex root name =>
      cases handled
      exact ⟨same.registrations, by simpa [Servers.setIndexServer] using same.servers⟩
    | createIndex index => cases allowed
    | update updates => cases allowed
    | search query => cases allowed
    | info txnId path => cases allowed

theorem sameIndices_of_removeIndex {c : VSFSRpcClient} {root name : Str} {s s' : Servers K}
    {r : Except Exit Status} (run : Evals Delivered (c.removeIndex root name) s r s') :
    SameIndices s s' := by
  have keeps (β : Type) (rpc : Rpc β) (s₁ : Servers K) (b : Except RpcError β) (s₂ : Servers K)
      (allowed : RemovalRpc β rpc) (answered : Delivered β rpc s₁ b s₂)
      (same : SameIndices s s₁) : SameIndices s s₂ := by
    obtain ⟨answer, answered, -⟩ := answered
    exact same.answers allowed answered
  exact run.invariant keeps (removeIndex_calls c root name) ⟨fun _ => rfl, rfl⟩

omit [KeyTypes K] [PathHash] [ConsistentHashMap] [ThriftSerialize FileMetadata]
  [ThriftSerialize IndexNamespaceNode] in
theorem SameIndices.located {s s' : Servers K} (same : SameIndices s s') (c : VSFSRpcClient)
    (query : ComplexQuery) : located c query s' = located c query s := by
  simp only [Vsfs.Client.located, MasterController.locateIndicesForSearch, same.registrations]

/-! ## What a removal is to do -/

/-- The index that was asked for is on its index server and has no records. -/
def EmptyIndex (c : VSFSRpcClient) (request : IndexCreateRequest) (s : Servers K) : Prop :=
  ∃ node w, (c.indexServerMap.get (PathHash.pathToHash request.root)).2 = some node ∧
    (s.indexServers node.address).indexInfoMap[request.root]? =
      some ⟨request.root, request.name, request.indexType.toInt, request.keyType.toInt⟩ ∧
    (s.indexServers node.address).rangeIndexMap[request.root]? = some w ∧
    w.index.pairs = ∅ ∧ w.logManager.log = []

/-- The index is not located and not searched, and can be made again, without records. -/
structure Undone (c : VSFSRpcClient) (root name : Str) (indexType keyType : BitVec 32)
    (mode uid gid : BitVec 64) (s : Servers K) : Prop where
  unlocated : ∀ query, PathUtil.indexPath root name ∉ located c query s
  unsearched : ∀ query, PathUtil.partitionPath root name 0 ∉ partitions c query s
  remade : ∃ s', Evals Delivered (c.createIndex root name indexType keyType mode uid gid) s
      (.ok .OK) s' ∧
    EmptyIndex c (partitionRequest root name indexType keyType mode uid gid) s'

/-- An index that was made cannot be made again, whatever the servers answer since. -/
theorem not_remade {c : VSFSRpcClient} {root name : Str} {indexType keyType : BitVec 32}
    {mode uid gid : BitVec 64} {s₀ s₁ s₂ s₃ : Servers K}
    (first : Evals Delivered (c.createIndex root name indexType keyType mode uid gid) s₀
      (.ok .OK) s₁) (later : Reaches s₁ s₂)
    (second : Evals Delivered (c.createIndex root name indexType keyType mode uid gid) s₂
      (.ok .OK) s₃) :
    ¬ EmptyIndex c (partitionRequest root name indexType keyType mode uid gid) s₃ := by
  rintro ⟨node, w, home, info, -⟩
  obtain ⟨node₁, a, b, home₁, -, made, after⟩ := createIndex_ok first
  obtain ⟨node₂, a', b', home₂, before', made', -⟩ := createIndex_ok second
  cases home.symm.trans home₁
  cases home.symm.trans home₂
  obtain ⟨new, -, there⟩ := Servers.partitionCreated made
  obtain ⟨new', -, -⟩ := Servers.partitionCreated made'
  by_cases hash : indexType.toInt = IndexInfo.HASH
  · -- A `HASH` index is never there.
    have kept := kept_of_reaches (.head ⟨_, _, _, made⟩ (after.trans (later.trans
      (reaches_of_evals second)))) node.address
    rcases kept.new info with old | tree
    · exact new ((mem_iff_exists _ _).mpr ⟨_, old⟩)
    · exact absurd (hash.symm.trans tree) (by decide)
  · -- Another one is there when it is asked for again.
    exact new' ((kept_of_reaches (after.trans (later.trans before')) node.address).old
      (there hash).1)

/-- A removal leaves what the masters locate and the index servers as they were, and never
undoes the creation. -/
theorem removeIndex_leaves_index (c : VSFSRpcClient) (root name : Str)
    (indexType keyType : BitVec 32) (mode uid gid : BitVec 64) (s₀ s₁ s₂ s₃ : Servers K)
    (created : Evals Delivered (c.createIndex root name indexType keyType mode uid gid) s₀
      (.ok .OK) s₁) (later : Reaches s₁ s₂)
    (removed : Evals Delivered (c.removeIndex root name) s₂ (.ok .OK) s₃) :
    (∀ query, located c query s₃ = located c query s₂) ∧ s₃.indexServers = s₂.indexServers ∧
      ¬ Undone c root name indexType keyType mode uid gid s₃ := by
  have same := sameIndices_of_removeIndex removed
  refine ⟨same.located c, same.servers, ?_⟩
  rintro ⟨-, -, s₄, again, empty⟩
  exact not_remade created (later.trans (reaches_of_evals removed)) again empty

end Removal

section Example

attribute [local instance] SortedRing.consistentHashMap Posix.fsPath Md5.pathHash
  BinaryProtocol.fileMetadataThrift BinaryProtocol.indexNamespaceNode uint64Keys

/-- Serve every RPC at time zero. -/
def serving (β : Type) (rpc : Rpc β) (s : Servers Int) : Option (Except RpcError β × Servers Int) :=
  match s.serve 0 0 rpc with
  | .ok (answer, s') => some (answer.mapError .invalidOp, s')
  | .error _ => none

theorem serving_sound (β : Type) (rpc : Rpc β) (s : Servers Int) (b : Except RpcError β)
    (s' : Servers Int) (h : serving β rpc s = some (b, s')) : Delivered β rpc s b s' := by
  unfold serving at h
  split at h
  · rename_i answer s₁ served
    cases h
    exact ⟨answer, ⟨0, 0, served⟩, rfl⟩
  · cases h

/-- A `BTREE` index `size` on `/d` is made. -/
def makeSize : Option (Except Exit Status × Servers Int) :=
  eval serving 30 (oneServer.createIndex "/d".toList "size".toList 2 0 0o755 0 0) oneDirectory

/-- The index is made and removed. -/
def makeAndRemoveSize : Option (Except Exit Status × Servers Int) :=
  makeSize.bind fun out => eval serving 30 (oneServer.removeIndex "/d".toList "size".toList) out.2

/-- A search for all sizes under `/d`. -/
def anySize : ComplexQuery where
  root := "/d".toList
  rangeQueryMap := (∅ : ExtTreeMap Str StringRange).insert "size".toList ⟨[], false, [], false⟩

theorem makeAndRemoveSize_runs : ∃ s₁ s₂,
    Evals Delivered (oneServer.createIndex "/d".toList "size".toList 2 0 0o755 0 0) oneDirectory
      (.ok .OK) s₁ ∧
    Evals Delivered (oneServer.removeIndex "/d".toList "size".toList) s₁ (.ok .OK) s₂ ∧
    (located oneServer anySize s₂).contains (PathUtil.indexPath "/d".toList "size".toList) := by
  have ran : makeSize.map (·.1) = some (.ok .OK) ∧
      makeAndRemoveSize.map (fun out => decide (out.1 = .ok .OK ∧
        (located oneServer anySize out.2).contains
          (PathUtil.indexPath "/d".toList "size".toList))) = some true := by
    decide +kernel
  obtain ⟨⟨r₁, s₁⟩, run₁, ok₁⟩ := Option.map_eq_some_iff.mp ran.1
  obtain ⟨⟨r₂, s₂⟩, run₂, seen⟩ := Option.map_eq_some_iff.mp ran.2
  obtain ⟨ok₂, still⟩ := of_decide_eq_true seen
  cases ok₁
  cases ok₂
  rw [makeAndRemoveSize, run₁, Option.bind_some] at run₂
  exact ⟨s₁, s₂, eval_sound serving_sound run₁, eval_sound serving_sound run₂, still⟩

/-- The masters locate the index that was removed. -/
theorem removed_size_located : ∃ s₁ s₂,
    Evals Delivered (oneServer.createIndex "/d".toList "size".toList 2 0 0o755 0 0) oneDirectory
      (.ok .OK) s₁ ∧
    Evals Delivered (oneServer.removeIndex "/d".toList "size".toList) s₁ (.ok .OK) s₂ ∧
    PathUtil.indexPath "/d".toList "size".toList ∈ located oneServer anySize s₂ := by
  obtain ⟨s₁, s₂, made, removed, still⟩ := makeAndRemoveSize_runs
  exact ⟨s₁, s₂, made, removed, by simpa using still⟩

theorem size_left_behind : ∃ s₁ s₂,
    Evals Delivered (oneServer.createIndex "/d".toList "size".toList 2 0 0o755 0 0) oneDirectory
      (.ok .OK) s₁ ∧
    Evals Delivered (oneServer.removeIndex "/d".toList "size".toList) s₁ (.ok .OK) s₂ ∧
    (∀ query, located oneServer query s₂ = located oneServer query s₁) ∧
    s₂.indexServers = s₁.indexServers ∧
    ¬ Undone oneServer "/d".toList "size".toList 2 0 0o755 0 0 s₂ := by
  obtain ⟨s₁, s₂, made, removed, -⟩ := makeAndRemoveSize_runs
  exact ⟨s₁, s₂, made, removed, removeIndex_leaves_index oneServer "/d".toList "size".toList 2 0
    0o755 0 0 oneDirectory s₁ s₁ s₂ made .refl removed⟩

end Example

end Vsfs.Client

import Vsfs.Client.Atomicity
import Vsfs.Client.Calls

/-!
# After the failed attempt

When one attempt of an operation has failed, all the others are served. `create_index` goes on
with a registration that has failed: it unlinks the partitions of the index, and then makes the
file of the new one all the same.

## Main results

* `removeIndex_ends` : a rollback is carried out, and it leaves indices and directories alone.
* `registerIndex_ends` : what becomes of the registration of an index.
-/

namespace Vsfs.Client

open Std Program Prog Masterd Indexd Index FiniteMap VSFSRpcClient

/-- Requests that do not make or remove an index, nor the directory `p`. -/
def Elsewhere (p : Str) : (β : Type) → Rpc β → Prop
  | _, .master _ (.mkdir path _) => path ≠ p
  | _, .master _ (.addSubfile _ _) => True
  | _, .master _ (.create _ _ _ _) => True
  | _, rpc => RemovalRpc _ rpc

theorem elsewhere_of_removal {p : Str} {β : Type} {rpc : Rpc β} (removal : RemovalRpc β rpc) :
    Elsewhere p β rpc := by
  cases rpc with
  | index address request => exact removal
  | master address request =>
    cases request with
    | readdir | removeSubfile | remove => trivial
    | _ => exact removal.elim

variable {K : Type} [LinearOrder K]

/-- The indices are the same, and `p` is a directory where it was one. -/
structure Undisturbed (p : Str) (s t : Servers K) : Prop where
  indices : ∀ a, (t.masters a).indexNamespace = (s.masters a).indexNamespace
  partitions : t.indexServers = s.indexServers
  directory : ∀ a, p ∈ (t.masters a).namespace.directories ↔ p ∈ (s.masters a).namespace.directories

theorem Undisturbed.refl (p : Str) (s : Servers K) : Undisturbed p s s :=
  ⟨fun _ => rfl, rfl, fun _ => .rfl⟩

theorem Undisturbed.trans {p : Str} {s t u : Servers K} (h : Undisturbed p s t)
    (h' : Undisturbed p t u) : Undisturbed p s u :=
  ⟨fun a => (h'.indices a).trans (h.indices a), h'.partitions.trans h.partitions,
    fun a => (h'.directory a).trans (h.directory a)⟩

theorem undisturbed_setMaster {p : Str} {s : Servers K} {address : NodeAddress}
    {mc : MasterController}
    (indices : mc.indexNamespace = (s.masters address).indexNamespace)
    (directory : p ∈ mc.namespace.directories ↔ p ∈ (s.masters address).namespace.directories) :
    Undisturbed p s (s.setMaster address mc) := by
  refine ⟨fun a => ?_, rfl, fun a => ?_⟩
  · by_cases same : a = address
    · subst same
      simpa using indices
    · simp [same]
  · by_cases same : a = address
    · subst same
      simpa using directory
    · simp [same]

/-- A directory stays one when its listing changes. -/
theorem mem_insert_of_found {directories : ExtTreeMap Str Directory} {parent p : Str}
    {dir dir' : Directory} (found : directories[parent]? = some dir) :
    p ∈ directories.insert parent dir' ↔ p ∈ directories := by
  rw [ExtTreeMap.mem_insert, Std.compare_eq_iff_eq]
  refine ⟨fun h => h.elim (fun same => ?_) id, .inr⟩
  exact same ▸ (mem_iff_exists _ _).mpr ⟨dir, found⟩

variable [KeyTypes K] [FsPath] [PathHash] [ThriftSerialize FileMetadata]
  [ThriftSerialize IndexNamespaceNode]

omit [KeyTypes K] in
theorem undisturbed_of_handle {p : Str} {α : Type} {address : NodeAddress} {request : MasterRpc α}
    {mc mc' : MasterController} {now : Double} {answer : Except RpcInvalidOp α}
    (elsewhere : Elsewhere p α (.master address request))
    (h : MasterServer.handle mc now request = .ok (answer, mc')) :
    mc'.indexNamespace = mc.indexNamespace ∧
      (p ∈ mc'.namespace.directories ↔ p ∈ mc.namespace.directories) := by
  cases request with
  | mkdir path info =>
    rcases MasterServer.answer_mkdir h with ⟨-, rfl⟩ | ⟨-, -, rfl⟩
    · exact ⟨rfl, .rfl⟩
    · have other : path ≠ p := elsewhere
      exact ⟨rfl, by simp [other]⟩
  | addSubfile parent subfile =>
    rcases MasterServer.answer_addSubfile h with ⟨-, rfl⟩ | ⟨dir, found, -, -, rfl⟩
    · exact ⟨rfl, .rfl⟩
    · exact ⟨rfl, mem_insert_of_found found⟩
  | removeSubfile parent subfile =>
    rcases MasterServer.answer_removeSubfile h with ⟨-, rfl⟩ | ⟨dir, found, -, -, rfl⟩
    · exact ⟨rfl, .rfl⟩
    · exact ⟨rfl, mem_insert_of_found found⟩
  | create path mode uid gid =>
    rcases MasterServer.answer_create h with ⟨-, rfl⟩ | ⟨-, -, rfl⟩ <;> exact ⟨rfl, .rfl⟩
  | remove path =>
    rcases MasterServer.answer_remove h with ⟨⟨-, rfl⟩, -⟩ | ⟨_, -, -, -, -, rfl⟩ <;>
      exact ⟨rfl, .rfl⟩
  | readdir path =>
    cases h
    exact ⟨rfl, .rfl⟩
  | _ => exact elsewhere.elim

theorem Servers.undisturbed {p : Str} {s t : Servers K} {β : Type} {rpc : Rpc β}
    {answer : Except RpcInvalidOp β} (elsewhere : Elsewhere p β rpc)
    (h : s.Answers rpc answer t) : Undisturbed p s t := by
  cases rpc with
  | master address request =>
    obtain ⟨now, mc, handled, rfl⟩ := Servers.answers_master h
    obtain ⟨indices, directory⟩ := undisturbed_of_handle elsewhere handled
    exact undisturbed_setMaster indices directory
  | index address request =>
    obtain ⟨id, im, handled, rfl⟩ := Servers.answers_index h
    cases request with
    | removeIndex root name =>
      cases handled
      simpa [Servers.setIndexServer] using Undisturbed.refl p s
    | _ => exact elsewhere.elim

/-- A removal makes no record. -/
theorem Servers.records_of_removal {s t : Servers K} {β : Type} {rpc : Rpc β}
    {answer : Except RpcInvalidOp β} (removal : RemovalRpc β rpc) (h : s.Answers rpc answer t)
    {a : NodeAddress} {q : Str} (there : q ∈ (t.masters a).namespace.metadataMap) :
    q ∈ (s.masters a).namespace.metadataMap := by
  cases rpc with
  | index address request =>
    obtain ⟨id, im, handled, rfl⟩ := Servers.answers_index h
    exact there
  | master address request =>
    obtain ⟨now, mc, handled, rfl⟩ := Servers.answers_master h
    by_cases same : a = address
    · subst same
      rw [Servers.setMaster_masters, Function.update_self] at there
      cases request with
      | removeSubfile parent subfile =>
        rcases MasterServer.answer_removeSubfile handled with ⟨-, rfl⟩ | ⟨dir, -, -, -, rfl⟩ <;>
          exact there
      | remove path =>
        rcases MasterServer.answer_remove handled with ⟨⟨-, rfl⟩, -⟩ | ⟨_, -, -, -, -, rfl⟩
        · exact there
        · exact ExtTreeMap.mem_of_mem_erase there
      | readdir path =>
        cases handled
        exact there
      | _ => exact removal.elim
    · simpa [same] using there

/-! ## Attempts -/

section Attempts

variable {allowed : Failure → Prop} {β : Type} {rpc : Rpc β} {s s' : Session K}
  {b : Except RpcError β}

theorem Attempt.undisturbed {p : Str} (elsewhere : Elsewhere p β rpc)
    (h : Attempt allowed β rpc s b s') : Undisturbed p s.servers s'.servers := by
  cases h with
  | served h => exact Servers.undisturbed elsewhere h
  | refused _ _ h => exact Servers.undisturbed elsewhere h
  | lost => exact .refl _ _

theorem Attempt.records (removal : RemovalRpc β rpc) (h : Attempt allowed β rpc s b s')
    {a : NodeAddress} {q : Str} (there : q ∈ (s'.servers.masters a).namespace.metadataMap) :
    q ∈ (s.servers.masters a).namespace.metadataMap := by
  cases h with
  | served h => exact Servers.records_of_removal removal h there
  | refused _ _ h => exact Servers.records_of_removal removal h there
  | lost => exact there

/-- After the failed attempt all others are served. -/
theorem Attempt.spent (spent : s.failures ≠ []) (h : Attempt allowed β rpc s b s') :
    ∃ a, b = .ok a ∧ s.servers.Answers rpc (.ok a) s'.servers ∧ s'.failures = s.failures := by
  cases h with
  | served h => exact ⟨_, rfl, h, rfl⟩
  | refused first => exact absurd first spent
  | lost first => exact absurd first spent

/-- A program leaves the one failure alone. -/
theorem ends_spent {α : Type} {post : Except Exit α → Session K → Prop} {prog : ClientM α}
    (total : Ends (Attempt allowed) post prog s) (spent : s.failures ≠ []) :
    Ends (Attempt allowed) (fun r s' => post r s' ∧ s'.failures = s.failures) prog s := by
  refine total.invariant (fun β rpc s₁ b s₂ _ h now => ?_) (calls_any prog) rfl
  obtain ⟨a, -, -, same⟩ := h.spent (now ▸ spent)
  exact same.trans now

theorem ends_undisturbed {α : Type} {post : Except Exit α → Session K → Prop} (p : Str)
    {prog : ClientM α} (total : Ends (Attempt allowed) post prog s)
    (calls : prog.Calls (Elsewhere p)) :
    Ends (Attempt allowed) (fun r s' => post r s' ∧ Undisturbed p s.servers s'.servers) prog s :=
  total.invariant (fun _ _ _ _ _ elsewhere h now => now.trans (h.undisturbed elsewhere)) calls
    (.refl p s.servers)

theorem ends_records {α : Type} {post : Except Exit α → Session K → Prop} {prog : ClientM α}
    (total : Ends (Attempt allowed) post prog s) (calls : prog.Calls RemovalRpc) :
    Ends (Attempt allowed) (fun r s' => post r s' ∧
      ∀ a q, q ∈ (s'.servers.masters a).namespace.metadataMap →
        q ∈ (s.servers.masters a).namespace.metadataMap) prog s :=
  total.invariant (fun _ _ _ _ _ removal h now a q there => now a q (h.records removal there))
    calls fun _ _ there => there

end Attempts

/-! ## Rolling back -/

section Rollback

variable [ConsistentHashMap] [LawfulConsistentHashMap] {allowed : Failure → Prop}
  {c : VSFSRpcClient} {s : Session K}

theorem removeSubfile_ends (ring : c.masterMap.ring ≠ ∅) (path : Str) (spent : s.failures ≠ []) :
    Ends (Attempt allowed) (fun r s' => r = .ok .OK ∧ s'.failures = s.failures)
      (c.removeSubfile path) s := by
  unfold removeSubfile
  split
  · exact .ret ⟨rfl, rfl⟩
  · obtain ⟨node, home⟩ := ServerMap.get_of_ring_ne ring
      (PathHash.pathToHash (FsPath.parentPath path))
    simp only [home, checkGet, bind_eq, ret_bind]
    refine .iter (.call fun b s₁ h₁ => ?_)
    obtain ⟨a, rfl, -, same⟩ := h₁.spent spent
    exact .ret ⟨rfl, same⟩

theorem unlink_ends (ring : c.masterMap.ring ≠ ∅) (path : Str) (spent : s.failures ≠ []) :
    Ends (Attempt allowed) (fun r s' => (∃ out, r = .ok out) ∧ s'.failures = s.failures)
      (c.unlink path) s := by
  obtain ⟨node, home⟩ := ServerMap.get_of_ring_ne ring (PathHash.pathToHash path)
  have found : c.masterMap.getByPath path = (.OK, some node) := home
  unfold unlink
  refine .bind ((removeSubfile_ends ring path spent).imp ?_)
  rintro r s₁ ⟨rfl, same⟩
  simp only [Then, Status.ok_OK, Bool.not_true, Bool.false_eq_true, if_false, found, checkGet,
    bind_eq, ret_bind, perform_bind]
  refine .call fun b s₂ h₂ => ?_
  obtain ⟨a, rfl, -, same'⟩ := h₂.spent (same ▸ spent)
  exact .ret ⟨⟨_, rfl⟩, same'.trans same⟩

/-- A rollback is carried out, where the index has a directory. -/
theorem removeIndex_done (ring : c.masterMap.ring ≠ ∅) (indexRing : c.indexServerMap.ring ≠ ∅)
    (root name : Str) (spent : s.failures ≠ []) :
    Ends (Attempt allowed) (fun r s' => r = .ok .OK ∧ s'.failures = s.failures ∧
      ∀ node, c.masterMap.getByPath (PathUtil.indexPath root name) = (.OK, some node) →
        PathUtil.indexPath root name ∈ (s.servers.masters node.address).namespace.directories)
      (c.removeIndex root name) s := by
  obtain ⟨node, home⟩ := ServerMap.get_of_ring_ne ring
    (PathHash.pathToHash (PathUtil.indexPath root name))
  simp only [removeIndex, readdir, home, checkGet, bind_eq, ret_bind, perform_bind, call_bind]
  refine .call fun b s₁ h₁ => ?_
  obtain ⟨partitions, rfl, answered, same⟩ := h₁.spent spent
  have there : ∀ node', c.masterMap.getByPath (PathUtil.indexPath root name) = (.OK, some node') →
      PathUtil.indexPath root name ∈
        (s.servers.masters node'.address).namespace.directories := by
    intro node' home'
    cases home.symm.trans home'
    obtain ⟨now, mc, handled, -⟩ := Servers.answers_master answered
    exact MasterServer.answer_readdir handled
  simp only [pure_eq, ret_bind, Status.ok_OK, Bool.not_true, Bool.false_eq_true, if_false]
  refine Ends.foldlM (fun done part rest status s₂ _
    (now : status = .OK ∧ s₂.failures = s.failures) => ?_) (fun status s₂ now => ?_)
    (List.nil_append partitions) ⟨rfl, same⟩
  · obtain ⟨rfl, same₂⟩ := now
    obtain ⟨server, found⟩ := ServerMap.get_of_ring_ne indexRing (PathHash.pathToHash
      (FsPath.join (PathUtil.indexPath root name) part))
    refine .bind ((unlink_ends ring _ (same₂ ▸ spent)).imp ?_)
    rintro r s₃ ⟨⟨out, rfl⟩, same₃⟩
    simp only [Then, found, checkGet, bind_eq, ret_bind, perform_bind]
    refine .call fun b s₄ h₄ => ?_
    obtain ⟨a, rfl, -, same₄⟩ := h₄.spent (same₃ ▸ same₂ ▸ spent)
    exact .ret ⟨rfl, same₄.trans (same₃.trans same₂)⟩
  · obtain ⟨rfl, same₂⟩ := now
    exact ⟨rfl, same₂, there⟩

/-- A rollback is carried out, where the index has a directory. It leaves indices and directories
alone and makes no record. -/
theorem removeIndex_ends (ring : c.masterMap.ring ≠ ∅) (indexRing : c.indexServerMap.ring ≠ ∅)
    (root name : Str) (spent : s.failures ≠ []) :
    Ends (Attempt allowed) (fun r s' => r = .ok .OK ∧ s'.failures = s.failures ∧
      Undisturbed (PathUtil.indexPath root name) s.servers s'.servers ∧
      ∀ a q, q ∈ (s'.servers.masters a).namespace.metadataMap →
        q ∈ (s.servers.masters a).namespace.metadataMap) (c.removeIndex root name) s := by
  have calls := removeIndex_calls c root name
  refine (ends_records (ends_undisturbed (PathUtil.indexPath root name)
    (removeIndex_done ring indexRing root name spent)
    (calls.mono fun _ _ => elsewhere_of_removal)) calls).imp ?_
  rintro r s' ⟨⟨⟨done, same, -⟩, undisturbed⟩, records⟩
  exact ⟨done, same, undisturbed, records⟩

theorem rmdir_ends (ring : c.masterMap.ring ≠ ∅) (path : Str) (spent : s.failures ≠ []) :
    Ends (Attempt allowed) (fun r s' => (∃ status, r = .ok status) ∧ s'.failures = s.failures ∧
      ∀ node, c.masterMap.getByPath path = (.OK, some node) →
        path ∉ (s'.servers.masters node.address).namespace.directories) (c.rmdir path) s := by
  have started : c.isInitialized = true := by
    simpa [isInitialized, ExtTreeMap.isEmpty_iff] using ring
  obtain ⟨node, home⟩ := ServerMap.get_of_ring_ne ring (PathHash.pathToHash path)
  simp only [rmdir, started, home, Bool.not_true, Bool.false_eq_true, if_false, bind_eq,
    perform_bind]
  refine .call fun b s₁ h₁ => ?_
  obtain ⟨a, rfl, answered, same⟩ := h₁.spent spent
  have gone : path ∉ (s₁.servers.masters node.address).namespace.directories := by
    obtain ⟨now, mc, handled, after⟩ := Servers.answers_master answered
    rcases MasterServer.answer_rmdir handled with ⟨⟨_, wrong, -⟩, -⟩ | ⟨dir, -, -, -, rfl⟩
    · cases wrong
    · simp [after]
  refine (ends_undisturbed path (removeSubfile_ends ring path (same ▸ spent))
    (removeSubfile_calls fun _ _ _ => trivial)).imp ?_
  rintro r s₂ ⟨⟨rfl, same'⟩, undisturbed⟩
  refine ⟨⟨_, rfl⟩, same'.trans same, fun node' home' => ?_⟩
  cases home.symm.trans home'
  rwa [undisturbed.directory]

/-! ## The registration of an index -/

/-- What becomes of the file of a partition: it is made, or listed and then undone. -/
inductive Filing (c : VSFSRpcClient) (path : Str) (s s' : Session K) : Prop where
  | made (effect : Made c path s.servers s'.servers) (grows : s.servers.Grows s'.servers)
      (quiet : ∀ f ∈ s'.failures, f ∈ s.failures ∨ Passed f)
  | undone {f : Failure} (first : s.failures = []) (failed : s'.failures = [f])
      (lists : f.Lists path) (code : f.code ≠ 0) (gone : ¬ s'.servers.Recorded c path)

/-- The last part of `create_index`. Where the file is left behind, the attempt that fails is
behind, and the directory of the index cannot be both removed and read again. -/
theorem fileOfIndex_ends (ring : c.masterMap.ring ≠ ∅) (indexRing : c.indexServerMap.ring ≠ ∅)
    (root name : Str) (uid gid : BitVec 64) (s : Session K) :
    Ends (Attempt allowed) (fun r s' => r = .ok .OK ∧
      Filing c (PathUtil.partitionPath root name 0) s s' ∧
      Undisturbed (PathUtil.indexPath root name) s.servers s'.servers)
      ((c.create (PathUtil.partitionPath root name 0) 0o755#64 uid gid).bind fun out =>
        if !out.1.ok then (c.rmdir (PathUtil.indexPath root name)).bind fun _ =>
          (c.removeIndex root name).bind fun _ => .ret Status.OK
        else .ret Status.OK) s := by
  have calls : (c.create (PathUtil.partitionPath root name 0) 0o755#64 uid gid).Calls
      (Elsewhere (PathUtil.indexPath root name)) :=
    create_calls (fun _ _ _ => trivial) (fun _ _ _ => trivial) fun _ => trivial
  refine .bind ((ends_undisturbed _ (create_ends ring _ _ _ _ s) calls).imp ?_)
  rintro r s₁ ⟨⟨status, oid, rfl, outcome⟩, undisturbed⟩
  cases outcome with
  | made ok effect grows quiet =>
    simp only [Then, ok, Bool.not_true, Bool.false_eq_true, if_false]
    exact .ret ⟨rfl, .made effect grows quiet, undisturbed⟩
  | undone first failed _ lists code ok gone =>
    simp only [Then, ok, Bool.not_true, Bool.false_eq_true, if_false]
    exact .ret ⟨rfl, .undone first failed lists code gone, undisturbed⟩
  | left _ failed _ _ _ bad =>
    obtain ⟨node, home⟩ := ServerMap.get_of_ring_ne ring
      (PathHash.pathToHash (PathUtil.indexPath root name))
    have spent : s₁.failures ≠ [] := by simp [failed]
    simp only [Then, bad, Bool.not_false, if_true]
    refine .bind ((rmdir_ends ring (PathUtil.indexPath root name) spent).imp ?_)
    rintro r s₂ ⟨⟨status', rfl⟩, same, gone⟩
    refine .bind ((removeIndex_done ring indexRing root name (same ▸ spent)).imp ?_)
    rintro r s₃ ⟨-, -, there⟩
    exact absurd (there node home) (gone node home)

/-- What becomes of the registration of an index and of the file of its partition: both are done;
or the registration is missed, and the file made; or the file is undone. -/
inductive Registration (c : VSFSRpcClient) (request : IndexCreateRequest) (s s' : Session K) :
    Prop where
  | done {node : NodeInfo}
      (home : c.masterMap.getByPath (PathUtil.indexPath request.root request.name) =
        (.OK, some node))
      (registered : (s'.servers.masters node.address).indexNamespace.Registered request.root
        request.name)
      (directory : PathUtil.indexPath request.root request.name ∈
        (s'.servers.masters node.address).namespace.directories)
      (file : Made c (PathUtil.partitionPath request.root request.name 0) s.servers s'.servers)
      (grows : s.servers.Grows s'.servers) (quiet : ∀ f ∈ s'.failures, f ∈ s.failures ∨ Passed f)
  | missed {e : RpcError} {node : NodeInfo}
      (home : c.masterMap.getByPath (PathUtil.indexPath request.root request.name) =
        (.OK, some node)) (first : s.failures = [])
      (failed : s'.failures = [⟨.master node.address (.createIndex request), e⟩])
      (registered : (s'.servers.masters node.address).indexNamespace.Registered request.root
        request.name ↔ (s.servers.masters node.address).indexNamespace.Registered request.root
          request.name)
      (directory : PathUtil.indexPath request.root request.name ∈
        (s'.servers.masters node.address).namespace.directories ↔
          PathUtil.indexPath request.root request.name ∈
            (s.servers.masters node.address).namespace.directories)
      (recorded : s'.servers.Recorded c (PathUtil.partitionPath request.root request.name 0))
      (listed : PathUtil.partitionPath request.root request.name 0 = ['/'] ∨
        s'.servers.Listed c (PathUtil.partitionPath request.root request.name 0))
  | undone {f : Failure} (first : s.failures = []) (failed : s'.failures = [f])
      (lists : f.Lists (PathUtil.partitionPath request.root request.name 0)) (code : f.code ≠ 0)
      (gone : ¬ s'.servers.Recorded c (PathUtil.partitionPath request.root request.name 0))

omit [ConsistentHashMap] [LawfulConsistentHashMap] in
/-- A registration that fails leaves what it is about as it was. -/
theorem unregistered {address : NodeAddress} {request : IndexCreateRequest} {e : RpcError}
    {s' : Session K}
    (h : Attempt allowed Unit (.master address (.createIndex request)) s (.error e) s') :
    s.failures = [] ∧ s'.failures = [⟨.master address (.createIndex request), e⟩] ∧
      s'.servers.indexServers = s.servers.indexServers ∧
      (∀ a, (s'.servers.masters a).namespace = (s.servers.masters a).namespace) ∧
      ((s'.servers.masters address).indexNamespace.Registered request.root request.name ↔
        (s.servers.masters address).indexNamespace.Registered request.root request.name) := by
  cases h with
  | refused first _ h => exact ⟨first, rfl, Servers.indexRefused h⟩
  | lost first => exact ⟨first, rfl, rfl, fun _ => rfl, .rfl⟩

theorem registerIndex_ends (ring : c.masterMap.ring ≠ ∅) (indexRing : c.indexServerMap.ring ≠ ∅)
    (request : IndexCreateRequest) (s : Session K) :
    Ends (Attempt allowed) (fun r s' => r = .ok .OK ∧
      s'.servers.indexServers = s.servers.indexServers ∧ Registration c request s s')
      (c.registerIndex request) s := by
  obtain ⟨node, home⟩ := ServerMap.get_of_ring_ne ring
    (PathHash.pathToHash (PathUtil.indexPath request.root request.name))
  simp only [registerIndex, home, checkGet, bind_eq, ret_bind, perform_bind]
  refine .call fun b s₁ h₁ => ?_
  cases b with
  | ok a =>
    cases h₁ with
    | served answered =>
      rename_i servers
      obtain ⟨-, registered, directory, grows⟩ := Servers.indexRegistered answered
      have partitions : servers.indexServers = s.servers.indexServers := by
        obtain ⟨now, mc, -, rfl⟩ := Servers.answers_master answered
        rfl
      simp only [Status.ok_OK, Bool.not_true, Bool.false_eq_true, if_false]
      refine (fileOfIndex_ends ring indexRing _ _ _ _ _).imp ?_
      rintro r s₂ ⟨rfl, filing, undisturbed⟩
      refine ⟨rfl, undisturbed.partitions.trans partitions, ?_⟩
      cases filing with
      | made effect grows' quiet =>
        refine .done home (by rwa [undisturbed.indices]) ((undisturbed.directory _).mpr directory)
          ⟨fun old => effect.new (old.grows grows), effect.recorded, effect.listed⟩
          (grows.trans grows') quiet
      | undone first failed lists code gone => exact .undone first failed lists code gone
  | error e =>
    obtain ⟨first, failed, partitions, namespaces, registered⟩ := unregistered h₁
    have spent : s₁.failures ≠ [] := by simp [failed]
    -- The file is made, for the attempt that fails is behind.
    have missed {s₂ s₃ : Session K} (same : s₂.failures = s₁.failures)
        (undisturbed : Undisturbed (PathUtil.indexPath request.root request.name) s₁.servers
          s₂.servers)
        (filing : Filing c (PathUtil.partitionPath request.root request.name 0) s₂ s₃)
        (undisturbed' : Undisturbed (PathUtil.indexPath request.root request.name) s₂.servers
          s₃.servers)
        (same' : s₃.failures = s₂.failures) :
        s₃.servers.indexServers = s.servers.indexServers ∧ Registration c request s s₃ := by
      have all := undisturbed.trans undisturbed'
      refine ⟨all.partitions.trans partitions, ?_⟩
      cases filing with
      | made effect _ quiet =>
        have after := same'.trans (same.trans failed)
        refine .missed home first after ?_ ?_ effect.recorded effect.listed
        · rw [all.indices]
          exact registered
        · rw [all.directory, namespaces]
      | undone none => simp [same, failed] at none
    cases ok : e.status.ok with
    | true =>
      simp only [Bool.not_true, Bool.false_eq_true, if_false]
      refine (ends_spent (fileOfIndex_ends ring indexRing _ _ _ _ s₁) spent).imp ?_
      rintro r s₂ ⟨⟨rfl, filing, undisturbed⟩, same⟩
      exact ⟨rfl, missed rfl (.refl _ _) filing undisturbed same⟩
    | false =>
      simp only [Bool.not_false, if_true]
      refine .bind ((removeIndex_ends ring indexRing request.root request.name spent).imp ?_)
      rintro r s₂ ⟨rfl, same, undisturbed, -⟩
      refine (ends_spent (fileOfIndex_ends ring indexRing _ _ _ _ s₂) (same ▸ spent)).imp ?_
      rintro r s₃ ⟨⟨rfl, filing, undisturbed'⟩, same'⟩
      exact ⟨rfl, missed same undisturbed filing undisturbed' same'⟩

end Rollback

end Vsfs.Client

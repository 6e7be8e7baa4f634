import Vsfs.Client.Servers

/-!
# Operations that make several RPCs

A run of one operation of a client in which at most one attempt fails: the request is lost
with an exception, or the server refuses it. `create` and `mkdir` make a record and then
list it.

The status of a failed attempt survives the retry that makes up for it. `create` therefore
reports an error for a file it has made, or undoes a file that is listed and reports a
success.
-/

namespace Vsfs.Client

open Std Program Masterd Indexd Index FiniteMap

/-- An attempt that failed. -/
structure Failure where
  {answer : Type}
  rpc : Rpc answer
  error : RpcError

namespace Failure

/-- The error code the client takes from the exception. -/
def code (f : Failure) : Int := f.error.status.error

/-- The requests that the operations below make. -/
inductive Kind where
  | create | mkdir | addSubfile | getattr | register | indexServer | other
  deriving DecidableEq, Repr

def kind : Failure → Kind
  | ⟨.master _ (.create _ _ _ _), _⟩ => .create
  | ⟨.master _ (.mkdir _ _), _⟩ => .mkdir
  | ⟨.master _ (.addSubfile _ _), _⟩ => .addSubfile
  | ⟨.master _ (.getattr _), _⟩ => .getattr
  | ⟨.master _ (.createIndex _), _⟩ => .register
  | ⟨.index _ _, _⟩ => .indexServer
  | _ => .other

/-- The attempt to list a path. -/
def Lists [FsPath] (f : Failure) (path : Str) : Prop :=
  ∃ address e,
    f = ⟨.master address (.addSubfile (FsPath.parentPath path) (FsPath.filename path)), e⟩

theorem Lists.kind [FsPath] {f : Failure} {path : Str} (h : f.Lists path) :
    f.kind = .addSubfile := by
  obtain ⟨address, e, rfl⟩ := h
  rfl

end Failure

/-- The servers and the attempts that have failed. -/
structure Session (K : Type) [LinearOrder K] where
  servers : Servers K
  failures : List Failure := []

/-- An exception of an attempt: a server only refuses with a code other than zero. -/
def RpcError.Possible : RpcError → Prop
  | .invalidOp ouch => ouch.what ≠ 0
  | .transport _ _ => True

variable {K : Type} [LinearOrder K] [KeyTypes K] [FsPath] [PathHash]
  [ThriftSerialize FileMetadata] [ThriftSerialize IndexNamespaceNode]

/-- One attempt of an RPC. At most one fails in a session, and only one that is `allowed`
to: the request is not executed, or refused by the server. -/
inductive Attempt (allowed : Failure → Prop) :
    (β : Type) → Rpc β → Session K → Except RpcError β → Session K → Prop where
  | served {β : Type} {rpc : Rpc β} {s : Session K} {a : β} {servers : Servers K}
      (h : s.servers.Answers rpc (.ok a) servers) :
      Attempt allowed β rpc s (.ok a) ⟨servers, s.failures⟩
  | refused {β : Type} {rpc : Rpc β} {s : Session K} {ouch : RpcInvalidOp} {servers : Servers K}
      (first : s.failures = []) (may : allowed ⟨rpc, .invalidOp ouch⟩)
      (h : s.servers.Answers rpc (.error ouch) servers) :
      Attempt allowed β rpc s (.error (.invalidOp ouch)) ⟨servers, [⟨rpc, .invalidOp ouch⟩]⟩
  | lost {β : Type} {rpc : Rpc β} {s : Session K} {error : RpcError}
      (first : s.failures = []) (may : allowed ⟨rpc, error⟩) (possible : error.Possible) :
      Attempt allowed β rpc s (.error error) ⟨s.servers, [⟨rpc, error⟩]⟩

/-! ## Attempts -/

/-- A request that changes nothing when it is refused. -/
def Stays (K : Type) [LinearOrder K] [KeyTypes K] {β : Type} (rpc : Rpc β) : Prop :=
  ∀ (s s' : Servers K) ouch, s.Answers rpc (.error ouch) s' → s' = s

theorem stays_create (address : NodeAddress) (path : Str) (mode uid gid : BitVec 64) :
    Stays K (.master address (.create path mode uid gid)) := by
  intro s s' ouch h
  obtain ⟨now, mc, handled, rfl⟩ := Servers.answers_master h
  rcases MasterServer.answer_create handled with ⟨-, rfl⟩ | ⟨-, ⟨_, done⟩, -⟩
  · exact s.setMaster_self address
  · cases done

theorem stays_mkdir (address : NodeAddress) (path : Str) (info : RpcFileInfo) :
    Stays K (.master address (.mkdir path info)) := by
  intro s s' ouch h
  obtain ⟨now, mc, handled, rfl⟩ := Servers.answers_master h
  rcases MasterServer.answer_mkdir handled with ⟨-, rfl⟩ | ⟨-, done, -⟩
  · exact s.setMaster_self address
  · cases done

theorem stays_addSubfile (address : NodeAddress) (parent subfile : Str) :
    Stays K (.master address (.addSubfile parent subfile)) := by
  intro s s' ouch h
  obtain ⟨now, mc, handled, rfl⟩ := Servers.answers_master h
  rcases MasterServer.answer_addSubfile handled with ⟨-, rfl⟩ | ⟨_, -, -, done, -⟩
  · exact s.setMaster_self address
  · cases done

theorem stays_remove (address : NodeAddress) (path : Str) :
    Stays K (.master address (.remove path)) := by
  intro s s' ouch h
  obtain ⟨now, mc, handled, rfl⟩ := Servers.answers_master h
  rcases MasterServer.answer_remove handled with ⟨⟨-, rfl⟩, -⟩ | ⟨_, -, -, -, ⟨_, done⟩, -⟩
  · exact s.setMaster_self address
  · cases done

theorem stays_getattr (address : NodeAddress) (path : Str) :
    Stays K (.master address (.getattr path)) := by
  intro s s' ouch h
  obtain ⟨now, mc, handled, rfl⟩ := Servers.answers_master h
  rw [(MasterServer.answer_getattr handled).1]
  exact s.setMaster_self address

theorem stays_createPartition (address : NodeAddress) (index : IndexCreateRequest) :
    Stays K (.index address (.createIndex index)) := by
  intro s s' ouch h
  obtain ⟨id, im, handled, rfl⟩ := Servers.answers_index h
  cases out : (s.indexServers address).create id index.root index.name index.indexType.toInt
    index.keyType.toInt with
  | mk status im' =>
    simp only [IndexServer.handle, out, Except.ok.injEq, Prod.mk.injEq] at handled
    obtain ⟨refused, rfl⟩ := handled
    rcases IndexManager.create_spec out with ⟨-, rfl⟩ | ⟨rfl, -⟩
    · simp [Servers.setIndexServer]
    · cases refused

variable {allowed : Failure → Prop}

/-- An attempt is served, or it is the one that fails and nothing changes. -/
theorem Attempt.split {β : Type} {rpc : Rpc β} (stays : Stays K rpc) {s s' : Session K}
    {b : Except RpcError β} (h : Attempt allowed β rpc s b s') :
    (∃ a, b = .ok a ∧ s.servers.Answers rpc (.ok a) s'.servers ∧ s'.failures = s.failures) ∨
      ∃ e, b = .error e ∧ s.failures = [] ∧ allowed ⟨rpc, e⟩ ∧ s' = ⟨s.servers, [⟨rpc, e⟩]⟩ := by
  cases h with
  | served h => exact .inl ⟨_, rfl, h, rfl⟩
  | refused first may h =>
    rw [stays _ _ _ h]
    exact .inr ⟨_, rfl, first, may, rfl⟩
  | lost first may => exact .inr ⟨_, rfl, first, may, rfl⟩

/-- The status that a part of an operation reports: a success, or that of the attempt of
some kind that has failed in it. -/
def Reports (allowed kind : Failure → Prop) (s : Session K) (status : Status)
    (s' : Session K) : Prop :=
  (s'.failures = s.failures ∧ status = .OK) ∨
    ∃ f, s.failures = [] ∧ s'.failures = [f] ∧ allowed f ∧ kind f ∧ status.error = f.code

/-- The outcome of a loop that repeats `rpc` until it is served: the status of a failed
attempt is kept. -/
def Retried (allowed : Failure → Prop) {β : Type} (rpc : Rpc β) (s : Session K)
    (status : Status) (s' : Session K) : Prop :=
  (∃ a, s.servers.Answers rpc (.ok a) s'.servers) ∧
    Reports allowed (fun f => ∃ e, f = ⟨rpc, e⟩) s status s'

open VSFSRpcClient

theorem subfileLoop_ends {address : NodeAddress} {request : MasterRpc Unit}
    (stays : Stays K (.master address request)) (s : Session K) :
    Ends (Attempt allowed) (fun r s' => ∃ status, r = .ok status ∧
      Retried allowed (.master address request) s status s') (subfileLoop address request) s := by
  refine .iter (.call fun b s₁ h₁ => ?_)
  rcases h₁.split stays with ⟨a, rfl, answered, same⟩ | ⟨e, rfl, first, may, rfl⟩
  · exact .ret ⟨_, rfl, ⟨a, answered⟩, .inl ⟨same, rfl⟩⟩
  · -- The second attempt cannot fail, whichever way the first one did.
    have second (n : Nat) : Ends (Attempt allowed) (fun r s' => ∃ status, r = .ok status ∧
        Retried allowed (.master address request) s status s')
        (.loop (subfileTurn address request) (n + 1, e.status))
        ⟨s.servers, [⟨.master address request, e⟩]⟩ := by
      refine .iter (.call fun b s₂ h₂ => ?_)
      rcases h₂.split stays with ⟨a, rfl, answered, same⟩ | ⟨_, -, impossible, -, -⟩
      · exact .ret ⟨_, rfl, ⟨a, answered⟩, .inr ⟨_, first, same, may, ⟨e, rfl⟩, rfl⟩⟩
      · cases impossible
    cases e with
    | invalidOp ouch => exact second 2
    | transport type what => exact second 1

theorem createLoop_ends (address : NodeAddress) (path : Str) (mode uid gid : BitVec 64)
    (s : Session K) : Ends (Attempt allowed) (fun r s' => ∃ status oid, r = .ok (status, oid) ∧
      Retried allowed (.master address (.create path mode uid gid)) s status s')
      (createLoop address path mode uid gid) s := by
  refine .iter (.call fun b s₁ h₁ => ?_)
  rcases h₁.split (stays_create address path mode uid gid) with
    ⟨a, rfl, answered, same⟩ | ⟨e, rfl, first, may, rfl⟩
  · exact .ret ⟨_, _, rfl, ⟨a, answered⟩, .inl ⟨same, rfl⟩⟩
  · refine .iter (.call fun b s₂ h₂ => ?_)
    rcases h₂.split (stays_create address path mode uid gid) with
      ⟨a, rfl, answered, same⟩ | ⟨_, -, impossible, -, -⟩
    · exact .ret ⟨_, _, rfl, ⟨a, answered⟩, .inr ⟨_, first, same, may, ⟨e, rfl⟩, rfl⟩⟩
    · cases impossible

/-! ## Making a record and listing it -/

section Operations

variable [ConsistentHashMap]

variable [LawfulConsistentHashMap]

/-- The path is listed, with the status of a failed attempt. -/
theorem addSubfile_ends {c : VSFSRpcClient} (ring : c.masterMap.ring ≠ ∅) (path : Str)
    (s : Session K) : Ends (Attempt allowed) (fun r s' => ∃ status, r = .ok status ∧
      s.servers.Grows s'.servers ∧ (path = ['/'] ∨ s'.servers.Listed c path) ∧
      Reports allowed (fun f => f.Lists path) s status s') (c.addSubfile path) s := by
  unfold addSubfile
  split
  · rename_i root
    exact .ret ⟨_, rfl, .refl _, .inl root, .inl ⟨rfl, rfl⟩⟩
  · obtain ⟨node, home⟩ := ServerMap.get_of_ring_ne ring
      (PathHash.pathToHash (FsPath.parentPath path))
    simp only [home, checkGet, Prog.bind_eq, Prog.ret_bind]
    refine (subfileLoop_ends (stays_addSubfile _ _ _) s).imp ?_
    rintro r s' ⟨status, rfl, ⟨⟨⟩, answered⟩, outcome⟩
    obtain ⟨⟨dir, listing, entry⟩, grows⟩ := Servers.subfileAdded answered
    refine ⟨status, rfl, grows, .inr ⟨node, dir, home, listing, entry⟩, ?_⟩
    rcases outcome with same | ⟨f, first, after, may, ⟨e, rfl⟩, code⟩
    · exact .inl same
    · exact .inr ⟨_, first, after, may, ⟨_, e, rfl⟩, code⟩

/-- The path had no record and now has one, and it is listed. -/
structure Made (c : VSFSRpcClient) (path : Str) (s s' : Servers K) : Prop where
  new : ¬ s.Recorded c path
  recorded : s'.Recorded c path
  listed : path = ['/'] ∨ s'.Listed c path

/-- A failure of `create` or `add_subfile` that the client takes for a success. -/
def Passed (f : Failure) : Prop := (f.kind = .create ∨ f.kind = .addSubfile) ∧ f.code = 0

/-- The outcomes of `create` while one attempt fails at most: the file is made; or it is
left behind by a call that reports an error; or it is listed and then undone by a call
that reports a success. -/
inductive Creation (allowed : Failure → Prop) (c : VSFSRpcClient) (path : Str)
    (s : Session K) (status : Status) (s' : Session K) : Prop where
  | made (ok : status.ok = true) (effect : Made c path s.servers s'.servers)
      (grows : s.servers.Grows s'.servers) (quiet : ∀ f ∈ s'.failures, f ∈ s.failures ∨ Passed f)
  | left {f : Failure} (first : s.failures = []) (failed : s'.failures = [f]) (may : allowed f)
      (kind : f.kind = .create) (code : f.code ≠ 0) (bad : status.ok = false)
      (new : ¬ s.servers.Recorded c path) (recorded : s'.servers.Recorded c path)
  | undone {f : Failure} (first : s.failures = []) (failed : s'.failures = [f]) (may : allowed f)
      (lists : f.Lists path) (code : f.code ≠ 0) (ok : status.ok = true)
      (gone : ¬ s'.servers.Recorded c path)

omit [KeyTypes K] [FsPath] [PathHash] [ThriftSerialize FileMetadata]
  [ThriftSerialize IndexNamespaceNode] [ConsistentHashMap] [LawfulConsistentHashMap] in
theorem Reports.quiet {kind : Failure → Prop} {s s' : Session K} {status : Status}
    (h : Reports allowed kind s status s') (ok : status.ok = true) :
    ∀ f ∈ s'.failures, f ∈ s.failures ∨ (kind f ∧ f.code = 0) := by
  intro f hf
  rcases h with ⟨same, -⟩ | ⟨g, -, after, -, hk, code⟩
  · exact .inl (same ▸ hf)
  · rw [after, List.mem_singleton] at hf
    subst hf
    exact .inr ⟨hk, code.symm.trans (by simpa [Status.ok] using ok)⟩

omit [KeyTypes K] [FsPath] [PathHash] [ThriftSerialize FileMetadata]
  [ThriftSerialize IndexNamespaceNode] [ConsistentHashMap] [LawfulConsistentHashMap] in
theorem Reports.failed {kind : Failure → Prop} {s s' : Session K} {status : Status}
    (h : Reports allowed kind s status s') (bad : status.ok = false) :
    s.failures = [] ∧ ∃ f, s'.failures = [f] ∧ allowed f ∧ kind f ∧ f.code ≠ 0 := by
  rcases h with ⟨-, rfl⟩ | ⟨f, first, after, may, hk, code⟩
  · cases bad
  · exact ⟨first, f, after, may, hk, code ▸ by simpa [Status.ok] using bad⟩

omit [KeyTypes K] [FsPath] [PathHash] [ThriftSerialize FileMetadata]
  [ThriftSerialize IndexNamespaceNode] [ConsistentHashMap] [LawfulConsistentHashMap] in
theorem Reports.first {kind : Failure → Prop} {s s' : Session K} {status : Status}
    (h : Reports allowed kind s status s') (none : s'.failures = []) : s.failures = [] := by
  rcases h with ⟨same, -⟩ | ⟨f, first, -⟩
  · rwa [← same]
  · exact first

theorem create_ends {c : VSFSRpcClient} (ring : c.masterMap.ring ≠ ∅) (path : Str)
    (mode uid gid : BitVec 64) (s : Session K) :
    Ends (Attempt allowed) (fun r s' => ∃ status oid, r = .ok (status, oid) ∧
      Creation allowed c path s status s') (c.create path mode uid gid) s := by
  have started : c.isInitialized = true := by
    simpa [isInitialized, ExtTreeMap.isEmpty_iff] using ring
  obtain ⟨node, home⟩ := ServerMap.get_of_ring_ne ring (PathHash.pathToHash path)
  simp only [create, started, home, Bool.not_true, Bool.false_eq_true, if_false, Prog.bind_eq]
  refine .bind ((createLoop_ends _ _ _ _ _ s).imp ?_)
  rintro r s₁ ⟨status, oid, rfl, ⟨_, answered⟩, outcome⟩
  obtain ⟨new, recorded, grows⟩ := Servers.created answered
  rw [← Servers.recorded_iff home] at new recorded
  have kind {f : Failure} (h : ∃ e, f = ⟨.master node.address (.create path
      (mode ||| S_IFREG.setWidth 64) uid gid), e⟩) : f.kind = .create := by
    obtain ⟨e, rfl⟩ := h
    rfl
  cases ok : status.ok with
  | false =>
    obtain ⟨first, f, after, may, hk, code⟩ := outcome.failed ok
    simp only [Then, ok, Bool.not_false, if_true]
    exact .ret ⟨_, _, rfl, .left first after may (kind hk) code ok new recorded⟩
  | true =>
    simp only [Then, ok, Bool.not_true, Bool.false_eq_true, if_false]
    refine .bind ((addSubfile_ends ring path s₁).imp ?_)
    rintro r s₂ ⟨listing, rfl, grows', listed, outcome'⟩
    cases ok' : listing.ok with
    | true =>
      simp only [Then, ok', Bool.not_true, Bool.false_eq_true, if_false]
      refine .ret ⟨_, _, rfl, .made rfl ⟨new, recorded.grows grows', listed⟩
        (grows.trans grows') fun f hf => ?_⟩
      rcases outcome'.quiet ok' f hf with hf | ⟨hk, zero⟩
      · exact (outcome.quiet ok f hf).imp_right fun h => ⟨.inl (kind h.1), h.2⟩
      · exact .inr ⟨.inr hk.kind, zero⟩
    | false =>
      -- The attempt that failed was the one, so the removal is served.
      obtain ⟨first, f, after, may, lists, code⟩ := outcome'.failed ok'
      simp only [Then, ok', Bool.not_false, if_true, Prog.perform_bind]
      refine .call fun b s₃ h₃ => ?_
      rcases h₃.split (stays_remove _ _) with ⟨a, rfl, answered', same⟩ | ⟨_, -, none, -, -⟩
      · have gone := Servers.removed answered'
        rw [← Servers.recorded_iff home] at gone
        exact .ret ⟨_, _, rfl, .undone (outcome.first first) (same.trans after) may lists code rfl
          gone⟩
      · simp [after] at none

/-- The outcomes of `mkdir`: the directory is made; or nothing happens and the call reports
the failure; or, where the mode hides the directory from `remove`, it is undone. -/
inductive DirectoryCreation (allowed : Failure → Prop) (c : VSFSRpcClient) (path : Str)
    (s : Session K) (status : Status) (s' : Session K) : Prop where
  | made (ok : status.ok = true) (effect : Made c path s.servers s'.servers)
      (grows : s.servers.Grows s'.servers)
      (quiet : ∀ f ∈ s'.failures, f ∈ s.failures ∨ (f.kind = .addSubfile ∧ f.code = 0))
  | failed {f : Failure} (first : s.failures = []) (after : s' = ⟨s.servers, [f]⟩)
      (may : allowed f) (kind : f.kind = .mkdir) (code : status.error = f.code)
  | undone {f : Failure} (first : s.failures = []) (failed : s'.failures = [f]) (may : allowed f)
      (lists : f.Lists path) (code : f.code ≠ 0) (ok : status.ok = true)
      (gone : ¬ s'.servers.Recorded c path) (grows : s.servers.Grows s'.servers)

theorem mkdir_ends {c : VSFSRpcClient} (ring : c.masterMap.ring ≠ ∅) (path : Str)
    (mode uid gid : BitVec 64) (s : Session K) :
    Ends (Attempt allowed) (fun r s' => ∃ status, r = .ok status ∧
      DirectoryCreation allowed c path s status s') (c.mkdir path mode uid gid) s := by
  have started : c.isInitialized = true := by
    simpa [isInitialized, ExtTreeMap.isEmpty_iff] using ring
  obtain ⟨node, home⟩ := ServerMap.get_of_ring_ne ring (PathHash.pathToHash path)
  simp only [mkdir, started, home, Bool.not_true, Bool.false_eq_true, if_false, Prog.bind_eq,
    Prog.perform_bind]
  refine .call fun b s₁ h₁ => ?_
  rcases h₁.split (stays_mkdir _ _ _) with ⟨⟨⟩, rfl, answered, same⟩ | ⟨e, rfl, first, may, rfl⟩
  · obtain ⟨new, recorded, grows⟩ := Servers.directoryMade answered
    rw [← Servers.recorded_iff home] at new recorded
    refine .bind ((addSubfile_ends ring path s₁).imp ?_)
    rintro r s₂ ⟨listing, rfl, grows', listed, outcome⟩
    cases ok : listing.ok with
    | true =>
      simp only [Then, ok, Bool.not_true, Bool.false_eq_true, if_false]
      refine .ret ⟨_, rfl, .made rfl ⟨new, recorded.grows grows', listed⟩ (grows.trans grows') ?_⟩
      rw [← same]
      exact fun f hf => (outcome.quiet ok f hf).imp_right fun h => ⟨h.1.kind, h.2⟩
    | false =>
      obtain ⟨first, f, after, may, lists, code⟩ := outcome.failed ok
      simp only [Then, ok, Bool.not_false, if_true]
      refine .call fun b s₃ h₃ => ?_
      rcases h₃.split (stays_remove _ _) with ⟨a, rfl, answered', same'⟩ | ⟨_, -, none, -, -⟩
      · have gone := Servers.removed answered'
        rw [Servers.recorded_iff home] at new
        have kept := (grows.trans grows').removed new answered'
        rw [← Servers.recorded_iff home] at gone
        exact .ret ⟨_, rfl, .undone (same ▸ first) (same'.trans after) may lists code rfl gone kept⟩
      · simp [after] at none
  · exact .ret ⟨_, rfl, .failed first rfl may rfl rfl⟩

end Operations

end Vsfs.Client

import Vsfs.Client.Order
import Vsfs.Client.Reaching
import Vsfs.Indexd.Logged

/-!
# Updates that succeed

A call of `update` succeeds when each of its tasks returns a success. Whatever the tasks have
done to each other, everything that the requests need is there then: the nearest index of
every request, and its partition on the server that the client asks.

## Main results

* `placed_of_succeeded` : the requests of a call that succeeds can all be served.
-/

namespace Vsfs.Client

open Std Program Prog Masterd Indexd Index FiniteMap Grouping VSFSRpcClient IndexUpdateTask

section Served

variable {K : Type} [LinearOrder K] [KeyTypes K] [FsPath] [PathHash]

/-! ## What a task is told -/

/-- The RPCs of a task. -/
def TaskRpc : (β : Type) → Rpc β → Prop
  | _, .master _ (.getattr _) => True
  | _, .master _ (.findObjects _) => True
  | _, .index _ (.update updates) => updates.txnId = 0
  | _, _ => False

omit [KeyTypes K] [FsPath] [PathHash] in
/-- An update is only accepted for partitions that the server knows. -/
def Known (s : Servers K) : {β : Type} → Rpc β → Except RpcError β → Prop
  | _, .index a (.update updates), .ok _ =>
    ∀ l ∈ updates.updates, l.rootPath ∈ (s.indexServers a).indexInfoMap
  | _, _, _ => True

omit [KeyTypes K] [PathHash] in
/-- An environment in which a task runs alone. -/
def Heard (s : Servers K) : Exec Rpc RpcError (List Message) :=
  fun β rpc sent b sent' => Watched s β rpc sent b sent' ∧ Known s rpc b

omit [KeyTypes K] [FsPath] [PathHash] in
/-- The masters and the partitions are those of `s`, and only the logs go on. -/
structure Alongside (s t : Servers K) : Prop where
  masters : t.masters = s.masters
  infos : ∀ a, (t.indexServers a).indexInfoMap = (s.indexServers a).indexInfoMap
  logs : ∀ a, (s.indexServers a).LogsAtZero (t.indexServers a)

omit [KeyTypes K] [FsPath] [PathHash] in
theorem Alongside.refl (s : Servers K) : Alongside s s :=
  ⟨rfl, fun _ => rfl, fun _ => .refl _⟩

omit [KeyTypes K] [FsPath] [PathHash] in
theorem Alongside.setIndexServer {s t : Servers K} (h : Alongside s t) {a : NodeAddress}
    {im : IndexManager K} (info : im.indexInfoMap = (t.indexServers a).indexInfoMap)
    (log : (t.indexServers a).LogsAtZero im) : Alongside s (t.setIndexServer a im) := by
  refine ⟨h.masters, fun a' => ?_, fun a' => ?_⟩
  · by_cases same : a' = a
    · subst same
      simp [info, h.infos]
    · simp [same, h.infos]
  · by_cases same : a' = a
    · subst same
      simpa using (h.logs a').trans log
    · simpa [same] using h.logs a'

omit [FsPath] [PathHash] in
theorem not_ok_of_checkStatus {α : Type} {status : Status} {a : α} {e : RpcError}
    (h : (checkStatus status a).mapError RpcError.invalidOp = .error e) : e.status.ok = false := by
  unfold checkStatus at h
  split at h
  · cases h
  · rename_i bad
    cases h
    simpa [RpcError.status, Status.ok] using bad

variable [ThriftSerialize FileMetadata] [ThriftSerialize IndexNamespaceNode]

/-- What one RPC of a task does and tells. -/
theorem alongside_of_answers {s t t' : Servers K} {β : Type} {rpc : Rpc β}
    {answer : Except RpcInvalidOp β} (may : TaskRpc β rpc) (h : Alongside s t)
    (answers : t.Answers rpc answer t') : Alongside s t' ∧
      Informed s rpc (answer.mapError .invalidOp) ∧ Known s rpc (answer.mapError .invalidOp) := by
  cases rpc with
  | master address request =>
    obtain ⟨now, mc, handled, rfl⟩ := Servers.answers_master answers
    cases request with
    | getattr path =>
      cases handled
      rw [t.setMaster_self]
      refine ⟨h, .inl ?_, trivial⟩
      rw [← h.masters]
      rfl
    | findObjects files =>
      cases handled
      rw [t.setMaster_self]
      refine ⟨h, ?_, trivial⟩
      intro e wrong
      cases wrong
    | _ => cases may
  | index address request =>
    obtain ⟨id, im, handled, rfl⟩ := Servers.answers_index answers
    cases request with
    | update updates =>
      obtain ⟨txnId, lists⟩ := updates
      cases (may : txnId = 0)
      cases out : (t.indexServers address).updateAll 0 lists with
      | error crash =>
        simp [IndexServer.handle, out, Bind.bind, Except.bind] at handled
      | ok answered =>
        obtain ⟨status, im'⟩ := answered
        simp only [IndexServer.handle, IndexManager.update_deferred, out, Bind.bind, Except.bind,
          pure, Except.pure, Except.ok.injEq, Prod.mk.injEq] at handled
        obtain ⟨rfl, rfl⟩ := handled
        refine ⟨h.setIndexServer (IndexManager.indexInfoMap_updateAll out)
          (IndexManager.logsAtZero_updateAll out),
          fun e refused => not_ok_of_checkStatus refused, ?_⟩
        cases ok : status.ok with
        | true =>
          simp only [checkStatus, ok, if_true, Except.mapError]
          intro l hl
          rw [← h.infos]
          exact IndexManager.known_of_updateAll out ok l hl
        | false =>
          simp only [checkStatus, ok, Bool.false_eq_true, if_false, Except.mapError]
          trivial
    | _ => cases may

theorem sees_task (s : Servers K) : Pool.Sees reliable TaskRpc (Alongside s) (Heard s) where
  keeps may along served := by
    obtain ⟨answer, rfl, answers⟩ := answers_of_reliable served
    exact (alongside_of_answers may along answers).1
  told sent may along served := by
    obtain ⟨answer, rfl, answers⟩ := answers_of_reliable served
    obtain ⟨-, informed, known⟩ := alongside_of_answers may along answers
    exact ⟨_, ⟨informed, rfl⟩, known⟩

/-! ## Calls that succeed -/

/-- A call of `update` in which every task returns a success, and that leads to `s'`. -/
def Succeeded [ConsistentHashMap] (c : VSFSRpcClient) (batchSize : Nat) (s : Servers K)
    (requests : List IndexUpdateRequest) (s' : Servers K) : Prop :=
  ∃ schedule p, (launched c s (tasksOf batchSize requests)).follow (run c) reliable schedule =
    .ok p ∧ (∀ t ∈ p.tasks, ∃ status, t.prog = .ret status ∧ status.ok = true) ∧ p.state = s'

variable [ConsistentHashMap] {c : VSFSRpcClient} {batchSize : Nat} {s s' : Servers K}
  {requests : List IndexUpdateRequest}

theorem Succeeded.updated (h : Succeeded c batchSize s requests s') :
    Updated c batchSize s requests s' := by
  obtain ⟨schedule, p, followed, ended, state⟩ := h
  refine ⟨schedule, p, followed, ?_, state⟩
  intro t ht
  obtain ⟨status, returned, -⟩ := ended t ht
  rw [Task.Done, returned]
  trivial

/-- Every task has a run of its own, and only the logs have changed. -/
theorem Succeeded.runs (h : Succeeded c batchSize s requests s') :
    Alongside s s' ∧ ∀ task ∈ tasksOf batchSize requests, ∃ status sent, status.ok = true ∧
      Evals (Heard s) (run c task) [] (.ok status) sent := by
  obtain ⟨schedule, p, followed, ended, rfl⟩ := h
  have tasks (task : List IndexUpdateRequest) : (run c task).Calls TaskRpc :=
    run_calls c (fun _ _ => trivial) (fun _ _ => trivial) (fun _ _ => rfl) task
  obtain ⟨along, own⟩ := (sees_task s).follow tasks (Alongside.refl s) (fun t ht => by
    obtain ⟨task, -, rfl⟩ := List.mem_map.mp ht
    exact tasks task) followed
  refine ⟨along, ?_⟩
  intro task ht
  obtain ⟨i, here⟩ := List.getElem?_of_mem ht
  obtain ⟨t', there, ran⟩ := own i { label := task, prog := run c task } (by
    rw [launched, List.getElem?_map, here]
    rfl)
  obtain ⟨status, returned, ok⟩ := ended t' (List.mem_of_getElem? there)
  obtain ⟨sent, evals⟩ := ran status [] returned
  exact ⟨status, sent, ok, evals⟩

/-! ## What the requests found -/

omit [ThriftSerialize FileMetadata] [ThriftSerialize IndexNamespaceNode] in
/-- The partition of the message is on the server that it went to. -/
def Hosted (s : Servers K) (m : Message) : Prop :=
  m.key ∈ (s.indexServers m.address).indexInfoMap

omit [KeyTypes K] [PathHash] [ConsistentHashMap] [ThriftSerialize FileMetadata]
  [ThriftSerialize IndexNamespaceNode] in
theorem quiet_of_silent {α : Type} {p : ClientM α} (silent : p.Calls Silent)
    (sent : List Message) : Always (Heard s) (fun _ sent' => sent' = sent) p sent := by
  intro r sent' ran
  exact always_of_silent silent sent r sent' (ran.mono fun _ _ _ _ _ heard => heard.1)

omit [KeyTypes K] [PathHash] [ConsistentHashMap] [ThriftSerialize FileMetadata]
  [ThriftSerialize IndexNamespaceNode] in
theorem updateOn_hosted (objectIds : List ObjectId)
    (entries : List (Str × ExtTreeMap Str (List Nat))) (sent : List Message)
    (all : ∀ m ∈ sent, Hosted s m) :
    Always (Heard s) (fun r sent' => (∃ status, r = .ok status ∧ status.ok = true) →
      ∀ m ∈ sent', Hosted s m) (updateOn requests objectIds entries) sent := by
  induction entries generalizing sent with
  | nil => exact .ret fun _ => all
  | cons e entries ih =>
    obtain ⟨addr, partitions⟩ := e
    rcases stringToAddress_cases addr with ⟨exit, thrown⟩ | ⟨address, read⟩
    · rw [updateOn, thrown]
      refine .throw ?_
      rintro ⟨status, same, -⟩
      cases same
    · rw [updateOn, read]
      refine .call ?_
      rintro b sent₁ ⟨⟨told, rfl⟩, known⟩
      cases b with
      | error e =>
        refine .ret ?_
        rintro ⟨status, same, ok⟩
        cases same
        rw [told e rfl] at ok
        cases ok
      | ok _ =>
        refine ih _ ?_
        intro m hm
        rcases List.mem_append.mp hm with old | new
        · exact all m old
        · obtain ⟨l, hl, rfl⟩ := List.mem_map.mp new
          exact known l hl

omit [KeyTypes K] [ThriftSerialize FileMetadata] [ThriftSerialize IndexNamespaceNode] in
/-- A task that succeeds has only sent records to servers that have the partition. -/
theorem run_hosted (task : List IndexUpdateRequest) :
    Always (Heard s) (fun r sent => (∃ status, r = .ok status ∧ status.ok = true) →
      ∀ m ∈ sent, Hosted s m) (run c task) [] := by
  have failed {status : Status} (bad : ¬ status.ok = true) {sent : List Message} :
      (∃ status', (Except.ok status : Except Exit Status) = .ok status' ∧ status'.ok = true) →
        ∀ m ∈ sent, Hosted s m := by
    rintro ⟨status', same, ok⟩
    cases same
    exact absurd ok bad
  have thrown {exit : Exit} {sent : List Message} :
      (∃ status, (Except.error exit : Except Exit Status) = .ok status ∧ status.ok = true) →
        ∀ m ∈ sent, Hosted s m := by
    rintro ⟨status, same, -⟩
    cases same
  refine .bind ((quiet_of_silent (findIndices_calls c (fun _ _ => rfl) ∅ _) []).imp ?_)
  rintro r sent rfl
  cases r with
  | error exit => exact thrown
  | ok out =>
    obtain ⟨status, indexMap⟩ := out
    simp only [Leads]
    split
    · rename_i bad
      exact .ret (failed (by simpa using bad))
    refine .bind ((quiet_of_silent
      (reorderRequestsToIndexServers_calls c indexMap task) []).imp ?_)
    rintro r sent rfl
    cases r with
    | error exit => exact thrown
    | ok requestMap =>
      refine .bind ((quiet_of_silent (findObjects_silent _) []).imp ?_)
      rintro r sent rfl
      cases r with
      | error exit => exact thrown
      | ok out =>
        obtain ⟨status', objectIds⟩ := out
        simp only [Leads]
        split
        · rename_i bad
          exact .ret (failed (by simpa using bad))
        · exact updateOn_hosted objectIds _ [] (by simp)

/-- Every key has a server on each ring, with an address that can be read back. -/
structure Reachable (c : VSFSRpcClient) : Prop where
  masters : ∀ key, Named (c.masterMap.get key)
  indexServers : ∀ key, Named (c.indexServerMap.get key)

omit [KeyTypes K] [ThriftSerialize FileMetadata] [ThriftSerialize IndexNamespaceNode] in
theorem Nearest.finds (reachable : Reachable c) {name dir root : Str}
    (h : Nearest c s name dir root) : Finds c s name dir (PathUtil.indexPath root name) := by
  induction h with
  | here there => exact .here there
  | @up dir root absent below _ ih =>
    obtain ⟨node, home⟩ := get_of_named
      (reachable.masters (PathHash.pathToHash (PathUtil.indexPath dir name)))
    exact .up home absent below ih

/-- The requests of a call that succeeds can all be served. -/
theorem placed_of_succeeded (reachable : Reachable c)
    (takes : ∀ a, ∀ part ∈ (s.indexServers a).indexInfoMap, (s.indexServers a).Takes part)
    (h : Succeeded c batchSize s requests s') :
    ∃ index, Placed c s index requests ∧ ∀ r ∈ requests, ∃ root,
      Nearest c s r.indexName (FsPath.parentPath r.filePath) root ∧
        index r = PathUtil.indexPath root r.indexName := by
  have found (r : IndexUpdateRequest) (hr : r ∈ requests) : ∃ root,
      Nearest c s r.indexName (FsPath.parentPath r.filePath) root ∧ ∃ a,
        serverOf c (PathUtil.indexPath root r.indexName ++ "/0".toList) = some a ∧
          PathUtil.indexPath root r.indexName ++ "/0".toList ∈ (s.indexServers a).indexInfoMap := by
    rw [← flatten_tasksOf batchSize requests] at hr
    obtain ⟨task, ht, hr⟩ := List.mem_flatten.mp hr
    obtain ⟨status, sent, ok, ran⟩ := h.runs.2 task ht
    have addressed := run_addressed (c := c) task _ _ (ran.mono fun _ _ _ _ _ heard => heard.1)
    obtain ⟨m, hm, ⟨root, nearest, key⟩, -⟩ := addressed.2 ⟨status, rfl, ok⟩ r hr
    have hosted := run_hosted (c := c) task _ _ ran ⟨status, rfl, ok⟩ m hm
    exact ⟨root, nearest, m.address, key ▸ (addressed.1 m hm).1, key ▸ hosted⟩
  choose! root nearest a server hosted using found
  refine ⟨fun r => PathUtil.indexPath (root r) r.indexName, ⟨?_, ?_, ?_⟩, ?_⟩
  · intro r hr
    exact (nearest r hr).finds reachable
  · intro r hr
    obtain ⟨node, home, plain⟩ := reachable.indexServers
      (PathHash.pathToHash (PathUtil.indexPath (root r) r.indexName ++ "/0".toList))
    refine ⟨node, home, plain, takes _ _ ?_⟩
    have here := server r hr
    rw [serverOf, ServerMap.getByPath, home, Option.map_some, Option.some.injEq] at here
    rw [here]
    exact hosted r hr
  · intro r hr
    exact reachable.masters _
  · intro r hr
    exact ⟨root r, nearest r hr, rfl⟩

end Served

end Vsfs.Client

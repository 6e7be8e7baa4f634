import Vsfs.Client.Reaching

/-!
# The requests of a task

A task looks for the index of every request, sorts the positions of the requests by the server
and the partition they are for, and makes the records from the positions again. Whatever the
servers answer, no request is lost on the way, none is there twice, and those for one partition
stay in order.

## Main results

- `batch_kept`: what a task has sorted, and what it has sent.
-/

namespace Vsfs.Client

open Std Program Prog Masterd Indexd Index FiniteMap Grouping VSFSRpcClient IndexUpdateTask

section Batch

variable [FsPath] [PathHash] [ConsistentHashMap] {c : VSFSRpcClient} {S : Type}
  {exec : Exec Rpc RpcError S}

/-! ## Sorting -/

/-- The positions that the map has for a partition of a server. -/
def positionsAt (requestMap : ServerToRequestMap) (addr part : Str) : Option (List Nat) :=
  (requestMap[addr]?).bind (·[part]?)

/-- Every position is in the map once, under the server of the partition of its request, and the
positions of a partition are in order. -/
structure Sorted (c : VSFSRpcClient) (index : IndexUpdateRequest → Str)
    (requests : List IndexUpdateRequest) (requestMap : ServerToRequestMap) : Prop where
  once : (requestMap.toList.flatMap fun e => e.2.toList.flatMap (·.2)).Perm
    (List.range requests.length)
  owner : ∀ addr part positions, positionsAt requestMap addr part = some positions →
    (∃ node, (c.indexServerMap.getByPath part).2 = some node ∧
      addr = addressToString node.address) ∧
    ∀ pos ∈ positions, ∃ r, requests[pos]? = some r ∧ partitionOf index r = part
  increasing : ∀ addr part positions, positionsAt requestMap addr part = some positions →
    positions.Pairwise (· < ·)

omit [FsPath] in
theorem sorted_requestMapOf {index : IndexUpdateRequest → Str} {requests : List IndexUpdateRequest}
    (homes : ∀ r ∈ requests, ∃ node,
      (c.indexServerMap.getByPath (partitionOf index r)).2 = some node) :
    Sorted c index requests (requestMapOf c index requests) := by
  have sorted (addr part : Str) (positions : List Nat)
      (found : positionsAt (requestMapOf c index requests) addr part = some positions) :
      (serverText c part = addr ∧ ∃ r ∈ requests, partitionOf index r = part) ∧
        positions = (List.range requests.length).filter fun pos =>
          decide (partitionAt index requests pos = part) := by
    obtain ⟨partitions, entry, found⟩ := Option.bind_eq_some_iff.mp found
    have inside := (mem_requestMapOf entry).mp ((mem_iff_exists _ _).mpr ⟨_, found⟩)
    exact ⟨inside, positions_requestMapOf entry found⟩
  refine ⟨flatMap_group₂_perm _ _ _, fun addr part positions found => ⟨?_, ?_⟩, ?_⟩
  · obtain ⟨⟨text, r, hr, same⟩, -⟩ := sorted addr part positions found
    obtain ⟨node, home⟩ := homes r hr
    rw [same] at home
    refine ⟨node, home, ?_⟩
    exact text.symm.trans (addressText_of_some home)
  · intro pos hp
    rw [(sorted addr part positions found).2, List.mem_filter, List.mem_range] at hp
    obtain ⟨inside, mine⟩ := hp
    have here := List.getElem?_eq_getElem inside
    refine ⟨requests[pos], here, ?_⟩
    rw [partitionAt, List.getD_eq_getElem?_getD, here, Option.getD_some] at mine
    exact of_decide_eq_true mine
  · intro addr part positions found
    rw [(sorted addr part positions found).2]
    exact List.pairwise_lt_range.filter _

/-- How sorting ends: the map is there, or the ring has no server for a partition. An index that
is missing in the map is none of the cases. -/
inductive Sorts (c : VSFSRpcClient) (index : IndexUpdateRequest → Str)
    (requests : List IndexUpdateRequest) : ClientM ServerToRequestMap → Prop where
  | done {requestMap : ServerToRequestMap} (sorted : Sorted c index requests requestMap) :
      Sorts c index requests (.ret requestMap)
  | unserved {r : IndexUpdateRequest} (hr : r ∈ requests)
      (absent : (c.indexServerMap.getByPath (partitionOf index r)).2 = none) :
      Sorts c index requests
        (.throw (.crash (.check "parent_->index_server_map_.get(hash, &node).ok()")))

theorem reorder_of_complete {indexMap : ParentPathToIndexPathMap}
    {requests : List IndexUpdateRequest}
    (all : ∀ r ∈ requests, lookup indexMap (FsPath.parentPath r.filePath) r.indexName =
      some (indexIn indexMap r)) :
    ((∀ r ∈ requests, ∃ node,
        (c.indexServerMap.getByPath (partitionOf (indexIn indexMap) r)).2 = some node) ∧
      reorderRequestsToIndexServers c indexMap requests =
        .ret (requestMapOf c (indexIn indexMap) requests)) ∨
    ((∃ r ∈ requests, (c.indexServerMap.getByPath (partitionOf (indexIn indexMap) r)).2 = none) ∧
      reorderRequestsToIndexServers c indexMap requests =
        .throw (.crash (.check "parent_->index_server_map_.get(hash, &node).ok()"))) := by
  by_cases homes : ∀ r ∈ requests, ∃ node,
      (c.indexServerMap.getByPath (partitionOf (indexIn indexMap) r)).2 = some node
  · exact .inl ⟨homes, reorder_eq homes all⟩
  obtain ⟨r, hr, absent⟩ : ∃ r ∈ requests,
      (c.indexServerMap.getByPath (partitionOf (indexIn indexMap) r)).2 = none := by
    simpa [← Option.ne_none_iff_exists'] using homes
  have indexOf_eq (r : IndexUpdateRequest) (hr : r ∈ requests) :
      indexOf indexMap r = .ret (indexIn indexMap r) := by
    have found := all r hr
    unfold lookup at found
    rw [indexOf, found]
  obtain ⟨pos, here⟩ := List.getElem?_of_mem hr
  -- Up to the first partition without a server, every turn comes to its end.
  have thrown : ∃ exit,
      exit = Exit.crash (.check "parent_->index_server_map_.get(hash, &node).ok()") ∧
        reorderRequestsToIndexServers c indexMap requests = .throw exit := by
    refine foldlM_throws (fun m x hx => ?_) ⟨(r, pos), ?_, fun m => ?_⟩ ∅
    · have inside := List.mem_of_getElem? (List.mem_zipIdx_iff_getElem?.mp hx)
      simp only [indexOf_eq x.1 inside, bind_eq, ret_bind]
      rcases get_cases c.indexServerMap
        (PathHash.pathToHash (indexIn indexMap x.1 ++ "/0".toList)) with none | ⟨node, home⟩
      · exact .inl ⟨_, rfl, by rw [checkGet_none none, throw_bind]⟩
      · exact .inr ⟨_, by rw [home]; rfl⟩
    · exact List.mem_zipIdx_iff_getElem?.mpr here
    · have absent' : (c.indexServerMap.get
          (PathHash.pathToHash (indexIn indexMap r ++ "/0".toList))).2 = none := absent
      refine ⟨.crash (.check "parent_->index_server_map_.get(hash, &node).ok()"), ?_⟩
      simp only [indexOf_eq r hr, bind_eq, ret_bind, checkGet_none absent', throw_bind]
  obtain ⟨exit, rfl, thrown⟩ := thrown
  exact .inr ⟨⟨r, hr, absent⟩, thrown⟩

theorem reorder_sorts {indexMap : ParentPathToIndexPathMap} {requests : List IndexUpdateRequest}
    (all : ∀ r ∈ requests, lookup indexMap (FsPath.parentPath r.filePath) r.indexName =
      some (indexIn indexMap r)) :
    Sorts c (indexIn indexMap) requests (reorderRequestsToIndexServers c indexMap requests) := by
  rcases reorder_of_complete (c := c) all with ⟨homes, sorted⟩ | ⟨⟨r, hr, absent⟩, thrown⟩
  · rw [sorted]
    exact .done (sorted_requestMapOf homes)
  · rw [thrown]
    exact .unserved hr absent

/-! ## Every name has an index -/

/-- Without an index there is an error. -/
theorem findIndex_bad (name dir : Str) (s : S) :
    Always exec (fun r _ => ∀ status, r = .ok (status, none) → status.ok = false)
      (findIndex c name dir) s := by
  have turn (x : Str) (s : S) (_ : True) :
      Always exec (Turns exec (fun _ _ => True) .ret
        fun r _ => ∀ status, r = .ok (status, none) → status.ok = false)
        (findIndexTurn c name x) s := by
    have any : Always exec (fun _ _ => True) (c.getattrStat (PathUtil.indexPath x name)) s :=
      fun _ _ _ => trivial
    refine .bind (any.imp ?_)
    intro r s _
    cases r with
    | error exit => exact fun _ same => nomatch same
    | ok out =>
      obtain ⟨status, stat⟩ := out
      dsimp only [Leads]
      split
      · exact .ret (.ret fun _ same => nomatch same)
      split
      · rename_i bad
        refine .ret (.ret fun status' same => ?_)
        cases same
        simpa using bad.1
      split
      · refine .ret (.ret fun status' same => ?_)
        cases same
        rfl
      · exact .ret trivial
  exact .iter turn trivial

theorem findIndices_complete (indexMap : ParentPathToIndexPathMap) (names : List (Str × Str))
    (s : S) : Always exec (fun r _ => ∀ status indexMap', r = .ok (status, indexMap') →
      status.ok = true → ∀ p n, lookup indexMap p n ≠ none ∨ (p, n) ∈ names →
        lookup indexMap' p n ≠ none) (findIndices c indexMap names) s := by
  induction names generalizing indexMap s with
  | nil =>
    refine .ret fun status indexMap' same ok p n there => ?_
    cases same
    simpa using there
  | cons e names ih =>
    obtain ⟨parent, name⟩ := e
    refine .bind ((findIndex_bad name parent s).imp fun r s' bad => ?_)
    cases r with
    | error exit => exact fun _ _ same => nomatch same
    | ok out =>
      obtain ⟨status, path⟩ := out
      cases path with
      | none =>
        refine .ret fun status' indexMap' same ok => ?_
        cases same
        rw [bad status rfl] at ok
        cases ok
      | some path =>
        refine (ih _ s').imp fun r _ all status' indexMap' same ok p n there => ?_
        refine all status' indexMap' same ok p n ?_
        rw [lookup_insert]
        rcases there with old | new
        · exact .inl (by split <;> simp [old])
        · rcases List.mem_cons.mp new with same | later
          · cases same
            exact .inl (by simp)
          · exact .inr later

/-- The map has an index for every request. -/
theorem getParentPathToIndexPathMap_complete (requests : List IndexUpdateRequest) (s : S) :
    Always exec (fun r _ => ∀ status indexMap, r = .ok (status, indexMap) → status.ok = true →
      ∀ r ∈ requests, lookup indexMap (FsPath.parentPath r.filePath) r.indexName =
        some (indexIn indexMap r)) (getParentPathToIndexPathMap c requests) s := by
  refine (findIndices_complete ∅ (namesOf requests) s).imp fun _ _ all => ?_
  intro status indexMap same ok r hr
  obtain ⟨path, found⟩ := Option.ne_none_iff_exists'.mp
    (all status indexMap same ok _ _ (.inr (mem_namesOf.mpr ⟨r, hr, rfl, rfl⟩)))
  rw [indexIn, found, Option.getD_some]

/-! ## Sending -/

/-- An update for an index server, and whether the server has answered. -/
structure Sending where
  action : NodeAddress × IndexUpdate
  served : Bool

def sendingTo (a : NodeAddress) {β : Type} (b : Except RpcError β) : IndexRpc β → List Sending
  | .update updates => [⟨(a, updates), b.toBool⟩]
  | _ => []

def Rpc.sending {β : Type} (b : Except RpcError β) : Rpc β → List Sending
  | .master _ _ => []
  | .index a request => sendingTo a b request

/-- The same environment, where the updates are kept. -/
def Noting (exec : Exec Rpc RpcError S) : Exec Rpc RpcError (S × List Sending) :=
  fun β rpc s b s' => exec β rpc s.1 b s'.1 ∧ s'.2 = s.2 ++ rpc.sending b

/-- The calls that are no updates. -/
def Asking (β : Type) (rpc : Rpc β) : Prop := ∀ b, rpc.sending b = []

omit [FsPath] [PathHash] [ConsistentHashMap] in
/-- A program that only asks runs as it does when nothing is kept. -/
theorem evals_of_noting {α : Type} {p : ClientM α} (asking : p.Calls Asking)
    {s s' : S × List Sending} {r : Except Exit α} (run : Evals (Noting exec) p s r s') :
    Evals exec p s.1 r s'.1 ∧ s'.2 = s.2 := by
  refine ⟨run.map Prod.fst fun _ _ _ _ _ now => now.1, ?_⟩
  have kept (β : Type) (rpc : Rpc β) (t : S × List Sending) (b : Except RpcError β)
      (t' : S × List Sending) (quiet : Asking β rpc) (now : Noting exec β rpc t b t')
      (same : t.2 = s.2) : t'.2 = s.2 := by
    rw [now.2, quiet b, List.append_nil, same]
  exact run.invariant kept asking rfl

/-- Where the loop over the servers stops, with the entries that are left: at the end, at an update
that is not answered, or at a text that is no address. -/
inductive Stops : List Sending → List (Str × ExtTreeMap Str (List Nat)) → Except Exit Status →
    Prop where
  | never {sent : List Sending} (served : ∀ e ∈ sent, e.served = true) : Stops sent [] (.ok .OK)
  | unanswered {sent : List Sending} {last : Sending} {status : Status}
      {rest : List (Str × ExtTreeMap Str (List Nat))} (served : ∀ e ∈ sent, e.served = true)
      (lost : last.served = false) : Stops (sent ++ [last]) rest (.ok status)
  | unread {sent : List Sending} {exit : Exit} {e : Str × ExtTreeMap Str (List Nat)}
      {rest : List (Str × ExtTreeMap Str (List Nat))} (served : ∀ e ∈ sent, e.served = true)
      (thrown : stringToAddress e.1 = .throw exit) : Stops sent (e :: rest) (.error exit)

omit [FsPath] [PathHash] [ConsistentHashMap] in
theorem Stops.cons {sent : List Sending} {rest : List (Str × ExtTreeMap Str (List Nat))}
    {r : Except Exit Status} (later : Stops sent rest r) {first : Sending}
    (served : first.served = true) : Stops (first :: sent) rest r := by
  have all {sent : List Sending} (others : ∀ e ∈ sent, e.served = true) :
      ∀ e ∈ first :: sent, e.served = true := by
    intro e he
    rcases List.mem_cons.mp he with rfl | he
    · exact served
    · exact others e he
  cases later with
  | never others => exact .never (all others)
  | unanswered others lost =>
    rw [← List.cons_append]
    exact .unanswered (all others) lost
  | unread others thrown => exact .unread (all others) thrown

omit [FsPath] [PathHash] [ConsistentHashMap] in
theorem updateAction_of_read {addr : Str} {address : NodeAddress}
    (read : stringToAddress addr = .ret address) (requests : List IndexUpdateRequest)
    (objectIds : List ObjectId) (partitions : ExtTreeMap Str (List Nat)) :
    updateAction requests objectIds (addr, partitions) =
      (address, { updates := partitions.toList.map (recordList requests objectIds) }) := by
  simp only [updateAction, readAddress, read]

omit [FsPath] [PathHash] [ConsistentHashMap] in
/-- The entries are sent one after the other, up to the first failure. -/
theorem updateOn_notes (requests : List IndexUpdateRequest) (objectIds : List ObjectId)
    (entries : List (Str × ExtTreeMap Str (List Nat))) (s : S) (sent : List Sending) :
    Always (Noting exec) (fun r t => ∃ front rest more, entries = front ++ rest ∧
        t.2 = sent ++ more ∧ more.map (·.action) = front.map (updateAction requests objectIds) ∧
        (∀ e ∈ front, stringToAddress e.1 = .ret (readAddress e.1)) ∧ Stops more rest r)
      (updateOn requests objectIds entries) (s, sent) := by
  induction entries generalizing s sent with
  | nil => exact .ret ⟨[], [], [], rfl, by simp, rfl, by simp, .never (by simp)⟩
  | cons e entries ih =>
    obtain ⟨addr, partitions⟩ := e
    rcases stringToAddress_cases addr with ⟨exit, thrown⟩ | ⟨address, read⟩
    · rw [updateOn, thrown]
      exact .throw ⟨[], _, [], rfl, by simp, rfl, by simp, .unread (by simp) thrown⟩
    have action := updateAction_of_read read requests objectIds partitions
    have read' : stringToAddress addr = .ret (readAddress addr) := by
      simp only [readAddress, read]
    rw [updateOn, read, bind_eq, ret_bind, bind_eq, perform_bind]
    refine .call fun b t now => ?_
    obtain ⟨s₁, sent₁⟩ := t
    have sent₁_eq : sent₁ =
        sent ++ [⟨updateAction requests objectIds (addr, partitions), b.toBool⟩] := by
      rw [action]
      exact now.2
    cases b with
    | error e =>
      have stops (action : NodeAddress × IndexUpdate) :
          Stops ([] ++ [⟨action, false⟩]) entries (.ok e.status) :=
        .unanswered (List.forall_mem_nil _) rfl
      exact .ret ⟨[(addr, partitions)], entries, [⟨_, false⟩], rfl, sent₁_eq, rfl,
        by simpa using read', stops _⟩
    | ok _ =>
      refine (ih s₁ sent₁).imp fun r t later => ?_
      obtain ⟨front, rest, more, split, same, actions, reads, stops⟩ := later
      refine ⟨(addr, partitions) :: front, rest, _ :: more, by rw [split, List.cons_append],
        by rw [same, sent₁_eq, List.append_assoc]; rfl, by simp [actions], ?_, stops.cons rfl⟩
      intro e he
      rcases List.mem_cons.mp he with rfl | he
      · exact read'
      · exact reads e he

/-- What index servers are sent about a batch. Each partition gets one list at most, at the server
that owns it. When all is `done`, every request is in the list of its partition, and the records
are those of the requests. -/
structure SentOnce (c : VSFSRpcClient) (index : IndexUpdateRequest → Str)
    (requests : List IndexUpdateRequest) (objectIds : List ObjectId) (done : Prop)
    (sent : List (NodeAddress × IndexUpdate)) : Prop where
  most : ∀ a part, listsFor a part sent = [] ∨
    serverOf c part = some a ∧ listsFor a part sent = [listOf index requests objectIds part]
  all : done → ∀ r ∈ requests, ∃ a, serverOf c (partitionOf index r) = some a ∧
    listsFor a (partitionOf index r) sent = [listOf index requests objectIds (partitionOf index r)]
  once : done → (sent.flatMap fun e => e.2.updates.flatMap (·.recordUpdates)).Perm
    (requests.zipIdx.map fun e => toRecord e.1 (objectIds.getD e.2 0))

omit [FsPath] [PathHash] [ConsistentHashMap] in
theorem mem_listsFor {a : NodeAddress} {part : Str} {actions : List (NodeAddress × IndexUpdate)}
    {l : RecordUpdateList} : l ∈ listsFor a part actions ↔
      ∃ e ∈ actions, e.1 = a ∧ l ∈ e.2.updates ∧ l.rootPath = part := by
  simp only [listsFor, List.mem_flatMap]
  refine exists_congr fun e => and_congr_right fun _ => ?_
  by_cases there : e.1 = a <;> simp [there]

omit [FsPath] in
theorem records_requestMapOf (index : IndexUpdateRequest → Str) (requests : List IndexUpdateRequest)
    (objectIds : List ObjectId) :
    (((requestMapOf c index requests).toList.map (updateAction requests objectIds)).flatMap
      fun e => e.2.updates.flatMap (·.recordUpdates)).Perm
        (requests.zipIdx.map fun e => toRecord e.1 (objectIds.getD e.2 0)) := by
  have perm := flatMap_group₂_perm (fun pos => serverText c (partitionAt index requests pos))
    (partitionAt index requests) (List.range requests.length)
  have records := filterMap_filter_range (fun _ => true)
    (fun r pos => toRecord r (objectIds.getD pos 0)) default requests
  simp only [List.filter_true] at records
  rw [← records]
  convert perm.filterMap fun pos =>
    requests[pos]?.map fun r => toRecord r (objectIds.getD pos 0) using 1
  simp only [List.flatMap_map, List.filterMap_flatMap, updateAction, recordList]
  rfl

omit [FsPath] in
/-- The first ones of the entries of the map, when all their addresses can be read back. -/
theorem sentOnce_front {index : IndexUpdateRequest → Str} {requests : List IndexUpdateRequest}
    {objectIds : List ObjectId} {front rest : List (Str × ExtTreeMap Str (List Nat) compare)}
    (homes : ∀ r ∈ requests, ∃ node,
      (c.indexServerMap.getByPath (partitionOf index r)).2 = some node)
    (split : (requestMapOf c index requests).toList = front ++ rest)
    (reads : ∀ e ∈ front, stringToAddress e.1 = .ret (readAddress e.1)) {done : Prop}
    (complete : done → rest = []) :
    SentOnce c index requests objectIds done (front.map (updateAction requests objectIds)) := by
  -- Whatever is sent goes to the server of the partition.
  have owner (a : NodeAddress) (part : Str)
      (sent : listsFor a part (front.map (updateAction requests objectIds)) ≠ []) :
      serverOf c part = some a := by
    obtain ⟨l, hl⟩ := List.exists_mem_of_ne_nil _ sent
    obtain ⟨action, hact, rfl, inside, rfl⟩ := mem_listsFor.mp hl
    obtain ⟨⟨addr, partitions⟩, he, rfl⟩ := List.mem_map.mp hact
    obtain ⟨⟨part, positions⟩, here, rfl⟩ := List.mem_map.mp inside
    have entry : (requestMapOf c index requests)[addr]? = some partitions := by
      rw [← ExtTreeMap.mem_toList_iff_getElem?_eq_some, split]
      exact List.mem_append_left _ he
    have found : partitions[part]? = some positions :=
      ExtTreeMap.mem_toList_iff_getElem?_eq_some.mp here
    exact (requests_of_entry homes objectIds entry found (reads _ he)).1
  have whole (a : NodeAddress) (part : Str) :
      listsFor a part (front.map (updateAction requests objectIds)) ++
        listsFor a part (rest.map (updateAction requests objectIds)) =
      if readAddress (serverText c part) = a ∧ ∃ r ∈ requests, partitionOf index r = part then
        [listOf index requests objectIds part]
      else [] := by
    rw [← listsFor_requestMapOf, split, List.map_append]
    simp only [listsFor, List.flatMap_append]
  refine ⟨fun a part => ?_, fun hd r hr => ?_, fun hd => ?_⟩
  · refine or_iff_not_imp_left.mpr fun sent => ⟨owner a part sent, ?_⟩
    have all := whole a part
    split at all
    · rcases List.append_eq_singleton_iff.mp all with ⟨none, -⟩ | ⟨one, -⟩
      · exact absurd none sent
      · exact one
    · exact absurd (List.append_eq_nil_iff.mp all).1 sent
  · have all := whole (readAddress (serverText c (partitionOf index r))) (partitionOf index r)
    rw [complete hd, if_pos ⟨rfl, r, hr, rfl⟩] at all
    have all : listsFor (readAddress (serverText c (partitionOf index r))) (partitionOf index r)
        (front.map (updateAction requests objectIds)) =
          [listOf index requests objectIds (partitionOf index r)] := by
      simpa [listsFor] using all
    exact ⟨_, owner _ _ (by simp [all]), all⟩
  · rw [complete hd, List.append_nil] at split
    rw [← split]
    exact records_requestMapOf index requests objectIds

/-! ## The whole task -/

/-- How a task ends that has something to send: everything is sent and answered, or it was told of
a failure, or the host of a server has a colon. -/
inductive Dispatched (c : VSFSRpcClient) (index : IndexUpdateRequest → Str)
    (requests : List IndexUpdateRequest) : List Sending → Except Exit Status → Prop where
  | done {sent : List Sending} (served : ∀ e ∈ sent, e.served = true) :
      Dispatched c index requests sent (.ok .OK)
  | unanswered {sent : List Sending} {last : Sending} {status : Status}
      (served : ∀ e ∈ sent, e.served = true) (lost : last.served = false) :
      Dispatched c index requests (sent ++ [last]) (.ok status)
  | unread {sent : List Sending} {r : IndexUpdateRequest} {a : NodeAddress}
      (served : ∀ e ∈ sent, e.served = true) (hr : r ∈ requests)
      (home : serverOf c (partitionOf index r) = some a) (colon : ':' ∈ a.host) :
      Dispatched c index requests sent (.error (.crash (.check "2u == fields.size()")))

/-- How a task ends, and what index servers are sent: the requests, with the indices that were
found and the object ids that were read, or nothing where one of these was not to be had. -/
inductive Delivers (c : VSFSRpcClient) (exec : Exec Rpc RpcError S)
    (requests : List IndexUpdateRequest) (s : S) : Except Exit Status → List Sending → Prop where
  | lost {exit : Exit} {s₁ : S}
      (found : Evals exec (getParentPathToIndexPathMap c requests) s (.error exit) s₁) :
      Delivers c exec requests s (.error exit) []
  | missing {status : Status} {indexMap : ParentPathToIndexPathMap} {s₁ : S}
      (found : Evals exec (getParentPathToIndexPathMap c requests) s (.ok (status, indexMap)) s₁)
      (bad : status.ok = false) : Delivers c exec requests s (.ok status) []
  | unserved {status : Status} {indexMap : ParentPathToIndexPathMap} {s₁ : S}
      {r : IndexUpdateRequest}
      (found : Evals exec (getParentPathToIndexPathMap c requests) s (.ok (status, indexMap)) s₁)
      (hr : r ∈ requests)
      (absent : (c.indexServerMap.getByPath (partitionOf (indexIn indexMap) r)).2 = none) :
      Delivers c exec requests s
        (.error (.crash (.check "parent_->index_server_map_.get(hash, &node).ok()"))) []
  | unread {status : Status} {indexMap : ParentPathToIndexPathMap} {exit : Exit} {s₁ s₂ : S}
      (found : Evals exec (getParentPathToIndexPathMap c requests) s (.ok (status, indexMap)) s₁)
      (read : Evals exec (c.findObjects (requests.map (·.filePath))) s₁ (.error exit) s₂) :
      Delivers c exec requests s (.error exit) []
  | unknown {status status' : Status} {indexMap : ParentPathToIndexPathMap}
      {objectIds : List ObjectId} {s₁ s₂ : S}
      (found : Evals exec (getParentPathToIndexPathMap c requests) s (.ok (status, indexMap)) s₁)
      (read : Evals exec (c.findObjects (requests.map (·.filePath))) s₁
        (.ok (status', objectIds)) s₂) (bad : status'.ok = false) :
      Delivers c exec requests s (.ok status') []
  | batch {status status' : Status} {indexMap : ParentPathToIndexPathMap}
      {objectIds : List ObjectId} {s₁ s₂ : S} {r : Except Exit Status} {sent : List Sending}
      (found : Evals exec (getParentPathToIndexPathMap c requests) s (.ok (status, indexMap)) s₁)
      (ok : status.ok = true)
      (read : Evals exec (c.findObjects (requests.map (·.filePath))) s₁
        (.ok (status', objectIds)) s₂) (ok' : status'.ok = true)
      (ended : Dispatched c (indexIn indexMap) requests sent r)
      (once : SentOnce c (indexIn indexMap) requests objectIds
        (r = .ok .OK ∧ ∀ e ∈ sent, e.served = true) (sent.map (·.action))) :
      Delivers c exec requests s r sent

omit [FsPath] in
/-- The keys of the map are the texts of the servers. -/
theorem server_of_key {index : IndexUpdateRequest → Str} {requests : List IndexUpdateRequest}
    (homes : ∀ r ∈ requests, ∃ node,
      (c.indexServerMap.getByPath (partitionOf index r)).2 = some node)
    {e : Str × ExtTreeMap Str (List Nat) compare}
    (he : e ∈ (requestMapOf c index requests).toList) :
    ∃ r ∈ requests, ∃ a, serverOf c (partitionOf index r) = some a ∧ e.1 = addressToString a := by
  have entry := ExtTreeMap.mem_toList_iff_getElem?_eq_some.mp he
  obtain ⟨pos, inside, text⟩ := (mem_group₂ _ _ _ _).mp ((mem_iff_exists _ _).mpr ⟨_, entry⟩)
  rw [List.mem_range] at inside
  have here := List.getElem?_eq_getElem inside
  have mine : partitionAt index requests pos = partitionOf index requests[pos] := by
    rw [partitionAt, List.getD_eq_getElem?_getD, here, Option.getD_some]
  have hr := List.mem_of_getElem? here
  obtain ⟨node, home⟩ := homes _ hr
  refine ⟨_, hr, node.address, by rw [serverOf, home, Option.map_some], ?_⟩
  rw [← text, mine]
  exact addressText_of_some home

omit [FsPath] in
theorem Stops.ended {index : IndexUpdateRequest → Str} {requests : List IndexUpdateRequest}
    (homes : ∀ r ∈ requests, ∃ node,
      (c.indexServerMap.getByPath (partitionOf index r)).2 = some node)
    {sent : List Sending} {front rest : List (Str × ExtTreeMap Str (List Nat) compare)}
    {r : Except Exit Status} (split : (requestMapOf c index requests).toList = front ++ rest)
    (stops : Stops sent rest r) : Dispatched c index requests sent r := by
  cases stops with
  | never served => exact .done served
  | unanswered served lost => exact .unanswered served lost
  | @unread _ exit e rest served thrown =>
    have he : e ∈ (requestMapOf c index requests).toList := by
      rw [split]
      simp
    obtain ⟨q, hq, a, home, text⟩ := server_of_key homes he
    rw [text] at thrown
    by_cases colon : ':' ∈ a.host
    · rw [stringToAddress_of_colon colon] at thrown
      cases thrown
      exact .unread served hq home colon
    · rw [stringToAddress_addressToString colon] at thrown
      cases thrown

omit [FsPath] [PathHash] [ConsistentHashMap] in
theorem Stops.rest_eq_nil {sent : List Sending} {rest : List (Str × ExtTreeMap Str (List Nat))}
    {r : Except Exit Status} (stops : Stops sent rest r)
    (done : r = .ok .OK ∧ ∀ e ∈ sent, e.served = true) : rest = [] := by
  obtain ⟨same, served⟩ := done
  cases stops with
  | never => rfl
  | unanswered _ lost =>
    rw [served _ (by simp)] at lost
    cases lost
  | unread => cases same

theorem getParentPathToIndexPathMap_asks (requests : List IndexUpdateRequest) :
    (getParentPathToIndexPathMap c requests).Calls Asking :=
  findIndices_calls c (fun _ _ _ => rfl) ∅ _

omit [FsPath] in
theorem findObjects_asks (paths : List Str) : (c.findObjects paths).Calls Asking :=
  findObjects_calls c (fun _ _ _ => rfl) _

theorem run_delivers (requests : List IndexUpdateRequest) (s : S) :
    Always (Noting exec) (fun r t => Delivers c exec requests s r t.2) (run c requests)
      (s, []) := by
  refine .bind fun r t run => ?_
  obtain ⟨s₁, sent⟩ := t
  obtain ⟨found, rfl⟩ := evals_of_noting (getParentPathToIndexPathMap_asks requests) run
  cases r with
  | error exit => exact .lost found
  | ok out =>
    obtain ⟨status, indexMap⟩ := out
    simp only [Leads]
    split
    · rename_i bad
      exact .ret (.missing found (by simpa using bad))
    rename_i good
    have ok : status.ok = true := by simpa using good
    have all := getParentPathToIndexPathMap_complete requests s _ _ found status indexMap rfl ok
    rcases reorder_of_complete (c := c) all with ⟨homes, sorted⟩ | ⟨⟨r, hr, absent⟩, thrown⟩
    · rw [sorted, bind_eq, ret_bind]
      refine .bind fun r t run => ?_
      obtain ⟨s₂, sent⟩ := t
      obtain ⟨read, rfl⟩ := evals_of_noting (findObjects_asks _) run
      cases r with
      | error exit => exact .unread found read
      | ok out =>
        obtain ⟨status', objectIds⟩ := out
        simp only [Leads]
        split
        · rename_i bad
          exact .ret (.unknown found read (by simpa using bad))
        rename_i good
        have ok' : status'.ok = true := by simpa using good
        refine (updateOn_notes requests objectIds _ s₂ []).imp fun r t updated => ?_
        obtain ⟨front, rest, more, split, same, actions, reads, stops⟩ := updated
        rw [same, List.nil_append]
        refine .batch found ok read ok' (stops.ended homes split) ?_
        rw [actions]
        exact sentOnce_front homes split reads stops.rest_eq_nil
    · rw [thrown]
      exact .throw (.unserved found hr absent)

/-! ## Tasks that are answered -/

/-- The index servers answer every update. -/
def TakesUpdates (exec : Exec Rpc RpcError S) : Prop :=
  ∀ (a : NodeAddress) (updates : IndexUpdate) (s : S),
    ∃ s', exec Unit (.index a (.update updates)) s (.ok ()) s'

omit [FsPath] [PathHash] [ConsistentHashMap] in
theorem noting_of_evals {α : Type} {p : ClientM α} (asking : p.Calls Asking) {s s' : S}
    {r : Except Exit α} (run : Evals exec p s r s') (sent : List Sending) :
    Evals (Noting exec) p (s, sent) r (s', sent) := by
  refine run.map_of_calls (fun s => (s, sent)) (fun β rpc s b s' quiet now => ⟨now, ?_⟩) asking
  rw [quiet b, List.append_nil]

omit [FsPath] [PathHash] [ConsistentHashMap] in
theorem updateOn_ends (takes : TakesUpdates exec) (requests : List IndexUpdateRequest)
    (objectIds : List ObjectId) {entries : List (Str × ExtTreeMap Str (List Nat))}
    (reads : ∀ e ∈ entries, ∃ a, stringToAddress e.1 = .ret a) (s : S) (sent : List Sending) :
    ∃ s' more, Evals (Noting exec) (updateOn requests objectIds entries) (s, sent) (.ok .OK)
      (s', sent ++ more) ∧ ∀ e ∈ more, e.served = true := by
  induction entries generalizing s sent with
  | nil => exact ⟨s, [], by rw [List.append_nil]; exact .ret, by simp⟩
  | cons e entries ih =>
    obtain ⟨addr, partitions⟩ := e
    obtain ⟨a, read⟩ := reads (addr, partitions) List.mem_cons_self
    obtain ⟨s₁, now⟩ := takes a
      { updates := partitions.toList.map (recordList requests objectIds) } s
    obtain ⟨first, noted, answered⟩ : ∃ first : Sending, Noting exec Unit
        (.index a (.update { updates := partitions.toList.map (recordList requests objectIds) }))
        (s, sent) (.ok ()) (s₁, sent ++ [first]) ∧ first.served = true :=
      ⟨⟨(a, _), true⟩, ⟨now, rfl⟩, rfl⟩
    obtain ⟨s', more, rest, served⟩ :=
      ih (fun e he => reads e (List.mem_cons_of_mem _ he)) s₁ (sent ++ [first])
    rw [List.append_assoc] at rest
    refine ⟨s', [first] ++ more, ?_, ?_⟩
    · rw [updateOn, read, bind_eq, ret_bind, bind_eq, perform_bind]
      exact .call noted rest
    · intro e he
      rcases List.mem_cons.mp he with rfl | he
      · exact answered
      · exact served e he

/-- A task with an index and a server for every request ends when its updates are answered. -/
theorem run_ends (takes : TakesUpdates exec) {requests : List IndexUpdateRequest}
    {status status' : Status} {indexMap : ParentPathToIndexPathMap} {objectIds : List ObjectId}
    {s s₁ s₂ : S}
    (found : Evals exec (getParentPathToIndexPathMap c requests) s (.ok (status, indexMap)) s₁)
    (ok : status.ok = true)
    (read : Evals exec (c.findObjects (requests.map (·.filePath))) s₁
      (.ok (status', objectIds)) s₂) (ok' : status'.ok = true)
    (plain : ∀ r ∈ requests, ∃ a, serverOf c (partitionOf (indexIn indexMap) r) = some a ∧
      ':' ∉ a.host) :
    ∃ s' sent, Evals (Noting exec) (run c requests) (s, []) (.ok .OK) (s', sent) ∧
      ∀ e ∈ sent, e.served = true := by
  have homes : ∀ r ∈ requests, ∃ node,
      (c.indexServerMap.getByPath (partitionOf (indexIn indexMap) r)).2 = some node := by
    intro r hr
    obtain ⟨a, home, -⟩ := plain r hr
    obtain ⟨node, home, -⟩ := Option.map_eq_some_iff.mp home
    exact ⟨node, home⟩
  have all := getParentPathToIndexPathMap_complete requests s _ _ found status indexMap rfl ok
  have reads : ∀ e ∈ (requestMapOf c (indexIn indexMap) requests).toList,
      ∃ a, stringToAddress e.1 = .ret a := by
    intro e he
    obtain ⟨r, hr, a, home, text⟩ := server_of_key homes he
    obtain ⟨a', home', colon⟩ := plain r hr
    cases home.symm.trans home'
    exact ⟨a, by rw [text, stringToAddress_addressToString colon]⟩
  obtain ⟨s', sent, updated, served⟩ := updateOn_ends takes requests objectIds reads s₂ []
  refine ⟨s', sent, ?_, served⟩
  refine Evals.bind (noting_of_evals (getParentPathToIndexPathMap_asks requests) found []) ?_
  simp only [ok, Bool.not_true, Bool.false_eq_true, if_false, reorder_eq homes all, bind_eq,
    ret_bind]
  refine Evals.bind (noting_of_evals (findObjects_asks _) read []) ?_
  simp only [ok', Bool.not_true, Bool.false_eq_true, if_false]
  exact updated

/-- Whatever is answered: a task never misses an index that it has looked for, sorts all positions
by the owners of the partitions, and sends every request once unless it is told of a failure; and
when everything is found and every update is answered, it has sent them all. -/
theorem batch_kept (c : VSFSRpcClient) (requests : List IndexUpdateRequest)
    (exec : Exec Rpc RpcError S) (s : S) :
    Always exec (fun r _ => ∀ status indexMap, r = .ok (status, indexMap) → status.ok = true →
      (∀ r ∈ requests, lookup indexMap (FsPath.parentPath r.filePath) r.indexName =
        some (indexIn indexMap r)) ∧
      Sorts c (indexIn indexMap) requests (reorderRequestsToIndexServers c indexMap requests))
      (getParentPathToIndexPathMap c requests) s ∧
    Always (Noting exec) (fun r t => Delivers c exec requests s r t.2) (run c requests)
      (s, []) ∧
    (TakesUpdates exec → ∀ {status status' indexMap objectIds s₁ s₂},
      Evals exec (getParentPathToIndexPathMap c requests) s (.ok (status, indexMap)) s₁ →
      status.ok = true →
      Evals exec (c.findObjects (requests.map (·.filePath))) s₁ (.ok (status', objectIds)) s₂ →
      status'.ok = true →
      (∀ r ∈ requests, ∃ a, serverOf c (partitionOf (indexIn indexMap) r) = some a ∧
        ':' ∉ a.host) →
      ∃ s' sent, Evals (Noting exec) (run c requests) (s, []) (.ok .OK) (s', sent) ∧
        ∀ e ∈ sent, e.served = true) := by
  refine ⟨?_, run_delivers requests s, fun takes _ _ _ _ _ _ => run_ends takes⟩
  refine (getParentPathToIndexPathMap_complete requests s).imp fun r s' all => ?_
  intro status indexMap same ok
  have found := all status indexMap same ok
  exact ⟨found, reorder_sorts found⟩

end Batch

section Example

attribute [local instance] SortedRing.consistentHashMap Posix.fsPath Md5.pathHash

/-- Everything is a directory, files have the id 7, and updates are taken. -/
def obliging : (β : Type) → Rpc β → Unit → Option (Except RpcError β × Unit)
  | _, .master _ (.getattr _), s => some (.ok { mode := some 0o040755#64 }, s)
  | _, .master _ (.findObjects files), s => some (.ok (List.replicate files.length 7#64), s)
  | _, .index _ (.update _), s => some (.ok (), s)
  | _, _, _ => none

def Obliges : Exec Rpc RpcError Unit := fun β rpc s b s' => obliging β rpc s = some (b, s')

def threeUpdates : List IndexUpdateRequest :=
  [⟨.insert, "/f".toList, "a".toList, "1".toList⟩, ⟨.insert, "/f".toList, "b".toList, "2".toList⟩,
    ⟨.remove, "/f".toList, "a".toList, "1".toList⟩]

def returnsOK {α : Type} (p : ClientM (Status × α)) : Bool :=
  match eval obliging 40 p () with
  | some (.ok out, _) => out.1.ok
  | _ => false

theorem evals_of_returnsOK {α : Type} {p : ClientM (Status × α)} (h : returnsOK p = true)
    (s : Unit) : ∃ status a s', Evals Obliges p s (.ok (status, a)) s' ∧ status.ok = true := by
  unfold returnsOK at h
  split at h
  · rename_i out s' ran
    exact ⟨out.1, out.2, s', eval_sound (fun _ _ _ _ _ answered => answered) ran, h⟩
  · cases h

/-- Where all is found and answered, the three requests are sent. -/
theorem threeUpdates_kept : ∃ s' sent,
    Evals (Noting Obliges) (run oneServer threeUpdates) ((), []) (.ok .OK) (s', sent) ∧
      Delivers oneServer Obliges threeUpdates () (.ok .OK) sent ∧
      ∀ e ∈ sent, e.served = true := by
  obtain ⟨-, delivers, sends⟩ := batch_kept oneServer threeUpdates Obliges ()
  have looked : returnsOK (getParentPathToIndexPathMap oneServer threeUpdates) = true := by
    decide +kernel
  have read : returnsOK (oneServer.findObjects (threeUpdates.map (·.filePath))) = true := by
    decide +kernel
  obtain ⟨status, indexMap, s₁, looks, ok⟩ := evals_of_returnsOK looked ()
  obtain ⟨status', objectIds, s₂, reads, ok'⟩ := evals_of_returnsOK read s₁
  obtain ⟨s', sent, sends, served⟩ := sends (fun _ _ s => ⟨s, rfl⟩) looks ok reads ok' fun r _ =>
    ⟨⟨"i".toList, 2⟩, by simp [serverOf, ServerMap.getByPath, oneServer_indexServer], by decide⟩
  exact ⟨s', sent, sends, delivers _ _ sends, served⟩

/-- The requests for `b` do not come between those for `a`. -/
example : (requestMapOf oneServer (fun r => "/.vsfs/".toList ++ r.indexName)
    [⟨.insert, "/f".toList, "a".toList, "1".toList⟩, ⟨.insert, "/f".toList, "b".toList, "2".toList⟩,
      ⟨.remove, "/f".toList, "a".toList, "1".toList⟩]).toList.map (fun e => (e.1, e.2.toList)) =
    [("i:2".toList, [("/.vsfs/a/0".toList, [0, 2]), ("/.vsfs/b/0".toList, [1])])] := by
  decide +kernel

end Example

end Vsfs.Client

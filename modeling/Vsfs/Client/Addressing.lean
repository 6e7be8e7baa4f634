import Vsfs.Client.Calls
import Vsfs.Client.IndexInfos
import Vsfs.Client.Placement
import Vsfs.Client.Removal
import Vsfs.Client.Work

/-!
# The key of a partition

Creating, updating, searching and listing an index each build the path of its partition anew,
and send it to the server that the ring has for that path. What is sent is watched here in
every run, whatever the index servers answer.

## Main results

- `partition_reached`: for a normalised root and a plain name all of them send the same path to
  the same server.
-/

namespace Vsfs.Client

open Std Program Prog Masterd Indexd Index FiniteMap Grouping VSFSRpcClient IndexUpdateTask

variable {K : Type} [LinearOrder K] [FsPath] [PathHash] [ConsistentHashMap]

/-! ## What index servers are sent -/

/-- What an index server is told about a partition, with the records that come with it. -/
structure Message where
  address : NodeAddress
  key : Str
  records : List RecordUpdateOp := []

omit [FsPath] [PathHash] [ConsistentHashMap] in
/-- A request to remove an index names no partition, and the server ignores it. -/
def messagesTo (a : NodeAddress) {α : Type} : IndexRpc α → List Message
  | .createIndex request => [⟨a, request.root, []⟩]
  | .removeIndex _ _ => []
  | .update updates => updates.updates.map fun l => ⟨a, l.rootPath, l.recordUpdates⟩
  | .search query => query.rangeQueries.map fun q => ⟨a, q.indexPath, []⟩
  | .info _ path => [⟨a, path, []⟩]

def Rpc.messages {α : Type} : Rpc α → List Message
  | .master _ _ => []
  | .index a request => messagesTo a request

/-- An exception that says neither that the call was served nor that something is absent. -/
def Lost {β : Type} (b : Except RpcError β) : Prop :=
  ∃ e, b = .error e ∧ e.status.ok = false ∧ e.status.error ≠ -ENOENT

/-- A master answers the questions about indices by its state, if the call is not lost. -/
def Tells (mc : MasterController) {β : Type} : MasterRpc β → Except RpcError β → Prop
  | .getattr path, b =>
    b = (checkStatus (mc.namespace.getattr path).1
      ((mc.namespace.getattr path).2.getD {})).mapError .invalidOp ∨ Lost b
  | .locateIndicesForSearch root names, b =>
    b = .ok (mc.locateIndicesForSearch root names) ∨ Lost b
  | .locateIndices path recursive, b =>
    b = .ok (mc.indexNamespace.getIndices path recursive) ∨ Lost b
  | _, b => ∀ e, b = .error e → e.status.ok = false

/-- The masters answer by the state `s`, and the index servers as they like, but for an
exception with the code zero. -/
def Informed (s : Servers K) {β : Type} : Rpc β → Except RpcError β → Prop
  | .master a request, b => Tells (s.masters a) request b
  | .index _ _, b => ∀ e, b = .error e → e.status.ok = false

/-- An environment that keeps the messages. -/
def Watched (s : Servers K) : Exec Rpc RpcError (List Message) :=
  fun _ rpc sent b sent' => Informed s rpc b ∧ sent' = sent ++ rpc.messages

/-- The messages are about the expected partitions only, each at the server that the ring has
for it, and about all of them when the call is done. -/
structure Addressed (c : VSFSRpcClient) (expected : Str → Prop) (done : Prop)
    (sent : List Message) : Prop where
  only : ∀ m ∈ sent, expected m.key ∧ serverOf c m.key = some m.address
  all : done → ∀ key, expected key → ∃ m ∈ sent, m.key = key

variable {c : VSFSRpcClient} {s : Servers K}

/-- The calls that send nothing about a partition. -/
def Silent (β : Type) (rpc : Rpc β) : Prop := rpc.messages = []

omit [PathHash] [ConsistentHashMap] in
theorem always_of_silent {α : Type} {p : ClientM α} (silent : p.Calls Silent)
    (sent : List Message) : Always (Watched s) (fun _ sent' => sent' = sent) p sent := by
  intro r sent' run
  have kept (β : Type) (rpc : Rpc β) (t : List Message) (b : Except RpcError β) (t' : List Message)
      (quiet : Silent β rpc) (now : Watched s β rpc t b t') (same : t = sent) : t' = sent := by
    rw [now.2, quiet, same, List.append_nil]
  exact run.invariant kept silent rfl

omit [FsPath] [PathHash] in
theorem get_cases (servers : ServerMap) (key : HashValueType) :
    (servers.get key).2 = none ∨ ∃ node, servers.get key = (.OK, some node) := by
  unfold ServerMap.get
  cases ConsistentHashMap.get servers.ring key.toInt with
  | none => exact .inl rfl
  | some node => exact .inr ⟨node, rfl⟩

omit [FsPath] [PathHash] in
theorem get_of_named {servers : ServerMap} {key : HashValueType} (h : Named (servers.get key)) :
    ∃ node, servers.get key = (.OK, some node) := by
  rcases get_cases servers key with none | found
  · obtain ⟨node, home, -⟩ := h
    rw [none] at home
    cases home
  · exact found

/-- What the attributes of a path tell about the directory. -/
structure Seen (c : VSFSRpcClient) (s : Servers K) (path : Str) (status : Status)
    (stat : Option Stat) : Prop where
  none : stat = none → status.ok = false
  isDir : (stat.any fun st => S_ISDIR st.mode) = true → IsDirectory c s path
  notDir : (stat.any fun st => S_ISDIR st.mode) = false →
    status.ok = true ∨ status.error = -ENOENT → ¬ IsDirectory c s path

theorem getattrStat_always (path : Str) (sent : List Message) :
    Always (Watched s) (fun r sent' => sent' = sent ∧ ∀ status stat, r = .ok (status, stat) →
      Seen c s path status stat) (c.getattrStat path) sent := by
  rcases get_cases c.masterMap (PathHash.pathToHash path) with absent | ⟨node, home⟩
  · have absent' : (c.masterMap.getByPath path).2 = none := absent
    simp only [getattrStat, VSFSRpcClient.getattr, checkGet_none absent', bind_eq, throw_bind]
    exact .throw ⟨rfl, by simp⟩
  have home' : c.masterMap.getByPath path = (.OK, some node) := home
  have isDirectory : IsDirectory c s path ↔
      ∃ m, (s.masters node.address).namespace.metadataMap[path]? = some m ∧ S_ISDIR m.mode := by
    constructor
    · rintro ⟨node', m, there, found, dir⟩
      cases home'.symm.trans there
      exact ⟨m, found, dir⟩
    · rintro ⟨m, found, dir⟩
      exact ⟨node, m, home', found, dir⟩
  simp only [getattrStat, VSFSRpcClient.getattr, home', checkGet, bind_eq, ret_bind, perform_bind,
    call_bind]
  refine .call fun b sent' watched => ?_
  obtain ⟨told, same⟩ := watched
  have kept : sent' = sent := by simpa [Rpc.messages] using same
  rcases told with rfl | ⟨e, rfl, bad, code⟩
  · cases found : (s.masters node.address).namespace.metadataMap[path]? with
    | none =>
      simp only [Namespace.getattr, found, checkStatus, Status.systemError, Except.mapError]
      refine .ret ⟨kept, fun status stat same => ?_⟩
      cases same
      refine ⟨fun _ => rfl, by simp, fun _ _ dir => ?_⟩
      obtain ⟨m, there, -⟩ := isDirectory.mp dir
      rw [found] at there
      cases there
    | some m =>
      simp only [Namespace.getattr, found, checkStatus, Status.ok_OK, if_true, Option.getD_some,
        Except.mapError]
      refine .ret ⟨kept, fun status stat same => ?_⟩
      cases same
      refine ⟨by simp, fun dir => ?_, fun file _ dir => ?_⟩
      · exact isDirectory.mpr ⟨m, found, by simpa [setWidth_signExtend] using dir⟩
      · obtain ⟨m', there, isDir⟩ := isDirectory.mp dir
        cases found.symm.trans there
        simp [setWidth_signExtend, isDir] at file
  · simp only [pure_eq, ret_bind, bad, Bool.not_false, if_true]
    refine .ret ⟨kept, fun status stat same => ?_⟩
    cases same
    exact ⟨fun _ => bad, by simp, fun _ cause => by simp [bad, code] at cause⟩

/-! ## Creating an index -/

omit [FsPath] in
theorem serverOf_of_home {part : Str} {node : NodeInfo}
    (home : c.indexServerMap.get (PathHash.pathToHash part) = (.OK, some node)) :
    serverOf c part = some node.address := by
  simp [serverOf, ServerMap.getByPath, home]

omit [FsPath] in
theorem addressed_single {part : Str} {node : NodeInfo}
    (home : c.indexServerMap.get (PathHash.pathToHash part) = (.OK, some node)) (done : Prop) :
    Addressed c (· = part) done [⟨node.address, part, []⟩] := by
  refine ⟨?_, fun _ key expected => ⟨_, List.mem_singleton_self _, expected.symm⟩⟩
  intro m mem
  rw [List.mem_singleton.mp mem]
  exact ⟨rfl, serverOf_of_home home⟩

theorem removeIndex_silent (root name : Str) : (c.removeIndex root name).Calls Silent := by
  refine (removeIndex_calls c root name).mono fun β rpc removal => ?_
  cases rpc with
  | master a request => rfl
  | index a request =>
    cases request with
    | removeIndex root name => rfl
    | createIndex | update | search | info => exact removal.elim

theorem registerIndex_silent (request : IndexCreateRequest) :
    (c.registerIndex request).Calls Silent :=
  registerIndex_calls (fun _ => rfl) (removeIndex_silent _ _)
    (create_calls (fun _ _ _ => rfl) (fun _ _ _ => rfl) fun _ => rfl)
    (rmdir_calls (fun _ => rfl) fun _ _ _ => rfl)

/-- The one message of a creation goes out before anything else is done. -/
theorem createIndex_addressed (root name : Str) (indexType keyType : BitVec 32)
    (mode uid gid : BitVec 64) :
    Always (Watched s) (fun r sent => Addressed c (· = PathUtil.partitionPath root name 0)
      (∃ status, r = .ok status ∧ status.ok = true) sent)
      (c.createIndex root name indexType keyType mode uid gid) [] := by
  have nothing {r : Except Exit Status} (bad : ∀ status, r = .ok status → status.ok = false) :
      Addressed c (· = PathUtil.partitionPath root name 0)
        (∃ status, r = .ok status ∧ status.ok = true) [] := by
    refine ⟨by simp, ?_⟩
    rintro ⟨status, same, ok⟩
    rw [bad status same] at ok
    cases ok
  refine .bind ((getattrStat_always root []).imp fun r sent told => ?_)
  obtain ⟨rfl, seen⟩ := told
  cases r with
  | error exit => exact nothing (by simp)
  | ok out =>
    obtain ⟨status, stat⟩ := out
    cases stat with
    | none =>
      refine .ret (nothing fun status' same => ?_)
      cases same
      exact (seen _ _ rfl).none rfl
    | some stbuf =>
      simp only [Leads]
      split
      · exact .ret (nothing fun status' same => by cases same; rfl)
      · rcases get_cases c.indexServerMap
          (PathHash.pathToHash (PathUtil.partitionPath root name 0)) with absent | ⟨node, home⟩
        · rw [checkGet_none absent]
          exact .throw (nothing (by simp))
        · rw [home]
          simp only [checkGet, bind_eq, ret_bind, perform_bind]
          refine .call fun b sent watched => ?_
          have one : sent = [⟨node.address, PathUtil.partitionPath root name 0, []⟩] := watched.2
          have reached (done : Prop) :
              Addressed c (· = PathUtil.partitionPath root name 0) done sent :=
            one ▸ addressed_single home done
          have later {p : ClientM Status} (silent : p.Calls Silent) :
              Always (Watched s) (fun r sent => Addressed c
                (· = PathUtil.partitionPath root name 0)
                (∃ status, r = .ok status ∧ status.ok = true) sent) p sent :=
            (always_of_silent silent sent).imp fun r sent' same => same ▸ reached _
          have rest := indexDirectory_calls (c := c)
            { root, name, indexType, keyType, mode, uid, gid }
            (mkdir_calls (fun _ _ => rfl) (fun _ _ _ => rfl) fun _ => rfl)
            (removeIndex_silent _ _) (registerIndex_silent _)
          refine later ?_
          cases b with
          | ok _ => exact rest
          | error e =>
            simp only
            split
            · trivial
            · exact rest

/-! ## Listing indices -/

/-- The call returns, and reports a success. -/
def Done {α : Type} (r : Except Exit (Status × α)) : Prop :=
  ∃ status a, r = .ok (status, a) ∧ status.ok = true

omit [FsPath] in
theorem Addressed.append {l l' : List Str} {done : Prop} {sent sent' : List Message}
    (first : Addressed c (· ∈ l) done sent) (rest : Addressed c (· ∈ l') done sent') :
    Addressed c (· ∈ l ++ l') done (sent ++ sent') := by
  refine ⟨fun m mem => ?_, fun finished key mem => ?_⟩
  · rcases List.mem_append.mp mem with mem | mem
    · exact ⟨List.mem_append_left _ (first.only m mem).1, (first.only m mem).2⟩
    · exact ⟨List.mem_append_right _ (rest.only m mem).1, (rest.only m mem).2⟩
  · rcases List.mem_append.mp mem with mem | mem
    · obtain ⟨m, here, same⟩ := first.all finished key mem
      exact ⟨m, List.mem_append_left _ here, same⟩
    · obtain ⟨m, here, same⟩ := rest.all finished key mem
      exact ⟨m, List.mem_append_right _ here, same⟩

omit [FsPath] in
/-- A loop that is left has sent some of the messages. -/
theorem Addressed.left {l : List Str} {done done' : Prop} {sent : List Message}
    (first : Addressed c (· ∈ l) done sent) (l' : List Str) (failed : ¬ done') :
    Addressed c (· ∈ l ++ l') done' sent :=
  ⟨fun m mem => ⟨List.mem_append_left _ (first.only m mem).1, (first.only m mem).2⟩,
    fun finished => absurd finished failed⟩

omit [FsPath] in
theorem Addressed.none (expected : Str → Prop) {done : Prop} (failed : ¬ done) :
    Addressed c expected done [] :=
  ⟨by simp, fun finished => absurd finished failed⟩

omit [FsPath] [PathHash] [ConsistentHashMap] in
theorem not_done_of_not_ok {α : Type} {status : Status} (bad : status.ok = false) (a : α) :
    ¬ Done (.ok (status, a)) := by
  rintro ⟨status', a', same, ok⟩
  cases same
  rw [bad] at ok
  cases ok

omit [FsPath] [PathHash] [ConsistentHashMap] in
theorem not_done_error {α : Type} (exit : Exit) :
    ¬ Done (.error exit : Except Exit (Status × α)) := by
  rintro ⟨status, a, same, -⟩
  cases same

omit [PathHash] [ConsistentHashMap] in
/-- A loop that asks one master after the other, and collects what they answer. -/
theorem collecting_always (request : MasterRpc (List Str)) (answer : NodeInfo → List Str)
    {loop : List Str → List NodeInfo → ClientM (Status × List Str)}
    (finish : ∀ found, loop found [] = .ret (.OK, found))
    (turn : ∀ found node nodes, loop found (node :: nodes) =
      .call (.master node.address request) fun
        | .ok more => loop (found ++ more) nodes
        | .error e => if !e.status.ok then .ret (e.status, found) else loop found nodes)
    (told : ∀ node b, Tells (s.masters node.address) request b → b = .ok (answer node) ∨ Lost b)
    (found : List Str) (nodes : List NodeInfo) (sent : List Message) :
    Always (Watched s) (fun r sent' => sent' = sent ∧ ∀ status out, r = .ok (status, out) →
      status.ok = true → out = found ++ nodes.flatMap answer) (loop found nodes) sent := by
  induction nodes generalizing found with
  | nil =>
    rw [finish]
    refine .ret ⟨rfl, fun status out same _ => ?_⟩
    cases same
    simp
  | cons node nodes ih =>
    rw [turn]
    refine .call fun b sent' ⟨informed, same⟩ => ?_
    have kept : sent' = sent := by simpa [Rpc.messages] using same
    subst kept
    rcases told node b informed with rfl | ⟨e, rfl, bad, -⟩
    · simpa using ih (found ++ answer node)
    · simp only [bad, Bool.not_false, if_true]
      refine .ret ⟨rfl, fun status out same ok => ?_⟩
      cases same
      rw [bad] at ok
      cases ok

omit [PathHash] [ConsistentHashMap] in
theorem listIndicesOn_always (path : Str) (recursive : Bool) (indices : List Str)
    (nodes : List NodeInfo) (sent : List Message) :
    Always (Watched s) (fun r sent' => sent' = sent ∧ ∀ status out, r = .ok (status, out) →
      status.ok = true → out = indices ++ nodes.flatMap fun node =>
        (s.masters node.address).indexNamespace.getIndices path recursive)
      (listIndicesOn path recursive indices nodes) sent := by
  refine collecting_always (.locateIndices path recursive) _ (fun _ => rfl)
    (fun indices node nodes => ?_) (fun _ _ told => told) indices nodes sent
  refine congrArg (Prog.call _) (funext fun b => ?_)
  cases b <;> rfl

/-- Every index is asked for at the server of its partition. -/
theorem infosOf_addressed (indices : List Str) (infos : List IndexInfo) (sent : List Message) :
    Always (Watched s) (fun r sent' => ∃ more, sent' = sent ++ more ∧
      Addressed c (· ∈ indices.map (· ++ "/0".toList)) (Done r) more)
      (c.infosOf infos indices) sent := by
  induction indices generalizing infos sent with
  | nil => exact .ret ⟨[], by simp, by simp, by simp⟩
  | cons idxPath indices ih =>
    cases split : PathUtil.splitIndexPath idxPath with
    | none =>
      simp only [infosOf, split]
      exact .ret ⟨[], by simp, .none _ (not_done_of_not_ok rfl _)⟩
    | some parts =>
      obtain ⟨root, name⟩ := parts
      simp only [infosOf, split]
      rcases get_cases c.indexServerMap (PathHash.pathToHash (idxPath ++ "/0".toList)) with
        absent | ⟨node, home⟩
      · have absent' : (c.indexServerMap.getByPath (idxPath ++ "/0".toList)).2 = none := absent
        rw [checkGet_none absent']
        exact .throw ⟨[], by simp, .none _ (not_done_error _)⟩
      · have home' : (c.indexServerMap.getByPath (idxPath ++ "/0".toList)).2 = some node :=
          congrArg Prod.snd home
        rw [checkGet_some home']
        simp only [bind_eq, ret_bind, perform_bind]
        refine .call fun b sent₁ ⟨told, kept⟩ => ?_
        have first (done : Prop) : Addressed c (· ∈ [idxPath ++ "/0".toList]) done
            [⟨node.address, idxPath ++ "/0".toList, []⟩] := by
          simpa using addressed_single home done
        have later (infos : List IndexInfo) : Always (Watched s) (fun r sent' =>
            ∃ more, sent' = sent ++ more ∧
              Addressed c (· ∈ (idxPath :: indices).map (· ++ "/0".toList)) (Done r) more)
            (c.infosOf infos indices) sent₁ := by
          refine (ih infos sent₁).imp fun r sent' ⟨more, same, rest⟩ => ?_
          refine ⟨_, ?_, (first _).append rest⟩
          rw [same, kept, List.append_assoc]
          rfl
        cases b with
        | ok info => exact later _
        | error e =>
          have bad := told e rfl
          simp only [bad, Bool.not_false, if_true]
          exact .ret ⟨_, kept, (first True).left _ (not_done_of_not_ok bad _)⟩

/-- The indices under a path that the masters of the client report. -/
def listed (c : VSFSRpcClient) (path : Str) (recursive : Bool) (s : Servers K) : List Str :=
  (c.masterMap.ring.toList.map (·.2)).flatMap fun node =>
    (s.masters node.address).indexNamespace.getIndices path recursive

theorem getIndexInfos_addressed (path : Str) (recursive : Bool) :
    Always (Watched s) (fun r sent => Addressed c
      (· ∈ (listed c path recursive s).map (· ++ "/0".toList)) (Done r) sent)
      (c.getIndexInfos path recursive) [] := by
  refine .bind ((listIndicesOn_always path recursive [] _ []).imp fun r sent ⟨same, all⟩ => ?_)
  subst same
  cases r with
  | error exit => exact .none _ (not_done_error _)
  | ok out =>
    obtain ⟨status, indices⟩ := out
    cases ok : status.ok with
    | false =>
      simp only [Leads, ok, Bool.not_false, if_true]
      exact .ret (.none _ (not_done_of_not_ok ok _))
    | true =>
      simp only [Leads, ok, Bool.not_true, Bool.false_eq_true, if_false]
      rw [all status indices rfl ok]
      refine (infosOf_addressed _ [] []).imp fun r sent' ⟨more, same, rest⟩ => ?_
      rw [same]
      exact rest

/-! ## Searching -/

omit [PathHash] [ConsistentHashMap] in
theorem locateOn_always (query : ComplexQuery) (indices : List Str) (nodes : List NodeInfo)
    (sent : List Message) :
    Always (Watched s) (fun r sent' => sent' = sent ∧ ∀ status out, r = .ok (status, out) →
      status.ok = true → out = indices ++ nodes.flatMap fun node =>
        (s.masters node.address).locateIndicesForSearch query.root query.getNamesOfRangeQueries)
      (locateOn query indices nodes) sent := by
  refine collecting_always (.locateIndicesForSearch query.root query.getNamesOfRangeQueries) _
    (fun _ => rfl) (fun indices node nodes => ?_) (fun _ _ told => told) indices nodes sent
  refine congrArg (Prog.call _) (funext fun b => ?_)
  cases b <;> rfl

/-- The plan has the located partitions, by the text of the server of each. -/
theorem genSearchPlan_always (query : ComplexQuery) (sent : List Message) :
    Always (Watched s) (fun r sent' => sent' = sent ∧ ∀ status plan, r = .ok (status, plan) →
      status.ok = true → plan = groupSet (serverText c) (partitions c query s) ∧
        ∀ part ∈ partitions c query s, ∃ node, (c.indexServerMap.getByPath part).2 = some node)
      (c.genSearchPlan query) sent := by
  refine .bind ((locateOn_always query [] _ sent).imp fun r sent' ⟨same, all⟩ => ?_)
  cases r with
  | error exit => exact ⟨same, by simp⟩
  | ok out =>
    obtain ⟨status, indices⟩ := out
    cases ok : status.ok with
    | false =>
      simp only [Leads, ok, Bool.not_false, if_true]
      refine .ret ⟨same, fun status' plan same' ok' => ?_⟩
      cases same'
      rw [ok] at ok'
      cases ok'
    | true =>
      have found : indices = located c query s := by simpa [located] using all status indices rfl ok
      simp only [Leads, ok, Bool.not_true, Bool.false_eq_true, if_false]
      rcases foldlM_addressText "index_server_map_.get(hash, &node).ok()"
        (fun indexPath => c.indexServerMap.getByPath (indexPath ++ "/0".toList))
        (fun plan addr indexPath => put plan addr (indexPath ++ "/0".toList)) indices ∅ with
        ⟨exit, thrown, -⟩ | ⟨homes, done⟩
      · have first : indices.foldlM c.planPartition ∅ = .throw exit := thrown
        rw [first]
        exact .throw ⟨same, by simp⟩
      · have first : indices.foldlM c.planPartition ∅ = .ret _ := done
        rw [first]
        refine .ret ⟨same, fun status' plan same' _ => ?_⟩
        cases same'
        subst found
        refine ⟨?_, fun part hp => ?_⟩
        · rw [groupSet, partitions, List.foldl_map]
        · obtain ⟨indexPath, inside, rfl⟩ := List.mem_map.mp hp
          exact homes indexPath inside

omit [PathHash] [ConsistentHashMap] in
theorem subQuery_cases (query : ComplexQuery) (part : Str) :
    (∃ exit, subQuery query part = .throw exit) ∨
      ∃ range, subQuery query part = .ret range ∧ range.indexPath = part := by
  unfold subQuery
  dsimp only
  cases query.rangeQuery (FsPath.filename (FsPath.parentPath part)) with
  | none => exact .inl ⟨_, rfl⟩
  | some range => exact .inr ⟨_, rfl, rfl⟩

omit [PathHash] [ConsistentHashMap] in
/-- The ranges are those of the partitions, in order. -/
theorem mapM_subQuery (query : ComplexQuery) (parts : List Str) :
    (∃ exit, parts.mapM (subQuery query) = .throw exit) ∨
      ∃ ranges, parts.mapM (subQuery query) = .ret ranges ∧
        ranges.map (·.indexPath) = parts := by
  induction parts with
  | nil => exact .inr ⟨[], rfl, rfl⟩
  | cons part parts ih =>
    rw [List.mapM_cons]
    rcases subQuery_cases query part with ⟨exit, thrown⟩ | ⟨range, here, path⟩
    · rw [thrown]
      exact .inl ⟨exit, rfl⟩
    rw [here, bind_eq, ret_bind]
    rcases ih with ⟨exit, thrown⟩ | ⟨ranges, done, paths⟩
    · rw [thrown]
      exact .inl ⟨exit, rfl⟩
    · rw [done]
      refine .inr ⟨_, rfl, ?_⟩
      rw [List.map_cons, paths, path]

/-- The partitions of every server are sent to it in one message each. -/
theorem searchOn_addressed (query : ComplexQuery) (entries : List (Str × ExtTreeSet Str))
    (planned : ∀ e ∈ entries, (∃ part, part ∈ e.2) ∧ ∀ part ∈ e.2,
      serverText c part = e.1 ∧ ∃ node, (c.indexServerMap.getByPath part).2 = some node)
    (objects : List ObjectId) (sent : List Message) :
    Always (Watched s) (fun r sent' => ∃ more, sent' = sent ++ more ∧
      Addressed c (· ∈ entries.flatMap (·.2.toList)) (Done r) more)
      (searchOn query objects entries) sent := by
  induction entries generalizing objects sent with
  | nil => exact .ret ⟨[], by simp, by simp, by simp⟩
  | cons e entries ih =>
    obtain ⟨addr, set⟩ := e
    obtain ⟨⟨part, inside⟩, mine⟩ := planned _ List.mem_cons_self
    obtain ⟨text, node, home⟩ := mine part inside
    rcases read_addressText home text with ⟨-, exit, thrown⟩ | ⟨-, read⟩
    · rw [searchOn, thrown]
      exact .throw ⟨[], by simp, .none _ (not_done_error _)⟩
    rcases mapM_subQuery query set.toList with ⟨exit, thrown⟩ | ⟨ranges, queries, paths⟩
    · rw [searchOn, read, bind_eq, ret_bind, thrown]
      exact .throw ⟨[], by simp, .none _ (not_done_error _)⟩
    -- All partitions of the entry are on this server.
    have server (part' : Str) (h' : part' ∈ set) : serverOf c part' = some node.address := by
      obtain ⟨text', node', home'⟩ := mine part' h'
      simp [serverOf, home', (address_of_read home' text' read).1]
    rw [searchOn, read, bind_eq, ret_bind, queries, bind_eq, ret_bind, bind_eq, perform_bind]
    refine .call fun b sent₁ watched => ?_
    obtain ⟨told, kept⟩ := watched
    have messages : (ranges.map fun q => (⟨node.address, q.indexPath, []⟩ : Message)) =
        set.toList.map fun part => ⟨node.address, part, []⟩ := by
      rw [← paths, List.map_map]
      rfl
    have first (done : Prop) : Addressed c (· ∈ set.toList) done
        (set.toList.map fun part => ⟨node.address, part, []⟩) := by
      refine ⟨fun m mem => ?_, fun _ key mem => ⟨_, List.mem_map_of_mem mem, rfl⟩⟩
      obtain ⟨part', here, rfl⟩ := List.mem_map.mp mem
      exact ⟨here, server part' (ExtTreeSet.mem_toList.mp here)⟩
    have sent₁_eq : sent₁ = sent ++ set.toList.map fun part => ⟨node.address, part, []⟩ := by
      rw [kept, ← messages]
      rfl
    rw [List.flatMap_cons]
    cases b with
    | ok tmp =>
      refine (ih (fun e he => planned e (List.mem_cons_of_mem _ he)) (objects ++ tmp) sent₁).imp
        fun r sent' later => ?_
      obtain ⟨more, same, rest⟩ := later
      refine ⟨_, ?_, (first _).append rest⟩
      rw [same, sent₁_eq, List.append_assoc]
    | error e =>
      exact .ret ⟨_, sent₁_eq, (first True).left _ (not_done_of_not_ok (told e rfl) _)⟩

omit [FsPath] [PathHash] in
theorem getFilePathsFromObjects_silent (objects : List ObjectId) :
    (c.getFilePathsFromObjects objects).Calls Silent := by
  have any : ∀ o ∈ objects, (fun _ => True : ObjectId → Prop) o := fun _ _ => trivial
  have guarantees : (c.getFilePathsFromObjects objects).Guarantees (fun _ _ _ => True) Silent
      fun out => ∀ path ∈ out.2, True :=
    getFilePathsFromObjects_guarantees (fun _ _ _ => rfl) (fun _ _ _ _ _ _ => trivial) any
  exact guarantees.calls

theorem search_addressed (query : ComplexQuery) :
    Always (Watched s) (fun r sent => Addressed c (· ∈ partitions c query s) (Done r) sent)
      (c.search query) [] := by
  refine .bind ((genSearchPlan_always query []).imp fun r sent planned => ?_)
  obtain ⟨rfl, all⟩ := planned
  cases r with
  | error exit => exact .none _ (not_done_error _)
  | ok out =>
    obtain ⟨status, plan⟩ := out
    cases ok : status.ok with
    | false =>
      simp only [Leads, ok, Bool.not_false, if_true]
      exact .ret (.none _ (not_done_of_not_ok ok _))
    | true =>
      obtain ⟨rfl, homes⟩ := all status plan rfl ok
      have parts (part : Str) := mem_flatMap_groupSet (serverText c) (partitions c query s) part
      simp only [Leads, ok, Bool.not_true, Bool.false_eq_true, if_false]
      refine .bind ((searchOn_addressed (c := c) query _ (fun e he => ?_) [] []).imp
        fun r sent searched => ?_)
      · have found := ExtTreeMap.mem_toList_iff_getElem?_eq_some.mp he
        obtain ⟨part, inside, text⟩ :=
          exists_of_mem_groupSet ((mem_iff_exists _ _).mpr ⟨e.2, found⟩)
        refine ⟨⟨part, (mem_groupSet found part).mpr ⟨inside, text⟩⟩, fun part' here => ?_⟩
        obtain ⟨inside', text'⟩ := (mem_groupSet found part').mp here
        exact ⟨text', homes part' inside'⟩
      obtain ⟨more, same, rest⟩ := searched
      rw [List.nil_append] at same
      subst same
      simp only [parts] at rest
      cases r with
      | error exit => exact ⟨rest.only, fun done => absurd done (not_done_error _)⟩
      | ok out =>
        obtain ⟨status', objects⟩ := out
        cases ok' : status'.ok with
        | false =>
          simp only [Leads, ok', Bool.not_false, if_true]
          exact .ret ⟨rest.only, fun done => absurd done (not_done_of_not_ok ok' _)⟩
        | true =>
          have reached (done : Prop) : Addressed c (· ∈ partitions c query s) done sent :=
            ⟨rest.only, fun _ => rest.all ⟨_, _, rfl, ok'⟩⟩
          simp only [Leads, ok', Bool.not_true, Bool.false_eq_true, if_false]
          refine (always_of_silent ?_ sent).imp fun r sent' same => same ▸ reached _
          refine (getFilePathsFromObjects_silent objects).bind fun out => ?_
          obtain ⟨status, results⟩ := out
          dsimp only
          split <;> trivial

end Vsfs.Client

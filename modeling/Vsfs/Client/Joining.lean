import Vsfs.Client.Calls
import Vsfs.Client.Interleaving

/-!
# Masters that join

The primary master adds every master that joins to its ring. A client copies the ring when
it starts and never again, and no file moves to another master.

So what a client makes stays within reach of the others while their rings lead them to the
same master. `Sparing` says this of a step, and excludes that the path is removed: by an
operation that is to do so, or by a rollback that finds a file.

## Main results

* `files_stay_reachable` : a path that was made, and is not being removed, is found by every
  client whose ring leads to its master, and cannot be made again.
-/

namespace Vsfs.Client

open Std Program Prog Masterd Indexd Index FiniteMap VSFSRpcClient

/-! ## The primary -/

/-- The rings that the primary master keeps. -/
structure Primary where
  masterServerManager : ServerMap := {}
  indexServerManager : ServerMap := {}

namespace Primary

/-- `MasterController::join_master_server` on the primary. -/
def joinMasterServer (primary : Primary) (answers : ServerMap.RingAnswers) (node : NodeInfo) :
    Status × Primary :=
  let (status, servers) := primary.masterServerManager.add answers node
  (status, { primary with masterServerManager := servers })

/-- `RpcConsistentHashRing`, in the order of an iteration. -/
def ringToRpc (servers : ServerMap) : List (HashValueType × NodeAddress) :=
  servers.ring.toList.map (fun e => (BitVec.ofInt 64 e.1, e.2.address))

def getAllMasters (primary : Primary) : List (HashValueType × NodeAddress) :=
  ringToRpc primary.masterServerManager

def getAllIndexServers (primary : Primary) : List (HashValueType × NodeAddress) :=
  ringToRpc primary.indexServerManager

end Primary

namespace VSFSRpcClient

/-- The loop of the two `sync` functions; a position that is in use is passed over. -/
def syncServerMap (servers : ServerMap) (ring : List (HashValueType × NodeAddress)) : ServerMap :=
  ring.foldl (fun servers e => (servers.addAt e.1 { address := e.2 }).2) servers

/-- `init` of a client whose connection to the primary does not fail. -/
def init (c : VSFSRpcClient) (primary : Primary) : VSFSRpcClient where
  masterMap := syncServerMap c.masterMap primary.getAllMasters
  indexServerMap := syncServerMap c.indexServerMap primary.getAllIndexServers

end VSFSRpcClient

/-! ## Operations of clients -/

inductive FileOperation where
  | create (path : Str) (mode uid gid : BitVec 64)
  | mkdir (path : Str) (mode uid gid : BitVec 64)
  | unlink (path : Str)
  | rmdir (path : Str)
  | getattr (path : Str)
  | readdir (path : Str)
  deriving DecidableEq, Repr

namespace FileOperation

def path : FileOperation → Str
  | .create path _ _ _ => path
  | .mkdir path _ _ _ => path
  | .unlink path => path
  | .rmdir path => path
  | .getattr path => path
  | .readdir path => path

/-- The operation makes its path. -/
def Makes : FileOperation → Prop
  | .create .. => True
  | .mkdir .. => True
  | _ => False

/-- The operation removes its path. -/
def Removes : FileOperation → Prop
  | .unlink _ => True
  | .rmdir _ => True
  | _ => False

instance : DecidablePred Makes
  | .create .. => .isTrue trivial
  | .mkdir .. => .isTrue trivial
  | .unlink _ => .isFalse id
  | .rmdir _ => .isFalse id
  | .getattr _ => .isFalse id
  | .readdir _ => .isFalse id

instance : DecidablePred Removes
  | .create .. => .isFalse id
  | .mkdir .. => .isFalse id
  | .unlink _ => .isTrue trivial
  | .rmdir _ => .isTrue trivial
  | .getattr _ => .isFalse id
  | .readdir _ => .isFalse id

variable [FsPath] [PathHash] [ConsistentHashMap]

/-- The status that the operation of a client returns. -/
def program : VSFSRpcClient × FileOperation → ClientM Status
  | (c, .create path mode uid gid) => do return (← c.create path mode uid gid).1
  | (c, .mkdir path mode uid gid) => c.mkdir path mode uid gid
  | (c, .unlink path) => do return (← c.unlink path).1
  | (c, .rmdir path) => c.rmdir path
  | (c, .getattr path) => do return (← c.getattr path).1
  | (c, .readdir path) => do return (← c.readdir path).1

end FileOperation

/-! ## Runs -/

/-- The primary, the clients that were initialised and their operations on the servers. -/
structure Site (K : Type) [LinearOrder K] where
  primary : Primary
  clients : List VSFSRpcClient := []
  pool : Pool Rpc RpcError Exit Status (VSFSRpcClient × FileOperation) (Servers K)

inductive SiteEvent where
  | join (answers : ServerMap.RingAnswers) (node : NodeInfo)
  | init
  | start (client : Nat) (op : FileOperation)
  | advance (task : Nat) (now : Double)

namespace Site

variable {K : Type} [LinearOrder K] [KeyTypes K] [FsPath] [PathHash] [ConsistentHashMap]
  [ThriftSerialize FileMetadata] [ThriftSerialize IndexNamespaceNode]

def step (site : Site K) : SiteEvent → Except Crash (Site K)
  | .join answers node =>
    .ok { site with primary := (site.primary.joinMasterServer answers node).2 }
  | .init => .ok { site with clients := site.clients ++ [VSFSRpcClient.init {} site.primary] }
  | .start i op =>
    match site.clients[i]? with
    | none => .ok site
    | some c => (site.pool.step FileOperation.program reliable (.start (c, op))).map
        fun pool => { site with pool }
  | .advance i now => (site.pool.step FileOperation.program reliable (.advance i now)).map
      fun pool => { site with pool }

/-- Everything a step can be. -/
inductive Stepped (site : Site K) : SiteEvent → Site K → Prop where
  | primary {event : SiteEvent} (primary : Primary) : Stepped site event { site with primary }
  | init : Stepped site .init
      { site with clients := site.clients ++ [VSFSRpcClient.init {} site.primary] }
  | start {i : Nat} {c : VSFSRpcClient} {op : FileOperation} (known : c ∈ site.clients) :
      Stepped site (.start i op) { site with pool := { site.pool with
        tasks := site.pool.tasks ++
          [{ label := (c, op), prog := FileOperation.program (c, op) }] } }
  | idle {event : SiteEvent} : Stepped site event site
  | turn {i : Nat} {now : Double} {label : VSFSRpcClient × FileOperation} {calls : Nat}
      {σ β : Type} {body : σ → ClientM (σ ⊕ β)} {x : σ} {k : β → ClientM Status}
      (found : site.pool.tasks[i]? = some ⟨label, calls, .iter body x k⟩) :
      Stepped site (.advance i now) { site with pool := { site.pool with
        tasks := site.pool.tasks.set i ⟨label, calls, (body x).bind (again body k)⟩ } }
  | call {i : Nat} {now : Double} {label : VSFSRpcClient × FileOperation} {calls : Nat} {β : Type}
      {rpc : Rpc β} {k : Except RpcError β → ClientM Status} {a : Except RpcInvalidOp β}
      {servers : Servers K}
      (found : site.pool.tasks[i]? = some ⟨label, calls, .call rpc k⟩)
      (answered : site.pool.state.Answers rpc a servers) :
      Stepped site (.advance i now) { site with pool :=
        ⟨servers, site.pool.tasks.set i ⟨label, calls + 1, k (a.mapError .invalidOp)⟩⟩ }

theorem stepped_of_step {site site' : Site K} {event : SiteEvent}
    (h : site.step event = .ok site') : Stepped site event site' := by
  have inside {e : Event (VSFSRpcClient × FileOperation) Double}
      (h : (site.pool.step FileOperation.program reliable e).map
        (fun pool => { site with pool }) = .ok site') :
      ∃ pool, Pool.Stepped FileOperation.program reliable site.pool e pool ∧
        site' = { site with pool } := by
    cases out : site.pool.step FileOperation.program reliable e with
    | error crash => simp [out, Except.map] at h
    | ok pool =>
      simp only [out, Except.map] at h
      cases h
      exact ⟨pool, Pool.stepped_of_step out, rfl⟩
  cases event with
  | join answers node =>
    cases h
    exact .primary _
  | init =>
    cases h
    exact .init
  | start i op =>
    simp only [step] at h
    split at h
    · cases h
      exact .idle
    · rename_i c here
      obtain ⟨pool, stepped, rfl⟩ := inside h
      cases stepped
      exact .start (List.mem_of_getElem? here)
  | advance i now =>
    obtain ⟨pool, stepped, rfl⟩ := inside h
    cases stepped with
    | idle => exact .idle
    | turn found => exact .turn found
    | call found served =>
      obtain ⟨a, rfl, answered⟩ := answers_of_reliable served
      exact .call found answered

end Site

/-! ## Requests about a path -/

section Requests

variable {K : Type} [LinearOrder K]

/-- The requests that an operation makes do not remove another path. -/
def Concerns (op : FileOperation) : (β : Type) → Rpc β → Prop
  | _, .master _ (.remove q) => q = op.path ∧ (op.Makes ∨ op.Removes)
  | _, .master _ (.rmdir q) => q = op.path ∧ op.Removes
  | _, _ => True

/-- The request does not remove the path. -/
def Spares (path : Str) (s : Servers K) : (β : Type) → Rpc β → Prop
  | _, .master a (.remove q) => q = path → ¬ HasFile s a path
  | _, .master _ (.rmdir q) => q ≠ path
  | _, _ => True

variable [FsPath] [PathHash] [ConsistentHashMap]

/-- An operation removes no path but its own. -/
theorem program_calls (c : VSFSRpcClient) (op : FileOperation) :
    (FileOperation.program (c, op)).Calls (Concerns op) := by
  cases op with
  | create path mode uid gid =>
    exact (create_calls (fun _ _ _ => trivial) (fun _ _ _ => trivial)
      fun _ => ⟨rfl, .inl trivial⟩).bind fun _ => trivial
  | mkdir path mode uid gid =>
    exact mkdir_calls (fun _ _ => trivial) (fun _ _ _ => trivial) fun _ => ⟨rfl, .inl trivial⟩
  | unlink path =>
    exact (unlink_calls (fun _ _ _ => trivial) fun _ => ⟨rfl, .inr trivial⟩).bind fun _ => trivial
  | rmdir path => exact rmdir_calls (fun _ => ⟨rfl, trivial⟩) fun _ _ _ => trivial
  | getattr path => exact (getattr_calls fun _ => trivial).bind fun _ => trivial
  | readdir path => exact (readdir_calls fun _ => trivial).bind fun _ => trivial

variable [KeyTypes K] [ThriftSerialize FileMetadata] [ThriftSerialize IndexNamespaceNode]

omit [ConsistentHashMap] in
/-- A request that spares a path leaves its record. -/
theorem record_stays {path : Str} {s s' : Servers K} {β : Type} {rpc : Rpc β}
    {a : Except RpcInvalidOp β} (answered : s.Answers rpc a s') (spares : Spares path s β rpc)
    {address : NodeAddress} (here : path ∈ (s.masters address).namespace.metadataMap) :
    path ∈ (s'.masters address).namespace.metadataMap := by
  cases rpc with
  | index b request =>
    obtain ⟨id, im, -, rfl⟩ := Servers.answers_index answered
    exact here
  | master b request =>
    obtain ⟨now, mc, handled, rfl⟩ := Servers.answers_master answered
    by_cases same : address = b
    · subst same
      rw [Servers.setMaster_masters, Function.update_self]
      rcases MasterServer.namespace_of_handle handled with same | ⟨r, issues, effect⟩
      · rwa [same]
      · generalize mc.namespace = ns at effect ⊢
        cases effect with
        | refused => exact here
        | create absent => exact ExtTreeMap.mem_insert.mpr (.inr here)
        | @remove q m found file mapped =>
          cases issues
          refine ExtTreeMap.mem_erase.mpr ⟨fun eq => ?_, here⟩
          cases Std.compare_eq_iff_eq.mp eq
          exact spares rfl ⟨m, found, file⟩
        | mkdir absent => exact ExtTreeMap.mem_insert.mpr (.inr here)
        | @rmdir q dir found empty =>
          cases issues
          refine ExtTreeMap.mem_erase.mpr ⟨fun eq => ?_, here⟩
          exact spares (Std.compare_eq_iff_eq.mp eq)
        | addSubfile found => exact here
        | removeSubfile found => exact here
        | setattr found => exact ExtTreeMap.mem_insert.mpr (.inr here)
    · simpa [same] using here

end Requests

/-! ## Where an operation stands -/

section Points

variable [PathHash] [ConsistentHashMap]

/-- `Maker c path made p`: `p` is what is left of an operation of `c` that makes the path,
and when `made`, the record is there. -/
inductive Maker (c : VSFSRpcClient) (path : Str) : Bool → ClientM Status → Prop where
  | ended {made : Bool} {status : Status} (truthful : status.ok = true → made = true) :
      Maker c path made (.ret status)
  | thrown {made : Bool} {exit : Exit} : Maker c path made (.throw exit)
  | create {mode uid gid : BitVec 64} {b : Nat} {node : NodeInfo} {st : Status}
      {k : Status × Option ObjectId → ClientM Status}
      (home : c.masterMap.getByPath path = (.OK, some node)) (left : st.ok = true → b ≠ 0)
      (fails : ∀ made st oid, st.ok = false → Maker c path made (k (st, oid)))
      (goes : ∀ st oid, st.ok = true → Maker c path true (k (st, oid))) :
      Maker c path false (.iter (createTurn node.address path mode uid gid) (b, st) k)
  | createCall {mode uid gid : BitVec 64} {node : NodeInfo}
      {k : Except RpcError ObjectId → ClientM Status}
      (home : c.masterMap.getByPath path = (.OK, some node))
      (made : ∀ oid, Maker c path true (k (.ok oid)))
      (refused : ∀ ouch : RpcInvalidOp, ouch.what ≠ 0 →
        Maker c path false (k (.error (.invalidOp ouch)))) :
      Maker c path false (.call (.master node.address (.create path mode uid gid)) k)
  | mkdirCall {info : RpcFileInfo} {node : NodeInfo} {k : Except RpcError Unit → ClientM Status}
      (home : c.masterMap.getByPath path = (.OK, some node))
      (made : Maker c path true (k (.ok ())))
      (refused : ∀ ouch : RpcInvalidOp, ouch.what ≠ 0 →
        Maker c path false (k (.error (.invalidOp ouch)))) :
      Maker c path false (.call (.master node.address (.mkdir path info)) k)
  | list {address : NodeAddress} {parent name : Str} {st : Status} {k : Status → ClientM Status}
      (next : ∀ st, Maker c path true (k st)) :
      Maker c path true
        (.iter (subfileTurn address (.addSubfile parent name)) (kNumBackOffs, st) k)
  | listCall {address : NodeAddress} {parent name : Str} {k : Except RpcError Unit → ClientM Status}
      (listed : Maker c path true (k (.ok ())))
      (refused : ∀ ouch : RpcInvalidOp, Maker c path true (k (.error (.invalidOp ouch)))) :
      Maker c path true (.call (.master address (.addSubfile parent name)) k)
  | undo {node : NodeInfo} {k : Except RpcError ObjectId → ClientM Status}
      (home : c.masterMap.getByPath path = (.OK, some node))
      (refused : ∀ ouch : RpcInvalidOp, ouch.what ≠ 0 →
        Maker c path true (k (.error (.invalidOp ouch)))) :
      Maker c path true (.call (.master node.address (.remove path)) k)

/-- `Late c path p`: `p` is what is left of a `create` that finds the path made. -/
inductive Late (c : VSFSRpcClient) (path : Str) : ClientM Status → Prop where
  | ended {status : Status} (bad : status.ok = false) : Late c path (.ret status)
  | create {mode uid gid : BitVec 64} {b : Nat} {node : NodeInfo} {st : Status}
      {k : Status × Option ObjectId → ClientM Status}
      (home : c.masterMap.getByPath path = (.OK, some node)) (left : st.ok = true → b ≠ 0)
      (fails : ∀ st oid, st.ok = false → Late c path (k (st, oid))) :
      Late c path (.iter (createTurn node.address path mode uid gid) (b, st) k)
  | createCall {mode uid gid : BitVec 64} {node : NodeInfo}
      {k : Except RpcError ObjectId → ClientM Status}
      (home : c.masterMap.getByPath path = (.OK, some node))
      (refused : ∀ ouch : RpcInvalidOp, ouch.what ≠ 0 →
        Late c path (k (.error (.invalidOp ouch)))) :
      Late c path (.call (.master node.address (.create path mode uid gid)) k)

variable {c : VSFSRpcClient} {path : Str}

theorem Maker.turn {made : Bool} {σ β : Type} {x : σ} {body : σ → ClientM (σ ⊕ β)}
    {k : β → ClientM Status} (h : Maker c path made (.iter body x k)) :
    Maker c path made ((body x).bind (again body k)) := by
  cases h with
  | @create mode uid gid b node st k home left fails goes =>
    cases b with
    | zero =>
      cases ok : st.ok with
      | true => exact (left ok rfl).elim
      | false => exact fails false st none ok
    | succ b =>
      refine .createCall home (fun oid => ?_) fun ouch bad => ?_
      · cases ok : st.ok with
        | true => exact goes st (some oid) ok
        | false => exact fails true st (some oid) ok
      · refine .create home (fun ok => ?_) fails goes
        simp [invalidOp_not_ok bad] at ok
  | @list address parent name st k next =>
    obtain ⟨k', turn, done, refused⟩ := subfileTurn_again address _ st k
    rw [turn]
    refine .listCall (done ▸ next st) fun ouch => ?_
    rw [refused]
    exact .list next

theorem Late.turn {σ β : Type} {x : σ} {body : σ → ClientM (σ ⊕ β)} {k : β → ClientM Status}
    (h : Late c path (.iter body x k)) : Late c path ((body x).bind (again body k)) := by
  cases h with
  | @create mode uid gid b node st k home left fails =>
    cases b with
    | zero =>
      cases ok : st.ok with
      | true => exact (left ok rfl).elim
      | false => exact fails st none ok
    | succ b =>
      refine .createCall home fun ouch bad => ?_
      refine .create home (fun ok => ?_) fails
      simp [invalidOp_not_ok bad] at ok

/-! ### The start -/

theorem getByPath_cases (c : VSFSRpcClient) (path : Str) :
    (∃ node, c.masterMap.getByPath path = (.OK, some node)) ∨
      ∃ status, status.ok = false ∧ c.masterMap.getByPath path = (status, none) := by
  unfold ServerMap.getByPath ServerMap.get
  split
  · exact .inr ⟨_, by decide, rfl⟩
  · exact .inl ⟨_, rfl⟩

variable [FsPath]

theorem maker_addSubfile {k : Status → ClientM Status} (next : ∀ st, Maker c path true (k st)) :
    Maker c path true ((c.addSubfile path).bind k) := by
  unfold VSFSRpcClient.addSubfile
  by_cases root : path = ['/']
  · rw [if_pos root]
    exact next .OK
  · rw [if_neg root]
    rcases getByPath_cases c (FsPath.parentPath path) with ⟨node, home⟩ | ⟨status, -, home⟩
    · have found : c.masterMap.get (PathHash.pathToHash (FsPath.parentPath path)) =
          (.OK, some node) := home
      simp only [found, checkGet, subfileLoop, bind_eq, ret_bind, loop_bind]
      exact .list next
    · have found : c.masterMap.get (PathHash.pathToHash (FsPath.parentPath path)) =
          (status, none) := home
      simp only [found, checkGet, bind_eq, throw_bind]
      exact .thrown

theorem maker_create (c : VSFSRpcClient) (path : Str) (mode uid gid : BitVec 64) :
    Maker c path false (FileOperation.program (c, .create path mode uid gid)) := by
  cases initialized : c.isInitialized with
  | false =>
    simp only [FileOperation.program, VSFSRpcClient.create, initialized, Bool.not_false, if_true]
    exact .ended (by decide)
  | true =>
    rcases getByPath_cases c path with ⟨node, home⟩ | ⟨status, bad, home⟩
    · have found : c.masterMap.get (PathHash.pathToHash path) = (.OK, some node) := home
      simp only [FileOperation.program, VSFSRpcClient.create, initialized, found, createLoop,
        bind_eq, loop_bind, pure_eq, Bool.not_true, Bool.false_eq_true, if_false, iter_bind]
      refine .create home (by simp [kNumBackOffs]) (fun made st oid bad => ?_) fun st oid good => ?_
      · simp only [bad, Bool.not_false, if_true]
        exact .ended (by simp [bad])
      · simp only [good, Bool.not_true, Bool.false_eq_true, if_false, Prog.bind_assoc]
        refine maker_addSubfile fun st => ?_
        cases ok : st.ok with
        | true => exact .ended fun _ => rfl
        | false =>
          refine .undo home fun ouch bad => ?_
          exact .ended (by simp [invalidOp_not_ok bad])
    · have found : c.masterMap.get (PathHash.pathToHash path) = (status, none) := home
      simp only [FileOperation.program, VSFSRpcClient.create, initialized, found, Bool.not_true,
        Bool.false_eq_true, if_false]
      exact .ended (by simp [bad])

theorem maker_mkdir (c : VSFSRpcClient) (path : Str) (mode uid gid : BitVec 64) :
    Maker c path false (FileOperation.program (c, .mkdir path mode uid gid)) := by
  cases initialized : c.isInitialized with
  | false =>
    simp only [FileOperation.program, VSFSRpcClient.mkdir, initialized, Bool.not_false, if_true]
    exact .ended (by decide)
  | true =>
    rcases getByPath_cases c path with ⟨node, home⟩ | ⟨status, bad, home⟩
    · have found : c.masterMap.get (PathHash.pathToHash path) = (.OK, some node) := home
      simp only [FileOperation.program, VSFSRpcClient.mkdir, initialized, found, bind_eq, pure_eq,
        Bool.not_true, Bool.false_eq_true, if_false, perform_bind]
      refine .mkdirCall home ?_ fun ouch bad => .ended (by simp [invalidOp_not_ok bad])
      refine maker_addSubfile fun st => ?_
      cases ok : st.ok with
      | true => exact .ended fun _ => rfl
      | false => exact .undo home fun ouch bad => .thrown
    · have found : c.masterMap.get (PathHash.pathToHash path) = (status, none) := home
      simp only [FileOperation.program, VSFSRpcClient.mkdir, initialized, found, Bool.not_true,
        Bool.false_eq_true, if_false]
      exact .ended (by simp [bad])

theorem maker_start (c : VSFSRpcClient) {op : FileOperation} (makes : op.Makes) :
    Maker c op.path false (FileOperation.program (c, op)) := by
  cases op with
  | create path mode uid gid => exact maker_create c path mode uid gid
  | mkdir path mode uid gid => exact maker_mkdir c path mode uid gid
  | unlink path => exact makes.elim
  | rmdir path => exact makes.elim
  | getattr path => exact makes.elim
  | readdir path => exact makes.elim

theorem late_start (c : VSFSRpcClient) (path : Str) (mode uid gid : BitVec 64) :
    Late c path (FileOperation.program (c, .create path mode uid gid)) := by
  cases initialized : c.isInitialized with
  | false =>
    simp only [FileOperation.program, VSFSRpcClient.create, initialized, Bool.not_false, if_true]
    exact .ended (by decide)
  | true =>
    rcases getByPath_cases c path with ⟨node, home⟩ | ⟨status, bad, home⟩
    · have found : c.masterMap.get (PathHash.pathToHash path) = (.OK, some node) := home
      simp only [FileOperation.program, VSFSRpcClient.create, initialized, found, createLoop,
        bind_eq, loop_bind, pure_eq, Bool.not_true, Bool.false_eq_true, if_false, iter_bind]
      refine .create home (by simp [kNumBackOffs]) fun st oid bad => ?_
      simp only [bad, Bool.not_false, if_true]
      exact .ended bad
    · have found : c.masterMap.get (PathHash.pathToHash path) = (status, none) := home
      simp only [FileOperation.program, VSFSRpcClient.create, initialized, found, Bool.not_true,
        Bool.false_eq_true, if_false]
      exact .ended bad

/-! ### A call -/

variable {K : Type} [LinearOrder K] [KeyTypes K] [ThriftSerialize FileMetadata]
  [ThriftSerialize IndexNamespaceNode] {s s' : Servers K}

theorem Maker.call {made : Bool} {β : Type} {rpc : Rpc β} {k : Except RpcError β → ClientM Status}
    {a : Except RpcInvalidOp β} (h : Maker c path made (.call rpc k))
    (recorded : made = true → s.Recorded c path) (spares : Spares path s β rpc)
    (answered : s.Answers rpc a s') :
    ∃ made', Maker c path made' (k (a.mapError .invalidOp)) ∧
      (made' = true → s'.Recorded c path) := by
  have stays : s.Recorded c path → s'.Recorded c path := fun ⟨node, home, here⟩ =>
    ⟨node, home, record_stays answered spares here⟩
  cases h with
  | createCall home made refused =>
    obtain ⟨now, mc, handled, rfl⟩ := Servers.answers_master answered
    rcases MasterServer.answer_create handled with ⟨⟨ouch, rfl, bad⟩, -⟩ | ⟨-, ⟨oid, rfl⟩, rfl⟩
    · exact ⟨false, refused ouch bad, by simp⟩
    · refine ⟨true, made oid, fun _ => (Servers.recorded_iff home).mpr ?_⟩
      simp
  | mkdirCall home made refused =>
    obtain ⟨now, mc, handled, rfl⟩ := Servers.answers_master answered
    rcases MasterServer.answer_mkdir handled with ⟨⟨ouch, rfl, bad⟩, -⟩ | ⟨-, rfl, rfl⟩
    · exact ⟨false, refused ouch bad, by simp⟩
    · refine ⟨true, made, fun _ => (Servers.recorded_iff home).mpr ?_⟩
      simp
  | listCall listed refused =>
    refine ⟨true, ?_, fun _ => stays (recorded rfl)⟩
    cases a with
    | ok _ => exact listed
    | error ouch => exact refused ouch
  | undo home refused =>
    refine ⟨true, ?_, fun _ => stays (recorded rfl)⟩
    obtain ⟨now, mc, handled, rfl⟩ := Servers.answers_master answered
    rcases MasterServer.answer_remove handled with ⟨⟨⟨ouch, rfl, bad⟩, -⟩, -⟩ | ⟨m, found, file, -⟩
    · exact refused ouch bad
    · exact (spares rfl ⟨m, found, file⟩).elim

theorem Late.call {β : Type} {rpc : Rpc β} {k : Except RpcError β → ClientM Status}
    {a : Except RpcInvalidOp β} (h : Late c path (.call rpc k)) (recorded : s.Recorded c path)
    (answered : s.Answers rpc a s') : Late c path (k (a.mapError .invalidOp)) := by
  cases h with
  | createCall home refused =>
    have here := (Servers.recorded_iff home).mp recorded
    obtain ⟨now, mc, handled, rfl⟩ := Servers.answers_master answered
    rcases MasterServer.answer_create handled with ⟨⟨ouch, rfl, bad⟩, -⟩ | ⟨absent, -, -⟩
    · exact refused ouch bad
    · exact ((not_mem_iff _ _).mpr absent here).elim

end Points

/-! ## A path that was made -/

namespace Site

section Watch

variable {K : Type} [LinearOrder K] [PathHash] [ConsistentHashMap]

/-- The master that the ring of a client leads to. -/
def home (c : VSFSRpcClient) (path : Str) : Option NodeAddress :=
  (c.masterMap.getByPath path).2.map (·.address)

/-- The rings of all clients lead to the same master. -/
def Routed (path : Str) (site : Site K) : Prop :=
  ∀ c ∈ site.clients, ∀ c' ∈ site.clients, home c path = home c' path

/-- No operation that removes the path is running. -/
def Unthreatened (path : Str) (site : Site K) : Prop :=
  ∀ t ∈ site.pool.tasks, t.label.2.Removes → t.label.2.path = path → t.Done

/-- The address at which the next request of a program removes the path. -/
def removing (path : Str) : ClientM Status → Option NodeAddress
  | .call (.master a (.remove q)) _ => if q = path then some a else none
  | _ => none

/-- A client that starts gets a ring that leads to the same master as those before it, no
operation that removes the path is started, and a rollback of an operation that makes the
path finds no file. -/
def Sparing (path : Str) (site : Site K) : SiteEvent → Prop
  | .join _ _ => True
  | .init => ∀ c ∈ site.clients, home c path = home (VSFSRpcClient.init {} site.primary) path
  | .start _ op => op.Removes → op.path ≠ path
  | .advance i _ => ∀ t, site.pool.tasks[i]? = some t → t.label.2.Makes →
      ∀ a, removing path t.prog = some a → ¬ HasFile site.pool.state a path

theorem recorded_iff_home {s : Servers K} {c : VSFSRpcClient} {path : Str} :
    s.Recorded c path ↔ ∃ a, home c path = some a ∧ path ∈ (s.masters a).namespace.metadataMap := by
  rcases getByPath_cases c path with ⟨node, here⟩ | ⟨status, -, here⟩
  · simp [Servers.recorded_iff here, home, here]
  · simp [Servers.Recorded, home, here]

/-- What every step of a watched run keeps. -/
structure Watched (path : Str) (site : Site K) : Prop where
  calls : ∀ t ∈ site.pool.tasks, t.prog.Calls (Concerns t.label.2)
  routed : Routed path site
  unthreatened : Unthreatened path site

variable [KeyTypes K] [FsPath] [ThriftSerialize FileMetadata] [ThriftSerialize IndexNamespaceNode]
  {path : Str} {site site' : Site K} {event : SiteEvent}

theorem calls_step (calls : ∀ t ∈ site.pool.tasks, t.prog.Calls (Concerns t.label.2))
    (stepped : Stepped site event site') :
    ∀ t ∈ site'.pool.tasks, t.prog.Calls (Concerns t.label.2) := by
  cases stepped with
  | primary => exact calls
  | init => exact calls
  | @start i c op known =>
    intro t ht
    rcases List.mem_append.mp ht with old | new
    · exact calls t old
    · cases List.mem_singleton.mp new
      exact program_calls c op
  | idle => exact calls
  | turn found =>
    intro t ht
    rcases List.mem_or_eq_of_mem_set ht with old | rfl
    · exact calls t old
    · exact (calls _ (List.mem_of_getElem? found)).turn
  | call found answered =>
    intro t ht
    rcases List.mem_or_eq_of_mem_set ht with old | rfl
    · exact calls t old
    · exact (calls _ (List.mem_of_getElem? found)).2 _

theorem Watched.step (h : Watched path site) (stepped : Stepped site event site')
    (sparing : Sparing path site event) : Watched path site' := by
  have calls := calls_step h.calls stepped
  cases stepped with
  | primary => exact ⟨calls, h.routed, h.unthreatened⟩
  | init =>
    refine ⟨calls, fun c hc c' hc' => ?_, h.unthreatened⟩
    have all (c : VSFSRpcClient) (hc : c ∈ site.clients ++ [VSFSRpcClient.init {} site.primary]) :
        home c path = home (VSFSRpcClient.init {} site.primary) path := by
      rcases List.mem_append.mp hc with old | new
      · exact sparing c old
      · rw [List.mem_singleton.mp new]
    rw [all c hc, all c' hc']
  | start known =>
    refine ⟨calls, h.routed, fun t ht removes same => ?_⟩
    rcases List.mem_append.mp ht with old | new
    · exact h.unthreatened t old removes same
    · cases List.mem_singleton.mp new
      exact (sparing removes same).elim
  | idle => exact h
  | turn found =>
    refine ⟨calls, h.routed, fun t ht removes same => ?_⟩
    rcases List.mem_or_eq_of_mem_set ht with old | rfl
    · exact h.unthreatened t old removes same
    · exact (h.unthreatened _ (List.mem_of_getElem? found) removes same).elim
  | call found answered =>
    refine ⟨calls, h.routed, fun t ht removes same => ?_⟩
    rcases List.mem_or_eq_of_mem_set ht with old | rfl
    · exact h.unthreatened t old removes same
    · exact (h.unthreatened _ (List.mem_of_getElem? found) removes same).elim

omit [FsPath] [KeyTypes K] [ThriftSerialize FileMetadata] [ThriftSerialize IndexNamespaceNode] in
/-- No request of a watched run removes the path. -/
theorem Watched.spares (h : Watched path site) {i : Nat} {now : Double}
    {label : VSFSRpcClient × FileOperation} {calls : Nat} {β : Type} {rpc : Rpc β}
    {k : Except RpcError β → ClientM Status}
    (found : site.pool.tasks[i]? = some ⟨label, calls, .call rpc k⟩)
    (sparing : Sparing path site (.advance i now)) : Spares path site.pool.state β rpc := by
  have concerns := (h.calls _ (List.mem_of_getElem? found)).1
  have active (removes : label.2.Removes) : label.2.path ≠ path := fun same =>
    h.unthreatened _ (List.mem_of_getElem? found) removes same
  cases rpc with
  | index a request => trivial
  | master a request =>
    cases request with
    | remove q =>
      obtain ⟨own, makes | removes⟩ := concerns
      · intro same
        exact sparing _ found makes a (by simp [removing, same])
      · exact fun same => (active removes (own ▸ same)).elim
    | rmdir q =>
      obtain ⟨own, removes⟩ := concerns
      exact fun same => active removes (own ▸ same)
    | _ => trivial

/-- Once the record is there, it stays. -/
theorem Watched.recorded_step (h : Watched path site) (stepped : Stepped site event site')
    (sparing : Sparing path site event) {c : VSFSRpcClient}
    (recorded : site.pool.state.Recorded c path) : site'.pool.state.Recorded c path := by
  cases stepped with
  | call found answered =>
    obtain ⟨node, here, there⟩ := recorded
    exact ⟨node, here, record_stays answered (h.spares found sparing) there⟩
  | _ => exact recorded

/-- The `n`-th task is an operation of `c` that makes the path. -/
structure Making (c : VSFSRpcClient) (path : Str) (n : Nat) (site : Site K) : Prop where
  watched : Watched path site
  member : c ∈ site.clients
  maker : ∃ t made, site.pool.tasks[n]? = some t ∧ Maker c path made t.prog ∧
    (made = true → site.pool.state.Recorded c path)

theorem Making.step {c : VSFSRpcClient} {n : Nat} (h : Making c path n site)
    (stepped : Stepped site event site') (sparing : Sparing path site event) :
    Making c path n site' := by
  obtain ⟨t, made, here, maker, recorded⟩ := h.maker
  have inside : n < site.pool.tasks.length := (List.getElem?_eq_some_iff.mp here).1
  have stays := fun known => h.watched.recorded_step stepped sparing (recorded known)
  refine ⟨h.watched.step stepped sparing, ?_, ?_⟩
  · cases stepped with
    | init => exact List.mem_append.mpr (.inl h.member)
    | _ => exact h.member
  · cases stepped with
    | primary => exact ⟨t, made, here, maker, recorded⟩
    | init => exact ⟨t, made, here, maker, recorded⟩
    | start known =>
      exact ⟨t, made, by rw [List.getElem?_append_left inside, here], maker, recorded⟩
    | idle => exact ⟨t, made, here, maker, recorded⟩
    | @turn i now label calls σ β body x k found =>
      by_cases same : i = n
      · subst same
        cases found.symm.trans here
        exact ⟨_, made, List.getElem?_set_self inside, maker.turn, recorded⟩
      · exact ⟨t, made, by rw [List.getElem?_set_ne same, here], maker, recorded⟩
    | @call i now label calls β rpc k a servers found answered =>
      by_cases same : i = n
      · subst same
        cases found.symm.trans here
        obtain ⟨made', maker', recorded'⟩ :=
          maker.call recorded (h.watched.spares found sparing) answered
        exact ⟨_, made', List.getElem?_set_self inside, maker', recorded'⟩
      · exact ⟨t, made, by rw [List.getElem?_set_ne same, here], maker, stays⟩

/-- The path was made, by `c`, and no `create` of it among the tasks from the `m`-th on
succeeds. -/
structure Settled (c : VSFSRpcClient) (path : Str) (m : Nat) (site : Site K) : Prop where
  watched : Watched path site
  member : c ∈ site.clients
  recorded : site.pool.state.Recorded c path
  late : ∀ i t, m ≤ i → site.pool.tasks[i]? = some t → t.label.1 ∈ site.clients ∧
    ∀ mode uid gid, t.label.2 = .create path mode uid gid → Late t.label.1 path t.prog

omit [KeyTypes K] [FsPath] [ThriftSerialize FileMetadata] [ThriftSerialize IndexNamespaceNode] in
theorem Settled.recorded_of_mem {c : VSFSRpcClient} {m : Nat} (h : Settled c path m site)
    {c' : VSFSRpcClient} (member : c' ∈ site.clients) : site.pool.state.Recorded c' path := by
  obtain ⟨a, here, there⟩ := recorded_iff_home.mp h.recorded
  exact recorded_iff_home.mpr ⟨a, (h.watched.routed c' member c h.member).trans here, there⟩

theorem Settled.step {c : VSFSRpcClient} {m : Nat} (h : Settled c path m site)
    (stepped : Stepped site event site') (sparing : Sparing path site event) :
    Settled c path m site' := by
  have grows : ∀ c' ∈ site.clients, c' ∈ site'.clients := by
    cases stepped with
    | init => exact fun c' hc' => List.mem_append.mpr (.inl hc')
    | _ => exact fun c' hc' => hc'
  refine ⟨h.watched.step stepped sparing, grows c h.member,
    h.watched.recorded_step stepped sparing h.recorded, fun i t above here => ?_⟩
  have old (known : site.pool.tasks[i]? = some t) : t.label.1 ∈ site'.clients ∧
      ∀ mode uid gid, t.label.2 = .create path mode uid gid → Late t.label.1 path t.prog :=
    (h.late i t above known).imp_left (grows _)
  cases stepped with
  | primary => exact old here
  | init => exact old here
  | @start j c' op known =>
    by_cases inside : i < site.pool.tasks.length
    · exact old (by rwa [List.getElem?_append_left inside] at here)
    · rw [List.getElem?_append_right (Nat.le_of_not_lt inside), List.getElem?_singleton] at here
      split at here
      · cases here
        refine ⟨known, fun mode uid gid same => ?_⟩
        cases same
        exact late_start c' path mode uid gid
      · cases here
  | idle => exact old here
  | @turn j now label calls σ β body x k found =>
    by_cases same : j = i
    · subst same
      obtain ⟨member, late⟩ := h.late j _ above found
      rw [List.getElem?_set_self (List.getElem?_eq_some_iff.mp found).1] at here
      cases here
      exact ⟨member, fun mode uid gid create => (late mode uid gid create).turn⟩
    · exact old (by rwa [List.getElem?_set_ne same] at here)
  | @call j now label calls β rpc k a servers found answered =>
    by_cases same : j = i
    · subst same
      obtain ⟨member, late⟩ := h.late j _ above found
      rw [List.getElem?_set_self (List.getElem?_eq_some_iff.mp found).1] at here
      cases here
      exact ⟨member, fun mode uid gid create =>
        (late mode uid gid create).call (h.recorded_of_mem member) answered⟩
    · exact old (by rwa [List.getElem?_set_ne same] at here)

/-! ### Runs -/

/-- The path is found where the ring leads. -/
theorem getattr_ends {s : Servers K} {c : VSFSRpcClient} (recorded : s.Recorded c path) :
    Ends Delivered (fun r _ => ∃ info, r = .ok (.OK, info)) (c.getattr path) s := by
  obtain ⟨node, here, there⟩ := recorded
  unfold VSFSRpcClient.getattr
  simp only [here, checkGet, bind_eq, ret_bind, perform_bind]
  refine .call ?_
  rintro b s' ⟨answer, answered, rfl⟩
  obtain ⟨now, mc, handled, rfl⟩ := Servers.answers_master answered
  obtain ⟨m, found⟩ := (mem_iff_exists _ _).mp there
  simp only [MasterServer.handle, Namespace.getattr, found, checkStatus, Status.ok_OK, if_true,
    Except.ok.injEq, Prod.mk.injEq] at handled
  obtain ⟨rfl, -⟩ := handled
  exact .ret ⟨_, rfl⟩

/-- Masters join, clients start and their operations run in any order. From a point on at
which the rings of all clients lead to the same master for a path and no operation that
removes it is running, an operation makes the path and returns a success. Then, as long as
the steps spare the path, `getattr` of every client succeeds and a `create` of the path that
is started and returns, fails. -/
theorem files_stay_reachable (primary : Primary) (s : Servers K) (path : Str)
    (events₀ : List SiteEvent) (site₀ : Site K)
    (run₀ : Transition.run step ⟨primary, [], ⟨s, []⟩⟩ events₀ = .ok site₀)
    (routed : Routed path site₀) (unthreatened : Unthreatened path site₀)
    (client : Nat) (c : VSFSRpcClient) (known : site₀.clients[client]? = some c)
    (op : FileOperation) (makes : op.Makes) (own : op.path = path)
    (events₁ : List SiteEvent) (site₁ : Site K)
    (sparing₁ : Transition.Meets step (Sparing path) site₀ (.start client op :: events₁))
    (run₁ : Transition.run step site₀ (.start client op :: events₁) = .ok site₁)
    (t : Task Rpc RpcError Exit Status (VSFSRpcClient × FileOperation)) (status : Status)
    (task : site₁.pool.tasks[site₀.pool.tasks.length]? = some t) (returned : t.prog = .ret status)
    (ok : status.ok = true) (events₂ : List SiteEvent) (site₂ : Site K)
    (sparing₂ : Transition.Meets step (Sparing path) site₁ events₂)
    (run₂ : Transition.run step site₁ events₂ = .ok site₂) :
    (∀ c' ∈ site₂.clients, Ends Delivered (fun r _ => ∃ info, r = .ok (.OK, info))
      (c'.getattr path) site₂.pool.state) ∧
    ∀ i t' mode uid gid status', site₁.pool.tasks.length ≤ i → site₂.pool.tasks[i]? = some t' →
      t'.label.2 = .create path mode uid gid → t'.prog = .ret status' → status'.ok = false := by
  subst own
  have calls : ∀ t ∈ site₀.pool.tasks, t.prog.Calls (Concerns t.label.2) :=
    Transition.run_preserves (fun _ _ _ calls hs _ => calls_step calls (stepped_of_step hs))
      (by simp) (Transition.meets_true _ _ _) run₀
  obtain ⟨siteₛ, started⟩ : ∃ siteₛ, site₀.step (.start client op) = .ok siteₛ := by
    simp [step, known, Pool.step, Except.map]
  have making : Making c op.path site₀.pool.tasks.length siteₛ := by
    have stepped : Stepped site₀ (.start client op) siteₛ := stepped_of_step started
    have watched := (Watched.mk calls routed unthreatened).step stepped sparing₁.1
    have member := List.mem_of_getElem? known
    simp only [step, known, Pool.step, Except.map, Except.ok.injEq] at started
    subst started
    exact ⟨watched, member, _, false, List.getElem?_concat_length, maker_start c makes, by simp⟩
  rw [Transition.run_cons_ok started] at run₁
  have made : Making c op.path site₀.pool.tasks.length site₁ :=
    Transition.run_preserves (fun _ _ _ h hs sparing => h.step (stepped_of_step hs) sparing)
      making (sparing₁.2 _ started) run₁
  have recorded : site₁.pool.state.Recorded c op.path := by
    obtain ⟨t', made', task', maker, recorded⟩ := made.maker
    cases task.symm.trans task'
    rw [returned] at maker
    cases maker with
    | ended truthful => exact recorded (truthful ok)
  have settled : Settled c op.path site₁.pool.tasks.length site₂ :=
    Transition.run_preserves (fun _ _ _ h hs sparing => h.step (stepped_of_step hs) sparing)
      ⟨made.watched, made.member, recorded, fun i t above here => by
        rw [List.getElem?_eq_none above] at here
        cases here⟩ sparing₂ run₂
  refine ⟨fun c' member => getattr_ends (settled.recorded_of_mem member), ?_⟩
  intro i t' mode uid gid status' above here create ended
  have late := (settled.late i t' above here).2 mode uid gid create
  rw [ended] at late
  cases late with
  | ended bad => exact bad

end Watch

section Example

attribute [local instance] SortedRing.consistentHashMap Posix.fsPath Md5.pathHash
  BinaryProtocol.fileMetadataThrift BinaryProtocol.indexNamespaceNode uint64Keys

instance (path : Str) (site : Site Int) : (event : SiteEvent) → Decidable (Sparing path site event)
  | .join _ _ => .isTrue trivial
  | .init => inferInstanceAs (Decidable (∀ _ ∈ _, _))
  | .start _ _ => inferInstanceAs (Decidable (_ → _))
  | .advance _ _ => inferInstanceAs (Decidable (∀ _, _ = some _ → _ → ∀ _, _ = some _ → ¬ _))

/-- A master joins; the first one gets the position zero, the second one the one half way
up. -/
def joins (host : String) : SiteEvent :=
  .join ⟨0, .ok (0, 0), .OK⟩ { address := ⟨host.toList, 1⟩ }

/-- The cluster before any master has joined. -/
def unjoined : Site Int := ⟨{}, [], ⟨rootOnly, []⟩⟩

/-- What a program has returned. -/
def result : ClientM Status → Option Status
  | .ret status => some status
  | _ => none

theorem eq_ret_of_result {p : ClientM Status} {status : Status} (h : result p = some status) :
    p = .ret status := by
  cases p with
  | ret a =>
    cases h
    rfl
  | _ => cases h

/-- The operations of a site with what they have returned. -/
def results (site : Site Int) : List (FileOperation × Option Status) :=
  site.pool.tasks.map (fun t => (t.label.2, result t.prog))

/-- Where a run ends. -/
def after (site : Site Int) (events : List SiteEvent) : Site Int :=
  match Transition.run step site events with
  | .ok site' => site'
  | .error _ => site

theorem run_after {site : Site Int} {events : List SiteEvent}
    (h : (Transition.run step site events).isOk = true) :
    Transition.run step site events = .ok (site.after events) := by
  unfold after
  split
  · assumption
  · rename_i out
    rw [out] at h
    cases h

theorem run_of_results {site : Site Int} {events : List SiteEvent}
    {returned : List (FileOperation × Option Status)}
    (h : (Transition.run step site events).toOption.map results = some returned) :
    ∃ site', Transition.run step site events = .ok site' ∧ results site' = returned := by
  obtain ⟨site', there, same⟩ := Option.map_eq_some_iff.mp h
  cases ran : Transition.run step site events with
  | error crash =>
    rw [ran] at there
    cases there
  | ok out =>
    rw [ran] at there
    cases there
    exact ⟨_, rfl, same⟩

/-- A client makes a file; then a master joins, and a new client asks for the file. -/
def staleRing : List SiteEvent :=
  [joins "m", .init, .start 0 (.create "/f".toList 0o644 0 0), .advance 0 0, .advance 0 0,
    .advance 0 0, .advance 0 0, joins "n", .init, .start 1 (.getattr "/f".toList), .advance 1 0]

/-- A file is made before its directory, and rolled back after it. -/
def rolledBack : List SiteEvent :=
  [joins "m", .init, .start 0 (.create "/d/f".toList 0o644 0 0), .advance 0 0, .advance 0 0,
    .advance 0 0, .advance 0 0, .start 0 (.mkdir "/d".toList 0o755 0 0), .advance 1 0, .advance 1 0,
    .advance 1 0, .advance 0 0, .advance 0 0, .advance 0 0, .start 0 (.getattr "/d/f".toList),
    .advance 2 0]

/-- A directory is removed before it is listed. -/
def overtaken : List SiteEvent :=
  [joins "m", .init, .start 0 (.mkdir "/d".toList 0o755 0 0), .advance 0 0,
    .start 0 (.rmdir "/d".toList), .advance 1 0, .advance 0 0, .advance 0 0,
    .start 0 (.getattr "/d".toList), .advance 2 0]

/-- A new client asks a new master, which does not know the file; an operation that makes
its path returns a success after its own rollback, or after the removal by another one that
was started before. -/
theorem made_path_missed :
    (∃ site, Transition.run step unjoined staleRing = .ok site ∧
      results site = [(.create "/f".toList 0o644 0 0, some .OK),
        (.getattr "/f".toList, some (.systemError ENOENT))]) ∧
    (∃ site, Transition.run step unjoined rolledBack = .ok site ∧
      results site = [(.create "/d/f".toList 0o644 0 0, some .OK),
        (.mkdir "/d".toList 0o755 0 0, some .OK),
        (.getattr "/d/f".toList, some (.systemError ENOENT))]) ∧
    ∃ site, Transition.run step unjoined overtaken = .ok site ∧
      results site = [(.mkdir "/d".toList 0o755 0 0, some .OK), (.rmdir "/d".toList, none),
        (.getattr "/d".toList, some (.systemError ENOENT))] := by
  exact ⟨run_of_results (by decide +kernel), run_of_results (by decide +kernel),
    run_of_results (by decide +kernel)⟩

/-- A master and a client, which makes the file `/g`. -/
def makeFile : List SiteEvent :=
  [.start 0 (.create "/g".toList 0o644 0 0), .advance 0 0, .advance 0 0, .advance 0 0, .advance 0 0]

/-- A master joins that does not get `/g`, and a new client tries to make the file. -/
def makeAgain : List SiteEvent :=
  [joins "n", .init, .start 1 (.create "/g".toList 0o600 0 0), .advance 1 0, .advance 1 0,
    .advance 1 0, .advance 1 0, .advance 1 0, .advance 1 0, .advance 1 0]

theorem file_reached_by_new_client :
    let site₁ := (unjoined.after [joins "m", .init]).after makeFile
    let site₂ := site₁.after makeAgain
    results site₂ = [(.create "/g".toList 0o644 0 0, some .OK),
      (.create "/g".toList 0o600 0 0, some (.systemError EEXIST))] ∧
    (∀ c' ∈ site₂.clients, Ends Delivered (fun r _ => ∃ info, r = .ok (.OK, info))
      (c'.getattr "/g".toList) site₂.pool.state) ∧
    ∀ i t' mode uid gid status', site₁.pool.tasks.length ≤ i → site₂.pool.tasks[i]? = some t' →
      t'.label.2 = .create "/g".toList mode uid gid → t'.prog = .ret status' →
      status'.ok = false := by
  intro site₁ site₂
  refine ⟨by decide +kernel, ?_⟩
  have returned : (site₁.pool.tasks[0]?).bind (fun t => result t.prog) = some .OK := by
    decide +kernel
  obtain ⟨t, task, ended⟩ := Option.bind_eq_some_iff.mp returned
  obtain ⟨c, client⟩ : ∃ c, (unjoined.after [joins "m", .init]).clients[0]? = some c := by
    rw [← Option.isSome_iff_exists]
    decide +kernel
  exact files_stay_reachable {} rootOnly "/g".toList [joins "m", .init] _
    (run_after (by decide +kernel)) (by unfold Routed; decide +kernel)
    (by unfold Unthreatened; decide +kernel) 0 c client (.create "/g".toList 0o644 0 0) trivial rfl
    _ site₁ (by decide +kernel) (run_after (by decide +kernel)) t .OK task
    (eq_ret_of_result ended) rfl makeAgain site₂ (by decide +kernel) (run_after (by decide +kernel))

end Example

end Site

end Vsfs.Client

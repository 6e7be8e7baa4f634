import Vsfs.Client.Balance
import Vsfs.Common.Md5
import Vsfs.Lib.Pool

/-!
# Clients side by side

Any number of clients create and remove files and directories at the same time, one RPC
after the other in any order, and every RPC is executed once and answered. When all
operations have returned, the records and the listings should agree.

They do when no operation takes one of the steps that spoil it. `Careful` names these steps:
a retry that succeeds after all, whose status is the one of the refusal before, a rollback
that finds a file, and the second half of an `unlink` that finds none.

## Main results

- `records_agree_with_listings`: in a run of careful steps the two agree at the end.
-/

namespace Vsfs.Client

open Std Program Prog Masterd Indexd Index VSFSRpcClient

/-- The operations that change a path and the listing in its parent. -/
inductive Operation where
  | create (path : Str) (mode uid gid : BitVec 64)
  | mkdir (path : Str) (mode uid gid : BitVec 64)
  | unlink (path : Str)
  | rmdir (path : Str)
  deriving DecidableEq, Repr

namespace Operation

def path : Operation → Str
  | .create path _ _ _ => path
  | .mkdir path _ _ _ => path
  | .unlink path => path
  | .rmdir path => path

/-- The operation makes its path. -/
def Makes : Operation → Prop
  | .create _ _ _ _ => True
  | .mkdir _ _ _ _ => True
  | _ => False

variable [FsPath] [PathHash] [ConsistentHashMap]

def program (c : VSFSRpcClient) : Operation → ClientM Status
  | .create path mode uid gid => do return (← c.create path mode uid gid).1
  | .mkdir path mode uid gid => c.mkdir path mode uid gid
  | .unlink path => do return (← c.unlink path).1
  | .rmdir path => c.rmdir path

end Operation

variable {K : Type} [LinearOrder K]

section Conditions

variable [FsPath] [PathHash] [ConsistentHashMap]

/-- Every path below the root has a record exactly when it is listed. -/
def Agree (c : VSFSRpcClient) (s : Servers K) : Prop :=
  ∀ path, Normal path → path ≠ ['/'] → (s.Recorded c path ↔ s.Listed c path)

/-- The step does not spoil the agreement: a second attempt of `create` finds the record
still there and one of `unlink` still finds no listing, a rollback finds no file, and an
`unlink` that has taken the listing finds one. `calls` counts the RPCs made before. -/
def Careful (c : VSFSRpcClient) :
    (β : Type) → Operation → Nat → Rpc β → Servers K → Prop
  | _, .create path _ _ _, calls, .master _ (.create _ _ _ _), s => calls = 0 ∨ s.Recorded c path
  | _, .create path _ _ _, _, .master address (.remove _), s => ¬ HasFile s address path
  | _, .mkdir path _ _ _, _, .master address (.remove _), s => ¬ HasFile s address path
  | _, .unlink path, calls, .master _ (.removeSubfile _ _), s => calls = 0 ∨ ¬ s.Listed c path
  | _, .unlink path, _, .master address (.remove _), s => path = ['/'] ∨ HasFile s address path
  | _, _, _, _, _ => True

instance (c : VSFSRpcClient) (β : Type) (op : Operation) (calls : Nat) (rpc : Rpc β)
    (s : Servers K) : Decidable (Careful c β op calls rpc s) := by
  dsimp only [Careful]
  split <;> infer_instance

end Conditions

/-! ## Where a program stands -/

/-- The operation has returned or thrown. -/
def Final (p : ClientM Status) : Prop := (∃ status, p = .ret status) ∨ ∃ exit, p = .throw exit

theorem final_ret (status : Status) : Final (.ret status) := .inl ⟨status, rfl⟩

theorem final_throw (exit : Exit) : Final (.throw exit) := .inr ⟨exit, rfl⟩

section Points

variable [FsPath] [PathHash] [ConsistentHashMap]

/-- `Point c op n d p`: `p` is what is left of `op` after `n` calls, and the weight of its
path is off by `d` because of it. -/
inductive Point (c : VSFSRpcClient) : Operation → Nat → ℤ → ClientM Status → Prop where
  | final {op : Operation} {n : Nat} {d : ℤ} {p : ClientM Status} (ended : Final p)
      (even : d = 0 ∨ op.path = ['/']) : Point c op n d p
  -- `create` makes the record, in at most three attempts.
  | create {path : Str} {mode m uid gid : BitVec 64} {n b : Nat} {node : NodeInfo} {st : Status}
      {k : Status × Option ObjectId → ClientM Status}
      (home : c.masterMap.getByPath path = (.OK, some node)) (count : b + n = kNumBackOffs)
      (first : st.ok = true ↔ n = 0) (fails : ∀ st oid, st.ok = false → Final (k (st, oid)))
      (goes : ∀ st oid, st.ok = true → Point c (.create path mode uid gid) 1 1 (k (st, oid))) :
      Point c (.create path mode uid gid) n 0
        (.iter (createTurn node.address path m uid gid) (b, st) k)
  | createCall {path : Str} {mode m uid gid : BitVec 64} {n : Nat} {node : NodeInfo}
      {k : Except RpcError ObjectId → ClientM Status}
      (home : c.masterMap.getByPath path = (.OK, some node))
      (made : n = 0 → ∀ oid, Point c (.create path mode uid gid) (n + 1) 1 (k (.ok oid)))
      (refused : ∀ ouch : RpcInvalidOp, ouch.what ≠ 0 →
        Point c (.create path mode uid gid) (n + 1) 0 (k (.error (.invalidOp ouch)))) :
      Point c (.create path mode uid gid) n 0
        (.call (.master node.address (.create path m uid gid)) k)
  | mkdirCall {path : Str} {mode uid gid : BitVec 64} {info : RpcFileInfo} {n : Nat}
      {node : NodeInfo} {k : Except RpcError Unit → ClientM Status}
      (home : c.masterMap.getByPath path = (.OK, some node))
      (made : Point c (.mkdir path mode uid gid) (n + 1) 1 (k (.ok ())))
      (refused : ∀ e, Final (k (.error e))) :
      Point c (.mkdir path mode uid gid) n 0 (.call (.master node.address (.mkdir path info)) k)
  -- Both then list it; a status that is not a success leads to the rollback.
  | list {op : Operation} {n : Nat} {node : NodeInfo} {st : Status} {k : Status → ClientM Status}
      (makes : op.Makes) (below : op.path ≠ ['/'])
      (home : c.masterMap.getByPath (FsPath.parentPath op.path) = (.OK, some node))
      (next : ∀ n st, Point c op n 0 (k st)) :
      Point c op n 1 (.iter (subfileTurn node.address
        (.addSubfile (FsPath.parentPath op.path) (FsPath.filename op.path))) (kNumBackOffs, st) k)
  | listCall {op : Operation} {n : Nat} {node : NodeInfo}
      {k : Except RpcError Unit → ClientM Status}
      (makes : op.Makes) (below : op.path ≠ ['/'])
      (home : c.masterMap.getByPath (FsPath.parentPath op.path) = (.OK, some node))
      (listed : Point c op (n + 1) 0 (k (.ok ())))
      (refused : ∀ ouch : RpcInvalidOp, ouch.what ≠ 0 →
        Point c op (n + 1) 1 (k (.error (.invalidOp ouch)))) :
      Point c op n 1 (.call (.master node.address
        (.addSubfile (FsPath.parentPath op.path) (FsPath.filename op.path))) k)
  | undo {op : Operation} {n : Nat} {node : NodeInfo}
      {k : Except RpcError ObjectId → ClientM Status}
      (makes : op.Makes) (home : c.masterMap.getByPath op.path = (.OK, some node))
      (ended : ∀ answer, Final (k answer)) :
      Point c op n 0 (.call (.master node.address (.remove op.path)) k)
  -- `unlink` takes the listing and then the record.
  | unlist {path : Str} {n : Nat} {node : NodeInfo} {st : Status} {k : Status → ClientM Status}
      (below : path ≠ ['/'])
      (home : c.masterMap.getByPath (FsPath.parentPath path) = (.OK, some node))
      (first : st.ok = true ↔ n = 0) (fails : ∀ st, st.ok = false → Final (k st))
      (goes : ∀ st, st.ok = true → Point c (.unlink path) 1 1 (k st)) :
      Point c (.unlink path) n 0 (.iter (subfileTurn node.address
        (.removeSubfile (FsPath.parentPath path) (FsPath.filename path))) (kNumBackOffs, st) k)
  | unlistCall {path : Str} {n : Nat} {node : NodeInfo} {k : Except RpcError Unit → ClientM Status}
      (below : path ≠ ['/'])
      (home : c.masterMap.getByPath (FsPath.parentPath path) = (.OK, some node))
      (taken : n = 0 → Point c (.unlink path) (n + 1) 1 (k (.ok ())))
      (refused : ∀ ouch : RpcInvalidOp, ouch.what ≠ 0 →
        Point c (.unlink path) (n + 1) 0 (k (.error (.invalidOp ouch)))) :
      Point c (.unlink path) n 0 (.call (.master node.address
        (.removeSubfile (FsPath.parentPath path) (FsPath.filename path))) k)
  | remove {path : Str} {n : Nat} {d : ℤ} {node : NodeInfo}
      {k : Except RpcError ObjectId → ClientM Status} (owed : d = 1 ∨ path = ['/'])
      (home : c.masterMap.getByPath path = (.OK, some node)) (ended : ∀ answer, Final (k answer)) :
      Point c (.unlink path) n d (.call (.master node.address (.remove path)) k)
  -- `rmdir` takes the record and then the listing.
  | rmdirCall {path : Str} {n : Nat} {node : NodeInfo} {k : Except RpcError Unit → ClientM Status}
      (home : c.masterMap.getByPath path = (.OK, some node))
      (removed : Point c (.rmdir path) (n + 1) (-1) (k (.ok ())))
      (refused : ∀ e, Final (k (.error e))) :
      Point c (.rmdir path) n 0 (.call (.master node.address (.rmdir path)) k)
  | clear {path : Str} {n : Nat} {node : NodeInfo} {st : Status} {k : Status → ClientM Status}
      (below : path ≠ ['/'])
      (home : c.masterMap.getByPath (FsPath.parentPath path) = (.OK, some node))
      (ended : ∀ st, Final (k st)) :
      Point c (.rmdir path) n (-1) (.iter (subfileTurn node.address
        (.removeSubfile (FsPath.parentPath path) (FsPath.filename path))) (kNumBackOffs, st) k)
  | clearCall {path : Str} {n : Nat} {node : NodeInfo} {k : Except RpcError Unit → ClientM Status}
      (below : path ≠ ['/'])
      (home : c.masterMap.getByPath (FsPath.parentPath path) = (.OK, some node))
      (taken : Point c (.rmdir path) (n + 1) 0 (k (.ok ())))
      (refused : ∀ ouch : RpcInvalidOp,
        Point c (.rmdir path) (n + 1) (-1) (k (.error (.invalidOp ouch)))) :
      Point c (.rmdir path) n (-1) (.call (.master node.address
        (.removeSubfile (FsPath.parentPath path) (FsPath.filename path))) k)

/-! ### The start -/

variable {c : VSFSRpcClient} {path : Str} {mode uid gid : BitVec 64}

/-- There is a master for every path. -/
def Homes (c : VSFSRpcClient) : Prop :=
  ∀ path, ∃ node, c.masterMap.getByPath path = (.OK, some node)

omit [FsPath] in
theorem home_cases [LawfulConsistentHashMap] (c : VSFSRpcClient) :
    (c.isInitialized = false ∧ ∀ path, ∃ status, c.masterMap.getByPath path = (status, none)) ∨
      (c.isInitialized = true ∧ Homes c) := by
  by_cases empty : c.masterMap.ring = ∅
  · refine .inl ⟨by simp [isInitialized, empty], fun path => ?_⟩
    simp [ServerMap.getByPath, ServerMap.get, empty, LawfulConsistentHashMap.get_empty]
  · exact .inr ⟨by simp [isInitialized, empty], fun path => ServerMap.get_of_ring_ne empty _⟩

/-- Listing what was made, with what follows. -/
theorem point_addSubfile (homes : Homes c) {op : Operation} (makes : op.Makes)
    {k : Status → ClientM Status} (good : Final (k .OK)) (next : ∀ n st, Point c op n 0 (k st))
    (n : Nat) : Point c op n 1 ((c.addSubfile op.path).bind k) := by
  unfold VSFSRpcClient.addSubfile
  by_cases root : op.path = ['/']
  · rw [if_pos root]
    exact .final good (.inr root)
  · obtain ⟨node, home⟩ := homes (FsPath.parentPath op.path)
    have found : c.masterMap.get (PathHash.pathToHash (FsPath.parentPath op.path)) =
        (.OK, some node) := home
    simp only [root, if_false, found, checkGet, subfileLoop, bind_eq, ret_bind, loop_bind]
    exact .list makes root home next

theorem point_create (homes : Homes c) (initialized : c.isInitialized = true) :
    Point c (.create path mode uid gid) 0 0 ((Operation.create path mode uid gid).program c) := by
  have makes : (Operation.create path mode uid gid).Makes := trivial
  obtain ⟨node, home⟩ := homes path
  have found : c.masterMap.get (PathHash.pathToHash path) = (.OK, some node) := home
  simp only [Operation.program, VSFSRpcClient.create, initialized, found, createLoop, bind_eq,
    loop_bind, pure_eq, Bool.not_true, Bool.false_eq_true, if_false, iter_bind]
  refine .create home rfl (by simp [Status.OK, Status.ok]) (fun st oid bad => ?_)
    fun st oid good => ?_
  · simpa [bad] using final_ret st
  · simp only [good, Bool.not_true, Bool.false_eq_true, if_false, Prog.bind_assoc]
    refine point_addSubfile homes makes ?_ (fun n st' => ?_) 1
    · simpa [Status.OK, Status.ok] using final_ret _
    · cases ok : st'.ok with
      | true => exact .final (final_ret _) (.inl rfl)
      | false =>
        simp only [Bool.not_false, if_true, perform_bind, call_bind]
        refine .undo makes home fun answer => ?_
        cases answer <;> exact final_ret _

theorem point_mkdir (homes : Homes c) (initialized : c.isInitialized = true) :
    Point c (.mkdir path mode uid gid) 0 0 ((Operation.mkdir path mode uid gid).program c) := by
  have makes : (Operation.mkdir path mode uid gid).Makes := trivial
  obtain ⟨node, home⟩ := homes path
  have found : c.masterMap.get (PathHash.pathToHash path) = (.OK, some node) := home
  simp only [Operation.program, VSFSRpcClient.mkdir, initialized, found, bind_eq, pure_eq,
    Bool.not_true, Bool.false_eq_true, if_false, perform_bind]
  refine .mkdirCall home ?_ fun e => final_ret _
  refine point_addSubfile homes makes ?_ (fun n st => ?_) 1
  · simpa [Status.OK, Status.ok] using final_ret _
  · cases ok : st.ok with
    | true => exact .final (final_ret _) (.inl rfl)
    | false =>
      refine .undo makes home fun answer => ?_
      rcases answer with (_ | _) | _
      · exact final_throw _
      · exact final_ret _
      · exact final_ret _

theorem point_unlink (homes : Homes c) :
    Point c (.unlink path) 0 0 ((Operation.unlink path).program c) := by
  obtain ⟨node, home⟩ := homes path
  obtain ⟨parent, above⟩ := homes (FsPath.parentPath path)
  have found : c.masterMap.get (PathHash.pathToHash (FsPath.parentPath path)) =
      (.OK, some parent) := above
  simp only [Operation.program, VSFSRpcClient.unlink, VSFSRpcClient.removeSubfile, bind_eq, home,
    found, checkGet, ret_bind, pure_eq, perform_bind, Prog.bind_assoc]
  by_cases root : path = ['/']
  · rw [if_pos root]
    refine .remove (.inr root) home fun answer => ?_
    cases answer <;> exact final_ret _
  · rw [if_neg root, subfileLoop, loop_bind]
    refine .unlist root above (by simp [Status.OK, Status.ok]) (fun st bad => ?_) fun st good => ?_
    · simpa [bad] using final_ret st
    · simp only [good, Bool.not_true, Bool.false_eq_true, if_false, call_bind]
      refine .remove (.inl rfl) home fun answer => ?_
      cases answer <;> exact final_ret _

theorem point_rmdir (homes : Homes c) (initialized : c.isInitialized = true) :
    Point c (.rmdir path) 0 0 ((Operation.rmdir path).program c) := by
  obtain ⟨node, home⟩ := homes path
  obtain ⟨parent, above⟩ := homes (FsPath.parentPath path)
  have found : c.masterMap.get (PathHash.pathToHash path) = (.OK, some node) := home
  have found' : c.masterMap.get (PathHash.pathToHash (FsPath.parentPath path)) =
      (.OK, some parent) := above
  simp only [Operation.program, VSFSRpcClient.rmdir, VSFSRpcClient.removeSubfile, initialized,
    found, found', checkGet, bind_eq, ret_bind, pure_eq, Bool.not_true, Bool.false_eq_true,
    if_false, perform_bind]
  refine .rmdirCall home ?_ fun e => final_ret _
  by_cases root : path = ['/']
  · rw [if_pos root]
    exact .final (final_ret _) (.inr root)
  · rw [if_neg root]
    exact .clear root above final_ret

/-- A client that knows no master does nothing. -/
theorem final_uninitialized (uninitialized : c.isInitialized = false)
    (none : ∀ path, ∃ status, c.masterMap.getByPath path = (status, none)) (op : Operation) :
    Final (op.program c) := by
  cases op with
  | create path mode uid gid =>
    simpa [Operation.program, VSFSRpcClient.create, uninitialized] using final_ret _
  | mkdir path mode uid gid =>
    simpa [Operation.program, VSFSRpcClient.mkdir, uninitialized] using final_ret _
  | unlink path =>
    obtain ⟨_, home⟩ := none path
    obtain ⟨_, above⟩ := none (FsPath.parentPath path)
    have found :
        c.masterMap.get (PathHash.pathToHash (FsPath.parentPath path)) = (_, .none) := above
    simp only [Operation.program, VSFSRpcClient.unlink, VSFSRpcClient.removeSubfile, home, found,
      checkGet]
    split <;> exact final_throw _
  | rmdir path =>
    simpa [Operation.program, VSFSRpcClient.rmdir, uninitialized] using final_ret _

theorem point_start [LawfulConsistentHashMap] (c : VSFSRpcClient) (op : Operation) :
    Point c op 0 0 (op.program c) := by
  rcases home_cases c with ⟨uninitialized, none⟩ | ⟨initialized, homes⟩
  · exact .final (final_uninitialized uninitialized none op) (.inl rfl)
  · cases op with
    | create path mode uid gid => exact point_create homes initialized
    | mkdir path mode uid gid => exact point_mkdir homes initialized
    | unlink path => exact point_unlink homes
    | rmdir path => exact point_rmdir homes initialized

/-! ### A turn of a loop -/

omit [FsPath] [PathHash] [ConsistentHashMap] in
/-- A turn of the loops over listings makes the request; after a refusal it starts again. -/
theorem subfileTurn_again (address : NodeAddress) (request : MasterRpc Unit) (st : Status)
    (k : Status → ClientM Status) : ∃ next : Except RpcError Unit → ClientM Status,
      (subfileTurn address request (kNumBackOffs, st)).bind
          (again (subfileTurn address request) k) =
        .call (.master address request) next ∧ next (.ok ()) = k st ∧
      ∀ ouch, next (.error (.invalidOp ouch)) =
        .iter (subfileTurn address request) (kNumBackOffs, (RpcError.invalidOp ouch).status) k :=
  ⟨_, rfl, rfl, fun _ => rfl⟩

omit [FsPath] [PathHash] [ConsistentHashMap] in
theorem invalidOp_not_ok {ouch : RpcInvalidOp} (h : ouch.what ≠ 0) :
    (RpcError.invalidOp ouch).status.ok = false := by
  simpa [RpcError.status, Status.ok] using h

theorem point_turn {op : Operation} {n : Nat} {d : ℤ} {σ β : Type} {x : σ}
    {body : σ → ClientM (σ ⊕ β)} {k : β → ClientM Status} (h : Point c op n d (.iter body x k)) :
    Point c op n d ((body x).bind (again body k)) := by
  cases h with
  | final ended => rcases ended with ⟨_, h⟩ | ⟨_, h⟩ <;> cases h
  | @create path mode m uid gid n b node st k home count first fails goes =>
    cases b with
    | zero =>
      -- The attempts are used up, and the last one was refused.
      have late : st.ok = false := by
        simp only [kNumBackOffs] at count
        simpa [show n ≠ 0 by omega] using first
      exact .final (fails st none late) (.inl rfl)
    | succ b =>
      refine .createCall home (fun fresh oid => ?_) fun ouch bad => ?_
      · subst fresh
        exact goes st (some oid) (first.mpr rfl)
      · refine .create home ?_ ?_ fails goes
        · simpa [Nat.add_comm, Nat.add_left_comm] using count
        · simp [invalidOp_not_ok bad]
  | @list _ _ node st k makes below home next =>
    obtain ⟨k', turn, done, refused⟩ := subfileTurn_again node.address _ st k
    rw [turn]
    refine .listCall makes below home (done ▸ next _ st) fun ouch _ => ?_
    rw [refused]
    exact .list makes below home next
  | @unlist path _ node st k below home first fails goes =>
    obtain ⟨k', turn, done, refused⟩ := subfileTurn_again node.address _ st k
    rw [turn]
    refine .unlistCall below home (fun fresh => ?_) fun ouch bad => ?_
    · subst fresh
      rw [done]
      exact goes st (first.mpr rfl)
    · rw [refused]
      exact .unlist below home (by simp [invalidOp_not_ok bad]) fails goes
  | @clear path _ node st k below home ended =>
    obtain ⟨k', turn, done, refused⟩ := subfileTurn_again node.address _ st k
    rw [turn]
    refine .clearCall below home (done ▸ .final (ended st) (.inl rfl)) fun ouch => ?_
    rw [refused]
    exact .clear below home ended

/-! ### A call and the end -/

/-- The call of a program at a point is one to a master. -/
theorem Point.master {op : Operation} {n : Nat} {d : ℤ} {β : Type} {rpc : Rpc β}
    {k : Except RpcError β → ClientM Status} (h : Point c op n d (.call rpc k)) :
    ∃ address request, rpc = .master address request := by
  cases h with
  | final ended => rcases ended with ⟨_, h⟩ | ⟨_, h⟩ <;> cases h
  | _ => exact ⟨_, _, rfl⟩

/-- What an operation on `q` owes when the weight of `q` is off by `d`. -/
def share (q : Str) (d : ℤ) : Str → ℤ := fun p => if p = q ∧ q ≠ ['/'] then d else 0

/-- An operation that has ended owes nothing. -/
theorem Point.share_final {op : Operation} {n : Nat} {d : ℤ} {p : ClientM Status}
    (h : Point c op n d p) (ended : Final p) : share op.path d = 0 := by
  have even : d = 0 ∨ op.path = ['/'] := by
    cases h with
    | final _ even => exact even
    | _ => rcases ended with ⟨_, h⟩ | ⟨_, h⟩ <;> cases h
  funext p
  rcases even with rfl | root
  · simp [share]
  · simp [share, root]

end Points

/-! ## The accounts -/

section Accounts

variable [KeyTypes K] [FsPath] [PathHash] [ConsistentHashMap] [ThriftSerialize FileMetadata]
  [ThriftSerialize IndexNamespaceNode]

/-- Every RPC is executed once, at a given time, and answered. -/
def reliable : Serve Rpc RpcError Double Crash (Servers K) :=
  fun _ now rpc s => (s.serve now 0 rpc).map fun (answer, s') => (answer.mapError .invalidOp, s')

/-- The weights of all paths below the root. -/
noncomputable def balance (c : VSFSRpcClient) (s : Servers K) : Str → ℤ :=
  open Classical in fun p => if Normal p ∧ p ≠ ['/'] then weight c s p else 0

def Owes (c : VSFSRpcClient) (op : Operation) (n : Nat) (p : ClientM Status) (d : Str → ℤ) : Prop :=
  Normal op.path ∧ ∃ e, Point c op n e p ∧ d = share op.path e

def TidyMasters (s : Servers K) : Prop := ∀ a, Namespace.Tidy (s.masters a).namespace

variable {c : VSFSRpcClient} {s s' : Servers K}

omit [KeyTypes K] [ThriftSerialize FileMetadata] [ThriftSerialize IndexNamespaceNode] in
theorem balance_moves {q : Str} {d d' : ℤ} (normal : Normal q) (h : Moves c q (d' - d) s s') :
    balance c s' + share q d = balance c s + share q d' := by
  funext p
  simp only [Pi.add_apply, balance, share]
  by_cases below : Normal p ∧ p ≠ ['/']
  · rw [if_pos below, if_pos below, h p below.1 below.2]
    by_cases same : p = q
    · subst same
      rw [if_pos rfl, if_pos ⟨rfl, below.2⟩, if_pos ⟨rfl, below.2⟩]
      omega
    · simp [same]
  · have other : ¬ (p = q ∧ q ≠ ['/']) := fun ⟨same, root⟩ => below (same ▸ ⟨normal, root⟩)
    rw [if_neg below, if_neg below, if_neg other, if_neg other]

omit [KeyTypes K] [ThriftSerialize FileMetadata] [ThriftSerialize IndexNamespaceNode] in
theorem balance_eq_zero : balance c s = 0 ↔ Agree c s := by
  constructor
  · intro even path normal below
    have zero := congrFun even path
    simp only [balance, normal, below, ne_eq, not_false_eq_true, and_self, if_true,
      Pi.zero_apply, weight] at zero
    by_cases recorded : s.Recorded c path <;> by_cases listed : s.Listed c path <;>
      simp [ind, recorded, listed] at zero ⊢
  · intro agree
    funext path
    by_cases below : Normal path ∧ path ≠ ['/']
    · simp [balance, below, weight, agree path below.1 below.2]
    · simp only [balance, below, if_false, Pi.zero_apply]

omit [ConsistentHashMap] in
theorem answers_of_reliable {β : Type} {now : Double} {rpc : Rpc β} {answer : Except RpcError β}
    (h : reliable β now rpc s = .ok (answer, s')) :
    ∃ a, answer = a.mapError .invalidOp ∧ s.Answers rpc a s' := by
  unfold reliable at h
  cases out : s.serve now 0 rpc with
  | error crash => simp [out, Except.map] at h
  | ok answered =>
    simp only [out, Except.map, Except.ok.injEq, Prod.mk.injEq] at h
    obtain ⟨rfl, rfl⟩ := h
    exact ⟨answered.1, rfl, now, 0, out⟩

omit [ConsistentHashMap] in
theorem tidyMasters_of_answers {β : Type} {rpc : Rpc β} {a : Except RpcInvalidOp β}
    (tidy : TidyMasters s) (h : s.Answers rpc a s') : TidyMasters s' := by
  cases rpc with
  | index address request =>
    obtain ⟨id, im, -, rfl⟩ := Servers.answers_index h
    exact tidy
  | master address request =>
    obtain ⟨now, mc, handled, rfl⟩ := Servers.answers_master h
    intro b
    by_cases same : b = address
    · subst same
      simpa using MasterServer.tidy_of_handle handled (tidy b)
    · simpa [same] using tidy b

variable [LawfulFsPath]

/-- A careful call that is answered changes the weight of the path by what it changes the
debt of the program. -/
theorem point_call {op : Operation} {n : Nat} {d : ℤ} {β : Type} {rpc : Rpc β}
    {k : Except RpcError β → ClientM Status} {a : Except RpcInvalidOp β} (normal : Normal op.path)
    (tidy : TidyMasters s) (h : Point c op n d (.call rpc k)) (careful : Careful c β op n rpc s)
    (answers : s.Answers rpc a s') :
    ∃ d', Point c op (n + 1) d' (k (a.mapError .invalidOp)) ∧ Moves c op.path (d' - d) s s' := by
  cases h with
  | final ended => rcases ended with ⟨_, h⟩ | ⟨_, h⟩ <;> cases h
  | @createCall path mode m uid gid n node k home made refused =>
    rcases create_moves home answers with ⟨⟨ouch, rfl, bad⟩, moves⟩ | ⟨new, ⟨oid, rfl⟩, moves⟩
    · exact ⟨0, refused ouch bad, by simpa [Operation.path] using moves⟩
    · rcases careful with first | recorded
      · exact ⟨1, made first oid, by simpa [Operation.path] using moves⟩
      · exact absurd recorded new
  | mkdirCall home made refused =>
    rcases mkdir_moves home (tidy _) answers with ⟨⟨ouch, rfl, bad⟩, moves⟩ | ⟨rfl, moves⟩
    · exact ⟨0, .final (refused _) (.inl rfl), by simpa [Operation.path] using moves⟩
    · exact ⟨1, made, by simpa [Operation.path] using moves⟩
  | listCall makes below home listed refused =>
    rcases addSubfile_moves normal below home answers with ⟨⟨ouch, rfl, bad⟩, moves⟩ | ⟨rfl, moves⟩
    · exact ⟨1, refused ouch bad, by simpa [Operation.path] using moves⟩
    · exact ⟨0, listed, by simpa [Operation.path] using moves⟩
  | undo makes home ended =>
    rcases remove_moves home answers with ⟨⟨-, moves⟩, -⟩ | ⟨file, -, -⟩
    · exact ⟨0, .final (ended _) (.inl rfl), by simpa [Operation.path] using moves⟩
    · cases op with
      | create path mode uid gid => exact absurd file careful
      | mkdir path mode uid gid => exact absurd file careful
      | unlink path => cases makes
      | rmdir path => cases makes
  | unlistCall below home taken refused =>
    rcases removeSubfile_moves normal below home answers with
      ⟨⟨ouch, rfl, bad⟩, moves⟩ | ⟨listed, rfl, moves⟩
    · exact ⟨0, refused ouch bad, by simpa [Operation.path] using moves⟩
    · rcases careful with first | unlisted
      · exact ⟨1, taken first, by simpa [Operation.path] using moves⟩
      · exact absurd listed unlisted
  | @remove path n d node k owed home ended =>
    rcases remove_moves home answers with ⟨⟨-, moves⟩, absent⟩ | ⟨file, -, moves⟩
    · rcases careful with root | file
      · exact ⟨d, .final (ended _) (.inr root), by simpa [Operation.path] using moves⟩
      · exact absurd file absent
    · refine ⟨d - 1, .final (ended _) (owed.imp (fun one => by omega) fun root => root), ?_⟩
      simpa [Operation.path] using moves
  | rmdirCall home removed refused =>
    rcases rmdir_moves home (tidy _) answers with ⟨⟨ouch, rfl, bad⟩, moves⟩ | ⟨rfl, moves⟩
    · exact ⟨0, .final (refused _) (.inl rfl), by simpa [Operation.path] using moves⟩
    · exact ⟨-1, removed, by simpa [Operation.path] using moves⟩
  | clearCall below home taken refused =>
    rcases removeSubfile_moves normal below home answers with
      ⟨⟨ouch, rfl, bad⟩, moves⟩ | ⟨-, rfl, moves⟩
    · exact ⟨-1, refused ouch, by simpa [Operation.path] using moves⟩
    · exact ⟨0, taken, by simpa [Operation.path] using moves⟩

variable [LawfulConsistentHashMap]

theorem audit (c : VSFSRpcClient) :
    Audit (Operation.program c) (reliable (K := K)) (fun op => Normal op.path) (Careful c)
      TidyMasters (balance c) (Owes c) where
  start op normal := by
    refine ⟨normal, 0, point_start c op, ?_⟩
    funext p
    simp [share]
  turn := by
    rintro op n σ β d body x k ⟨normal, e, point, rfl⟩
    exact ⟨normal, e, point_turn point, rfl⟩
  call := by
    rintro op n β now s s' answer d rpc k tidy ⟨normal, e, point, rfl⟩ careful served
    obtain ⟨a, rfl, answers⟩ := answers_of_reliable served
    obtain ⟨d', point', moves⟩ := point_call normal tidy point careful answers
    obtain ⟨address, request, rfl⟩ := point.master
    exact ⟨tidyMasters_of_answers tidy answers, _, ⟨normal, d', point', rfl⟩,
      balance_moves normal moves⟩
  ret := by
    rintro op n a d ⟨-, e, point, rfl⟩
    exact point.share_final (final_ret a)
  throw := by
    rintro op n exit d ⟨-, e, point, rfl⟩
    exact point.share_final (final_throw exit)

/-- Clients that create and remove files and directories side by side, with careful steps
only: whatever the order of their RPCs, when all operations have returned, a path below the
root has a record exactly when it is listed, if this was so at the start. -/
theorem records_agree_with_listings (c : VSFSRpcClient) {s : Servers K} (tidy : TidyMasters s)
    (agree : Agree c s) {events : List (Event Operation Double)}
    (careful : Transition.Meets (Pool.step (Operation.program c) reliable)
      (Pool.Obeys (fun op => Normal op.path) (Careful c)) ⟨s, []⟩ events)
    {p : Pool Rpc RpcError Exit Status Operation (Servers K)}
    (run : Transition.run (Pool.step (Operation.program c) reliable) ⟨s, []⟩ events = .ok p)
    (done : ∀ t ∈ p.tasks, t.Done) : Agree c p.state :=
  balance_eq_zero.mp ((audit c).balance_of_done tidy (balance_eq_zero.mpr agree) careful run done)

end Accounts

section Example

attribute [local instance] SortedRing.consistentHashMap Posix.fsPath Md5.pathHash
  BinaryProtocol.fileMetadataThrift BinaryProtocol.indexNamespaceNode uint64Keys

theorem rootOnly_tidy : TidyMasters rootOnly := by
  intro a
  exact (Namespace.Tidy.empty 0).withDirectory (by simp)

theorem rootOnly_agree : Agree oneServer rootOnly := by
  intro path normal below
  have unrecorded : ¬ rootOnly.Recorded oneServer path := by
    rintro ⟨node, -, found⟩
    simp [rootOnly, Ne.symm below] at found
  have unlisted : ¬ rootOnly.Listed oneServer path := by
    rintro ⟨node, dir, -, found, listed⟩
    simp only [rootOnly, Namespace.withDirectory_directories,
      FiniteMap.getElem?_insertIfNew] at found
    split at found
    · cases found
      exact ExtTreeSet.not_mem_empty listed
    · simp at found
  simp [unrecorded, unlisted]

/-- One client makes the directory `/d`, and then another one calls `unlink` on it. -/
def unlinkDirectory : List (Event Operation Double) :=
  [.start (.mkdir "/d".toList 0o755 0 0), .advance 0 0, .advance 0 0, .advance 0 0,
    .start (.unlink "/d".toList), .advance 1 0, .advance 1 0, .advance 1 0]

theorem normal_d : Normal "/d".toList := .top (by decide)

/-- `unlink` takes the listing of a directory and is then refused its record. -/
theorem unlink_unlists_directory :
    ¬ ∀ (c : VSFSRpcClient) (s : Servers Int), TidyMasters s → Agree c s →
      ∀ events : List (Event Operation Double), (∀ op, .start op ∈ events → Normal op.path) →
      ∀ p, Transition.run (Pool.step (Operation.program c) reliable) ⟨s, []⟩ events = .ok p →
        (∀ t ∈ p.tasks, t.Done) → Agree c p.state := by
  intro claim
  have ends : (match Transition.run (Pool.step (Operation.program oneServer) reliable)
      ⟨rootOnly, []⟩ unlinkDirectory with
      | .ok p => decide (∀ t ∈ p.tasks, t.Done) &&
        decide (p.state.Recorded oneServer "/d".toList) &&
        !decide (p.state.Listed oneServer "/d".toList)
      | .error _ => false) = true := by
    decide +kernel
  split at ends
  · rename_i p run
    simp only [Bool.and_eq_true, decide_eq_true_eq, Bool.not_eq_true',
      decide_eq_false_iff_not] at ends
    obtain ⟨⟨done, recorded⟩, unlisted⟩ := ends
    refine unlisted ((claim oneServer rootOnly rootOnly_tidy rootOnly_agree unlinkDirectory ?_ p run
      done "/d".toList normal_d (by decide)).mp recorded)
    intro op started
    simp only [unlinkDirectory, List.mem_cons, reduceCtorEq, List.not_mem_nil, Event.start.injEq,
      or_false, false_or] at started
    rcases started with rfl | rfl <;> exact normal_d
  · cases ends

/-- Two clients create `/f` at the same time: one makes it, the other is refused three
times. -/
def bothCreate : List (Event Operation Double) :=
  [.start (.create "/f".toList 0o644 0 0), .start (.create "/f".toList 0o600 0 0),
    .advance 1 0, .advance 0 0, .advance 0 0, .advance 1 0, .advance 1 0, .advance 0 0,
    .advance 1 0, .advance 0 0, .advance 1 0, .advance 1 0, .advance 1 0]

theorem bothCreate_agree :
    ∃ p, Transition.run (Pool.step (Operation.program oneServer) reliable) ⟨rootOnly, []⟩
      bothCreate = .ok p ∧ (∀ t ∈ p.tasks, t.Done) ∧
      p.state.Recorded oneServer "/f".toList ∧ Agree oneServer p.state := by
  have ends : (match Transition.run (Pool.step (Operation.program oneServer) reliable)
      ⟨rootOnly, []⟩ bothCreate with
      | .ok p => decide (∀ t ∈ p.tasks, t.Done) && decide (p.state.Recorded oneServer "/f".toList)
      | .error _ => false) = true := by
    decide +kernel
  have careful : Transition.Meets (Pool.step (Operation.program oneServer) reliable)
      (Pool.Obeys (fun _ => True) (Careful oneServer)) ⟨rootOnly, []⟩ bothCreate := by
    decide +kernel
  split at ends
  · rename_i p run
    simp only [Bool.and_eq_true, decide_eq_true_eq] at ends
    refine ⟨p, run, ends.1, ends.2, records_agree_with_listings oneServer rootOnly_tidy
      rootOnly_agree (careful.imp fun s event started obeys => ?_) run ends.1⟩
    cases event with
    | advance => exact obeys
    | start op =>
      simp only [bothCreate, List.mem_cons, reduceCtorEq, List.not_mem_nil, Event.start.injEq,
        or_false] at started
      rcases started with rfl | rfl <;> exact .top (by decide)
  · cases ends

end Example

end Vsfs.Client

import Vsfs.Client.VsfsRpcClient

/-!
# What the operations call

The RPCs that the operations on files and directories can come to make.
-/

namespace Vsfs.Client

open Program Prog Masterd VSFSRpcClient

variable [FsPath] [PathHash] [ConsistentHashMap] {allowed : (β : Type) → Rpc β → Prop}
  {c : VSFSRpcClient} {path : Str}

/-! ## Files and directories -/

theorem addSubfile_calls
    (lists : ∀ a parent subfile, allowed Unit (.master a (.addSubfile parent subfile))) :
    (c.addSubfile path).Calls allowed := by
  unfold VSFSRpcClient.addSubfile
  split
  · trivial
  · exact (checkGet_calls _ _).bind fun node => subfileLoop_calls (lists _ _ _)

theorem removeSubfile_calls
    (unlists : ∀ a parent subfile, allowed Unit (.master a (.removeSubfile parent subfile))) :
    (c.removeSubfile path).Calls allowed := by
  unfold VSFSRpcClient.removeSubfile
  split
  · trivial
  · exact (checkGet_calls _ _).bind fun node => subfileLoop_calls (unlists _ _ _)

theorem create_calls {mode uid gid : BitVec 64}
    (creates : ∀ node m, (c.masterMap.getByPath path).2 = some node →
      allowed _ (.master node.address (.create path m uid gid)))
    (lists : ∀ a parent subfile, allowed Unit (.master a (.addSubfile parent subfile)))
    (removes : ∀ a, allowed _ (.master a (.remove path))) :
    (c.create path mode uid gid).Calls allowed := by
  unfold VSFSRpcClient.create
  split
  · trivial
  · split
    · trivial
    · rename_i node home
      have here : (c.masterMap.getByPath path).2 = some node := congrArg Prod.snd home
      refine Calls.bind (p := createLoop node.address path _ uid gid) ?_ fun (status, oid) => ?_
      · refine ⟨fun (backoff, status) => ?_, fun _ => trivial⟩
        by_cases last : backoff = 0
        · simp only [createTurn, last, if_true]
          trivial
        · simp only [createTurn, last, if_false]
          refine ⟨creates node _ here, fun b => ?_⟩
          cases b <;> trivial
      · dsimp only
        split
        · trivial
        · refine (addSubfile_calls lists).bind fun status => ?_
          split
          · refine ⟨removes _, fun b => ?_⟩
            cases b <;> trivial
          · trivial

theorem mkdir_calls {mode uid gid : BitVec 64}
    (makes : ∀ a info, allowed _ (.master a (.mkdir path info)))
    (lists : ∀ a parent subfile, allowed Unit (.master a (.addSubfile parent subfile)))
    (removes : ∀ a, allowed _ (.master a (.remove path))) :
    (c.mkdir path mode uid gid).Calls allowed := by
  unfold VSFSRpcClient.mkdir
  split
  · trivial
  · split
    · trivial
    · refine ⟨makes _ _, fun b => ?_⟩
      cases b with
      | error e => trivial
      | ok _ =>
        refine (addSubfile_calls lists).bind fun status => ?_
        dsimp only
        split
        · refine ⟨removes _, fun b => ?_⟩
          rcases b with (ouch | type) | _ <;> trivial
        · trivial

theorem unlink_calls
    (unlists : ∀ a parent subfile, allowed Unit (.master a (.removeSubfile parent subfile)))
    (removes : ∀ a, allowed _ (.master a (.remove path))) :
    (c.unlink path).Calls allowed := by
  refine (removeSubfile_calls unlists).bind fun status => ?_
  split
  · trivial
  · refine (checkGet_calls _ _).bind fun node => ⟨removes _, fun b => ?_⟩
    cases b <;> trivial

theorem rmdir_calls (removes : ∀ a, allowed _ (.master a (.rmdir path)))
    (unlists : ∀ a parent subfile, allowed Unit (.master a (.removeSubfile parent subfile))) :
    (c.rmdir path).Calls allowed := by
  unfold VSFSRpcClient.rmdir
  split
  · trivial
  · split
    · trivial
    · refine ⟨removes _, fun b => ?_⟩
      cases b with
      | error e => trivial
      | ok _ => exact removeSubfile_calls unlists

omit [FsPath] in
theorem getattr_calls (reads : ∀ a, allowed _ (.master a (.getattr path))) :
    (c.getattr path).Calls allowed := by
  refine (checkGet_calls _ _).bind fun node => ⟨reads _, fun b => ?_⟩
  cases b <;> trivial

omit [FsPath] in
theorem getattrStat_calls (reads : ∀ a, allowed _ (.master a (.getattr path))) :
    (c.getattrStat path).Calls allowed := by
  refine (getattr_calls reads).bind fun (status, info) => ?_
  dsimp only
  split <;> trivial

omit [FsPath] in
theorem readdir_calls (reads : ∀ a, allowed _ (.master a (.readdir path))) :
    (c.readdir path).Calls allowed := by
  refine (checkGet_calls _ _).bind fun node => ⟨reads _, fun b => ?_⟩
  cases b <;> trivial

/-! ## Indices -/

/-- The RPCs of `remove_index`. -/
def RemovalRpc : (α : Type) → Rpc α → Prop
  | _, .master _ (.readdir _) => True
  | _, .master _ (.removeSubfile _ _) => True
  | _, .master _ (.remove _) => True
  | _, .index _ (.removeIndex _ _) => True
  | _, _ => False

theorem removeIndex_calls (c : VSFSRpcClient) (root name : Str) :
    (c.removeIndex root name).Calls RemovalRpc := by
  refine (readdir_calls fun _ => trivial).bind fun (status, partitions) => ?_
  dsimp only
  split
  · trivial
  · refine Calls.foldlM (fun status part => ?_) _ _
    refine (unlink_calls (fun _ _ _ => trivial) fun _ => trivial).bind fun _ => ?_
    refine (checkGet_calls _ _).bind fun node => ⟨trivial, fun b => ?_⟩
    cases b <;> trivial

/-- What is left to do once the index server has the partition. -/
theorem registerIndex_calls {request : IndexCreateRequest}
    (registers : ∀ a, allowed _ (.master a (.createIndex request)))
    (rollback : (c.removeIndex request.root request.name).Calls allowed)
    (creates : (c.create (PathUtil.partitionPath request.root request.name 0) 0o755#64 request.uid
      request.gid).Calls allowed)
    (removes : (c.rmdir (PathUtil.indexPath request.root request.name)).Calls allowed) :
    (c.registerIndex request).Calls allowed := by
  have undo (status : Status) : (if !status.ok then
      (c.rmdir (PathUtil.indexPath request.root request.name)).bind fun _ =>
        (c.removeIndex request.root request.name).bind fun _ => .ret .OK
      else .ret .OK : ClientM Status).Calls allowed := by
    split
    · exact removes.bind fun _ => rollback.bind fun _ => trivial
    · trivial
  refine (checkGet_calls _ _).bind fun node => ⟨registers _, fun b => ?_⟩
  cases b with
  | ok _ => exact creates.bind fun out => undo out.1
  | error e =>
    simp only [ret_bind]
    split
    · exact rollback.bind fun _ => creates.bind fun out => undo out.1
    · exact creates.bind fun out => undo out.1

/-- The part of `create_index` from the directory `.vsfs` on. -/
theorem indexDirectory_calls (request : IndexCreateRequest)
    (makes : (c.mkdir (request.root ++ "/.vsfs".toList) request.mode request.uid
      request.gid).Calls allowed)
    (rollback : (c.removeIndex request.root request.name).Calls allowed)
    (registers : (c.registerIndex request).Calls allowed) :
    ((c.mkdir (request.root ++ "/.vsfs".toList) request.mode request.uid request.gid).bind
      fun status => if !status.ok ∧ status.error ≠ -EEXIST then
          c.removeIndex request.root request.name
        else c.registerIndex request).Calls allowed := by
  refine makes.bind fun status => ?_
  split
  · exact rollback
  · exact registers

end Vsfs.Client

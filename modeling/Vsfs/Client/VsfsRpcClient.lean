import Vsfs.Common.ServerMap
import Vsfs.Indexd.IndexManager
import Vsfs.Lib.Program

/-!
# The client

The operations of `VSFSRpcClient` on files, directories and indices, as programs over the
RPCs they make. Opening a connection, the request and closing it are one call, answered by
the server or by an exception. The two rings of servers are cached when the client starts
and do not change afterwards.
-/

namespace Vsfs.Client

open Std Program Masterd Indexd

/-- The exceptions of an RPC: the server refuses, or a `TTransportException` of some type. -/
inductive RpcError where
  | invalidOp (ouch : RpcInvalidOp)
  | transport (type : Int) (what : String)
  deriving DecidableEq, Repr

/-- The status that a `catch` clause makes of an exception. A transport exception of type
`UNKNOWN`, which is zero, becomes a success. -/
def RpcError.status : RpcError → Status
  | .invalidOp ouch => ⟨ouch.what, ouch.why⟩
  | .transport type what => ⟨type, what⟩

inductive Rpc (α : Type) where
  | master (address : NodeAddress) (request : MasterRpc α)
  | index (address : NodeAddress) (request : IndexRpc α)

/-- The ways in which an operation does not return. -/
inductive Exit where
  | thrown (exception : RpcError)
  | stdException (what : String)
  | crash (crash : Crash)
  deriving DecidableEq, Repr

/-- A program of the client. -/
abbrev ClientM := Prog Rpc RpcError Exit

/-- `CHECK(servers.get(…).ok())`, with the node it writes. -/
def checkGet (condition : String) (found : Status × Option NodeInfo) : ClientM NodeInfo :=
  match found with
  | (_, some node) => .ret node
  | (_, none) => .throw (.crash (.check condition))

theorem checkGet_some {condition : String} {found : Status × Option NodeInfo} {node : NodeInfo}
    (h : found.2 = some node) : checkGet condition found = .ret node := by
  obtain ⟨status, _⟩ := found
  cases h
  rfl

theorem checkGet_none {condition : String} {found : Status × Option NodeInfo}
    (h : found.2 = none) : checkGet condition found = .throw (.crash (.check condition)) := by
  obtain ⟨status, _⟩ := found
  cases h
  rfl

theorem checkGet_calls {allowed : (β : Type) → Rpc β → Prop} (condition : String)
    (found : Status × Option NodeInfo) : (checkGet condition found).Calls allowed := by
  obtain ⟨status, node⟩ := found
  cases node <;> trivial

def kNumBackOffs : Nat := 3

structure VSFSRpcClient where
  masterMap : ServerMap := {}
  indexServerMap : ServerMap := {}

namespace VSFSRpcClient

variable [FsPath] [PathHash] [ConsistentHashMap]

def isInitialized (c : VSFSRpcClient) : Bool := !c.masterMap.ring.isEmpty

def notInitialized : Status := ⟨-1, "The client has not initialized yet."⟩

/-! ## Listings of a parent -/

/-- One attempt of the loops of `add_subfile` and `remove_subfile`. Only a transport
exception counts as one of the attempts. -/
def subfileTurn (address : NodeAddress) (request : MasterRpc Unit) :
    Nat × Status → ClientM (Nat × Status ⊕ Status)
  | (backoff, status) =>
    if backoff = 0 then .ret (.inr status)
    else do
      match ← Prog.perform (.master address request) with
      | .ok _ => return .inr status
      | .error (.invalidOp ouch) => return .inl (backoff, (RpcError.invalidOp ouch).status)
      | .error (.transport type what) =>
        return .inl (backoff - 1, (RpcError.transport type what).status)

/-- A refusal is retried for ever, and the status of a failed attempt is kept when a later
one succeeds. -/
def subfileLoop (address : NodeAddress) (request : MasterRpc Unit) : ClientM Status :=
  .loop (subfileTurn address request) (kNumBackOffs, .OK)

omit [FsPath] [PathHash] [ConsistentHashMap] in
theorem subfileLoop_calls {allowed : (β : Type) → Rpc β → Prop} {address : NodeAddress}
    {request : MasterRpc Unit} (may : allowed Unit (.master address request)) :
    (subfileLoop address request).Calls allowed := by
  refine ⟨fun (backoff, status) => ?_, fun _ => trivial⟩
  by_cases last : backoff = 0
  · simp only [subfileTurn, last, if_true]
    trivial
  · simp only [subfileTurn, last, if_false]
    refine ⟨may, fun b => ?_⟩
    rcases b with (ouch | type) | _ <;> trivial

def addSubfile (c : VSFSRpcClient) (path : Str) : ClientM Status :=
  if path = ['/'] then .ret .OK
  else do
    let parent := FsPath.parentPath path
    let filename := FsPath.filename path
    let node ← checkGet "status.ok()" (c.masterMap.get (PathHash.pathToHash parent))
    subfileLoop node.address (.addSubfile parent filename)

def removeSubfile (c : VSFSRpcClient) (path : Str) : ClientM Status :=
  if path = ['/'] then .ret .OK
  else do
    let parent := FsPath.parentPath path
    let filename := FsPath.filename path
    let node ← checkGet "status.ok()" (c.masterMap.get (PathHash.pathToHash parent))
    subfileLoop node.address (.removeSubfile parent filename)

/-! ## Files and directories -/

/-- One attempt of the loop of `create`. -/
def createTurn (address : NodeAddress) (path : Str) (mode uid gid : BitVec 64) :
    Nat × Status → ClientM (Nat × Status ⊕ Status × Option ObjectId)
  | (backoff, status) =>
    if backoff = 0 then .ret (.inr (status, none))
    else do
      match ← Prog.perform (.master address (.create path mode uid gid)) with
      | .ok oid => return .inr (status, some oid)
      | .error e => return .inl (backoff - 1, e.status)

/-- The last status and what is written to `*id`. -/
def createLoop (address : NodeAddress) (path : Str) (mode uid gid : BitVec 64) :
    ClientM (Status × Option ObjectId) :=
  .loop (createTurn address path mode uid gid) (kNumBackOffs, .OK)

/-- A rollback that succeeds returns a success. -/
def create (c : VSFSRpcClient) (path : Str) (mode uid gid : BitVec 64) :
    ClientM (Status × Option ObjectId) :=
  if !c.isInitialized then .ret (notInitialized, none)
  else
    match c.masterMap.get (PathHash.pathToHash path) with
    | (status, none) => .ret (status, none)
    | (_, some fileNode) => do
      let mode := mode ||| S_IFREG.setWidth 64
      let (status, oid) ← createLoop fileNode.address path mode uid gid
      if !status.ok then return (status, oid)
      let status ← c.addSubfile path
      if !status.ok then
        match ← Prog.perform (.master fileNode.address (.remove path)) with
        | .ok _ => return (.OK, oid)
        | .error e => return (e.status, oid)
      return (.OK, oid)

/-- A refusal is not caught. -/
def open_ (c : VSFSRpcClient) (path : Str) : ClientM (Status × Option ObjectId) :=
  match c.masterMap.get (PathHash.pathToHash path) with
  | (status, none) => .ret (status, none)
  | (_, some node) => do
    match ← Prog.perform (.master node.address (.objectId path)) with
    | .ok oid => return (.OK, some oid)
    | .error (.invalidOp ouch) => .throw (.thrown (.invalidOp ouch))
    | .error (.transport type what) => return (⟨type, what⟩, none)

def unlink (c : VSFSRpcClient) (path : Str) : ClientM (Status × Option ObjectId) := do
  let status ← c.removeSubfile path
  if !status.ok then return (status, none)
  let node ← checkGet "master_map_.get(path, &node).ok()" (c.masterMap.getByPath path)
  match ← Prog.perform (.master node.address (.remove path)) with
  | .ok oid => return (.OK, some oid)
  | .error e => return (e.status, none)

/-- The rollback only catches transport exceptions. -/
def mkdir (c : VSFSRpcClient) (path : Str) (mode uid gid : BitVec 64) : ClientM Status :=
  if !c.isInitialized then .ret notInitialized
  else
    match c.masterMap.get (PathHash.pathToHash path) with
    | (status, none) => .ret status
    | (_, some node) => do
      let dirInfo : RpcFileInfo :=
        { mode := some (mode ||| S_IFDIR.setWidth 64), uid := some uid, gid := some gid }
      match ← Prog.perform (.master node.address (.mkdir path dirInfo)) with
      | .error e => return e.status
      | .ok _ =>
        let status ← c.addSubfile path
        if !status.ok then
          match ← Prog.perform (.master node.address (.remove path)) with
          | .ok _ => return .OK
          | .error (.invalidOp ouch) => .throw (.thrown (.invalidOp ouch))
          | .error (.transport type what) => return ⟨type, what⟩
        return .OK

def rmdir (c : VSFSRpcClient) (path : Str) : ClientM Status :=
  if !c.isInitialized then .ret notInitialized
  else
    match c.masterMap.get (PathHash.pathToHash path) with
    | (status, none) => .ret status
    | (_, some node) => do
      match ← Prog.perform (.master node.address (.rmdir path)) with
      | .error e => return e.status
      | .ok _ => c.removeSubfile path

def readdir (c : VSFSRpcClient) (dirpath : Str) : ClientM (Status × List Str) := do
  let node ← checkGet "master_map_.get(hash, &node).ok()"
    (c.masterMap.get (PathHash.pathToHash dirpath))
  match ← Prog.perform (.master node.address (.readdir dirpath)) with
  | .ok files => return (.OK, files)
  | .error e => return (e.status, [])

/-- An attribute that the server does not send stays unset. -/
def getattr (c : VSFSRpcClient) (path : Str) : ClientM (Status × RpcFileInfo) := do
  let node ← checkGet "master_map_.get(path, &node).ok()" (c.masterMap.getByPath path)
  match ← Prog.perform (.master node.address (.getattr path)) with
  | .ok info => return (.OK, info)
  | .error e => return (e.status, {})

/-- The fields of `struct stat` that the client fills. -/
structure Stat where
  mode : BitVec 32
  size : BitVec 64
  uid : BitVec 32
  gid : BitVec 32
  atime : BitVec 64
  ctime : BitVec 64
  mtime : BitVec 64

def getattrStat (c : VSFSRpcClient) (path : Str) : ClientM (Status × Option Stat) := do
  let (status, fileInfo) ← c.getattr path
  if !status.ok then return (status, none)
  return (.OK, some
    { mode := (fileInfo.mode.getD 0).setWidth 32
      size := fileInfo.size.getD 0
      uid := (fileInfo.uid.getD 0).setWidth 32
      gid := (fileInfo.gid.getD 0).setWidth 32
      atime := fileInfo.atime.getD 0
      ctime := fileInfo.ctime.getD 0
      mtime := fileInfo.mtime.getD 0 })

/-! ## Indices -/

/-- One turn of the loop of `remove_index` over the partitions; `unlink` may fail. -/
def removePartition (c : VSFSRpcClient) (root name fullIndexPath : Str) (status : Status)
    (part : Str) : ClientM Status := do
  let partitionPath := FsPath.join fullIndexPath part
  let _ ← c.unlink partitionPath
  let node ← checkGet "index_server_map_.get(hash, &node).ok()"
    (c.indexServerMap.get (PathHash.pathToHash partitionPath))
  match ← Prog.perform (.index node.address (.removeIndex root name)) with
  | .ok _ => return status
  | .error e => return e.status

def removeIndex (c : VSFSRpcClient) (root name : Str) : ClientM Status := do
  let fullIndexPath := PathUtil.indexPath root name
  let (status, partitions) ← c.readdir fullIndexPath
  if !status.ok then return status
  partitions.foldlM (c.removePartition root name fullIndexPath) status

/-- The part of `create_index` from the registration at the master on. A registration that
fails is rolled back and then carried on with, and whatever follows, the call succeeds. -/
def registerIndex (c : VSFSRpcClient) (request : IndexCreateRequest) : ClientM Status := do
  let root := request.root
  let name := request.name
  let masterServer ← checkGet "master_map_.get(hash, &master_server).ok()"
    (c.masterMap.get (PathHash.pathToHash (PathUtil.indexPath root name)))
  let registered ← Prog.perform (.master masterServer.address (.createIndex request))
  let status := match registered with
    | .ok _ => Status.OK
    | .error e => e.status
  if !status.ok then
    let _ ← c.removeIndex root name
  let (status, _) ← c.create (PathUtil.partitionPath root name 0) 0o755#64 request.uid
    request.gid
  if !status.ok then
    let _ ← c.rmdir (PathUtil.indexPath root name)
    let _ ← c.removeIndex root name
  return .OK

def createIndex (c : VSFSRpcClient) (root name : Str) (indexType keyType : BitVec 32)
    (mode uid gid : BitVec 64) : ClientM Status := do
  let (status, stbuf) ← c.getattrStat root
  match stbuf with
  | none => return status
  | some stbuf =>
    if ¬ S_ISDIR stbuf.mode then return .systemError ENOTDIR
    let partitionPath := PathUtil.partitionPath root name 0
    let request : IndexCreateRequest :=
      { root := partitionPath, name, indexType, keyType, mode, uid, gid }
    let indexServer ← checkGet "status.ok()"
      (c.indexServerMap.get (PathHash.pathToHash partitionPath))
    let created ← Prog.perform (.index indexServer.address (.createIndex request))
    let status := match created with
      | .ok _ => Status.OK
      | .error e => e.status
    if !status.ok then return status
    let status ← c.mkdir (root ++ "/.vsfs".toList) mode uid gid
    if !status.ok ∧ status.error ≠ -EEXIST then c.removeIndex root name
    else c.registerIndex { request with root, name }

end VSFSRpcClient

end Vsfs.Client

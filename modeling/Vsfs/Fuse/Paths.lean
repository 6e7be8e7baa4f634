import Vsfs.Client.Servers
import Vsfs.Common.ObjectStorage
import Vsfs.Fuse.OpenFiles
import Vsfs.Fuse.VsfsOps

/-!
# Requests on paths

A file of a mount is a record at a master and something in the storage. The functions that take
a path speak to the masters first, through the client of the mount, and then to the storage
manager, with the object id that they were told. What `vsfs_open` and `vsfs_create` do with the
descriptor is in `OpenFiles`.

Any number of mounts, on one storage, handle any number of requests side by side. A step is one RPC
or one operation of the storage; an RPC may get lost, before it is executed or after.
-/

namespace Vsfs.Fuse.Paths

open Std Program FileTree Client Masterd Indexd Index

inductive Call : Type → Type 1 where
  | rpc {β : Type} (request : Rpc β) : Call β
  | storage (request : StorageRequest) : Call StorageAnswer

abbrev MountM := Prog Call RpcError Exit

def client {α : Type} (p : ClientM α) : MountM α := p.mapCalls .rpc

def storage (request : StorageRequest) : MountM StorageAnswer :=
  .call (.storage request) fun answer =>
    match answer with
    | .ok a => .ret a
    | .error e => .throw (.thrown e)

/-- An object id that is read after it was written. -/
def written (oid : Option ObjectId) : MountM ObjectId :=
  match oid with
  | some oid => .ret oid
  | none => .throw (.crash (.undefined "oid"))

/-- The user and the group are those of the process. -/
structure Mount where
  client : VSFSRpcClient
  mountPoint : Str
  uid : BitVec 32
  gid : BitVec 32

structure FuseContext where
  uid : BitVec 32
  gid : BitVec 32
  umask : BitVec 32

/-- What is returned, with the object that the function was told of and the file that the handle is
open on. -/
structure Result where
  code : Int
  object : Option ObjectId := none
  ino : Option Nat := none
  deriving DecidableEq, Repr

section Operations

variable [FsPath] [PathHash] [ConsistentHashMap] (m : Mount)

/-! ## Changes -/

def vsfsMkdir (context : FuseContext) (path : Str) (mode : BitVec 32) : MountM Result := do
  let status ← client (m.client.mkdir path (mode.setWidth 64) (context.uid.setWidth 64)
    (context.gid.setWidth 64))
  if !status.ok then return { code := status.error }
  let (status, _) ← storage (.mkdir path mode)
  return { code := status.error }

/-- The storage hears of the file when it is opened. -/
def vsfsMknod (path : Str) (mode : BitVec 32) : MountM Result := do
  let (status, oid) ← client (m.client.create path (mode.setWidth 64) (m.uid.setWidth 64)
    (m.gid.setWidth 64))
  if !status.ok then return { code := status.error }
  return { code := 0, object := oid }

def vsfsRmdir (path : Str) : MountM Result := do
  let status ← client (m.client.rmdir path)
  if !status.ok then return { code := status.error }
  let (status, _) ← storage (.rmdir path)
  return { code := status.error }

def openedIno : Reply (BitVec 8) → Option Nat
  | .opened ino => ino
  | _ => none

def vsfsCreate (path : Str) (mode flags : BitVec 32) : MountM Result := do
  let (status, oid) ← client (m.client.create path (mode.setWidth 64) (m.uid.setWidth 64)
    (m.gid.setWidth 64))
  if !status.ok then return { code := status.error }
  let oid ← written oid
  let (status, reply) ← storage (.openMode path oid (flags ||| OpenFiles.O_CREAT) mode)
  if !status.ok then return { code := status.error, object := some oid }
  return { code := 0, object := some oid, ino := openedIno reply }

def vsfsOpen (path : Str) (flags : BitVec 32) : MountM Result := do
  let (status, oid) ← client (m.client.open_ path)
  if !status.ok then return { code := status.error }
  let oid ← written oid
  let (status, reply) ← storage (.open_ path oid flags)
  if !status.ok then return { code := status.error, object := some oid }
  return { code := 0, object := some oid, ino := openedIno reply }

def vsfsUnlink (path : Str) : MountM Result := do
  let (status, objId) ← client (m.client.unlink path)
  if !status.ok then return { code := status.error }
  let objId ← written objId
  let (status, _) ← storage (.unlink path objId)
  return { code := status.error, object := some objId }

/-- `0666 && umask` is a truth value. -/
def vsfsSymlink (context : FuseContext) (fpath linkPath : Str) : MountM Result := do
  let mode : BitVec 32 := (if context.umask = 0 then 0 else 1) ||| S_IFLNK
  let (status, oid) ← client (m.client.create linkPath (mode.setWidth 64)
    (context.uid.setWidth 64) (context.gid.setWidth 64))
  if !status.ok then return { code := status.error }
  let oid ← written oid
  let (status, _) ← storage (.symlink fpath linkPath oid)
  if !status.ok then return { code := status.error, object := some oid }
  return { code := 0, object := some oid }

/-! ## Looks -/

def S_ISLNK (mode : BitVec 32) : Prop := mode &&& S_IFMT = S_IFLNK

instance (mode : BitVec 32) : Decidable (S_ISLNK mode) := inferInstanceAs (Decidable (_ = _))

/-- `struct stat` with the fields that both sides fill; the storage also gives the inode. -/
structure FileStat extends VSFSRpcClient.Stat where
  ino : Option Nat := none

/-- `fuse` clears the structure first. -/
def FileStat.zero : FileStat :=
  { mode := 0, size := 0, uid := 0, gid := 0, atime := 0, ctime := 0, mtime := 0 }

/-- The size of a file is that of its object, the other attributes are those of its record. -/
def vsfsGetattr (path : Str) : MountM (Int × FileStat) := do
  let vsp ← client (parsing (PosixPath.ofPath path))
  if vsp.isQuery then return (0, { FileStat.zero with mode := S_IFDIR })
  else if vsp.isResult then
    return (0, { FileStat.zero with mode := S_IFLNK, size := BitVec.ofNat 64 vsp.result.length })
  else
    let (status, fileInfo) ← client (m.client.getattr path)
    if !status.ok then return (status.error, .zero)
    let stbuf : FileStat := { FileStat.zero with
      uid := (fileInfo.uid.getD 0).setWidth 32
      gid := (fileInfo.gid.getD 0).setWidth 32
      mode := (fileInfo.mode.getD 0).setWidth 32
      atime := fileInfo.atime.getD 0
      ctime := fileInfo.ctime.getD 0
      mtime := fileInfo.mtime.getD 0 }
    if S_ISDIR stbuf.mode ∨ S_ISLNK stbuf.mode then
      return (0, { stbuf with size := fileInfo.size.getD 0 })
    let (status, reply) ← storage (.getattr path (fileInfo.objectId.getD 0))
    if !status.ok then return (status.error, stbuf)
    match reply with
    | .attributes ino size => return (0, { stbuf with size := BitVec.ofNat 64 size, ino })
    | _ => return (0, stbuf)

/-- What the storage writes into the buffer, which it does not end. -/
def fill (buf : List Char) : Reply (BitVec 8) → List Char
  | .text target => target ++ buf.drop target.length
  | _ => buf

/-- `vsfs_readlink`, with the storage behind it. -/
def vsfsReadlinkStored (path : Str) (buf : List Char) : MountM (Int × List Char) := do
  let vsp ← client (parsing (PosixPath.ofPath path))
  if vsp.isQuery then return (0, buf)
  else if vsp.isResult then
    let mntPath := FsPath.join m.mountPoint (linkedFile vsp.result)
    let buf ← client (store (strncpy buf mntPath) mntPath.length '\x00')
    return (0, buf)
  else
    let (status, oid) ← client (objectId m.client path)
    if !status.ok then return (status.error, buf)
    let oid ← written oid
    let (status, reply) ← storage (.readlink path oid buf.length)
    if !status.ok then return (status.error, buf)
    return (0, fill buf reply)

end Operations

/-! ## Side by side -/

inductive Request where
  | create (path : Str) (mode flags : BitVec 32)
  | mknod (path : Str) (mode : BitVec 32)
  | open (path : Str) (flags : BitVec 32)
  | unlink (path : Str)
  | mkdir (context : FuseContext) (path : Str) (mode : BitVec 32)
  | rmdir (path : Str)
  | symlink (context : FuseContext) (fpath linkPath : Str)
  | getattr (path : Str)
  | readlink (path : Str) (buf : List Char)
  /-- Another request of a mount or a program of another client. -/
  | other (n : Nat)

/-- A request, for one of the mounts. -/
abbrev Job := Mount × Request

def handle [FsPath] [PathHash] [ConsistentHashMap] (others : Nat → MountM Result) :
    Job → MountM Result
  | (m, .create path mode flags) => vsfsCreate m path mode flags
  | (m, .mknod path mode) => vsfsMknod m path mode
  | (m, .open path flags) => vsfsOpen m path flags
  | (m, .unlink path) => vsfsUnlink m path
  | (m, .mkdir context path mode) => vsfsMkdir m context path mode
  | (m, .rmdir path) => vsfsRmdir m path
  | (m, .symlink context fpath linkPath) => vsfsSymlink m context fpath linkPath
  | (m, .getattr path) => do
    let (code, stbuf) ← vsfsGetattr m path
    return { code, ino := stbuf.ino }
  | (m, .readlink path buf) => do
    let (code, _) ← vsfsReadlinkStored m path buf
    return { code }
  | (_, .other n) => others n

/-- All that the mounts share. -/
structure Site (K : Type) [LinearOrder K] where
  servers : Servers K
  files : Tree Path (BitVec 8)

/-- How an RPC fares: it is executed and answered, or the answer or the RPC itself gets lost. -/
inductive Delivery where
  | answered
  | unanswered (type : Int) (what : String)
  | undelivered (type : Int) (what : String)
  deriving DecidableEq, Repr

/-- What a call comes to that follows a link to wherever it leads: the answer, and a file of the
storage that the call has emptied. -/
structure Followed where
  answer : StorageAnswer := (.systemError ENOENT, .done)
  emptied : Option Nat := none

def Followed.files (f : Followed) (t : Tree Path (BitVec 8)) : Tree Path (BitVec 8) :=
  match f.emptied with
  | none => t
  | some ino => t.fill ino []

structure Input where
  now : Double := 0
  lastMergedLogId : TxnId := 0
  delivery : Delivery := .answered
  fault : Option ErrorNumber := none
  followed : Followed := {}

/-- A server is down, or the local file system would make or remove something behind a link. -/
inductive Halt where
  | crash (crash : Crash)
  | follows (follows : Follows)
  deriving DecidableEq, Repr

section Serving

variable {K : Type} [LinearOrder K] [KeyTypes K] [FsPath] [PathHash] [ThriftSerialize FileMetadata]
  [ThriftSerialize IndexNamespaceNode] (sm : StorageManager) (cwd : Path)

def Site.rpc {β : Type} (s : Site K) (input : Input) (request : Rpc β) :
    Except Halt (Except RpcInvalidOp β × Site K) :=
  match s.servers.serve input.now input.lastMergedLogId request with
  | .error crash => .error (.crash crash)
  | .ok (answer, servers) => .ok (answer, { s with servers })

def Site.serve : Serve Call RpcError Input Halt (Site K)
  | _, input, .rpc request, s =>
    match input.delivery with
    | .answered => (s.rpc input request).map fun (answer, s) => (answer.mapError .invalidOp, s)
    | .unanswered type what =>
      (s.rpc input request).map fun (_, s) => (.error (.transport type what), s)
    | .undelivered type what => .ok (.error (.transport type what), s)
  | _, input, .storage request, s =>
    match sm.perform cwd s.files (request, input.fault) with
    | .ok (answer, files) => .ok (.ok answer, { s with files })
    | .error follows =>
      if request.Looks then
        .ok (.ok input.followed.answer, { s with files := input.followed.files s.files })
      else .error (.follows follows)

end Serving

end Vsfs.Fuse.Paths

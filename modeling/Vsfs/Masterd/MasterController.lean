import Vsfs.Masterd.IndexNamespace
import Vsfs.Masterd.Namespace
import Vsfs.Masterd.PartitionManager

/-!
# A master

`MasterController` and the handlers of `MasterServer`: the namespace of files, the
namespace of indices and the partitions of a master behind its RPC interface. A handler
throws the status of a request that is not a success.
-/

namespace Vsfs.Masterd

open Std

structure IndexCreateRequest where
  root : Str
  name : Str
  indexType : BitVec 32
  keyType : BitVec 32
  mode : BitVec 64
  uid : BitVec 64
  gid : BitVec 64
  deriving DecidableEq, Repr

structure MasterController where
  indexNamespace : IndexNamespace := {}
  indexPartitionManager : PartitionManager := {}
  «namespace» : Namespace

namespace MasterController

variable [FsPath]

def isValidPath (path : Str) : Bool := FsPath.isAbsolute path

def notAbsolute : Status := ⟨-1, "The path must be absolute path."⟩

section Operations

variable [PathHash] [ThriftSerialize FileMetadata] [ThriftSerialize IndexNamespaceNode]

def mkdir (mc : MasterController) (io : Status) (now : Double) (path : Str)
    (mode uid gid : BitVec 32) : Status × MasterController :=
  if !isValidPath path then (notAbsolute, mc)
  else
    let (status, ns) := mc.namespace.mkdir io now path mode uid gid
    (status, { mc with «namespace» := ns })

def rmdir (mc : MasterController) (io : Status) (path : Str) : Status × MasterController :=
  let (status, ns) := mc.namespace.rmdir io path
  (status, { mc with «namespace» := ns })

def addSubfile (mc : MasterController) (io : Status) (parent subfile : Str) :
    Status × MasterController :=
  if !isValidPath parent then (notAbsolute, mc)
  else
    let (status, ns) := mc.namespace.addSubfile io parent subfile
    (status, { mc with «namespace» := ns })

def removeSubfile (mc : MasterController) (io : Status) (parent subfile : Str) :
    Status × MasterController :=
  let (status, ns) := mc.namespace.removeSubfile io parent subfile
  (status, { mc with «namespace» := ns })

def readdir (mc : MasterController) (path : Str) : Status × Option (List Str) :=
  if !isValidPath path then (notAbsolute, none)
  else mc.namespace.readdir path

def create (mc : MasterController) (io : Status) (now : Double) (path : Str)
    (mode uid gid : BitVec 32) : Cpp (Status × Option ObjectId × MasterController) :=
  if !isValidPath path then .ok (notAbsolute, none, mc)
  else do
    let (status, oid, ns) ← mc.namespace.create io now path mode uid gid
    return (status, oid, { mc with «namespace» := ns })

/-- No check of the path: "the invalidate path does not exist in the namespace as well". -/
def remove (mc : MasterController) (io : Status) (path : Str) :
    Cpp (Status × Option ObjectId × MasterController) := do
  let (status, oid, ns) ← mc.namespace.remove io path
  return (status, oid, { mc with «namespace» := ns })

def setattr (mc : MasterController) (io : Status) (path : Str) (info : RpcFileInfo) :
    Status × MasterController :=
  let (status, ns) := mc.namespace.setattr io path info
  (status, { mc with «namespace» := ns })

/-- The three writes are those of `insert`, of `mkdir` and of the `remove` that undoes the
first. -/
def createIndex (mc : MasterController) (io₁ io₂ io₃ : Status) (now : Double)
    (request : IndexCreateRequest) : Cpp (Status × MasterController) := do
  let (status, idx) ← mc.indexNamespace.insert io₁ request.root request.name
  let mc := { mc with indexNamespace := idx }
  if !status.ok then
    return (status, mc)
  let fullPath := PathUtil.indexPath request.root request.name
  let (status, ns) := mc.namespace.mkdir io₂ now fullPath (request.mode.setWidth 32)
    (request.uid.setWidth 32) (request.gid.setWidth 32)
  let mc := { mc with «namespace» := ns }
  if !status.ok then
    let (_, idx) ← mc.indexNamespace.remove io₃ request.root request.name
    return (status, { mc with indexNamespace := idx })
  return (status, mc)

/-- The partitions are removed even when the index was not registered. -/
def removeIndex (mc : MasterController) (io₁ io₂ : Status) (root name : Str) :
    Cpp (Status × MasterController) := do
  let (status, idx) ← mc.indexNamespace.remove io₁ root name
  let fullPath := PathUtil.indexPath root name
  let (_, pm) := mc.indexPartitionManager.removeIndex io₂ fullPath
  return (status, { mc with indexNamespace := idx, indexPartitionManager := pm })

def locateIndicesForSearch (mc : MasterController) (root : Str) (names : List Str) : List Str :=
  names.flatMap (fun name => (mc.indexNamespace.collect root name).map
    (fun idxRoot => FsPath.join (FsPath.join idxRoot ".vsfs".toList) name))

end Operations

end MasterController

/-! ## The interface -/

/-- The requests of the `MasterServer` service about files and indices, with the type of
their answers. -/
inductive MasterRpc : Type → Type where
  | mkdir (path : Str) (info : RpcFileInfo) : MasterRpc Unit
  | rmdir (path : Str) : MasterRpc Unit
  | readdir (path : Str) : MasterRpc (List Str)
  | addSubfile (parent subfile : Str) : MasterRpc Unit
  | removeSubfile (parent subfile : Str) : MasterRpc Unit
  | create (path : Str) (mode uid gid : BitVec 64) : MasterRpc ObjectId
  | objectId (path : Str) : MasterRpc ObjectId
  | findObjects (files : List Str) : MasterRpc (List ObjectId)
  | remove (path : Str) : MasterRpc ObjectId
  | getattr (path : Str) : MasterRpc RpcFileInfo
  | setattr (path : Str) (info : RpcFileInfo) : MasterRpc Unit
  | findFiles (objects : List ObjectId) : MasterRpc (List Str)
  | createIndex (index : IndexCreateRequest) : MasterRpc Unit
  | removeIndex (root name : Str) : MasterRpc Unit
  | locateIndicesForSearch (root : Str) (names : List Str) : MasterRpc (List Str)
  | locateIndices (path : Str) (recursive : Bool) : MasterRpc (List Str)

namespace MasterServer

variable [FsPath] [PathHash] [ThriftSerialize FileMetadata] [ThriftSerialize IndexNamespaceNode]

/-- The handler of a request on a master whose store does not fail, at time `now`. An
attribute that is not set reads as zero, as does an id that was not written. -/
def handle (mc : MasterController) (now : Double) {α : Type} :
    MasterRpc α → Cpp (Except RpcInvalidOp α × MasterController)
  | .mkdir path info =>
    let (status, mc) := mc.mkdir .OK now path ((info.mode.getD 0).setWidth 32)
      ((info.uid.getD 0).setWidth 32) ((info.gid.getD 0).setWidth 32)
    .ok (checkStatus status (), mc)
  | .rmdir path =>
    let (status, mc) := mc.rmdir .OK path
    .ok (checkStatus status (), mc)
  | .readdir path =>
    let (status, subfiles) := mc.readdir path
    .ok (checkStatus status (subfiles.getD []), mc)
  | .addSubfile parent subfile =>
    let (status, mc) := mc.addSubfile .OK parent subfile
    .ok (checkStatus status (), mc)
  | .removeSubfile parent subfile =>
    let (status, mc) := mc.removeSubfile .OK parent subfile
    .ok (checkStatus status (), mc)
  | .create path mode uid gid => do
    let (status, oid, mc) ← mc.create .OK now path (mode.setWidth 32) (uid.setWidth 32)
      (gid.setWidth 32)
    return (checkStatus status (oid.getD 0), mc)
  | .objectId path =>
    let (status, oid) := mc.namespace.objectId path
    .ok (checkStatus status (oid.getD 0), mc)
  | .findObjects files => .ok (.ok (mc.namespace.findObjects files), mc)
  | .remove path => do
    let (status, oid, mc) ← mc.remove .OK path
    return (checkStatus status (oid.getD 0), mc)
  | .getattr path =>
    let (status, info) := mc.namespace.getattr path
    .ok (checkStatus status (info.getD {}), mc)
  | .setattr path info =>
    let (status, mc) := mc.setattr .OK path info
    .ok (checkStatus status (), mc)
  | .findFiles objects => .ok (.ok (mc.namespace.findFiles objects), mc)
  | .createIndex index => do
    let (status, mc) ← mc.createIndex .OK .OK .OK now index
    return (checkStatus status (), mc)
  | .removeIndex root name => do
    let (status, mc) ← mc.removeIndex .OK .OK root name
    return (checkStatus status (), mc)
  | .locateIndicesForSearch root names => .ok (.ok (mc.locateIndicesForSearch root names), mc)
  | .locateIndices path recursive => .ok (.ok (mc.indexNamespace.getIndices path recursive), mc)

end MasterServer

end Vsfs.Masterd

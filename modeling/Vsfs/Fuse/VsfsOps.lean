import Vsfs.Client.Search
import Vsfs.Common.PosixPath

/-!
# The file system in user space

`vsfs_readdir` and `vsfs_readlink`. A directory whose name is a query lists the files that are
found, each as a symbolic link whose name is the path of the file with `#` for `/`; following
the link turns the name into a path again.
-/

namespace Vsfs.Fuse

open Program Client VSFSRpcClient ComplexQuery

/-- What a C function reads of a string: the text up to the first NUL. -/
def cStr (s : Str) : Str := s.takeWhile (· ≠ '\x00')

/-- `strncpy(buf, s, size)` of a C string, for a buffer of `size` characters: it is filled up
with NULs, or has none. -/
def strncpy (buf : List Char) (s : Str) : List Char :=
  (cStr s ++ List.replicate buf.length '\x00').take buf.length

/-- `buf[i] = c`. -/
def store (buf : List Char) (i : Nat) (c : Char) : ClientM (List Char) :=
  if i < buf.length then .ret (buf.set i c) else .throw (.crash (.undefined "buf[mnt_path.size()]"))

/-- A call of the parser of queries: its exceptions are not caught. -/
def parsing {α : Type} : Parses α → ClientM α
  | .ok a => .ret a
  | .error (.check condition) => .throw (.crash (.check condition))
  | .error .badLexicalCast => .throw (.stdException "bad lexical cast")
  | .error .outOfRange => .throw (.stdException "basic_string::substr")

/-- An entry that `filler` puts into a listing. -/
structure DirEntry where
  name : Str
  stbuf : Option Stat := none

/-- `readlink` of the storage manager gets the buffer and hands back its status and what the
buffer holds then. -/
structure VsfsFuse where
  mountPoint : Str
  client : VSFSRpcClient
  storageReadlink : Str → ObjectId → List Char → Status × List Char

def S_IFLNK : BitVec 32 := 0o120000

/-- The name of the link to a file. -/
def linkName (file : Str) : Str := file.map fun c => if c = '/' then '#' else c

/-- The file that the name of a link stands for. -/
def linkedFile (resultFile : Str) : Str := resultFile.map fun c => if c = '#' then '/' else c

section Operations

variable [FsPath] [PathHash] [ConsistentHashMap]

def VsfsFuse.mntPath (vsfs : VsfsFuse) (vsfsPath : Str) : Str :=
  FsPath.join vsfs.mountPoint vsfsPath

/-! ## Listing -/

/-- The loop of `vsfs_readdir` over the files that were found. -/
def fillResults (vsfs : VsfsFuse) (buf : List DirEntry) : List Str → ClientM (Int × List DirEntry)
  | [] => .ret (0, buf)
  | file :: resultFiles => do
    let (status, stbuf) ← vsfs.client.getattrStat file
    if !status.ok then return (status.error, buf)
    let stbuf := stbuf.map fun st => { st with mode := st.mode ||| S_IFLNK }
    fillResults vsfs (buf ++ [⟨cStr (linkName file), stbuf⟩]) resultFiles

/-- The entries every listing begins with. -/
def dots : List DirEntry := [⟨".".toList, none⟩, ⟨"..".toList, none⟩]

/-- The status of parsing the query is dropped. -/
def vsfsReaddir (vsfs : VsfsFuse) (now : Nat) (path : Str) : ClientM (Int × List DirEntry) := do
  let vsp ← parsing (PosixPath.ofPath path)
  if vsp.isQuery then
    let (_, complexQuery) ← parsing (parse now {} path)
    let (status, resultFiles) ← vsfs.client.search complexQuery
    if !status.ok then return (status.error, dots)
    fillResults vsfs dots resultFiles
  else
    let (status, subfiles) ← vsfs.client.readdir path
    if !status.ok then return (status.error, dots)
    return (0, dots ++ subfiles.map fun subfile => ⟨cStr subfile, none⟩)

/-! ## Following a link -/

def objectId (c : VSFSRpcClient) (path : Str) : ClientM (Status × Option ObjectId) := do
  let node ← checkGet "master_map_.get(path, &node).ok()" (c.masterMap.getByPath path)
  match ← Prog.perform (.master node.address (.objectId path)) with
  | .ok oid => return (.OK, some oid)
  | .error e => return (e.status, none)

/-- What is returned, and the buffer of `size` characters afterwards. The object id is not set
when an exception has the code zero. -/
def vsfsReadlink (vsfs : VsfsFuse) (path : Str) (buf : List Char) : ClientM (Int × List Char) := do
  let vsp ← parsing (PosixPath.ofPath path)
  if vsp.isQuery then return (0, buf)
  else if vsp.isResult then
    let mntPath := vsfs.mntPath (linkedFile vsp.result)
    let buf ← store (strncpy buf mntPath) mntPath.length '\x00'
    return (0, buf)
  else
    let (status, oid) ← objectId vsfs.client path
    if !status.ok then return (status.error, buf)
    match oid with
    | none => .throw (.crash (.undefined "object_id"))
    | some oid =>
      let (status, buf) := vsfs.storageReadlink path oid buf
      return (if !status.ok then status.error else 0, buf)

end Operations

end Vsfs.Fuse

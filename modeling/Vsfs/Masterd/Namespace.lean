import Mathlib.Data.BitVec
import Mathlib.Tactic.Common
import Vsfs.Common.LevelDBStore
import Vsfs.Common.Path

/-!
# The namespace of a master

`Namespace` of `vsfs/masterd`: the metadata of files and directories, the listing of every
directory and a reverse map from object ids to paths, each mirrored in a key value store
under the keys `/path` and `dir:/path`. Every operation that writes to the store takes the
status of that write; `now` is the reading of the clock.
-/

namespace Vsfs.Masterd

open Std

/-! ## Records -/

/-- The record stored for a path. -/
structure FileMetadata where
  objectId : ObjectId := 0
  mode : BitVec 32 := 0
  gid : BitVec 32 := 0
  uid : BitVec 32 := 0
  size : BitVec 64 := 0
  atime : Double := 0
  ctime : Double := 0
  mtime : Double := 0
  deriving DecidableEq, Repr

/-- The attributes on the wire, each present or not. -/
structure RpcFileInfo where
  objectId : Option (BitVec 64) := none
  uid : Option (BitVec 64) := none
  gid : Option (BitVec 64) := none
  mode : Option (BitVec 64) := none
  size : Option (BitVec 64) := none
  ctime : Option (BitVec 64) := none
  mtime : Option (BitVec 64) := none
  atime : Option (BitVec 64) := none
  deriving DecidableEq, Repr

def S_IFMT : BitVec 32 := 0o170000#32
def S_IFDIR : BitVec 32 := 0o040000#32
def S_IFREG : BitVec 32 := 0o100000#32

def S_ISDIR (mode : BitVec 32) : Prop := mode &&& S_IFMT = S_IFDIR

instance (mode : BitVec 32) : Decidable (S_ISDIR mode) := inferInstanceAs (Decidable (_ = _))

/-- A regular file stays one whatever bits the mode of its creation carries. -/
theorem not_isDir_regular (mode : BitVec 32) : ¬ S_ISDIR (mode ||| S_IFREG) := by
  intro h
  have bit := congrArg (fun m => m.getLsbD 15) h
  simp [S_IFREG, S_IFMT, S_IFDIR] at bit

/-- A directory is one as long as its mode brings no other file type along. -/
theorem isDir_directory {mode : BitVec 32}
    (h : mode &&& S_IFMT = 0 ∨ mode &&& S_IFMT = S_IFDIR) : S_ISDIR (mode ||| S_IFDIR) := by
  have split : (mode ||| S_IFDIR) &&& S_IFMT = (mode &&& S_IFMT) ||| S_IFDIR := by
    rw [BitVec.and_comm, BitVec.and_or_distrib_left, BitVec.and_comm _ mode]
    rfl
  unfold S_ISDIR
  rcases h with h | h <;> rw [split, h] <;> rfl

structure Directory where
  subfiles : ExtTreeSet Str := ∅

@[ext] theorem Directory.ext {a b : Directory} (h : a.subfiles = b.subfiles) : a = b := by
  cases a
  cases b
  exact congrArg _ h

structure Namespace where
  store : LevelDBStore := ∅
  directories : ExtTreeMap Str Directory := ∅
  metadataMap : ExtTreeMap Str FileMetadata := ∅
  idToPathMap : ExtTreeMap ObjectId Str := ∅
  /-- Nothing initialises it. -/
  nextObjId : ObjectId

/-! ## Object ids -/

/-- The first 16 bits of the hash and the last 48 bits of the counter. -/
def objectIdOf (hashValue counter : BitVec 64) : ObjectId :=
  let kPrefixLen := 16
  (hashValue &&& (((1#64 <<< kPrefixLen) - 1) <<< (64 - kPrefixLen))) |||
    (counter &&& ((1#64 <<< (64 - kPrefixLen)) - 1))

/-- The part of an object id that comes from the hash of the path. -/
def hashPart (x : BitVec 64) : BitVec 16 := x.extractLsb' 48 16

/-- The part of an object id that comes from the counter. -/
def counterPart (x : BitVec 64) : BitVec 48 := x.setWidth 48

@[simp] theorem hashPart_objectIdOf (h c : BitVec 64) : hashPart (objectIdOf h c) = hashPart h := by
  have ones : BitVec.extractLsb' 48 16 ((1#64 <<< 16 - 1) <<< (64 - 16)) = BitVec.allOnes 16 := by
    decide
  have zero : BitVec.extractLsb' 48 16 (1#64 <<< (64 - 16) - 1) = 0#16 := by decide
  simp only [hashPart, objectIdOf, BitVec.extractLsb'_or, BitVec.extractLsb'_and, ones, zero,
    BitVec.and_allOnes, BitVec.and_zero, BitVec.or_zero]

@[simp] theorem counterPart_objectIdOf (h c : BitVec 64) :
    counterPart (objectIdOf h c) = counterPart c := by
  have zero : BitVec.setWidth 48 ((1#64 <<< 16 - 1) <<< (64 - 16)) = 0#48 := by decide
  have ones : BitVec.setWidth 48 (1#64 <<< (64 - 16) - 1) = BitVec.allOnes 48 := by decide
  simp only [counterPart, objectIdOf, BitVec.setWidth_or, BitVec.setWidth_and, ones, zero,
    BitVec.and_allOnes, BitVec.and_zero, BitVec.zero_or]

/-- The two parts are all of an object id. -/
theorem eq_of_parts {x y : BitVec 64} (high : hashPart x = hashPart y)
    (low : counterPart x = counterPart y) : x = y := by
  apply BitVec.eq_of_getLsbD_eq
  intro i hi
  by_cases small : i < 48
  · have bit := congrArg (fun b => b.getLsbD i) low
    simpa [counterPart, small] using bit
  · have bit := congrArg (fun b => b.getLsbD (i - 48)) high
    have place : 48 + (i - 48) = i := by omega
    have inside : i - 48 < 16 := by omega
    simpa [hashPart, place, inside] using bit

/-- A counter gives different ids for fewer than `2 ^ 48` steps. -/
theorem counterPart_inj {c : BitVec 64} {i j : Nat}
    (h : counterPart (c + BitVec.ofNat 64 i) = counterPart (c + BitVec.ofNat 64 j))
    (hi : i < 2 ^ 48) (hj : j < 2 ^ 48) : i = j := by
  have sum := congrArg BitVec.toNat h
  simp only [counterPart, BitVec.toNat_setWidth, BitVec.toNat_add, BitVec.toNat_ofNat] at sum
  omega

namespace Namespace

/-! ## Operations -/

section Operations

variable [FsPath] [PathHash] [ThriftSerialize FileMetadata]

/-- A new process over an existing database. -/
def open_ (store : LevelDBStore) (nextObjId : ObjectId) : Namespace := { store, nextObjId }

/-- `PathUtil::path_to_hash` decides the first bits, the counter the rest. -/
def getObjectId (ns : Namespace) (path : Str) : ObjectId × Namespace :=
  (objectIdOf (PathHash.pathToHash path) ns.nextObjId, { ns with nextObjId := ns.nextObjId + 1 })

def storeMetadata (ns : Namespace) (io : Status) (path : Str) (metadata : FileMetadata) :
    Status × Namespace :=
  let (status, store) := ns.store.put io path (ThriftSerialize.serialize metadata)
  (status, { ns with store })

/-- `vobla::contain_key_and_value` on the reverse map. -/
def containIdAndPath (ns : Namespace) (oid : ObjectId) (path : Str) : Bool :=
  ns.idToPathMap[oid]? == some path

/-- Zero stands for a path that does not exist. -/
def findObjects (ns : Namespace) (paths : List Str) : List ObjectId :=
  paths.map (fun path => match ns.metadataMap[path]? with
    | none => 0
    | some metadata => metadata.objectId)

/-- The empty path stands for an object id that does not exist. -/
def findFiles (ns : Namespace) (objectIds : List ObjectId) : List Str :=
  objectIds.map (fun oid => (ns.idToPathMap[oid]?).getD [])

def objectId (ns : Namespace) (path : Str) : Status × Option ObjectId :=
  match ns.metadataMap[path]? with
  | none => (.systemError ENOENT, none)
  | some metadata => (.OK, some metadata.objectId)

def getattr (ns : Namespace) (path : Str) : Status × Option RpcFileInfo :=
  match ns.metadataMap[path]? with
  | none => (.systemError ENOENT, none)
  | some metadata => (.OK, some
      { objectId := some metadata.objectId
        uid := some (metadata.uid.signExtend 64)
        gid := some (metadata.gid.signExtend 64)
        mode := some (metadata.mode.signExtend 64)
        size := some metadata.size
        atime := some metadata.atime.toInt64
        ctime := some metadata.ctime.toInt64
        mtime := some metadata.mtime.toInt64 })

/-- The record after the attributes present in `info` have been assigned to it. -/
def FileMetadata.assign (metadata : FileMetadata) (info : RpcFileInfo) : FileMetadata :=
  { metadata with
    uid := (info.uid.map (·.setWidth 32)).getD metadata.uid
    gid := (info.gid.map (·.setWidth 32)).getD metadata.gid
    mode := (info.mode.map (·.setWidth 32)).getD metadata.mode
    size := info.size.getD metadata.size
    atime := (info.atime.map Double.ofInt64).getD metadata.atime
    mtime := (info.mtime.map Double.ofInt64).getD metadata.mtime
    ctime := (info.ctime.map Double.ofInt64).getD metadata.ctime }

def setattr (ns : Namespace) (io : Status) (path : Str) (info : RpcFileInfo) :
    Status × Namespace :=
  match ns.metadataMap[path]? with
  | none => (.systemError ENOENT, ns)
  | some old =>
    let metadata := FileMetadata.assign old info
    -- The record in memory is assigned to before the store is asked.
    let ns := { ns with metadataMap := ns.metadataMap.insert path metadata }
    ns.storeMetadata io path metadata

/-- The record of a new file. -/
def newFile (oid : ObjectId) (mode uid gid : BitVec 32) (now : Double) : FileMetadata :=
  { objectId := oid, mode := mode ||| S_IFREG, gid, uid, atime := now, ctime := now, mtime := now }

/-- The record of a new directory, which has no object. -/
def newDirectory (mode uid gid : BitVec 32) (now : Double) : FileMetadata :=
  { objectId := 0, mode := mode ||| S_IFDIR, gid, uid, atime := now, ctime := now, mtime := now }

/-- The second component is what the call writes to `*oid`. -/
def create (ns : Namespace) (io : Status) (now : Double) (path : Str) (mode uid gid : BitVec 32) :
    Cpp (Status × Option ObjectId × Namespace) :=
  if path ∈ ns.metadataMap then .ok (.systemError EEXIST, none, ns)
  else
    let (oid, ns) := ns.getObjectId path
    let metadata := newFile oid mode uid gid now
    let ns := { ns with metadataMap := ns.metadataMap.insert path metadata }
    if ns.containIdAndPath oid path then
      .error (.check "The object ID and path pair has already existed")
    else
      let ns := { ns with idToPathMap := ns.idToPathMap.insert oid path }
      let (status, ns) := ns.storeMetadata io path metadata
      -- Undoing the creation reads the record through a reference into the map that the
      -- line before has erased.
      if !status.ok then .error (.undefined "meta refers to an erased element")
      else .ok (status, some oid, ns)

def remove (ns : Namespace) (io : Status) (path : Str) :
    Cpp (Status × Option ObjectId × Namespace) :=
  match ns.metadataMap[path]? with
  | none => .ok (.systemError ENOENT, none, ns)
  | some metadata =>
    if S_ISDIR metadata.mode then .ok (.systemError EISDIR, none, ns)
    else
      let (status, store) := ns.store.remove io path
      let ns := { ns with store }
      if !status.ok then .ok (status, none, ns)
      else
        let obj := metadata.objectId
        if !ns.containIdAndPath obj path then
          .error (.check "The object ID and path pair dose not exist")
        else
          .ok (.OK, some obj, { ns with
            metadataMap := ns.metadataMap.erase path
            idToPathMap := ns.idToPathMap.erase obj })

def mkdir (ns : Namespace) (io : Status) (now : Double) (path : Str) (mode uid gid : BitVec 32) :
    Status × Namespace :=
  if path ∈ ns.metadataMap then (.systemError EEXIST, ns)
  else
    let metadata := newDirectory mode uid gid now
    let ns := { ns with
      metadataMap := ns.metadataMap.insert path metadata
      directories := ns.directories.insertIfNew path {} }
    let (status, ns) := ns.storeMetadata io path metadata
    if !status.ok then
      (status, { ns with
        metadataMap := ns.metadataMap.erase path
        directories := ns.directories.erase path })
    else (.OK, ns)

def rmdir (ns : Namespace) (io : Status) (path : Str) : Status × Namespace :=
  match ns.directories[path]? with
  | none => (.systemError ENOENT, ns)
  | some dir =>
    if !dir.subfiles.isEmpty then (.systemError ENOTEMPTY, ns)
    else
      let (status, store) := ns.store.remove io path
      let ns := { ns with store }
      if !status.ok then (status, ns)
      else
        (.OK, { ns with
          metadataMap := ns.metadataMap.erase path
          directories := ns.directories.erase path })

def directoryMapKey (path : Str) : Str := "dir:".toList ++ path

def addSubfile (ns : Namespace) (io : Status) (parent subfile : Str) : Status × Namespace :=
  match ns.directories[parent]? with
  | none => (.systemError ENOENT, ns)
  | some dir =>
    if subfile ∈ dir.subfiles then (.systemError EEXIST, ns)
    else
      let fullpath := FsPath.join parent subfile
      let (status, store) := ns.store.put io (directoryMapKey fullpath) []
      let ns := { ns with store }
      if !status.ok then (status, ns)
      else
        (.OK, { ns with
          directories := ns.directories.insert parent ⟨dir.subfiles.insert subfile⟩ })

def removeSubfile (ns : Namespace) (io : Status) (parent subfile : Str) : Status × Namespace :=
  match ns.directories[parent]? with
  | none => (.systemError ENOENT, ns)
  | some dir =>
    if subfile ∉ dir.subfiles then (.systemError ENOENT, ns)
    else
      let fullpath := FsPath.join parent subfile
      let (status, store) := ns.store.remove io (directoryMapKey fullpath)
      let ns := { ns with store }
      if !status.ok then (status, ns)
      else
        (.OK, { ns with
          directories := ns.directories.insert parent ⟨dir.subfiles.erase subfile⟩ })

def readdir (ns : Namespace) (path : Str) : Status × Option (List Str) :=
  match ns.directories[path]? with
  | none => (.systemError ENOENT, none)
  | some dir => (.OK, some dir.subfiles.toList)

end Operations

/-! ## Loading the store -/

section Init

variable [FsPath] [Thrift FileMetadata]

def corrupted : Status := ⟨-1, "The metadata db is corrupted."⟩

/-- The effect of one metadata record. -/
def loadMetadata (ns : Namespace) (key : Str) (metadata : FileMetadata) : Namespace :=
  let ns := { ns with metadataMap := ns.metadataMap.insert key metadata }
  if S_ISDIR metadata.mode then { ns with directories := ns.directories.insertIfNew key {} }
  else { ns with idToPathMap := ns.idToPathMap.insert metadata.objectId key }

/-- The loop of `init` over the records of the store. -/
def load (ns : Namespace) : List (Str × Str) → Cpp (Status × Namespace)
  | [] => .ok (.OK, ns)
  | (key, value) :: records =>
    if "/".toList <+: key then
      match Thrift.deserialize value with
      | none => .ok (corrupted, ns)
      | some metadata => (ns.loadMetadata key metadata).load records
    else if "dir:".toList <+: key then
      let path := key.drop 4
      let parent := FsPath.parentPath path
      let filename := FsPath.filename path
      match ns.directories[parent]? with
      | none => .error (.check "directories_.count(parent)")
      | some dir =>
        load { ns with
          directories := ns.directories.insert parent ⟨dir.subfiles.insert filename⟩ } records
    else if "meta:".toList <+: key then ns.load records
    else .ok (corrupted, ns)

def init (ns : Namespace) (io : Status) : Cpp (Status × Namespace) :=
  if !io.ok then .ok (io, ns)
  else ns.load ns.store.records

end Init

end Namespace

end Vsfs.Masterd

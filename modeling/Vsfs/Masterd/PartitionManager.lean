import Vsfs.Common.LevelDBStore
import Vsfs.Lib.RingMap

/-!
# Partitions of indices

`PartitionManager` of `vsfs/masterd`: for every index a ring of partitions, as a cache in
front of a key value store. The ring is `vobla::ConsistentHashMap`: the model knows its
contents and takes the lookup as a parameter. Every operation that writes to the store takes
the status of that write.
-/

namespace Vsfs.Masterd

open Std

structure IndexPartition where
  hashSep : HashValueType
  path : Str
  deriving DecidableEq, Repr

structure IndexConsistentHashRing where
  partitions : List IndexPartition
  deriving DecidableEq, Repr

/-- The separators of a ring, in signed order, and the partition at each. -/
abbrev PartitionMap := ExtTreeMap Int Str

/-- `ConsistentHashMap::get` of a ring of partitions, `none` where it reports an error. -/
class PartitionLookup where
  get : PartitionMap → Int → Option Str

/-- A key belongs to the greatest separator at or below it, or to the largest one when there
is none; an empty ring has no partition to give. -/
class LawfulPartitionLookup [PartitionLookup] : Prop where
  get_owner : ∀ {ring : PartitionMap} {key sep : Int} {path : Str},
    HashRing.Owner (RingMap.separators ring) key sep → ring[sep]? = some path →
    PartitionLookup.get ring key = some path
  get_empty : ∀ key : Int, PartitionLookup.get ∅ key = none

/-- `refcount_` is a `size_t` that nothing initialises. -/
structure Partition where
  refcount : BitVec 64
  partitions : PartitionMap := ∅

structure PartitionManager where
  partitionMapByIndexPath : ExtTreeMap Str Partition := ∅
  store : LevelDBStore := ∅

/-- A status that is not a success. -/
def Failure : Type := { status : Status // status.ok = false }

namespace PartitionManager

/-- The ring as it is written: a separator is an `i64`. -/
def toRing (pm : PartitionMap) : IndexConsistentHashRing :=
  ⟨pm.toList.map (fun e => ⟨BitVec.ofInt 64 e.1, e.2⟩)⟩

def ofRing (ring : IndexConsistentHashRing) : PartitionMap :=
  ring.partitions.foldl (fun pm p => pm.insert p.hashSep.toInt p.path) ∅

def stringToPartitionMap [Thrift IndexConsistentHashRing] (buffer : Str) : Option PartitionMap :=
  (Thrift.deserialize buffer).map ofRing

/-- The loop of `init` over the records of the store; `refcount` is what each new partition
is left with. -/
def load [Thrift IndexConsistentHashRing] (refcount : BitVec 64) (records : List (Str × Str)) :
    Status × ExtTreeMap Str Partition :=
  LevelDBStore.readAll stringToPartitionMap ⟨-1, "Failed to parse thrift object."⟩
    (fun maps key partitions => maps.insert key ⟨refcount, partitions⟩) ∅ records

/-- `init` of a new instance; `io` tells how the opening of the store ends. -/
def init [Thrift IndexConsistentHashRing] (io : Status) (refcount : BitVec 64)
    (store : LevelDBStore) : Status × PartitionManager :=
  if !io.ok then (io, { store })
  else
    let (status, maps) := load refcount store.records
    (status, ⟨maps, store⟩)

def removeIndex (pm : PartitionManager) (io : Status) (path : Str) : Status × PartitionManager :=
  let (status, store) := pm.store.remove io path
  if !status.ok then (status, { pm with store })
  else (.OK, ⟨pm.partitionMapByIndexPath.erase path, store⟩)

section Writes

variable [ThriftSerialize IndexConsistentHashRing]

/-- `write_partition_map`. A path without a partition is a null pointer. -/
def writePartitionMap (pm : PartitionManager) (io : Status) (path : Str) :
    Cpp (Status × PartitionManager) :=
  match pm.partitionMapByIndexPath[path]? with
  | none => .error (.undefined "partition map of an index that does not exist")
  | some partition =>
    let buffer := ThriftSerialize.serialize (toRing partition.partitions)
    if buffer.isEmpty then .ok (⟨-1, "Failed to serialize PartitionMap"⟩, pm)
    else
      let (status, store) := pm.store.put io path buffer
      .ok (status, { pm with store })

/-- A partition is named after its index and its separator. -/
def partitionName (path : Str) (sep : HashValueType) : Str :=
  path ++ ".".toList ++ (toString sep.toInt).toList

/-- The partition that is made has a `refcount` that nothing initialises. -/
def addIndex (pm : PartitionManager) (io : Status) (refcount : BitVec 64) (path : Str) :
    Cpp (Status × PartitionManager) :=
  if path ∈ pm.partitionMapByIndexPath then
    .ok (⟨-1, "The index has already existed"⟩, pm)
  else
    let initialKey : HashValueType := 0
    let partition : Partition :=
      ⟨refcount, (∅ : PartitionMap).insert initialKey.toInt (partitionName path initialKey)⟩
    let pm := { pm with
      partitionMapByIndexPath := pm.partitionMapByIndexPath.insert path partition }
    pm.writePartitionMap io path

def addPartition (pm : PartitionManager) (io : Status) (path : Str) (sep : HashValueType) :
    Cpp (Status × PartitionManager) :=
  match pm.partitionMapByIndexPath[path]? with
  | none => .ok (⟨-ENOENT, "The index does not existed."⟩, pm)
  | some partition =>
    let referenced := { partition with refcount := partition.refcount + 1 }
    if sep.toInt ∈ partition.partitions then
      let released := { referenced with refcount := referenced.refcount - 1 }
      .ok (⟨-1, "The separator is already existed."⟩, { pm with
        partitionMapByIndexPath := pm.partitionMapByIndexPath.insert path released })
    else
      let released : Partition :=
        { refcount := referenced.refcount - 1
          partitions := partition.partitions.insert sep.toInt (partitionName path sep) }
      let pm := { pm with
        partitionMapByIndexPath := pm.partitionMapByIndexPath.insert path released }
      pm.writePartitionMap io path

/-- `missing` is what `ConsistentHashMap::remove` answers for a separator that is not there.
The reference is never released, and the status of the write is dropped. -/
def removePartition (pm : PartitionManager) (io : Status) (missing : Failure) (path : Str)
    (sep : HashValueType) : Cpp (Status × PartitionManager) :=
  match pm.partitionMapByIndexPath[path]? with
  | none => .ok (⟨-ENOENT, "The index does not existed."⟩, pm)
  | some partition =>
    let referenced := { partition with refcount := partition.refcount + 1 }
    if sep.toInt ∉ partition.partitions then
      .ok (missing.1, { pm with
        partitionMapByIndexPath := pm.partitionMapByIndexPath.insert path referenced })
    else do
      let referenced := { referenced with partitions := partition.partitions.erase sep.toInt }
      let pm := { pm with
        partitionMapByIndexPath := pm.partitionMapByIndexPath.insert path referenced }
      let (_, pm) ← pm.writePartitionMap io path
      return (.OK, pm)

end Writes

/-- The status, what is written to `*paths`, and the manager with a reference taken and
released. -/
def getAllPartitions (pm : PartitionManager) (path : Str) :
    Status × Option (List Str) × PartitionManager :=
  match pm.partitionMapByIndexPath[path]? with
  | none => (⟨-ENOENT, "The index does not existed."⟩, none, pm)
  | some partition =>
    let referenced := { partition with refcount := partition.refcount + 1 }
    let released := { referenced with refcount := referenced.refcount - 1 }
    (.OK, some (referenced.partitions.toList.map (·.2)), { pm with
      partitionMapByIndexPath := pm.partitionMapByIndexPath.insert path released })

/-- The status of the lookup is dropped; the path stays empty when it fails. -/
def getPartitionPath [PartitionLookup] (pm : PartitionManager) (path : Str)
    (hash : HashValueType) : Str × PartitionManager :=
  match pm.partitionMapByIndexPath[path]? with
  | none => ([], pm)
  | some partition =>
    let referenced := { partition with refcount := partition.refcount + 1 }
    let partitionPath := (PartitionLookup.get referenced.partitions hash.toInt).getD []
    let released := { referenced with refcount := referenced.refcount - 1 }
    (partitionPath, { pm with
      partitionMapByIndexPath := pm.partitionMapByIndexPath.insert path released })

end PartitionManager

end Vsfs.Masterd

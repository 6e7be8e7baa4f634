import Vsfs.Common.Path
import Vsfs.Lib.RingMap

/-!
# The ring of servers

`ServerMap` keeps the servers on a consistent hashing ring. The ring is
`vobla::ConsistentHashMap`, which is outside the repository: the model knows its contents
and takes the lookup as a parameter.
-/

namespace Vsfs

open Std

structure NodeAddress where
  host : Str
  port : BitVec 32
  deriving DecidableEq, Repr

structure NodeInfo where
  address : NodeAddress
  serverId : Str := []
  type : BitVec 16 := 0
  status : BitVec 16 := 0
  availMb : BitVec 64 := 0
  deriving DecidableEq, Repr

/-- The separators of a ring, in signed order, and the node at each. -/
abbrev HashRing := ExtTreeMap Int NodeInfo

/-- `ConsistentHashMap::get`, `none` where it reports an error. -/
class ConsistentHashMap where
  get : HashRing → Int → Option NodeInfo

/-- A key belongs to the greatest separator at or below it, or to the largest one when there
is none; the empty ring has no node to give. -/
class LawfulConsistentHashMap [ConsistentHashMap] : Prop where
  get_owner : ∀ {ring : HashRing} {key sep : Int} {node : NodeInfo},
    HashRing.Owner {s | s ∈ ring} key sep → ring[sep]? = some node →
    ConsistentHashMap.get ring key = some node
  get_empty : ∀ key : Int, ConsistentHashMap.get ∅ key = none

structure ServerMap where
  ring : HashRing := ∅

namespace ServerMap

/-- The middle of a range, which may go across the end of the ring. -/
def median (lower upper : HashValueType) : HashValueType :=
  let max := BitVec.intMax 64
  if lower.slt upper then (lower + upper).sdiv 2
  else if lower = upper then lower + max.sdiv 2
  else max.sdiv 2 - lower.sdiv 2 + upper.sdiv 2 + lower

/-- What `add` gets from outside: two random numbers multiplied, the widest range of the
ring, and the status of its insertion. -/
structure RingAnswers where
  random : HashValueType
  maxRange : Except Status (HashValueType × HashValueType)
  insert : Status

def insertAt (servers : ServerMap) (io : Status) (pos : HashValueType) (node : NodeInfo) :
    Status × ServerMap :=
  (io, if io.ok then ⟨servers.ring.insert pos.toInt node⟩ else servers)

/-- `ServerMap::add`, which looks for a position. -/
def add (servers : ServerMap) (answers : RingAnswers) (node : NodeInfo) : Status × ServerMap :=
  if servers.ring.isEmpty then servers.insertAt answers.insert answers.random node
  else
    match answers.maxRange with
    | .error status => (status, servers)
    | .ok (lower, upper) => servers.insertAt answers.insert (median lower upper) node

/-- `ServerMap::add` at a given position. -/
def addAt (servers : ServerMap) (pos : HashValueType) (node : NodeInfo) : Status × ServerMap :=
  if pos.toInt ∈ servers.ring then (⟨-EEXIST, "This position is already used."⟩, servers)
  else (.OK, ⟨servers.ring.insert pos.toInt node⟩)

variable [ConsistentHashMap]

/-- The status, and what the call writes to `*node`. -/
def get (servers : ServerMap) (pathHash : HashValueType) : Status × Option NodeInfo :=
  match ConsistentHashMap.get servers.ring pathHash.toInt with
  | none => (⟨-ENOENT, "Can't find any Server."⟩, none)
  | some node => (.OK, some node)

def getByPath [PathHash] (servers : ServerMap) (path : Str) : Status × Option NodeInfo :=
  servers.get (PathHash.pathToHash path)

/-! ## Two keys -/

/-- Two keys are on the same side of the ring: no separator lies between them, or none
outside, or the last ones of the two sides hold the same node. -/
def SameSide (ring : HashRing) (k l : Int) : Prop :=
  let S := {s | s ∈ ring}
  HashRing.inner S (min k l) (max k l) = ∅ ∨ HashRing.outer S (min k l) (max k l) = ∅ ∨
    ∃ a b, IsGreatest (HashRing.inner S (min k l) (max k l)) a ∧
      HashRing.LastOuter S (min k l) (max k l) b ∧ ring[a]? = ring[b]?

omit [ConsistentHashMap] in
theorem finite_separators (ring : HashRing) : {s | s ∈ ring}.Finite :=
  RingMap.finite_separators ring

variable [LawfulConsistentHashMap]

/-- The node of a key is that of the separator it belongs to. -/
theorem get_of_nonempty {ring : HashRing} (some : {s | s ∈ ring}.Nonempty) (key : Int) :
    ∃ sep, HashRing.Owner {s | s ∈ ring} key sep ∧ ConsistentHashMap.get ring key = ring[sep]? := by
  obtain ⟨sep, owner⟩ := HashRing.owner_exists (finite_separators ring) some key
  obtain ⟨node, found⟩ := (FiniteMap.mem_iff_exists _ _).mp owner.mem
  exact ⟨sep, owner, by rw [LawfulConsistentHashMap.get_owner owner found, found]⟩

/-- A ring with a server on it has one for every key. -/
theorem get_of_ring_ne {servers : ServerMap} (h : servers.ring ≠ ∅) (key : HashValueType) :
    ∃ node, servers.get key = (.OK, some node) := by
  have some : {s | s ∈ servers.ring}.Nonempty := by
    by_contra none
    exact h (ExtTreeMap.eq_empty_iff_forall_not_mem.mpr fun s hs => none ⟨s, hs⟩)
  obtain ⟨sep, owner, lookup⟩ := get_of_nonempty some key.toInt
  obtain ⟨node, found⟩ := (FiniteMap.mem_iff_exists _ _).mp owner.mem
  exact ⟨node, by simp [get, lookup, found]⟩

theorem get_of_ring_eq {servers : ServerMap} (h : servers.ring = ∅) (key : HashValueType) :
    (servers.get key).2 = none := by
  simp [get, h, LawfulConsistentHashMap.get_empty]

/-- What a lookup finds is on the ring. -/
theorem onRing_of_get {servers : ServerMap} {key : HashValueType} {node : NodeInfo}
    (h : (servers.get key).2 = some node) : ∃ sep : Int, servers.ring[sep]? = some node := by
  have found : ConsistentHashMap.get servers.ring key.toInt = some node := by
    unfold get at h
    split at h
    · cases h
    · cases h
      assumption
  rcases {s | s ∈ servers.ring}.eq_empty_or_nonempty with none | nonempty
  · have empty : servers.ring = ∅ :=
      ExtTreeMap.eq_empty_iff_forall_not_mem.mpr fun s hs => none.le hs
    rw [empty, LawfulConsistentHashMap.get_empty] at found
    cases found
  · obtain ⟨sep, -, lookup⟩ := get_of_nonempty nonempty key.toInt
    exact ⟨sep, lookup.symm.trans found⟩

/-- The only server of a ring owns all keys. -/
theorem get_of_single {servers : ServerMap} {sep : Int} {node : NodeInfo}
    (single : servers.ring = (∅ : HashRing).insert sep node) (key : HashValueType) :
    servers.get key = (.OK, some node) := by
  have some : servers.ring ≠ ∅ := by simp [single]
  obtain ⟨node', found⟩ := get_of_ring_ne some key
  obtain ⟨sep', onRing⟩ := onRing_of_get (congrArg Prod.snd found)
  rw [single, FiniteMap.getElem?_insert] at onRing
  split at onRing
  · rw [found, ← onRing]
  · simp at onRing

theorem get_ring_eq_iff (ring : HashRing) (k l : Int) :
    ConsistentHashMap.get ring k = ConsistentHashMap.get ring l ↔ SameSide ring k l := by
  have finite := finite_separators ring
  rcases {s | s ∈ ring}.eq_empty_or_nonempty with none | some
  · have empty : ring = ∅ := by
      refine ExtTreeMap.ext_getElem? fun s => ?_
      have : s ∉ ring := fun h => by simpa [none] using (show s ∈ {s | s ∈ ring} from h)
      rw [(FiniteMap.not_mem_iff _ _).mp this]
      simp
    subst empty
    simp [LawfulConsistentHashMap.get_empty, SameSide, HashRing.inner]
  · -- The lower and the upper key, with what they are mapped to.
    obtain ⟨s, hs, lower⟩ := get_of_nonempty some (min k l)
    obtain ⟨t, ht, upper⟩ := get_of_nonempty some (max k l)
    have key := HashRing.agree_iff finite (fun sep => ring[sep]?) min_le_max hs ht
    rw [SameSide, ← key]
    simp only [← lower, ← upper]
    rcases le_total k l with h | h
    · rw [min_eq_left h, max_eq_right h]
    · rw [min_eq_right h, max_eq_left h]
      exact eq_comm

theorem get_eq_iff (servers : ServerMap) (k l : HashValueType) :
    servers.get k = servers.get l ↔ SameSide servers.ring k.toInt l.toInt := by
  rw [← get_ring_eq_iff]
  unfold get
  cases ConsistentHashMap.get servers.ring k.toInt <;>
    cases ConsistentHashMap.get servers.ring l.toInt <;> simp [Status.OK, ENOENT]

end ServerMap

/-! ## A lookup in the list of separators -/

namespace SortedRing

/-- The last separator at or below the key, else the last one. -/
def get (ring : HashRing) (key : Int) : Option NodeInfo :=
  match (ring.toList.filter (fun s => s.1 ≤ key)).getLast? with
  | some (_, node) => some node
  | none => (ring.toList.getLast?).map (·.2)

@[reducible] def consistentHashMap : ConsistentHashMap := ⟨get⟩

theorem get_eq_floor (ring : HashRing) (key : Int) : get ring key = RingMap.floor ring key := by
  unfold get RingMap.floor
  cases (ring.toList.filter (fun s => s.1 ≤ key)).getLast? <;> rfl

instance lawful : @LawfulConsistentHashMap consistentHashMap :=
  @LawfulConsistentHashMap.mk consistentHashMap
    (by
      intro ring key sep node owner found
      exact (get_eq_floor ring key).trans (RingMap.floor_of_owner owner found))
    (by
      intro key
      rfl)

end SortedRing

end Vsfs

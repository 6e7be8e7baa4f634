import Vsfs.Common.Md5
import Vsfs.Common.ServerMap
import Vsfs.Masterd.Namespace

/-!
# Routing by object id

A client that holds an object id looks for the master of the file by the id, while the file
was created on the master of the hash of its path. The id keeps the first 16 bits of the
hash only, so the two lookups agree as long as no separator tells the two keys apart.

## Main results

* `get_objectId_eq_getByPath_iff` : the two lookups name the same master exactly when the
  hash and the id are on the same side of the ring.
-/

namespace Vsfs.Masterd.Namespace

section

variable [ConsistentHashMap] [LawfulConsistentHashMap] [PathHash]

/-- For every ring, every path and every id the path can get. -/
theorem get_objectId_eq_getByPath_iff (servers : ServerMap) (ns : Namespace) (path : Str) :
    servers.get (ns.getObjectId path).1 = servers.getByPath path ↔
      ServerMap.SameSide servers.ring
        (objectIdOf (PathHash.pathToHash path) ns.nextObjId).toInt
        (PathHash.pathToHash path).toInt := by
  rw [ServerMap.getByPath, getObjectId, ServerMap.get_eq_iff]

end

section Example

attribute [local instance] SortedRing.consistentHashMap Md5.pathHash

def masterA : NodeInfo := { address := ⟨"a".toList, 9876⟩ }
def masterB : NodeInfo := { address := ⟨"b".toList, 9876⟩ }

/-- The second master begins between the id and the hash of `/a`. -/
def splitRing : ServerMap :=
  ((({} : ServerMap).addAt 0x8000000000000000 masterA).2.addAt 0xd7aa9e3e00000000 masterB).2

/-- The second master begins elsewhere. -/
def wideRing : ServerMap :=
  ((({} : ServerMap).addAt 0x8000000000000000 masterA).2.addAt 0 masterB).2

/-- On `splitRing` a file on the second master is looked for on the first one. -/
theorem splitRing_asks_other_master :
    ¬ ∀ (servers : ServerMap) (ns : Namespace) (path : Str),
      servers.get (ns.getObjectId path).1 = servers.getByPath path := by
  intro agree
  have answers : splitRing.get (Namespace.getObjectId { nextObjId := 0 } "/a".toList).1 =
      (.OK, some masterA) ∧ splitRing.getByPath "/a".toList = (.OK, some masterB) := by
    decide +kernel
  have same := agree splitRing { nextObjId := 0 } "/a".toList
  rw [answers.1, answers.2] at same
  exact absurd same (by decide)

theorem wideRing_asks_right_master :
    wideRing.get (Namespace.getObjectId { nextObjId := 0 } "/a".toList).1 =
      wideRing.getByPath "/a".toList := by
  refine (get_objectId_eq_getByPath_iff wideRing { nextObjId := 0 } "/a".toList).mpr (.inl ?_)
  have keys : (objectIdOf (PathHash.pathToHash "/a".toList) 0).toInt = -2906510609514233856 ∧
      (PathHash.pathToHash "/a".toList).toInt = -2906336618250618618 := by
    decide +kernel
  rw [keys.1, keys.2]
  have seps (s : Int) (hs : s ∈ wideRing.ring) : s = -9223372036854775808 ∨ s = 0 := by
    have : s ∈ wideRing.ring.keys := by simpa using hs
    have list : wideRing.ring.keys = [-9223372036854775808, 0] := by decide
    simpa [list] using this
  ext s
  simp only [HashRing.inner, Set.mem_inter_iff, Set.mem_Ioc, Set.mem_empty_iff_false, iff_false]
  rintro ⟨hs, lo, hi⟩
  rcases seps s hs with rfl | rfl <;> simp at lo hi

end Example

end Vsfs.Masterd.Namespace

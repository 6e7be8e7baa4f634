import Vsfs.Index.Split
import Vsfs.Indexd.IndexManager

/-!
# Which indices are to be split

`find_indices_for_splitting` offers the indices that have grown to a threshold. A positive
threshold never offers one without a median.
-/

namespace Vsfs.Indexd.IndexManager

open Std Index

variable {K : Type} [LinearOrder K]

/-- `get_index_info` of an index without one is a null pointer, and is pushed as such. -/
def findIndicesForSplitting (im : IndexManager K) (threshold : Nat) : List (Option IndexInfo) :=
  (im.rangeIndexMap.toList.filter fun rangeIndex => threshold ≤ rangeIndex.2.index.size).map
    fun rangeIndex => im.indexInfoMap[rangeIndex.1]?

/-- What is offered belongs to an index that an empty one can take the larger half of. -/
theorem splits_of_mem_findIndicesForSplitting [Iteration K] [LawfulIteration K] [NthElement]
    [LawfulNthElement] {im : IndexManager K} {threshold : Nat} (positive : 0 < threshold)
    {info : Option IndexInfo} (offered : info ∈ im.findIndicesForSplitting threshold) :
    ∃ (path : Str) (w : RangeIndexWrapper K), im.rangeIndexMap[path]? = some w ∧
      info = im.indexInfoMap[path]? ∧ threshold ≤ w.index.size ∧
      ∀ other : RangeIndex K, other.isEmpty = true →
        ∃ halves, w.index.split other = .ok halves := by
  obtain ⟨⟨path, w⟩, here, rfl⟩ := List.mem_map.mp offered
  obtain ⟨found, grown⟩ := List.mem_filter.mp here
  have large : threshold ≤ w.index.size := of_decide_eq_true grown
  refine ⟨path, w, ExtTreeMap.mem_toList_iff_getElem?_eq_some.mp found, rfl, large, ?_⟩
  intro other empty
  exact (RangeIndex.split_isOk_iff w.index other).mpr ⟨by omega, empty⟩

end Vsfs.Indexd.IndexManager

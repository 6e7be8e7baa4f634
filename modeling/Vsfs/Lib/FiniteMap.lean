import Std.Data.ExtTreeMap.Lemmas
import Std.Data.ExtTreeSet.Lemmas
import Mathlib.Logic.Basic

/-!
# Finite maps at a lawful order

Lookups after an update, stated with equality of keys instead of a comparison that
returns `Ordering.eq`.
-/

namespace FiniteMap

open Std

universe u v

variable {α : Type u} {β : Type v} [Ord α] [TransOrd α] [LawfulEqOrd α]

@[simp] theorem getElem?_insert [DecidableEq α] (m : ExtTreeMap α β) (k a : α) (v : β) :
    (m.insert k v)[a]? = if k = a then some v else m[a]? := by
  simp [ExtTreeMap.getElem?_insert]

@[simp] theorem getElem?_erase [DecidableEq α] (m : ExtTreeMap α β) (k a : α) :
    (m.erase k)[a]? = if k = a then none else m[a]? := by
  simp [ExtTreeMap.getElem?_erase]

omit [LawfulEqOrd α] in
/-- A key is present exactly when its lookup gives a value. -/
theorem mem_iff_exists (m : ExtTreeMap α β) (k : α) : k ∈ m ↔ ∃ v, m[k]? = some v := by
  constructor
  · exact fun h => ⟨m[k], ExtTreeMap.getElem?_eq_some_getElem h⟩
  · rintro ⟨v, h⟩
    exact ExtTreeMap.mem_iff_isSome_getElem?.mpr (by simp [h])

omit [LawfulEqOrd α] in
theorem not_mem_iff (m : ExtTreeMap α β) (k : α) : k ∉ m ↔ m[k]? = none := by
  rw [ExtTreeMap.mem_iff_isSome_getElem?, Bool.not_eq_true, Option.isSome_eq_false_iff,
    Option.isNone_iff_eq_none]

/-- `emplace` after a lookup: an element that is there stays. -/
@[simp] theorem getElem?_insertIfNew [DecidableEq α] (m : ExtTreeMap α β) (k a : α) (v : β) :
    (m.insertIfNew k v)[a]? = if k = a ∧ m[a]? = none then some v else m[a]? := by
  simp only [ExtTreeMap.getElem?_insertIfNew, Std.compare_eq_iff_eq, not_mem_iff]
  by_cases e : k = a
  · subst e
    rfl
  · simp [e]

/-- A new entry is taken out again. -/
theorem erase_insert_of_not_mem [DecidableEq α] {m : ExtTreeMap α β} {k : α} (new : k ∉ m) (v : β) :
    (m.insert k v).erase k = m := by
  have absent := (not_mem_iff m k).mp new
  refine ExtTreeMap.ext_getElem? fun a => ?_
  rw [getElem?_erase, getElem?_insert]
  grind

theorem erase_insertIfNew_of_not_mem [DecidableEq α] {m : ExtTreeMap α β} {k : α} (new : k ∉ m)
    (v : β) : (m.insertIfNew k v).erase k = m := by
  have absent := (not_mem_iff m k).mp new
  refine ExtTreeMap.ext_getElem? fun a => ?_
  rw [getElem?_erase, getElem?_insertIfNew]
  grind

/-- An entry that is written again changes the map, unless it has the same value. -/
theorem insert_eq_self_iff [DecidableEq α] {m : ExtTreeMap α β} {k : α} {old new : β}
    (found : m[k]? = some old) : m.insert k new = m ↔ new = old := by
  constructor
  · intro same
    have at_key := getElem?_insert m k k new
    rw [same, found, if_pos rfl] at at_key
    exact (Option.some.inj at_key).symm
  · rintro rfl
    refine ExtTreeMap.ext_getElem? fun a => ?_
    rw [getElem?_insert]
    grind

/-- A map is the list of its entries, inserted one after the other. -/
theorem foldl_insert_toList [DecidableEq α] (m : ExtTreeMap α β) :
    m.toList.foldl (fun acc e => acc.insert e.1 e.2) (∅ : ExtTreeMap α β) = m := by
  rw [← ExtTreeMap.insertMany_list_eq_foldl, ← ExtTreeMap.ofList_eq_insertMany_empty]
  refine ExtTreeMap.ext_getElem? fun k => ?_
  cases found : m[k]? with
  | some v =>
    exact ExtTreeMap.getElem?_ofList_of_mem ReflCmp.compare_self ExtTreeMap.distinct_keys_toList
      (ExtTreeMap.mem_toList_iff_getElem?_eq_some.mpr found)
  | none =>
    refine (not_mem_iff _ _).mp fun inside => (not_mem_iff m k).mpr found ?_
    simpa using ExtTreeMap.mem_ofList.mp inside

/-- Only the entry of one key adds to a list that is made of all entries. -/
theorem flatMap_toList_of_key {γ : Type*} (m : ExtTreeMap α β) (k : α) (f : α × β → List γ)
    (others : ∀ e ∈ m.toList, e.1 ≠ k → f e = []) :
    m.toList.flatMap f = (m[k]?.map fun v => f (k, v)).getD [] := by
  -- The keys of the entries are distinct.
  have one (l : List (α × β)) (distinct : l.Pairwise fun a b => ¬ compare a.1 b.1 = .eq)
      (rest : ∀ e ∈ l, e.1 ≠ k → f e = []) :
      (∀ v, (k, v) ∈ l → l.flatMap f = f (k, v)) ∧ ((∀ v, (k, v) ∉ l) → l.flatMap f = []) := by
    induction l with
    | nil => simp
    | cons e l ih =>
      obtain ⟨first, distinct⟩ := List.pairwise_cons.mp distinct
      obtain ⟨there, absent⟩ := ih distinct fun e' he' => rest e' (by simp [he'])
      rw [List.flatMap_cons]
      constructor
      · intro v hv
        rcases List.mem_cons.mp hv with rfl | hv
        · rw [absent fun v' hv' => first _ hv' ReflCmp.compare_self, List.append_nil]
        · have other : e.1 ≠ k := fun same => first _ hv (same ▸ ReflCmp.compare_self)
          rw [rest e (by simp) other, there v hv, List.nil_append]
      · intro none
        have other : e.1 ≠ k := fun same => none e.2 (by simp [← same])
        rw [rest e (by simp) other, absent fun v hv => none v (by simp [hv]), List.nil_append]
  obtain ⟨there, absent⟩ := one m.toList ExtTreeMap.distinct_keys_toList others
  cases found : m[k]? with
  | some v => exact there v (ExtTreeMap.mem_toList_iff_getElem?_eq_some.mpr found)
  | none =>
    refine absent fun v hv => ?_
    rw [ExtTreeMap.mem_toList_iff_getElem?_eq_some, found] at hv
    cases hv

end FiniteMap

import Mathlib.Data.Set.Card
import Mathlib.Order.Compare
import Vsfs.Lib.FiniteMap
import Vsfs.Lib.HashRing

/-!
# Finite maps on a ring

A finite map from integers places a value at each of its separators. A key has the value of
its owner, and the separators follow one another around the ring.

## Main results

* `floor_of_owner` : `floor` finds the value at the owner of a key.
* `follower_of_next` : `follower` finds the value after the first place of a value.
* `next_exists` : on a ring that is not empty, every separator has a next one.
-/

namespace RingMap

open Std (ExtTreeMap)
open FiniteMap

universe u

variable {β : Type u} {ring : ExtTreeMap Int β}

/-! ## Separators -/

def separators (ring : ExtTreeMap Int β) : Set Int := {s | s ∈ ring}

theorem finite_separators (ring : ExtTreeMap Int β) : (separators ring).Finite := by
  have : separators ring = {s | s ∈ ring.keys} := by
    ext s
    simp [separators]
  rw [this]
  exact List.finite_toSet _

theorem separators_nonempty (nonempty : ring ≠ ∅) : (separators ring).Nonempty := by
  by_contra none
  exact nonempty (ExtTreeMap.eq_empty_iff_forall_not_mem.mpr fun s hs => none ⟨s, hs⟩)

theorem size_eq_ncard (ring : ExtTreeMap Int β) : ring.size = (separators ring).ncard := by
  have keys : separators ring = (ring.keys.toFinset : Set Int) := by
    ext s
    simp [separators]
  rw [keys, Set.ncard_coe_finset, List.toFinset_card_of_nodup ExtTreeMap.nodup_keys,
    ExtTreeMap.length_keys]

/-- Apart from fewer separators than there are, there is another one. -/
theorem exists_not_mem {S : Set Int} (finite : S.Finite) (fewer : S.ncard < ring.size) :
    ∃ s ∈ ring, s ∉ S := by
  rw [size_eq_ncard] at fewer
  by_contra none
  simp only [not_exists, not_and, not_not] at none
  exact absurd (Set.ncard_le_ncard none finite) (not_le.mpr fewer)

/-- The separator that comes after another one. -/
abbrev Next (ring : ExtTreeMap Int β) (s t : Int) : Prop := HashRing.Next (separators ring) s t

/-- The first separator that has a value. -/
def First (ring : ExtTreeMap Int β) (v : β) (s : Int) : Prop :=
  IsLeast {s | ring[s]? = some v} s

theorem next_exists (nonempty : ring ≠ ∅) (s : Int) : ∃ t, Next ring s t :=
  HashRing.next_exists (finite_separators ring) (separators_nonempty nonempty) s

theorem first_exists {v : β} {s : Int} (here : ring[s]? = some v) : ∃ t, First ring v t := by
  refine HashRing.exists_isLeast ((finite_separators ring).subset fun t ht => ?_) ⟨s, here⟩
  exact (mem_iff_exists _ _).mpr ⟨v, ht⟩

theorem First.found {v : β} {s : Int} (h : First ring v s) : ring[s]? = some v := h.1

/-! ## The list of separators -/

theorem sorted_toList (ring : ExtTreeMap Int β) :
    ring.toList.Pairwise (fun a b => a.1 < b.1) := by
  refine (ExtTreeMap.ordered_keys_toList (t := ring)).imp ?_
  intro a b less
  exact compare_lt_iff_lt.mp less

theorem mem_of_mem_toList {a : Int × β} (ha : a ∈ ring.toList) : a.1 ∈ ring :=
  (mem_iff_exists _ _).mpr ⟨a.2, ExtTreeMap.mem_toList_iff_getElem?_eq_some.mp ha⟩

/-- The last separator at or below the key, else the last one. -/
def floor (ring : ExtTreeMap Int β) (key : Int) : Option β :=
  match (ring.toList.filter (fun s => s.1 ≤ key)).getLast? with
  | some (_, v) => some v
  | none => (ring.toList.getLast?).map (·.2)

/-- The last element of a sorted list of separators is the greatest. -/
theorem getLast?_eq {l : List (Int × β)} {s : Int} {v : β}
    (sorted : l.Pairwise (fun a b => a.1 < b.1)) (here : (s, v) ∈ l)
    (greatest : ∀ a ∈ l, a.1 ≤ s) : l.getLast? = some (s, v) := by
  obtain ⟨before, after, rfl⟩ := List.append_of_mem here
  cases after with
  | nil => simp
  | cons b after =>
    rw [List.pairwise_append, List.pairwise_cons] at sorted
    have less := sorted.2.1.1 b (by simp)
    have := greatest b (by simp)
    omega

theorem floor_of_owner {key sep : Int} {v : β} (owner : HashRing.Owner (separators ring) key sep)
    (found : ring[sep]? = some v) : floor ring key = some v := by
  have sorted := sorted_toList ring
  have here : (sep, v) ∈ ring.toList := ExtTreeMap.mem_toList_iff_getElem?_eq_some.mpr found
  unfold floor
  rcases owner with floor | ⟨none, top⟩
  · have last : (ring.toList.filter (fun s => s.1 ≤ key)).getLast? = some (sep, v) := by
      refine getLast?_eq (sorted.filter _) ?_ fun a ha => ?_
      · exact List.mem_filter.mpr ⟨here, by simpa using floor.1.2⟩
      · obtain ⟨ha, below⟩ := List.mem_filter.mp ha
        exact floor.2 ⟨mem_of_mem_toList ha, by simpa using below⟩
    rw [last]
  · have nothing : ring.toList.filter (fun s => s.1 ≤ key) = [] := by
      rw [List.filter_eq_nil_iff]
      intro a ha below
      have : a.1 ∈ separators ring ∩ Set.Iic key := ⟨mem_of_mem_toList ha, by simpa using below⟩
      simp [none] at this
    rw [nothing, getLast?_eq sorted here fun a ha => top.2 (mem_of_mem_toList ha)]
    rfl

/-- The value after the first place of a value. -/
def follower [DecidableEq β] (ring : ExtTreeMap Int β) (v : β) : Option β :=
  match ring.toList.dropWhile (fun s => s.2 ≠ v) with
  | [] => none
  | _ :: later => (later ++ ring.toList).head?.map (·.2)

theorem follower_of_next [DecidableEq β] {v w : β} {s t : Int} (first : First ring v s)
    (next : Next ring s t) (found : ring[t]? = some w) : follower ring v = some w := by
  have sorted := sorted_toList ring
  have here : (s, v) ∈ ring.toList := ExtTreeMap.mem_toList_iff_getElem?_eq_some.mpr first.found
  have there : (t, w) ∈ ring.toList := ExtTreeMap.mem_toList_iff_getElem?_eq_some.mpr found
  have values {a : Int × β} (ha : a ∈ ring.toList) : ring[a.1]? = some a.2 :=
    ExtTreeMap.mem_toList_iff_getElem?_eq_some.mp ha
  obtain ⟨before, later, split⟩ := List.append_of_mem here
  have ordered := sorted
  rw [split, List.pairwise_append, List.pairwise_cons] at ordered
  obtain ⟨-, ⟨above, sortedLater⟩, below⟩ := ordered
  have others : ∀ a ∈ before, a.2 ≠ v := by
    rintro a ha rfl
    have least := first.2 (values (split ▸ List.mem_append_left _ ha))
    have := below a ha (s, a.2) (by simp)
    omega
  have dropped : ring.toList.dropWhile (fun s => s.2 ≠ v) = (s, v) :: later := by
    rw [split, List.dropWhile_append_of_pos (by simpa using others),
      List.dropWhile_cons_of_neg (by simp)]
  -- The head of a sorted list that has the least separator.
  have head {l rest : List (Int × β)} (order : l.Pairwise (fun a b => a.1 < b.1))
      (inside : (t, w) ∈ l) (least : ∀ a ∈ l, t ≤ a.1) : (l ++ rest).head?.map (·.2) = some w := by
    cases l with
    | nil => simp at inside
    | cons a l =>
      rcases List.mem_cons.mp inside with same | later
      · simp [← same]
      · have := (List.pairwise_cons.mp order).1 _ later
        have := least a (by simp)
        simp only at *
        omega
  rw [follower, dropped]
  rcases next with up | ⟨none, bottom⟩
  · refine head sortedLater ?_ fun a ha => ?_
    · rw [split] at there
      rcases List.mem_append.mp there with inBefore | inRest
      · have := below _ inBefore (s, v) (by simp)
        have : s < t := up.1.2
        simp only at *
        omega
      · rcases List.mem_cons.mp inRest with same | inLater
        · cases same
          exact absurd up.1.2 (lt_irrefl (a := s))
        · exact inLater
    · refine up.2 ⟨mem_of_mem_toList ?_, above a ha⟩
      rw [split]
      simp [ha]
  · have last : later = [] := by
      refine List.eq_nil_iff_forall_not_mem.mpr fun a ha => ?_
      have inside : a ∈ ring.toList := by
        rw [split]
        simp [ha]
      have : a.1 ∈ separators ring ∩ Set.Ioi s := ⟨mem_of_mem_toList inside, above a ha⟩
      simp [none] at this
    have whole := @head ring.toList [] sorted there fun a ha => bottom.2 (mem_of_mem_toList ha)
    simpa [last] using whole

theorem exists_of_follower [DecidableEq β] {v w : β} (h : follower ring v = some w) :
    ∃ s : Int, ring[s]? = some v := by
  unfold follower at h
  split at h
  · cases h
  · rename_i a later dropped
    have here : a ∈ ring.toList := List.dropWhile_sublist _ |>.subset (dropped ▸ List.mem_cons_self)
    have value : a.2 = v := by
      have head := List.head?_dropWhile_not (fun s => decide (s.2 ≠ v)) ring.toList
      rw [dropped] at head
      simpa using head
    exact ⟨a.1, value ▸ ExtTreeMap.mem_toList_iff_getElem?_eq_some.mp here⟩

end RingMap

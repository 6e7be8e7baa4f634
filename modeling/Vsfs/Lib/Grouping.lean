import Mathlib.Data.List.Basic
import Mathlib.Data.List.Count
import Mathlib.Data.List.Induction
import Mathlib.Data.List.Nodup
import Mathlib.Data.List.Perm.Basic
import Vsfs.Lib.FiniteMap

/-!
# Grouping by a key

A list is cut into groups of elements with the same key, kept in a map from the key to the
group: in the order of the list, where nothing is lost and nothing is there twice, or as
sets.
-/

namespace Grouping

open Std FiniteMap

universe u v

variable {κ : Type u} {α : Type v} [Ord κ] [TransOrd κ] [LawfulEqOrd κ] [DecidableEq κ]

/-- `m[k].push_back(a)`. -/
def push (m : ExtTreeMap κ (List α)) (k : κ) (a : α) : ExtTreeMap κ (List α) :=
  m.insert k (m[k]?.getD [] ++ [a])

def group (key : α → κ) (l : List α) : ExtTreeMap κ (List α) :=
  l.foldl (fun m a => push m (key a) a) ∅

theorem getD_push (m : ExtTreeMap κ (List α)) (k k' : κ) (a : α) :
    (push m k a)[k']?.getD [] = m[k']?.getD [] ++ if k = k' then [a] else [] := by
  by_cases same : k = k'
  · subst same
    simp [push]
  · simp [push, same]

theorem getD_foldl_push (key : α → κ) (l : List α) (m : ExtTreeMap κ (List α)) (k : κ) :
    (l.foldl (fun m a => push m (key a) a) m)[k]?.getD [] =
      m[k]?.getD [] ++ l.filter (fun a => key a = k) := by
  induction l generalizing m with
  | nil => simp
  | cons a l ih =>
    rw [List.foldl_cons, ih, getD_push, List.append_assoc]
    by_cases same : key a = k <;> simp [same]

/-- A group has exactly the elements of its key, in order. -/
theorem getD_group (key : α → κ) (l : List α) (k : κ) :
    (group key l)[k]?.getD [] = l.filter (fun a => key a = k) := by
  simp [group, getD_foldl_push]

omit [DecidableEq κ] in
theorem mem_foldl_push (key : α → κ) (l : List α) (m : ExtTreeMap κ (List α)) (k : κ) :
    k ∈ l.foldl (fun m a => push m (key a) a) m ↔ k ∈ m ∨ ∃ a ∈ l, key a = k := by
  induction l generalizing m with
  | nil => simp
  | cons a l ih =>
    rw [List.foldl_cons, ih]
    simp only [push, ExtTreeMap.mem_insert, Std.compare_eq_iff_eq, List.mem_cons, exists_eq_or_imp]
    tauto

omit [DecidableEq κ] in
theorem mem_group (key : α → κ) (l : List α) (k : κ) :
    k ∈ group key l ↔ ∃ a ∈ l, key a = k := by
  simp [group, mem_foldl_push]

/-- Every element is in the group of its key, and a group only has such elements. -/
theorem group_eq_some {key : α → κ} {l : List α} {k : κ} {g : List α}
    (h : (group key l)[k]? = some g) : g = l.filter (fun a => key a = k) := by
  have := getD_group key l k
  rwa [h] at this

omit [Ord κ] [TransOrd κ] [LawfulEqOrd κ] in
/-- Cutting a list by distinct keys that cover it. -/
theorem flatMap_filter_perm (key : α → κ) {ks : List κ} (distinct : ks.Nodup) (l : List α)
    (cover : ∀ a ∈ l, key a ∈ ks) : (ks.flatMap fun k => l.filter (fun a => key a = k)).Perm l := by
  induction ks generalizing l with
  | nil =>
    cases l with
    | nil => simp
    | cons a l => simpa using cover a (by simp)
  | cons k ks ih =>
    obtain ⟨new, distinct⟩ := List.nodup_cons.mp distinct
    -- The other groups are those of the elements that are left.
    have rest : (ks.flatMap fun k' => l.filter (fun a => key a = k')) =
        ks.flatMap fun k' =>
          (l.filter (fun a => !decide (key a = k))).filter (fun a => key a = k') := by
      refine List.flatMap_congr fun k' hk' => ?_
      rw [List.filter_filter]
      refine List.filter_congr fun a _ => ?_
      by_cases same : key a = k'
      · have other : key a ≠ k := fun h => new (h ▸ same ▸ hk')
        simp [same, same ▸ other]
      · simp [same]
    have left : ∀ a ∈ l.filter (fun a => !decide (key a = k)), key a ∈ ks := by
      intro a ha
      obtain ⟨ha, other⟩ := List.mem_filter.mp ha
      exact (List.mem_cons.mp (cover a ha)).resolve_left (by simpa using other)
    rw [List.flatMap_cons, rest]
    exact ((ih distinct _ left).append_left _).trans (List.filter_append_perm _ l)

/-- Entries that stand for the elements of their key, together, are the list. -/
theorem flatMap_toList_perm {β : Type*} (key : α → κ) (l : List α) {m : ExtTreeMap κ β}
    (f : β → List α) (cover : ∀ a ∈ l, key a ∈ m)
    (entries : ∀ e ∈ m.toList, (f e.2).Perm (l.filter fun a => key a = e.1)) :
    (m.toList.flatMap fun e => f e.2).Perm l := by
  have groups : (m.toList.flatMap fun e => f e.2).Perm
      (m.keys.flatMap fun k => l.filter (fun a => key a = k)) := by
    rw [← ExtTreeMap.map_fst_toList_eq_keys, List.flatMap_map]
    exact List.Perm.flatMap_left _ entries
  refine groups.trans (flatMap_filter_perm key ExtTreeMap.nodup_keys l fun a ha => ?_)
  exact ExtTreeMap.mem_keys.mpr (cover a ha)

/-- The groups together are the list. -/
theorem flatMap_group_perm (key : α → κ) (l : List α) :
    ((group key l).toList.flatMap (·.2)).Perm l := by
  refine flatMap_toList_perm key l id (fun a ha => (mem_group key l (key a)).mpr ⟨a, ha, rfl⟩) ?_
  intro e he
  rw [id, group_eq_some (ExtTreeMap.mem_toList_iff_getElem?_eq_some.mp he)]

/-! ## Groups of groups -/

section Nested

variable {κ' : Type*} [Ord κ'] [TransOrd κ']

/-- `m[k][k'].push_back(a)`. -/
def pushAt (m : ExtTreeMap κ (ExtTreeMap κ' (List α))) (k : κ) (k' : κ') (a : α) :
    ExtTreeMap κ (ExtTreeMap κ' (List α)) :=
  m.insert k (push (m[k]?.getD ∅) k' a)

def group₂ (key : α → κ) (key' : α → κ') (l : List α) : ExtTreeMap κ (ExtTreeMap κ' (List α)) :=
  l.foldl (fun m a => pushAt m (key a) (key' a) a) ∅

/-- An entry has the groups of the elements of its key. -/
theorem group₂_eq_some {key : α → κ} {key' : α → κ'} {l : List α} {k : κ}
    {g : ExtTreeMap κ' (List α)} (h : (group₂ key key' l)[k]? = some g) :
    g = group key' (l.filter fun a => key a = k) := by
  have all (m : ExtTreeMap κ (ExtTreeMap κ' (List α))) :
      (l.foldl (fun m a => pushAt m (key a) (key' a) a) m)[k]?.getD ∅ =
        (l.filter fun a => key a = k).foldl (fun m a => push m (key' a) a) (m[k]?.getD ∅) := by
    clear h
    induction l generalizing m with
    | nil => rfl
    | cons a l ih =>
      rw [List.foldl_cons, ih]
      by_cases same : key a = k <;> simp [pushAt, same]
  have mine := all ∅
  rw [← group₂, h] at mine
  simpa [group] using mine

omit [DecidableEq κ] in
theorem mem_group₂ (key : α → κ) (key' : α → κ') (l : List α) (k : κ) :
    k ∈ group₂ key key' l ↔ ∃ a ∈ l, key a = k := by
  have all (m : ExtTreeMap κ (ExtTreeMap κ' (List α))) :
      k ∈ l.foldl (fun m a => pushAt m (key a) (key' a) a) m ↔ k ∈ m ∨ ∃ a ∈ l, key a = k := by
    induction l generalizing m with
    | nil => simp
    | cons a l ih =>
      rw [List.foldl_cons, ih]
      simp only [pushAt, ExtTreeMap.mem_insert, Std.compare_eq_iff_eq, List.mem_cons,
        exists_eq_or_imp]
      tauto
  simp [group₂, all]

/-- The groups of all groups together are the list. -/
theorem flatMap_group₂_perm [LawfulEqOrd κ'] (key : α → κ) (key' : α → κ') (l : List α) :
    ((group₂ key key' l).toList.flatMap fun e => e.2.toList.flatMap (·.2)).Perm l := by
  classical
  refine flatMap_toList_perm key l (fun g : ExtTreeMap κ' (List α) => g.toList.flatMap (·.2)) ?_
    fun e he => ?_
  · exact fun a ha => (mem_group₂ key key' l (key a)).mpr ⟨a, ha, rfl⟩
  · rw [group₂_eq_some (ExtTreeMap.mem_toList_iff_getElem?_eq_some.mp he)]
    exact flatMap_group_perm key' _

end Nested

/-! ## Positions -/

theorem mem_iff_getD {β : Type*} (l : List β) (d x : β) :
    x ∈ l ↔ ∃ pos ∈ List.range l.length, l.getD pos d = x := by
  constructor
  · intro inside
    obtain ⟨pos, here⟩ := List.getElem?_of_mem inside
    refine ⟨pos, List.mem_range.mpr (List.getElem?_eq_some_iff.mp here).1, ?_⟩
    rw [List.getD_eq_getElem?_getD, here, Option.getD_some]
  · rintro ⟨pos, bound, rfl⟩
    rw [List.getD_eq_getElem?_getD, List.getElem?_eq_getElem (List.mem_range.mp bound),
      Option.getD_some]
    exact List.getElem_mem _

theorem range_eq_map_zipIdx {β : Type*} (l : List β) :
    List.range l.length = l.zipIdx.map (·.2) := by
  rw [List.zipIdx_map_snd, List.range_eq_range']

/-- A loop over the elements with their positions is one over the positions. -/
theorem foldl_zipIdx {β γ : Type*} (f : γ → β → Nat → γ) (d : β) (l : List β) (x : γ) :
    l.zipIdx.foldl (fun x e => f x e.1 e.2) x =
      (List.range l.length).foldl (fun x i => f x (l.getD i d) i) x := by
  rw [range_eq_map_zipIdx, List.foldl_map]
  refine List.foldl_ext _ _ _ fun x e he => ?_
  have here : l[e.2]? = some e.1 := List.mem_zipIdx_iff_getElem?.mp he
  rw [List.getD_eq_getElem?_getD, here, Option.getD_some]

/-- The elements at the positions of some of the elements, with these positions. -/
theorem filterMap_filter_range {β γ : Type*} (P : β → Bool) (f : β → Nat → γ) (d : β) (l : List β) :
    ((List.range l.length).filter fun i => P (l.getD i d)).filterMap
      (fun i => l[i]?.map fun b => f b i) =
      (l.zipIdx.filter fun e => P e.1).map fun e => f e.1 e.2 := by
  have here (e : β × Nat) (he : e ∈ l.zipIdx) : l[e.2]? = some e.1 :=
    List.mem_zipIdx_iff_getElem?.mp he
  rw [range_eq_map_zipIdx, List.filter_map, List.filterMap_map, ← List.filterMap_eq_map]
  have same : l.zipIdx.filter ((fun i => P (l.getD i d)) ∘ (·.2)) =
      l.zipIdx.filter fun e => P e.1 := by
    refine List.filter_congr fun e he => ?_
    rw [Function.comp_apply, List.getD_eq_getElem?_getD, here e he, Option.getD_some]
  rw [same]
  refine List.filterMap_congr fun e he => ?_
  simp [here e (List.mem_of_mem_filter he)]

/-- Some of the elements, when what is made of them does not depend on the position. -/
theorem map_filter_zipIdx {β γ : Type*} (P : β → Bool) (f : β → Nat → γ) (g : β → γ) (l : List β)
    (same : ∀ i b, l[i]? = some b → f b i = g b) :
    ((l.zipIdx.filter fun e => P e.1).map fun e => f e.1 e.2) = (l.filter P).map g := by
  have each : ((l.zipIdx.filter fun e => P e.1).map fun e => f e.1 e.2) =
      (l.zipIdx.filter fun e => P e.1).map (g ∘ Prod.fst) := by
    refine List.map_congr_left fun e he => ?_
    exact same e.2 e.1 (List.mem_zipIdx_iff_getElem?.mp (List.mem_of_mem_filter he))
  rw [each, ← List.map_map]
  congr 1
  have := List.filter_map (p := P) (f := Prod.fst) (l := l.zipIdx)
  rw [List.zipIdx_map_fst] at this
  exact this.symm

/-! ## Groups as sets -/

section Sets

variable {β : Type v} [Ord β] [TransOrd β] [LawfulEqOrd β]

/-- `m[k].insert(b)`. -/
def put (m : ExtTreeMap κ (ExtTreeSet β)) (k : κ) (b : β) : ExtTreeMap κ (ExtTreeSet β) :=
  m.insert k ((m[k]?.getD ∅).insert b)

def groupSet (key : β → κ) (l : List β) : ExtTreeMap κ (ExtTreeSet β) :=
  l.foldl (fun m b => put m (key b) b) ∅

theorem mem_foldl_put {γ : Type*} (key : γ → κ) (val : γ → β) (l : List γ)
    (m : ExtTreeMap κ (ExtTreeSet β)) (k : κ) (b : β) :
    b ∈ (l.foldl (fun m c => put m (key c) (val c)) m)[k]?.getD ∅ ↔
      b ∈ m[k]?.getD ∅ ∨ ∃ c ∈ l, key c = k ∧ val c = b := by
  induction l generalizing m with
  | nil => simp
  | cons c l ih =>
    rw [List.foldl_cons, ih]
    simp only [List.mem_cons, exists_eq_or_imp]
    by_cases same : key c = k
    · simp only [put, getElem?_insert, same, if_true, Option.getD_some, ExtTreeSet.mem_insert,
        Std.compare_eq_iff_eq, true_and]
      tauto
    · simp only [put, getElem?_insert, same, if_false, false_and, false_or]

theorem mem_groupSet {key : β → κ} {l : List β} {k : κ} {g : ExtTreeSet β}
    (h : (groupSet key l)[k]? = some g) (b : β) : b ∈ g ↔ b ∈ l ∧ key b = k := by
  have := mem_foldl_put key id l ∅ k b
  rw [show l.foldl (fun m c => put m (key c) (id c)) ∅ = groupSet key l from rfl, h] at this
  simpa [and_comm] using this

omit [DecidableEq κ] [LawfulEqOrd β] in
theorem exists_of_mem_groupSet {key : β → κ} {l : List β} {k : κ} (h : k ∈ groupSet key l) :
    ∃ b ∈ l, key b = k := by
  have all (m : ExtTreeMap κ (ExtTreeSet β)) (h : k ∈ l.foldl (fun m b => put m (key b) b) m) :
      k ∈ m ∨ ∃ b ∈ l, key b = k := by
    clear * - h
    induction l generalizing m with
    | nil => exact .inl h
    | cons b l ih =>
      rcases ih _ h with old | ⟨b', hb', same⟩
      · rcases ExtTreeMap.mem_insert.mp old with same | old
        · exact .inr ⟨b, by simp, compare_eq_iff_eq.mp same⟩
        · exact .inl old
      · exact .inr ⟨b', by simp [hb'], same⟩
  exact (all ∅ h).resolve_left (by simp)

/-- The elements of all groups, none of them twice. -/
theorem mem_flatMap_groupSet (key : β → κ) (l : List β) (b : β) :
    b ∈ (groupSet key l).toList.flatMap (·.2.toList) ↔ b ∈ l := by
  simp only [List.mem_flatMap, ExtTreeSet.mem_toList, Prod.exists,
    ExtTreeMap.mem_toList_iff_getElem?_eq_some]
  constructor
  · rintro ⟨k, g, found, inside⟩
    exact ((mem_groupSet found b).mp inside).1
  · intro inside
    have here : b ∈ (groupSet key l)[key b]?.getD ∅ :=
      (mem_foldl_put key id l ∅ (key b) b).mpr (.inr ⟨b, inside, rfl, rfl⟩)
    cases found : (groupSet key l)[key b]? with
    | none => simp [found] at here
    | some g => exact ⟨key b, g, found, by simpa [found] using here⟩

theorem nodup_flatMap_groupSet (key : β → κ) (l : List β) :
    ((groupSet key l).toList.flatMap (·.2.toList)).Nodup := by
  refine List.nodup_flatMap.mpr ⟨fun e _ => ?_, ?_⟩
  · exact ExtTreeSet.distinct_toList.imp fun h same => h (compare_eq_iff_eq.mpr same)
  · refine ExtTreeMap.distinct_keys_toList.imp_of_mem fun {e e'} he he' other => ?_
    have found := ExtTreeMap.mem_toList_iff_getElem?_eq_some.mp he
    have found' := ExtTreeMap.mem_toList_iff_getElem?_eq_some.mp he'
    intro b hb hb'
    have key₁ := ((mem_groupSet found b).mp (ExtTreeSet.mem_toList.mp hb)).2
    have key₂ := ((mem_groupSet found' b).mp (ExtTreeSet.mem_toList.mp hb')).2
    exact other (compare_eq_iff_eq.mpr (key₁.symm.trans key₂))

end Sets

end Grouping

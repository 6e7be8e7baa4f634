import Vsfs.Masterd.IndexNamespace

/-!
# Indices below a directory

`collect` and `get_indices` take the paths that begin with the root as a string. Strings that
begin with `/a` come together in the order of the nodes, but `/ab` is among them and is not
below `/a` as a directory.
-/

namespace Vsfs.Masterd.IndexNamespace

open Std

/-- `p` is the root, or lies below it as a directory. -/
def Below (root p : Str) : Prop := p = root ∨ root = ['/'] ∨ (root ++ ['/']) <+: p

instance (root p : Str) : Decidable (Below root p) := inferInstanceAs (Decidable (_ ∨ _ ∨ _))

/-- The lookup and the directory tree disagree on `p`: the root goes on in `p` with something
other than a slash, or `p` does not begin with a slash at all. -/
def Stray (root p : Str) : Prop :=
  (root ≠ ['/'] ∧ ∃ c rest, c ≠ '/' ∧ p = root ++ c :: rest) ∨ (root = ['/'] ∧ ¬ root <+: p)

theorem prefix_of_below {root p : Str} (deep : root ≠ ['/']) (h : Below root p) : root <+: p := by
  rcases h with rfl | rfl | h
  · exact List.prefix_rfl
  · exact absurd rfl deep
  · exact (List.prefix_append _ _).trans h

/-- Where they agree, the string prefix is the directory relation. -/
theorem prefix_iff_below {root p : Str} (agree : ¬ Stray root p) : root <+: p ↔ Below root p := by
  by_cases top : root = ['/']
  · have below : root <+: p := by
      by_contra outside
      exact agree (.inr ⟨top, outside⟩)
    exact iff_of_true below (.inr (.inl top))
  · refine ⟨fun h => ?_, prefix_of_below top⟩
    obtain ⟨rest, rfl⟩ := h
    cases rest with
    | nil => exact .inl (by simp)
    | cons c rest =>
      by_cases slash : c = '/'
      · subst slash
        exact .inr (.inr ⟨rest, by simp⟩)
      · exact absurd (.inl ⟨top, c, rest, slash, rfl⟩) agree

theorem not_prefix_iff_below {root p : Str} (stray : Stray root p) :
    ¬ (root <+: p ↔ Below root p) := by
  rcases stray with ⟨deep, c, rest, notSlash, rfl⟩ | ⟨top, outside⟩
  · intro same
    rcases same.mp (List.prefix_append _ _) with h | h | h
    · simp at h
    · exact deep h
    · have := (List.prefix_append_right_inj _).mp h
      exact notSlash (List.cons_prefix_cons.mp this).1.symm
  · exact fun same => outside (same.mpr (.inr (.inl top)))

/-- In ascending order, exactly the paths below the root that have the name. -/
def CollectExact (ns : IndexNamespace) (root name : Str) : Prop :=
  (ns.collect root name).Pairwise (fun a b => compare a b = .lt) ∧
    ∀ p, p ∈ ns.collect root name ↔
      (∃ node, ns.nodes[p]? = some node ∧ name ∈ node.names) ∧ Below root p

/-- The index paths of all the names on the paths below the root. -/
def IndicesExact [FsPath] (ns : IndexNamespace) (root : Str) : Prop :=
  ns.getIndices root true = (ns.nodes.toList.filter (fun n => decide (Below root n.1))).flatMap
    (fun n => n.2.names.toList.map (PathUtil.indexPath n.1))

theorem sorted_collect (ns : IndexNamespace) (root name : Str) :
    (ns.collect root name).Pairwise (fun a b => compare a b = .lt) := by
  have sorted : ns.nodes.toList.Pairwise (fun a b => compare a.1 b.1 = .lt) :=
    ExtTreeMap.ordered_keys_toList
  rw [collect, subtree_eq_filter]
  exact List.pairwise_map.mpr
    (sorted.sublist ((List.filter_sublist).trans List.filter_sublist))

/-- `collect` is exact when no path with the name strays. -/
theorem collectExact_iff (ns : IndexNamespace) (root name : Str) :
    ns.CollectExact root name ↔
      ∀ p node, ns.nodes[p]? = some node → name ∈ node.names → ¬ Stray root p := by
  constructor
  · rintro ⟨-, exact_⟩ p node found named stray
    refine not_prefix_iff_below stray ?_
    have same := exact_ p
    rw [mem_collect] at same
    constructor
    · intro below
      exact (same.mp ⟨node, found, below, named⟩).2
    · intro below
      obtain ⟨_, -, inside, -⟩ := same.mpr ⟨⟨node, found, named⟩, below⟩
      exact inside
  · intro agree
    refine ⟨ns.sorted_collect root name, fun p => ?_⟩
    rw [mem_collect]
    constructor
    · rintro ⟨node, found, inside, named⟩
      exact ⟨⟨node, found, named⟩, (prefix_iff_below (agree p node found named)).mp inside⟩
    · rintro ⟨⟨node, found, named⟩, below⟩
      exact ⟨node, found, (prefix_iff_below (agree p node found named)).mpr below, named⟩

/-- `get_indices` is exact when a path that strays has no name. -/
theorem indicesExact_iff [FsPath] (ns : IndexNamespace) (root : Str) :
    ns.IndicesExact root ↔
      ∀ p node, ns.nodes[p]? = some node → Stray root p → node.names = ∅ := by
  have nothing (n : Str × IndexNamespaceNode) :
      n.2.names.toList.map (PathUtil.indexPath n.1) = [] ↔ n.2.names = ∅ := by
    rw [List.map_eq_nil_iff, ← List.isEmpty_iff, ExtTreeSet.isEmpty_toList, ExtTreeSet.isEmpty_iff]
  have entries {Q : Str → IndexNamespaceNode → Prop} :
      (∀ n ∈ ns.nodes.toList, Q n.1 n.2) ↔ ∀ p node, ns.nodes[p]? = some node → Q p node := by
    simp only [Prod.forall, ExtTreeMap.mem_toList_iff_getElem?_eq_some]
  have stray_iff (p : Str) : Stray root p ↔ ¬ (root <+: p ↔ Below root p) :=
    ⟨not_prefix_iff_below, fun differ => by_contra fun agree => differ (prefix_iff_below agree)⟩
  rw [IndicesExact, getIndices, if_pos rfl, subtree_eq_filter, ← entries]
  by_cases top : root = ['/']
  · -- Everything is below the top; the lookup misses what does not begin with a slash.
    have all (n : Str × IndexNamespaceNode) : Below root n.1 := .inr (.inl top)
    rw [eq_comm, Scan.flatMap_filter_eq_iff fun n _ => by simpa using all n]
    refine forall₂_congr fun n _ => ?_
    simp [nothing, stray_iff, all n]
  · rw [Scan.flatMap_filter_eq_iff fun n h => by
      simpa using prefix_of_below top (by simpa using h : Below root n.1)]
    refine forall₂_congr fun n _ => ?_
    have narrower := prefix_of_below (p := n.1) top
    simp only [nothing, stray_iff, List.isPrefixOf_iff_prefix, decide_eq_true_eq]
    tauto

/-- The lookups are exact in a subtree, for a name and for all names, exactly when no path
that begins with the root without being below it has an index. -/
theorem lookups_exact_iff [FsPath] (ns : IndexNamespace) (root name : Str) :
    (ns.CollectExact root name ∧ ns.IndicesExact root) ↔
      ∀ p node, ns.nodes[p]? = some node → Stray root p → node.names = ∅ := by
  rw [collectExact_iff, indicesExact_iff]
  refine and_iff_right_of_imp fun unnamed p node found named stray => ?_
  rw [unnamed p node found stray] at named
  exact absurd named ExtTreeSet.not_mem_empty

/-- An index on `/ab`, and nothing else. -/
def sibling : IndexNamespace where
  nodes := (∅ : ExtTreeMap Str IndexNamespaceNode).insert "/ab".toList
    ⟨"/ab".toList, (∅ : ExtTreeSet Str).insert "blue".toList⟩

/-- The index of a sibling is collected under `/a`. -/
theorem collect_sibling :
    Normal "/a".toList ∧ ¬ sibling.CollectExact "/a".toList "blue".toList := by
  have plain : Plain "a".toList := by decide
  refine ⟨.top plain, fun exact_ => ?_⟩
  have collected : "/ab".toList ∈ sibling.collect "/a".toList "blue".toList := by
    exact mem_collect.mpr ⟨_, ExtTreeMap.getElem?_insert_self, ⟨"b".toList, rfl⟩,
      ExtTreeSet.mem_insert_self⟩
  have below := ((exact_.2 _).mp collected).2
  revert below
  decide

end Vsfs.Masterd.IndexNamespace

import Vsfs.Lib.Cuts
import Vsfs.Masterd.Subtree
import Vsfs.Masterd.WriteThrough

/-!
# The lowest index around a file

`find` looks at the path of a file, then at what is in front of its last slash, and so on,
and at the root in the end. It stops at the first path that has the name.

## Main results

- `find_lowest`: the longest registered path that is the file, the root or a directory around
  the file, and a failure exactly when there is none.
-/

namespace Vsfs.Masterd.IndexNamespace

open Std FiniteMap Cuts

/-- The path is registered and has the name. -/
def Carries (ns : IndexNamespace) (path name : Str) : Prop := name ∈ ns.namesAt path

/-- The longest path with the name among the file, the root and the directories around the
file. -/
structure Lowest (ns : IndexNamespace) (fileName name path : Str) : Prop where
  carries : ns.Carries path name
  around : Below path fileName
  longest : ∀ q, ns.Carries q name → Below q fileName → q.length ≤ path.length

variable {ns : IndexNamespace} {name path fileName p q : Str}

theorem lists_iff : ns.lists path name = true ↔ ns.Carries path name := by
  rw [lists_eq, ExtTreeSet.contains_iff_mem, Carries]

theorem Lowest.unique (h : ns.Lowest fileName name p) (h' : ns.Lowest fileName name q)
    (rooted : fileName.head? = some '/') : p = q := by
  have same : p.length = q.length :=
    Nat.le_antisymm (h'.longest p h.carries h.around) (h.longest q h'.carries h'.around)
  -- Both are prefixes of the file.
  have inside {r : Str} (around : Below r fileName) : r <+: fileName := by
    by_cases root : r = ['/']
    · subst root
      cases fileName with
      | nil => cases rooted
      | cons c rest =>
        cases rooted
        exact ⟨rest, rfl⟩
    · exact prefix_of_below root around
  have prefixed := List.prefix_of_prefix_length_le (inside h.around) (inside h'.around) same.le
  exact prefixed.eq_of_length same

/-! ## The loop -/

/-- The paths that the loop comes to. -/
def Visited (path q : Str) : Prop := q = path ∨ q ≠ [] ∧ Cut '/' path q

theorem beforeLastSlash_eq (path : Str) : beforeLastSlash path = beforeLast '/' path := by
  unfold beforeLastSlash beforeLast
  cases path.reverse.dropWhile (fun c => decide (c ≠ '/')) <;> rfl

/-- The longest visited path with the name, if there is one. -/
theorem findFrom_spec (ns : IndexNamespace) (name path : Str) :
    match ns.findFrom name path with
    | some p => ns.Carries p name ∧ Visited path p ∧
        ∀ q, ns.Carries q name → Visited path q → q.length ≤ p.length
    | none => ∀ q, ns.Carries q name → ¬ Visited path q := by
  induction path using findFrom.induct ns name with
  | case1 path found =>
    rw [findFrom_eq, if_pos found]
    refine ⟨lists_iff.mp found, .inl rfl, fun q _ visited => ?_⟩
    rcases visited with rfl | ⟨-, cut⟩
    · exact le_rfl
    · exact cut.length_lt.le
  | case2 path missing last =>
    rw [findFrom_eq, if_neg missing, last]
    rintro q carries (rfl | ⟨-, cut⟩)
    · exact missing (lists_iff.mpr carries)
    · exact not_cut (beforeLastSlash_eq path ▸ last) cut
  | case3 path missing last =>
    rw [findFrom_eq, if_neg missing, last]
    rintro q carries (rfl | ⟨nonempty, cut⟩)
    · exact missing (lists_iff.mpr carries)
    · rcases (cut_iff (beforeLastSlash_eq path ▸ last)).mp cut with rfl | cut
      · exact nonempty rfl
      · simpa using cut.length_lt
  | case4 path missing c rest last ih =>
    rw [findFrom_eq, if_neg missing, last]
    -- From here on the loop visits what it would visit from the shorter path.
    have visits {q : Str} (carries : ns.Carries q name) :
        Visited path q ↔ Visited (c :: rest) q := by
      have other : q ≠ path := by
        rintro rfl
        exact missing (lists_iff.mpr carries)
      simp only [Visited, other, false_or, cut_iff (beforeLastSlash_eq path ▸ last)]
      constructor
      · rintro ⟨nonempty, rfl | cut⟩
        · exact .inl rfl
        · exact .inr ⟨nonempty, cut⟩
      · rintro (rfl | ⟨nonempty, cut⟩)
        · exact ⟨List.cons_ne_nil _ _, .inl rfl⟩
        · exact ⟨nonempty, .inr cut⟩
    revert ih
    dsimp only
    cases ns.findFrom name (c :: rest) with
    | none => exact fun none q carries visited => none q carries ((visits carries).mp visited)
    | some p =>
      rintro ⟨carries, visited, longest⟩
      exact ⟨carries, (visits carries).mpr visited,
        fun q carries visited => longest q carries ((visits carries).mp visited)⟩

/-- The visited paths and the root are those around the file, but for an empty path. -/
theorem visited_or_root (nonempty : q ≠ []) :
    Visited fileName q ∨ q = ['/'] ↔ Below q fileName := by
  unfold Visited Below Cut
  constructor
  · rintro ((rfl | ⟨-, cut⟩) | root)
    · exact .inl rfl
    · exact .inr (.inr cut)
    · exact .inr (.inl root)
  · rintro (rfl | root | cut)
    · exact .inl (.inl rfl)
    · exact .inr root
    · exact .inl (.inr ⟨nonempty, cut⟩)

/-- `find` on a namespace without names on the empty path. -/
theorem find_spec (clean : ∀ name, ¬ ns.Carries [] name) (fileName name : Str) :
    (∃ p, ns.find fileName name = (.OK, some p) ∧ ns.Lowest fileName name p) ∨
      ns.find fileName name = (⟨-ENOENT, "The index does not exist."⟩, none) ∧
        ∀ p, ns.Carries p name → ¬ Below p fileName := by
  have around {q : Str} (carries : ns.Carries q name) :
      Visited fileName q ∨ q = ['/'] ↔ Below q fileName := by
    refine visited_or_root ?_
    rintro rfl
    exact clean name carries
  have spec := findFrom_spec ns name fileName
  unfold find
  cases walk : ns.findFrom name fileName with
  | some p =>
    rw [walk] at spec
    obtain ⟨carries, visited, longest⟩ := spec
    refine .inl ⟨p, rfl, carries, (around carries).mp (.inl visited), fun q here below => ?_⟩
    rcases (around here).mpr below with visited | rfl
    · exact longest q here visited
    · have nonempty : p ≠ [] := by
        rintro rfl
        exact clean name carries
      exact List.length_pos_iff.mpr nonempty
  | none =>
    rw [walk] at spec
    by_cases root : ns.lists ['/'] name = true
    · refine .inl ⟨['/'], by simp only [root, if_true], lists_iff.mp root, .inr (.inl rfl), ?_⟩
      intro q here below
      rcases (around here).mpr below with visited | rfl
      · exact absurd visited (spec q here)
      · exact le_rfl
    · refine .inr ⟨by simp only [root, if_false, Bool.false_eq_true], fun q here below => ?_⟩
      rcases (around here).mpr below with visited | rfl
      · exact spec q here visited
      · exact root (lists_iff.mpr here)

/-! ## Runs -/

section Runs

variable [Thrift IndexNamespaceNode]

/-- The empty path is not among the nodes. -/
def Clean (ns : IndexNamespace) : Prop := [] ∉ ns.nodes

omit [Thrift IndexNamespaceNode] in
theorem Clean.not_carries (h : Clean ns) (name : Str) : ¬ ns.Carries [] name := by
  unfold Carries
  rw [namesAt, (not_mem_iff _ _).mp h]
  exact ExtTreeSet.not_mem_empty

omit [Thrift IndexNamespaceNode] in
theorem cleanupPath_ne_nil {key : Str} (clean : cleanupPath path = .ok key) : key ≠ [] := by
  cases path with
  | nil => cases clean
  | cons c rest =>
    cases clean
    exact List.cons_ne_nil _ _

omit [Thrift IndexNamespaceNode] in
theorem Clean.insert {key : Str} {node : IndexNamespaceNode} (h : [] ∉ ns.nodes)
    (nonempty : key ≠ []) : [] ∉ ns.nodes.insert key node := by
  intro inside
  rcases ExtTreeMap.mem_insert.mp inside with same | old
  · exact nonempty (compare_eq_iff_eq.mp same)
  · exact h old

/-- A call on a path that is not empty returns, and leaves no node on the empty path. -/
theorem Clean.step (h : Clean ns) {r : Request} (nonempty : r.path ≠ []) :
    ∃ ns', ns.step r = .ok ns' ∧ Clean ns' := by
  obtain ⟨key, clean⟩ := cleanupPath_ok nonempty
  have key_ne := cleanupPath_ne_nil clean
  cases r with
  | insert io path name =>
    change cleanupPath path = .ok key at clean
    simp only [IndexNamespace.step, IndexNamespace.insert, clean, bind, Except.bind, pure,
      Except.pure]
    by_cases old : name ∈ ((ns.nodes[key]?).getD ⟨key, ∅⟩).names
    · rw [if_pos old]
      exact ⟨ns, rfl, h⟩
    · rw [if_neg old]
      exact ⟨_, rfl, Clean.insert h key_ne⟩
  | remove io path name =>
    change cleanupPath path = .ok key at clean
    simp only [IndexNamespace.step, IndexNamespace.remove, clean, bind, Except.bind, pure,
      Except.pure]
    cases ns.nodes[key]? with
    | none => exact ⟨ns, rfl, h⟩
    | some node =>
      by_cases old : name ∈ node.names
      · simp only [old, not_true, if_false]
        exact ⟨_, rfl, Clean.insert h key_ne⟩
      · simp only [old, not_false_iff, if_true]
        exact ⟨ns, rfl, h⟩
  | removePath io path =>
    change cleanupPath path = .ok key at clean
    simp only [IndexNamespace.step, IndexNamespace.removePath, clean, bind, Except.bind, pure,
      Except.pure]
    by_cases old : key ∈ ns.nodes
    · simp only [old, not_true, if_false]
      refine ⟨_, rfl, ?_⟩
      cases (ns.store.remove io key).1.ok with
      | false => exact h
      | true => exact fun inside => h (ExtTreeMap.mem_of_mem_erase inside)
    · simp only [old, not_false_iff, if_true]
      exact ⟨ns, rfl, h⟩

/-- After any calls on absolute paths, `find` returns the lowest index around a file, and
fails when there is none. -/
theorem find_lowest (requests : List Request)
    (absolute : ∀ r ∈ requests, r.path.head? = some '/') :
    ∃ ns, Transition.run step {} requests = .ok ns ∧
      ∀ fileName name, fileName.head? = some '/' →
        (∀ p, ns.find fileName name = (.OK, some p) ↔ ns.Lowest fileName name p) ∧
        ((ns.find fileName name).1.ok = true ∨ (ns.find fileName name).1.error = -ENOENT) ∧
        ((ns.find fileName name).1.error = -ENOENT ↔
          ¬ ∃ p, ns.Carries p name ∧ Below p fileName) := by
  have keeps (done : List Request) (ns : IndexNamespace) (r : Request) (rest : List Request)
      (total : done ++ r :: rest = requests) (h : Clean ns) (_ : True) :
      ∃ ns', ns.step r = .ok ns' ∧ Clean ns' := by
    refine h.step fun empty => ?_
    have head := absolute r (total ▸ by simp)
    rw [empty] at head
    cases head
  obtain ⟨ns, ran, clean⟩ := Transition.run_invariant keeps (List.nil_append requests)
    (show Clean {} from ExtTreeMap.not_mem_empty) (Transition.meets_true _ _ _)
  refine ⟨ns, ran, fun fileName name rooted => ?_⟩
  rcases find_spec clean.not_carries fileName name with ⟨p, found, lowest⟩ | ⟨failed, none⟩
  · rw [found]
    refine ⟨fun q => ?_, .inl rfl, iff_of_false (by simp [Status.OK, ENOENT]) fun none => ?_⟩
    · constructor
      · intro same
        cases same
        exact lowest
      · intro other
        rw [lowest.unique other rooted]
    · exact none ⟨p, lowest.carries, lowest.around⟩
  · rw [failed]
    refine ⟨fun q => iff_of_false (by simp) fun lowest => ?_, .inr rfl, iff_of_true rfl ?_⟩
    · exact none q lowest.carries lowest.around
    · rintro ⟨p, carries, below⟩
      exact none p carries below

end Runs

section Example

attribute [local instance] BinaryProtocol.indexNamespaceNodeThrift

/-- Indices on the root and on a directory, written with slashes at the end. -/
def rootAndBar : List Request :=
  [.insert .OK "/foo/bar//".toList "test".toList, .insert .OK "/".toList "test".toList]

theorem find_rootAndBar : ∃ ns, Transition.run step {} rootAndBar = .ok ns ∧
    ∀ fileName name, fileName.head? = some '/' →
      (∀ p, ns.find fileName name = (.OK, some p) ↔ ns.Lowest fileName name p) ∧
      ((ns.find fileName name).1.ok = true ∨ (ns.find fileName name).1.error = -ENOENT) ∧
      ((ns.find fileName name).1.error = -ENOENT ↔
        ¬ ∃ p, ns.Carries p name ∧ Below p fileName) :=
  find_lowest rootAndBar (by decide)

end Example

end Vsfs.Masterd.IndexNamespace

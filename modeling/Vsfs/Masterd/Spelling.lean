import Mathlib.Data.List.DropRight
import Vsfs.Masterd.Subtree
import Vsfs.Masterd.WriteThrough

/-!
# Slashes at the end of a path

`insert`, `remove` and `have` take the slashes at the end of their path away first, with a loop
that starts at the last character. The lookups below a directory take the path as it is.

## Main results

- `spelledAlike_iff`: exactly when all operations treat a path with more slashes at its end as
  the path itself.
-/

namespace Vsfs.Masterd.IndexNamespace

open Std FiniteMap

/-! ## The loop -/

/-- `path[pos]`; behind the last character stands a NUL. -/
def charAt (path : Str) (pos : Nat) : Cpp Char :=
  if pos ≤ path.length then .ok (path.getD pos '\x00') else .error (.undefined "path[pos]")

/-- The loop of `cleanup_path`, which counts down. -/
def skipSlashes (path : Str) : Nat → Cpp Nat
  | 0 => .ok 0
  | pos + 1 => do
    if (← charAt path (pos + 1)) = '/' then skipSlashes path pos else return pos + 1

/-- `cleanup_path` with its positions; `size() - 1` wraps around for an empty path. -/
def cleanupPathAt (path : Str) : Cpp Str := do
  let pos ← skipSlashes path (if path = [] then 2 ^ 64 - 1 else path.length - 1)
  return path.take (pos + 1)

/-- From a position inside, the loop stays inside. -/
theorem skipSlashes_spec (c : Char) (rest : Str) {pos : Nat} (inside : pos ≤ rest.length) :
    ∃ n, skipSlashes (c :: rest) pos = .ok n ∧
      (c :: rest).take (n + 1) = c :: (rest.take pos).rdropWhile (· = '/') := by
  induction pos with
  | zero => exact ⟨0, rfl, by simp⟩
  | succ pos ih =>
    have here : pos < rest.length := Nat.lt_of_succ_le inside
    have char : charAt (c :: rest) (pos + 1) = .ok rest[pos] := by
      simp [charAt, here, Nat.le_of_lt here]
    have more : rest.take (pos + 1) = rest.take pos ++ [rest[pos]] := by simp
    rw [skipSlashes, char, more]
    simp only [bind, Except.bind, pure, Except.pure]
    by_cases slash : rest[pos] = '/'
    · obtain ⟨n, ran, text⟩ := ih (by omega)
      refine ⟨n, by simp only [slash, if_true, ran], ?_⟩
      rw [text, List.rdropWhile_concat_pos _ _ _ (by simpa using slash)]
    · refine ⟨pos + 1, by simp only [slash, if_false], ?_⟩
      rw [List.rdropWhile_concat_neg _ _ _ (by simpa using slash), List.take_succ_cons, more]

theorem cleanupPath_cons (c : Char) (rest : Str) :
    cleanupPath (c :: rest) = .ok (c :: rest.rdropWhile (· = '/')) := rfl

theorem cleanupPathAt_eq {path : Str} (nonempty : path ≠ []) :
    cleanupPathAt path = cleanupPath path := by
  cases path with
  | nil => exact absurd rfl nonempty
  | cons c rest =>
    obtain ⟨n, ran, text⟩ := skipSlashes_spec c rest (Nat.le_refl rest.length)
    rw [cleanupPathAt, if_neg nonempty, List.length_cons, Nat.add_sub_cancel, ran,
      cleanupPath_cons]
    simp only [bind, Except.bind, pure, Except.pure, text, List.take_length]

/-- On the empty path, the first character that is read is far outside. -/
theorem cleanupPathAt_nil : cleanupPathAt [] = .error (.undefined "path[pos]") := by
  have wrapped : (2 ^ 64 - 1 : Nat) = (2 ^ 64 - 2) + 1 := rfl
  have outside : ¬ (2 ^ 64 - 2) + 1 ≤ ([] : Str).length := by simp
  rw [cleanupPathAt, if_pos rfl, wrapped, skipSlashes, charAt, if_neg outside]
  rfl

/-! ## What is cleaned -/

/-- The path with more slashes at its end. -/
abbrev slashed (path : Str) (k : Nat) : Str := path ++ List.replicate k '/'

theorem rdropWhile_slashed (path : Str) (k : Nat) :
    (slashed path k).rdropWhile (· = '/') = path.rdropWhile (· = '/') := by
  induction k with
  | zero => simp [slashed]
  | succ k ih =>
    rw [slashed, List.replicate_succ', ← List.append_assoc,
      List.rdropWhile_concat_pos _ _ _ (by simp), ih]

theorem cleanupPath_slashed {path : Str} (nonempty : path ≠ []) (k : Nat) :
    cleanupPath (slashed path k) = cleanupPath path := by
  cases path with
  | nil => exact absurd rfl nonempty
  | cons c rest =>
    rw [slashed, List.cons_append, cleanupPath_cons, cleanupPath_cons, rdropWhile_slashed]

theorem cleanupPath_idem {path key : Str} (clean : cleanupPath path = .ok key) :
    cleanupPath key = .ok key := by
  cases path with
  | nil => cases clean
  | cons c rest =>
    cases clean
    exact congrArg (fun r => Except.ok (c :: r)) (List.rdropWhile_idempotent _ rest)

theorem cleanupPath_slashes {path : Str} (nonempty : path ≠ []) (all : ∀ c ∈ path, c = '/') :
    cleanupPath path = .ok ['/'] := by
  cases path with
  | nil => exact absurd rfl nonempty
  | cons c rest =>
    obtain ⟨rfl, others⟩ := List.forall_mem_cons.mp all
    have none : rest.rdropWhile (· = '/') = [] :=
      List.rdropWhile_eq_nil_iff.mpr (by simpa using others)
    rw [cleanupPath_cons, none]

/-! ## The operations -/

section Operations

variable [FsPath] [ThriftSerialize IndexNamespaceNode]

/-- The operations do the same for `p'` as for `p`. The paths of the indices on the directory
itself may begin with it as it is spelled. -/
structure Interchangeable (ns : IndexNamespace) (p p' : Str) : Prop where
  insert : ∀ io name, ns.insert io p' name = ns.insert io p name
  remove : ∀ io name, ns.remove io p' name = ns.remove io p name
  removePath : ∀ io, ns.removePath io p' = ns.removePath io p
  «have» : ∀ name, ns.have p' name = ns.have p name
  collect : ∀ name, ns.collect p' name = ns.collect p name
  getIndexNames : ns.getIndexNames p' = ns.getIndexNames p
  indicesBelow : ns.getIndices p' true = ns.getIndices p true
  indicesOn : ∃ names : List Str, ns.getIndices p' false = names.map (PathUtil.indexPath p') ∧
    ns.getIndices p false = names.map (PathUtil.indexPath p)

/-- `cleanup_path` reads inside its argument, does away with further slashes at the end and has
nothing left to do after that, and the operations do not see these slashes. -/
structure SpelledAlike (ns : IndexNamespace) (p : Str) (k : Nat) : Prop where
  inside : ∃ key, cleanupPathAt p = .ok key
  cleaned : p ≠ [] → cleanupPathAt (slashed p k) = cleanupPathAt p
  idempotent : ∀ key, cleanupPathAt p = .ok key → cleanupPathAt key = .ok key
  slashes : p ≠ [] → (∀ c ∈ p, c = '/') → cleanupPathAt p = .ok ['/']
  operations : p ≠ [] → Interchangeable ns p (slashed p k)

/-- No index is on a path that begins with `p` unless it is one below `p` with its slashes. -/
def Unseen (ns : IndexNamespace) (p : Str) (k : Nat) : Prop :=
  ∀ path name, name ∈ ns.namesAt path → p <+: path →
    slashed p k <+: path ∧ path ≠ slashed p k

variable {ns : IndexNamespace} {p : Str} {k : Nat}

omit [FsPath] [ThriftSerialize IndexNamespaceNode] in
theorem mem_namesAt {path name : Str} :
    name ∈ ns.namesAt path ↔ ∃ node, ns.nodes[path]? = some node ∧ name ∈ node.names := by
  rw [namesAt]
  cases ns.nodes[path]? <;> simp

omit [FsPath] [ThriftSerialize IndexNamespaceNode] in
/-- Under further slashes, the lookups do not see a path with a name. -/
theorem Unseen.namesAt_eq (unseen : Unseen ns p k) {q : Str} (here : q = p ∨ q = slashed p k)
    (more : 0 < k) : ns.namesAt q = ∅ := by
  refine ExtTreeSet.eq_empty_iff_forall_not_mem.mpr fun name inside => ?_
  have below : p <+: q := by
    rcases here with rfl | rfl
    · exact List.prefix_rfl
    · exact List.prefix_append _ _
  obtain ⟨longer, other⟩ := unseen q name inside below
  rcases here with rfl | rfl
  · have := longer.length_le
    simp only [slashed, List.length_append, List.length_replicate] at this
    omega
  · exact other rfl

/-- The operations that clean their path. -/
theorem interchangeable_of_unseen (nonempty : p ≠ []) (unseen : k = 0 ∨ Unseen ns p k) :
    Interchangeable ns p (slashed p k) := by
  have clean := cleanupPath_slashed nonempty k
  rcases Nat.eq_zero_or_pos k with rfl | more
  · have same : slashed p 0 = p := by simp [slashed]
    rw [same]
    exact ⟨fun _ _ => rfl, fun _ _ => rfl, fun _ => rfl, fun _ => rfl, fun _ => rfl, rfl, rfl,
      ⟨_, rfl, rfl⟩⟩
  · have unseen := unseen.resolve_left (by omega)
    have names : ns.getIndexNames (slashed p k) = ns.getIndexNames p := by
      rw [getIndexNames_eq, getIndexNames_eq, unseen.namesAt_eq (.inl rfl) more,
        unseen.namesAt_eq (.inr rfl) more]
    have narrower (n : Str × IndexNamespaceNode) :
        (slashed p k).isPrefixOf n.1 = true → p.isPrefixOf n.1 = true := by
      rw [List.isPrefixOf_iff_prefix, List.isPrefixOf_iff_prefix]
      exact (List.prefix_append _ _).trans
    have left (n : Str × IndexNamespaceNode) (hn : n ∈ ns.nodes.toList)
        (below : p.isPrefixOf n.1 = true) (out : ¬ (slashed p k).isPrefixOf n.1 = true) :
        n.2.names = ∅ := by
      refine ExtTreeSet.eq_empty_iff_forall_not_mem.mpr fun name inside => out ?_
      rw [List.isPrefixOf_iff_prefix] at below ⊢
      have found := ExtTreeMap.mem_toList_iff_getElem?_eq_some.mp hn
      exact (unseen n.1 name (mem_namesAt.mpr ⟨n.2, found, inside⟩) below).1
    refine ⟨fun io name => ?_, fun io name => ?_, fun io => ?_, fun name => ?_, fun name => ?_,
      names, ?_, ?_⟩
    · simp only [IndexNamespace.insert, clean]
    · simp only [IndexNamespace.remove, clean]
    · simp only [IndexNamespace.removePath, clean]
    · simp only [IndexNamespace.have, clean]
    · rw [IndexNamespace.collect, IndexNamespace.collect, subtree_eq_filter, subtree_eq_filter,
        List.filter_filter, List.filter_filter]
      congr 1
      refine List.filter_congr fun n hn => ?_
      by_cases below : (slashed p k).isPrefixOf n.1 = true
      · rw [below, narrower n below]
      · by_cases wider : p.isPrefixOf n.1 = true
        · have none : n.2.names.contains name = false := by simp [left n hn wider below]
          simp only [none, Bool.false_and]
        · simp only [below, wider]
    · rw [getIndices, getIndices, if_pos rfl, if_pos rfl, subtree_eq_filter, subtree_eq_filter,
        eq_comm, Scan.flatMap_filter_eq_iff narrower]
      intro n hn below out
      simp [left n hn below out]
    · refine ⟨ns.getIndexNames p, ?_, rfl⟩
      simp only [getIndices, Bool.false_eq_true, if_false, names]

theorem unseen_of_interchangeable (h : Interchangeable ns p (slashed p k)) (more : 0 < k) :
    Unseen ns p k := by
  have longer (path name : Str) (inside : name ∈ ns.namesAt path) (below : p <+: path) :
      slashed p k <+: path := by
    obtain ⟨node, found, named⟩ := mem_namesAt.mp inside
    have collected := mem_collect.mpr ⟨node, found, below, named⟩
    rw [← h.collect, mem_collect] at collected
    obtain ⟨-, -, below', -⟩ := collected
    exact below'
  intro path name inside below
  refine ⟨longer path name inside below, ?_⟩
  rintro rfl
  -- The names on the longer spelling would be names on `p`.
  have listed : name ∈ ns.getIndexNames (slashed p k) := by
    rw [getIndexNames_eq]
    exact ExtTreeSet.mem_toList.mpr inside
  rw [h.getIndexNames, getIndexNames_eq, ExtTreeSet.mem_toList] at listed
  have := (longer p name listed List.prefix_rfl).length_le
  simp only [slashed, List.length_append, List.length_replicate] at this
  omega

/-- Further slashes change nothing exactly when the path is not empty and either there are none
or the lookups find nothing under either spelling that the other one misses. -/
theorem spelledAlike_iff (ns : IndexNamespace) (p : Str) (k : Nat) :
    SpelledAlike ns p k ↔ p ≠ [] ∧ (k = 0 ∨ Unseen ns p k) := by
  constructor
  · intro h
    have nonempty : p ≠ [] := by
      rintro rfl
      obtain ⟨key, ran⟩ := h.inside
      rw [cleanupPathAt_nil] at ran
      cases ran
    refine ⟨nonempty, ?_⟩
    rcases Nat.eq_zero_or_pos k with none | more
    · exact .inl none
    · exact .inr (unseen_of_interchangeable (h.operations nonempty) more)
  · rintro ⟨nonempty, unseen⟩
    have loop := cleanupPathAt_eq nonempty
    have longer : slashed p k ≠ [] := by simp [slashed, nonempty]
    refine ⟨?_, fun _ => ?_, fun key ran => ?_, fun _ all => ?_, fun _ => ?_⟩
    · rw [loop]
      exact cleanupPath_ok nonempty
    · rw [loop, cleanupPathAt_eq longer, cleanupPath_slashed nonempty]
    · rw [loop] at ran
      have again := cleanupPath_idem ran
      have rest : key ≠ [] := by
        rintro rfl
        cases again
      rw [cleanupPathAt_eq rest, again]
    · rw [loop, cleanupPath_slashes nonempty all]
    · exact interchangeable_of_unseen nonempty unseen

end Operations

section Example

attribute [local instance] BinaryProtocol.indexNamespaceNodeThrift Posix.fsPath

/-- The index of `/ab` is not listed when the path is written with a slash at its end. -/
theorem not_spelledAlike_slash : ¬ SpelledAlike sibling "/ab".toList 1 := by
  intro h
  have names := (h.operations (by decide)).getIndexNames
  revert names
  decide

end Example

end Vsfs.Masterd.IndexNamespace

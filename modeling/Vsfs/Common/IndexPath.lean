import Vsfs.Common.Path

/-!
# The parts of an index path

`split_index_path` cuts at the first `/.vsfs/` of an index path, which is the last one unless
the directory of the index is itself below a directory `.vsfs`.

## Main results

* `splitIndexPath_indexPath_iff` : the parts are found again exactly when no component of the
  directory is `.vsfs`.
-/

namespace Vsfs

/-! ## Components -/

/-- Every component after a slash. -/
def slashEach (components : List Str) : Str := components.flatMap ('/' :: ·)

@[simp] theorem slashEach_nil : slashEach [] = [] := rfl

@[simp] theorem slashEach_cons (c : Str) (cs : List Str) :
    slashEach (c :: cs) = '/' :: (c ++ slashEach cs) := rfl

theorem slashEach_append (cs ds : List Str) :
    slashEach (cs ++ ds) = slashEach cs ++ slashEach ds := List.flatMap_append

/-- An absolute normalised path is made of file names, and the root of none. -/
theorem Normal.components {p : Str} (h : Normal p) : ∃ cs : List Str, (∀ c ∈ cs, Plain c) ∧
    (cs = [] ∧ p = ['/'] ∨ cs ≠ [] ∧ p = slashEach cs) := by
  induction h with
  | root => exact ⟨[], by simp, .inl ⟨rfl, rfl⟩⟩
  | @top s hs => exact ⟨[s], by simpa using hs, .inr ⟨by simp, by simp⟩⟩
  | @sub p s _ below hs ih =>
    obtain ⟨cs, plain, ⟨-, same⟩ | ⟨-, rfl⟩⟩ := ih
    · exact absurd same below
    · refine ⟨cs ++ [s], fun c hc => ?_, .inr ⟨by simp, by simp [slashEach_append]⟩⟩
      rcases List.mem_append.mp hc with old | new
      · exact plain c old
      · cases List.mem_singleton.mp new
        exact hs

theorem splitOn_append_slashEach {c : Str} {cs : List Str} (hc : '/' ∉ c)
    (plain : ∀ d ∈ cs, Plain d) : (c ++ slashEach cs).splitOn '/' = c :: cs := by
  induction cs generalizing c with
  | nil => simpa using List.splitOn_eq_singleton hc
  | cons d cs ih =>
    obtain ⟨hd, plain⟩ := List.forall_mem_cons.mp plain
    rw [slashEach_cons, List.splitOn_append_cons_self_of_not_mem hc, ih hd.2 plain]

theorem slashEach_ne_root {cs : List Str} (plain : ∀ c ∈ cs, Plain c) : slashEach cs ≠ ['/'] := by
  cases cs with
  | nil => simp
  | cons c cs =>
    have some := (plain c (by simp)).1
    simp [some]

/-- Two texts without slashes that are followed by one are the same if one begins the other. -/
theorem prefix_slash_iff {a c rest : Str} (ha : '/' ∉ a) (hc : '/' ∉ c) :
    a ++ ['/'] <+: c ++ '/' :: rest ↔ a = c := by
  constructor
  · intro begins
    induction a generalizing c with
    | nil =>
      cases c with
      | nil => rfl
      | cons x c =>
        have : '/' = x := by simpa using (List.cons_prefix_cons.mp begins).1
        exact absurd (this ▸ List.mem_cons_self) hc
    | cons y a ih =>
      cases c with
      | nil =>
        have : y = '/' := by simpa using (List.cons_prefix_cons.mp begins).1
        simp [this] at ha
      | cons x c =>
        obtain ⟨rfl, begins'⟩ := List.cons_prefix_cons.mp begins
        rw [ih (List.not_mem_of_not_mem_cons ha) (List.not_mem_of_not_mem_cons hc) begins']
  · rintro rfl
    exact ⟨rest, by simp⟩

namespace PathUtil

/-- A separator that begins with a slash is not found before the next slash. -/
theorem cutAt_append {c : Str} (hc : '/' ∉ c) (separator rest : Str) :
    cutAt ('/' :: separator) (c ++ rest) =
      (cutAt ('/' :: separator) rest).map fun (before, after) => (c ++ before, after) := by
  induction c with
  | nil => simp
  | cons x c ih =>
    obtain ⟨other, hc⟩ := List.ne_and_not_mem_of_not_mem_cons hc
    have here : ('/' :: separator).isPrefixOf (x :: (c ++ rest)) = false := by
      simp [List.isPrefixOf, other]
    rw [List.cons_append, cutAt, if_neg (by simp [here]), ih hc, Option.map_map]
    rfl

/-- The cut is in front of the first component `.vsfs`. -/
theorem cutAt_slashEach {c : Str} (hc : Plain c) (rest : Str) :
    cutAt "/.vsfs/".toList ('/' :: (c ++ '/' :: rest)) =
      if c = ".vsfs".toList then some ([], rest)
      else (cutAt "/.vsfs/".toList ('/' :: rest)).map fun (before, after) =>
        ('/' :: (c ++ before), after) := by
  have separator : "/.vsfs/".toList = '/' :: (".vsfs".toList ++ ['/']) := rfl
  have begins : ("/.vsfs/".toList).isPrefixOf ('/' :: (c ++ '/' :: rest)) = true ↔
      ".vsfs".toList = c := by
    rw [List.isPrefixOf_iff_prefix, separator, List.cons_prefix_cons,
      prefix_slash_iff (by decide) hc.2]
    simp
  rw [cutAt]
  by_cases same : c = ".vsfs".toList
  · rw [if_pos (begins.mpr same.symm), if_pos same, same]
    rfl
  · rw [if_neg (fun h => same (begins.mp h).symm), if_neg same, separator,
      cutAt_append hc.2, Option.map_map]
    rfl

/-- What is cut off in front is the whole directory exactly when it has no component
`.vsfs`. -/
theorem cutAt_eq_iff {cs : List Str} (plain : ∀ c ∈ cs, Plain c) {name : Str} :
    cutAt "/.vsfs/".toList (slashEach cs ++ "/.vsfs/".toList ++ name) = some (slashEach cs, name) ↔
      ".vsfs".toList ∉ cs := by
  induction cs with
  | nil =>
    refine iff_of_true ?_ (by simp)
    exact cutAt_slashEach plain_dot_vsfs name
  | cons c cs ih =>
    obtain ⟨hc, plain⟩ := List.forall_mem_cons.mp plain
    -- The text after the component begins with a slash again.
    obtain ⟨rest, text⟩ : ∃ rest, slashEach cs ++ "/.vsfs/".toList ++ name = '/' :: rest := by
      cases cs with
      | nil => exact ⟨_, rfl⟩
      | cons d cs => exact ⟨_, rfl⟩
    have whole : slashEach (c :: cs) ++ "/.vsfs/".toList ++ name = '/' :: (c ++ '/' :: rest) := by
      rw [← text]
      simp
    rw [whole, cutAt_slashEach hc, ← text]
    by_cases same : c = ".vsfs".toList
    · simp [same]
    · rw [if_neg same, List.mem_cons, not_or, ← ih plain]
      cases cutAt "/.vsfs/".toList (slashEach cs ++ "/.vsfs/".toList ++ name) with
      | none => simp
      | some parts => simpa [Prod.ext_iff] using fun _ _ => Ne.symm same

variable [FsPath] [LawfulFsPath] {root name : Str}

theorem indexPath_text {cs : List Str} (hr : Normal root) (hn : Plain name)
    (plain : ∀ c ∈ cs, Plain c)
    (text : cs = [] ∧ root = ['/'] ∨ cs ≠ [] ∧ root = slashEach cs) :
    indexPath root name = slashEach cs ++ "/.vsfs/".toList ++ name := by
  have below := child_ne_root root plain_dot_vsfs
  rw [indexPath_eq hr hn, child, if_neg below, child]
  rcases text with ⟨rfl, rfl⟩ | ⟨some, rfl⟩
  · simp
  · simp [slashEach_ne_root plain]

/-- The parts of an index path are found again exactly when the directory is not below a
directory `.vsfs`. -/
theorem splitIndexPath_indexPath_iff (hr : Normal root) (hn : Plain name) :
    splitIndexPath (indexPath root name) = some (root, name) ↔
      ".vsfs".toList ∉ root.splitOn '/' := by
  obtain ⟨cs, plain, text⟩ := hr.components
  rw [indexPath_text hr hn plain text, splitIndexPath]
  rcases text with ⟨rfl, rfl⟩ | ⟨some, rfl⟩
  · have cut : cutAt "/.vsfs/".toList (slashEach [] ++ "/.vsfs/".toList ++ name) =
        Option.some ([], name) := cutAt_slashEach plain_dot_vsfs name
    refine iff_of_true ?_ (by decide)
    rw [cut]
    simp [hn.1]
  · have components : (slashEach cs).splitOn '/' = [] :: cs :=
      splitOn_append_slashEach List.not_mem_nil plain
    have cut := @cutAt_eq_iff cs plain name
    have hidden : ".vsfs".toList ∉ (slashEach cs).splitOn '/' ↔ ".vsfs".toList ∉ cs := by
      rw [components]
      simp
    rw [hidden, ← cut]
    cases cutAt "/.vsfs/".toList (slashEach cs ++ "/.vsfs/".toList ++ name) with
    | none => simp
    | some parts =>
      obtain ⟨before, after⟩ := parts
      have root : (if before = [] then ['/'] else before) = slashEach cs ↔
          before = slashEach cs := by
        split
        · rename_i none
          rw [none]
          refine iff_of_false (Ne.symm (slashEach_ne_root plain)) ?_
          cases cs with
          | nil => exact absurd rfl some
          | cons c cs => simp
        · rfl
      by_cases none : after = []
      · simp [none, Ne.symm hn.1]
      · simp [none, root]

end PathUtil

end Vsfs

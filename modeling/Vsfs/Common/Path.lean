import Mathlib.Data.List.Basic
import Mathlib.Data.List.TakeWhile
import Mathlib.Logic.Function.Iterate
import Vsfs.Common.Basic

/-!
# Paths

`boost::filesystem::path` and the MD5 hash behind `PathUtil::path_to_hash` are outside the
repository: the model takes them as parameters and states what the servers rely on.
-/

namespace Vsfs

/-- The operations of `boost::filesystem::path` the source uses, on strings. -/
class FsPath where
  /-- `(fs::path(p) / q).string()` -/
  join : Str → Str → Str
  /-- `fs::path(p).parent_path().string()` -/
  parentPath : Str → Str
  /-- `fs::path(p).filename().string()` -/
  filename : Str → Str
  isAbsolute : Str → Bool
  /-- `fs::absolute(p).string()` in the working directory `cwd` -/
  absolute : Str → Str → Str

/-- A file name: one non-empty component without a slash. -/
def Plain (s : Str) : Prop := s ≠ [] ∧ '/' ∉ s

instance (s : Str) : Decidable (Plain s) := inferInstanceAs (Decidable (_ ∧ _))

/-- An absolute normalised path: the root, or file names each after one slash. -/
inductive Normal : Str → Prop where
  | root : Normal ['/']
  | top {s : Str} : Plain s → Normal ('/' :: s)
  | sub {p s : Str} : Normal p → p ≠ ['/'] → Plain s → Normal (p ++ '/' :: s)

theorem Normal.head {p : Str} (h : Normal p) : ∃ rest, p = '/' :: rest := by
  induction h with
  | root => exact ⟨[], rfl⟩
  | top => exact ⟨_, rfl⟩
  | sub _ _ _ ih =>
    obtain ⟨rest, rfl⟩ := ih
    exact ⟨_, rfl⟩

/-- `p / s` with one separator in between. -/
def child (p s : Str) : Str := if p = ['/'] then '/' :: s else p ++ '/' :: s

theorem child_ne_root (p : Str) {s : Str} (hs : Plain s) : child p s ≠ ['/'] := by
  unfold child
  split
  · simpa using hs.1
  · intro h
    have := congrArg List.length h
    rw [List.length_append] at this
    have some : 0 < s.length := List.length_pos_iff.mpr hs.1
    simp at this
    omega

theorem Normal.child {p s : Str} (hp : Normal p) (hs : Plain s) : Normal (child p s) := by
  unfold Vsfs.child
  split
  · exact .top hs
  · exact .sub hp ‹_› hs

/-- What the servers rely on, on absolute normalised paths: joining puts one separator,
splitting takes the join apart again, and the root has no parent. -/
class LawfulFsPath [FsPath] : Prop where
  join_eq : ∀ {p s}, Normal p → Plain s → FsPath.join p s = child p s
  parentPath_child : ∀ {p s}, Normal p → Plain s → FsPath.parentPath (child p s) = p
  filename_child : ∀ {p s}, Normal p → Plain s → FsPath.filename (child p s) = s
  isAbsolute_normal : ∀ {p}, Normal p → FsPath.isAbsolute p = true
  /-- An absolute path begins with a slash. -/
  head_of_isAbsolute : ∀ {p}, FsPath.isAbsolute p = true → ∃ rest, p = '/' :: rest

/-- Every absolute normalised path below the root is a child. -/
theorem Normal.split {p : Str} (h : Normal p) (hp : p ≠ ['/']) :
    ∃ q s, Normal q ∧ Plain s ∧ p = Vsfs.child q s := by
  cases h with
  | root => exact (hp rfl).elim
  | @top s hs => exact ⟨['/'], s, .root, hs, by simp [Vsfs.child]⟩
  | @sub q s hq hr hs => exact ⟨q, s, hq, hs, by simp [Vsfs.child, hr]⟩

section

variable [FsPath] [LawfulFsPath]

/-- A path below the root is its parent and its name. -/
theorem Normal.eq_child {p : Str} (h : Normal p) (hp : p ≠ ['/']) :
    p = Vsfs.child (FsPath.parentPath p) (FsPath.filename p) := by
  obtain ⟨q, s, hq, hs, rfl⟩ := h.split hp
  rw [LawfulFsPath.parentPath_child hq hs, LawfulFsPath.filename_child hq hs]

theorem child_eq_iff {p s q t : Str} (hp : Normal p) (hs : Plain s) (hq : Normal q) (ht : Plain t) :
    Vsfs.child p s = Vsfs.child q t ↔ p = q ∧ s = t := by
  constructor
  · intro same
    refine ⟨?_, ?_⟩
    · rw [← LawfulFsPath.parentPath_child hp hs, same, LawfulFsPath.parentPath_child hq ht]
    · rw [← LawfulFsPath.filename_child hp hs, same, LawfulFsPath.filename_child hq ht]
  · rintro ⟨rfl, rfl⟩
    rfl

end

/-- `parent_path` drops the last component of any path, and the root directory stays. -/
class DropsComponent [FsPath] : Prop where
  shorter : ∀ {p}, p ≠ [] → (FsPath.parentPath p).length < p.length
  rooted : ∀ {p}, p.head? = some '/' → p ≠ ['/'] → (FsPath.parentPath p).head? = some '/'
  relative : ∀ {p}, p.head? ≠ some '/' → (FsPath.parentPath p).head? ≠ some '/'

section

variable [FsPath] [DropsComponent]

/-- Going up leads to the root from the paths with a leading slash only. -/
theorem reaches_root_iff (p : Str) :
    (∃ n, FsPath.parentPath^[n] p = ['/']) ↔ p.head? = some '/' := by
  constructor
  · rintro ⟨n, top⟩
    by_contra relative
    have stays (n : Nat) : (FsPath.parentPath^[n] p).head? ≠ some '/' := by
      induction n with
      | zero => exact relative
      | succ n ih =>
        rw [Function.iterate_succ_apply']
        exact DropsComponent.relative ih
    exact stays n (by rw [top]; rfl)
  · intro rooted
    induction bound : p.length using Nat.strong_induction_on generalizing p with
    | _ length ih =>
      by_cases top : p = ['/']
      · exact ⟨0, top⟩
      · have some : p ≠ [] := by
          rintro rfl
          cases rooted
        obtain ⟨n, up⟩ := ih _ (bound ▸ DropsComponent.shorter some) (FsPath.parentPath p)
          (DropsComponent.rooted rooted top) rfl
        exact ⟨n + 1, up⟩

/-- The root itself has no parent to start from. -/
theorem parent_reaches_root_iff (p : Str) :
    (∃ n, FsPath.parentPath^[n] (FsPath.parentPath p) = ['/']) ↔
      p.head? = some '/' ∧ p ≠ ['/'] := by
  rw [reaches_root_iff]
  constructor
  · intro rooted
    refine ⟨by_contra fun relative => DropsComponent.relative relative rooted, ?_⟩
    rintro rfl
    have short : (FsPath.parentPath ['/']).length < 1 := DropsComponent.shorter (by simp)
    have none : FsPath.parentPath ['/'] = [] := List.eq_nil_of_length_eq_zero (by omega)
    rw [none] at rooted
    cases rooted
  · rintro ⟨rooted, below⟩
    exact DropsComponent.rooted rooted below

end

/-- `PathUtil::path_to_hash`: the first eight bytes of the MD5 digest. -/
class PathHash where
  pathToHash : Str → BitVec 64

/-! ## Index paths -/

namespace PathUtil

variable [FsPath]

def indexPath (root name : Str) : Str :=
  FsPath.join (FsPath.join root ".vsfs".toList) name

def partitionPath (root name : Str) (sep : HashValueType) : Str :=
  FsPath.join (indexPath root name) (toString sep.toInt).toList

/-- The text before and after the first occurrence of a separator. -/
def cutAt (separator : Str) : Str → Option (Str × Str)
  | [] => none
  | c :: rest =>
    if separator.isPrefixOf (c :: rest) then some ([], (c :: rest).drop separator.length)
    else (cutAt separator rest).map fun (before, after) => (c :: before, after)

/-- The root and the name in the path of an index, if there are any. -/
def splitIndexPath (path : Str) : Option (Str × Str) :=
  match cutAt "/.vsfs/".toList path with
  | none => none
  | some (root, name) =>
    if name.isEmpty then none
    else some (if root.isEmpty then ['/'] else root, name)

omit [FsPath] in
theorem plain_dot_vsfs : Plain ".vsfs".toList := by decide

variable [LawfulFsPath] {root name : Str}

theorem indexPath_eq (hr : Normal root) (hn : Plain name) :
    indexPath root name = child (child root ".vsfs".toList) name := by
  rw [indexPath, LawfulFsPath.join_eq hr plain_dot_vsfs,
    LawfulFsPath.join_eq (hr.child plain_dot_vsfs) hn]

theorem normal_indexPath (hr : Normal root) (hn : Plain name) : Normal (indexPath root name) := by
  rw [indexPath_eq hr hn]
  exact (hr.child plain_dot_vsfs).child hn

theorem indexPath_eq_iff {root' name' : Str} (hr : Normal root) (hn : Plain name)
    (hr' : Normal root') (hn' : Plain name') :
    indexPath root name = indexPath root' name' ↔ root = root' ∧ name = name' := by
  rw [indexPath_eq hr hn, indexPath_eq hr' hn',
    child_eq_iff (hr.child plain_dot_vsfs) hn (hr'.child plain_dot_vsfs) hn',
    child_eq_iff hr plain_dot_vsfs hr' plain_dot_vsfs]
  simp

/-- A partition is a child of the path of its index. -/
theorem indexPath_append (hr : Normal root) (hn : Plain name) :
    indexPath root name ++ "/0".toList = child (indexPath root name) "0".toList := by
  have below : indexPath root name ≠ ['/'] := by
    rw [indexPath_eq hr hn]
    exact child_ne_root _ hn
  rw [child, if_neg below]
  rfl

/-- The two spellings of the path of the first partition. -/
theorem partitionPath_zero (hr : Normal root) (hn : Plain name) :
    partitionPath root name 0 = indexPath root name ++ "/0".toList := by
  rw [indexPath_append hr hn, partitionPath]
  exact LawfulFsPath.join_eq (normal_indexPath hr hn) (by decide)

theorem filename_partition (hr : Normal root) (hn : Plain name) :
    FsPath.filename (FsPath.parentPath (indexPath root name ++ "/0".toList)) = name := by
  rw [indexPath_append hr hn, LawfulFsPath.parentPath_child (normal_indexPath hr hn) (by decide),
    indexPath_eq hr hn, LawfulFsPath.filename_child (hr.child plain_dot_vsfs) hn]

end PathUtil

/-! ## POSIX paths -/

namespace Posix

/-- `fs::path(p) / q`: nothing for an empty `q`, a separator where neither side has one. -/
def join (p q : Str) : Str :=
  if q = [] then p
  else if p = [] ∨ p.getLast? = some '/' ∨ q.head? = some '/' then p ++ q
  else p ++ '/' :: q

/-- Drop the last component and the separators before it, except for the root. -/
def parentPath (p : Str) : Str :=
  if p = ['/'] then []
  else
    let upTo := p.reverse.dropWhile (· ≠ '/')
    let parent := upTo.dropWhile (· = '/')
    if parent = [] ∧ upTo ≠ [] then ['/'] else parent.reverse

/-- The last component, a dot after a trailing separator. -/
def filename (p : Str) : Str :=
  if p = ['/'] then ['/']
  else if p.getLast? = some '/' then ['.']
  else (p.reverse.takeWhile (· ≠ '/')).reverse

/-- A root directory; two leading slashes start a root name that needs another one. -/
def isAbsolute (p : Str) : Bool :=
  match p with
  | ['/', '/'] => false
  | '/' :: '/' :: c :: d :: rest => c = '/' ∨ '/' ∈ d :: rest
  | '/' :: _ => true
  | _ => false

/-- A path that is only a root name comes in front of the working directory. -/
def absolute (cwd p : Str) : Str :=
  if isAbsolute p then p
  else if p.head? = some '/' then p ++ cwd
  else join cwd p

@[reducible] def fsPath : FsPath := ⟨join, parentPath, filename, isAbsolute, absolute⟩

theorem child_reverse (p s : Str) :
    (child p s).reverse = s.reverse ++ '/' :: (if p = ['/'] then [] else p.reverse) := by
  unfold child
  split <;> simp

theorem plain_all {s : Str} (hs : Plain s) : ∀ c ∈ s.reverse, decide (c ≠ '/') = true := by
  intro c hc
  have : c ≠ '/' := fun e => hs.2 (e ▸ List.mem_reverse.mp hc)
  simpa using this

theorem dropWhile_child (p : Str) {s : Str} (hs : Plain s) :
    (child p s).reverse.dropWhile (fun c => decide (c ≠ '/')) =
      '/' :: (if p = ['/'] then [] else p.reverse) := by
  rw [child_reverse, List.dropWhile_append_of_pos (plain_all hs)]
  simp

theorem takeWhile_child (p : Str) {s : Str} (hs : Plain s) :
    (child p s).reverse.takeWhile (fun c => decide (c ≠ '/')) = s.reverse := by
  rw [child_reverse, List.takeWhile_append_of_pos (plain_all hs)]
  simp

theorem child_getLast? (p : Str) {s : Str} (hs : Plain s) :
    (child p s).getLast? ≠ some '/' := by
  have hne : s.reverse ≠ [] := by simpa using hs.1
  rw [← List.head?_reverse, child_reverse, List.head?_append_of_ne_nil _ hne]
  intro h
  have := plain_all hs '/' (List.mem_of_mem_head? h)
  simp at this

theorem normal_getLast? {p : Str} (h : Normal p) (hp : p ≠ ['/']) : p.getLast? ≠ some '/' := by
  obtain ⟨q, s, -, hs, rfl⟩ := h.split hp
  exact child_getLast? q hs

/-- After the leading slash of an absolute normalised path comes no second one. -/
theorem normal_second {p : Str} (h : Normal p) :
    ∃ rest, p = '/' :: rest ∧ rest.head? ≠ some '/' := by
  induction h with
  | root => exact ⟨[], rfl, by simp⟩
  | @top s hs => exact ⟨s, rfl, fun h => hs.2 (List.mem_of_mem_head? h)⟩
  | @sub p s hp hr _ ih =>
    obtain ⟨rest, rfl, hrest⟩ := ih
    cases rest with
    | nil => exact (hr rfl).elim
    | cons c rest => exact ⟨_, rfl, by simpa using hrest⟩

instance lawful : @LawfulFsPath fsPath :=
  @LawfulFsPath.mk fsPath
    (by
      intro p s hp hs
      have head : s.head? ≠ some '/' := fun h => hs.2 (List.mem_of_mem_head? h)
      change join p s = child p s
      unfold join child
      rw [if_neg hs.1]
      by_cases hr : p = ['/']
      · simp [hr]
      · obtain ⟨rest, hrest⟩ := hp.head
        have nonempty : p ≠ [] := by simp [hrest]
        simp [hr, nonempty, normal_getLast? hp hr, head])
    (by
      intro p s hp hs
      change parentPath (child p s) = p
      unfold parentPath
      rw [if_neg (child_ne_root p hs)]
      simp only [dropWhile_child p hs]
      by_cases hr : p = ['/']
      · simp [hr]
      · have last : p.reverse.head? ≠ some '/' := by
          rw [List.head?_reverse]
          exact normal_getLast? hp hr
        obtain ⟨rest, hrest⟩ := hp.head
        have nonempty : p ≠ [] := by simp [hrest]
        cases hrev : p.reverse with
        | nil => simp_all
        | cons c cs =>
          have hc : c ≠ '/' := by simpa [hrev] using last
          have back : p = cs.reverse ++ [c] := by
            rw [← List.reverse_reverse p, hrev, List.reverse_cons]
          simp [hr, hc, ← back])
    (by
      intro p s hp hs
      change filename (child p s) = s
      unfold filename
      rw [if_neg (child_ne_root p hs), if_neg (child_getLast? p hs), takeWhile_child p hs,
        List.reverse_reverse])
    (by
      intro p hp
      change isAbsolute p = true
      obtain ⟨rest, rfl, hrest⟩ := normal_second hp
      cases rest with
      | nil => rfl
      | cons c rest =>
        have hc : c ≠ '/' := by simpa using hrest
        unfold isAbsolute
        split <;> simp_all)
    (by
      intro p hp
      change isAbsolute p = true at hp
      unfold isAbsolute at hp
      split at hp <;> simp_all)

/-- The parent is the root, empty, or a part of the path in front. -/
theorem parentPath_cases {p : Str} (below : p ≠ ['/']) :
    (p.head? = some '/' ∧ parentPath p = ['/']) ∨ (p.head? ≠ some '/' ∧ parentPath p = []) ∨
      ((parentPath p).head? = p.head? ∧ (parentPath p).length < p.length) := by
  obtain ⟨last, whole⟩ := List.dropWhile_suffix (fun c => decide (c ≠ '/')) (l := p.reverse)
  have split : p = (p.reverse.dropWhile fun c => decide (c ≠ '/')).reverse ++ last.reverse := by
    rw [← List.reverse_append, whole, List.reverse_reverse]
  unfold parentPath
  rw [if_neg below]
  dsimp only
  cases found : p.reverse.dropWhile (fun c => decide (c ≠ '/')) with
  | nil =>
    refine .inr (.inl ⟨fun rooted => ?_, by simp⟩)
    have none := List.dropWhile_eq_nil_iff.mp found '/'
      (List.mem_reverse.mpr (List.mem_of_mem_head? rooted))
    simp at none
  | cons slash rest =>
    have isSlash : slash = '/' := by
      have stop := List.head?_dropWhile_not (fun c => decide (c ≠ '/')) p.reverse
      rw [found] at stop
      simpa using stop
    subst isSlash
    rw [found] at split
    obtain ⟨slashes, inFront⟩ := List.dropWhile_suffix (fun c => decide (c = '/'))
      (l := '/' :: rest)
    cases parent : ('/' :: rest).dropWhile (fun c => decide (c = '/')) with
    | nil =>
      have all := List.dropWhile_eq_nil_iff.mp parent
      refine .inl ⟨?_, by simp⟩
      have some : ('/' :: rest).reverse ≠ [] := by simp
      have isSlash := all _ (List.mem_reverse.mp (List.head_mem some))
      rw [split, List.head?_append_of_ne_nil _ some, List.head?_eq_some_head some]
      simpa using isSlash
    | cons c name =>
      have shorter : (c :: name).length ≤ rest.length := by
        have all := (List.dropWhile_suffix (fun c => decide (c = '/')) (l := rest)).length_le
        have behind : rest.dropWhile (fun c => decide (c = '/')) = c :: name := by
          simpa using parent
        rwa [behind] at all
      rw [parent] at inFront
      rw [if_neg (by simp), split, ← inFront]
      refine .inr (.inr ⟨?_, ?_⟩)
      · rw [List.reverse_append, List.append_assoc, List.head?_append_of_ne_nil _ (by simp)]
      · have whole := congrArg List.length inFront
        simp only [List.length_append, List.length_cons, List.length_reverse] at whole shorter ⊢
        omega

instance dropsComponent : @DropsComponent fsPath :=
  @DropsComponent.mk fsPath
    (by
      intro p some
      change (parentPath p).length < p.length
      by_cases top : p = ['/']
      · subst top
        decide
      rcases parentPath_cases top with ⟨rooted, parent⟩ | ⟨-, parent⟩ | ⟨-, shorter⟩
      · obtain ⟨rest, rfl⟩ := List.head?_eq_some_iff.mp rooted
        cases rest with
        | nil => exact absurd rfl top
        | cons c rest => simp [parent]
      · rw [parent]
        exact List.length_pos_iff.mpr some
      · exact shorter)
    (by
      intro p rooted below
      change (parentPath p).head? = some '/'
      rcases parentPath_cases below with ⟨-, parent⟩ | ⟨relative, -⟩ | ⟨head, -⟩
      · rw [parent, List.head?_cons]
      · exact absurd rooted relative
      · rw [head, rooted])
    (by
      intro p relative
      change (parentPath p).head? ≠ some '/'
      by_cases top : p = ['/']
      · subst top
        decide
      rcases parentPath_cases top with ⟨rooted, -⟩ | ⟨-, parent⟩ | ⟨head, -⟩
      · exact absurd rooted relative
      · rw [parent]
        simp
      · rwa [head])

end Posix

end Vsfs

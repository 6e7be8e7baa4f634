import Mathlib.Data.Bool.AllAny
import Vsfs.Common.Path
import Vsfs.Common.QueryItems

/-!
# Spellings of a query

The documentation, the command line and the tests write a query on a directory with or
without a slash in front of the question mark, and with or without one at the end. The
parser takes the character in front of the question mark for a slash, and a slash behind the
conditions for the end of a segment that lost its first character.
-/

namespace Vsfs.ComplexQuery

open Std

/-- A well-formed condition: a range of a field, with a value that the parser reads as
`bound` at the time `now`. -/
structure Condition (now : Nat) where
  field : Str
  op : CondOp
  value : Str
  bound : Str
  ranged : op ≠ .NEQ
  field_plain : ∀ c ∈ field, c ∉ "=!<>&/?".toList
  value_plain : ∀ c ∈ value, c ∉ "=!<>&/?".toList
  value_ne_nil : value ≠ []
  read : parseValue now (trimCopy field) (trimCopy value) = .ok (.OK, bound)

namespace Condition

variable {now : Nat}

def text (c : Condition now) : Str := c.field ++ (c.op.text ++ c.value)

/-- The range of its field after the condition. -/
def addTo (c : Condition now) (ranges : ExtTreeMap Str StringRange) :
    ExtTreeMap Str StringRange :=
  let range := ranges[trimCopy c.field]?.getD { lowerClosed := false, upperClosed := false }
  ranges.insert (trimCopy c.field) ((c.op.range c.bound range).getD range)

theorem not_isOpChar {c : Char} (h : c ∉ "=!<>&/?".toList) : isOpChar c = false := by
  have more : "=!<>".toList ⊆ "=!<>&/?".toList := by decide
  simp only [isOpChar, decide_eq_false_iff_not]
  exact fun op => h (more op)

theorem field_noOp (c : Condition now) : ∀ d ∈ c.field, isOpChar d = false :=
  fun d hd => not_isOpChar (c.field_plain d hd)

theorem value_noOp (c : Condition now) : ∀ d ∈ c.value, isOpChar d = false :=
  fun d hd => not_isOpChar (c.value_plain d hd)

theorem parseExpression_text (c : Condition now) (query : ComplexQuery) :
    parseExpression now query c.text =
      .ok (.OK, { query with rangeQueryMap := c.addTo query.rangeQueryMap }) := by
  obtain ⟨range, hrange, outcome⟩ := parseExpression_of_read query c.ranged c.field_noOp
    c.value_ne_nil c.value_noOp c.read
  unfold text addTo
  rw [outcome]
  unfold rangeOf at hrange
  simp only [hrange, Option.getD_some]

end Condition

section Spelling

variable {now : Nat}

/-- Conditions joined by `&`. -/
def conditionList (conditions : List (Condition now)) : Str :=
  ['&'].intercalate (conditions.map Condition.text)

/-- The ranges a list of conditions asks for. -/
def ranges (conditions : List (Condition now)) : ExtTreeMap Str StringRange :=
  conditions.foldl (fun ranges c => c.addTo ranges) ∅

theorem parseExpressions_conditions (query : ComplexQuery) (conditions : List (Condition now)) :
    parseExpressions now query (conditions.map Condition.text) =
      .ok (.OK, { query with
        rangeQueryMap :=
          conditions.foldl (fun ranges c => c.addTo ranges) query.rangeQueryMap }) := by
  induction conditions generalizing query with
  | nil => rfl
  | cons c conditions ih =>
    rw [List.map_cons, parseExpressions, c.parseExpression_text]
    exact ih _

theorem Condition.not_mem_text (c : Condition now) {d : Char} (special : d ∈ "&/?".toList) :
    d ∉ c.text := by
  have more : d ∈ "=!<>&/?".toList := (by decide : "&/?".toList ⊆ "=!<>&/?".toList) special
  have noOp : isOpChar d = false := by
    have all : ∀ d ∈ "&/?".toList, isOpChar d = false := List.all_iff_forall_prop.mp (by decide)
    exact all d special
  simp only [Condition.text, List.mem_append, not_or]
  refine ⟨fun h => c.field_plain d h more, fun h => ?_, fun h => c.value_plain d h more⟩
  rw [c.op.isOpChar_of_mem_text d h] at noOp
  cases noOp

theorem not_mem_conditionList (conditions : List (Condition now)) {d : Char}
    (special : d ∈ "/?".toList) : d ∉ conditionList conditions := by
  have notAnd : d ≠ '&' := by
    rintro rfl
    revert special
    decide
  have special' : d ∈ "&/?".toList := List.mem_cons_of_mem _ special
  unfold conditionList
  induction conditions with
  | nil => simp
  | cons c conditions ih =>
    by_cases last : conditions.map Condition.text = []
    · rw [List.map_cons, last]
      simpa using c.not_mem_text special'
    · rw [List.map_cons, List.intercalate_cons_of_ne_nil last]
      simp only [List.mem_append, List.mem_singleton, not_or]
      exact ⟨⟨c.not_mem_text special', notAnd⟩, ih⟩

theorem splitOn_conditionList {conditions : List (Condition now)}
    (some_condition : conditions ≠ []) :
    (conditionList conditions).splitOn '&' = conditions.map Condition.text := by
  refine List.splitOn_intercalate '&' (fun text ht => ?_) (by simpa using some_condition)
  obtain ⟨c, -, rfl⟩ := List.mem_map.mp ht
  exact c.not_mem_text (by decide)

/-- A list of conditions starts with the text of one. -/
theorem conditionList_prefix {conditions : List (Condition now)}
    (some_condition : conditions ≠ []) :
    ∃ c : Condition now, c.text <+: conditionList conditions := by
  cases conditions with
  | nil => exact absurd rfl some_condition
  | cons c conditions =>
    refine ⟨c, ?_⟩
    unfold conditionList
    by_cases last : conditions.map Condition.text = []
    · rw [List.map_cons, last]
      simp
    · rw [List.map_cons, List.intercalate_cons_of_ne_nil last, List.append_assoc]
      exact List.prefix_append _ _

theorem Condition.two_le_length_text (c : Condition now) : 2 ≤ c.text.length := by
  have op := List.length_pos_iff.mpr (c.op.text_ne_nil)
  have value := List.length_pos_iff.mpr c.value_ne_nil
  simp only [Condition.text, List.length_append]
  omega

theorem Condition.any_isOpChar (c : Condition now) : c.text.any isOpChar = true := by
  obtain ⟨d, rest, head⟩ := List.exists_cons_of_ne_nil (c.op.text_ne_nil)
  refine List.any_eq_true.mpr ⟨d, by simp [Condition.text, head], ?_⟩
  exact c.op.isOpChar_of_mem_text d (by simp [head])

theorem conditionList_cases {conditions : List (Condition now)} (some_condition : conditions ≠ []) :
    ∃ c d rest, conditionList conditions = c :: d :: rest := by
  obtain ⟨c, first⟩ := conditionList_prefix some_condition
  have long := c.two_le_length_text.trans first.length_le
  match h : conditionList conditions with
  | c :: d :: rest => exact ⟨c, d, rest, rfl⟩
  | [c] => simp [h] at long
  | [] => simp [h] at long

/-! ## Roots -/

/-- The parser of expressions leaves the root alone. -/
theorem root_of_parseExpression {query query' : ComplexQuery} {exp : Str} {status : Status}
    (h : parseExpression now query exp = .ok (status, query')) : query'.root = query.root := by
  by_cases empty : exp = []
  · rw [parseExpression, if_pos empty] at h
    cases h
  by_cases malformed : Malformed exp
  · obtain ⟨status', -, outcome⟩ := parseExpression_of_malformed now query empty malformed
    rw [outcome] at h
    cases h
    rfl
  obtain ⟨op, -, outcome⟩ := parseExpression_of_wellFormed now query malformed
  rw [outcome] at h
  rcases parseValue_of_wellFormed now malformed with ⟨-, value⟩ | ⟨-, text, value⟩
  · rw [value] at h
    cases h
  · rw [value] at h
    cases op <;> cases h <;> rfl

theorem root_of_parseItem {query query' : ComplexQuery} {item : Item} {status : Status}
    (h : parseItem now query item = .ok (status, query')) : query'.root = query.root := by
  cases item with
  | emptySegment =>
    cases h
    rfl
  | expression exp => exact root_of_parseExpression h

theorem root_of_parseItems {query query' : ComplexQuery} {list : List Item} {status : Status}
    (h : parseItems now query list = .ok (status, query')) : query'.root = query.root := by
  induction list generalizing query with
  | nil =>
    cases h
    rfl
  | cons item list ih =>
    rw [parseItems] at h
    cases outcome : parseItem now query item with
    | error e =>
      rw [outcome] at h
      cases h
    | ok result =>
      rw [outcome] at h
      have first := root_of_parseItem outcome
      simp only [Bind.bind, Except.bind] at h
      split at h
      · cases h
        exact first
      · exact (ih h).trans first

/-- A refused item anywhere keeps the parser from an `OK`. -/
theorem not_ok_of_emptySegment {query query' : ComplexQuery} {front : List Item} :
    parseItems now query (front ++ [.emptySegment]) ≠ .ok (.OK, query') := by
  rw [parseItems_append]
  cases parseItems now query front with
  | error e => exact nofun
  | ok result =>
    obtain ⟨status, query₁⟩ := result
    simp only [Bind.bind, Except.bind]
    split
    · rename_i bad
      intro same
      cases same
      simp at bad
    · exact nofun

theorem find_of_not_mem {front rest : Str} {c : Char} (absent : c ∉ front) :
    find (front ++ c :: rest) c 0 = some front.length := by
  have first : (front ++ c :: rest).findIdx? (· = c) = some front.length := by
    rw [List.findIdx?_append, List.findIdx?_eq_none_iff.mpr fun d hd => ?_]
    · simp [List.findIdx?_cons]
    · exact decide_eq_false fun same => absent (same ▸ hd)
  simp [find, first]

theorem find_of_mem {front rest : Str} {c : Char} (present : c ∈ front) :
    ∃ pos, find (front ++ rest) c 0 = some pos ∧ pos < front.length := by
  obtain ⟨before, after, rfl, absent⟩ := List.eq_append_cons_of_mem present
  refine ⟨before.length, ?_, by simp⟩
  rw [List.append_assoc, List.cons_append]
  exact find_of_not_mem absent

/-! ## The four spellings -/

/-- How the question mark is joined to the directory, and whether a slash ends the query. -/
inductive Spelling where
  | bare
  | bareClosed
  | slash
  | slashClosed
  deriving DecidableEq, Repr

def Spelling.text (directory conditions : Str) : Spelling → Str
  | .bare => directory ++ '?' :: conditions
  | .bareClosed => directory ++ '?' :: (conditions ++ ['/'])
  | .slash => directory ++ '/' :: '?' :: conditions
  | .slashClosed => directory ++ '/' :: '?' :: (conditions ++ ['/'])

/-- The parser accepts the text as a query for the conditions under the directory. -/
def ReadsAs (now : Nat) (text directory : Str) (conditions : List (Condition now)) : Prop :=
  ∃ query, parse now {} text = .ok (.OK, query) ∧ query.root = directory ∧
    query.rangeQueryMap = ranges conditions

/-- What is in front of the first question mark decides the root. -/
theorem root_of_parse {text : Str} {status : Status} {query : ComplexQuery} {pos : Nat}
    (absolute : text.head? = some '/') (found : find text '?' 0 = some pos)
    (h : parse now {} text = .ok (status, query)) :
    query.root = if 1 < pos then text.take (pos - 1) else ['/'] := by
  rw [parse_of_find_eq_some now {} absolute found] at h
  exact root_of_parseItems h

/-- A root that is cut off before the last character of the directory. -/
theorem root_ne {text directory : Str} {pos : Nat} (deep : directory ≠ ['/'])
    (early : pos ≤ directory.length) (inside : pos < text.length) :
    (if 1 < pos then text.take (pos - 1) else ['/']) ≠ directory := by
  split
  · intro same
    have := congrArg List.length same
    rw [List.length_take] at this
    omega
  · exact Ne.symm deep

/-- The items behind a question mark that is the first one. -/
theorem items_of_not_mem {front rest : Str} (plain : '?' ∉ front) :
    items (front ++ '?' :: rest) = (segments rest).flatMap itemsOf := by
  have dropped : (front ++ '?' :: rest).drop (front.length + 1) = rest := by
    rw [← List.drop_drop, List.drop_left]
    rfl
  simp only [items, find_of_not_mem plain, dropped]

theorem segments_of_not_mem {text : Str} (plain : '/' ∉ text) : segments text = [text] := by
  cases text with
  | nil => rw [segments]
  | cons c rest =>
    have none : rest.findIdx? (· = '/') = none :=
      List.findIdx?_eq_none_iff.mpr fun d hd =>
        decide_eq_false fun same => plain (List.mem_cons_of_mem c (same ▸ hd))
    rw [segments, none]

/-- A slash at the end: the first character is lost, and an empty segment is left. -/
theorem segments_closed {c d : Char} {rest : Str} (plain : '/' ∉ c :: d :: rest) :
    segments (c :: d :: rest ++ ['/']) = [d :: rest, []] := by
  have absent : '/' ∉ d :: rest := fun h => plain (List.mem_cons_of_mem c h)
  have found : (d :: rest ++ ['/']).findIdx? (· = '/') = some (rest.length + 1) := by
    have first : find (d :: rest ++ ['/']) '/' 0 = some (d :: rest).length := find_of_not_mem absent
    simpa [find] using first
  rw [List.cons_append, List.cons_append, segments, ← List.cons_append, found]
  simp [segments]

/-- A query behind a question mark that is the first one, and that cuts the root right. -/
theorem readsAs_of_root {front directory : Str} (absolute : front.head? = some '/')
    (plain : '?' ∉ front) {conditions : List (Condition now)} (some_condition : conditions ≠ [])
    (cut : (if 1 < front.length then (front ++ '?' :: conditionList conditions).take
      (front.length - 1) else ['/']) = directory) :
    ReadsAs now (front ++ '?' :: conditionList conditions) directory conditions := by
  have absolute' : (front ++ '?' :: conditionList conditions).head? = some '/' := by
    rw [List.head?_append, absolute]
    rfl
  obtain ⟨c, first⟩ := conditionList_prefix some_condition
  have nonempty : conditionList conditions ≠ [] := by
    obtain ⟨_, _, _, list⟩ := conditionList_cases some_condition
    simp [list]
  have operator : (conditionList conditions).any isOpChar = true := by
    obtain ⟨d, hd, op⟩ := List.any_eq_true.mp c.any_isOpChar
    exact List.any_eq_true.mpr ⟨d, first.subset hd, op⟩
  rw [ReadsAs, parse_of_find_eq_some now {} absolute' (find_of_not_mem plain), cut,
    items_of_not_mem plain, segments_of_not_mem (not_mem_conditionList conditions (by decide)),
    List.flatMap_singleton, itemsOf, if_neg nonempty, if_pos operator,
    splitOn_conditionList some_condition, parseItems_expressions, parseExpressions_conditions]
  exact ⟨_, rfl, rfl, rfl⟩

theorem readsAs_slash {directory : Str} (normal : Normal directory) (plain : '?' ∉ directory)
    {conditions : List (Condition now)} (some_condition : conditions ≠ []) :
    ReadsAs now (Spelling.slash.text directory (conditionList conditions)) directory
      conditions := by
  obtain ⟨tail, head⟩ := normal.head
  have shape : Spelling.slash.text directory (conditionList conditions) =
      (directory ++ ['/']) ++ '?' :: conditionList conditions := by simp [Spelling.text]
  have long : 1 < (directory ++ ['/']).length := by simp [head]
  rw [shape]
  refine readsAs_of_root (by simp [head]) (by simp [plain]) some_condition ?_
  rw [if_pos long]
  simp

/-- Directly below the root there is one slash, and it is the root. -/
theorem readsAs_root {conditions : List (Condition now)} (some_condition : conditions ≠ []) :
    ReadsAs now ('/' :: '?' :: conditionList conditions) ['/'] conditions := by
  have front : ReadsAs now (['/'] ++ '?' :: conditionList conditions) ['/'] conditions :=
    readsAs_of_root rfl (by decide) some_condition rfl
  exact front

/-- Every spelling starts with the directory. -/
theorem Spelling.exists_text (spelling : Spelling) (directory conditions : Str) :
    ∃ rest, rest ≠ [] ∧ spelling.text directory conditions = directory ++ rest := by
  cases spelling <;> exact ⟨_, by simp, rfl⟩

/-- Under a directory below the root, a query with well-formed conditions is read as what it
says exactly when a slash stands in front of the question mark and none at the end, and the
directory has no question mark of its own. -/
theorem readsAs_iff {directory : Str} (normal : Normal directory) (deep : directory ≠ ['/'])
    {conditions : List (Condition now)} (some_condition : conditions ≠ []) (spelling : Spelling) :
    ReadsAs now (spelling.text directory (conditionList conditions)) directory conditions ↔
      spelling = .slash ∧ '?' ∉ directory := by
  obtain ⟨tail, head⟩ := normal.head
  obtain ⟨rest, some_rest, shape⟩ := spelling.exists_text directory (conditionList conditions)
  have absolute : (spelling.text directory (conditionList conditions)).head? = some '/' := by
    rw [shape, head]
    rfl
  -- A question mark up to the end of the directory cuts the root short.
  have short {pos : Nat} (found : find (spelling.text directory (conditionList conditions)) '?' 0 =
      some pos) (early : pos ≤ directory.length) :
      ¬ ReadsAs now (spelling.text directory (conditionList conditions)) directory conditions := by
    rintro ⟨query, returns, root, -⟩
    rw [root_of_parse absolute found returns] at root
    exact root_ne deep early (lt_length_of_find found).2 root
  by_cases plain : '?' ∈ directory
  · obtain ⟨pos, found, early⟩ : ∃ pos, find (directory ++ rest) '?' 0 = some pos ∧
        pos < directory.length := find_of_mem plain
    exact iff_of_false (short (shape ▸ found) early.le) fun h => h.2 plain
  cases spelling with
  | bare => exact iff_of_false (short (find_of_not_mem plain) le_rfl) nofun
  | bareClosed => exact iff_of_false (short (find_of_not_mem plain) le_rfl) nofun
  | slash => exact iff_of_true (readsAs_slash normal plain some_condition) ⟨rfl, plain⟩
  | slashClosed =>
    refine iff_of_false ?_ nofun
    rintro ⟨query, returns, -⟩
    have shape : Spelling.slashClosed.text directory (conditionList conditions) =
        (directory ++ ['/']) ++ '?' :: (conditionList conditions ++ ['/']) := by
      simp [Spelling.text]
    have plain' : '?' ∉ directory ++ ['/'] := by simp [plain]
    obtain ⟨c, d, rest, list⟩ := conditionList_cases some_condition
    have noSlash := not_mem_conditionList conditions (d := '/') (by decide)
    rw [shape] at absolute returns
    rw [parse_of_find_eq_some now {} absolute (find_of_not_mem plain'), items_of_not_mem plain',
      list, segments_closed (list ▸ noSlash)] at returns
    have ending : [d :: rest, []].flatMap itemsOf = itemsOf (d :: rest) ++ [.emptySegment] := rfl
    rw [ending] at returns
    exact not_ok_of_emptySegment returns

end Spelling

/-! ## A query of the tests -/

def blue : Condition 0 where
  field := "blue".toList
  op := .GT
  value := "100".toList
  bound := "100".toList
  ranged := by decide
  field_plain := List.all_iff_forall_prop.mp (by decide)
  value_plain := List.all_iff_forall_prop.mp (by decide)
  value_ne_nil := by decide
  read := by decide

theorem normal_foo_bar : Normal "/foo/bar".toList :=
  .sub (p := "/foo".toList) (s := "bar".toList) (.top (s := "foo".toList) (by decide)) (by decide)
    (by decide)

theorem readsAs_foo_bar_slash :
    ReadsAs 0 "/foo/bar/?blue>100".toList "/foo/bar".toList [blue] := by
  have some_condition : [blue] ≠ [] := by simp
  exact (readsAs_iff normal_foo_bar (by decide) some_condition .slash).mpr ⟨rfl, by decide⟩

/-- Without the slash, the last character of the directory is lost. -/
theorem not_readsAs_foo_bar :
    Normal "/foo/bar".toList ∧ Spelling.bare.text "/foo/bar".toList (conditionList [blue]) =
        "/foo/bar?blue>100".toList ∧
      ¬ ReadsAs 0 "/foo/bar?blue>100".toList "/foo/bar".toList [blue] := by
  refine ⟨normal_foo_bar, by decide, ?_⟩
  rintro ⟨query, returns, root, -⟩
  have short : (parse 0 {} "/foo/bar?blue>100".toList).toOption.map (fun r => r.2.root) =
      some "/foo/ba".toList := by decide +kernel
  simp only [returns, Except.toOption, Option.map_some, Option.some.injEq] at short
  rw [root] at short
  revert short
  decide

end Vsfs.ComplexQuery

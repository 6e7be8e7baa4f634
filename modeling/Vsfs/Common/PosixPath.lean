import Vsfs.Common.QueryFailure

/-!
# Paths with a query

`PosixPath` takes a path apart at its first question mark, and at the slash behind it, with
positions of its own.

## Main results

- `parsers_agree_iff`: exactly when it finds the directory and the conditions that the query parser
  finds in a path that is accepted.
-/

namespace Vsfs

open ComplexQuery

structure PosixPath where
  path : Str := []
  root : Str := []
  query : Str := []
  result : Str := []
  deriving DecidableEq, Repr

namespace PosixPath

/-- The constructor. `question_mark - 1` wraps around for a question mark in front. -/
def ofPath (posixPath : Str) : Parses PosixPath :=
  if posixPath = [] then .error (.check "!posix_path.empty()")
  else
    match find posixPath '?' 0 with
    | none => .ok { path := posixPath, root := posixPath }
    | some questionMark => do
      let root ← substr posixPath 0 (if questionMark = 0 then 2 ^ 64 - 1 else questionMark - 1)
      match find posixPath '/' questionMark with
      | none =>
        let query ← substr posixPath (questionMark + 1) posixPath.length
        return { path := posixPath, root := root, query := query }
      | some resultBegin =>
        let query ← substr posixPath (questionMark + 1) (resultBegin - questionMark - 1)
        let result ← substr posixPath (resultBegin + 1) posixPath.length
        return { path := posixPath, root := root, query := query, result := result }

def isQuery (p : PosixPath) : Bool := !p.query.isEmpty && p.result.isEmpty

def isResult (p : PosixPath) : Bool := !p.query.isEmpty && !p.result.isEmpty

/-! ## The three parts -/

theorem find_append_cons {a : Str} {c : Char} (absent : c ∉ a) (front rest : Str) :
    find (front ++ (a ++ c :: rest)) c front.length = some (front.length + a.length) := by
  have none : a.findIdx? (· = c) = none := by
    rw [List.findIdx?_eq_none_iff]
    intro d hd
    exact decide_eq_false fun same => absent (same ▸ hd)
  rw [find, List.drop_left, List.findIdx?_append, none]
  simp [List.findIdx?_cons]

theorem find_eq_none {a : Str} {c : Char} (absent : c ∉ a) (front : Str) :
    find (front ++ a) c front.length = none := by
  rw [find, List.drop_left, Option.map_eq_none_iff, List.findIdx?_eq_none_iff]
  intro d hd
  exact decide_eq_false fun same => absent (same ▸ hd)

/-- A path without a question mark is all root. -/
theorem ofPath_of_not_mem {p : Str} (nonempty : p ≠ []) (noMark : '?' ∉ p) :
    ofPath p = .ok { path := p, root := p } := by
  have none : find p '?' 0 = none := find_eq_none noMark []
  rw [ofPath, if_neg nonempty, none]

section Parts

variable {front query : Str} (noMark : '?' ∉ front) (noSlash : '/' ∉ query)
include noMark noSlash

/-- A path that ends in a query. -/
theorem ofPath_query : ∃ root, ofPath (front ++ '?' :: query) =
    .ok { path := front ++ '?' :: query, root := root, query := query } := by
  have mark : find (front ++ '?' :: query) '?' 0 = some front.length := by
    simpa using find_append_cons noMark [] query
  have slash : find (front ++ '?' :: query) '/' front.length = none :=
    find_eq_none (by simpa using noSlash) front
  have inside : front.length + 1 ≤ (front ++ '?' :: query).length := by simp
  have text : ((front ++ '?' :: query).drop (front.length + 1)).take
      (front ++ '?' :: query).length = query := by
    rw [List.drop_append, List.take_of_length_le]
    · simp
    · simp
      omega
  refine ⟨(front ++ '?' :: query).take
    (if front.length = 0 then 2 ^ 64 - 1 else front.length - 1), ?_⟩
  rw [ofPath, if_neg (by simp), mark]
  simp only [substr_of_le (Nat.zero_le _), slash, substr_of_le inside, text, List.drop_zero]
  rfl

/-- A path that goes on with the name of a result. -/
theorem ofPath_result (result : Str) : ∃ root, ofPath (front ++ '?' :: (query ++ '/' :: result)) =
    .ok { path := front ++ '?' :: (query ++ '/' :: result), root := root, query := query,
          result := result } := by
  have mark : find (front ++ '?' :: (query ++ '/' :: result)) '?' 0 = some front.length := by
    simpa using find_append_cons noMark [] (query ++ '/' :: result)
  have slash : find (front ++ '?' :: (query ++ '/' :: result)) '/' front.length =
      some (front.length + (query.length + 1)) :=
    find_append_cons (a := '?' :: query) (by simpa using noSlash) front result
  have inside : front.length + 1 ≤ (front ++ '?' :: (query ++ '/' :: result)).length := by simp
  have within : front.length + (query.length + 1) + 1 ≤
      (front ++ '?' :: (query ++ '/' :: result)).length := by
    simp only [List.length_append, List.length_cons]
    omega
  have text : ((front ++ '?' :: (query ++ '/' :: result)).drop (front.length + 1)).take
      (front.length + (query.length + 1) - front.length - 1) = query := by
    simp [List.drop_append, List.drop_of_length_le]
  have rest : ((front ++ '?' :: (query ++ '/' :: result)).drop
      (front.length + (query.length + 1) + 1)).take
        (front ++ '?' :: (query ++ '/' :: result)).length = result := by
    have behind : front ++ '?' :: (query ++ '/' :: result) =
        (front ++ '?' :: (query ++ ['/'])) ++ result := by simp
    have length : (front ++ '?' :: (query ++ ['/'])).length =
        front.length + (query.length + 1) + 1 := by
      simp
      omega
    rw [behind, ← length, List.drop_left, List.take_of_length_le]
    simp
    omega
  refine ⟨(front ++ '?' :: (query ++ '/' :: result)).take
    (if front.length = 0 then 2 ^ 64 - 1 else front.length - 1), ?_⟩
  rw [ofPath, if_neg (by simp), mark]
  simp only [substr_of_le (Nat.zero_le _), slash, substr_of_le inside, substr_of_le within, text,
    rest, List.drop_zero]
  rfl

end Parts

section Absolute

variable {p : Str} {pos : Nat} (absolute : p.head? = some '/') (found : find p '?' 0 = some pos)
include found

theorem drop_of_find : p.drop pos = '?' :: p.drop (pos + 1) := by
  obtain ⟨i, first, rfl⟩ := Option.map_eq_some_iff.mp found
  obtain ⟨hi, mark, -⟩ := List.findIdx?_eq_some_iff_getElem.mp first
  simp only [List.drop_zero, decide_eq_true_eq] at hi mark
  rw [Nat.zero_add, List.drop_eq_getElem_cons hi, mark]

theorem find_slash_eq_none (noSlash : '/' ∉ p.drop (pos + 1)) : find p '/' pos = none := by
  rw [find, drop_of_find found, Option.map_eq_none_iff, List.findIdx?_eq_none_iff]
  intro c hc
  rcases List.mem_cons.mp hc with rfl | hc
  · decide
  · exact decide_eq_false fun same => noSlash (same ▸ hc)

include absolute

theorem pos_of_absolute : 0 < pos := by
  refine Nat.pos_of_ne_zero ?_
  rintro rfl
  have mark := drop_of_find found
  rw [List.drop_zero] at mark
  rw [mark] at absolute
  cases absolute

/-- The constructor returns; the root stops one character in front of the question mark. -/
theorem ofPath_root : ∃ path, ofPath p = .ok path ∧ path.root = p.take (pos - 1) ∧
    ('/' ∉ p.drop (pos + 1) → path.query = p.drop (pos + 1)) := by
  have nonempty : p ≠ [] := by
    rintro rfl
    cases absolute
  have positive := pos_of_absolute absolute found
  have inside := (lt_length_of_find found).2
  unfold ofPath
  rw [if_neg nonempty, found]
  simp only [if_neg positive.ne', substr_of_le (Nat.zero_le _), List.drop_zero]
  cases slash : find p '/' pos with
  | none =>
    have all : (p.drop (pos + 1)).take p.length = p.drop (pos + 1) :=
      List.take_of_length_le (by simp)
    simp only [substr_of_le (Nat.succ_le_of_lt inside), all]
    exact ⟨_, rfl, rfl, fun _ => rfl⟩
  | some resultBegin =>
    have within := (lt_length_of_find slash).2
    simp only [substr_of_le (Nat.succ_le_of_lt inside), substr_of_le (Nat.succ_le_of_lt within)]
    refine ⟨_, rfl, rfl, fun noSlash => ?_⟩
    rw [find_slash_eq_none found noSlash] at slash
    cases slash

end Absolute

/-! ## The two parsers -/

/-- Both find the same root and, when no slash follows, the conditions that the path object
has for a query are those that are read from the whole path. -/
def Agree (now : Nat) (p : Str) (parsed : ComplexQuery) : Prop :=
  ∃ path, ofPath p = .ok path ∧ path.root = parsed.root ∧
    ∀ pos, find p '?' 0 = some pos → '/' ∉ p.drop (pos + 1) →
      ∃ status query, parseCondition now {} path.query = .ok (status, query) ∧
        query.rangeQueryMap = parsed.rangeQueryMap

section Conditions

variable {now : Nat} {text : Str} {query : ComplexQuery}

/-- Items that are answered once are answered for a fresh query, with the same ranges. -/
theorem parseItems_fresh {root : Str} {list : List Item} {status : Status}
    (answer : parseItems now { root := root } list = .ok (status, query)) :
    ∃ status' query', parseItems now {} list = .ok (status', query') ∧
      query'.rangeQueryMap = query.rangeQueryMap := by
  have returns := (parseItems_returns_iff now { root := root } list).mp ⟨_, answer⟩
  obtain ⟨⟨status', query'⟩, fresh⟩ := (parseItems_returns_iff now {} list).mpr returns
  refine ⟨status', query', fresh, ?_⟩
  rw [parseItems_answered fresh, parseItems_answered answer]

/-- The first of the texts between the `&`. -/
theorem splitOn_first (text : Str) : ∃ first rest, text.splitOn '&' = first :: rest ∧
    first <+: text ∧ (text ≠ [] → (first = [] ↔ text.head? = some '&')) := by
  by_cases present : '&' ∈ text
  · obtain ⟨front, back, rfl, absent⟩ := List.eq_append_cons_of_mem present
    refine ⟨front, _, List.splitOn_append_cons_self_of_not_mem absent back,
      List.prefix_append _ _, fun _ => ?_⟩
    cases front with
    | nil => simp
    | cons c front =>
      have other : c ≠ '&' := by
        rintro rfl
        exact absent List.mem_cons_self
      simpa using other
  · refine ⟨text, [], List.splitOn_eq_singleton present, List.prefix_refl _, fun nonempty => ?_⟩
    exact iff_of_false nonempty fun head => present (List.mem_of_head? head)

/-- A text without an operator, as a list of conditions: the first one is refused, unless it
is empty and the process aborts. -/
theorem parseCondition_of_noOp (nonempty : text ≠ []) (noOp : ¬ text.any isOpChar = true) :
    (∃ status query, parseCondition now {} text = .ok (status, query) ∧
      query.rangeQueryMap = ({} : ComplexQuery).rangeQueryMap) ↔ text.head? ≠ some '&' := by
  obtain ⟨first, rest, pieces, inside, starts⟩ := splitOn_first text
  rw [Ne, ← starts nonempty, parseCondition, if_neg nonempty, pieces, parseExpressions]
  by_cases empty : first = []
  · subst empty
    exact iff_of_false (by rintro ⟨_, _, h, -⟩; cases h) (fun h => h rfl)
  · have plain : ∀ c ∈ first, (!isOpChar c) = true := by
      intro c hc
      have := List.any_eq_false.mp (Bool.eq_false_iff.mpr noOp) c (inside.subset hc)
      simpa using this
    have malformed : Malformed first := by
      left
      rw [operand, List.dropWhile_eq_nil_iff.mpr plain]
      rfl
    obtain ⟨status, bad, outcome⟩ := parseExpression_of_malformed now {} empty malformed
    refine iff_of_true ⟨status, {}, ?_, rfl⟩ empty
    rw [outcome]
    simp [Bind.bind, Except.bind, bad, Pure.pure, Except.pure]

/-- The text behind a question mark that no slash follows, when the path is accepted: its
conditions are those of the text, if it has an operator, and otherwise there are none. -/
theorem accepted_conditions {root : Str} (noSlash : '/' ∉ text)
    (accepted : parseItems now { root := root } ((segments text).flatMap itemsOf) =
      .ok (.OK, query)) :
    (∃ status query', parseCondition now {} text = .ok (status, query') ∧
      query'.rangeQueryMap = query.rangeQueryMap) ↔
      text.any isOpChar = true ∨ text.head? ≠ some '&' := by
  have nonempty : text ≠ [] := by
    rintro rfl
    rw [segments] at accepted
    cases accepted
  rw [segments_of_not_mem noSlash, List.flatMap_singleton] at accepted
  by_cases operator : text.any isOpChar = true
  · refine iff_of_true ?_ (.inl operator)
    obtain ⟨status, query', fresh, same⟩ := parseItems_fresh accepted
    rw [itemsOf, if_neg nonempty, if_pos operator, parseItems_expressions] at fresh
    exact ⟨status, query', by rw [parseCondition, if_neg nonempty, fresh], same⟩
  · rw [itemsOf, if_neg nonempty, if_neg operator] at accepted
    cases accepted
    rw [or_iff_right operator]
    exact parseCondition_of_noOp nonempty operator

end Conditions

/-- On a path that is accepted, the two parsers agree exactly when the question mark is not
directly behind the first slash, and the conditions do not start with an `&` where no slash
follows and no operator makes the query parser look at them. -/
theorem parsers_agree_iff {now : Nat} {p : Str} {pos : Nat} {parsed : ComplexQuery}
    (absolute : p.head? = some '/') (found : find p '?' 0 = some pos)
    (accepted : parse now {} p = .ok (.OK, parsed)) :
    Agree now p parsed ↔ pos ≠ 1 ∧ ('/' ∉ p.drop (pos + 1) →
      (p.drop (pos + 1)).any isOpChar = true ∨ (p.drop (pos + 1)).head? ≠ some '&') := by
  obtain ⟨path, built, root, conditions⟩ := ofPath_root absolute found
  have positive := pos_of_absolute absolute found
  have inside := (lt_length_of_find found).2
  have cut := root_of_parse absolute found accepted
  rw [parse_of_find_eq_some now {} absolute found] at accepted
  simp only [items, found] at accepted
  have roots : path.root = parsed.root ↔ pos ≠ 1 := by
    rw [root, cut]
    by_cases first : pos = 1
    · subst first
      simp
    · rw [if_pos (by omega)]
      exact iff_of_true rfl first
  constructor
  · rintro ⟨path', built', same, same_conditions⟩
    rw [built] at built'
    cases built'
    refine ⟨roots.mp same, fun noSlash => ?_⟩
    have read := same_conditions pos found noSlash
    rw [conditions noSlash] at read
    exact (accepted_conditions noSlash accepted).mp read
  · rintro ⟨deep, starts⟩
    refine ⟨path, built, roots.mpr deep, fun pos' found' noSlash => ?_⟩
    obtain rfl := Option.some.inj (found.symm.trans found')
    rw [conditions noSlash]
    exact (accepted_conditions noSlash accepted).mpr (starts noSlash)

theorem exists_accepted {now : Nat} {p root : Str}
    (outcome : (parse now {} p).toOption.map (fun r => (r.1, r.2.root)) = some (.OK, root)) :
    ∃ parsed, parse now {} p = .ok (.OK, parsed) ∧ parsed.root = root := by
  cases returns : parse now {} p with
  | error e =>
    rw [returns] at outcome
    cases outcome
  | ok result =>
    obtain ⟨status, parsed⟩ := result
    rw [returns] at outcome
    obtain ⟨rfl, rfl⟩ := Prod.mk.inj (Option.some.inj outcome)
    exact ⟨parsed, rfl, rfl⟩

/-- Directly below the root directory, the root of the path object is empty. -/
theorem not_agree_root : ∃ parsed, parse 0 {} "/?x>1".toList = .ok (.OK, parsed) ∧
    parsed.root = "/".toList ∧ ¬ Agree 0 "/?x>1".toList parsed := by
  obtain ⟨parsed, accepted, root⟩ :=
    exists_accepted (by decide +kernel : (parse 0 {} "/?x>1".toList).toOption.map
      (fun r => (r.1, r.2.root)) = some (.OK, "/".toList))
  refine ⟨parsed, accepted, root, ?_⟩
  rintro ⟨path, built, same, -⟩
  have empty : (ofPath "/?x>1".toList).toOption.map (·.root) = some [] := by decide +kernel
  rw [built] at empty
  have none : path.root = [] := Option.some.inj empty
  rw [same, root] at none
  cases none

theorem agree_below_root : ∃ parsed, parse 0 {} "/d/?x>1".toList = .ok (.OK, parsed) ∧
    Agree 0 "/d/?x>1".toList parsed := by
  obtain ⟨parsed, accepted, -⟩ :=
    exists_accepted (by decide +kernel : (parse 0 {} "/d/?x>1".toList).toOption.map
      (fun r => (r.1, r.2.root)) = some (.OK, "/d".toList))
  have found : find "/d/?x>1".toList '?' 0 = some 3 := by decide
  exact ⟨parsed, accepted, (parsers_agree_iff rfl found accepted).mpr
    ⟨by decide, fun _ => .inl (by decide)⟩⟩

end PosixPath

end Vsfs

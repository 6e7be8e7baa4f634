import Vsfs.Common.QueryRanges

/-!
# Parses that fail

The parser writes the root and the ranges of the query as it goes, and gives up at the first
item that it refuses. What the items in front of it set stays.

## Main results

- `parse_unchanged_iff`: exactly when a parse that fails leaves the query as it was.
-/

namespace Vsfs.ComplexQuery

open Std FiniteMap

/-! ## Settings -/

/-- What an expression sets, if it is accepted. -/
def settingOf (now : Nat) (exp : Str) : Option Setting :=
  match opOf exp, parseValue now (fieldOf exp) (trimCopy (operand exp)) with
  | some op, .ok (status, value) =>
    if operand exp ≠ [] ∧ status.ok = true ∧ op ≠ .NEQ then some ⟨fieldOf exp, op, value⟩ else none
  | _, _ => none

def Item.setting (now : Nat) : Item → Option Setting
  | .emptySegment => none
  | .expression exp => settingOf now exp

/-- The settings in front of the first item that is not accepted. -/
def leading (now : Nat) : List Item → List Setting
  | [] => []
  | item :: rest =>
    match item.setting now with
    | some s => s :: leading now rest
    | none => []

variable {now : Nat} {query query' : ComplexQuery} {status : Status}

/-- An expression that is answered sets the range of its field, or nothing. -/
theorem parseExpression_answered {exp : Str}
    (answer : parseExpression now query exp = .ok (status, query')) :
    (∃ s, settingOf now exp = some s ∧ status = .OK ∧
      query' = { query with rangeQueryMap := s.addTo query.rangeQueryMap }) ∨
    (settingOf now exp = none ∧ status.ok = false ∧ query' = query) := by
  have nonempty : exp ≠ [] := by
    rintro rfl
    cases answer
  by_cases malformed : Malformed exp
  · obtain ⟨status', bad, outcome⟩ := parseExpression_of_malformed now query nonempty malformed
    rw [outcome] at answer
    cases answer
    refine .inr ⟨?_, bad, rfl⟩
    unfold settingOf
    rcases malformed with none | none | ⟨unit, status', unknown⟩
    · split <;> simp [none]
    · simp only [none]
    · rw [parseValue_of_error now unit unknown]
      split
      · rename_i value
        cases value
        simp [ok_of_unitValue unknown]
      · rfl
  · obtain ⟨op, known, outcome⟩ := parseExpression_of_wellFormed now query malformed
    have some_operand : operand exp ≠ [] := fun none => malformed (.inl none)
    rw [outcome] at answer
    rcases parseValue_of_wellFormed now malformed with ⟨-, value⟩ | ⟨-, text, value⟩
    · rw [value] at answer
      cases answer
    · rw [value] at answer
      by_cases neq : op = .NEQ
      · subst neq
        cases answer
        exact .inr ⟨by simp [settingOf, known, value], rfl, rfl⟩
      · refine .inl ⟨⟨fieldOf exp, op, text⟩, ?_, ?_⟩
        · simp [settingOf, known, value, some_operand, neq]
        · unfold Setting.addTo
          cases op with
          | NEQ => exact absurd rfl neq
          | EQ | GT | GE | LT | LE =>
            cases answer
            exact ⟨rfl, rfl⟩

theorem parseItem_answered {item : Item}
    (answer : parseItem now query item = .ok (status, query')) :
    (∃ s, item.setting now = some s ∧ status = .OK ∧
      query' = { query with rangeQueryMap := s.addTo query.rangeQueryMap }) ∨
    (item.setting now = none ∧ status.ok = false ∧ query' = query) := by
  cases item with
  | emptySegment =>
    cases answer
    exact .inr ⟨rfl, rfl, rfl⟩
  | expression exp => exact parseExpression_answered answer

/-- However the parser answers, the query has what the leading settings set, and no more. -/
theorem parseItems_answered {list : List Item}
    (answer : parseItems now query list = .ok (status, query')) :
    query' = { query with rangeQueryMap := addAll (leading now list) query.rangeQueryMap } := by
  induction list generalizing query with
  | nil =>
    cases answer
    rfl
  | cons item list ih =>
    rw [parseItems] at answer
    cases first : parseItem now query item with
    | error e =>
      rw [first] at answer
      cases answer
    | ok result =>
      obtain ⟨status₁, query₁⟩ := result
      rw [first] at answer
      rcases parseItem_answered first with ⟨s, accepted, rfl, rfl⟩ | ⟨refused, bad, rfl⟩
      · rw [ih answer, leading, accepted]
        rfl
      · simp only [Bind.bind, Except.bind, bad, Pure.pure, Except.pure] at answer
        cases answer
        rw [leading, refused]
        rfl

/-! ## The query as it was -/

/-- The part of a path that is taken for the directory. -/
def rootOf (buf : Str) (pos : Nat) : Str := if 1 < pos then buf.take (pos - 1) else ['/']

/-- No question mark, or the directory and the leading settings are what the query has
already. -/
def SetsNothing (now : Nat) (query : ComplexQuery) (buf : Str) : Prop :=
  ∀ pos, find buf '?' 0 = some pos → rootOf buf pos = query.root ∧
    ∀ s ∈ leading now (items buf), query.rangeQueryMap[s.field]? =
      some (rangeAfter (query.rangeOf s.field) (leading now (items buf)) s.field)

theorem addAll_eq_iff (settings : List Setting) (ranges : ExtTreeMap Str StringRange) :
    (∀ field : Str, (addAll settings ranges)[field]? = ranges[field]?) ↔
      ∀ s ∈ settings, ranges[s.field]? =
        some (rangeAfter (ranges[s.field]?.getD noBounds) settings s.field) := by
  constructor
  · intro same s hs
    rw [← getElem?_addAll_of_named ⟨s, hs, rfl⟩, same]
  · intro has field
    by_cases named : ∃ s ∈ settings, s.field = field
    · obtain ⟨s, hs, rfl⟩ := named
      rw [getElem?_addAll_of_named ⟨s, hs, rfl⟩]
      exact (has s hs).symm
    · exact getElem?_addAll_of_not_named (fun s hs same => named ⟨s, hs, same⟩) ranges

/-- A parse that fails leaves the root and the ranges of the query as they were exactly when
it has nothing to set in front of the failure. -/
theorem parse_unchanged_iff {buf : Str} (absolute : buf.head? = some '/')
    (answer : parse now query buf = .ok (status, query')) (failed : status.ok = false) :
    (query'.root = query.root ∧ ∀ name, query'.rangeQuery name = query.rangeQuery name) ↔
      SetsNothing now query buf := by
  unfold SetsNothing
  cases found : find buf '?' 0 with
  | none =>
    rw [parse_of_find_eq_none now query absolute found] at answer
    cases answer
    exact iff_of_true ⟨rfl, fun name => rfl⟩ nofun
  | some pos =>
    rw [parse_of_find_eq_some now query absolute found] at answer
    obtain rfl := parseItems_answered answer
    simp only [rangeQuery, addAll_eq_iff, Option.some.injEq, forall_eq']
    rfl

/-- The error is in the second condition: the directory and the first one stay. -/
theorem parse_failed_changed :
    ∃ status query', parse 0 {} "/d/?a>1&b".toList = .ok (status, query') ∧ status.ok = false ∧
      query'.root = "/d".toList ∧
      query'.rangeQuery "a".toList = some { noBounds with lower := "1".toList } ∧
      ¬ (query'.root = ({} : ComplexQuery).root ∧
        ∀ name, query'.rangeQuery name = ({} : ComplexQuery).rangeQuery name) := by
  have outcome : (parse 0 {} "/d/?a>1&b".toList).toOption.map
      (fun r => (r.1.ok, r.2.root, r.2.rangeQuery "a".toList)) =
      some (false, "/d".toList, some { noBounds with lower := "1".toList }) := by decide +kernel
  cases returns : parse 0 {} "/d/?a>1&b".toList with
  | error e =>
    rw [returns] at outcome
    cases outcome
  | ok result =>
    obtain ⟨status, query'⟩ := result
    rw [returns] at outcome
    obtain ⟨failed, root, range⟩ : status.ok = false ∧ query'.root = "/d".toList ∧
        query'.rangeQuery "a".toList = some { noBounds with lower := "1".toList } := by
      simpa [Except.toOption] using outcome
    refine ⟨status, query', rfl, failed, root, range, fun same => ?_⟩
    rw [root] at same
    cases same.1

/-- Nothing is in front of the error but a directory that the query has already. -/
theorem parse_failed_unchanged : ∃ status query',
    parse 0 { root := "/d".toList } "/d/?b&a>1".toList = .ok (status, query') ∧
      query'.root = "/d".toList := by
  have refused : (parse 0 { root := "/d".toList } "/d/?b&a>1".toList).toOption.map
      (fun r => r.1.ok) = some false := by decide +kernel
  cases returns : parse 0 { root := "/d".toList } "/d/?b&a>1".toList with
  | error e =>
    rw [returns] at refused
    cases refused
  | ok result =>
    obtain ⟨status, query'⟩ := result
    rw [returns] at refused
    refine ⟨status, query', rfl, ?_⟩
    have nothing : SetsNothing 0 { root := "/d".toList } "/d/?b&a>1".toList := by
      intro pos found
      obtain rfl : 3 = pos := Option.some.inj found
      refine ⟨by decide, fun s hs => ?_⟩
      have none : leading 0 (items "/d/?b&a>1".toList) = [] := by decide +kernel
      rw [none] at hs
      cases hs
    exact ((parse_unchanged_iff rfl returns (Option.some.inj refused)).mpr nothing).1

end Vsfs.ComplexQuery

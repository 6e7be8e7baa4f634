import Mathlib.Data.Bool.AllAny
import Mathlib.Tactic.IntervalCases
import Vsfs.Common.QueryParser

/-!
# What the parser looks at

The nested loops of the parser visit a list of items in order, the expressions of the path
and its empty segments, and stop at the first one that is rejected. So whether a path makes
it abort or throw is decided by the first item that is not accepted.
-/

namespace Vsfs.ComplexQuery

open Std

/-- The segments of the text behind the question mark. The loop looks for the next slash one
character further on: the first character of a segment before a slash is dropped, unless
it is a slash itself. -/
def segments : Str → List Str
  | [] => [[]]
  | c :: rest =>
    match rest.findIdx? (· = '/') with
    | none => [c :: rest]
    | some 0 => segments rest
    | some (i + 1) => rest.take (i + 1) :: segments (rest.drop (i + 2))
termination_by s => s.length

inductive Item where
  | emptySegment
  | expression (text : Str)
  deriving DecidableEq, Repr

def itemsOf (seg : Str) : List Item :=
  if seg = [] then [.emptySegment]
  else if seg.any isOpChar then (seg.splitOn '&').map .expression
  else []

/-- The items of a path, in the order in which they are parsed. -/
def items (buf : Str) : List Item :=
  match find buf '?' 0 with
  | none => []
  | some pos => (segments (buf.drop (pos + 1))).flatMap itemsOf

def parseItem (now : Nat) (query : ComplexQuery) : Item → Parses (Status × ComplexQuery)
  | .emptySegment => .ok (⟨-1, "Segment is empty."⟩, query)
  | .expression text => parseExpression now query text

/-- The items one after the other, until one is rejected. -/
def parseItems (now : Nat) (query : ComplexQuery) : List Item → Parses (Status × ComplexQuery)
  | [] => .ok (.OK, query)
  | item :: rest => do
    let (status, query) ← parseItem now query item
    if !status.ok then return (status, query)
    parseItems now query rest

theorem parseItems_expressions (now : Nat) (query : ComplexQuery) (exps : List Str) :
    parseItems now query (exps.map .expression) = parseExpressions now query exps := by
  induction exps generalizing query with
  | nil => rfl
  | cons exp exps ih =>
    simp only [List.map_cons, parseItems, parseExpressions, parseItem, ih]

theorem parseItems_append (now : Nat) (query : ComplexQuery) (front back : List Item) :
    parseItems now query (front ++ back) = (do
      let (status, query) ← parseItems now query front
      if !status.ok then return (status, query)
      parseItems now query back) := by
  induction front generalizing query with
  | nil => rfl
  | cons item front ih =>
    simp only [List.cons_append, parseItems]
    cases parseItem now query item with
    | error e => rfl
    | ok result =>
      obtain ⟨status, query'⟩ := result
      cases ok : status.ok with
      | false => simp [Bind.bind, Except.bind, ok, Pure.pure, Except.pure]
      | true => simpa [Bind.bind, Except.bind, ok] using ih query'

theorem parseItems_itemsOf (now : Nat) (query : ComplexQuery) (seg : Str) :
    parseItems now query (itemsOf seg) = parseSegment now query seg := by
  unfold itemsOf parseSegment
  split
  · rfl
  · split
    · rename_i some_char _
      rw [parseItems_expressions, parseCondition, if_neg some_char]
    · rfl

/-- Looking for a slash behind a position, from what is left there. -/
theorem find_succ {buf rest : Str} {c d : Char} {pos : Nat} (at_pos : buf.drop pos = d :: rest) :
    find buf c (pos + 1) = (rest.findIdx? (· = c)).map (pos + 1 + ·) := by
  have tail : buf.drop (pos + 1) = rest := by
    rw [← List.drop_drop, at_pos]
    rfl
  rw [find, tail]

theorem substr_of_le {buf : Str} {pos : Nat} (inside : pos ≤ buf.length) (n : Nat) :
    substr buf pos n = .ok ((buf.drop pos).take n) :=
  if_neg (Nat.not_lt.mpr inside)

/-- The loop goes through the items of the segments, and no cut of it is out of range. -/
theorem parseLoop_eq (now : Nat) (buf : Str) (query : ComplexQuery) (last : Nat)
    (inside : last ≤ buf.length) :
    parseLoop now buf query last =
      parseItems now query ((segments (buf.drop last)).flatMap itemsOf) := by
  fun_induction parseLoop now buf query last with
  | case1 query last none =>
    have whole : segments (buf.drop last) = [buf.drop last] := by
      cases at_last : buf.drop last with
      | nil => rw [segments]
      | cons c rest =>
        rw [find_succ at_last, Option.map_eq_none_iff] at none
        rw [segments, none]
    have all : (buf.drop last).take buf.length = buf.drop last :=
      List.take_of_length_le (by simp)
    rw [substr_of_le inside, all, whole, List.flatMap_singleton, parseItems_itemsOf]
    rfl
  | case2 query last found bounds ih =>
    have at_last : ∃ c, buf.drop last = c :: buf.drop (last + 1) :=
      ⟨_, List.drop_eq_getElem_cons (by omega)⟩
    obtain ⟨c, at_last⟩ := at_last
    rw [find_succ at_last] at found
    obtain ⟨i, first, zero⟩ := Option.map_eq_some_iff.mp found
    have : i = 0 := by omega
    subst this
    rw [ih (by omega), at_last, segments, first]
  | case3 query last pos found bounds skip ih =>
    have at_last : ∃ c, buf.drop last = c :: buf.drop (last + 1) :=
      ⟨_, List.drop_eq_getElem_cons (by omega)⟩
    obtain ⟨c, at_last⟩ := at_last
    rw [find_succ at_last] at found
    obtain ⟨i, first, position⟩ := Option.map_eq_some_iff.mp found
    obtain ⟨i, rfl⟩ : ∃ j, i = j + 1 := ⟨i - 1, by omega⟩
    have length : pos - last - 1 = i + 1 := by omega
    have next : buf.drop (pos + 1) = (buf.drop (last + 1)).drop (i + 2) := by
      rw [List.drop_drop]
      congr 1
      omega
    rw [substr_of_le (by omega), at_last, segments, first, List.flatMap_cons, parseItems_append,
      parseItems_itemsOf, length]
    simp only [Bind.bind, Except.bind]
    cases parseSegment now query ((buf.drop (last + 1)).take (i + 1)) with
    | error e => rfl
    | ok result =>
      dsimp only
      split
      · rfl
      · rw [ih result.2 (by omega), next]

theorem parse_of_find_eq_none (now : Nat) (query : ComplexQuery) {buf : Str}
    (absolute : buf.head? = some '/') (found : find buf '?' 0 = none) :
    parse now query buf =
      .ok (⟨-2, "This path is not a file query." ++ String.ofList buf⟩, query) := by
  have nonempty : buf ≠ [] := by
    rintro rfl
    cases absolute
  rw [parse, if_neg nonempty, if_neg (not_not.mpr absolute), found]

/-- Behind a question mark, the parser goes through the items of the path. -/
theorem parse_of_find_eq_some (now : Nat) (query : ComplexQuery) {buf : Str} {pos : Nat}
    (absolute : buf.head? = some '/') (found : find buf '?' 0 = some pos) :
    parse now query buf =
      parseItems now { query with root := if 1 < pos then buf.take (pos - 1) else ['/'] }
        (items buf) := by
  have nonempty : buf ≠ [] := by
    rintro rfl
    cases absolute
  rw [parse, if_neg nonempty, if_neg (not_not.mpr absolute), items, found]
  exact parseLoop_eq now buf _ (pos + 1) (lt_length_of_find found).2

/-! ## Texts of numbers -/

theorem isNumberChar_of_isDigit {c : Char} (digit : c.isDigit = true) : isNumberChar c = true := by
  have low : 48 ≤ c.toNat := by
    simp only [Char.isDigit, Bool.and_eq_true, decide_eq_true_eq] at digit
    exact digit.1
  have high : c.toNat ≤ 57 := by
    simp only [Char.isDigit, Bool.and_eq_true, decide_eq_true_eq] at digit
    exact digit.2
  have same : c = Char.ofNat c.toNat := (Char.ofNat_toNat c).symm
  generalize c.toNat = n at low high same
  subst same
  interval_cases n <;> decide

theorem numberChar_plain {c : Char} (h : isNumberChar c = true) :
    isSpace c = false ∧ isOpChar c = false := by
  have all : ∀ c ∈ "0123456789.+-".toList, isSpace c = false ∧ isOpChar c = false :=
    List.all_iff_forall_prop.mp (by decide)
  exact all c (of_decide_eq_true h)

theorem trimCopy_of_noSpace {s : Str} (h : ∀ c ∈ s, isSpace c = false) : trimCopy s = s := by
  have stays {l : Str} (h : ∀ c ∈ l, isSpace c = false) : l.dropWhile isSpace = l := by
    cases l with
    | nil => rfl
    | cons c l => exact List.dropWhile_cons_of_neg (by simp [h c List.mem_cons_self])
  rw [trimCopy, stays h, List.rdropWhile, stays fun c hc => h c (List.mem_reverse.mp hc),
    List.reverse_reverse]

/-! ## Values -/

/-- The text of the number in front of a unit, without the sign of a time. -/
def numberText (field value : Str) : Str :=
  if isTime field ∧ (value.head? = some '+' ∨ value.head? = some '-') then
    (value.takeWhile isNumberChar).drop 1
  else value.takeWhile isNumberChar

section Value

variable (now : Nat) {field value : Str}

theorem parseValue_of_plain (plain : value.dropWhile isNumberChar = []) :
    parseValue now field value = .ok (.OK, value) :=
  if_pos plain

theorem parseValue_of_error {status : Status} (unit : value.dropWhile isNumberChar ≠ [])
    (unknown : unitValue field (value.dropWhile isNumberChar) = .error status) :
    parseValue now field value = .ok (status, value) := by
  simp only [parseValue, if_neg unit, unknown]

theorem parseValue_of_none {n : Nat} (unit : value.dropWhile isNumberChar ≠ [])
    (known : unitValue field (value.dropWhile isNumberChar) = .ok n)
    (bad : lexicalCastInt false 64 (numberText field value) = none) :
    parseValue now field value = .error .badLexicalCast := by
  unfold numberText at bad
  simp only [parseValue, if_neg unit, known]
  split
  · rename_i relative
    rw [if_pos relative] at bad
    simp only [castUint64, bad]
    rfl
  · rename_i absolute
    rw [if_neg absolute] at bad
    simp only [castUint64, bad]
    rfl

theorem parseValue_of_some {n : Nat} {i : Int} (unit : value.dropWhile isNumberChar ≠ [])
    (known : unitValue field (value.dropWhile isNumberChar) = .ok n)
    (good : lexicalCastInt false 64 (numberText field value) = some i) :
    ∃ read, parseValue now field value = .ok (.OK, read) := by
  unfold numberText at good
  simp only [parseValue, if_neg unit, known]
  split
  · rename_i relative
    rw [if_pos relative] at good
    simp only [castUint64, good]
    exact ⟨_, rfl⟩
  · rename_i absolute
    rw [if_neg absolute] at good
    simp only [castUint64, good]
    exact ⟨_, rfl⟩

end Value

/-! ## Items that do not return -/

section Expression

variable (exp : Str)

def fieldOf : Str := trimCopy (exp.takeWhile (fun c => !isOpChar c))

def opOf : Option CondOp :=
  parseCondOp ((exp.dropWhile (fun c => !isOpChar c)).takeWhile isOpChar)

/-- What follows the operator. -/
def operand : Str := (exp.dropWhile (fun c => !isOpChar c)).dropWhile isOpChar

def unitOf : Str := (trimCopy (operand exp)).dropWhile isNumberChar

/-- No operator, nothing behind it, not one of the six, or a unit that the field does not
have. -/
def Malformed : Prop :=
  operand exp = [] ∨ opOf exp = none ∨
    (unitOf exp ≠ [] ∧ ∃ status, unitValue (fieldOf exp) (unitOf exp) = .error status)

/-- A unit behind something that is not an unsigned number of 64 bits. -/
def Uncastable : Prop :=
  unitOf exp ≠ [] ∧
    lexicalCastInt false 64 (numberText (fieldOf exp) (trimCopy (operand exp))) = none

end Expression

/-- An empty expression, or a well-formed one whose number does not cast. -/
def Item.Fatal : Item → Prop
  | .emptySegment => False
  | .expression exp => exp = [] ∨ (¬ Malformed exp ∧ Uncastable exp)

/-- The parser answers with an error: the segment is empty, the expression is malformed, or
asks for the keys that differ from a value. -/
def Item.Refused : Item → Prop
  | .emptySegment => True
  | .expression exp =>
    exp ≠ [] ∧ (Malformed exp ∨ (¬ Uncastable exp ∧ opOf exp = some .NEQ))

theorem ok_of_unitValue {field unit : Str} {status : Status}
    (h : unitValue field unit = .error status) : status.ok = false := by
  unfold unitValue at h
  split at h
  · split at h
    · cases h
    · split at h <;> cases h
      rfl
  · split at h
    · repeat' split at h
      all_goals cases h
      rfl
    · cases h

/-- A well-formed value is read, or does not cast. -/
theorem parseValue_of_wellFormed (now : Nat) {exp : Str} (wellFormed : ¬ Malformed exp) :
    (Uncastable exp ∧
      parseValue now (fieldOf exp) (trimCopy (operand exp)) = .error .badLexicalCast) ∨
    (¬ Uncastable exp ∧
      ∃ value, parseValue now (fieldOf exp) (trimCopy (operand exp)) = .ok (.OK, value)) := by
  unfold Uncastable
  by_cases plain : unitOf exp = []
  · exact .inr ⟨fun h => h.1 plain, _, parseValue_of_plain now plain⟩
  · cases known : unitValue (fieldOf exp) (unitOf exp) with
    | error status => exact absurd (.inr (.inr ⟨plain, status, known⟩)) wellFormed
    | ok n =>
      cases cast : lexicalCastInt false 64 (numberText (fieldOf exp) (trimCopy (operand exp))) with
      | none => exact .inl ⟨⟨plain, rfl⟩, parseValue_of_none now plain known cast⟩
      | some i => exact .inr ⟨by simp, parseValue_of_some now plain known cast⟩

theorem parseExpression_of_malformed (now : Nat) (query : ComplexQuery) {exp : Str}
    (nonempty : exp ≠ []) (malformed : Malformed exp) :
    ∃ status : Status, status.ok = false ∧ parseExpression now query exp = .ok (status, query) := by
  unfold parseExpression
  rw [if_neg nonempty]
  dsimp only
  split
  · exact ⟨_, rfl, rfl⟩
  · rename_i complete
    split
    · exact ⟨_, rfl, rfl⟩
    · rename_i op known
      rcases malformed with none | none | ⟨plain, status, unknown⟩
      · exact absurd (.inr none) complete
      · exact absurd (known.symm.trans none) (by simp)
      · have bad := ok_of_unitValue unknown
        have value := parseValue_of_error now plain unknown
        refine ⟨status, bad, ?_⟩
        change (parseValue now (fieldOf exp) (trimCopy (operand exp)) >>= _) = _
        rw [value]
        simp [Bind.bind, Except.bind, bad, Pure.pure, Except.pure]

/-- An expression with a value goes as its value and its operator. -/
theorem parseExpression_of_wellFormed (now : Nat) (query : ComplexQuery) {exp : Str}
    (wellFormed : ¬ Malformed exp) :
    ∃ op, opOf exp = some op ∧ parseExpression now query exp = (do
      let (status, value) ← parseValue now (fieldOf exp) (trimCopy (operand exp))
      if !status.ok then return (status, query)
      match op.range value (query.rangeOf (fieldOf exp)) with
      | none => return (⟨-1, "Unknown op code."⟩, query)
      | some range => return (.OK,
          { query with rangeQueryMap := query.rangeQueryMap.insert (fieldOf exp) range })) := by
  obtain ⟨some_operand, rest⟩ := not_or.mp wellFormed
  obtain ⟨op, known⟩ := Option.ne_none_iff_exists'.mp (not_or.mp rest).1
  have nonempty : exp ≠ [] := by
    rintro rfl
    exact some_operand rfl
  have complete : ¬ (exp.dropWhile (fun c => !isOpChar c) = [] ∨ operand exp = []) := by
    rintro (none | none)
    · exact some_operand (by rw [operand, none]; rfl)
    · exact some_operand none
  refine ⟨op, known, ?_⟩
  unfold parseExpression
  rw [if_neg nonempty]
  dsimp only
  refine (if_neg complete).trans ?_
  unfold opOf at known
  rw [known]
  rfl

/-! ## The text of an expression -/

def CondOp.text : CondOp → Str
  | .EQ => "=".toList
  | .NEQ => "!=".toList
  | .GT => ">".toList
  | .GE => ">=".toList
  | .LT => "<".toList
  | .LE => "<=".toList

theorem CondOp.isOpChar_of_mem_text (op : CondOp) : ∀ c ∈ op.text, isOpChar c = true := by
  cases op <;> exact List.all_eq_true.mp (by decide)

theorem CondOp.text_ne_nil (op : CondOp) : op.text ≠ [] := by
  cases op <;> decide

theorem CondOp.parseCondOp_text (op : CondOp) : parseCondOp op.text = some op := by
  cases op <;> rfl

section Text

variable {field value : Str} (field_noOp : ∀ c ∈ field, isOpChar c = false) (op : CondOp)
include field_noOp

theorem dropWhile_expression (value : Str) :
    (field ++ (op.text ++ value)).dropWhile (fun c => !isOpChar c) = op.text ++ value := by
  have skipped : ∀ c ∈ field, (!isOpChar c) = true := fun c hc => by simp [field_noOp c hc]
  obtain ⟨d, rest, head⟩ := List.exists_cons_of_ne_nil op.text_ne_nil
  have first := op.isOpChar_of_mem_text d (by simp [head])
  rw [List.dropWhile_append_of_pos skipped, head, List.cons_append,
    List.dropWhile_cons_of_neg (by simp [first])]

theorem fieldOf_expression (value : Str) :
    fieldOf (field ++ (op.text ++ value)) = trimCopy field := by
  have taken : ∀ c ∈ field, (!isOpChar c) = true := fun c hc => by simp [field_noOp c hc]
  obtain ⟨d, rest, head⟩ := List.exists_cons_of_ne_nil op.text_ne_nil
  have first := op.isOpChar_of_mem_text d (by simp [head])
  rw [fieldOf, List.takeWhile_append_of_pos taken, head, List.cons_append,
    List.takeWhile_cons_of_neg (by simp [first]), List.append_nil]

variable (some_value : value ≠ []) (value_noOp : ∀ c ∈ value, isOpChar c = false)
include some_value value_noOp

theorem operand_expression : operand (field ++ (op.text ++ value)) = value := by
  obtain ⟨d, rest, head⟩ := List.exists_cons_of_ne_nil some_value
  have plain := value_noOp d (by simp [head])
  rw [operand, dropWhile_expression field_noOp,
    List.dropWhile_append_of_pos op.isOpChar_of_mem_text, head,
    List.dropWhile_cons_of_neg (by simp [plain])]

theorem opOf_expression : opOf (field ++ (op.text ++ value)) = some op := by
  obtain ⟨d, rest, head⟩ := List.exists_cons_of_ne_nil some_value
  have plain := value_noOp d (by simp [head])
  rw [opOf, dropWhile_expression field_noOp,
    List.takeWhile_append_of_pos op.isOpChar_of_mem_text, head,
    List.takeWhile_cons_of_neg (by simp [plain]), List.append_nil, op.parseCondOp_text]

end Text

theorem CondOp.exists_range {op : CondOp} (ranged : op ≠ .NEQ) (value : Str) (old : StringRange) :
    ∃ range, op.range value old = some range := by
  cases op with
  | NEQ => exact absurd rfl ranged
  | EQ | GT | GE | LT | LE => exact ⟨_, rfl⟩

/-- An expression whose value is read sets the range of its field. -/
theorem parseExpression_of_read {now : Nat} (query : ComplexQuery) {field value bound : Str}
    {op : CondOp} (ranged : op ≠ .NEQ) (field_noOp : ∀ c ∈ field, isOpChar c = false)
    (some_value : value ≠ []) (value_noOp : ∀ c ∈ value, isOpChar c = false)
    (read : parseValue now (trimCopy field) (trimCopy value) = .ok (.OK, bound)) :
    ∃ range, op.range bound (query.rangeOf (trimCopy field)) = some range ∧
      parseExpression now query (field ++ (op.text ++ value)) = .ok (.OK,
        { query with rangeQueryMap := query.rangeQueryMap.insert (trimCopy field) range }) := by
  have hfield := fieldOf_expression field_noOp op value
  have hop := opOf_expression field_noOp op some_value value_noOp
  have hvalue := operand_expression field_noOp op some_value value_noOp
  have wellFormed : ¬ Malformed (field ++ (op.text ++ value)) := by
    rintro (none | none | ⟨unit, status, unknown⟩)
    · exact some_value (hvalue.symm.trans none)
    · exact absurd (hop.symm.trans none) (by simp)
    · have refused := parseValue_of_error now unit unknown
      rw [hfield, hvalue, read] at refused
      have same : Status.OK = status := (Prod.mk.inj (Except.ok.inj refused)).1
      have bad := ok_of_unitValue unknown
      rw [← same] at bad
      cases bad
  obtain ⟨op', known, outcome⟩ := parseExpression_of_wellFormed now query wellFormed
  obtain rfl := Option.some.inj (hop.symm.trans known)
  obtain ⟨range, hrange⟩ := op.exists_range ranged bound (query.rangeOf (trimCopy field))
  refine ⟨range, hrange, ?_⟩
  rw [outcome, hfield, hvalue, read]
  simp only [Bind.bind, Except.bind, Status.ok_OK, hrange]
  rfl

/-- One item: it takes the parser down, is refused, or is accepted. -/
theorem parseItem_cases (now : Nat) (query : ComplexQuery) (item : Item) :
    (item.Fatal ∧ ∃ e, parseItem now query item = .error e) ∨
    (¬ item.Fatal ∧ item.Refused ∧
      ∃ status query', status.ok = false ∧ parseItem now query item = .ok (status, query')) ∨
    (¬ item.Fatal ∧ ¬ item.Refused ∧ ∃ query', parseItem now query item = .ok (.OK, query')) := by
  cases item with
  | emptySegment => exact .inr (.inl ⟨id, trivial, _, _, rfl, rfl⟩)
  | expression exp =>
    by_cases nonempty : exp = []
    · subst nonempty
      exact .inl ⟨.inl rfl, _, rfl⟩
    by_cases malformed : Malformed exp
    · obtain ⟨status, bad, outcome⟩ := parseExpression_of_malformed now query nonempty malformed
      exact .inr (.inl ⟨by simp [Item.Fatal, nonempty, malformed], ⟨nonempty, .inl malformed⟩,
        status, query, bad, outcome⟩)
    obtain ⟨op, known, outcome⟩ := parseExpression_of_wellFormed now query malformed
    rcases parseValue_of_wellFormed now malformed with ⟨bad, value⟩ | ⟨good, text, value⟩
    · refine .inl ⟨.inr ⟨malformed, bad⟩, .badLexicalCast, ?_⟩
      rw [parseItem, outcome, value]
      rfl
    have survives : ¬ (Item.expression exp).Fatal := by simp [Item.Fatal, nonempty, good]
    rw [value] at outcome
    -- Only `!=` has no range.
    by_cases neq : op = .NEQ
    · subst neq
      exact .inr (.inl ⟨survives, ⟨nonempty, .inr ⟨good, known⟩⟩, _, _, rfl, outcome⟩)
    · have accepted : ¬ (Item.expression exp).Refused := by
        rintro ⟨-, bad | ⟨-, bad⟩⟩
        · exact malformed bad
        · exact neq (Option.some.inj (known.symm.trans bad))
      refine .inr (.inr ⟨survives, accepted, ?_⟩)
      rw [parseItem, outcome]
      cases op with
      | NEQ => exact absurd rfl neq
      | EQ | GT | GE | LT | LE => exact ⟨_, rfl⟩

theorem parseItems_returns_iff (now : Nat) (query : ComplexQuery) (list : List Item) :
    (∃ result, parseItems now query list = .ok result) ↔
      ∀ done item rest, done ++ item :: rest = list → item.Fatal → ∃ d ∈ done, d.Refused := by
  induction list generalizing query with
  | nil =>
    refine iff_of_true ⟨_, rfl⟩ fun done item rest split => ?_
    simp at split
  | cons first list ih =>
    rcases parseItem_cases now query first with
      ⟨fatal, e, outcome⟩ | ⟨survives, refused, status, query', bad, outcome⟩ |
      ⟨survives, accepted, query', outcome⟩
    · refine iff_of_false ?_ fun h => ?_
      · rintro ⟨result, returns⟩
        rw [parseItems, outcome] at returns
        cases returns
      · obtain ⟨d, hd, -⟩ := h [] first list rfl fatal
        cases hd
    · refine iff_of_true ⟨(status, query'), ?_⟩ fun done item rest split fatal => ?_
      · rw [parseItems, outcome]
        simp [Bind.bind, Except.bind, bad, Pure.pure, Except.pure]
      · cases done with
        | nil =>
          obtain ⟨rfl, -⟩ := List.cons.inj split
          exact absurd fatal survives
        | cons d done =>
          obtain ⟨rfl, -⟩ := List.cons.inj split
          exact ⟨d, List.mem_cons_self, refused⟩
    · have next : parseItems now query (first :: list) = parseItems now query' list := by
        rw [parseItems, outcome]
        rfl
      rw [next, ih query']
      constructor
      · intro h done item rest split fatal
        cases done with
        | nil =>
          obtain ⟨rfl, -⟩ := List.cons.inj split
          exact absurd fatal survives
        | cons d done =>
          obtain ⟨rfl, total⟩ := List.cons.inj split
          obtain ⟨d', hd', refused⟩ := h done item rest total fatal
          exact ⟨d', List.mem_cons_of_mem d hd', refused⟩
      · intro h done item rest split fatal
        obtain ⟨d, hd, refused⟩ := h (first :: done) item rest (by simp [split]) fatal
        rcases List.mem_cons.mp hd with rfl | hd
        · exact absurd refused accepted
        · exact ⟨d, hd, refused⟩

/-- On an absolute path the parser returns a status, and neither aborts nor throws, exactly
when every item that would take it down comes behind one that it refuses. -/
theorem parse_returns_iff (now : Nat) {buf : Str} (absolute : buf.head? = some '/') :
    (∃ status query, parse now {} buf = .ok (status, query)) ↔
      ∀ done item rest, done ++ item :: rest = items buf → item.Fatal → ∃ d ∈ done, d.Refused := by
  cases found : find buf '?' 0 with
  | none =>
    refine iff_of_true ⟨_, _, parse_of_find_eq_none now {} absolute found⟩ ?_
    intro done item rest h
    simp [items, found] at h
  | some pos =>
    rw [parse_of_find_eq_some now {} absolute found, ← parseItems_returns_iff now]
    exact ⟨fun ⟨status, query, h⟩ => ⟨_, h⟩, fun ⟨result, h⟩ => ⟨_, _, h⟩⟩

theorem parse_one_returns : ∃ status query, parse 0 {} "/?x>1".toList = .ok (status, query) := by
  refine (parse_returns_iff 0 rfl).mpr fun done item rest split fatal => ?_
  have all : items "/?x>1".toList = [.expression "x>1".toList] := by decide +kernel
  rw [all] at split
  have inside : item ∈ [Item.expression "x>1".toList] := split ▸ (by simp)
  rw [List.mem_singleton.mp inside] at fatal
  rcases fatal with empty | ⟨-, unit, -⟩
  · cases empty
  · exact absurd (by decide) unit

/-- The text behind the last `&` is empty. -/
theorem parse_trailing_ampersand :
    "/?x>1&".toList.head? = some '/' ∧
      ¬ ∃ status query, parse 0 {} "/?x>1&".toList = .ok (status, query) := by
  have outcome : (parse 0 {} "/?x>1&".toList).toOption.isSome = false := by decide +kernel
  refine ⟨rfl, ?_⟩
  rintro ⟨status, query, returns⟩
  rw [returns] at outcome
  cases outcome

end Vsfs.ComplexQuery

import Vsfs.Common.QueryItems

/-!
# Amounts with units

A time may be given in days or weeks, and relative to the clock; a size in powers of 1024.
The parser computes with numbers of 64 bits, and leaves a text without a unit as it is.

## Main results

- `exact_iff`: exactly when the text that is read spells the amount.
-/

namespace Vsfs.ComplexQuery

/-! ## Amounts -/

/-- Without a sign, an amount is absolute; otherwise it lies behind or before now. -/
inductive Direction where
  | absolute
  | after
  | before
  deriving DecidableEq, Repr

def Direction.text : Direction → Str
  | .absolute => []
  | .after => ['+']
  | .before => ['-']

/-- The units of a field, with the numbers they stand for. -/
def unitsOf (field : Str) : List (Str × Nat) :=
  if isTime field then [("d".toList, 86400), ("w".toList, 7 * 86400)]
  else [("k".toList, 1024), ("m".toList, 1024 ^ 2), ("g".toList, 1024 ^ 3), ("t".toList, 1024 ^ 4)]

/-- A number of any length, with a sign if it is a time, and with a unit or without. -/
structure Amount where
  field : Str
  direction : Direction
  digits : Str
  number : Nat
  unit : Option (Str × Nat)
  field_known : field ∈ ["atime".toList, "ctime".toList, "mtime".toList, "size".toList]
  signed : direction ≠ .absolute → isTime field = true
  spells : digitsValue digits = some number
  unit_known : ∀ u ∈ unit, u ∈ unitsOf field

namespace Amount

def text (a : Amount) : Str :=
  a.direction.text ++ a.digits ++ (a.unit.map Prod.fst).getD []

def factor (a : Amount) : Nat := (a.unit.map Prod.snd).getD 1

/-- The number that is meant, of whatever size. -/
def exact (a : Amount) (clock : Int) : Int :=
  match a.direction with
  | .absolute => a.number * a.factor
  | .after => clock + a.number * a.factor
  | .before => clock - a.number * a.factor

end Amount

/-- `static_cast<uint64_t>` of the time of the clock. -/
def uint64 (clock : Int) : Nat := (clock % 2 ^ 64).toNat

/-! ## Reading an amount -/

theorem lexicalCastInt_digits {s : Str} {n : Nat} (h : digitsValue s = some n) :
    lexicalCastInt false 64 s = if n < 2 ^ 64 then some (n : Int) else none := by
  obtain ⟨c, rest, rfl⟩ := List.exists_cons_of_ne_nil (ne_nil_of_digitsValue h)
  have digit := isDigit_of_digitsValue h c List.mem_cons_self
  simp only [lexicalCastInt, sign_of_isDigit digit, h]

namespace Amount

variable (a : Amount)

theorem number_chars : ∀ c ∈ a.direction.text ++ a.digits, isNumberChar c = true := by
  intro c hc
  rcases List.mem_append.mp hc with hc | hc
  · cases direction : a.direction <;> rw [direction] at hc
    · cases hc
    · rw [List.mem_singleton.mp hc]
      decide
    · rw [List.mem_singleton.mp hc]
      decide
  · exact isNumberChar_of_isDigit (isDigit_of_digitsValue a.spells c hc)

theorem sign_head : (a.text.head? = some '+' ∨ a.text.head? = some '-') ↔
    a.direction ≠ .absolute := by
  obtain ⟨c, rest, head⟩ := List.exists_cons_of_ne_nil (ne_nil_of_digitsValue a.spells)
  have digit := isDigit_of_digitsValue a.spells c (by simp [head])
  unfold text
  cases direction : a.direction with
  | absolute =>
    refine iff_of_false ?_ (fun h => h rfl)
    simp only [Direction.text, head, List.nil_append, List.cons_append, List.head?_cons,
      Option.some.injEq]
    rintro (rfl | rfl) <;> simp at digit
  | after => simp [Direction.text]
  | before => simp [Direction.text]

section Unit

variable {a} {u : Str × Nat} (unit : a.unit = some u)
include unit

/-- A unit is one letter, and no part of a number. -/
theorem unit_shape : ∃ c, u.1 = [c] ∧ isNumberChar c = false := by
  have known := a.unit_known u unit
  unfold unitsOf at known
  split at known
  · simp only [List.mem_cons, List.not_mem_nil, or_false] at known
    rcases known with rfl | rfl <;> exact ⟨_, rfl, by decide⟩
  · simp only [List.mem_cons, List.not_mem_nil, or_false] at known
    rcases known with rfl | rfl | rfl | rfl <;> exact ⟨_, rfl, by decide⟩

theorem takeWhile_text : a.text.takeWhile isNumberChar = a.direction.text ++ a.digits := by
  obtain ⟨c, letter, other⟩ := unit_shape unit
  rw [text, unit, Option.map_some, Option.getD_some, letter,
    List.takeWhile_append_of_pos a.number_chars, List.takeWhile_cons_of_neg (by simp [other]),
    List.append_nil]

theorem dropWhile_text : a.text.dropWhile isNumberChar = u.1 := by
  obtain ⟨c, letter, other⟩ := unit_shape unit
  rw [text, unit, Option.map_some, Option.getD_some, letter,
    List.dropWhile_append_of_pos a.number_chars, List.dropWhile_cons_of_neg (by simp [other])]

theorem unitValue_eq : unitValue a.field u.1 = .ok u.2 := by
  have known := a.unit_known u unit
  unfold unitsOf at known
  unfold unitValue
  by_cases time : isTime a.field
  · rw [if_pos time] at known ⊢
    simp only [List.mem_cons, List.not_mem_nil, or_false] at known
    rcases known with rfl | rfl <;> rfl
  · have size : a.field = "size".toList := by
      have field := a.field_known
      simp only [List.mem_cons, List.not_mem_nil, or_false] at field
      rcases field with h | h | h | h
      · simp [h, isTime] at time
      · simp [h, isTime] at time
      · simp [h, isTime] at time
      · exact h
    rw [if_neg time] at known ⊢
    rw [if_pos size]
    simp only [List.mem_cons, List.not_mem_nil, or_false] at known
    rcases known with rfl | rfl | rfl | rfl <;> rfl

theorem numberText_eq : numberText a.field a.text = a.digits := by
  rw [numberText, takeWhile_text unit]
  have head := a.sign_head
  cases direction : a.direction with
  | absolute => simp [head, direction, Direction.text]
  | after => simp [head, direction, Direction.text, a.signed]
  | before => simp [head, direction, Direction.text, a.signed]

/-- The number is too large for the cast. -/
theorem parseValue_of_large (large : 2 ^ 64 ≤ a.number) (now : Nat) :
    parseValue now a.field a.text = .error .badLexicalCast := by
  obtain ⟨c, letter, -⟩ := unit_shape unit
  refine parseValue_of_none (n := u.2) now ?_ ?_ ?_
  · rw [dropWhile_text unit, letter]
    exact List.cons_ne_nil c []
  · rw [dropWhile_text unit]
    exact unitValue_eq unit
  · rw [numberText_eq unit, lexicalCastInt_digits a.spells, if_neg (Nat.not_lt.mpr large)]

/-- The amount is computed modulo `2 ^ 64`. -/
theorem parseValue_of_small (small : a.number < 2 ^ 64) (clock : Int) :
    parseValue (uint64 clock) a.field a.text =
      .ok (.OK, (toString (a.exact clock % 2 ^ 64).toNat).toList) := by
  obtain ⟨c, letter, -⟩ := unit_shape unit
  have cast : castUint64 a.digits = .ok a.number := by
    rw [castUint64, lexicalCastInt_digits a.spells, if_pos small]
    rfl
  have nonempty : u.1 ≠ [] := by simp [letter]
  have product : (a.number * a.factor : Int) = ((u.2 * a.number : Nat) : Int) := by
    simp only [factor, unit, Option.map_some, Option.getD_some, Nat.cast_mul, mul_comm]
  have number := numberText_eq unit
  have head := a.sign_head
  rw [numberText] at number
  simp only [parseValue, dropWhile_text unit, if_neg nonempty, unitValue_eq unit]
  cases direction : a.direction with
  | absolute =>
    have absolute :
        ¬ (isTime a.field = true ∧ (a.text.head? = some '+' ∨ a.text.head? = some '-')) :=
      fun h => head.mp h.2 direction
    rw [if_neg absolute] at number ⊢
    have value : u.2 * a.number % 2 ^ 64 = (a.exact clock % 2 ^ 64).toNat := by
      simp only [exact, direction, product]
      omega
    rw [number, cast, ← value]
    rfl
  | after =>
    have relative : isTime a.field = true ∧ (a.text.head? = some '+' ∨ a.text.head? = some '-') :=
      ⟨a.signed (by simp [direction]), head.mpr (by simp [direction])⟩
    have plus : a.text.head? = some '+' := by simp [text, direction, Direction.text]
    rw [if_pos relative] at number ⊢
    have value : (uint64 clock + 1 * (u.2 * a.number)) % 2 ^ 64 =
        (a.exact clock % 2 ^ 64).toNat := by
      simp only [exact, direction, product, uint64]
      omega
    rw [number, cast, if_pos plus, ← value]
    rfl
  | before =>
    have relative : isTime a.field = true ∧ (a.text.head? = some '+' ∨ a.text.head? = some '-') :=
      ⟨a.signed (by simp [direction]), head.mpr (by simp [direction])⟩
    have minus : a.text.head? ≠ some '+' := by simp [text, direction, Direction.text]
    rw [if_pos relative] at number ⊢
    -- The factor -1 is `2 ^ 64 - 1`.
    have value : (uint64 clock + (2 ^ 64 - 1) * (u.2 * a.number)) % 2 ^ 64 =
        (a.exact clock % 2 ^ 64).toNat := by
      simp only [exact, direction, product, uint64]
      omega
    rw [number, cast, if_neg minus, ← value]
    rfl

end Unit

/-- Without a unit the text is left as it is. -/
theorem parseValue_of_bare (bare : a.unit = none) (now : Nat) :
    parseValue now a.field a.text = .ok (.OK, a.text) := by
  refine parseValue_of_plain now (List.dropWhile_eq_nil_iff.mpr fun c hc => ?_)
  rw [text, bare, Option.map_none, Option.getD_none, List.append_nil] at hc
  exact a.number_chars c hc

theorem decimal_of_bare (bare : a.unit = none) :
    decimal a.text = some (if a.direction = .before then -(a.number : Int) else a.number) := by
  obtain ⟨c, rest, head⟩ := List.exists_cons_of_ne_nil (ne_nil_of_digitsValue a.spells)
  have digit := isDigit_of_digitsValue a.spells c (by simp [head])
  have spells := a.spells
  rw [head] at spells
  rw [text, bare, Option.map_none, Option.getD_none, List.append_nil, head, decimal]
  cases direction : a.direction with
  | absolute => simp [Direction.text, sign_of_isDigit digit, spells]
  | after => simp [Direction.text, sign, spells]
  | before => simp [Direction.text, sign, spells]

end Amount

theorem decimal_toString (n : Nat) : decimal (toString n).toList = some (n : Int) := by
  change decimal n.repr.toList = _
  rw [decimal, sign_repr, digitsValue_repr]
  rfl

/-- The value that is returned with `OK` spells the amount. -/
def ExactOrRejected (clock : Int) (a : Amount) : Prop :=
  ∃ status value, parseValue (uint64 clock) a.field a.text = .ok (status, value) ∧
    (status.ok = true → decimal value = some (a.exact clock))

theorem exactOrRejected_of_ok {clock : Int} {a : Amount} {value : Str}
    (outcome : parseValue (uint64 clock) a.field a.text = .ok (.OK, value)) :
    ExactOrRejected clock a ↔ decimal value = some (a.exact clock) := by
  constructor
  · rintro ⟨status, value', outcome', spells⟩
    rw [outcome] at outcome'
    cases outcome'
    exact spells rfl
  · exact fun spells => ⟨.OK, value, outcome, fun _ => spells⟩

/-- A value is exact or refused, exactly when it has a unit and no step of the computation
wraps around, or has neither a unit nor a sign (unless the clock stands at zero). Instead of
a refusal, a number that is too large is answered with an exception. -/
theorem exact_iff (clock : Int) (a : Amount) :
    (ExactOrRejected clock a ↔
      if a.unit = none then a.direction = .absolute ∨ clock = 0
      else a.number < 2 ^ 64 ∧ 0 ≤ a.exact clock ∧ a.exact clock < 2 ^ 64) ∧
    (parseValue (uint64 clock) a.field a.text = .error .badLexicalCast ↔
      a.unit ≠ none ∧ 2 ^ 64 ≤ a.number) := by
  cases unit : a.unit with
  | none =>
    have outcome := a.parseValue_of_bare unit (uint64 clock)
    have factor : a.factor = 1 := by simp [Amount.factor, unit]
    rw [if_pos rfl, exactOrRejected_of_ok outcome, a.decimal_of_bare unit, outcome,
      Option.some.injEq]
    refine ⟨?_, by simp⟩
    cases direction : a.direction <;> simp [Amount.exact, direction, factor]
    omega
  | some u =>
    rw [if_neg (Option.some_ne_none u)]
    rcases Nat.lt_or_ge a.number (2 ^ 64) with small | large
    · have outcome := Amount.parseValue_of_small unit small clock
      rw [exactOrRejected_of_ok outcome, decimal_toString, outcome, Option.some.injEq]
      refine ⟨?_, iff_of_false nofun fun h => absurd h.2 (Nat.not_le.mpr small)⟩
      omega
    · have outcome := Amount.parseValue_of_large unit large (uint64 clock)
      refine ⟨iff_of_false ?_ fun h => absurd h.1 (Nat.not_lt.mpr large),
        iff_of_true outcome ⟨Option.some_ne_none u, large⟩⟩
      rintro ⟨status, value, returns, -⟩
      rw [outcome] at returns
      cases returns

/-- The time `+5` is read as 5, whatever the time is. -/
def fiveFromNow : Amount where
  field := "mtime".toList
  direction := .after
  digits := "5".toList
  number := 5
  unit := none
  field_known := by decide
  signed _ := by decide
  spells := by decide
  unit_known := by simp

theorem not_exact_five_from_now :
    fiveFromNow.text = "+5".toList ∧ fiveFromNow.exact 1000 = 1005 ∧
      ¬ ExactOrRejected 1000 fiveFromNow := by
  refine ⟨by decide, by decide, fun exact => ?_⟩
  have outcome := fiveFromNow.parseValue_of_bare rfl (uint64 1000)
  rw [exactOrRejected_of_ok outcome] at exact
  revert exact
  decide

end Vsfs.ComplexQuery

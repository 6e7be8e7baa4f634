import Mathlib.Data.List.TakeWhile
import Vsfs.Common.Basic

/-!
# Texts of integers

`boost::lexical_cast` to an integer type as documented: one optional sign, then decimal
digits and nothing else. The magnitude has to fit the type; a minus sign in front of a text
for an unsigned type negates modulo the width. `std::stoi` also takes spaces in front and
stops at the first character that is not a digit.

Both invert `std::to_string` on the numbers of the type.
-/

namespace Vsfs

/-- The value of a non-empty text of decimal digits. -/
def digitsValue (s : Str) : Option Nat :=
  if s ≠ [] ∧ s.all Char.isDigit then some (s.foldl (fun n c => 10 * n + (c.toNat - 48)) 0)
  else none

/-- An optional sign, and what follows it. -/
def sign : Str → Bool × Str
  | '-' :: rest => (true, rest)
  | '+' :: rest => (false, rest)
  | s => (false, s)

theorem length_sign_le (s : Str) : (sign s).2.length ≤ s.length := by
  unfold sign
  split <;> simp

theorem ne_nil_of_digitsValue {s : Str} {n : Nat} (h : digitsValue s = some n) : s ≠ [] := by
  rintro rfl
  simp [digitsValue] at h

theorem isDigit_of_digitsValue {s : Str} {n : Nat} (h : digitsValue s = some n) :
    ∀ c ∈ s, c.isDigit = true := by
  unfold digitsValue at h
  split at h
  · rename_i good
    exact List.all_eq_true.mp good.2
  · cases h

/-- The characters of an optional sign and digits. -/
theorem char_of_digitsValue_sign {s : Str} {n : Nat} (h : digitsValue (sign s).2 = some n) :
    ∀ c ∈ s, c.isDigit = true ∨ c = '-' ∨ c = '+' := by
  have all := isDigit_of_digitsValue h
  unfold sign at all
  split at all <;> grind

/-- The integer that a text of an optional sign and digits spells, of any size. -/
def decimal (s : Str) : Option Int :=
  (digitsValue (sign s).2).map fun n => if (sign s).1 then -(n : Int) else n

/-- `lexical_cast` to the signed or unsigned integer type of `bits` bits. -/
def lexicalCastInt (signed : Bool) (bits : Nat) (s : Str) : Option Int :=
  match digitsValue (sign s).2 with
  | none => none
  | some n =>
    match signed, (sign s).1 with
    | true, true => if n ≤ 2 ^ (bits - 1) then some (-n) else none
    | true, false => if n < 2 ^ (bits - 1) then some n else none
    | false, true => if n < 2 ^ bits then some ((-n : Int) % 2 ^ bits) else none
    | false, false => if n < 2 ^ bits then some n else none

/-- `std::stoi`; the text of the exception where it throws. -/
def stoi (s : Str) : Except String Int :=
  let text := s.dropWhile (fun c => c ∈ [' ', '\t', '\n', '\x0b', '\x0c', '\r'])
  match digitsValue ((sign text).2.takeWhile Char.isDigit) with
  | none => .error "stoi"
  | some n =>
    let value : Int := if (sign text).1 then -n else n
    if -2 ^ 31 ≤ value ∧ value < 2 ^ 31 then .ok value else .error "stoi"

/-! ## Numbers written by `std::to_string` -/

theorem isDigit_of_mem_repr {n : Nat} {c : Char} (h : c ∈ n.repr.toList) : c.isDigit = true := by
  rw [Nat.toList_repr] at h
  exact Nat.isDigit_of_mem_toDigits (by decide) (by decide) h

theorem digitsValue_repr (n : Nat) : digitsValue n.repr.toList = some n := by
  have all : n.repr.toList.all Char.isDigit = true :=
    List.all_eq_true.mpr fun c hc => isDigit_of_mem_repr hc
  have nonempty : n.repr.toList ≠ [] := by
    rw [Nat.toList_repr]
    exact Nat.toDigits_ne_nil
  rw [digitsValue, if_pos ⟨nonempty, all⟩, Nat.toList_repr]
  exact congrArg some Nat.ofDigitChars_ten_toDigits

theorem takeWhile_repr (n : Nat) : n.repr.toList.takeWhile Char.isDigit = n.repr.toList :=
  List.takeWhile_eq_self_iff.mpr fun _ hc => isDigit_of_mem_repr hc

/-- The text of a natural number starts with a digit. -/
theorem repr_cases (n : Nat) : ∃ c rest, n.repr.toList = c :: rest ∧ c.isDigit = true := by
  cases h : n.repr.toList with
  | nil =>
    rw [Nat.toList_repr] at h
    exact absurd h Nat.toDigits_ne_nil
  | cons c rest => exact ⟨c, rest, rfl, isDigit_of_mem_repr (h ▸ List.mem_cons_self)⟩

theorem sign_of_isDigit {c : Char} (digit : c.isDigit = true) (rest : Str) :
    sign (c :: rest) = (false, c :: rest) := by
  unfold sign
  split
  · rename_i h
    cases h
    simp at digit
  · rename_i h
    cases h
    simp at digit
  · rfl

theorem sign_repr (n : Nat) : sign n.repr.toList = (false, n.repr.toList) := by
  obtain ⟨c, rest, text, digit⟩ := repr_cases n
  rw [text]
  exact sign_of_isDigit digit rest

/-- Neither a digit nor a sign is skipped as a space. -/
theorem dropWhile_space {c : Char} (h : c.isDigit = true ∨ c = '-') (rest : Str) :
    (c :: rest).dropWhile (fun c => decide (c ∈ [' ', '\t', '\n', '\x0b', '\x0c', '\r'])) =
      c :: rest := by
  refine List.dropWhile_cons_of_neg ?_
  simp only [List.mem_cons, List.not_mem_nil, or_false, decide_eq_true_eq]
  rintro (rfl | rfl | rfl | rfl | rfl | rfl) <;> simp at h

/-- `to_string` of an integer: its magnitude, after a minus sign if it is negative. -/
theorem toList_toString (i : Int) :
    (toString i).toList = if i < 0 then '-' :: i.natAbs.repr.toList else i.natAbs.repr.toList := by
  cases i with
  | ofNat n => rfl
  | negSucc n =>
    change ("-" ++ (n + 1).repr).toList = _
    rw [String.toList_append, if_pos (Int.negSucc_lt_zero n)]
    rfl

theorem sign_toString (i : Int) :
    sign (toString i).toList = (decide (i < 0), i.natAbs.repr.toList) := by
  rw [toList_toString]
  by_cases negative : i < 0
  · simp [negative, sign]
  · simp only [negative, if_false, sign_repr, decide_false]

theorem stoi_toString {i : Int} (low : -2 ^ 31 ≤ i) (high : i < 2 ^ 31) :
    stoi (toString i).toList = .ok i := by
  have text : (toString i).toList.dropWhile
      (fun c => decide (c ∈ [' ', '\t', '\n', '\x0b', '\x0c', '\r'])) = (toString i).toList := by
    rw [toList_toString]
    obtain ⟨c, rest, digits, digit⟩ := repr_cases i.natAbs
    by_cases negative : i < 0
    · rw [if_pos negative]
      exact dropWhile_space (.inr rfl) _
    · rw [if_neg negative, digits]
      exact dropWhile_space (.inl digit) _
  have value : (if i < 0 then -(i.natAbs : Int) else i.natAbs) = i := by
    split <;> omega
  simp only [stoi, text, sign_toString, takeWhile_repr, digitsValue_repr, decide_eq_true_eq, value,
    low, high, and_self, if_true]

end Vsfs

import Mathlib.Order.Lattice
import Mathlib.Tactic.IntervalCases
import Vsfs.Index.RangeIndex

/-!
# Integer keys

The values of the fixed-width integer types a range index is instantiated at, with
`std::numeric_limits` and `boost::lexical_cast` of the type.
-/

namespace Vsfs.Index

/-- `std::numeric_limits<Key>::min()`. -/
def intMin (signed : Bool) (bits : Nat) : Int := if signed then -2 ^ (bits - 1) else 0

/-- `std::numeric_limits<Key>::max()`. -/
def intMax (signed : Bool) (bits : Nat) : Int :=
  if signed then 2 ^ (bits - 1) - 1 else 2 ^ bits - 1

/-- The values of the integer type. -/
abbrev IntKey (signed : Bool) (bits : Nat) : Type :=
  {i : Int // intMin signed bits ≤ i ∧ i ≤ intMax signed bits}

variable {signed : Bool} {bits : Nat}

/-- A text casts to a value of the type. -/
theorem lexicalCastInt_bounds {s : Str} {i : Int} (h : lexicalCastInt signed bits s = some i) :
    intMin signed bits ≤ i ∧ i ≤ intMax signed bits := by
  unfold lexicalCastInt at h
  unfold intMin intMax
  have half : (0 : Int) < 2 ^ (bits - 1) := by positivity
  have full : (0 : Int) < 2 ^ bits := by positivity
  have halfCast : ((2 ^ (bits - 1) : Nat) : Int) = 2 ^ (bits - 1) := by simp
  have fullCast : ((2 ^ bits : Nat) : Int) = 2 ^ bits := by simp
  split at h
  · cases h
  · rename_i n value
    cases signed with
    | true =>
      cases hs : (sign s).1 <;> simp only [hs] at h <;> split at h <;> cases h <;> simp <;> omega
    | false =>
      cases hs : (sign s).1 <;> simp only [hs] at h <;> split at h <;> cases h
      · simp
        omega
      · have low := Int.emod_nonneg (-(n : Int)) full.ne'
        have high := Int.emod_lt_of_pos (-(n : Int)) full
        simp
        omega

namespace IntKey

/-- `lexical_cast<Key>`. -/
def cast (s : Str) : Option (IntKey signed bits) :=
  match h : lexicalCastInt signed bits s with
  | none => none
  | some i => some ⟨i, lexicalCastInt_bounds h⟩

theorem cast_eq_some_iff {s : Str} {v : IntKey signed bits} :
    cast s = some v ↔ lexicalCastInt signed bits s = some v.1 := by
  unfold cast
  split
  · rename_i none
    simp [none]
  · rename_i i some
    simp [some, Subtype.ext_iff]

end IntKey

theorem intMin_le_intMax : intMin signed bits ≤ intMax signed bits := by
  have half : (0 : Int) < 2 ^ (bits - 1) := by positivity
  have full : (0 : Int) < 2 ^ bits := by positivity
  unfold intMin intMax
  split <;> omega

/-- The universe with one integer type only. -/
@[reducible] def intKeys (signed : Bool) (bits : Nat) : KeyTypes (IntKey signed bits) where
  known _ := true
  lexicalCast _ := IntKey.cast
  min _ := ⟨intMin signed bits, le_rfl, intMin_le_intMax⟩
  max _ := ⟨intMax signed bits, intMin_le_intMax, le_rfl⟩
  castObjectId s := (lexicalCastInt true 64 s).map (BitVec.ofInt 64)

/-! ## Texts of keys -/

/-- A text that casts is a sign and digits. -/
theorem chars_of_lexicalCastInt {s : Str} {i : Int} (h : lexicalCastInt signed bits s = some i) :
    s ≠ [] ∧ ∀ c ∈ s, c.isDigit = true ∨ c = '-' ∨ c = '+' := by
  have digits : ∃ n, digitsValue (sign s).2 = some n := by
    unfold lexicalCastInt at h
    split at h
    · cases h
    · rename_i n value
      exact ⟨n, value⟩
  obtain ⟨n, value⟩ := digits
  have nonempty : s ≠ [] := by
    rintro rfl
    exact ne_nil_of_digitsValue value rfl
  exact ⟨nonempty, char_of_digitsValue_sign value⟩

end Vsfs.Index

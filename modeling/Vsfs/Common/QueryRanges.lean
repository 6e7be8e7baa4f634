import Vsfs.Common.QuerySpelling
import Vsfs.Lib.FiniteMap

/-!
# The ranges of a query

An accepted expression sets a side of the range of its field, or both, whatever was there
before. So a side is what the last expression that sets it says.
-/

namespace Vsfs.ComplexQuery

open Std FiniteMap

/-! ## Sides -/

def CondOp.setsLower : CondOp → Bool
  | .EQ | .GT | .GE => true
  | .NEQ | .LT | .LE => false

def CondOp.setsUpper : CondOp → Bool
  | .EQ | .LT | .LE => true
  | .NEQ | .GT | .GE => false

/-- The sides that the operator sets are closed. -/
def CondOp.closes : CondOp → Bool
  | .EQ | .GE | .LE => true
  | .NEQ | .GT | .LT => false

/-- The range that `operator[]` makes. -/
def noBounds : StringRange := { lowerClosed := false, upperClosed := false }

/-- What an expression sets: the range of a field, to the value that was read. -/
structure Setting where
  field : Str
  op : CondOp
  bound : Str
  deriving DecidableEq, Repr

def Setting.addTo (s : Setting) (ranges : ExtTreeMap Str StringRange) :
    ExtTreeMap Str StringRange :=
  let range := ranges[s.field]?.getD noBounds
  ranges.insert s.field ((s.op.range s.bound range).getD range)

def addAll (settings : List Setting) (ranges : ExtTreeMap Str StringRange) :
    ExtTreeMap Str StringRange :=
  settings.foldl (fun ranges s => s.addTo ranges) ranges

/-- The last setting of a side of a field. -/
def lastSetting (sets : CondOp → Bool) (settings : List Setting) (field : Str) : Option Setting :=
  (settings.filter fun s => s.field = field && sets s.op).getLast?

/-- A range after settings of its field: each side as the last one that sets it says. -/
def rangeAfter (old : StringRange) (settings : List Setting) (field : Str) : StringRange :=
  let lower := lastSetting CondOp.setsLower settings field
  let upper := lastSetting CondOp.setsUpper settings field
  { lower := (lower.map (·.bound)).getD old.lower
    lowerClosed := (lower.map (·.op.closes)).getD old.lowerClosed
    upper := (upper.map (·.bound)).getD old.upper
    upperClosed := (upper.map (·.op.closes)).getD old.upperClosed }

/-- The bound of a condition, as the parser reads it. -/
def Condition.setting {now : Nat} (c : Condition now) : Setting := ⟨trimCopy c.field, c.op, c.bound⟩

theorem ranges_eq_addAll {now : Nat} (conditions : List (Condition now)) :
    ranges conditions = addAll (conditions.map Condition.setting) ∅ := by
  rw [ranges, addAll, List.foldl_map]
  rfl

theorem lastSetting_append (sets : CondOp → Bool) (settings : List Setting) (s : Setting)
    (field : Str) : lastSetting sets (settings ++ [s]) field =
      if s.field = field ∧ sets s.op = true then some s else lastSetting sets settings field := by
  unfold lastSetting
  rw [List.filter_append]
  by_cases mine : s.field = field ∧ sets s.op = true
  · simp [mine]
  · simp [mine]

theorem rangeAfter_append (old : StringRange) (settings : List Setting) (s : Setting)
    (field : Str) : rangeAfter old (settings ++ [s]) field =
      if s.field = field then
        (s.op.range s.bound (rangeAfter old settings field)).getD (rangeAfter old settings field)
      else rangeAfter old settings field := by
  unfold rangeAfter
  simp only [lastSetting_append]
  by_cases mine : s.field = field
  · cases op : s.op <;> simp [mine, op, CondOp.setsLower, CondOp.setsUpper, CondOp.range,
      CondOp.closes]
  · simp [mine]

theorem mem_addAll (settings : List Setting) (ranges : ExtTreeMap Str StringRange) (field : Str) :
    field ∈ addAll settings ranges ↔ field ∈ ranges ∨ ∃ s ∈ settings, s.field = field := by
  unfold addAll
  induction settings generalizing ranges with
  | nil => simp
  | cons s settings ih =>
    rw [List.foldl_cons, ih, Setting.addTo, ExtTreeMap.mem_insert, Std.compare_eq_iff_eq]
    simp only [List.mem_cons, exists_eq_or_imp]
    tauto

theorem getD_addAll (settings : List Setting) (ranges : ExtTreeMap Str StringRange)
    (field : Str) : (addAll settings ranges)[field]?.getD noBounds =
      rangeAfter (ranges[field]?.getD noBounds) settings field := by
  unfold addAll
  induction settings using List.reverseRecOn with
  | nil => rfl
  | append_singleton settings s ih =>
    rw [List.foldl_append, List.foldl_cons, List.foldl_nil, rangeAfter_append, ← ih]
    unfold Setting.addTo
    rw [getElem?_insert]
    by_cases mine : s.field = field
    · rw [if_pos mine, if_pos mine, mine]
      rfl
    · rw [if_neg mine, if_neg mine]

/-- The range of a field after settings that are for it. -/
theorem getElem?_addAll_of_named {settings : List Setting} {field : Str}
    (named : ∃ s ∈ settings, s.field = field) (ranges : ExtTreeMap Str StringRange) :
    (addAll settings ranges)[field]? =
      some (rangeAfter (ranges[field]?.getD noBounds) settings field) := by
  obtain ⟨range, found⟩ :=
    (mem_iff_exists _ _).mp ((mem_addAll settings ranges field).mpr (.inr named))
  have all := getD_addAll settings ranges field
  rw [found] at all ⊢
  exact congrArg some all

theorem rangeAfter_of_not_named {settings : List Setting} {field : Str}
    (other : ∀ s ∈ settings, s.field ≠ field) (old : StringRange) :
    rangeAfter old settings field = old := by
  have none (sets : CondOp → Bool) : lastSetting sets settings field = none := by
    refine List.getLast?_eq_none_iff.mpr (List.filter_eq_nil_iff.mpr fun s hs => ?_)
    simp [other s hs]
  simp [rangeAfter, none]

/-- The range of another field. -/
theorem getElem?_addAll_of_not_named {settings : List Setting} {field : Str}
    (other : ∀ s ∈ settings, s.field ≠ field) (ranges : ExtTreeMap Str StringRange) :
    (addAll settings ranges)[field]? = ranges[field]? := by
  have unnamed : ¬ ∃ s ∈ settings, s.field = field := fun ⟨s, hs, same⟩ => other s hs same
  have known := mem_addAll settings ranges field
  simp only [unnamed, or_false] at known
  cases found : ranges[field]? with
  | none => exact (not_mem_iff _ _).mp (mt known.mp ((not_mem_iff _ _).mpr found))
  | some old =>
    obtain ⟨range, present⟩ := (mem_iff_exists _ _).mp
      (known.mpr ((mem_iff_exists _ _).mpr ⟨old, found⟩))
    have all := getD_addAll settings ranges field
    rw [present, found, rangeAfter_of_not_named other] at all
    rw [present]
    exact congrArg some all

end Vsfs.ComplexQuery

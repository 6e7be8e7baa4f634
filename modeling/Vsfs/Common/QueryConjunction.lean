import Mathlib.Order.Bounds.Basic
import Vsfs.Common.QueryRanges

/-!
# Conditions on one field

Conditions that are joined by `&` ask for the keys that satisfy all of them. The parser keeps
one range for a field, and each condition overwrites the sides it sets: the range is what
the last conditions say.

## Main results

- `conjoined_iff`: exactly when the ranges that are read hold the keys that satisfy every
  condition.
-/

namespace Vsfs.ComplexQuery

open Std FiniteMap

/-! ## Bounds -/

section Bounds

variable {α : Type} [LinearOrder α] {L U l u : Set α}

/-- Some of the lower and of the upper bounds, one of each kind at most, bound the same points
as all of them: there are no such points, or the chosen ones are the tightest. -/
theorem bounds_eq_iff (lower_subset : l ⊆ L) (lower_one : l.Subsingleton)
    (lower_some : L.Nonempty → l.Nonempty) (upper_subset : u ⊆ U) (upper_one : u.Subsingleton)
    (upper_some : U.Nonempty → u.Nonempty) :
    upperBounds l ∩ lowerBounds u = upperBounds L ∩ lowerBounds U ↔
      (∃ x ∈ l, ∃ y ∈ u, y < x) ∨
        (∀ x ∈ l, ∀ x' ∈ L, x' ≤ x) ∧ ∀ y ∈ u, ∀ y' ∈ U, y ≤ y' := by
  constructor
  · intro same
    by_cases crossed : ∃ x ∈ l, ∃ y ∈ u, y < x
    · exact .inl crossed
    push Not at crossed
    refine .inr ⟨fun x hx x' hx' => ?_, fun y hy y' hy' => ?_⟩
    · have inside : x ∈ upperBounds l ∩ lowerBounds u :=
        ⟨fun z hz => (lower_one hz hx).le, fun y hy => crossed x hx y hy⟩
      rw [same] at inside
      exact inside.1 hx'
    · have inside : y ∈ upperBounds l ∩ lowerBounds u :=
        ⟨fun x hx => crossed x hx y hy, fun z hz => (upper_one hy hz).le⟩
      rw [same] at inside
      exact inside.2 hy'
  · rintro (⟨x, hx, y, hy, crossed⟩ | ⟨tightest, tightest'⟩)
    · have empty (k : α) {A B : Set α} (hA : x ∈ A) (hB : y ∈ B) :
          k ∉ upperBounds A ∩ lowerBounds B :=
        fun inside => ((inside.2 hB).trans_lt crossed).not_ge (inside.1 hA)
      ext k
      exact iff_of_false (empty k hx hy) (empty k (lower_subset hx) (upper_subset hy))
    · refine Set.Subset.antisymm (fun k inside => ⟨fun x' hx' => ?_, fun y' hy' => ?_⟩)
        (Set.inter_subset_inter (upperBounds_mono_set lower_subset)
          (lowerBounds_mono_set upper_subset))
      · obtain ⟨x, hx⟩ := lower_some ⟨x', hx'⟩
        exact (tightest x hx x' hx').trans (inside.1 hx)
      · obtain ⟨y, hy⟩ := upper_some ⟨y', hy'⟩
        exact (inside.2 hy).trans (tightest' y hy y' hy')

end Bounds

/-! ## Integer keys -/

/-- The key satisfies the comparison with a number. -/
def CondOp.Holds (op : CondOp) (k n : Int) : Prop :=
  match op with
  | .EQ => k = n
  | .NEQ => k ≠ n
  | .GT => k > n
  | .GE => k ≥ n
  | .LT => k < n
  | .LE => k ≤ n

/-- A side whose text spells no number, as the empty one, is unbounded. -/
def Inside (range : StringRange) (k : Int) : Prop :=
  (∀ n, decimal range.lower = some n → if range.lowerClosed then n ≤ k else n < k) ∧
    ∀ n, decimal range.upper = some n → if range.upperClosed then k ≤ n else k < n

/-- A condition whose value spells an integer. -/
structure IntCondition (now : Nat) extends Condition now where
  number : Int
  spells : decimal (trimCopy value) = some number

namespace IntCondition

variable {now : Nat}

def name (c : IntCondition now) : Str := trimCopy c.field

/-- The least key above the number, where the condition sets the lower side. -/
def least (c : IntCondition now) : Int := if c.op.closes then c.number else c.number + 1

/-- The greatest key below the number, where the condition sets the upper side. -/
def greatest (c : IntCondition now) : Int := if c.op.closes then c.number else c.number - 1

theorem least_le_iff (c : IntCondition now) (k : Int) :
    c.least ≤ k ↔ if c.op.closes then c.number ≤ k else c.number < k := by
  unfold least
  split <;> omega

theorem le_greatest_iff (c : IntCondition now) (k : Int) :
    k ≤ c.greatest ↔ if c.op.closes then k ≤ c.number else k < c.number := by
  unfold greatest
  split <;> omega

theorem holds_iff (c : IntCondition now) (k : Int) : c.op.Holds k c.number ↔
    (c.op.setsLower = true → c.least ≤ k) ∧ (c.op.setsUpper = true → k ≤ c.greatest) := by
  have ranged := c.ranged
  rw [least_le_iff, le_greatest_iff]
  unfold CondOp.Holds
  cases op : c.op <;> simp [CondOp.setsLower, CondOp.setsUpper, CondOp.closes] <;> grind

end IntCondition

theorem isNumberChar_of_decimal {s : Str} {n : Int} (h : decimal s = some n) :
    ∀ c ∈ s, isNumberChar c = true := by
  intro c hc
  cases digits : digitsValue (sign s).2 with
  | none => simp [decimal, digits] at h
  | some m =>
    rcases char_of_digitsValue_sign digits c hc with digit | rfl | rfl
    · exact isNumberChar_of_isDigit digit
    · decide
    · decide

/-- The parser keeps the text of an integer. -/
theorem IntCondition.spells_bound {now : Nat} (c : IntCondition now) :
    decimal c.bound = some c.number := by
  have plain := List.dropWhile_eq_nil_iff.mpr (isNumberChar_of_decimal c.spells)
  have read := c.read
  rw [parseValue_of_plain now plain] at read
  obtain ⟨-, same⟩ := Prod.mk.inj (Except.ok.inj read)
  rw [← same, c.spells]

/-! ## The bounds that are kept -/

section Kept

variable {now : Nat} (conditions : List (IntCondition now)) (field : Str)

/-- The last condition on the field that sets the side. -/
def lastOn (sets : CondOp → Bool) : Option (IntCondition now) :=
  (conditions.filter fun c => c.name = field && sets c.op).getLast?

/-- No condition that was overwritten matters: the last lower and the last upper bound leave no
key between them, or both are the tightest ones. -/
def LastTightest : Prop :=
  (∃ l ∈ lastOn conditions field CondOp.setsLower, ∃ u ∈ lastOn conditions field CondOp.setsUpper,
    u.greatest < l.least) ∨
  (∀ l ∈ lastOn conditions field CondOp.setsLower, ∀ c ∈ conditions,
    c.name = field → c.op.setsLower = true → c.least ≤ l.least) ∧
  ∀ u ∈ lastOn conditions field CondOp.setsUpper, ∀ c ∈ conditions,
    c.name = field → c.op.setsUpper = true → u.greatest ≤ c.greatest

def leasts : Set Int :=
  { n | ∃ c ∈ conditions, c.name = field ∧ c.op.setsLower = true ∧ c.least = n }

def greatests : Set Int :=
  { n | ∃ c ∈ conditions, c.name = field ∧ c.op.setsUpper = true ∧ c.greatest = n }

/-- The keys that satisfy every condition on the field. -/
theorem all_hold_iff (k : Int) : (∀ c ∈ conditions, c.name = field → c.op.Holds k c.number) ↔
    k ∈ upperBounds (leasts conditions field) ∩ lowerBounds (greatests conditions field) := by
  simp only [IntCondition.holds_iff]
  constructor
  · intro all
    constructor
    · rintro n ⟨c, hc, mine, side, rfl⟩
      exact (all c hc mine).1 side
    · rintro n ⟨c, hc, mine, side, rfl⟩
      exact (all c hc mine).2 side
  · rintro ⟨above, below⟩ c hc mine
    exact ⟨fun side => above ⟨c, hc, mine, side, rfl⟩, fun side => below ⟨c, hc, mine, side, rfl⟩⟩

variable {conditions field}

theorem mem_of_lastOn {sets : CondOp → Bool} {c : IntCondition now}
    (last : lastOn conditions field sets = some c) :
    c ∈ conditions ∧ c.name = field ∧ sets c.op = true := by
  have inside := List.mem_of_getLast? last
  simpa using inside

theorem lastOn_some {sets : CondOp → Bool} {c : IntCondition now} (hc : c ∈ conditions)
    (mine : c.name = field) (side : sets c.op = true) :
    ∃ l, lastOn conditions field sets = some l := by
  refine Option.ne_none_iff_exists'.mp fun none => ?_
  have empty := List.getLast?_eq_none_iff.mp none
  have inside : c ∈ conditions.filter fun c => c.name = field && sets c.op :=
    List.mem_filter.mpr ⟨hc, by simp [mine, side]⟩
  rw [empty] at inside
  cases inside

theorem lastSetting_conditions (sets : CondOp → Bool) :
    lastSetting sets (conditions.map fun c => c.setting) field =
      (lastOn conditions field sets).map fun c => c.setting := by
  rw [lastSetting, List.filter_map, List.getLast?_map]
  rfl

/-- The keys inside the range that is read. -/
theorem inside_iff (k : Int) :
    Inside (rangeAfter noBounds (conditions.map fun c => c.setting) field) k ↔
      k ∈ upperBounds { n | ∃ l ∈ lastOn conditions field CondOp.setsLower, l.least = n } ∩
        lowerBounds { n | ∃ u ∈ lastOn conditions field CondOp.setsUpper, u.greatest = n } := by
  refine and_congr ?_ ?_
  · simp only [rangeAfter, lastSetting_conditions]
    cases last : lastOn conditions field CondOp.setsLower with
    | none => simp [upperBounds, noBounds, decimal, sign, digitsValue]
    | some l =>
      have bound := l.spells_bound
      cases closes : l.op.closes <;>
        simp [upperBounds, Condition.setting, bound, closes, l.least_le_iff]
  · simp only [rangeAfter, lastSetting_conditions]
    cases last : lastOn conditions field CondOp.setsUpper with
    | none => simp [lowerBounds, noBounds, decimal, sign, digitsValue]
    | some u =>
      have bound := u.spells_bound
      cases closes : u.op.closes <;>
        simp [lowerBounds, Condition.setting, bound, closes, u.le_greatest_iff]

/-- The range of a field holds the keys that satisfy its conditions exactly when the last
bounds are the tightest, or leave no key. -/
theorem inside_iff_all_hold :
    (∀ k, Inside (rangeAfter noBounds (conditions.map fun c => c.setting) field) k ↔
      ∀ c ∈ conditions, c.name = field → c.op.Holds k c.number) ↔
    LastTightest conditions field := by
  simp only [inside_iff, all_hold_iff, ← Set.ext_iff]
  rw [bounds_eq_iff]
  · refine or_congr (by simp) (and_congr ?_ ?_)
    · constructor
      · intro h l last c hc mine side
        exact h _ ⟨l, last, rfl⟩ _ ⟨c, hc, mine, side, rfl⟩
      · rintro h _ ⟨l, last, rfl⟩ _ ⟨c, hc, mine, side, rfl⟩
        exact h l last c hc mine side
    · constructor
      · intro h u last c hc mine side
        exact h _ ⟨u, last, rfl⟩ _ ⟨c, hc, mine, side, rfl⟩
      · rintro h _ ⟨u, last, rfl⟩ _ ⟨c, hc, mine, side, rfl⟩
        exact h u last c hc mine side
  · rintro n ⟨l, last, rfl⟩
    obtain ⟨hl, mine, side⟩ := mem_of_lastOn last
    exact ⟨l, hl, mine, side, rfl⟩
  · rintro m ⟨l, last, rfl⟩ n ⟨l', last', rfl⟩
    rw [Option.mem_unique last last']
  · rintro ⟨n, c, hc, mine, side, rfl⟩
    obtain ⟨l, last⟩ := lastOn_some hc mine side
    exact ⟨l.least, l, last, rfl⟩
  · rintro n ⟨u, last, rfl⟩
    obtain ⟨hu, mine, side⟩ := mem_of_lastOn last
    exact ⟨u, hu, mine, side, rfl⟩
  · rintro m ⟨u, last, rfl⟩ n ⟨u', last', rfl⟩
    rw [Option.mem_unique last last']
  · rintro ⟨n, c, hc, mine, side, rfl⟩
    obtain ⟨u, last⟩ := lastOn_some hc mine side
    exact ⟨u.greatest, u, last, rfl⟩

end Kept

/-! ## Queries -/

section Conjoined

variable (now : Nat) (R : Str)

/-- The conditions behind a directory. -/
def conjunctionText {now : Nat} (R : Str) (conditions : List (IntCondition now)) : Str :=
  '/' :: R ++ ['/'] ++ '?' :: conditionList (conditions.map (·.toCondition))

/-- The key lies in the range that the parser reads for the field. -/
def InRange (text field : Str) (k : Int) : Prop :=
  ∃ query range, parse now {} text = .ok (.OK, query) ∧ query.rangeQuery field = some range ∧
    Inside range k

variable (conditions : List (IntCondition now))

/-- If the text is accepted, the range of each field holds the keys that satisfy all conditions
on the field. -/
def Conjoined : Prop :=
  ∀ query, parse now {} (conjunctionText R conditions) = .ok (.OK, query) →
    ∀ c₀ ∈ conditions, ∀ k, InRange now (conjunctionText R conditions) c₀.name k ↔
      ∀ c ∈ conditions, c.name = c₀.name → c.op.Holds k c.number

variable {now R conditions}

theorem parse_conjunctionText (plain : '?' ∉ R) (some_condition : conditions ≠ []) :
    ∃ query, parse now {} (conjunctionText R conditions) = .ok (.OK, query) ∧
      query.rangeQueryMap = addAll (conditions.map fun c => c.setting) ∅ := by
  have plain' : '?' ∉ '/' :: R ++ ['/'] := by simp [plain]
  have some_condition' : conditions.map (·.toCondition) ≠ [] := by simpa using some_condition
  obtain ⟨query, returns, -, hranges⟩ := readsAs_of_root rfl plain' some_condition' rfl
  refine ⟨query, returns, ?_⟩
  rw [hranges, ranges_eq_addAll, List.map_map]
  rfl

/-- The range of a field that is named, as the settings of its conditions leave it. -/
theorem inRange_iff (plain : '?' ∉ R) {field : Str} (named : ∃ c ∈ conditions, c.name = field)
    (k : Int) : InRange now (conjunctionText R conditions) field k ↔
      Inside (rangeAfter noBounds (conditions.map fun c => c.setting) field) k := by
  obtain ⟨c, hc, mine⟩ := named
  obtain ⟨query, returns, hranges⟩ :=
    parse_conjunctionText plain (List.ne_nil_of_mem hc)
  have named' : ∃ s ∈ conditions.map fun c => c.setting, s.field = field :=
    ⟨c.setting, List.mem_map_of_mem hc, mine⟩
  have range := getElem?_addAll_of_named named' ∅
  rw [← hranges, ExtTreeMap.getElem?_empty] at range
  constructor
  · rintro ⟨query', range', returns', found, inside⟩
    rw [returns] at returns'
    cases returns'
    obtain rfl := Option.some.inj (range.symm.trans found)
    exact inside
  · exact fun inside => ⟨query, _, returns, range, inside⟩

theorem not_inRange (plain : '?' ∉ R) {field : Str} (other : ∀ c ∈ conditions, c.name ≠ field)
    (some_condition : conditions ≠ []) (k : Int) :
    ¬ InRange now (conjunctionText R conditions) field k := by
  obtain ⟨query, returns, hranges⟩ := parse_conjunctionText plain some_condition
  have other' : ∀ s ∈ conditions.map fun c => c.setting, s.field ≠ field := by
    intro s hs
    obtain ⟨c, hc, rfl⟩ := List.mem_map.mp hs
    exact other c hc
  have range := getElem?_addAll_of_not_named other' ∅
  rw [← hranges, ExtTreeMap.getElem?_empty] at range
  rintro ⟨query', range', returns', found, -⟩
  rw [returns] at returns'
  cases returns'
  cases range.symm.trans found

theorem conjoined_iff_lastTightest (plain : '?' ∉ R) (conditions : List (IntCondition now)) :
    Conjoined now R conditions ↔ ∀ c ∈ conditions, LastTightest conditions c.name := by
  unfold Conjoined
  constructor
  · intro conjoined c hc
    obtain ⟨query, returns, -⟩ := parse_conjunctionText plain (List.ne_nil_of_mem hc)
    refine inside_iff_all_hold.mp fun k => ?_
    rw [← inRange_iff plain ⟨c, hc, rfl⟩]
    exact conjoined query returns c hc k
  · intro tightest query _ c hc k
    rw [inRange_iff plain ⟨c, hc, rfl⟩]
    exact inside_iff_all_hold.mpr (tightest c hc) k

/-- The ranges hold the keys that satisfy every condition exactly when for each field the last
bounds are the tightest, or leave no key. Another order of such conditions then gives
ranges with the same keys exactly when the same is true of it. -/
theorem conjoined_iff (plain : '?' ∉ R) :
    (Conjoined now R conditions ↔ ∀ c ∈ conditions, LastTightest conditions c.name) ∧
    ∀ conditions' : List (IntCondition now), conditions.Perm conditions' →
      Conjoined now R conditions →
      ((∀ field k, InRange now (conjunctionText R conditions') field k ↔
          InRange now (conjunctionText R conditions) field k) ↔
        ∀ c ∈ conditions', LastTightest conditions' c.name) := by
  refine ⟨conjoined_iff_lastTightest plain conditions, fun conditions' perm conjoined => ?_⟩
  rw [← conjoined_iff_lastTightest plain conditions']
  by_cases empty : conditions = []
  · subst empty
    obtain rfl := perm.nil_eq
    exact iff_of_true (fun _ _ => Iff.rfl) conjoined
  have some_condition' : conditions' ≠ [] := by
    rintro rfl
    exact empty perm.eq_nil
  obtain ⟨query, returns, -⟩ := parse_conjunctionText plain empty
  have moved (field : Str) (k : Int) :
      (∀ c ∈ conditions', c.name = field → c.op.Holds k c.number) ↔
        ∀ c ∈ conditions, c.name = field → c.op.Holds k c.number := by
    simp only [perm.mem_iff]
  constructor
  · intro same query' _ c hc k
    have hc' := perm.mem_iff.mpr hc
    rw [same, moved]
    exact conjoined query returns c hc' k
  · intro conjoined' field k
    obtain ⟨query', returns', -⟩ := parse_conjunctionText plain some_condition'
    by_cases named : ∃ c ∈ conditions, c.name = field
    · obtain ⟨c, hc, rfl⟩ := named
      rw [conjoined query returns c hc k,
        conjoined' query' returns' c (perm.mem_iff.mp hc) k, moved]
    · push Not at named
      have named' : ∀ c ∈ conditions', c.name ≠ field := fun c hc =>
        named c (perm.mem_iff.mpr hc)
      exact iff_of_false (not_inRange plain named' some_condition' k)
        (not_inRange plain named empty k)

end Conjoined

/-! ## Two conditions on one field -/

theorem gt_ranged : CondOp.GT ≠ .NEQ := by decide

def aboveThree : IntCondition 0 where
  field := "a".toList
  op := .GT
  value := "3".toList
  bound := "3".toList
  ranged := gt_ranged
  field_plain := List.all_iff_forall_prop.mp (by decide)
  value_plain := List.all_iff_forall_prop.mp (by decide)
  value_ne_nil := by decide
  read := by decide
  number := 3
  spells := by decide

def aboveFive : IntCondition 0 where
  field := "a".toList
  op := .GT
  value := "5".toList
  bound := "5".toList
  ranged := gt_ranged
  field_plain := List.all_iff_forall_prop.mp (by decide)
  value_plain := List.all_iff_forall_prop.mp (by decide)
  value_ne_nil := by decide
  read := by decide
  number := 5
  spells := by decide

theorem plain_d : '?' ∉ "d".toList := by decide

theorem lastTightest_five_last : LastTightest [aboveThree, aboveFive] "a".toList := by
  refine .inr ⟨fun l last c hc _ _ => ?_, fun u last => ?_⟩
  · have five : aboveFive = l := Option.some.inj last
    subst five
    revert c
    decide
  · cases last

theorem conjoined_five_last : Conjoined 0 "d".toList [aboveThree, aboveFive] :=
  (conjoined_iff plain_d).1.mpr fun c hc => by
    have name : c.name = "a".toList := by
      rcases List.mem_pair.mp hc with rfl | rfl <;> rfl
    rw [name]
    exact lastTightest_five_last

/-- The second condition loosens the first: the key 4 is in the range. -/
theorem not_conjoined_three_last :
    conjunctionText "d".toList [aboveFive, aboveThree] = "/d/?a>5&a>3".toList ∧
      ¬ Conjoined 0 "d".toList [aboveFive, aboveThree] := by
  refine ⟨by decide, fun conjoined => ?_⟩
  obtain ⟨query, returns, -⟩ := parse_conjunctionText plain_d
    (List.cons_ne_nil aboveFive [aboveThree])
  have inside : Inside (rangeAfter noBounds
      ([aboveFive, aboveThree].map fun c => c.setting) "a".toList) 4 := by
    refine ⟨fun n spelled => ?_, fun n spelled => ?_⟩
    · have three : 3 = n := Option.some.inj spelled
      subst three
      decide
    · cases spelled
  have named : ∃ c ∈ [aboveFive, aboveThree], c.name = "a".toList :=
    ⟨aboveFive, List.mem_cons_self, rfl⟩
  have above : (4 : Int) > 5 := (conjoined query returns aboveFive List.mem_cons_self 4).mp
    ((inRange_iff plain_d named 4).mpr inside) aboveFive List.mem_cons_self rfl
  omega

end Vsfs.ComplexQuery

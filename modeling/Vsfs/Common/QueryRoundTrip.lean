import Vsfs.Common.QueryRanges

/-!
# Printed queries

A list of conditions printed behind a directory, with any spaces around fields, operators and
values, is read back as these conditions, in whatever order they are printed.

## Main results

- `parse_printed`: the query that is read has the directory and, for every field, the bounds
  that its conditions state, if no side of a field is stated twice.
-/

namespace Vsfs.ComplexQuery

open Std FiniteMap

/-! ## Printing -/

/-- A condition on a field, with a number for a value. -/
structure Comparison where
  field : Str
  op : CondOp
  value : Str
  ranged : op ≠ .NEQ
  field_ne_nil : field ≠ []
  trimmed : trimCopy field = field
  field_plain : ∀ c ∈ field, c ∉ "=!<>&/?".toList
  value_ne_nil : value ≠ []
  number : ∀ c ∈ value, c ∈ "0123456789.+-".toList

/-- The spaces of a printed condition. -/
structure Spacing where
  front : Str := []
  beforeOp : Str := []
  afterOp : Str := []
  back : Str := []
  blank : ∀ c ∈ front ++ beforeOp ++ afterOp ++ back, isSpace c = true

def Comparison.text (c : Comparison) (spaces : Spacing) : Str :=
  (spaces.front ++ c.field ++ spaces.beforeOp) ++
    (c.op.text ++ (spaces.afterOp ++ c.value ++ spaces.back))

/-- The query of the conditions under a directory; the root directory ends in its slash. -/
def queryText (root : Str) (conditions : List (Comparison × Spacing)) : Str :=
  (if root = ['/'] then root else root ++ ['/']) ++
    '?' :: ['&'].intercalate (conditions.map fun c => c.1.text c.2)

def Comparison.setting (c : Comparison) : Setting := ⟨c.field, c.op, c.value⟩

/-! ## Reading -/

theorem trimCopy_append {front s back : Str} (blank : ∀ c ∈ front ++ back, isSpace c = true) :
    trimCopy (front ++ s ++ back) = trimCopy s := by
  have before : ∀ c ∈ front, isSpace c = true := fun c hc => blank c (List.mem_append_left _ hc)
  have behind : ∀ c ∈ back, isSpace c = true := fun c hc => blank c (List.mem_append_right _ hc)
  have none : back.dropWhile isSpace = [] := List.dropWhile_eq_nil_iff.mpr behind
  have cut (t : Str) : (t ++ back).rdropWhile isSpace = t.rdropWhile isSpace := by
    rw [List.rdropWhile, List.reverse_append,
      List.dropWhile_append_of_pos fun c hc => behind c (List.mem_reverse.mp hc), List.rdropWhile]
  rw [trimCopy, List.append_assoc, List.dropWhile_append_of_pos before, List.dropWhile_append]
  split
  · rename_i all
    rw [none, trimCopy, List.isEmpty_iff.mp all]
  · rw [cut, trimCopy]

theorem not_special_of_isSpace {c : Char} (h : isSpace c = true) : c ∉ "=!<>&/?".toList := by
  have all : ∀ c ∈ [' ', '\t', '\n', '\x0b', '\x0c', '\r'], c ∉ "=!<>&/?".toList :=
    List.all_iff_forall_prop.mp (by decide)
  exact all c (of_decide_eq_true h)

theorem not_special_of_number {c : Char} (h : c ∈ "0123456789.+-".toList) :
    c ∉ "=!<>&/?".toList := by
  have all : ∀ c ∈ "0123456789.+-".toList, c ∉ "=!<>&/?".toList :=
    List.all_iff_forall_prop.mp (by decide)
  exact all c h

namespace Comparison

theorem isNumberChar_value (c : Comparison) : ∀ d ∈ c.value, isNumberChar d = true :=
  fun d hd => decide_eq_true (c.number d hd)

/-- A number without a unit is its own value, for every field. -/
theorem read_value (c : Comparison) (now : Nat) (field : Str) :
    parseValue now field (trimCopy c.value) = .ok (.OK, c.value) := by
  rw [trimCopy_of_noSpace fun d hd => (numberChar_plain (c.isNumberChar_value d hd)).1]
  exact parseValue_of_plain now (List.dropWhile_eq_nil_iff.mpr c.isNumberChar_value)

/-- The condition with its spaces, as the parser takes it apart. -/
def printed (c : Comparison) (spaces : Spacing) (now : Nat) : Condition now where
  field := spaces.front ++ c.field ++ spaces.beforeOp
  op := c.op
  value := spaces.afterOp ++ c.value ++ spaces.back
  bound := c.value
  ranged := c.ranged
  field_plain d hd := by
    rcases List.mem_append.mp hd with hd | hd
    · rcases List.mem_append.mp hd with hd | hd
      · exact not_special_of_isSpace (spaces.blank d (by simp [hd]))
      · exact c.field_plain d hd
    · exact not_special_of_isSpace (spaces.blank d (by simp [hd]))
  value_plain d hd := by
    rcases List.mem_append.mp hd with hd | hd
    · rcases List.mem_append.mp hd with hd | hd
      · exact not_special_of_isSpace (spaces.blank d (by simp [hd]))
      · exact not_special_of_number (c.number d hd)
    · exact not_special_of_isSpace (spaces.blank d (by simp [hd]))
  value_ne_nil := by simp [c.value_ne_nil]
  read := by
    have blank : ∀ d ∈ spaces.afterOp ++ spaces.back, isSpace d = true := fun d hd =>
      spaces.blank d (by rcases List.mem_append.mp hd with hd | hd <;> simp [hd])
    rw [trimCopy_append (s := c.value) blank]
    exact c.read_value now _

theorem trimCopy_printed (c : Comparison) (spaces : Spacing) (now : Nat) :
    trimCopy (c.printed spaces now).field = c.field := by
  have blank : ∀ d ∈ spaces.front ++ spaces.beforeOp, isSpace d = true := fun d hd =>
    spaces.blank d (by rcases List.mem_append.mp hd with hd | hd <;> simp [hd])
  exact (trimCopy_append blank).trans c.trimmed

theorem setting_printed (c : Comparison) (spaces : Spacing) (now : Nat) :
    (c.printed spaces now).setting = c.setting := by
  rw [Condition.setting, trimCopy_printed]
  rfl

end Comparison

theorem ranges_printed (conditions : List (Comparison × Spacing)) (now : Nat) :
    ranges (conditions.map fun c => c.1.printed c.2 now) =
      addAll (conditions.map (·.1.setting)) ∅ := by
  rw [ranges_eq_addAll, List.map_map]
  exact congrArg (addAll · ∅) (List.map_congr_left fun c _ => c.1.setting_printed c.2 now)

/-- The parser reads the directory and every setting. -/
theorem parse_queryText {root : Str} (normal : Normal root) (plain : '?' ∉ root)
    {conditions : List (Comparison × Spacing)} (some_condition : conditions ≠ []) (now : Nat) :
    ∃ query, parse now {} (queryText root conditions) = .ok (.OK, query) ∧ query.root = root ∧
      query.rangeQueryMap = addAll (conditions.map (·.1.setting)) ∅ := by
  let printed := conditions.map fun c => c.1.printed c.2 now
  have some_printed : printed ≠ [] := by simpa [printed] using some_condition
  have list : ['&'].intercalate (conditions.map fun c => c.1.text c.2) = conditionList printed := by
    rw [conditionList, List.map_map]
    rfl
  rw [← ranges_printed conditions now, queryText, list]
  by_cases top : root = ['/']
  · subst top
    rw [if_pos rfl]
    exact readsAs_root some_printed
  · have slash := readsAs_slash normal plain some_printed
    rw [Spelling.text] at slash
    rw [if_neg top, List.append_assoc]
    exact slash

/-! ## Conditions on a side -/

/-- No side of a field is set by two conditions. -/
structure Once (conditions : List Comparison) : Prop where
  lower : ∀ field, (conditions.filter fun c => c.field = field && c.op.setsLower).length ≤ 1
  upper : ∀ field, (conditions.filter fun c => c.field = field && c.op.setsUpper).length ≤ 1

/-- The range has the bounds that the conditions on the field state, and no other. -/
structure States (conditions : List Comparison) (field : Str) (range : StringRange) : Prop where
  lower : ∀ c ∈ conditions, c.field = field → c.op.setsLower = true →
    range.lower = c.value ∧ range.lowerClosed = c.op.closes
  noLower : (∀ c ∈ conditions, c.field = field → c.op.setsLower = false) →
    range.lower = [] ∧ range.lowerClosed = false
  upper : ∀ c ∈ conditions, c.field = field → c.op.setsUpper = true →
    range.upper = c.value ∧ range.upperClosed = c.op.closes
  noUpper : (∀ c ∈ conditions, c.field = field → c.op.setsUpper = false) →
    range.upper = [] ∧ range.upperClosed = false

theorem lastSetting_none {sets : CondOp → Bool} {conditions : List Comparison} {field : Str}
    (unset : ∀ c ∈ conditions, c.field = field → sets c.op = false) :
    lastSetting sets (conditions.map Comparison.setting) field = none := by
  refine List.getLast?_eq_none_iff.mpr (List.filter_eq_nil_iff.mpr fun s hs => ?_)
  obtain ⟨c, hc, rfl⟩ := List.mem_map.mp hs
  rw [Bool.and_eq_true, decide_eq_true_eq]
  rintro ⟨mine, side⟩
  exact absurd side (Bool.eq_false_iff.mp (unset c hc mine))

/-- The only setting of a side is the last one. -/
theorem lastSetting_once {sets : CondOp → Bool} {conditions : List Comparison} {field : Str}
    (once : (conditions.filter fun c => c.field = field && sets c.op).length ≤ 1) {c : Comparison}
    (hc : c ∈ conditions) (mine : c.field = field) (side : sets c.op = true) :
    lastSetting sets (conditions.map Comparison.setting) field = some c.setting := by
  have inside : c ∈ conditions.filter fun c => c.field = field && sets c.op :=
    List.mem_filter.mpr ⟨hc, by simp [mine, side]⟩
  have only : (conditions.filter fun c => c.field = field && sets c.op) = [c] := by
    obtain ⟨d, single⟩ := List.length_eq_one_iff.mp
      (Nat.le_antisymm once (List.length_pos_of_mem inside))
    rw [single] at inside ⊢
    rw [List.mem_singleton.mp inside]
  unfold lastSetting
  rw [List.filter_map]
  exact congrArg (fun l => (l.map Comparison.setting).getLast?) only

theorem states_rangeAfter {conditions : List Comparison} (once : Once conditions) (field : Str) :
    States conditions field
      (rangeAfter noBounds (conditions.map Comparison.setting) field) where
  lower c hc mine side := by
    simp only [rangeAfter, lastSetting_once (once.lower field) hc mine side]
    exact ⟨rfl, rfl⟩
  noLower unset := by
    simp only [rangeAfter, lastSetting_none unset]
    exact ⟨rfl, rfl⟩
  upper c hc mine side := by
    simp only [rangeAfter, lastSetting_once (once.upper field) hc mine side]
    exact ⟨rfl, rfl⟩
  noUpper unset := by
    simp only [rangeAfter, lastSetting_none unset]
    exact ⟨rfl, rfl⟩

/-- The conditions leave no choice. -/
theorem States.unique {conditions : List Comparison} {field : Str} {range range' : StringRange}
    (h : States conditions field range) (h' : States conditions field range') : range = range' := by
  have lower : range.lower = range'.lower ∧ range.lowerClosed = range'.lowerClosed := by
    by_cases some_lower : ∃ c ∈ conditions, c.field = field ∧ c.op.setsLower = true
    · obtain ⟨c, hc, mine, side⟩ := some_lower
      obtain ⟨bound, closed⟩ := h.lower c hc mine side
      obtain ⟨bound', closed'⟩ := h'.lower c hc mine side
      exact ⟨bound.trans bound'.symm, closed.trans closed'.symm⟩
    · have none : ∀ c ∈ conditions, c.field = field → c.op.setsLower = false := by
        simpa using some_lower
      obtain ⟨bound, closed⟩ := h.noLower none
      obtain ⟨bound', closed'⟩ := h'.noLower none
      exact ⟨bound.trans bound'.symm, closed.trans closed'.symm⟩
  have upper : range.upper = range'.upper ∧ range.upperClosed = range'.upperClosed := by
    by_cases some_upper : ∃ c ∈ conditions, c.field = field ∧ c.op.setsUpper = true
    · obtain ⟨c, hc, mine, side⟩ := some_upper
      obtain ⟨bound, closed⟩ := h.upper c hc mine side
      obtain ⟨bound', closed'⟩ := h'.upper c hc mine side
      exact ⟨bound.trans bound'.symm, closed.trans closed'.symm⟩
    · have none : ∀ c ∈ conditions, c.field = field → c.op.setsUpper = false := by
        simpa using some_upper
      obtain ⟨bound, closed⟩ := h.noUpper none
      obtain ⟨bound', closed'⟩ := h'.noUpper none
      exact ⟨bound.trans bound'.symm, closed.trans closed'.symm⟩
  cases range
  cases range'
  simp only [StringRange.mk.injEq]
  exact ⟨lower.1, lower.2, upper.1, upper.2⟩

/-- The conditions in another order state the same. -/
theorem States.of_perm {conditions conditions' : List Comparison}
    (perm : conditions.Perm conditions') {field : Str} {range : StringRange}
    (h : States conditions field range) : States conditions' field range where
  lower c hc := h.lower c (perm.mem_iff.mpr hc)
  noLower none := h.noLower fun c hc => none c (perm.mem_iff.mp hc)
  upper c hc := h.upper c (perm.mem_iff.mpr hc)
  noUpper none := h.noUpper fun c hc => none c (perm.mem_iff.mp hc)

theorem Once.of_perm {conditions conditions' : List Comparison}
    (perm : conditions.Perm conditions') (h : Once conditions) : Once conditions' where
  lower field := (perm.filter _).length_eq ▸ h.lower field
  upper field := (perm.filter _).length_eq ▸ h.upper field

/-- The ranges that are read: one for each field that is named, with what is stated of it. -/
theorem getElem?_addAll_comparisons {conditions : List Comparison} (once : Once conditions)
    (field : Str) (range : StringRange) :
    (addAll (conditions.map Comparison.setting) ∅)[field]? = some range ↔
      (∃ c ∈ conditions, c.field = field) ∧ States conditions field range := by
  by_cases named : ∃ c ∈ conditions, c.field = field
  · have named' : ∃ s ∈ conditions.map Comparison.setting, s.field = field := by
      simpa [Comparison.setting] using named
    have stated := states_rangeAfter once field
    rw [getElem?_addAll_of_named named', ExtTreeMap.getElem?_empty, Option.getD_none,
      Option.some.injEq]
    constructor
    · rintro rfl
      exact ⟨named, stated⟩
    · exact fun h => stated.unique h.2
  · have other : ∀ s ∈ conditions.map Comparison.setting, s.field ≠ field := by
      simpa [Comparison.setting] using named
    rw [getElem?_addAll_of_not_named other, ExtTreeMap.getElem?_empty]
    exact iff_of_false nofun fun h => named h.1

/-- A printed query is read back: the directory, the names of its fields, and for each field
the bounds that its conditions state. Another order or other spaces make no difference. -/
theorem parse_printed {root : Str} (normal : Normal root) (plain : '?' ∉ root)
    {conditions : List (Comparison × Spacing)} (some_condition : conditions ≠ [])
    (once : Once (conditions.map Prod.fst)) (now : Nat) :
    ∃ query, parse now {} (queryText root conditions) = .ok (.OK, query) ∧ query.root = root ∧
      query.getNamesOfRangeQueries.Nodup ∧
      (∀ name, name ∈ query.getNamesOfRangeQueries ↔ ∃ c ∈ conditions, c.1.field = name) ∧
      (∀ name range, query.rangeQuery name = some range ↔
        (∃ c ∈ conditions, c.1.field = name) ∧ States (conditions.map Prod.fst) name range) ∧
      ∀ conditions' : List (Comparison × Spacing),
        (conditions.map Prod.fst).Perm (conditions'.map Prod.fst) →
        ∃ query', parse now {} (queryText root conditions') = .ok (.OK, query') ∧
          query'.root = root ∧ query'.rangeQueryMap = query.rangeQueryMap := by
  obtain ⟨query, returns, hroot, hranges⟩ := parse_queryText normal plain some_condition now
  have settings (l : List (Comparison × Spacing)) :
      l.map (·.1.setting) = (l.map Prod.fst).map Comparison.setting := by
    rw [List.map_map]
    rfl
  have read (name : Str) (range : StringRange) : query.rangeQueryMap[name]? = some range ↔
      (∃ c ∈ conditions, c.1.field = name) ∧ States (conditions.map Prod.fst) name range := by
    rw [hranges, settings, getElem?_addAll_comparisons once]
    simp
  refine ⟨query, returns, hroot, ExtTreeMap.nodup_keys, fun name => ?_, read,
    fun conditions' perm => ?_⟩
  · rw [getNamesOfRangeQueries, ExtTreeMap.mem_keys, hranges, mem_addAll]
    simp [Comparison.setting]
  · have some_condition' : conditions' ≠ [] := by
      rintro rfl
      simp [some_condition] at perm
    obtain ⟨query', returns', hroot', hranges'⟩ := parse_queryText normal plain some_condition' now
    refine ⟨query', returns', hroot', ?_⟩
    refine ExtTreeMap.ext_getElem? fun name => Option.ext fun range => ?_
    rw [read, hranges', settings, getElem?_addAll_comparisons (once.of_perm perm)]
    have fields : (∃ c ∈ conditions'.map Prod.fst, c.field = name) ↔
        ∃ c ∈ conditions, c.1.field = name := by
      simp only [← perm.mem_iff]
      simp
    rw [fields]
    exact and_congr_right fun _ => ⟨States.of_perm perm.symm, States.of_perm perm⟩

/-! ## A printed query -/

theorem five_ne_nil : "5".toList ≠ [] := by decide

def sizeFrom : Comparison where
  field := "size".toList
  op := .GE
  value := "5".toList
  ranged := by decide
  field_ne_nil := by decide
  trimmed := by decide
  field_plain := List.all_iff_forall_prop.mp (by decide)
  value_ne_nil := five_ne_nil
  number := List.all_iff_forall_prop.mp (by decide)

def sizeBelow : Comparison where
  field := "size".toList
  op := .LT
  value := "-9.5".toList
  ranged := by decide
  field_ne_nil := by decide
  trimmed := by decide
  field_plain := List.all_iff_forall_prop.mp (by decide)
  value_ne_nil := by decide
  number := List.all_iff_forall_prop.mp (by decide)

def noSpaces : Spacing where
  blank := by simp

def spaced : Spacing where
  front := [' ']
  beforeOp := [' ']
  afterOp := ['\t']
  back := [' ', ' ']
  blank := List.all_eq_true.mp (by decide)

theorem once_size : Once [sizeFrom, sizeBelow] where
  lower field := by
    have upperOnly : (decide (sizeBelow.field = field) && sizeBelow.op.setsLower) = false :=
      Bool.and_false _
    rw [List.filter_cons, List.filter_cons_of_neg (by simp [upperOnly]), List.filter_nil]
    split <;> simp
  upper field := by
    have lowerOnly : (decide (sizeFrom.field = field) && sizeFrom.op.setsUpper) = false :=
      Bool.and_false _
    rw [List.filter_cons_of_neg (by simp [lowerOnly]), List.filter_cons, List.filter_nil]
    split <;> simp

theorem parse_printed_size :
    ∃ query, parse 0 {} "/? size >=\t5  &size<-9.5".toList = .ok (.OK, query) ∧
      query.root = "/".toList ∧ query.getNamesOfRangeQueries.Nodup ∧
      "size".toList ∈ query.getNamesOfRangeQueries := by
  have plain : '?' ∉ ['/'] := by decide
  have some_condition : [(sizeFrom, spaced), (sizeBelow, noSpaces)] ≠ [] := by simp
  obtain ⟨query, returns, root, once, names, -⟩ :=
    parse_printed .root plain some_condition once_size 0
  exact ⟨query, returns, root, once, (names _).mpr ⟨_, List.mem_cons_self, rfl⟩⟩

end Vsfs.ComplexQuery

import Mathlib.Data.Bool.AllAny
import Vsfs.Client.Results
import Vsfs.Common.QueryItems
import Vsfs.Index.IntKey

/-!
# One-sided conditions

A condition such as `size < 10` has one bound. The parser leaves the other one empty, with a
flag that is not closed; the client turns the flag around, and the index reads the empty text
as the limit of its key type, open. So a key at the limit is lost.
-/

namespace Vsfs.Client.VSFSRpcClient

open Index ComplexQuery

/-! ## Texts -/

/-- The text of a key is its own value. -/
theorem parseValue_of_cast (now : Nat) (field : Str) {signed : Bool} {bits : Nat} {text : Str}
    {i : Int} (h : lexicalCastInt signed bits text = some i) :
    text ≠ [] ∧ (∀ c ∈ text, isOpChar c = false) ∧
      parseValue now field (trimCopy text) = .ok (.OK, text) := by
  obtain ⟨nonempty, chars⟩ := chars_of_lexicalCastInt h
  have number : ∀ c ∈ text, isNumberChar c = true := by
    intro c hc
    rcases chars c hc with digit | rfl | rfl
    · exact isNumberChar_of_isDigit digit
    · decide
    · decide
  refine ⟨nonempty, fun c hc => (numberChar_plain (number c hc)).2, ?_⟩
  rw [trimCopy_of_noSpace fun c hc => (numberChar_plain (number c hc)).1]
  exact parseValue_of_plain now (List.dropWhile_eq_nil_iff.mpr number)

/-! ## Conditions on keys -/

section Keys

variable {K : Type} [LinearOrder K]

/-- The keys a condition asks for. -/
def Asks (op : CondOp) (v k : K) : Prop :=
  match op with
  | .LT => k < v
  | .LE => k ≤ v
  | .GT => v < k
  | .GE => v ≤ k
  | .EQ => k = v
  | .NEQ => k ≠ v

end Keys

def OneSided (op : CondOp) : Prop := op = .LT ∨ op = .LE ∨ op = .GT ∨ op = .GE

variable {signed : Bool} {bits : Nat}

attribute [local instance] intKeys

/-- The limit of the key type on the side that the condition leaves open. -/
def limit (op : CondOp) : IntKey signed bits :=
  match op with
  | .LT | .LE => KeyTypes.min 0
  | _ => KeyTypes.max 0

theorem min_le (k : IntKey signed bits) (keyType : Int) : KeyTypes.min keyType ≤ k := k.2.1

theorem le_max (k : IntKey signed bits) (keyType : Int) : k ≤ KeyTypes.max keyType := k.2.2

/-- The range of an index for the bounds of a query, with one of them missing. -/
theorem mem_search_below (ix : RangeIndex (IntKey signed bits)) {range : RangeQuery}
    {v : IntKey signed bits} (lower : range.lower = []) (lowerOpen : range.lowerOpen = true)
    (nonempty : range.upper ≠ []) (upper : KeyTypes.lexicalCast ix.keyType range.upper = some v) :
    (ix.search range).1 = .OK ∧ ∀ o, o ∈ (ix.search range).2 ↔ ∃ k, (k, o) ∈ ix.pairs ∧
      (if range.upperOpen then k < v else k ≤ v) ∧ k ≠ KeyTypes.min ix.keyType := by
  have bounds : ix.bounds range = some (KeyTypes.min ix.keyType, v) := by
    simp [RangeIndex.bounds, lower, nonempty, upper]
  refine ⟨by rw [RangeIndex.search, bounds], fun o => ?_⟩
  rw [RangeIndex.search, bounds, RangeIndex.mem_searchRange, lowerOpen]
  refine exists_congr fun k => and_congr_right fun _ => ?_
  simp only [RangeIndex.InRange, if_true, and_comm (a := KeyTypes.min ix.keyType < k)]
  exact and_congr_right fun _ => ⟨fun h => h.ne', fun h => (min_le k _).lt_of_ne (Ne.symm h)⟩

theorem mem_search_above (ix : RangeIndex (IntKey signed bits)) {range : RangeQuery}
    {v : IntKey signed bits} (upper : range.upper = []) (upperOpen : range.upperOpen = true)
    (nonempty : range.lower ≠ []) (lower : KeyTypes.lexicalCast ix.keyType range.lower = some v) :
    (ix.search range).1 = .OK ∧ ∀ o, o ∈ (ix.search range).2 ↔ ∃ k, (k, o) ∈ ix.pairs ∧
      (if range.lowerOpen then v < k else v ≤ k) ∧ k ≠ KeyTypes.max ix.keyType := by
  have bounds : ix.bounds range = some (v, KeyTypes.max ix.keyType) := by
    simp [RangeIndex.bounds, upper, nonempty, lower]
  refine ⟨by rw [RangeIndex.search, bounds], fun o => ?_⟩
  rw [RangeIndex.search, bounds, RangeIndex.mem_searchRange, upperOpen]
  refine exists_congr fun k => and_congr_right fun _ => and_congr_right fun _ => ?_
  exact ⟨fun h => h.ne, fun h => (le_max k _).lt_of_ne h⟩

section

variable [FsPath]

/-- The condition, carried from the parser through the query of a client to an index, gives
the ids of the keys that it asks for. -/
def Answers (now : Nat) (ix : RangeIndex (IntKey signed bits)) (part : Str) (op : CondOp)
    (text : Str) (v : IntKey signed bits) : Prop :=
  ∃ query range, parseExpression now {} (nameOf part ++ (op.text ++ text)) = .ok (.OK, query) ∧
    subQuery query part = .ret range ∧ (ix.search range).1 = .OK ∧
    ∀ o, o ∈ (ix.search range).2 ↔ ∃ k, (k, o) ∈ ix.pairs ∧ Asks op v k

/-- The client asks an index for the range of its name, with the flags turned around. -/
theorem subQuery_of_range {query : ComplexQuery} {part : Str} {range : StringRange}
    (found : query.rangeQueryMap[nameOf part]? = some range) :
    subQuery query part = .ret
      { indexPath := part, name := nameOf part, upper := range.upper
        upperOpen := !range.upperClosed, lower := range.lower
        lowerOpen := !range.lowerClosed } := by
  have found' : query.rangeQuery (FsPath.filename (FsPath.parentPath part)) = some range := found
  simp only [subQuery, found']
  rfl

/-- What the index gives instead: the limit is left out. -/
theorem answer_spec (now : Nat) (ix : RangeIndex (IntKey signed bits)) {part : Str} {op : CondOp}
    (oneSided : OneSided op) (noOp : ∀ c ∈ nameOf part, isOpChar c = false)
    (trimmed : trimCopy (nameOf part) = nameOf part) {text : Str} {v : IntKey signed bits}
    (decimal : KeyTypes.lexicalCast ix.keyType text = some v) :
    ∃ query range, parseExpression now {} (nameOf part ++ (op.text ++ text)) = .ok (.OK, query) ∧
      subQuery query part = .ret range ∧ (ix.search range).1 = .OK ∧
      ∀ o, o ∈ (ix.search range).2 ↔
        ∃ k, (k, o) ∈ ix.pairs ∧ Asks op v k ∧ k ≠ limit op := by
  have ranged : op ≠ .NEQ := by
    rintro rfl
    rcases oneSided with h | h | h | h <;> cases h
  obtain ⟨nonempty, plain, read⟩ :=
    parseValue_of_cast now (trimCopy (nameOf part)) (IntKey.cast_eq_some_iff.mp decimal)
  obtain ⟨range, hrange, outcome⟩ :=
    parseExpression_of_read {} ranged noOp nonempty plain read
  rw [trimmed] at hrange outcome
  have fresh : ({} : ComplexQuery).rangeOf (nameOf part) =
      { lowerClosed := false, upperClosed := false } := by simp [rangeOf]
  rw [fresh] at hrange
  have found : (({} : ComplexQuery).rangeQueryMap.insert (nameOf part) range)[nameOf part]? =
      some range := by simp
  refine ⟨_, _, outcome, subQuery_of_range found, ?_⟩
  rcases oneSided with rfl | rfl | rfl | rfl <;> cases hrange
  · exact mem_search_below ix rfl rfl nonempty decimal
  · exact mem_search_below ix rfl rfl nonempty decimal
  · exact mem_search_above ix rfl rfl nonempty decimal
  · exact mem_search_above ix rfl rfl nonempty decimal

/-- A one-sided condition on a fixed-width integer key gives exactly the ids that it asks for
when every id at the limit on its open side, if the condition asks for that key, has another
key that it asks for. -/
theorem answers_iff (now : Nat) (ix : RangeIndex (IntKey signed bits)) {part : Str} {op : CondOp}
    (oneSided : OneSided op) (noOp : ∀ c ∈ nameOf part, isOpChar c = false)
    (trimmed : trimCopy (nameOf part) = nameOf part) {text : Str} {v : IntKey signed bits}
    (decimal : KeyTypes.lexicalCast ix.keyType text = some v) :
    Answers now ix part op text v ↔
      ∀ o, (limit op, o) ∈ ix.pairs → Asks op v (limit op) →
        ∃ k, (k, o) ∈ ix.pairs ∧ Asks op v k ∧ k ≠ limit op := by
  obtain ⟨query, range, parsed, asked, ok, given⟩ :=
    answer_spec now ix oneSided noOp trimmed decimal
  constructor
  · rintro ⟨query', range', parsed', asked', -, wanted⟩ o inside asks
    obtain rfl : query' = query := (Prod.mk.inj (Except.ok.inj (parsed'.symm.trans parsed))).2
    obtain rfl : range' = range := by
      rw [asked] at asked'
      cases asked'
      rfl
    exact (given o).mp ((wanted o).mpr ⟨limit op, inside, asks⟩)
  · intro another
    refine ⟨query, range, parsed, asked, ok, fun o => ⟨fun h => ?_, ?_⟩⟩
    · obtain ⟨k, inside, asks, -⟩ := (given o).mp h
      exact ⟨k, inside, asks⟩
    · rintro ⟨k, inside, asks⟩
      by_cases atLimit : k = limit op
      · subst atLimit
        exact (given o).mpr (another o inside asks)
      · exact (given o).mpr ⟨k, inside, asks, atLimit⟩

end

section Examples

attribute [local instance] Posix.fsPath

/-- Files of size zero and of size seven. -/
def sizes : RangeIndex (IntKey false 64) :=
  ((RangeIndex.empty 0).insert ⟨0, by decide⟩ 1).insert ⟨7, by decide⟩ 2

theorem mem_pairs_sizes (p : IntKey false 64 × ObjectId) :
    p ∈ sizes.pairs ↔ p = (⟨7, by decide⟩, 2) ∨ p = (⟨0, by decide⟩, 1) := by
  rw [sizes, RangeIndex.pairs_insert, RangeIndex.pairs_insert, RangeIndex.pairs_empty]
  simp [Replay.Write.apply]

def sizePartition : Str := "/.vsfs/size/0".toList

theorem noOp_sizePartition : ∀ c ∈ nameOf sizePartition, isOpChar c = false :=
  List.all_iff_forall_prop.mp (by decide)

theorem sizes_above_answers : Answers 0 sizes sizePartition .GT "5".toList ⟨5, by decide⟩ := by
  refine (answers_iff 0 sizes (.inr (.inr (.inl rfl))) noOp_sizePartition (by decide)
    (by decide)).mpr ?_
  intro o inside
  rcases (mem_pairs_sizes _).mp inside with same | same
  · have key : (limit .GT : IntKey false 64) = ⟨7, by decide⟩ := (Prod.mk.inj same).1
    exact absurd key (by decide)
  · have key : (limit .GT : IntKey false 64) = ⟨0, by decide⟩ := (Prod.mk.inj same).1
    exact absurd key (by decide)

/-- `size<10` does not find the file of size zero. -/
theorem sizes_below_lost : ¬ Answers 0 sizes sizePartition .LT "10".toList ⟨10, by decide⟩ := by
  rintro ⟨query, range, parsed, asked, -, wanted⟩
  have decimal : KeyTypes.lexicalCast sizes.keyType "10".toList =
      some (⟨10, by decide⟩ : IntKey false 64) := by decide
  obtain ⟨query', range', parsed', asked', -, given⟩ :=
    answer_spec 0 sizes (.inl rfl) noOp_sizePartition (by decide) decimal
  obtain rfl : query = query' := (Prod.mk.inj (Except.ok.inj (parsed.symm.trans parsed'))).2
  obtain rfl : range = range' := by
    rw [asked] at asked'
    cases asked'
    rfl
  have zero : (⟨0, by decide⟩, 1) ∈ sizes.pairs := (mem_pairs_sizes _).mpr (.inr rfl)
  have asks : Asks .LT ⟨10, by decide⟩ (⟨0, by decide⟩ : IntKey false 64) :=
    (by decide : (0 : Int) < 10)
  obtain ⟨k, inside, -, notLimit⟩ := (given 1).mp ((wanted 1).mpr ⟨_, zero, asks⟩)
  rcases (mem_pairs_sizes _).mp inside with same | same
  · have id : (1 : ObjectId) = 2 := (Prod.mk.inj same).2
    exact absurd id (by decide)
  · exact notLimit (Prod.mk.inj same).1

end Examples

end Vsfs.Client.VSFSRpcClient

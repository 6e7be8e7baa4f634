import Mathlib.Data.List.DropRight
import Vsfs.Common.ComplexQuery
import Vsfs.Common.LexicalCast

/-!
# The query parser

`ComplexQuery::parse` and the functions below it. A path is cut at `?` and `/` into
segments, a segment at `&` into expressions, an expression at its operator into a field and
a value. A failed `CHECK` aborts the process, and an exception is not caught on the way.
-/

namespace Vsfs.ComplexQuery

open Std

/-- The ways in which the parser does not return a status. -/
inductive ParseFailure where
  | check (condition : String)
  | badLexicalCast
  | outOfRange
  deriving DecidableEq, Repr

/-- A call that returns a value, aborts or throws. -/
abbrev Parses (α : Type) := Except ParseFailure α

/-! ## Texts -/

/-- `substr(pos, n)`. -/
def substr (s : Str) (pos n : Nat) : Parses Str :=
  if s.length < pos then .error .outOfRange else .ok ((s.drop pos).take n)

/-- `find(c, pos)`, `none` for `npos`. -/
def find (s : Str) (c : Char) (pos : Nat) : Option Nat :=
  ((s.drop pos).findIdx? (· = c)).map (pos + ·)

def isSpace (c : Char) : Bool := c ∈ [' ', '\t', '\n', '\x0b', '\x0c', '\r']

/-- `boost::algorithm::trim_copy`. -/
def trimCopy (s : Str) : Str := (s.dropWhile isSpace).rdropWhile isSpace

/-- `lexical_cast<uint64_t>`. -/
def castUint64 (s : Str) : Parses Nat :=
  match lexicalCastInt false 64 s with
  | some n => .ok n.toNat
  | none => .error .badLexicalCast

/-! ## Values -/

inductive CondOp where
  | EQ
  | NEQ
  | GT
  | GE
  | LT
  | LE
  deriving DecidableEq, Repr

/-- `none` for the source's `-1`. -/
def parseCondOp (op : Str) : Option CondOp :=
  if op = "=".toList then some .EQ
  else if op = "!=".toList then some .NEQ
  else if op = ">".toList then some .GT
  else if op = ">=".toList then some .GE
  else if op = "<".toList then some .LT
  else if op = "<=".toList then some .LE
  else none

def DAY : Nat := 60 * 60 * 24
def WEEK : Nat := DAY * 7
def KB : Nat := 1024
def MB : Nat := KB * 1024
def GB : Nat := MB * 1024
def TB : Nat := GB * 1024

def isTime (field : Str) : Bool :=
  field = "atime".toList || field = "ctime".toList || field = "mtime".toList

/-- The number a unit stands for, or the status for a unit the field does not have. A field
without units takes any text for one. -/
def unitValue (field unit : Str) : Except Status Nat :=
  if isTime field then
    if unit = "d".toList then .ok DAY
    else if unit = "w".toList then .ok WEEK
    else .error ⟨-1, "Un-recognized time unit: " ++ String.ofList unit⟩
  else if field = "size".toList then
    if unit = "k".toList then .ok KB
    else if unit = "m".toList then .ok MB
    else if unit = "g".toList then .ok GB
    else if unit = "t".toList then .ok TB
    else .error ⟨-1, "Un-recognized file-size unit: " ++ String.ofList unit⟩
  else .ok 1

/-- The characters of a value that are not the start of its unit. -/
def isNumberChar (c : Char) : Bool := c ∈ "0123456789.+-".toList

/-- `parse_value` with its status and the new value; `now` is the time of the clock. A time
with a sign and a unit is taken relative to it. -/
def parseValue (now : Nat) (field value : Str) : Parses (Status × Str) :=
  let unit := value.dropWhile isNumberChar
  let num := value.takeWhile isNumberChar
  if unit = [] then .ok (.OK, value)
  else
    match unitValue field unit with
    | .error status => .ok (status, value)
    | .ok numValue =>
      if isTime field ∧ (value.head? = some '+' ∨ value.head? = some '-') then do
        let symbol := if value.head? = some '+' then 1 else 2 ^ 64 - 1
        let n ← castUint64 (num.drop 1)
        return (.OK, (toString ((now + symbol * (numValue * n)) % 2 ^ 64)).toList)
      else do
        let n ← castUint64 num
        return (.OK, (toString (numValue * n % 2 ^ 64)).toList)

/-! ## Expressions -/

/-- `OPCHAR`. -/
def isOpChar (c : Char) : Bool := c ∈ "=!<>".toList

/-- `operator[]` of the map makes a range without bounds. Neither end of it is closed: its
flags are value-initialized. -/
def rangeOf (query : ComplexQuery) (field : Str) : StringRange :=
  query.rangeQueryMap[field]?.getD { lowerClosed := false, upperClosed := false }

/-- What the operator sets in the range of the field; `none` for `NEQ`. -/
def CondOp.range (op : CondOp) (value : Str) (range : StringRange) : Option StringRange :=
  match op with
  | .LE => some { range with upper := value, upperClosed := true }
  | .LT => some { range with upper := value, upperClosed := false }
  | .GE => some { range with lower := value, lowerClosed := true }
  | .GT => some { range with lower := value, lowerClosed := false }
  | .EQ => some { lower := value, lowerClosed := true, upper := value, upperClosed := true }
  | .NEQ => none

def parseExpression (now : Nat) (query : ComplexQuery) (exp : Str) :
    Parses (Status × ComplexQuery) :=
  if exp = [] then .error (.check "!exp.empty()")
  else
    let atOp := exp.dropWhile (fun c => !isOpChar c)
    let atValue := atOp.dropWhile isOpChar
    if atOp = [] ∨ atValue = [] then .ok (⟨-1, "Bad expression."⟩, query)
    else
      let field := trimCopy (exp.takeWhile (fun c => !isOpChar c))
      match parseCondOp (atOp.takeWhile isOpChar) with
      | none => .ok (⟨-1, "Bad operation."⟩, query)
      | some op => do
        let (status, value) ← parseValue now field (trimCopy atValue)
        if !status.ok then return (status, query)
        match op.range value (query.rangeOf field) with
        | none => return (⟨-1, "Unknown op code."⟩, query)
        | some range =>
          return (.OK, { query with rangeQueryMap := query.rangeQueryMap.insert field range })

/-- The loop of `parse_condition` over the texts between the `&`. -/
def parseExpressions (now : Nat) (query : ComplexQuery) : List Str → Parses (Status × ComplexQuery)
  | [] => .ok (.OK, query)
  | exp :: exps => do
    let (status, query) ← parseExpression now query exp
    if !status.ok then return (status, query)
    parseExpressions now query exps

def parseCondition (now : Nat) (query : ComplexQuery) (buf : Str) :
    Parses (Status × ComplexQuery) :=
  if buf = [] then .error (.check "!buf.empty()")
  else parseExpressions now query (buf.splitOn '&')

/-- A segment without an operator is skipped. -/
def parseSegment (now : Nat) (query : ComplexQuery) (seg : Str) : Parses (Status × ComplexQuery) :=
  if seg = [] then .ok (⟨-1, "Segment is empty."⟩, query)
  else if seg.any isOpChar then parseCondition now query seg
  else .ok (.OK, query)

/-! ## Paths -/

theorem lt_length_of_find {s : Str} {c : Char} {pos i : Nat} (h : find s c pos = some i) :
    pos ≤ i ∧ i < s.length := by
  obtain ⟨j, hj, rfl⟩ := Option.map_eq_some_iff.mp h
  have inside := (List.findIdx?_eq_some_iff_findIdx_eq.mp hj).1
  rw [List.length_drop] at inside
  omega

/-- The loop of `parse` from position `last` on. -/
def parseLoop (now : Nat) (buf : Str) (query : ComplexQuery) (last : Nat) :
    Parses (Status × ComplexQuery) :=
  match found : find buf '/' (last + 1) with
  | none => do
    let segment ← substr buf last buf.length
    parseSegment now query segment
  | some pos =>
    have := lt_length_of_find found
    if pos = last + 1 then parseLoop now buf query pos
    else do
      let segment ← substr buf (last + 1) (pos - last - 1)
      let (status, query) ← parseSegment now query segment
      if !status.ok then return (status, query)
      parseLoop now buf query (pos + 1)
termination_by buf.length - last

/-- `parse(buf)` on a query. -/
def parse (now : Nat) (query : ComplexQuery) (buf : Str) : Parses (Status × ComplexQuery) :=
  if buf = [] then .error (.check "!buf.empty()")
  else if buf.head? ≠ some '/' then .error (.check "buf[0] == '/'")
  else
    match find buf '?' 0 with
    | none => .ok (⟨-2, "This path is not a file query." ++ String.ofList buf⟩, query)
    | some pos =>
      let root := if 1 < pos then buf.take (pos - 1) else ['/']
      parseLoop now buf { query with root := root } (pos + 1)

end Vsfs.ComplexQuery

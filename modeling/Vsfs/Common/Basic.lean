import Mathlib.Data.BitVec
import Mathlib.Data.List.Basic

/-!
# Strings, numbers, statuses and failed checks

The vocabulary every component shares: `std::string`, `vobla::Status`, and the two
ways in which a call can fail to return at all.
-/

namespace Vsfs

/-- A `std::string`, as the sequence of its characters. -/
abbrev Str := List Char

/-- `int64_t`, as its bits. -/
abbrev ObjectId := BitVec 64

instance : Std.TransOrd ObjectId := inferInstanceAs (Std.TransOrd (BitVec 64))

/-- `int64_t`, as its bits. -/
abbrev HashValueType := BitVec 64

/-- `vobla::Status`: an error code, zero for success, and a message. -/
structure Status where
  error : Int
  message : String := ""
  deriving DecidableEq, Repr

namespace Status

protected def OK : Status := ⟨0, ""⟩

def ok (s : Status) : Bool := s.error == 0

@[simp] theorem ok_OK : Status.OK.ok = true := rfl

end Status

/-- The bits of a `double`. -/
abbrev Double := BitVec 64

/-- The conversion of an `int64_t`, to the nearest `double` and to the even one of two. -/
def Double.ofInt64 (x : BitVec 64) : Double :=
  let m := x.toInt.natAbs
  if m = 0 then 0
  else
    let e := m.log2
    let significand :=
      if e ≤ 52 then m * 2 ^ (52 - e)
      else
        let unit := 2 ^ (e - 52)
        let q := m / unit
        let r := m % unit
        if 2 * r > unit ∨ (2 * r = unit ∧ q % 2 = 1) then q + 1 else q
    let sign := if x.toInt < 0 then 2 ^ 63 else 0
    BitVec.ofNat 64 (sign + (e + 1023) * 2 ^ 52 + (significand - 2 ^ 52))

/-- The conversion to `int64_t`, towards zero; the hardware's value out of range. -/
def Double.toInt64 (d : Double) : BitVec 64 :=
  let e := d.toNat / 2 ^ 52 % 2 ^ 11
  let significand := 2 ^ 52 + d.toNat % 2 ^ 52
  if e < 1023 then 0
  else if e ≥ 1023 + 63 then BitVec.ofNat 64 (2 ^ 63)
  else
    let m := significand * 2 ^ (e - 1023) / 2 ^ 52
    if d.msb then -BitVec.ofNat 64 m else BitVec.ofNat 64 m

example : Double.ofInt64 (BitVec.ofInt 64 (-3)) = 0xC008000000000000#64 := by decide

example : Double.toInt64 0xC008000000000000#64 = BitVec.ofInt 64 (-3) := by decide

/-! ## errno -/

def ENOENT : Int := 2
def EEXIST : Int := 17
def ENOTDIR : Int := 20
def EISDIR : Int := 21
def EINVAL : Int := 22
def ENOTEMPTY : Int := 39

/-- The messages of `strerror` for the codes the source passes to it. -/
def strerror (e : Int) : String :=
  if e = ENOENT then "No such file or directory"
  else if e = EEXIST then "File exists"
  else if e = ENOTDIR then "Not a directory"
  else if e = EISDIR then "Is a directory"
  else if e = ENOTEMPTY then "Directory not empty"
  else "Unknown error"

/-- `Status(-e, strerror(e))`, also what `Status::system_error(e)` builds. -/
def Status.systemError (e : Int) : Status := ⟨-e, strerror e⟩

/-- The ways in which a C++ function does not return: a glog `CHECK` aborts the
process, the process exits, or the behaviour is undefined. -/
inductive Crash where
  | check (message : String)
  | exit (status : Status)
  | undefined (reason : String)
  deriving DecidableEq, Repr

/-- A call that returns a value or takes the process down. -/
abbrev Cpp (α : Type) := Except Crash α

/-- The exception a server throws for a status that is not a success. -/
structure RpcInvalidOp where
  what : Int
  why : String
  deriving DecidableEq, Repr

/-- `ThriftUtils::check_status` in front of the answer of a handler. -/
def checkStatus {α : Type} (status : Status) (answer : α) : Except RpcInvalidOp α :=
  if status.ok then .ok answer else .error ⟨status.error, status.message⟩

/-- `ThriftUtils::serialize` of one struct. The generated code and `TBinaryProtocol`
are outside the repository. -/
class ThriftSerialize (α : Type) where
  serialize : α → Str

/-- `ThriftUtils::deserialize`, `none` where it returns `false`. -/
class Thrift (α : Type) extends ThriftSerialize α where
  deserialize : Str → Option α

/-- What the servers rely on: reading back what was written gives the same struct. -/
class LawfulThrift (α : Type) [Thrift α] : Prop where
  deserialize_serialize : ∀ a : α, Thrift.deserialize (ThriftSerialize.serialize a) = some a

attribute [simp] LawfulThrift.deserialize_serialize

end Vsfs

import Mathlib.Data.List.TakeWhile
import Vsfs.Common.Basic
import Vsfs.Common.LexicalCast

/-!
# The transaction log

`LogManager<R>` of `vsfs/common/log_manager.h`. Records are kept in arrival order. The
order check of `append` is commented out in the source, so ids may repeat or go back.

A flush writes one message: the length of a serialized buffer in decimal and, with nothing
in between, the buffer.
-/

namespace Vsfs

/-- `uint64_t`; the log only compares transaction ids. -/
abbrev TxnId := Nat

structure LogRecord (R : Type) where
  txnId : TxnId
  record : R
  deriving DecidableEq, Repr

/-- One entry of the buffer that is written to disk. -/
structure LogEntity where
  txnId : TxnId
  data : Str
  deriving DecidableEq, Repr

structure LogBuffer where
  buffer : List LogEntity
  deriving DecidableEq, Repr

structure LogManager (R : Type) where
  log : List (LogRecord R) := []
  logBuffer : LogBuffer := ⟨[]⟩
  lastFlushedTxnId : TxnId := 0
  deriving DecidableEq, Repr

namespace LogManager

variable {R : Type}

/-- The ownership of `record` moves to the log. -/
def append (m : LogManager R) (txnId : TxnId) (record : R) : Status × LogManager R :=
  (.OK, { m with log := m.log ++ [⟨txnId, record⟩] })

/-- Erases the leading records that have an id of at most `txnId`. -/
def erase (m : LogManager R) (txnId : TxnId) : LogManager R :=
  { m with log := m.log.dropWhile (fun r => decide (r.txnId ≤ txnId)) }

/-- The leading records that have an id of at most `txnId`. -/
def scan (m : LogManager R) (txnId : TxnId) : List R :=
  (m.log.takeWhile (fun r => decide (r.txnId ≤ txnId))).map (·.record)

/-- `get_log_buffer_size`: every entity counts its id, eight bytes, and its data. -/
def getLogBufferSize (m : LogManager R) : Nat :=
  (m.logBuffer.buffer.map (fun e => 8 + e.data.length)).sum

/-- The records `flush` has not skipped as flushed already. A last flushed id of zero
stands for "nothing flushed yet". -/
def pending (m : LogManager R) : List (LogRecord R) :=
  if m.lastFlushedTxnId ≠ 0 then
    m.log.dropWhile (fun r => decide (r.txnId ≤ m.lastFlushedTxnId))
  else m.log

section Flush

variable [ThriftSerialize R]

/-- The loop of `flush` that moves records into the buffer until it holds `bytes`. -/
def fill (bytes : Nat) : List (LogRecord R) → List LogEntity → Nat → List LogEntity × Nat
  | [], buffer, existing => (buffer, existing)
  | r :: rs, buffer, existing =>
    let entity : LogEntity := ⟨r.txnId, ThriftSerialize.serialize r.record⟩
    let existing := existing + 8 + entity.data.length
    if bytes ≤ existing then (buffer ++ [entity], existing)
    else fill bytes rs (buffer ++ [entity]) existing

theorem fill_ne_nil {bytes : Nat} {rs : List (LogRecord R)} {buffer : List LogEntity} {n : Nat}
    (h : rs ≠ [] ∨ buffer ≠ []) : (fill bytes rs buffer n).1 ≠ [] := by
  induction rs generalizing buffer n with
  | nil => simpa [fill] using h
  | cons r rs ih =>
    unfold fill
    dsimp only
    split
    · simp
    · exact ih (.inr (by simp))

variable [ThriftSerialize LogBuffer]

/-- `flush(bytes, os, flush_if_not_full)` with the text it writes to the stream.
`buffer.back()` of an empty buffer is undefined. -/
def flush (m : LogManager R) (bytes : Nat) (force : Bool) : Cpp (LogManager R × Str) :=
  let (buffer, existing) := fill bytes m.pending m.logBuffer.buffer m.getLogBufferSize
  if bytes ≤ existing ∨ force then
    match buffer.getLast? with
    | none => .error (.undefined "back() of an empty log buffer")
    | some last =>
      let text : Str := ThriftSerialize.serialize (LogBuffer.mk buffer)
      .ok ({ m with logBuffer := ⟨[]⟩, lastFlushedTxnId := last.txnId },
        (toString text.length).toList ++ text)
  else .ok ({ m with logBuffer := ⟨buffer⟩ }, [])

/-- Flushing never touches the records themselves. -/
theorem log_of_flush {m m' : LogManager R} {bytes : Nat} {force : Bool} {text : Str}
    (h : m.flush bytes force = .ok (m', text)) : m'.log = m.log := by
  unfold flush at h
  dsimp only at h
  split at h
  · split at h <;> cases h
    rfl
  · cases h
    rfl

/-- `flush` is defined when it has something to write, or does not write. -/
theorem flush_defined (m : LogManager R) {bytes : Nat} {force : Bool}
    (h : m.pending ≠ [] ∨ m.logBuffer.buffer ≠ [] ∨ (0 < bytes ∧ force = false)) :
    ∃ m' text, m.flush bytes force = .ok (m', text) := by
  unfold flush
  dsimp only
  split
  · rename_i writes
    split
    · rename_i empty
      have none := List.getLast?_eq_none_iff.mp empty
      have nothing : m.pending = [] ∧ m.logBuffer.buffer = [] := by
        by_contra some
        exact fill_ne_nil (by tauto) none
      obtain ⟨hp, hb⟩ := nothing
      simp only [hp, hb, fill, getLogBufferSize] at writes
      simp_all
    · exact ⟨_, _, rfl⟩
  · exact ⟨_, _, rfl⟩

end Flush

/-! ## Loading -/

/-- `*is >> message_size`: skips spaces, takes an optional sign and all the digits that
follow. `none` where the stream is not good any more: there is no number, it does not fit
`size_t`, or the end of the stream was reached. -/
def readSize (s : Str) : Option (Nat × Str) :=
  let text := s.dropWhile (fun c => c ∈ [' ', '\t', '\n', '\x0b', '\x0c', '\r'])
  let rest := (sign text).2.dropWhile Char.isDigit
  match digitsValue ((sign text).2.takeWhile Char.isDigit) with
  | none => none
  | some n =>
    if rest = [] ∨ 2 ^ 64 ≤ n then none
    else some (if (sign text).1 then (2 ^ 64 - n) % 2 ^ 64 else n, rest)

/-- One turn of the loop of `load` up to `deserialize`: the message, and what follows it in
the stream. `none` where the loop breaks. -/
def readMessage (s : Str) : Option (Str × Str) :=
  match readSize s with
  | none => none
  | some (n, rest) => if rest.length < n then none else some (rest.take n, rest.drop n)

/-- The number takes at least one digit from the stream. -/
theorem length_lt_of_readSize {s rest : Str} {n : Nat} (h : readSize s = some (n, rest)) :
    rest.length < s.length := by
  unfold readSize at h
  dsimp only at h
  split at h
  · cases h
  · rename_i value digits
    split at h
    · cases h
    · cases h
      have some_digit := List.length_pos_iff.mpr (ne_nil_of_digitsValue digits)
      have parts := congrArg List.length (List.takeWhile_append_dropWhile (p := Char.isDigit)
        (l := (sign (s.dropWhile (fun c => c ∈ [' ', '\t', '\n', '\x0b', '\x0c', '\r']))).2))
      rw [List.length_append] at parts
      have signed := length_sign_le
        (s.dropWhile (fun c => c ∈ [' ', '\t', '\n', '\x0b', '\x0c', '\r']))
      have spaces := List.length_dropWhile_le
        (fun c : Char => decide (c ∈ [' ', '\t', '\n', '\x0b', '\x0c', '\r'])) s
      omega

theorem length_lt_of_readMessage {s message rest : Str} (h : readMessage s = some (message, rest)) :
    rest.length < s.length := by
  unfold readMessage at h
  split at h
  · cases h
  · rename_i n body size
    split at h
    · cases h
    · cases h
      have shorter := length_lt_of_readSize size
      rw [List.length_drop]
      omega

variable [Thrift R] [Thrift LogBuffer]

/-- The entity of a message as a record. `parse` may fail, which `load` ignores; `partly`
is what a failed `deserialize` has left in the struct by then. -/
def parse (partly : Str → R) (e : LogEntity) : LogRecord R :=
  ⟨e.txnId, (Thrift.deserialize e.data).getD (partly e.data)⟩

/-- The loop of `load` on the rest of a stream, with the records so far. -/
def loadLoop (partly : Str → R) (s : Str) (log : List (LogRecord R)) :
    Status × List (LogRecord R) :=
  match read : readMessage s with
  | none => (.OK, log)
  | some (message, rest) =>
    have := length_lt_of_readMessage read
    match Thrift.deserialize (α := LogBuffer) message with
    | none => (⟨-1, "Failed to parse log from stream."⟩, log)
    | some buffer => loadLoop partly rest (log ++ buffer.buffer.map (parse partly))
termination_by s.length

/-- `load(is)` on a stream with the text `s`. The records of the manager are dropped first. -/
def load (partly : Str → R) (m : LogManager R) (s : Str) : Status × LogManager R :=
  let (status, log) := loadLoop partly s []
  (status, { m with log := log })

theorem loadLoop_of_none {partly : Str → R} {s : Str} (h : readMessage s = none)
    (log : List (LogRecord R)) : loadLoop partly s log = (.OK, log) := by
  rw [loadLoop]
  split
  · rfl
  · rename_i read
    rw [h] at read
    cases read

theorem loadLoop_of_some {partly : Str → R} {s message rest : Str} {buffer : LogBuffer}
    (h : readMessage s = some (message, rest)) (parsed : Thrift.deserialize message = some buffer)
    (log : List (LogRecord R)) :
    loadLoop partly s log = loadLoop partly rest (log ++ buffer.buffer.map (parse partly)) := by
  rw [loadLoop]
  split
  · rename_i read
    rw [h] at read
    cases read
  · rename_i read
    rw [h] at read
    cases read
    simp only [parsed]

end LogManager

end Vsfs

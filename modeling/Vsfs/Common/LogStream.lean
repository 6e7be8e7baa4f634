import Mathlib.Data.List.Basic
import Vsfs.Common.LogManager
import Vsfs.Lib.Framing
import Vsfs.Rpc.BinaryProtocol

/-!
# What the log leaves in its streams

A run of `append`, `erase` and `flush` on one manager, with the messages its flushes write.
-/

namespace Vsfs.LogManager

variable {R : Type}

/-- One call of a manager. -/
inductive Op (R : Type) where
  | append (txnId : TxnId) (record : R)
  | erase (txnId : TxnId)
  | flush (bytes : Nat) (force : Bool)
  deriving DecidableEq, Repr

section Run

variable [ThriftSerialize R]

/-- The entity `flush` makes of a record. -/
def entity (r : LogRecord R) : LogEntity := ⟨r.txnId, ThriftSerialize.serialize r.record⟩

/-- The bytes the records count for. -/
def bytesOf (rs : List (LogRecord R)) : Nat :=
  (rs.map (fun r => 8 + (entity r).data.length)).sum

/-- The loop of `flush` moves the leading records, at least one of them, and stops early
only once it has `bytes`. -/
theorem fill_spec (bytes : Nat) (rs : List (LogRecord R)) (buffer : List LogEntity) (n : Nat) :
    ∃ front back, rs = front ++ back ∧
      fill bytes rs buffer n = (buffer ++ front.map entity, n + bytesOf front) ∧
      (back = [] ∨ bytes ≤ n + bytesOf front) ∧ (rs ≠ [] → front ≠ []) := by
  induction rs generalizing buffer n with
  | nil => exact ⟨[], [], rfl, by simp [fill, bytesOf], .inl rfl, fun h => (h rfl).elim⟩
  | cons r rs ih =>
    have first : fill bytes (r :: rs) buffer n =
        if bytes ≤ n + 8 + (entity r).data.length then
          (buffer ++ [entity r], n + 8 + (entity r).data.length)
        else fill bytes rs (buffer ++ [entity r]) (n + 8 + (entity r).data.length) := rfl
    by_cases enough : bytes ≤ n + 8 + (entity r).data.length
    · refine ⟨[r], rs, rfl, ?_, .inr ?_, by simp⟩
      · rw [first, if_pos enough]
        simp [bytesOf, Nat.add_assoc]
      · simpa [bytesOf, Nat.add_assoc] using enough
    · obtain ⟨front, back, split, value, stopped, -⟩ :=
        ih (buffer ++ [entity r]) (n + 8 + (entity r).data.length)
      have total : n + 8 + (entity r).data.length + bytesOf front = n + bytesOf (r :: front) := by
        simp [bytesOf, Nat.add_assoc]
      refine ⟨r :: front, back, by simp [split], ?_, ?_, by simp⟩
      · rw [first, if_neg enough, value, total]
        simp
      · rwa [total] at stopped

/-- Every entity holds a serialized record. -/
def Serialized (R : Type) [ThriftSerialize R] (l : List LogEntity) : Prop :=
  ∀ e ∈ l, ∃ r : LogRecord R, e = entity r

theorem serialized_fill {bytes : Nat} {rs : List (LogRecord R)} {buffer : List LogEntity} {n : Nat}
    (h : Serialized R buffer) : Serialized R (fill bytes rs buffer n).1 := by
  obtain ⟨front, back, -, value, -⟩ := fill_spec bytes rs buffer n
  intro e he
  rw [value] at he
  rcases List.mem_append.mp he with he | he
  · exact h e he
  · obtain ⟨r, -, rfl⟩ := List.mem_map.mp he
    exact ⟨r, rfl⟩

variable [ThriftSerialize LogBuffer]

/-- A message in the stream. -/
def frame (b : LogBuffer) : Str :=
  let text : Str := ThriftSerialize.serialize b
  (toString text.length).toList ++ text

/-- The messages a call writes: a flush writes its buffer when it holds `bytes`, or when it
is forced. -/
def Op.messages (m : LogManager R) : Op R → List LogBuffer
  | .flush bytes force =>
    let (buffer, existing) := fill bytes m.pending m.logBuffer.buffer m.getLogBufferSize
    if bytes ≤ existing ∨ force then [⟨buffer⟩] else []
  | _ => []

/-- A call, with the text it writes to the stream. -/
def Op.apply (m : LogManager R) : Op R → Cpp (LogManager R × Str)
  | .append txnId record => .ok ((m.append txnId record).2, [])
  | .erase txnId => .ok (m.erase txnId, [])
  | .flush bytes force => m.flush bytes force

/-- The calls in order: the manager at the end, the text of the stream, and the messages
that were written. -/
def run (m : LogManager R) : List (Op R) → Cpp (LogManager R × Str × List LogBuffer)
  | [] => .ok (m, [], [])
  | op :: ops =>
    match op.apply m with
    | .error e => .error e
    | .ok (m', text) =>
      match run m' ops with
      | .error e => .error e
      | .ok (m'', rest, messages) => .ok (m'', text ++ rest, op.messages m ++ messages)

/-- The text of a call is its messages, each in its frame. -/
theorem text_of_apply {m m' : LogManager R} {op : Op R} {text : Str}
    (h : op.apply m = .ok (m', text)) : text = (op.messages m).flatMap frame := by
  cases op with
  | append | erase =>
    cases h
    rfl
  | flush bytes force =>
    simp only [Op.apply, flush] at h
    unfold Op.messages
    dsimp only
    split at h
    · rename_i writes
      split at h
      · cases h
      · cases h
        simp [if_pos writes, frame]
    · rename_i waits
      cases h
      simp [if_neg waits]

theorem text_of_run {m m' : LogManager R} {ops : List (Op R)} {text : Str}
    {messages : List LogBuffer} (h : run m ops = .ok (m', text, messages)) :
    text = messages.flatMap frame := by
  induction ops generalizing m text messages with
  | nil =>
    cases h
    rfl
  | cons op ops ih =>
    unfold run at h
    split at h
    · cases h
    · rename_i m₁ first step
      split at h
      · cases h
      · rename_i m₂ rest later hr
        cases h
        rw [List.flatMap_append, ← text_of_apply step, ← ih hr]

theorem serialized_apply {m m' : LogManager R} {op : Op R} {text : Str}
    (start : Serialized R m.logBuffer.buffer) (h : op.apply m = .ok (m', text)) :
    Serialized R m'.logBuffer.buffer ∧ ∀ b ∈ op.messages m, Serialized R b.buffer := by
  cases op with
  | append | erase =>
    cases h
    exact ⟨start, by simp [Op.messages]⟩
  | flush bytes force =>
    have filled : Serialized R (fill bytes m.pending m.logBuffer.buffer m.getLogBufferSize).1 :=
      serialized_fill start
    simp only [Op.apply, flush] at h
    unfold Op.messages
    dsimp only
    split at h
    · rename_i writes
      split at h
      · cases h
      · cases h
        refine ⟨by simp [Serialized], fun b hb => ?_⟩
        rw [if_pos writes, List.mem_singleton] at hb
        rw [hb]
        exact filled
    · rename_i waits
      cases h
      exact ⟨filled, by simp [if_neg waits]⟩

theorem serialized_run {m m' : LogManager R} {ops : List (Op R)} {text : Str}
    {messages : List LogBuffer} (start : Serialized R m.logBuffer.buffer)
    (h : run m ops = .ok (m', text, messages)) : ∀ b ∈ messages, Serialized R b.buffer := by
  induction ops generalizing m text messages with
  | nil =>
    cases h
    simp
  | cons op ops ih =>
    unfold run at h
    split at h
    · cases h
    · rename_i m₁ first step
      split at h
      · cases h
      · rename_i m₂ rest later hr
        cases h
        obtain ⟨next, written⟩ := serialized_apply start step
        intro b hb
        rcases List.mem_append.mp hb with hb | hb
        · exact written b hb
        · exact ih next hr b hb

/-! ## Reading one message -/

/-- A serialized buffer starts with a byte that is not a decimal digit, so that the length
in front of it ends there. `TBinaryProtocol` starts it with the type of the list. -/
def Marked : Prop :=
  ∀ b : LogBuffer, ∃ c rest, (ThriftSerialize.serialize b : Str) = c :: rest ∧ c.isDigit = false

end Run

/-- The length of a message as it is read back, from any text that starts with the digits
and goes on with something else. -/
theorem readSize_repr {n : Nat} (small : n < 2 ^ 64) {c : Char} (mark : c.isDigit = false)
    (rest : Str) : readSize (n.repr.toList ++ c :: rest) = some (n, c :: rest) := by
  obtain ⟨d, ds, text, digit⟩ := repr_cases n
  have spaces : (n.repr.toList ++ c :: rest).dropWhile
      (fun c => decide (c ∈ [' ', '\t', '\n', '\x0b', '\x0c', '\r'])) =
        n.repr.toList ++ c :: rest := by
    rw [text]
    exact dropWhile_space (.inl digit) _
  have unsigned : sign (n.repr.toList ++ c :: rest) = (false, n.repr.toList ++ c :: rest) := by
    rw [text]
    exact sign_of_isDigit digit _
  have digits : ∀ d ∈ n.repr.toList, d.isDigit = true := fun d hd => isDigit_of_mem_repr hd
  have taken : (n.repr.toList ++ c :: rest).takeWhile Char.isDigit = n.repr.toList := by
    rw [List.takeWhile_append_of_pos digits, List.takeWhile_cons_of_neg (by simp [mark])]
    simp
  have dropped : (n.repr.toList ++ c :: rest).dropWhile Char.isDigit = c :: rest := by
    rw [List.dropWhile_append_of_pos digits, List.dropWhile_cons_of_neg (by simp [mark])]
  have more : ¬ (c :: rest = [] ∨ 2 ^ 64 ≤ n) := by
    rintro (h | h)
    · cases h
    · omega
  simp only [readSize, spaces, unsigned, taken, dropped, digitsValue_repr, if_neg more]
  rfl

/-- A stream that ends in the digits of a length is not good once they are read. -/
theorem readSize_digits {s : Str} (digits : ∀ d ∈ s, d.isDigit = true) : readSize s = none := by
  cases s with
  | nil => rfl
  | cons d ds =>
    have digit := digits d List.mem_cons_self
    have dropped : (d :: ds).dropWhile Char.isDigit = [] := List.dropWhile_eq_nil_iff.mpr digits
    unfold readSize
    dsimp only
    rw [dropWhile_space (.inl digit), sign_of_isDigit digit, dropped]
    split <;> simp

section Load

variable [Thrift R]

theorem parse_of_serialized [LawfulThrift R] (partly : Str → R) {l : List LogEntity}
    (h : Serialized R l) : (l.map (parse partly)).map entity = l := by
  rw [List.map_map]
  refine (List.map_congr_left fun e he => ?_).trans (List.map_id l)
  obtain ⟨r, rfl⟩ := h e he
  simp [entity, parse]

variable [Thrift LogBuffer]

theorem readMessage_frame (marked : Marked) {b : LogBuffer}
    (small : (ThriftSerialize.serialize b : Str).length < 2 ^ 64) (rest : Str) :
    readMessage (frame b ++ rest) = some (ThriftSerialize.serialize b, rest) := by
  obtain ⟨c, body, text, mark⟩ := marked b
  have size : readSize (frame b ++ rest) =
      some ((ThriftSerialize.serialize b : Str).length, ThriftSerialize.serialize b ++ rest) := by
    have := readSize_repr small mark (body ++ rest)
    rwa [← List.cons_append, ← text, ← List.append_assoc] at this
  have enough : ¬ ((ThriftSerialize.serialize b : Str) ++ rest).length <
      (ThriftSerialize.serialize b : Str).length := by simp
  simp only [readMessage, size, if_neg enough, List.take_left, List.drop_left]

/-- Nothing is read from a message that is cut off, be it in the digits of its length, right
behind them or in its body. -/
theorem readMessage_torn (marked : Marked) {b : LogBuffer}
    (small : (ThriftSerialize.serialize b : Str).length < 2 ^ 64) {p : Str} (cut : p <+: frame b)
    (proper : p ≠ frame b) : readMessage p = none := by
  obtain ⟨c, body, text, mark⟩ := marked b
  let digits : Str := (ThriftSerialize.serialize b : Str).length.repr.toList
  have shape : frame b = digits ++ ThriftSerialize.serialize b := rfl
  have all : ∀ d ∈ digits, d.isDigit = true := fun d hd => isDigit_of_mem_repr hd
  by_cases early : p.length ≤ digits.length
  · have inside : p <+: digits :=
      List.prefix_of_prefix_length_le cut (shape ▸ List.prefix_append _ _) early
    have none := readSize_digits fun d hd => all d (inside.subset hd)
    simp only [readMessage, none]
  · have first : digits <+: p :=
      List.prefix_of_prefix_length_le (shape ▸ List.prefix_append _ _) cut (by omega)
    obtain ⟨q, rfl⟩ := first
    rw [shape] at cut proper
    have inside : q <+: ThriftSerialize.serialize b := (List.prefix_append_right_inj _).mp cut
    have shorter : q.length < (ThriftSerialize.serialize b : Str).length := by
      refine lt_of_le_of_ne inside.length_le fun same => proper ?_
      rw [inside.eq_of_length same]
    cases q with
    | nil => simp at early
    | cons c' q =>
      rw [text] at inside
      obtain ⟨rfl, -⟩ := List.cons_prefix_cons.mp inside
      have size : readSize (digits ++ c' :: q) = _ := readSize_repr small mark q
      simp only [readMessage, size, if_pos shorter]

/-- The loop takes the messages of the stream one by one. -/
theorem loadLoop_frames [LawfulThrift LogBuffer] (marked : Marked) (partly : Str → R)
    {bs : List LogBuffer}
    (small : ∀ b ∈ bs, (ThriftSerialize.serialize b : Str).length < 2 ^ 64) (tail : Str)
    (log : List (LogRecord R)) :
    loadLoop partly (bs.flatMap frame ++ tail) log =
      loadLoop partly tail (log ++ (bs.flatMap (·.buffer)).map (parse partly)) := by
  induction bs generalizing log with
  | nil => simp
  | cons b bs ih =>
    have first := readMessage_frame marked (small b List.mem_cons_self) (bs.flatMap frame ++ tail)
    rw [List.flatMap_cons, List.append_assoc,
      loadLoop_of_some first (LawfulThrift.deserialize_serialize b),
      ih fun b hb => small b (List.mem_cons_of_mem _ hb)]
    simp

/-- Whatever a new manager was told, a prefix of its stream loads without an error, and
gives the records of the messages that lie wholly inside the prefix. -/
theorem load_prefix_of_run [LawfulThrift R] [LawfulThrift LogBuffer] (marked : Marked)
    {ops : List (Op R)} {m : LogManager R} {text : Str} {messages : List LogBuffer}
    (written : run {} ops = .ok (m, text, messages))
    (small : ∀ b ∈ messages, (ThriftSerialize.serialize b : Str).length < 2 ^ 64)
    {p : Str} (cut : p <+: text) (partly : Str → R) (reader : LogManager R) :
    ∃ log, reader.load partly p = (.OK, { reader with log := log }) ∧
      log.map entity = (Framing.whole frame p.length messages).flatMap (·.buffer) := by
  rw [text_of_run written] at cut
  obtain ⟨tail, split, torn⟩ := Framing.prefix_split cut
  let inside := Framing.whole frame p.length messages
  have tailEnds : readMessage tail = none := by
    rcases torn with rfl | ⟨b, hb, cut, proper⟩
    · rfl
    · exact readMessage_torn marked (small b hb) cut proper
  have loaded : loadLoop partly p [] = (.OK, (inside.flatMap (·.buffer)).map (parse partly)) := by
    have fits : ∀ b ∈ inside, (ThriftSerialize.serialize b : Str).length < 2 ^ 64 :=
      fun b hb => small b (Framing.mem_of_mem_whole hb)
    rw [split, loadLoop_frames marked partly fits, loadLoop_of_none tailEnds, List.nil_append]
  have serialized : Serialized R (inside.flatMap (·.buffer)) := by
    intro e he
    obtain ⟨b, hb, he⟩ := List.mem_flatMap.mp he
    exact serialized_run (by simp [Serialized]) written b (Framing.mem_of_mem_whole hb) e he
  exact ⟨_, by rw [load, loaded], parse_of_serialized partly serialized⟩

end Load

section Examples

open Indexd BinaryProtocol

attribute [local instance] recordUpdateListThrift logBufferThrift

theorem marked_logBuffer : Marked := by
  intro b
  exact ⟨_, _, rfl, by decide⟩

/-- Two updates of an index, each written by a flush of its own. -/
def twoFlushes : List (Op RecordUpdateList) :=
  [.append 1 ⟨"/a".toList, "size".toList, [⟨.insert, "k".toList, "1".toList⟩]⟩, .flush 16 false,
    .append 2 ⟨"/a".toList, "size".toList, [⟨.remove, "k".toList, []⟩]⟩, .flush 0 true]

/-- The stream without its last byte holds the first update. -/
theorem load_twoFlushes_cut :
    ∃ m text messages log, run {} twoFlushes = .ok (m, text, messages) ∧
      ({} : LogManager RecordUpdateList).load (fun _ => ⟨[], [], []⟩) text.dropLast =
        (.OK, { log := log }) ∧ log.map (·.txnId) = [1] := by
  obtain ⟨log, loaded, records⟩ := load_prefix_of_run marked_logBuffer
    (rfl : run {} twoFlushes = .ok (_, _, _)) (by decide +kernel)
    (List.dropLast_prefix _) (fun _ => ⟨[], [], []⟩) {}
  refine ⟨_, _, _, log, rfl, loaded, ?_⟩
  have ids := congrArg (List.map (·.txnId)) records
  rw [List.map_map] at ids
  exact ids.trans (by decide +kernel)

end Examples

end Vsfs.LogManager

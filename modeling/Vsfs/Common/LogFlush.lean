import Vsfs.Common.LogStream
import Vsfs.Lib.Transition

/-!
# Each record is flushed once

A flush below its threshold leaves records in the buffer, and the next flush starts again
behind the last id that was written: it moves the same records into the buffer once more.
What is written stays a prefix of what was appended exactly as long as no flush writes on
top of such a buffer, nor writes when there is nothing to write.
-/

namespace Vsfs.LogManager

open Transition

variable {R : Type}

/-- The records of the `append` calls. -/
def appended : List (Op R) → List (LogRecord R)
  | [] => []
  | .append txnId record :: ops => ⟨txnId, record⟩ :: appended ops
  | _ :: ops => appended ops

@[simp] theorem appended_append (ops ops' : List (Op R)) :
    appended (ops ++ ops') = appended ops ++ appended ops' := by
  induction ops with
  | nil => rfl
  | cons op ops ih => cases op <;> simp [appended, ih]

/-- The ids of the calls go up, from one. -/
def Ordered (ops : List (Op R)) : Prop :=
  (appended ops).Pairwise (·.txnId < ·.txnId) ∧ ∀ r ∈ appended ops, 0 < r.txnId

/-- The id of the last record, zero where there is none. -/
def lastId (rs : List (LogRecord R)) : TxnId := (rs.getLast?.map (·.txnId)).getD 0

theorem lastId_lt {front back : List (LogRecord R)}
    (sorted : (front ++ back).Pairwise (·.txnId < ·.txnId))
    (positive : ∀ r ∈ front ++ back, 0 < r.txnId) {r : LogRecord R} (hr : r ∈ back) :
    lastId front < r.txnId := by
  unfold lastId
  cases h : front.getLast? with
  | none => exact positive r (List.mem_append_right _ hr)
  | some last =>
    exact (List.pairwise_append.mp sorted).2.2 last (List.mem_of_getLast? h) r hr

theorem le_lastId {front : List (LogRecord R)} (sorted : front.Pairwise (·.txnId < ·.txnId))
    {r : LogRecord R} (hr : r ∈ front) : r.txnId ≤ lastId front := by
  rcases List.eq_nil_or_concat front with rfl | ⟨init, last, concat⟩
  · cases hr
  · rw [List.concat_eq_append] at concat
    subst concat
    have isLast : lastId (init ++ [last]) = last.txnId := by simp [lastId]
    rw [isLast]
    rcases List.mem_append.mp hr with hr | hr
    · exact Nat.le_of_lt ((List.pairwise_append.mp sorted).2.2 r hr last (by simp))
    · rw [List.mem_singleton.mp hr]

/-- A scan up to a bound leaves the records that are past it. -/
theorem dropWhile_later {t : TxnId} {kept later : List (LogRecord R)}
    (above : ∀ r ∈ later, t < r.txnId) :
    (kept ++ later).dropWhile (fun r => decide (r.txnId ≤ t)) =
      kept.dropWhile (fun r => decide (r.txnId ≤ t)) ++ later := by
  have stays : later.dropWhile (fun r => decide (r.txnId ≤ t)) = later := by
    cases later with
    | nil => rfl
    | cons r rs =>
      have := above r List.mem_cons_self
      exact List.dropWhile_cons_of_neg (by simpa using this)
  rw [List.dropWhile_append, stays]
  split
  · rename_i empty
    rw [List.isEmpty_iff.mp empty, List.nil_append]
  · rfl

section Run

variable [ThriftSerialize R]

/-- The condition on a flush: when it is forced or has `bytes` to write, then no record waits
in the buffer and one waits in the log. -/
def Flushable (m : LogManager R) : Op R → Prop
  | .flush bytes force => force = true ∨ bytes ≤ m.getLogBufferSize + bytesOf m.pending →
      m.logBuffer.buffer = [] ∧ m.pending ≠ []
  | _ => True

/-- A flush reaches its threshold when everything that waits would reach it. -/
theorem fill_reaches_iff (bytes : Nat) (rs : List (LogRecord R)) (buffer : List LogEntity)
    (n : Nat) :
    bytes ≤ (fill bytes rs buffer n).2 ↔ bytes ≤ n + bytesOf rs := by
  obtain ⟨front, back, rfl, value, stopped, -⟩ := fill_spec bytes rs buffer n
  have total : bytesOf (front ++ back) = bytesOf front + bytesOf back := by simp [bytesOf]
  rw [value, total]
  rcases stopped with rfl | reached
  · simp [bytesOf]
  · constructor <;> omega

/-- Appended records differ in their ids. -/
theorem nodup_entities {rs : List (LogRecord R)} (sorted : rs.Pairwise (·.txnId < ·.txnId)) :
    (rs.map entity).Nodup := by
  refine List.pairwise_map.mpr (sorted.imp fun {a b} less same => ?_)
  have ids : a.txnId = b.txnId := congrArg LogEntity.txnId same
  exact absurd ids (Nat.ne_of_lt less)

/-- The calls erase only what is flushed. -/
def Erases (m : LogManager R) : Op R → Prop
  | .erase txnId => txnId ≤ m.lastFlushedTxnId
  | _ => True

/-! ## The invariant -/

/-- The manager after a run that appended `all` and wrote `written`: the records that are
erased, those that are flushed and still kept, and those that wait. A record in the buffer
is one of the waiting ones, and the first of them is in front. -/
structure Holds (all : List (LogRecord R)) (m : LogManager R) (written : List LogEntity)
    (erased kept later : List (LogRecord R)) : Prop where
  all_eq : all = erased ++ kept ++ later
  log_eq : m.log = kept ++ later
  written_eq : written = (erased ++ kept).map entity
  last_eq : m.lastFlushedTxnId = lastId (erased ++ kept)
  staged : m.logBuffer.buffer = [] ∨
    ∃ r rs, later = r :: rs ∧ m.logBuffer.buffer.head? = some (entity r)

section Holds

variable {all : List (LogRecord R)} {m : LogManager R} {written : List LogEntity}
  {erased kept later : List (LogRecord R)}

theorem Holds.later_gt (h : Holds all m written erased kept later)
    (sorted : all.Pairwise (·.txnId < ·.txnId)) (positive : ∀ r ∈ all, 0 < r.txnId)
    {r : LogRecord R} (hr : r ∈ later) : m.lastFlushedTxnId < r.txnId := by
  rw [h.last_eq]
  exact lastId_lt (h.all_eq ▸ sorted) (h.all_eq ▸ positive) hr

theorem Holds.kept_le (h : Holds all m written erased kept later)
    (sorted : all.Pairwise (·.txnId < ·.txnId)) {r : LogRecord R} (hr : r ∈ kept) :
    r.txnId ≤ m.lastFlushedTxnId := by
  rw [h.last_eq]
  have front := (List.pairwise_append.mp (h.all_eq ▸ sorted)).1
  exact le_lastId front (List.mem_append_right _ hr)

/-- A flush starts with the waiting records. -/
theorem Holds.pending_eq (h : Holds all m written erased kept later)
    (sorted : all.Pairwise (·.txnId < ·.txnId)) (positive : ∀ r ∈ all, 0 < r.txnId) :
    m.pending = later := by
  have skips : kept.dropWhile (fun r => decide (r.txnId ≤ m.lastFlushedTxnId)) = [] :=
    List.dropWhile_eq_nil_iff.mpr fun r hr => by simpa using h.kept_le sorted hr
  unfold pending
  split
  · rw [h.log_eq, dropWhile_later fun r hr => h.later_gt sorted positive hr, skips,
      List.nil_append]
  · rename_i zero
    have none : kept = [] := by
      refine List.eq_nil_iff_forall_not_mem.mpr fun r hr => ?_
      have low := h.kept_le sorted hr
      have high := positive r (by simp [h.all_eq, hr])
      rw [not_not.mp zero] at low
      exact absurd (Nat.lt_of_lt_of_le high low) (Nat.lt_irrefl 0)
    rw [h.log_eq, none, List.nil_append]

theorem Holds.append (h : Holds all m written erased kept later) (txnId : TxnId) (record : R) :
    Holds (all ++ [⟨txnId, record⟩]) (m.append txnId record).2 written erased kept
      (later ++ [⟨txnId, record⟩]) where
  all_eq := by simp [h.all_eq]
  log_eq := by simp [LogManager.append, h.log_eq]
  written_eq := h.written_eq
  last_eq := h.last_eq
  staged := h.staged.imp id fun ⟨r, rs, waits, first⟩ =>
    ⟨r, rs ++ [⟨txnId, record⟩], by simp [waits], first⟩

theorem Holds.erase (h : Holds all m written erased kept later)
    (sorted : all.Pairwise (·.txnId < ·.txnId)) (positive : ∀ r ∈ all, 0 < r.txnId) {t : TxnId}
    (flushed : t ≤ m.lastFlushedTxnId) :
    Holds all (m.erase t) written (erased ++ kept.takeWhile (fun r => decide (r.txnId ≤ t)))
      (kept.dropWhile (fun r => decide (r.txnId ≤ t))) later := by
  have same : erased ++ kept.takeWhile (fun r => decide (r.txnId ≤ t)) ++
      kept.dropWhile (fun r => decide (r.txnId ≤ t)) = erased ++ kept := by
    rw [List.append_assoc, List.takeWhile_append_dropWhile]
  refine ⟨?_, ?_, ?_, ?_, h.staged⟩
  · rw [same, h.all_eq]
  · have above : ∀ r ∈ later, t < r.txnId := fun r hr =>
      lt_of_le_of_lt flushed (h.later_gt sorted positive hr)
    simp only [LogManager.erase, h.log_eq, dropWhile_later above]
  · rw [same, h.written_eq]
  · rw [same]
    exact h.last_eq

/-- A flush that waits puts the waiting records into the buffer. -/
theorem Holds.stage (h : Holds all m written erased kept later) :
    Holds all { m with logBuffer := ⟨m.logBuffer.buffer ++ later.map entity⟩ } written erased kept
      later := by
  refine ⟨h.all_eq, h.log_eq, h.written_eq, h.last_eq, ?_⟩
  rcases h.staged with empty | ⟨r, rs, waits, first⟩
  · cases later with
    | nil => exact .inl (by simp [empty])
    | cons r rs => exact .inr ⟨r, rs, rfl, by simp [empty]⟩
  · exact .inr ⟨r, rs, waits, by simp [List.head?_append, first]⟩

/-- A flush with an empty buffer writes the records in front. -/
theorem Holds.write {front back : List (LogRecord R)} (h : Holds all m written erased kept later)
    (waits : later = front ++ back) {last : LogEntity}
    (hlast : (front.map entity).getLast? = some last) :
    Holds all { m with logBuffer := ⟨[]⟩, lastFlushedTxnId := last.txnId }
      (written ++ front.map entity) erased (kept ++ front) back := by
  refine ⟨?_, ?_, ?_, ?_, .inl rfl⟩
  · simp [h.all_eq, waits]
  · simp [h.log_eq, waits]
  · simp [h.written_eq]
  · rw [List.getLast?_map] at hlast
    obtain ⟨r, hr, rfl⟩ := Option.map_eq_some_iff.mp hlast
    simp [lastId, List.getLast?_append, hr, entity]

end Holds

variable [ThriftSerialize LogBuffer]

theorem flush_of_writes (m : LogManager R) {bytes : Nat} {force : Bool}
    (writes : force = true ∨ bytes ≤ m.getLogBufferSize + bytesOf m.pending) :
    ∃ front back, m.pending = front ++ back ∧ (m.pending ≠ [] → front ≠ []) ∧
      (Op.flush bytes force).messages m = [⟨m.logBuffer.buffer ++ front.map entity⟩] ∧
      ((m.logBuffer.buffer ++ front.map entity = [] ∧ ∃ e, m.flush bytes force = .error e) ∨
        ∃ last text, (m.logBuffer.buffer ++ front.map entity).getLast? = some last ∧
          m.flush bytes force =
            .ok ({ m with logBuffer := ⟨[]⟩, lastFlushedTxnId := last.txnId }, text)) := by
  obtain ⟨front, back, split, value, -, moves⟩ :=
    fill_spec bytes m.pending m.logBuffer.buffer m.getLogBufferSize
  have reached : bytes ≤ m.getLogBufferSize + bytesOf front ∨ force = true := by
    rcases writes with forced | enough
    · exact .inr forced
    · rw [← fill_reaches_iff bytes m.pending m.logBuffer.buffer, value] at enough
      exact .inl enough
  refine ⟨front, back, split, moves, ?_, ?_⟩
  · simp only [Op.messages, value, if_pos reached]
  · simp only [flush, value, if_pos reached]
    cases h : (m.logBuffer.buffer ++ front.map entity).getLast? with
    | none => exact .inl ⟨List.getLast?_eq_none_iff.mp h, _, rfl⟩
    | some last => exact .inr ⟨last, _, rfl, rfl⟩

theorem flush_of_waits (m : LogManager R) {bytes : Nat} {force : Bool}
    (waits : ¬ (force = true ∨ bytes ≤ m.getLogBufferSize + bytesOf m.pending)) :
    (Op.flush bytes force).messages m = [] ∧
      m.flush bytes force =
        .ok ({ m with logBuffer := ⟨m.logBuffer.buffer ++ m.pending.map entity⟩ }, []) := by
  obtain ⟨front, back, split, value, stopped, -⟩ :=
    fill_spec bytes m.pending m.logBuffer.buffer m.getLogBufferSize
  have missed : ¬ bytes ≤ m.getLogBufferSize + bytesOf front := by
    intro enough
    refine waits (.inr ?_)
    rw [← fill_reaches_iff bytes m.pending m.logBuffer.buffer, value]
    exact enough
  have every : m.pending = front := by
    rcases stopped with rfl | reached
    · simpa using split
    · exact absurd reached missed
  have both : ¬ (bytes ≤ m.getLogBufferSize + bytesOf front ∨ force = true) := by
    rintro (h | h)
    · exact missed h
    · exact waits (.inl h)
  rw [every] at value
  simp only [Op.messages, flush, every, value, if_neg both, and_self]

/-- What was written so far is the beginning of what was appended, the last flushed id is
the last one written, and no flush met an empty buffer. -/
def FlushedOnce (ops : List (Op R)) : Prop :=
  ∃ m text messages, run {} ops = .ok (m, text, messages) ∧
    messages.flatMap (·.buffer) <+: (appended ops).map entity ∧
    m.lastFlushedTxnId = ((messages.flatMap (·.buffer)).getLast?.map (·.txnId)).getD 0

/-- A call, without the text it writes. -/
def step (m : LogManager R) (op : Op R) : Cpp (LogManager R) := (op.apply m).map Prod.fst

theorem run_step_iff {m m' : LogManager R} {ops : List (Op R)} :
    Transition.run step m ops = .ok m' ↔
      ∃ text messages, LogManager.run m ops = .ok (m', text, messages) := by
  induction ops generalizing m with
  | nil => simp [Transition.run, LogManager.run]
  | cons op ops ih =>
    cases h : op.apply m with
    | error e => simp [Transition.run, LogManager.run, step, h, Except.map]
    | ok p =>
      obtain ⟨m₁, first⟩ := p
      have next : step m op = .ok m₁ := by simp [step, h, Except.map]
      rw [Transition.run_cons_ok next, ih]
      simp only [LogManager.run, h]
      constructor
      · rintro ⟨text, messages, hr⟩
        exact ⟨_, _, by rw [hr]⟩
      · rintro ⟨text, messages, hr⟩
        split at hr
        · cases hr
        · rename_i m₂ rest later hr'
          cases hr
          exact ⟨rest, later, hr'⟩

theorem run_concat (m : LogManager R) (ops : List (Op R)) (op : Op R) :
    run m (ops ++ [op]) =
      match run m ops with
      | .error e => .error e
      | .ok (m', text, messages) =>
        match op.apply m' with
        | .error e => .error e
        | .ok (m'', rest) => .ok (m'', text ++ rest, messages ++ op.messages m') := by
  induction ops generalizing m with
  | nil =>
    simp only [List.nil_append, run]
    cases op.apply m with
    | error e => rfl
    | ok p => simp
  | cons first ops ih =>
    simp only [List.cons_append, run]
    cases first.apply m with
    | error e => rfl
    | ok p =>
      obtain ⟨m', text⟩ := p
      simp only [ih]
      cases run m' ops with
      | error e => rfl
      | ok q =>
        obtain ⟨m₁, rest, messages⟩ := q
        dsimp only
        cases op.apply m₁ with
        | error e => rfl
        | ok p => simp

/-! ## Runs -/

/-- The state a run has reached, as the invariant sees it. -/
def Reached (done : List (Op R)) : Prop :=
  ∃ m text messages erased kept later, run {} done = .ok (m, text, messages) ∧
    Holds (appended done) m (messages.flatMap (·.buffer)) erased kept later

theorem reached_nil : Reached ([] : List (Op R)) :=
  ⟨{}, [], [], [], [], [], rfl, ⟨rfl, rfl, rfl, rfl, .inl rfl⟩⟩

theorem Reached.flushedOnce {done : List (Op R)} (h : Reached done) : FlushedOnce done := by
  obtain ⟨m, text, messages, erased, kept, later, hr, inv⟩ := h
  refine ⟨m, text, messages, hr, ?_, ?_⟩
  · rw [inv.written_eq, inv.all_eq, @List.map_append _ _ _ (erased ++ kept) later]
    exact List.prefix_append _ _
  · rw [inv.written_eq, inv.last_eq, lastId, List.getLast?_map, Option.map_map]
    rfl

/-- One call: the conditions on flushes and erasures keep the invariant. -/
theorem Reached.concat {done : List (Op R)} {op : Op R} (h : Reached done)
    (ordered : Ordered done) (erases : ∀ m, Transition.run step {} done = .ok m → Erases m op)
    (flushable : ∀ m, Transition.run step {} done = .ok m → Flushable m op) :
    Reached (done ++ [op]) := by
  obtain ⟨m, text, messages, erased, kept, later, hr, inv⟩ := h
  obtain ⟨sorted, positive⟩ := ordered
  have state := run_step_iff.mpr ⟨text, messages, hr⟩
  have next := run_concat {} done op
  rw [hr] at next
  cases op with
  | append txnId record =>
    have more : appended (done ++ [.append txnId record]) =
        appended done ++ [⟨txnId, record⟩] := by simp [appended]
    simp only [Op.apply, Op.messages, List.append_nil] at next
    exact ⟨_, _, _, _, _, _, next, more ▸ inv.append txnId record⟩
  | erase t =>
    have same : appended (done ++ [.erase t]) = appended done := by simp [appended]
    have erased := inv.erase sorted positive (erases m state)
    simp only [Op.apply, Op.messages, List.append_nil] at next
    exact ⟨_, _, _, _, _, _, next, same ▸ erased⟩
  | flush bytes force =>
    have waiting := inv.pending_eq sorted positive
    have same : appended (done ++ [.flush bytes force]) = appended done := by simp [appended]
    by_cases writes : force = true ∨ bytes ≤ m.getLogBufferSize + bytesOf m.pending
    · obtain ⟨empty, some_record⟩ := flushable m state writes
      obtain ⟨front, back, split, moves, written, outcome⟩ := flush_of_writes m writes
      rw [empty, List.nil_append] at written outcome
      rcases outcome with ⟨nothing, -⟩ | ⟨last, text', hlast, flushed⟩
      · exact absurd (List.map_eq_nil_iff.mp nothing) (moves some_record)
      · simp only [Op.apply, flushed, written] at next
        have all : (messages ++ [LogBuffer.mk (front.map entity)]).flatMap LogBuffer.buffer =
            messages.flatMap LogBuffer.buffer ++ front.map entity := by simp
        have after := inv.write (waiting ▸ split) hlast
        rw [← all, ← same] at after
        exact ⟨_, _, _, _, _, _, next, after⟩
    · obtain ⟨written, flushed⟩ := flush_of_waits m writes
      simp only [Op.apply, flushed, written, List.append_nil, waiting] at next
      exact ⟨_, _, _, _, _, _, next, same ▸ inv.stage⟩

/-- A flush outside the condition writes a record twice, or has nothing to write. -/
theorem Reached.not_flushedOnce {done : List (Op R)} {op : Op R} (h : Reached done)
    (ordered : Ordered done) {m : LogManager R} (state : Transition.run step {} done = .ok m)
    (violates : ¬ Flushable m op) : ¬ FlushedOnce (done ++ [op]) := by
  obtain ⟨m₀, text, messages, erased, kept, later, hr, inv⟩ := h
  cases state.symm.trans (run_step_iff.mpr ⟨text, messages, hr⟩)
  cases op with
  | append | erase => exact absurd trivial violates
  | flush bytes force =>
    have same : appended (done ++ [.flush bytes force]) = appended done := by simp [appended]
    obtain ⟨sorted, positive⟩ := ordered
    have waiting := inv.pending_eq sorted positive
    simp only [Flushable, Classical.not_imp, not_and_or, not_not] at violates
    obtain ⟨writes, wrong⟩ := violates
    obtain ⟨front, back, split, moves, written, outcome⟩ := flush_of_writes m writes
    rintro ⟨m', text', messages', hr', once, -⟩
    rw [run_concat, hr] at hr'
    rcases outcome with ⟨-, e, failed⟩ | ⟨last, text₁, hlast, flushed⟩
    · simp only [Op.apply, failed] at hr'
      cases hr'
    · simp only [Op.apply, flushed, written] at hr'
      cases hr'
      -- The first waiting record is in the buffer, and is moved there again.
      have buffered : m.logBuffer.buffer ≠ [] := by
        rcases wrong with buffered | nothing
        · exact buffered
        · intro empty
          rw [nothing] at split
          rw [empty, (List.append_eq_nil_iff.mp split.symm).1] at hlast
          cases hlast
      obtain ⟨r, rs, hlater, first⟩ := inv.staged.resolve_left buffered
      have moved := moves (by rw [waiting, hlater]; simp)
      obtain ⟨r', front', rfl⟩ := List.exists_cons_of_ne_nil moved
      rw [waiting, hlater, List.cons_append] at split
      obtain ⟨rfl, -⟩ := List.cons.inj split
      obtain ⟨tail, hbuffer⟩ := List.head?_eq_some_iff.mp first
      have nodup := (nodup_entities sorted).sublist (same ▸ once).sublist
      have twice : (messages ++ [LogBuffer.mk (m.logBuffer.buffer ++
          (r :: front').map entity)]).flatMap LogBuffer.buffer =
            messages.flatMap LogBuffer.buffer ++
            entity r :: (tail ++ entity r :: front'.map entity) := by simp [hbuffer]
      rw [twice] at nodup
      exact (List.nodup_cons.mp (List.nodup_append.mp nodup).2.1).1 (by simp)

/-- In a run of calls that number their records from one up and erase only what is flushed,
every record is flushed once, from the first call to the last, exactly when every flush that
is forced, or has enough to write, finds an empty buffer and a record that waits. -/
theorem flushedOnce_iff {ops : List (Op R)} (ordered : Ordered ops)
    (erases : Meets step Erases {} ops) :
    (∀ done rest, done ++ rest = ops → FlushedOnce done) ↔ Meets step Flushable {} ops := by
  rw [meets_iff_along] at erases
  rw [meets_iff_along]
  have before {done rest : List (Op R)} (split : done ++ rest = ops) : Ordered done := by
    obtain ⟨sorted, positive⟩ := ordered
    rw [← split, appended_append] at sorted positive
    exact ⟨(List.pairwise_append.mp sorted).1, fun r hr => positive r (List.mem_append_left _ hr)⟩
  have along :
      Along (fun done op => ∀ m, Transition.run step {} done = .ok m → Flushable m op) ops ↔
      Along (fun done op => FlushedOnce (done ++ [op])) ops := by
    refine Along.iff_of_invariant reached_nil ?_ ?_
    · intro done op rest split reached
      constructor
      · intro flushable
        exact (reached.concat (before split) (erases done op rest split) flushable).flushedOnce
      · intro once m state
        by_contra violates
        exact reached.not_flushedOnce (before split) state violates once
    · intro done op rest split reached flushable
      exact reached.concat (before split) (erases done op rest split) flushable
  rw [along]
  constructor
  · intro always done op rest split
    exact always (done ++ [op]) rest (by simpa using split)
  · intro each done rest split
    rcases List.eq_nil_or_concat done with rfl | ⟨init, op, concat⟩
    · exact reached_nil.flushedOnce
    · rw [List.concat_eq_append] at concat
      subst concat
      exact each init op rest (by simpa using split)

end Run

section Examples

open Indexd BinaryProtocol

attribute [local instance] recordUpdateListThrift logBufferThrift

instance (m : LogManager RecordUpdateList) (op : Op RecordUpdateList) :
    Decidable (Flushable m op) :=
  match op with
  | .flush bytes force => inferInstanceAs (Decidable (force = true ∨
      bytes ≤ m.getLogBufferSize + bytesOf m.pending → m.logBuffer.buffer = [] ∧ m.pending ≠ []))
  | .append _ _ => .isTrue trivial
  | .erase _ => .isTrue trivial

instance (m : LogManager RecordUpdateList) (op : Op RecordUpdateList) : Decidable (Erases m op) :=
  match op with
  | .erase txnId => inferInstanceAs (Decidable (txnId ≤ m.lastFlushedTxnId))
  | .append _ _ => .isTrue trivial
  | .flush _ _ => .isTrue trivial

instance (ops : List (Op RecordUpdateList)) : Decidable (Ordered ops) :=
  inferInstanceAs (Decidable (_ ∧ _))

theorem flushedOnce_twoFlushes : FlushedOnce twoFlushes := by
  have ordered : Ordered twoFlushes := by decide +kernel
  have flushable : Meets step Flushable {} twoFlushes := by decide +kernel
  exact (flushedOnce_iff ordered (by decide +kernel)).mpr flushable twoFlushes [] (by simp)

/-- A record that waits for more, and a forced flush. -/
def flushBelowThreshold : List (Op RecordUpdateList) :=
  [.append 1 ⟨"/a".toList, "size".toList, [⟨.insert, "k".toList, "1".toList⟩]⟩,
    .flush 4096 false, .flush 4096 true]

/-- The record is written twice. -/
theorem flushBelowThreshold_twice :
    Ordered flushBelowThreshold ∧ Meets step Erases {} flushBelowThreshold ∧
      ¬ FlushedOnce flushBelowThreshold := by
  refine ⟨by decide +kernel, by decide +kernel, ?_⟩
  rintro ⟨m, text, messages, hr, once, -⟩
  have two : (run {} flushBelowThreshold).toOption.map
      (fun r => (r.2.2.flatMap (·.buffer)).length) = some 2 := by decide +kernel
  simp only [hr, Except.toOption, Option.map_some, Option.some.injEq] at two
  have one : ((appended flushBelowThreshold).map entity).length = 1 := rfl
  have := once.length_le
  omega

end Examples

end Vsfs.LogManager

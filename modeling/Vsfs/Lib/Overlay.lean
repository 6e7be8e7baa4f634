import Mathlib.Algebra.Group.Defs
import Mathlib.Data.List.Basic
import Mathlib.Data.List.GetD

/-!
# Writing at an offset

A write lays its data over a list from an offset on. A write behind the end fills the gap with
zeros, and a write of nothing leaves the list alone. Several writes at one offset lie over each
other: at every position the last one that reaches it is what is seen.
-/

namespace Overlay

variable {α : Type*} [Zero α]

/-- The list up to the offset, with zeros in the gap. -/
def front (content : List α) (off : Nat) : List α :=
  content.take off ++ List.replicate (off - content.length) 0

/-- The list after `data` was written at `off`. -/
def write (content : List α) (off : Nat) (data : List α) : List α :=
  if data.isEmpty then content
  else front content off ++ data ++ content.drop (off + data.length)

/-- Several writes at the same offset, one after the other. -/
def writeAll (content : List α) (off : Nat) (layers : List (List α)) : List α :=
  layers.foldl (fun content data => write content off data) content

/-- What the last of the layers that are longer than `j` has there. -/
def uppermost (layers : List (List α)) (j : Nat) : Option α :=
  layers.reverse.findSome? fun data => data[j]?

variable {content data : List α} {layers : List (List α)} {off i j : Nat} {a : α}

@[simp] theorem write_nil (content : List α) (off : Nat) : write content off [] = content := rfl

@[simp] theorem length_front (content : List α) (off : Nat) :
    (front content off).length = off := by
  simp only [front, List.length_append, List.length_take, List.length_replicate]
  omega

theorem getElem?_front (content : List α) (before : i < off) :
    (front content off)[i]? = some (content[i]?.getD 0) := by
  unfold front
  by_cases inside : i < content.length
  · rw [List.getElem?_append_left (by simp; omega), List.getElem?_take_of_lt before]
    simp [inside]
  · rw [List.getElem?_append_right (by simp; omega), List.getElem?_replicate_of_lt (by simp; omega)]
    simp [inside]

theorem writeAll_cons (content data : List α) (layers : List (List α)) (off : Nat) :
    writeAll content off (data :: layers) = writeAll (write content off data) off layers := rfl

/-- In front of the offset nothing changes, except for the gap. -/
theorem getElem?_write_of_lt (content data : List α) (before : i < off) :
    (write content off data)[i]? =
      if data.isEmpty then content[i]? else some (content[i]?.getD 0) := by
  unfold write
  split
  · rfl
  · rw [List.append_assoc, List.getElem?_append_left (by simpa using before)]
    exact getElem?_front content before

/-- From the offset on the data is seen, and behind it what was there. -/
theorem getElem?_write_of_le (content data : List α) (behind : off ≤ i) :
    (write content off data)[i]? = data[i - off]?.or content[i]? := by
  unfold write
  split
  · next empty =>
    rw [List.isEmpty_iff.mp empty]
    rfl
  · rw [List.append_assoc, List.getElem?_append_right (by simpa using behind), length_front]
    by_cases inside : i - off < data.length
    · rw [List.getElem?_append_left inside, List.getElem?_eq_getElem inside]
      rfl
    · have shift : off + data.length + (i - off - data.length) = i := by omega
      rw [List.getElem?_append_right (by omega), List.getElem?_drop, shift,
        List.getElem?_eq_none (Nat.le_of_not_lt inside)]
      rfl

omit [Zero α] in
theorem uppermost_cons (data : List α) (layers : List (List α)) (j : Nat) :
    uppermost (data :: layers) j = (uppermost layers j).or data[j]? := by
  unfold uppermost
  rw [List.reverse_cons, List.findSome?_append]
  simp

theorem getElem?_writeAll_of_lt (content : List α) (layers : List (List α)) (before : i < off) :
    (writeAll content off layers)[i]? =
      if layers.flatten.isEmpty then content[i]? else some (content[i]?.getD 0) := by
  induction layers generalizing content with
  | nil => rfl
  | cons data layers ih =>
    rw [writeAll_cons, ih, getElem?_write_of_lt content data before, List.flatten_cons]
    cases data <;> cases layers.flatten <;> rfl

theorem getElem?_writeAll_of_le (content : List α) (layers : List (List α)) (behind : off ≤ i) :
    (writeAll content off layers)[i]? = (uppermost layers (i - off)).or content[i]? := by
  induction layers generalizing content with
  | nil => rfl
  | cons data layers ih =>
    rw [writeAll_cons, ih, getElem?_write_of_le content data behind, uppermost_cons,
      Option.or_assoc]

omit [Zero α] in
/-- Nothing is seen behind the longest layer. -/
theorem uppermost_eq_none (short : ∀ data ∈ layers, data.length ≤ j) :
    uppermost layers j = none := by
  simp only [uppermost, List.findSome?_eq_none_iff, List.mem_reverse]
  intro data here
  exact List.getElem?_eq_none (short data here)

omit [Zero α] in
theorem length_le_flatten (here : data ∈ layers) : data.length ≤ layers.flatten.length :=
  (List.sublist_flatten_of_mem here).length_le

/-- Writes at one offset amount to one write of them all in a row just when they show at every
position what the row has there. -/
theorem writeAll_eq_write_flatten_iff (content : List α) (off : Nat) (layers : List (List α)) :
    writeAll content off layers = write content off layers.flatten ↔
      ∀ j a, layers.flatten[j]? = some a →
        (uppermost layers j).or content[off + j]? = some a := by
  constructor
  · intro same j a seen
    have here : (writeAll content off layers)[off + j]? =
        (write content off layers.flatten)[off + j]? := by rw [same]
    rw [getElem?_writeAll_of_le content layers (Nat.le_add_right off j),
      getElem?_write_of_le content _ (Nat.le_add_right off j), Nat.add_sub_cancel_left,
      seen] at here
    exact here
  · intro shown
    apply List.ext_getElem?
    intro i
    by_cases before : i < off
    · rw [getElem?_writeAll_of_lt content layers before, getElem?_write_of_lt content _ before]
    · have behind : off ≤ i := Nat.le_of_not_lt before
      have back : off + (i - off) = i := Nat.add_sub_cancel' behind
      rw [getElem?_writeAll_of_le content layers behind, getElem?_write_of_le content _ behind]
      cases seen : layers.flatten[i - off]? with
      | some a =>
        have there := shown (i - off) a seen
        rw [back] at there
        exact there
      | none =>
        have short : layers.flatten.length ≤ i - off := List.getElem?_eq_none_iff.mp seen
        rw [uppermost_eq_none fun data here => Nat.le_trans (length_le_flatten here) short]

/-! ## Layers that do and do not lie over each other -/

theorem writeAll_filter (content : List α) (off : Nat) (layers : List (List α)) :
    writeAll content off (layers.filter (!·.isEmpty)) = writeAll content off layers := by
  induction layers generalizing content with
  | nil => rfl
  | cons data layers ih =>
    cases data with
    | nil => exact ih content
    | cons a data => exact ih (write content off (a :: data))

omit [Zero α] in
theorem flatten_filter (layers : List (List α)) :
    (layers.filter (!·.isEmpty)).flatten = layers.flatten := by
  induction layers with
  | nil => rfl
  | cons data layers ih =>
    cases data with
    | nil => exact ih
    | cons a data => exact congrArg ((a :: data) ++ ·) ih

/-- A single layer with something in it is a write of the row. -/
theorem writeAll_eq_of_lone (content : List α) (off : Nat)
    (lone : (layers.filter (!·.isEmpty)).length ≤ 1) :
    writeAll content off layers = write content off layers.flatten := by
  rw [← writeAll_filter, ← flatten_filter layers]
  generalize layers.filter (!·.isEmpty) = full at lone
  match full, lone with
  | [], _ => rfl
  | [data], _ =>
    rw [List.flatten_singleton]
    rfl

omit [Zero α] in
theorem filter_cons_cons (a : α) (data : List α) (layers : List (List α)) :
    ((a :: data) :: layers).filter (!·.isEmpty) =
      (a :: data) :: layers.filter (!·.isEmpty) := rfl

omit [Zero α] in
theorem length_filter_le_flatten (layers : List (List α)) :
    (layers.filter (!·.isEmpty)).length ≤ layers.flatten.length := by
  induction layers with
  | nil => exact Nat.le_refl 0
  | cons data layers ih =>
    cases data with
    | nil => exact ih
    | cons a data =>
      rw [filter_cons_cons, List.length_cons, List.flatten_cons, List.length_append,
        List.length_cons]
      omega

omit [Zero α] in
/-- Of two layers with something in them none is as long as the row. -/
theorem length_lt_flatten (two : 2 ≤ (layers.filter (!·.isEmpty)).length) (here : data ∈ layers) :
    data.length < layers.flatten.length := by
  induction layers with
  | nil => cases here
  | cons first layers ih =>
    have rest := length_filter_le_flatten layers
    cases first with
    | nil =>
      have more : 2 ≤ (layers.filter (!·.isEmpty)).length := two
      rcases List.mem_cons.mp here with rfl | here
      · exact Nat.lt_of_lt_of_le Nat.two_pos (Nat.le_trans more rest)
      · exact ih more here
    | cons a first =>
      rw [filter_cons_cons, List.length_cons] at two
      rw [List.flatten_cons, List.length_append]
      rcases List.mem_cons.mp here with rfl | here
      · omega
      · have := length_le_flatten here
        rw [List.length_cons]
        omega

/-- Two layers with something in them do not reach the end of the row. -/
theorem writeAll_ne_of_two (two : 2 ≤ (layers.filter (!·.isEmpty)).length)
    (short : content.length < off + layers.flatten.length) :
    writeAll content off layers ≠ write content off layers.flatten := by
  intro same
  have some' : 0 < layers.flatten.length := by
    match layers, two with
    | data :: layers, two =>
      have := length_lt_flatten two List.mem_cons_self
      omega
  have last : layers.flatten.length - 1 < layers.flatten.length := Nat.sub_one_lt_of_lt some'
  have shown := (writeAll_eq_write_flatten_iff content off layers).mp same _ _
    (List.getElem?_eq_getElem last)
  have hidden : uppermost layers (layers.flatten.length - 1) = none :=
    uppermost_eq_none fun data here => Nat.le_sub_one_of_lt (length_lt_flatten two here)
  rw [hidden, List.getElem?_eq_none (by omega)] at shown
  cases shown

end Overlay

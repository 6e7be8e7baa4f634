import Mathlib.Data.Set.Card
import Vsfs.Lib.Traversal
import Vsfs.Lib.UnorderedMap

/-!
# The hash map of the namespaces

`MTHashMap` spreads its elements over an array of hash maps by the hash of the key. Its
iterator is the number of a bucket with a position in it, and walks the buckets in order.
-/

namespace Vsfs.Masterd

open Traversal UnorderedMap

variable {Key T : Type} {Size : Nat}

/-- The buckets. A mutex guards each, so that a call on one key is atomic. -/
structure MTHashMap (Key T : Type) (Size : Nat) where
  buckets : Vector (UnorderedMap Key T) Size

namespace MTHashMap

structure Iterator where
  bucketIdx : Nat
  iter : Nat
deriving DecidableEq, Repr

def Iterator.equal (it rhs : Iterator) : Bool :=
  it.bucketIdx == rhs.bucketIdx && it.iter == rhs.iter

@[simp] theorem Iterator.equal_iff (it rhs : Iterator) : it.equal rhs = true ↔ it = rhs := by
  cases it
  cases rhs
  simp [Iterator.equal]

def bucket (m : MTHashMap Key T Size) (i : Fin Size) : UnorderedMap Key T := m.buckets[i]

def setBucket (m : MTHashMap Key T Size) (i : Fin Size) (b : UnorderedMap Key T) :
    MTHashMap Key T Size :=
  ⟨m.buckets.set i b⟩

theorem bucket_setBucket (m : MTHashMap Key T Size) (i j : Fin Size) (b : UnorderedMap Key T) :
    (m.setBucket i b).bucket j = if i = j then b else m.bucket j := by
  simp [setBucket, bucket, Vector.getElem_set, Fin.ext_iff]

/-- The map of the default constructor. -/
def new : MTHashMap Key T Size := ⟨Vector.replicate Size ∅⟩

def empty (m : MTHashMap Key T Size) : Bool := m.buckets.toList.all (·.entries.isEmpty)

def size (m : MTHashMap Key T Size) : Nat :=
  m.buckets.toList.foldl (fun total b => total + b.entries.length) 0

def clear (_ : MTHashMap Key T Size) : MTHashMap Key T Size := ⟨Vector.replicate Size ∅⟩

/-- The loop over empty buckets that `begin` and `increment` share: the first bucket from `i` on
that holds an element, and the number of the buckets if none does. -/
def skipEmpty (m : MTHashMap Key T Size) (i : Nat) : Nat :=
  if inside : i < Size then
    if (m.bucket ⟨i, inside⟩).entries.isEmpty then skipEmpty m (i + 1) else i
  else i
termination_by Size - i

section Iteration

variable [NeZero Size]

def endIter (m : MTHashMap Key T Size) : Iterator := ⟨Size, m.buckets.back.entries.length⟩

def beginIter (m : MTHashMap Key T Size) : Iterator :=
  let i := m.skipEmpty 0
  if i < Size then ⟨i, 0⟩ else m.endIter

def increment (m : MTHashMap Key T Size) (it : Iterator) : Iterator :=
  if inside : it.bucketIdx < Size then
    let iter := it.iter + 1
    if iter = (m.bucket ⟨it.bucketIdx, inside⟩).entries.length then
      let i := m.skipEmpty (it.bucketIdx + 1)
      if i < Size then ⟨i, 0⟩ else ⟨i, m.buckets.back.entries.length⟩
    else ⟨it.bucketIdx, iter⟩
  else it

/-- The element under the iterator, and `none` where the source must not look. -/
def dereference (m : MTHashMap Key T Size) (it : Iterator) : Option (Element Key T) :=
  if inside : it.bucketIdx < Size then (m.bucket ⟨it.bucketIdx, inside⟩).entries[it.iter]? else none

end Iteration

section Operations

variable (hash : Key → Nat)

def bucketIdx (Size : Nat) [NeZero Size] (key : Key) : Fin Size :=
  ⟨hash key % Size, Nat.mod_lt _ (NeZero.pos Size)⟩

variable [NeZero Size] [DecidableEq Key]

/-- The value of the key, and `none` for an `out_of_range`. -/
def atKey (m : MTHashMap Key T Size) (key : Key) : Option T :=
  (m.bucket (bucketIdx hash Size key)).lookup key

def index [Inhabited T] (layout : Layout Key T) (m : MTHashMap Key T Size) (key : Key)
    (write : T → T) : MTHashMap Key T Size :=
  let idx := bucketIdx hash Size key
  m.setBucket idx (UnorderedMap.index layout (m.bucket idx) key write)

def insert (layout : Layout Key T) (m : MTHashMap Key T Size) (key : Key) (value : T) :
    MTHashMap Key T Size × Iterator × Bool :=
  let idx := bucketIdx hash Size key
  let res := UnorderedMap.insert layout (m.bucket idx) key value
  (m.setBucket idx res.1, ⟨idx, res.2.1⟩, res.2.2)

def erase (m : MTHashMap Key T Size) (key : Key) : MTHashMap Key T Size × Nat :=
  let idx := bucketIdx hash Size key
  let res := UnorderedMap.erase (m.bucket idx) key
  (m.setBucket idx res.1, res.2)

def find (m : MTHashMap Key T Size) (key : Key) : Iterator :=
  let idx := bucketIdx hash Size key
  let iter := UnorderedMap.find (m.bucket idx) key
  if iter = (m.bucket idx).entries.length then m.endIter else ⟨idx, iter⟩

def equal [DecidableEq T] (m rhs : MTHashMap Key T Size) : Bool :=
  (List.finRange Size).all (fun i => UnorderedMap.equal (m.bucket i) (rhs.bucket i))

end Operations

section Elements

/-- The elements, bucket by bucket. -/
def elements (m : MTHashMap Key T Size) : List (Element Key T) :=
  (List.finRange Size).flatMap (fun i => (m.bucket i).entries)

theorem toList_buckets (m : MTHashMap Key T Size) :
    m.buckets.toList = (List.finRange Size).map m.bucket := by
  refine List.ext_getElem (by simp) (fun i inside _ => ?_)
  simp [bucket]

theorem size_eq_length (m : MTHashMap Key T Size) : m.size = m.elements.length := by
  simp [size, elements, toList_buckets, List.length_flatMap, List.foldl_map, List.sum_eq_foldl]

theorem empty_iff_elements (m : MTHashMap Key T Size) : m.empty = true ↔ m.elements = [] := by
  simp [empty, elements, toList_buckets, List.flatMap_eq_nil_iff]

theorem skipEmpty_le (m : MTHashMap Key T Size) {i : Nat} (le : i ≤ Size) :
    m.skipEmpty i ≤ Size := by
  fun_induction skipEmpty m i with
  | case1 i inside none ih => exact ih inside
  | case2 i inside some => exact le
  | case3 i outside => exact le

variable [NeZero Size]

/-- Where an iterator goes on that has left the buckets before `i`. -/
def enter (m : MTHashMap Key T Size) (i : Nat) : Iterator :=
  let j := m.skipEmpty i
  if j < Size then ⟨j, 0⟩ else ⟨j, m.buckets.back.entries.length⟩

theorem enter_of_empty (m : MTHashMap Key T Size) {i : Nat} (inside : i < Size)
    (none : (m.bucket ⟨i, inside⟩).entries = []) : m.enter i = m.enter (i + 1) := by
  have skipped : m.skipEmpty i = m.skipEmpty (i + 1) := by
    rw [skipEmpty]
    simp [inside, none]
  simp only [enter, skipped]

theorem enter_of_ne (m : MTHashMap Key T Size) {i : Nat} (inside : i < Size)
    (some : (m.bucket ⟨i, inside⟩).entries ≠ []) : m.enter i = ⟨i, 0⟩ := by
  have stays : m.skipEmpty i = i := by
    rw [skipEmpty]
    simp [inside, some]
  simp only [enter, stays, if_pos inside]

theorem enter_size (m : MTHashMap Key T Size) : m.enter Size = m.endIter := by
  have stays : m.skipEmpty Size = Size := by
    rw [skipEmpty]
    simp
  simp [enter, stays, endIter]

theorem beginIter_eq (m : MTHashMap Key T Size) : m.beginIter = m.enter 0 := by
  have le := m.skipEmpty_le (Nat.zero_le Size)
  simp only [beginIter, enter, endIter]
  split
  · rfl
  · next past => rw [le_antisymm le (Nat.le_of_not_lt past)]

/-- From a position in a bucket the iterator reads the rest of the bucket. -/
theorem walks_bucket (m : MTHashMap Key T Size) {i : Nat} (inside : i < Size) {j : Nat}
    (within : j < (m.bucket ⟨i, inside⟩).entries.length) :
    Walks m.dereference m.increment ⟨i, j⟩ ((m.bucket ⟨i, inside⟩).entries.drop j)
      (m.enter (i + 1)) := by
  induction rest : (m.bucket ⟨i, inside⟩).entries.length - j generalizing j with
  | zero => omega
  | succ n ih =>
    rw [List.drop_eq_getElem_cons within]
    refine .step ?_ ?_
    · simp [dereference, inside, within]
    · by_cases last : j + 1 = (m.bucket ⟨i, inside⟩).entries.length
      · have moved : m.increment ⟨i, j⟩ = m.enter (i + 1) := by
          simp [increment, inside, last, enter]
        rw [moved, last, List.drop_length]
        exact .done _
      · have moved : m.increment ⟨i, j⟩ = ⟨i, j + 1⟩ := by
          simp [increment, inside, last]
        rw [moved]
        exact ih (by omega) (by omega)

/-- On entering the buckets from `i` on, the iterator reads all of them up to the end. -/
theorem walks_enter (m : MTHashMap Key T Size) {i : Nat} (le : i ≤ Size) :
    Walks m.dereference m.increment (m.enter i)
      (((List.finRange Size).drop i).flatMap (fun i => (m.bucket i).entries)) m.endIter := by
  induction rest : Size - i generalizing i with
  | zero =>
    have past : i = Size := by omega
    subst past
    have none : (List.finRange i).drop i = [] := List.drop_eq_nil_of_le (by simp)
    rw [enter_size, none]
    exact .done _
  | succ n ih =>
    have inside : i < Size := by omega
    have later := ih (i := i + 1) inside (by omega)
    have first : (List.finRange Size).drop i =
        ⟨i, inside⟩ :: (List.finRange Size).drop (i + 1) := by
      rw [List.drop_eq_getElem_cons (by simpa using inside), List.getElem_finRange]
      rfl
    rw [first, List.flatMap_cons]
    by_cases none : (m.bucket ⟨i, inside⟩).entries = []
    · rw [enter_of_empty m inside none, none]
      exact later
    · have walk := m.walks_bucket inside (List.length_pos_iff.mpr none)
      rw [enter_of_ne m inside none]
      exact walk.append later

/-- The iteration from `begin` reads the elements in order and stops at `end`. -/
theorem walks_elements (m : MTHashMap Key T Size) :
    Walks m.dereference m.increment m.beginIter m.elements m.endIter := by
  have walk := m.walks_enter (Nat.zero_le Size)
  rwa [← beginIter_eq, List.drop_zero] at walk

theorem increment_endIter (m : MTHashMap Key T Size) : m.increment m.endIter = m.endIter := by
  simp [increment, endIter]

theorem dereference_endIter (m : MTHashMap Key T Size) : m.dereference m.endIter = none := by
  simp [dereference, endIter]

end Elements

section Calls

/-- The calls that change a map. One that may add an element comes with the order in which it
leaves the bucket, and a subscript with what is written through its reference. -/
inductive Call (Key T : Type) where
  | insert (layout : Layout Key T) (key : Key) (value : T)
  | index (layout : Layout Key T) (key : Key) (write : T → T)
  | erase (key : Key)
  | clear

variable (hash : Key → Nat) [NeZero Size] [DecidableEq Key] [Inhabited T]

def apply (m : MTHashMap Key T Size) : Call Key T → MTHashMap Key T Size
  | .insert layout key value => (m.insert hash layout key value).1
  | .index layout key write => m.index hash layout key write
  | .erase key => (m.erase hash key).1
  | .clear => m.clear

def run (calls : List (Call Key T)) : MTHashMap Key T Size := calls.foldl (apply hash) new

/-- What a call does to a finite map. -/
def Call.applyTo (c : Key → Option T) : Call Key T → Key → Option T
  | .insert _ key value => Function.update c key (some ((c key).getD value))
  | .index _ key write => Function.update c key (some (write ((c key).getD default)))
  | .erase key => Function.update c key none
  | .clear => fun _ => none

def contents (calls : List (Call Key T)) : Key → Option T :=
  calls.foldl Call.applyTo (fun _ => none)

end Calls

section Observations

variable (hash : Key → Nat) [NeZero Size] [DecidableEq Key]

/-- What an observer of the map sees of the finite map `c`. -/
structure Represents (m : MTHashMap Key T Size) (c : Key → Option T) : Prop where
  placed : ∀ i : Fin Size, ∀ e ∈ (m.bucket i).entries, hash e.1 % Size = i
  atKey_eq : ∀ key, m.atKey hash key = c key
  find_present : ∀ key value, c key = some value →
    (m.find hash key).equal m.endIter = false ∧
    m.dereference (m.find hash key) = some ⟨key, value⟩
  find_absent : ∀ key, c key = none → (m.find hash key).equal m.endIter = true
  finite : {key | c key ≠ none}.Finite
  size_eq : m.size = {key | c key ≠ none}.ncard
  empty_iff : m.empty = true ↔ ∀ key, c key = none
  reaches_end : ∀ n, (m.increment^[n] m.beginIter).equal m.endIter = true ↔ m.size ≤ n
  visits_only : ∀ n < m.size, ∃ key value, c key = some value ∧
    m.dereference (m.increment^[n] m.beginIter) = some ⟨key, value⟩
  visits_once : ∀ key value, c key = some value →
    ∃! n, n < m.size ∧ m.dereference (m.increment^[n] m.beginIter) = some ⟨key, value⟩

/-- Every element is in the bucket of its key, and the buckets hold the finite map. -/
structure Holds (m : MTHashMap Key T Size) (c : Key → Option T) : Prop where
  placed : ∀ i : Fin Size, ∀ e ∈ (m.bucket i).entries, bucketIdx hash Size e.1 = i
  lookup_eq : ∀ key, (m.bucket (bucketIdx hash Size key)).lookup key = c key

variable {hash} {m : MTHashMap Key T Size} {c : Key → Option T}

theorem holds_new : Holds hash (new : MTHashMap Key T Size) (fun _ => none) := by
  constructor
  · intro i e mem
    simp [new, bucket] at mem
  · intro key
    simp [new, bucket]

theorem Holds.lookup_of_ne (holds : Holds hash m c) {i : Fin Size} {key : Key}
    (other : bucketIdx hash Size key ≠ i) : (m.bucket i).lookup key = none := by
  by_contra present
  obtain ⟨value, there⟩ := Option.ne_none_iff_exists'.mp present
  exact other (holds.placed i ⟨key, value⟩ ((mem_entries_iff _ _).mpr there))

/-- A call on one key replaces the bucket of that key, and changes the key in it alone. -/
theorem Holds.setBucket (holds : Holds hash m c) {key : Key} {b : UnorderedMap Key T}
    {v : Option T}
    (changed : ∀ k, b.lookup k =
      if k = key then v else (m.bucket (bucketIdx hash Size key)).lookup k) :
    Holds hash (m.setBucket (bucketIdx hash Size key) b) (Function.update c key v) := by
  constructor
  · intro i e mem
    rw [bucket_setBucket] at mem
    split at mem
    · next here =>
      have there := (mem_entries_iff _ e).mp mem
      rw [changed] at there
      split at there
      · next same => rw [same, here]
      · exact here ▸ holds.placed _ e ((mem_entries_iff _ e).mpr there)
    · exact holds.placed i e mem
  · intro k
    rw [bucket_setBucket]
    by_cases same : k = key
    · subst same
      rw [if_pos rfl, changed, if_pos rfl, Function.update_self]
    · rw [Function.update_of_ne same, ← holds.lookup_eq k]
      split
      · next here => rw [changed, if_neg same, here]
      · rfl

theorem Holds.apply [Inhabited T] (holds : Holds hash m c) (call : Call Key T) :
    Holds hash (m.apply hash call) (call.applyTo c) := by
  cases call with
  | insert layout key value =>
    refine holds.setBucket (fun k => ?_)
    rw [← holds.lookup_eq key]
    exact lookup_insert layout _ key value k
  | index layout key write =>
    refine holds.setBucket (fun k => ?_)
    rw [← holds.lookup_eq key]
    exact lookup_index layout _ key write k
  | erase key => exact holds.setBucket (fun k => lookup_erase _ key k)
  | clear => exact holds_new

theorem Holds.foldl [Inhabited T] (holds : Holds hash m c) (calls : List (Call Key T)) :
    Holds hash (calls.foldl (MTHashMap.apply hash) m) (calls.foldl Call.applyTo c) := by
  induction calls generalizing m c with
  | nil => exact holds
  | cons call calls ih => exact ih (holds.apply call)

theorem holds_run [Inhabited T] (hash : Key → Nat) (calls : List (Call Key T)) :
    Holds hash (run hash calls : MTHashMap Key T Size) (contents calls) :=
  holds_new.foldl calls

theorem Holds.mem_elements (holds : Holds hash m c) (e : Element Key T) :
    e ∈ m.elements ↔ c e.1 = some e.2 := by
  simp only [elements, List.mem_flatMap, List.mem_finRange, true_and]
  constructor
  · rintro ⟨i, mem⟩
    rw [← holds.lookup_eq, holds.placed i e mem]
    exact (mem_entries_iff _ e).mp mem
  · intro there
    rw [← holds.lookup_eq] at there
    exact ⟨bucketIdx hash Size e.1, (mem_entries_iff _ e).mpr there⟩

/-- No key has two elements: not in one bucket, and not in two by the places. -/
theorem Holds.nodup_keys (holds : Holds hash m c) : (m.elements.map Sigma.fst).Nodup := by
  simp only [elements, List.map_flatMap]
  refine List.nodup_flatMap.mpr ⟨fun i _ => (m.bucket i).nodupKeys, ?_⟩
  refine (List.nodup_finRange Size).imp (fun {i j} apart => ?_)
  intro key inFirst inSecond
  obtain ⟨e, mem, rfl⟩ := List.mem_map.mp inFirst
  obtain ⟨e', mem', same⟩ := List.mem_map.mp inSecond
  apply apart
  rw [← holds.placed i e mem, ← holds.placed j e' mem', same]

theorem Holds.keys_eq (holds : Holds hash m c) :
    {key | c key ≠ none} = {key | key ∈ m.elements.map Sigma.fst} := by
  ext key
  simp only [Set.mem_ofPred_eq, List.mem_map, Option.ne_none_iff_exists']
  constructor
  · rintro ⟨value, there⟩
    exact ⟨⟨key, value⟩, (holds.mem_elements _).mpr there, rfl⟩
  · rintro ⟨e, mem, rfl⟩
    exact ⟨e.2, (holds.mem_elements e).mp mem⟩

theorem Holds.size_eq (holds : Holds hash m c) : m.size = {key | c key ≠ none}.ncard := by
  classical
  have keys : {key | key ∈ m.elements.map Sigma.fst} =
      ((m.elements.map Sigma.fst).toFinset : Set Key) := by
    ext key
    simp
  rw [holds.keys_eq, keys, Set.ncard_coe_finset,
    List.toFinset_card_of_nodup holds.nodup_keys, List.length_map, size_eq_length]

theorem Holds.empty_iff (holds : Holds hash m c) : m.empty = true ↔ ∀ key, c key = none := by
  rw [empty_iff_elements, List.eq_nil_iff_forall_not_mem]
  constructor
  · intro noElement key
    by_contra present
    obtain ⟨value, there⟩ := Option.ne_none_iff_exists'.mp present
    exact noElement ⟨key, value⟩ ((holds.mem_elements _).mpr there)
  · intro absent e mem
    have there := (holds.mem_elements e).mp mem
    rw [absent] at there
    cases there

theorem Holds.find_present (holds : Holds hash m c) {key : Key} {value : T}
    (present : c key = some value) :
    m.find hash key ≠ m.endIter ∧ m.dereference (m.find hash key) = some ⟨key, value⟩ := by
  rw [← holds.lookup_eq] at present
  have inside : UnorderedMap.find (m.bucket (bucketIdx hash Size key)) key ≠
      (m.bucket (bucketIdx hash Size key)).entries.length := by
    rw [Ne, find_eq_length_iff, present]
    simp
  have reads : m.dereference (m.find hash key) = some ⟨key, value⟩ := by
    simp [MTHashMap.find, inside, dereference, getElem?_find, present]
  refine ⟨fun atEnd => ?_, reads⟩
  rw [atEnd, dereference_endIter] at reads
  cases reads

theorem Holds.find_absent (holds : Holds hash m c) {key : Key} (absent : c key = none) :
    m.find hash key = m.endIter := by
  rw [← holds.lookup_eq, ← find_eq_length_iff] at absent
  simp [MTHashMap.find, absent]

theorem Holds.represents (holds : Holds hash m c) : Represents hash m c where
  placed i e mem := congrArg Fin.val (holds.placed i e mem)
  atKey_eq := holds.lookup_eq
  find_present key value present := by
    obtain ⟨inside, reads⟩ := holds.find_present present
    exact ⟨by rwa [Bool.eq_false_iff, Ne, Iterator.equal_iff], reads⟩
  find_absent key absent := (Iterator.equal_iff _ _).mpr (holds.find_absent absent)
  finite := by
    rw [holds.keys_eq]
    exact List.finite_toSet _
  size_eq := holds.size_eq
  empty_iff := holds.empty_iff
  reaches_end n := by
    rw [Iterator.equal_iff, size_eq_length]
    exact m.walks_elements.arrives_iff m.increment_endIter m.dereference_endIter n
  visits_only n before := by
    rw [size_eq_length] at before
    have mem : m.elements[n] ∈ m.elements := List.getElem_mem before
    refine ⟨m.elements[n].1, m.elements[n].2, (holds.mem_elements _).mp mem, ?_⟩
    rw [m.walks_elements.read_iterate before, List.getElem?_eq_getElem before]
  visits_once key value present := by
    rw [size_eq_length]
    exact m.walks_elements.existsUnique_of_mem (List.Nodup.of_map _ holds.nodup_keys)
      ((holds.mem_elements ⟨key, value⟩).mpr present)

theorem Holds.equal_iff [DecidableEq T] (holds : Holds hash m c) {rhs : MTHashMap Key T Size}
    {d : Key → Option T} (holds' : Holds hash rhs d) : m.equal rhs = true ↔ c = d := by
  simp only [MTHashMap.equal, List.all_eq_true, List.mem_finRange, true_implies,
    UnorderedMap.equal_iff]
  constructor
  · intro same
    funext key
    rw [← holds.lookup_eq, ← holds'.lookup_eq]
    exact same _ key
  · rintro rfl i key
    by_cases here : bucketIdx hash Size key = i
    · subst here
      rw [holds.lookup_eq, holds'.lookup_eq]
    · rw [holds.lookup_of_ne here, holds'.lookup_of_ne here]

/-- After any calls a map answers as the finite map that the same calls give, and two maps
compare equal exactly when they hold the same elements. -/
theorem represents_of_calls [Inhabited T] [DecidableEq T] (hash : Key → Nat)
    (calls calls' : List (Call Key T)) :
    Represents hash (run hash calls : MTHashMap Key T Size) (contents calls) ∧
    ((run hash calls : MTHashMap Key T Size).equal (run hash calls') = true ↔
      contents calls = contents calls') :=
  ⟨(holds_run hash calls).represents, (holds_run hash calls).equal_iff (holds_run hash calls')⟩

/-- Two keys of one bucket, added in either order with a third one erased in between, into
buckets that put a new element in front and at the back. -/
theorem represents_of_calls_collision :
    let front : Layout Nat Bool := ⟨id, fun _ => .rfl⟩
    let back : Layout Nat Bool := ⟨List.reverse, List.reverse_perm⟩
    let calls : List (Call Nat Bool) :=
      [.insert front 5 true, .insert front 0 true, .index front 2 (fun _ => true), .erase 0]
    let calls' : List (Call Nat Bool) := [.index back 2 (!·), .insert back 5 true]
    Represents id (run id calls : MTHashMap Nat Bool 3) (contents calls) ∧
    contents calls = contents calls' := by
  intro front back calls calls'
  have h : Represents id (run id calls : MTHashMap Nat Bool 3) (contents calls) ∧
      ((run id calls : MTHashMap Nat Bool 3).equal (run id calls') = true ↔
        contents calls = contents calls') :=
    represents_of_calls id calls calls'
  exact ⟨h.1, h.2.mp (by decide +kernel)⟩

end Observations

end MTHashMap

end Vsfs.Masterd

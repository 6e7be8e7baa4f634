import Mathlib.Data.List.AList

/-!
# Unordered maps

A hash map of the standard library as its elements in the order in which it is iterated. The
standard leaves that order open: an insertion may put the new element anywhere and may move the
others, an erasure keeps the order of what stays.
-/

namespace Vsfs

variable {Key T : Type}

abbrev UnorderedMap (Key T : Type) := AList (fun _ : Key => T)

namespace UnorderedMap

abbrev Element (Key T : Type) := (_ : Key) × T

/-- The order an insertion leaves the elements in. -/
structure Layout (Key T : Type) where
  arrange : List (Element Key T) → List (Element Key T)
  perm : ∀ l, (arrange l).Perm l

variable [DecidableEq Key]

/-- The position of the element with the key, and the end position where there is none. -/
def find (m : UnorderedMap Key T) (key : Key) : Nat := m.entries.findIdx (·.1 == key)

/-- The map with a new element at the place the layout gives it. -/
def place (layout : Layout Key T) (m : UnorderedMap Key T) (key : Key) (value : T)
    (absent : key ∉ m) : UnorderedMap Key T where
  entries := layout.arrange (⟨key, value⟩ :: m.entries)
  nodupKeys :=
    (List.perm_nodupKeys (layout.perm _)).mpr (List.nodupKeys_cons.mpr ⟨absent, m.nodupKeys⟩)

/-- The map behind the insertion, the position of the element with the key, and whether it
is new. -/
def insert (layout : Layout Key T) (m : UnorderedMap Key T) (key : Key) (value : T) :
    UnorderedMap Key T × Nat × Bool :=
  if absent : key ∉ m then
    let m' := place layout m key value absent
    (m', find m' key, true)
  else (m, find m key, false)

/-- The subscript operator, with what the caller writes through the reference it gets. -/
def index [Inhabited T] (layout : Layout Key T) (m : UnorderedMap Key T) (key : Key)
    (write : T → T) : UnorderedMap Key T :=
  let m' := (insert layout m key default).1
  match m'.lookup key with
  | some value => m'.replace key (write value)
  | none => m'

/-- The map behind the erasure, and the number of the elements it took. -/
def erase (m : UnorderedMap Key T) (key : Key) : UnorderedMap Key T × Nat :=
  (AList.erase key m, if key ∈ m then 1 else 0)

/-- The comparison of two maps: as many elements, and each of the one in the other. -/
def equal [DecidableEq T] (m m' : UnorderedMap Key T) : Bool :=
  m.entries.length == m'.entries.length && m.entries.all (fun e => m'.lookup e.1 == some e.2)

theorem lookup_place (layout : Layout Key T) (m : UnorderedMap Key T) (key : Key) (value : T)
    (absent : key ∉ m) (k : Key) :
    (place layout m key value absent).lookup k = if k = key then some value else m.lookup k := by
  have moved :
      (place layout m key value absent).entries.Perm (AList.insert key value m).entries := by
    rw [AList.entries_insert_of_notMem absent]
    exact layout.perm _
  rw [AList.perm_lookup moved]
  split
  · next same => rw [same, AList.lookup_insert]
  · next other => exact AList.lookup_insert_ne other

/-- An insertion keeps the value of a key that is there. -/
theorem lookup_insert (layout : Layout Key T) (m : UnorderedMap Key T) (key : Key) (value : T)
    (k : Key) : (insert layout m key value).1.lookup k =
      if k = key then some ((m.lookup key).getD value) else m.lookup k := by
  unfold insert
  split
  · next absent =>
    rw [AList.lookup_eq_none.mpr absent]
    exact lookup_place layout m key value absent k
  · next present =>
    obtain ⟨old, found⟩ := Option.isSome_iff_exists.mp
      (AList.lookup_isSome.mpr (not_not.mp present))
    rw [found]
    split
    · next same => rw [same, found]; rfl
    · rfl

theorem dlookup_kreplace {key : Key} (value : T) (k : Key) {l : List (Element Key T)}
    (present : key ∈ l.keys) :
    (l.kreplace key value).dlookup k = if k = key then some value else l.dlookup k := by
  induction l with
  | nil => simp at present
  | cons e l ih =>
    obtain ⟨key', old⟩ := e
    by_cases here : key = key'
    · subst here
      have replaced : List.kreplace key value (⟨key, old⟩ :: l) = ⟨key, value⟩ :: l :=
        List.lookmap_cons_some _ _ (by simp)
      rw [replaced]
      split
      · next same => subst same; simp
      · next other => simp [other]
    · have kept : List.kreplace key value (⟨key', old⟩ :: l) =
          ⟨key', old⟩ :: List.kreplace key value l :=
        List.lookmap_cons_none _ _ (by simp [here])
      have later : key ∈ l.keys := by simpa [here] using present
      rw [kept]
      by_cases found : k = key'
      · subst found
        simp [Ne.symm here]
      · simp [found, ih later]

theorem lookup_replace (m : UnorderedMap Key T) {key : Key} (present : key ∈ m) (value : T)
    (k : Key) :
    (m.replace key value).lookup k = if k = key then some value else m.lookup k :=
  dlookup_kreplace value k present

theorem lookup_index [Inhabited T] (layout : Layout Key T) (m : UnorderedMap Key T) (key : Key)
    (write : T → T) (k : Key) : (index layout m key write).lookup k =
      if k = key then some (write ((m.lookup key).getD default)) else m.lookup k := by
  have there := lookup_insert layout m key default key
  rw [if_pos rfl] at there
  have present : key ∈ (insert layout m key default).1 :=
    AList.lookup_isSome.mp (by rw [there]; rfl)
  simp only [index, there]
  rw [lookup_replace _ present, lookup_insert]
  split <;> rfl

theorem lookup_erase (m : UnorderedMap Key T) (key k : Key) :
    (erase m key).1.lookup k = if k = key then none else m.lookup k := by
  by_cases same : k = key
  · rw [if_pos same, same]
    exact AList.lookup_erase key m
  · rw [if_neg same]
    exact AList.lookup_erase_ne same

theorem mem_entries_iff (m : UnorderedMap Key T) (e : Element Key T) :
    e ∈ m.entries ↔ m.lookup e.1 = some e.2 :=
  AList.mem_lookup_iff.symm

/-- The position that `find` gives holds the element of the key. -/
theorem getElem?_find (m : UnorderedMap Key T) (key : Key) :
    m.entries[find m key]? = (m.lookup key).map (fun value => ⟨key, value⟩) := by
  cases found : m.entries[find m key]? with
  | none =>
    have past : find m key = m.entries.length :=
      le_antisymm List.findIdx_le_length (List.getElem?_eq_none_iff.mp found)
    have absent : m.lookup key = none := by
      by_contra present
      obtain ⟨value, there⟩ := Option.ne_none_iff_exists'.mp present
      have := List.findIdx_eq_length.mp past ⟨key, value⟩ ((mem_entries_iff m _).mpr there)
      simp at this
    rw [absent, Option.map_none]
  | some e =>
    have same : e.1 = key := by simpa using List.findIdx_of_getElem?_eq_some found
    have there := (mem_entries_iff m e).mp (List.mem_of_getElem? found)
    rw [same] at there
    rw [there, Option.map_some, ← same]

theorem find_eq_length_iff (m : UnorderedMap Key T) (key : Key) :
    find m key = m.entries.length ↔ m.lookup key = none := by
  have element := getElem?_find m key
  constructor
  · intro past
    rw [past, List.getElem?_length] at element
    exact Option.map_eq_none_iff.mp element.symm
  · intro absent
    rw [absent, Option.map_none] at element
    exact le_antisymm List.findIdx_le_length (List.getElem?_eq_none_iff.mp element)

theorem equal_iff [DecidableEq T] (m m' : UnorderedMap Key T) :
    equal m m' = true ↔ ∀ k, m.lookup k = m'.lookup k := by
  have elements : (∀ e ∈ m.entries, m'.lookup e.1 = some e.2) ↔ m.entries ⊆ m'.entries := by
    simp only [List.subset_def, mem_entries_iff m']
  simp only [equal, Bool.and_eq_true, beq_iff_eq, List.all_eq_true, elements]
  constructor
  · rintro ⟨length, subset⟩ k
    have perm : m.entries.Perm m'.entries :=
      (List.subperm_of_subset m.nodupKeys.nodup subset).perm_of_length_le (Nat.le_of_eq length.symm)
    exact AList.perm_lookup perm
  · intro same
    have perm : m.entries.Perm m'.entries := by
      refine List.lookup_ext m.nodupKeys m'.nodupKeys (fun k v => ?_)
      exact iff_of_eq (congrArg (v ∈ ·) (same k))
    exact ⟨perm.length_eq, perm.subset⟩

end UnorderedMap

end Vsfs

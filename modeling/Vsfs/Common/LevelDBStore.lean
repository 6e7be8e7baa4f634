import Std.Data.ExtTreeMap.Lemmas
import Vsfs.Common.Basic
import Vsfs.Lib.FiniteMap

/-!
# The key value store

`LevelDBStore` keeps its keys in byte order. How a write ends is the database's to decide:
`put` and `remove` take the status it reports and change the record on a success.
-/

namespace Vsfs

open Std

/-- The records of the database. -/
abbrev LevelDBStore := ExtTreeMap Str Str

namespace LevelDBStore

def put (store : LevelDBStore) (io : Status) (key value : Str) : Status × LevelDBStore :=
  (io, if io.ok then store.insert key value else store)

def remove (store : LevelDBStore) (io : Status) (key : Str) : Status × LevelDBStore :=
  (io, if io.ok then store.erase key else store)

@[simp] theorem put_OK (store : LevelDBStore) (key value : Str) :
    store.put .OK key value = (.OK, store.insert key value) := rfl

@[simp] theorem remove_OK (store : LevelDBStore) (key : Str) :
    store.remove .OK key = (.OK, store.erase key) := rfl

/-- The records in the order of an iteration. -/
def records (store : LevelDBStore) : List (Str × Str) := store.toList

theorem mem_records {store : LevelDBStore} {k v : Str} :
    (k, v) ∈ store.records ↔ store[k]? = some v :=
  ExtTreeMap.mem_toList_iff_getElem?_eq_some

theorem records_sorted (store : LevelDBStore) :
    store.records.Pairwise (fun a b => compare a.1 b.1 = .lt) :=
  ExtTreeMap.ordered_keys_toList

/-! ## Loading a cache -/

section Load

variable {β γ : Type}

/-- Decode the records one after the other into a map; the first one that cannot be decoded
ends the loop with a failure. `add` puts a value for a new key into the map. -/
def readAll (decode : Str → Option β) (failed : Status)
    (add : ExtTreeMap Str γ → Str → β → ExtTreeMap Str γ) (map : ExtTreeMap Str γ) :
    List (Str × Str) → Status × ExtTreeMap Str γ
  | [] => (.OK, map)
  | (key, value) :: rest =>
    match decode value with
    | none => (failed, map)
    | some b => readAll decode failed add (add map key b) rest

/-- Every record can be decoded. -/
def Readable (decode : Str → Option β) (store : LevelDBStore) : Prop :=
  ∀ (key value : Str), store[key]? = some value → ∃ b, decode value = some b

variable {decode : Str → Option β} {failed : Status}
  {add : ExtTreeMap Str γ → Str → β → ExtTreeMap Str γ} {f : β → γ}

theorem readAll_spec (failed : Status)
    (adds : ∀ map key b k, map[key]? = none → (add map key b)[k]? =
      if key = k then some (f b) else map[k]?)
    {records : List (Str × Str)} (distinct : records.Pairwise (fun a b => a.1 ≠ b.1))
    (readable : ∀ r ∈ records, ∃ b, decode r.2 = some b) (map : ExtTreeMap Str γ)
    (new : ∀ r ∈ records, map[r.1]? = none) :
    (readAll decode failed add map records).1 = .OK ∧
      ∀ key c, (readAll decode failed add map records).2[key]? = some c ↔
        map[key]? = some c ∨
          ∃ value b, (key, value) ∈ records ∧ decode value = some b ∧ f b = c := by
  induction records generalizing map with
  | nil => simp [readAll]
  | cons r records ih =>
    obtain ⟨k, v⟩ := r
    obtain ⟨apart, distinct⟩ := List.pairwise_cons.mp distinct
    obtain ⟨first, decoded⟩ := readable (k, v) (by simp)
    simp only at decoded
    have absent : map[k]? = none := new (k, v) (by simp)
    have unfolded : readAll decode failed add map ((k, v) :: records) =
        readAll decode failed add (add map k first) records := by
      simp [readAll, decoded]
    have later : ∀ r ∈ records, (add map k first)[r.1]? = none := by
      intro r hr
      rw [adds map k first r.1 absent, if_neg (apart r hr)]
      exact new r (by simp [hr])
    obtain ⟨ok, all⟩ := ih distinct (fun r hr => readable r (by simp [hr])) _ later
    rw [unfolded]
    refine ⟨ok, fun key c => (all key c).trans ?_⟩
    rw [adds map k first key absent]
    by_cases same : k = key
    · subst same
      have gone : ∀ value, (k, value) ∉ records := fun value h => apart (k, value) h rfl
      simp [absent, gone, decoded]
    · simp [same, Ne.symm same]

/-- A loop over all records that succeeds has decoded all of them. -/
theorem readable_of_readAll {records : List (Str × Str)} {map : ExtTreeMap Str γ}
    (bad : failed ≠ .OK) (ok : (readAll decode failed add map records).1 = .OK) :
    ∀ r ∈ records, ∃ b, decode r.2 = some b := by
  induction records generalizing map with
  | nil => simp
  | cons r records ih =>
    obtain ⟨k, v⟩ := r
    unfold readAll at ok
    split at ok
    · exact (bad ok).elim
    · rename_i b decoded
      intro r hr
      rcases List.mem_cons.mp hr with rfl | hr
      · exact ⟨b, decoded⟩
      · exact ih ok r hr

/-- A store whose records can all be decoded is loaded whole. -/
theorem readAll_records (failed : Status)
    (adds : ∀ map key b k, map[key]? = none → (add map key b)[k]? =
      if key = k then some (f b) else map[k]?)
    {store : LevelDBStore} (readable : Readable decode store) :
    (readAll decode failed add ∅ store.records).1 = .OK ∧
      ∀ key : Str, (readAll decode failed add ∅ store.records).2[key]? =
        (store[key]?.bind decode).map f := by
  have distinct : store.records.Pairwise (fun a b => a.1 ≠ b.1) :=
    store.records_sorted.imp fun less same => by simp [same] at less
  obtain ⟨ok, all⟩ := readAll_spec failed adds distinct
    (fun r hr => readable r.1 r.2 (mem_records.mp hr)) ∅ (by simp)
  refine ⟨ok, fun key => Option.ext fun c => ?_⟩
  rw [all key c]
  simp only [mem_records, ExtTreeMap.getElem?_empty, reduceCtorEq, false_or, Option.map_eq_some_iff,
    Option.bind_eq_some_iff]
  constructor
  · rintro ⟨value, b, found, decoded, same⟩
    exact ⟨b, ⟨value, found, decoded⟩, same⟩
  · rintro ⟨b, ⟨value, found, decoded⟩, same⟩
    exact ⟨value, b, found, decoded, same⟩

end Load

end LevelDBStore

end Vsfs

import Vsfs.Masterd.PartitionConsistency

/-!
# The partition of a hash

A new index has the partition at separator 0, and nothing keeps `remove_partition` from taking
away the last one. `get_partition_path` drops the status of the lookup, so a hash on the empty
ring gets the empty path.

## Main results

* `partitions_cover_iff` : in a run, every hash of every index has the partition of its owner
  after every call exactly when no call removes the only separator of an index.
-/

namespace Vsfs.Masterd.PartitionManager

open Std FiniteMap Transition RingMap

variable {pm : PartitionManager} {path : Str} {partitions : PartitionMap}

/-! ## Lookups -/

/-- The name of the partition at a separator. -/
def nameAt (path : Str) (s : Int) : Str := path ++ ".".toList ++ (toString s).toList

theorem partitionName_eq (path : Str) (sep : HashValueType) :
    partitionName path sep = nameAt path sep.toInt := rfl

theorem nameAt_ne_nil (path : Str) (s : Int) : nameAt path s ≠ [] := by
  simp [nameAt]

/-- The separators are `int64_t`, and every partition is named after its separator. -/
structure Named (path : Str) (partitions : PartitionMap) : Prop where
  ranged : Ranged partitions
  name : ∀ s name, partitions[s]? = some name → name = nameAt path s

theorem Named.single (path : Str) :
    Named path ((∅ : PartitionMap).insert 0 (partitionName path 0)) where
  ranged := ranged_insert (by simp [Ranged]) 0 _
  name := by
    intro s name found
    rw [getElem?_insert] at found
    split at found
    · rename_i same
      cases found
      exact same ▸ partitionName_eq path 0
    · simp at found

theorem Named.insert (h : Named path partitions) (sep : HashValueType) :
    Named path (partitions.insert sep.toInt (partitionName path sep)) where
  ranged := ranged_insert h.ranged sep _
  name := by
    intro s name found
    rw [getElem?_insert] at found
    split at found
    · rename_i same
      cases found
      exact same ▸ partitionName_eq path sep
    · exact h.name s name found

theorem Named.erase (h : Named path partitions) (s : Int) : Named path (partitions.erase s) where
  ranged := fun t ht => h.ranged t (ExtTreeMap.mem_erase.mp ht).2
  name := by
    intro t name found
    rw [getElem?_erase] at found
    split at found
    · cases found
    · exact h.name t name found

theorem Named.values (h : Named path partitions) :
    partitions.toList.map (·.2) = partitions.keys.map (nameAt path) := by
  rw [← ExtTreeMap.map_fst_toList_eq_keys, List.map_map]
  refine List.map_congr_left fun e he => ?_
  exact h.name e.1 e.2 (ExtTreeMap.mem_toList_iff_getElem?_eq_some.mp he)

/-- All partitions of an index are listed, there is one, and every hash is given that of its
owner. -/
structure Covered [PartitionLookup] (pm : PartitionManager) (path : Str)
    (partitions : PartitionMap) : Prop where
  nonempty : partitions ≠ ∅
  all : pm.getAllPartitions path = (.OK, some (partitions.keys.map (nameAt path)), pm)
  owned : ∀ hash : HashValueType, ∃ sep : HashValueType,
    HashRing.Owner (separators partitions) hash.toInt sep.toInt ∧
      pm.getPartitionPath path hash = (partitionName path sep, pm) ∧
      partitionName path sep ∈ partitions.keys.map (nameAt path) ∧ partitionName path sep ≠ []

def Covers [PartitionLookup] (pm : PartitionManager) : Prop :=
  ∀ path partitions, pm.ring path = some partitions → Covered pm path partitions

theorem getAllPartitions_eq (found : pm.ring path = some partitions) :
    pm.getAllPartitions path = (.OK, some (partitions.toList.map (·.2)), pm) := by
  obtain ⟨partition, here, rfl⟩ := Option.map_eq_some_iff.mp found
  simp only [getAllPartitions, here, insert_released here]

theorem getPartitionPath_eq [PartitionLookup] (found : pm.ring path = some partitions)
    (hash : HashValueType) : pm.getPartitionPath path hash =
      ((PartitionLookup.get partitions hash.toInt).getD [], pm) := by
  obtain ⟨partition, here, rfl⟩ := Option.map_eq_some_iff.mp found
  simp only [getPartitionPath, here, insert_released here]

theorem Named.covered [PartitionLookup] [LawfulPartitionLookup] (h : Named path partitions)
    (found : pm.ring path = some partitions) (nonempty : partitions ≠ ∅) :
    Covered pm path partitions := by
  refine ⟨nonempty, by rw [getAllPartitions_eq found, h.values], fun hash => ?_⟩
  obtain ⟨s, owner⟩ := HashRing.owner_exists (finite_separators partitions)
    (separators_nonempty nonempty) hash.toInt
  have inside : s ∈ partitions := owner.mem
  obtain ⟨name, here⟩ := (mem_iff_exists _ _).mp inside
  have same := h.ranged s inside
  have named : name = partitionName path (BitVec.ofInt 64 s) := by
    rw [partitionName_eq, same]
    exact h.name s name here
  refine ⟨BitVec.ofInt 64 s, same.symm ▸ owner, ?_, ?_, ?_⟩
  · rw [getPartitionPath_eq found, LawfulPartitionLookup.get_owner owner here, Option.getD_some,
      named]
  · rw [partitionName_eq, same]
    exact List.mem_map_of_mem (ExtTreeMap.mem_keys.mpr inside)
  · exact nameAt_ne_nil _ _

/-! ## One call -/

/-- The store refuses to remove the record of an index. -/
def Refused : Request → Prop
  | .removeIndex io _ => io.ok = false
  | _ => False

section Calls

variable [Thrift IndexConsistentHashRing]

/-- A write leaves the rings, whatever its status is. -/
theorem exists_write (pm : PartitionManager) (p : Partition) (io : Status) (path : Str) :
    ∃ status pm', { pm with partitionMapByIndexPath :=
      pm.partitionMapByIndexPath.insert path p }.writePartitionMap io path = .ok (status, pm') ∧
      pm'.ring = Function.update pm.ring path (some p.partitions) := by
  have found : (pm.partitionMapByIndexPath.insert path p)[path]? = some p := by simp
  obtain ⟨status, store, out, -⟩ := @writePartitionMap_spec _
    { pm with partitionMapByIndexPath := pm.partitionMapByIndexPath.insert path p } _ _ io found
  exact ⟨status, _, out, ring_of_insert rfl⟩

theorem addIndex_ring (pm : PartitionManager) (io : Status) (refcount : BitVec 64) (path : Str) :
    ∃ status pm', pm.addIndex io refcount path = .ok (status, pm') ∧
      pm'.ring = (change pm.ring (.addIndex io refcount path)).getD pm.ring := by
  by_cases old : path ∈ pm.partitionMapByIndexPath
  · obtain ⟨p, found⟩ := (mem_iff_exists _ _).mp old
    have here : pm.ring path = some p.partitions := by simp [ring, found]
    refine ⟨⟨-1, "The index has already existed"⟩, pm, ?_, ?_⟩
    · simp only [addIndex, old, if_true]
    · simp [change, here]
  · obtain ⟨status, pm', out, rings⟩ := exists_write pm
      ⟨refcount, (∅ : PartitionMap).insert 0 (partitionName path 0)⟩ io path
    refine ⟨status, pm', ?_, ?_⟩
    · simp only [addIndex, old, if_false]
      exact out
    · simp [rings, change, ring_eq_none old]

omit [Thrift IndexConsistentHashRing] in
theorem ring_erase (pm : PartitionManager) (path : Str) (store : LevelDBStore) :
    (⟨pm.partitionMapByIndexPath.erase path, store⟩ : PartitionManager).ring =
      Function.update pm.ring path none := by
  funext q
  by_cases same : path = q
  · subst same
    simp [ring]
  · simp [ring, same, Ne.symm same]

theorem addPartition_ring (pm : PartitionManager) (io : Status) (path : Str)
    (sep : HashValueType) : ∃ status pm', pm.addPartition io path sep = .ok (status, pm') ∧
      pm'.ring = (change pm.ring (.addPartition io path sep)).getD pm.ring := by
  cases found : pm.partitionMapByIndexPath[path]? with
  | none =>
    have absent : pm.ring path = none := by simp [ring, found]
    refine ⟨⟨-ENOENT, "The index does not existed."⟩, pm, ?_, ?_⟩
    · simp only [addPartition, found]
    · simp [change, absent]
  | some p =>
    have here : pm.ring path = some p.partitions := by simp [ring, found]
    by_cases used : sep.toInt ∈ p.partitions
    · refine ⟨⟨-1, "The separator is already existed."⟩, pm, ?_, ?_⟩
      · simp only [addPartition, found, used, if_true, insert_released found]
      · simp [change, here, used]
    · obtain ⟨status, pm', out, rings⟩ := exists_write pm ⟨p.refcount + 1 - 1,
        p.partitions.insert sep.toInt (partitionName path sep)⟩ io path
      refine ⟨status, pm', ?_, ?_⟩
      · simp only [addPartition, found, used, if_false]
        exact out
      · simp [rings, change, here, used]

theorem removePartition_ring (pm : PartitionManager) (io : Status) (missing : Failure) (path : Str)
    (sep : HashValueType) :
    ∃ status pm', pm.removePartition io missing path sep = .ok (status, pm') ∧
      pm'.ring = (change pm.ring (.removePartition io missing path sep)).getD pm.ring := by
  cases found : pm.partitionMapByIndexPath[path]? with
  | none =>
    have absent : pm.ring path = none := by simp [ring, found]
    refine ⟨⟨-ENOENT, "The index does not existed."⟩, pm, ?_, ?_⟩
    · simp only [removePartition, found]
    · simp [change, absent]
  | some p =>
    have here : pm.ring path = some p.partitions := by simp [ring, found]
    by_cases used : sep.toInt ∈ p.partitions
    · obtain ⟨status, pm', out, rings⟩ := exists_write pm
        ⟨p.refcount + 1, p.partitions.erase sep.toInt⟩ io path
      refine ⟨.OK, pm', ?_, ?_⟩
      · simp only [removePartition, found, used, not_true, if_false]
        rw [out]
        rfl
      · simp [rings, change, here, used]
    · let p' : Partition := ⟨p.refcount + 1, p.partitions⟩
      let pm' := { pm with partitionMapByIndexPath := pm.partitionMapByIndexPath.insert path p' }
      have rings : pm'.ring = Function.update pm.ring path (some p.partitions) :=
        ring_of_insert (p := p') rfl
      refine ⟨missing.1, pm', ?_, ?_⟩
      · simp only [removePartition, found, used, not_false_iff, if_true]
        rfl
      · simp [rings, change, here, used]

/-- The rings after a call do not depend on whether the store takes what is written. -/
theorem serve_ring (pm : PartitionManager) (r : Request) : ∃ status pm',
    pm.serve r = .ok (status, pm') ∧ (Refused r ∧ pm'.ring = pm.ring ∨
      ¬ Refused r ∧ pm'.ring = (change pm.ring r).getD pm.ring) := by
  cases r with
  | addIndex io refcount path =>
    obtain ⟨status, pm', out, rings⟩ := addIndex_ring pm io refcount path
    exact ⟨status, pm', out, .inr ⟨id, rings⟩⟩
  | removeIndex io path =>
    cases ok : io.ok with
    | false => exact ⟨io, pm, by simp [serve, removeIndex, LevelDBStore.remove, ok],
        .inl ⟨ok, rfl⟩⟩
    | true => exact ⟨.OK, ⟨pm.partitionMapByIndexPath.erase path, pm.store.erase path⟩,
        by simp [serve, removeIndex, LevelDBStore.remove, ok],
        .inr ⟨by simp [Refused, ok], ring_erase pm path _⟩⟩
  | addPartition io path sep =>
    obtain ⟨status, pm', out, rings⟩ := addPartition_ring pm io path sep
    exact ⟨status, pm', out, .inr ⟨id, rings⟩⟩
  | removePartition io missing path sep =>
    obtain ⟨status, pm', out, rings⟩ := removePartition_ring pm io missing path sep
    exact ⟨status, pm', out, .inr ⟨id, rings⟩⟩

/-! ## Runs -/

/-- The call returns, and every hash of every index has a partition afterwards. -/
def Serves [PartitionLookup] (pm : PartitionManager) (r : Request) : Prop :=
  ∃ status pm', pm.serve r = .ok (status, pm') ∧ Covers pm'

omit [Thrift IndexConsistentHashRing] in
/-- The call does not remove the only separator of an index. -/
def Leaves (pm : PartitionManager) : Request → Prop
  | .removePartition _ _ path sep => ∀ partitions, pm.ring path = some partitions →
      ∃ s ∈ partitions.keys, s ≠ sep.toInt
  | _ => True

/-- Every ring has a partition, and its partitions are named after their separators. -/
def Whole (pm : PartitionManager) : Prop :=
  ∀ path partitions, pm.ring path = some partitions → Named path partitions ∧ partitions ≠ ∅

omit [Thrift IndexConsistentHashRing] in
theorem Whole.covers [PartitionLookup] [LawfulPartitionLookup] (h : Whole pm) : Covers pm :=
  fun path partitions found => (h path partitions found).1.covered found (h path partitions found).2

omit [Thrift IndexConsistentHashRing] in
/-- The ring of an index after a call. -/
inductive Becomes (rings : Str → Option PartitionMap) (q : Str) :
    Request → PartitionMap → Prop where
  | kept {r : Request} {p : PartitionMap} (here : rings q = some p) : Becomes rings q r p
  | added (io : Status) (refcount : BitVec 64) : Becomes rings q (.addIndex io refcount q)
      ((∅ : PartitionMap).insert 0 (partitionName q 0))
  | grown {p : PartitionMap} (io : Status) (sep : HashValueType) (here : rings q = some p) :
      Becomes rings q (.addPartition io q sep) (p.insert sep.toInt (partitionName q sep))
  | shrunk {p : PartitionMap} (io : Status) (missing : Failure)
      (sep : HashValueType) (here : rings q = some p) :
      Becomes rings q (.removePartition io missing q sep) (p.erase sep.toInt)

omit [Thrift IndexConsistentHashRing] in
theorem becomes_of_change {rings : Str → Option PartitionMap} {r : Request} {q : Str}
    (found : (change rings r).getD rings q = some partitions) : Becomes rings q r partitions := by
  cases r with
  | addIndex io refcount path =>
    cases here : rings path with
    | some p => exact .kept (by simpa [change, here] using found)
    | none =>
      simp only [change, here, Option.getD_some, Function.update_apply] at found
      split at found
      · rename_i same
        cases found
        exact same ▸ .added io refcount
      · exact .kept found
  | removeIndex io path =>
    simp only [change, Option.getD_some, Function.update_apply] at found
    split at found
    · cases found
    · exact .kept found
  | addPartition io path sep =>
    cases here : rings path with
    | none => exact .kept (by simpa [change, here] using found)
    | some p =>
      by_cases used : sep.toInt ∈ p
      · exact .kept (by simpa [change, here, used] using found)
      · simp only [change, here, used, if_false, Option.getD_some, Function.update_apply] at found
        split at found
        · rename_i same
          subst same
          cases found
          exact .grown io sep here
        · exact .kept found
  | removePartition io missing path sep =>
    cases here : rings path with
    | none => exact .kept (by simpa [change, here] using found)
    | some p =>
      by_cases used : sep.toInt ∈ p
      · simp only [change, here, used, if_true, Option.getD_some, Function.update_apply] at found
        split at found
        · rename_i same
          subst same
          cases found
          exact .shrunk io missing sep here
        · exact .kept found
      · exact .kept (by simpa [change, here, used] using found)

omit [Thrift IndexConsistentHashRing] in
/-- The names are right whatever is called. -/
theorem Whole.named_change (h : Whole pm) (r : Request) {q : Str}
    (found : (change pm.ring r).getD pm.ring q = some partitions) : Named q partitions := by
  cases becomes_of_change found with
  | kept here => exact (h _ _ here).1
  | added => exact Named.single q
  | grown io sep here => exact (h _ _ here).1.insert sep
  | shrunk io missing sep here => exact (h _ _ here).1.erase _

omit [Thrift IndexConsistentHashRing] in
/-- A ring without one of its separators is empty when that is the only one. -/
theorem erase_ne_empty_iff (sep : Int) :
    partitions.erase sep ≠ ∅ ↔ ∃ s ∈ partitions.keys, s ≠ sep := by
  rw [Ne, ExtTreeMap.eq_empty_iff_forall_not_mem]
  simp only [ExtTreeMap.mem_keys, ExtTreeMap.mem_erase, Std.compare_eq_iff_eq, ne_eq]
  grind

omit [Thrift IndexConsistentHashRing] in
/-- No ring gets empty exactly when the last separator stays. -/
theorem Whole.nonempty_change_iff (h : Whole pm) (r : Request) :
    (∀ q partitions, (change pm.ring r).getD pm.ring q = some partitions → partitions ≠ ∅) ↔
      Leaves pm r := by
  constructor
  · intro all
    cases r with
    | addIndex => trivial
    | removeIndex => trivial
    | addPartition => trivial
    | removePartition io missing path sep =>
      intro p here
      rw [← erase_ne_empty_iff]
      by_cases used : sep.toInt ∈ p
      · exact all path _ (by simp [change, here, used])
      · rw [Ne, ExtTreeMap.erase_eq_empty_iff]
        simp [used, (h path p here).2]
  · intro leaves q partitions found
    cases becomes_of_change found with
    | kept here => exact (h _ _ here).2
    | added => simp
    | grown => simp
    | shrunk io missing sep here => exact (erase_ne_empty_iff _).mpr (leaves _ here)

variable [PartitionLookup] [LawfulPartitionLookup]

theorem Whole.serves_iff (h : Whole pm) (r : Request) : Serves pm r ↔ Leaves pm r := by
  obtain ⟨status, pm', out, ⟨refused, same⟩ | ⟨-, rings⟩⟩ := serve_ring pm r
  · have whole : Whole pm' := fun q partitions found => h q partitions (same ▸ found)
    refine iff_of_true ⟨status, pm', out, whole.covers⟩ ?_
    cases r with
    | removeIndex io path => trivial
    | _ => exact refused.elim
  · rw [← h.nonempty_change_iff r, ← rings]
    constructor
    · rintro ⟨_, _, out', covers⟩ q partitions found
      cases out.symm.trans out'
      exact (covers q partitions found).nonempty
    · intro nonempty
      have whole : Whole pm' := fun q partitions found =>
        ⟨h.named_change r (rings ▸ found), nonempty q partitions found⟩
      exact ⟨status, pm', out, whole.covers⟩

omit [PartitionLookup] [LawfulPartitionLookup] in
theorem Whole.after {pm' : PartitionManager} {r : Request} (h : Whole pm) (leaves : Leaves pm r)
    (ran : step pm r = .ok pm') : Whole pm' := by
  have some := (h.nonempty_change_iff r).mpr leaves
  obtain ⟨status, pm₁, out, ⟨-, same⟩ | ⟨-, rings⟩⟩ := serve_ring pm r
  · rw [step, out] at ran
    cases ran
    exact fun q partitions found => h q partitions (same ▸ found)
  · rw [step, out] at ran
    cases ran
    intro q partitions found
    rw [rings] at found
    exact ⟨h.named_change r found, some q partitions found⟩

theorem Whole.meets_iff (h : Whole pm) (requests : List Request) :
    Meets step Serves pm requests ↔ Meets step Leaves pm requests := by
  refine Meets.iff_of_invariant (fun pm r _ h => h.serves_iff r) ?_ h
  intro pm pm' r _ h serves ran
  exact h.after ((h.serves_iff r).mp serves) ran

omit [Thrift IndexConsistentHashRing] [PartitionLookup] [LawfulPartitionLookup] in
theorem whole_empty : Whole {} := by
  intro path partitions found
  simp [ring] at found

/-- In a run on a new manager, every hash of every index has a partition after every call
exactly when no call removes the only separator of an index. -/
theorem partitions_cover_iff (requests : List Request) :
    Meets step Serves {} requests ↔ Meets step Leaves {} requests :=
  whole_empty.meets_iff requests

end Calls

instance decidableLeaves (pm : PartitionManager) : (r : Request) → Decidable (Leaves pm r)
  | .addIndex .. => .isTrue trivial
  | .removeIndex .. => .isTrue trivial
  | .addPartition .. => .isTrue trivial
  | .removePartition .. => inferInstanceAs (Decidable (∀ _, _ = some _ → ∃ s ∈ _, _))

section Example

attribute [local instance] BinaryProtocol.indexConsistentHashRingThrift

/-- The lookup in the list of separators. -/
@[reducible] def partitionLookup : PartitionLookup := ⟨RingMap.floor⟩

theorem lawful_partitionLookup : @LawfulPartitionLookup partitionLookup :=
  @LawfulPartitionLookup.mk partitionLookup (fun owner found => floor_of_owner owner found)
    (fun _ => rfl)

attribute [local instance] partitionLookup lawful_partitionLookup

/-- A partition is added, the first one is removed, and so is the index. -/
def splitAndMerge : List Request :=
  [.addIndex .OK 0 "/foo".toList, .addPartition .OK "/foo".toList 7,
    .removePartition .OK ⟨⟨-1, "IO error"⟩, rfl⟩ "/foo".toList 0,
    .removeIndex .OK "/foo".toList]

theorem splitAndMerge_covered : Meets step Serves {} splitAndMerge :=
  (partitions_cover_iff splitAndMerge).mpr (by decide +kernel)

/-- After the removal of its only partition, the index still exists. -/
theorem uncovered_after_removal : ¬ Meets step Serves {}
    [.addIndex .OK 0 "/foo".toList,
      .removePartition .OK ⟨⟨-1, "IO error"⟩, rfl⟩ "/foo".toList 0] := by
  rw [whole_empty.meets_iff]
  decide +kernel

end Example

end Vsfs.Masterd.PartitionManager

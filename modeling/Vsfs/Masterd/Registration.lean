import Vsfs.Masterd.Effects
import Vsfs.Masterd.MasterController
import Vsfs.Masterd.WriteThrough

/-!
# Registered indices and their directories

`create_index` of a master registers a name on a directory and makes the directory of the
index. `remove_index` takes the name back and leaves the directory, so the next
`create_index` for the name fails in its `mkdir`.

## Main results

* `registration_matches_iff` : through a run of these requests the registered names are the
  index directories, and the requests end accordingly, exactly when no registered index is
  removed.
-/

namespace Vsfs.Masterd

open Std FiniteMap Transition

namespace IndexNamespace

/-! ## Names on normalised paths -/

theorem cleanupPath_normal {path : Str} (h : Normal path) : cleanupPath path = .ok path := by
  by_cases root : path = ['/']
  · subst root
    rfl
  have last := Posix.normal_getLast? h root
  obtain ⟨rest, rfl⟩ := h.head
  have whole : rest.reverse.dropWhile (fun c => decide (c = '/')) = rest.reverse := by
    cases back : rest.reverse with
    | nil => rfl
    | cons c cs =>
      have other : c ≠ '/' := by
        rintro rfl
        refine last ?_
        rw [List.getLast?_cons, List.getLast?_eq_head?_reverse, back]
        rfl
      rw [List.dropWhile_cons_of_neg (by simpa using other)]
  simp only [cleanupPath, whole, List.reverse_reverse]

variable {idx : IndexNamespace} {root name : Str}

theorem registered_iff (h : Normal root) : idx.Registered root name ↔ name ∈ idx.namesAt root := by
  simp only [Registered, cleanupPath_normal h, namesAt]
  cases found : idx.nodes[root]? with
  | none => simp [found]
  | some node => simp [found]

instance decidableRegistered (idx : IndexNamespace) (root name : Str) :
    Decidable (idx.Registered root name) :=
  match clean : cleanupPath root with
  | .error _ => .isFalse fun ⟨_, _, clean', _⟩ => by cases clean.symm.trans clean'
  | .ok key =>
    match found : idx.nodes[key]? with
    | none => .isFalse fun ⟨_, _, clean', found', _⟩ => by
        cases clean.symm.trans clean'
        cases found.symm.trans found'
    | some node => decidable_of_iff (name ∈ node.names)
        ⟨fun listed => ⟨key, node, clean, found, listed⟩, fun ⟨_, _, clean', found', listed⟩ => by
          cases clean.symm.trans clean'
          cases found.symm.trans found'
          exact listed⟩

/-- The names of the node that `insert` finds or makes. -/
theorem names_getD (idx : IndexNamespace) (root : Str) :
    ((idx.nodes[root]?).getD ⟨root, ∅⟩).names = idx.namesAt root := by
  rw [namesAt]
  cases idx.nodes[root]? <;> rfl

section Updates

variable [ThriftSerialize IndexNamespaceNode]

theorem insert_new (h : Normal root) (new : name ∉ idx.namesAt root) :
    ∃ idx', idx.insert .OK root name = .ok (.OK, idx') ∧
      idx'.namesAt = Function.update idx.namesAt root ((idx.namesAt root).insert name) := by
  simp only [insert, cleanupPath_normal h, bind, Except.bind, pure, Except.pure, names_getD, new,
    if_false]
  refine ⟨_, rfl, funext fun key => ?_⟩
  by_cases same : root = key
  · subst same
    simp [namesAt]
  · simp [namesAt, same, Ne.symm same]

theorem insert_listed (h : Normal root) (old : name ∈ idx.namesAt root) (io : Status) :
    idx.insert io root name = .ok (⟨-EEXIST, "The named index have existed."⟩, idx) := by
  simp only [insert, cleanupPath_normal h, bind, Except.bind, pure, Except.pure, names_getD, old,
    if_true]

theorem remove_listed (h : Normal root) (old : name ∈ idx.namesAt root) :
    ∃ idx', idx.remove .OK root name = .ok (.OK, idx') ∧
      idx'.namesAt = Function.update idx.namesAt root ((idx.namesAt root).erase name) := by
  cases found : idx.nodes[root]? with
  | none => simp [namesAt, found] at old
  | some node =>
    have names : idx.namesAt root = node.names := by simp [namesAt, found]
    rw [names] at old
    simp only [remove, cleanupPath_normal h, bind, Except.bind, pure, Except.pure, found, old,
      not_true, if_false]
    refine ⟨_, rfl, funext fun key => ?_⟩
    by_cases same : root = key
    · subst same
      simp [namesAt, found]
    · simp [namesAt, same, Ne.symm same]

theorem remove_missing (h : Normal root) (new : name ∉ idx.namesAt root) (io : Status) :
    idx.remove io root name = .ok (⟨-ENOENT, "The index does not exist."⟩, idx) := by
  cases found : idx.nodes[root]? with
  | none => simp only [remove, cleanupPath_normal h, bind, Except.bind, pure, Except.pure, found]
  | some node =>
    have names : idx.namesAt root = node.names := by simp [namesAt, found]
    rw [names] at new
    simp only [remove, cleanupPath_normal h, bind, Except.bind, pure, Except.pure, found, new,
      not_false_iff, if_true]

end Updates

end IndexNamespace

/-! ## Requests -/

inductive IndexRequest where
  | create (now : Double) (request : IndexCreateRequest)
  | remove (root name : Str)

namespace IndexRequest

def root : IndexRequest → Str
  | .create _ request => request.root
  | .remove root _ => root

def name : IndexRequest → Str
  | .create _ request => request.name
  | .remove _ name => name

/-- The root is absolute and normalised, and the name has no slash. -/
def Valid (r : IndexRequest) : Prop := Normal r.root ∧ Plain r.name

end IndexRequest

namespace MasterController

variable [FsPath]

/-- The registered names are the index directories. -/
def Matched (mc : MasterController) : Prop :=
  ∀ root name, Normal root → Plain name →
    (mc.indexNamespace.Registered root name ↔
      PathUtil.indexPath root name ∈ mc.namespace.directories)

/-- No registered index is removed. -/
def Harmless (mc : MasterController) : IndexRequest → Prop
  | .create _ _ => True
  | .remove root name => ¬ mc.indexNamespace.Registered root name

omit [FsPath] in
instance decidableHarmless (mc : MasterController) : (r : IndexRequest) → Decidable (mc.Harmless r)
  | .create .. => .isTrue trivial
  | .remove .. => inferInstanceAs (Decidable (¬ _))

variable [ThriftSerialize FileMetadata] [ThriftSerialize IndexNamespaceNode]

/-- One request, with stores that do not fail. -/
def serveIndex (mc : MasterController) : IndexRequest → Cpp (Status × MasterController)
  | .create now request => mc.createIndex .OK .OK .OK now request
  | .remove root name => mc.removeIndex .OK .OK root name

def stepIndex (mc : MasterController) (r : IndexRequest) : Cpp MasterController := do
  return (← mc.serveIndex r).2

/-- The request succeeds when it finds the pair as it has to, and the registered names are
the index directories afterwards. -/
def Matches (mc : MasterController) (r : IndexRequest) : Prop :=
  ∃ status mc', mc.serveIndex r = .ok (status, mc') ∧ Matched mc' ∧
    match r with
    | .create _ request =>
      status.ok = true ↔ ¬ mc.indexNamespace.Registered request.root request.name
    | .remove root name => status.ok = true ↔ mc.indexNamespace.Registered root name

/-! ## One request -/

/-- Besides, every record is the one of a directory. -/
structure Aligned (mc : MasterController) : Prop where
  matched : Matched mc
  directories : ∀ path, path ∈ mc.namespace.metadataMap → path ∈ mc.namespace.directories

variable [LawfulFsPath] {mc : MasterController}

theorem Aligned.create (h : Aligned mc) (now : Double) {request : IndexCreateRequest}
    (hr : Normal request.root) (hn : Plain request.name) :
    ∃ status mc', mc.serveIndex (.create now request) = .ok (status, mc') ∧ Aligned mc' ∧
      (status.ok = true ↔ ¬ mc.indexNamespace.Registered request.root request.name) := by
  by_cases old : mc.indexNamespace.Registered request.root request.name
  · refine ⟨⟨-EEXIST, "The named index have existed."⟩, mc, ?_, h, by simp [old]; decide⟩
    have listed := (IndexNamespace.registered_iff hr).mp old
    simp only [serveIndex, createIndex, IndexNamespace.insert_listed hr listed, bind, Except.bind]
    rfl
  · have absent : mc.namespace.metadataMap[PathUtil.indexPath request.root request.name]? =
        none := by
      refine (not_mem_iff _ _).mp fun found => ?_
      exact old ((h.matched _ _ hr hn).mpr (h.directories _ found))
    obtain ⟨idx, inserted, names⟩ := IndexNamespace.insert_new hr
      (fun listed => old ((IndexNamespace.registered_iff hr).mpr listed))
    let metadata := Namespace.newDirectory (request.mode.setWidth 32) (request.uid.setWidth 32)
      (request.gid.setWidth 32) now
    refine ⟨.OK, ⟨idx, mc.indexPartitionManager, mc.namespace.withDirectory
      (PathUtil.indexPath request.root request.name) metadata⟩, ?_,
      ⟨fun root name hr' hn' => ?_, fun p known => ?_⟩, by simp [old]⟩
    · simp only [serveIndex, createIndex, inserted, bind, Except.bind, pure, Except.pure,
        Namespace.mkdir_absent _ _ _ _ absent]
      rfl
    · have before := h.matched root name hr' hn'
      rw [IndexNamespace.registered_iff hr'] at before ⊢
      rw [Namespace.withDirectory_directories, ExtTreeMap.mem_insertIfNew,
        Std.compare_eq_iff_eq, PathUtil.indexPath_eq_iff hr hn hr' hn', ← before, names]
      by_cases same : root = request.root
      · subst same
        rw [Function.update_self, ExtTreeSet.mem_insert, Std.compare_eq_iff_eq]
        simp
      · simp [same, Ne.symm same]
    · rw [Namespace.withDirectory_metadataMap, ExtTreeMap.mem_insert,
        Std.compare_eq_iff_eq] at known
      rw [Namespace.withDirectory_directories, ExtTreeMap.mem_insertIfNew, Std.compare_eq_iff_eq]
      exact known.imp_right (h.directories p)

omit [LawfulFsPath] in
theorem Aligned.remove (h : Aligned mc) (root name : Str) (hr : Normal root) (hn : Plain name) :
    ∃ status mc', mc.serveIndex (.remove root name) = .ok (status, mc') ∧
      (status.ok = true ↔ mc.indexNamespace.Registered root name) ∧
      (mc.indexNamespace.Registered root name → ¬ Matched mc') ∧
      (¬ mc.indexNamespace.Registered root name → Aligned mc') := by
  let pm := (mc.indexPartitionManager.removeIndex .OK (PathUtil.indexPath root name)).2
  by_cases old : mc.indexNamespace.Registered root name
  · obtain ⟨idx, removed, names⟩ := IndexNamespace.remove_listed hr
      ((IndexNamespace.registered_iff hr).mp old)
    refine ⟨.OK, ⟨idx, pm, mc.namespace⟩, ?_, by simp [old], fun _ matched => ?_, fun new =>
      (new old).elim⟩
    · simp only [serveIndex, removeIndex, removed, bind, Except.bind, pure, Except.pure]
      rfl
    · -- The directory of the index is still there.
      have still := (matched root name hr hn).mpr ((h.matched root name hr hn).mp old)
      rw [IndexNamespace.registered_iff hr, names] at still
      simp at still
  · refine ⟨⟨-ENOENT, "The index does not exist."⟩, ⟨mc.indexNamespace, pm, mc.namespace⟩, ?_,
      by simp [old]; decide, fun was => (old was).elim, fun _ => ⟨h.matched, h.directories⟩⟩
    have missing := mt (IndexNamespace.registered_iff hr).mpr old
    simp only [serveIndex, removeIndex, IndexNamespace.remove_missing hr missing, bind, Except.bind,
      pure, Except.pure]
    rfl

theorem Aligned.matches_iff (h : Aligned mc) {r : IndexRequest} (valid : r.Valid) :
    mc.Matches r ↔ mc.Harmless r := by
  cases r with
  | create now request =>
    obtain ⟨status, mc', out, aligned, ok⟩ := h.create now valid.1 valid.2
    exact iff_of_true ⟨status, mc', out, aligned.matched, ok⟩ trivial
  | remove root name =>
    obtain ⟨status, mc', out, ok, broken, aligned⟩ := h.remove root name valid.1 valid.2
    constructor
    · rintro ⟨_, _, out', matched, -⟩ old
      cases out.symm.trans out'
      exact broken old matched
    · intro new
      exact ⟨status, mc', out, (aligned new).matched, ok⟩

theorem Aligned.step (h : Aligned mc) {r : IndexRequest} (valid : r.Valid)
    (harmless : mc.Harmless r) {mc' : MasterController} (ran : mc.stepIndex r = .ok mc') :
    Aligned mc' := by
  cases r with
  | create now request =>
    obtain ⟨status, mc₁, out, aligned, -⟩ := h.create now valid.1 valid.2
    rw [stepIndex, out] at ran
    cases ran
    exact aligned
  | remove root name =>
    obtain ⟨status, mc₁, out, -, -, aligned⟩ := h.remove root name valid.1 valid.2
    rw [stepIndex, out] at ran
    cases ran
    exact aligned harmless

/-! ## Runs -/

/-- A master over empty stores. -/
def fresh (counter : ObjectId) : MasterController := { «namespace» := Namespace.open_ ∅ counter }

omit [ThriftSerialize FileMetadata] [ThriftSerialize IndexNamespaceNode] [LawfulFsPath] in
theorem aligned_fresh (counter : ObjectId) : Aligned (fresh counter) := by
  refine ⟨fun root name hr _ => ?_, fun path known => ?_⟩
  · rw [IndexNamespace.registered_iff hr]
    simp [fresh, Namespace.open_, IndexNamespace.namesAt]
  · simp [fresh, Namespace.open_] at known

/-- In a run of requests to a master that starts with empty stores, every request does what
it has to exactly when no request removes an index that is registered. -/
theorem registration_matches_iff (counter : ObjectId) (requests : List IndexRequest)
    (valid : ∀ r ∈ requests, r.Valid) :
    Meets stepIndex Matches (fresh counter) requests ↔
      Meets stepIndex Harmless (fresh counter) requests := by
  refine Meets.iff_of_invariant (fun mc r hr h => h.matches_iff (valid r hr)) ?_
    (aligned_fresh counter)
  intro mc mc' r hr h keeps ran
  exact h.step (valid r hr) ((h.matches_iff (valid r hr)).mp keeps) ran

end MasterController

section Example

attribute [local instance] Posix.fsPath BinaryProtocol.fileMetadataThrift
  BinaryProtocol.indexNamespaceNodeThrift

namespace MasterController

/-- A request for an index on a directory. -/
def indexOn (root name : String) : IndexCreateRequest :=
  ⟨root.toList, name.toList, 0, 0, 0o755, 0, 0⟩

/-- Indices on two directories, one of them asked for twice, and one that is missing. -/
def duplicateIndex : List IndexRequest :=
  [.create 0 (indexOn "/" "size"), .create 1 (indexOn "/" "size"), .remove "/".toList "uid".toList,
    .create 2 (indexOn "/foo" "size")]

theorem duplicateIndex_matches : Meets stepIndex Matches (fresh 0) duplicateIndex := by
  refine (registration_matches_iff 0 duplicateIndex fun r hr => ?_).mpr (by decide +kernel)
  simp only [duplicateIndex, List.mem_cons, List.not_mem_nil, or_false] at hr
  rcases hr with rfl | rfl | rfl | rfl
  · exact ⟨.root, by decide⟩
  · exact ⟨.root, by decide⟩
  · exact ⟨.root, by decide⟩
  · exact ⟨.top (by decide), by decide⟩

/-- The directory of an index that was removed is still there, and the index cannot be
created again. -/
theorem removed_index_keeps_directory :
    ∃ mc, run stepIndex (fresh 0)
        [.create 0 (indexOn "/" "size"), .remove "/".toList "size".toList] = .ok mc ∧
      ¬ mc.indexNamespace.Registered "/".toList "size".toList ∧
      PathUtil.indexPath "/".toList "size".toList ∈ mc.namespace.directories ∧
      ∃ mc', mc.serveIndex (.create 1 (indexOn "/" "size")) = .ok (.systemError EEXIST, mc') :=
  ⟨_, rfl, by decide +kernel, by decide +kernel, _, rfl⟩

end MasterController

end Example

end Vsfs.Masterd

import Vsfs.Masterd.Answers
import Vsfs.Masterd.Loading

/-!
# Stores that a master can start from

`init` needs more of a store than any single request checks: every key has a known prefix,
and the parent of every listed entry is a stored directory. Most requests keep it so. The
exceptions are a `create_index` on a path that is not absolute, the listing of a name whose
path has another parent or whose parent is stored without a directory's mode, and a
`setattr` that takes the directory's mode away from a path with entries.

## Main results

* `master_can_restart` : a master whose requests avoid these three can be restarted after
  any of them.
-/

namespace Vsfs.Masterd

open Std FiniteMap

namespace Namespace

/-! ## The namespace -/

section

variable [FsPath] [ThriftSerialize FileMetadata]

/-- The store can be loaded again. -/
structure Bootable (ns : Namespace) : Prop extends Mirrored ns, Tidy ns where
  kinds : ∀ {k : Str}, k ∈ ns.store → isMetadataKey k ∨ isListingKey k ∨ isSystemKey k
  entries : ∀ {k : Str}, k ∈ ns.store → isListingKey k → ∃ p d s,
    ns.directories[p]? = some d ∧ s ∈ d.subfiles ∧ k = directoryMapKey (FsPath.join p s)
  listed : ∀ {p : Str} {d : Directory} {s : Str}, ns.directories[p]? = some d →
    s ∈ d.subfiles → FsPath.parentPath (FsPath.join p s) = p ∧
      ∃ m, ns.metadataMap[p]? = some m ∧ S_ISDIR m.mode

theorem Bootable.empty (counter : ObjectId) : Bootable { nextObjId := counter } :=
  { Mirrored.empty counter, Tidy.empty counter with
    kinds := by simp
    entries := by simp
    listed := by simp }

/-- What a request must not do to the store. -/
def KeepsBootable (ns : Namespace) : Request → Prop
  | .create path _ _ _ _ => isMetadataKey path
  | .mkdir path _ _ _ _ => isMetadataKey path
  | .addSubfile parent subfile => ∀ d, ns.directories[parent]? = some d → subfile ∉ d.subfiles →
      FsPath.parentPath (FsPath.join parent subfile) = parent ∧
        ∀ m, ns.metadataMap[parent]? = some m → S_ISDIR m.mode
  | .setattr path info => ∀ m d, ns.metadataMap[path]? = some m →
      ns.directories[path]? = some d → d.subfiles.isEmpty = false →
      S_ISDIR (FileMetadata.assign m info).mode
  | _ => True

theorem Bootable.kinds_insert {ns : Namespace} (h : Bootable ns) {path : Str}
    (kind : isMetadataKey path ∨ isListingKey path ∨ isSystemKey path) {value k : Str}
    (hk : k ∈ ns.store.insert path value) :
    isMetadataKey k ∨ isListingKey k ∨ isSystemKey k := by
  rcases ExtTreeMap.mem_insert.mp hk with same | hk
  · exact compare_eq_iff_eq.mp same ▸ kind
  · exact h.kinds hk

theorem Bootable.withFile {ns : Namespace} (h : Bootable ns) {path : Str} {m : FileMetadata}
    (kind : isMetadataKey path) (absent : ns.metadataMap[path]? = none) :
    Bootable (ns.withFile path m) := by
  have unlisted := not_isListingKey_of_isMetadataKey kind
  have new : path ∉ ns.directories := fun hd => (not_mem_iff _ _).mpr absent (h.known hd)
  refine { h.toMirrored.insert kind rfl rfl, h.toTidy.withFile absent with
    kinds := h.kinds_insert (.inl kind), entries := ?_, listed := ?_ }
  · intro k hk listing
    have old := h.entries (k := k)
    simp only [withFile_store, withFile_directories, ExtTreeMap.mem_insert,
      Std.compare_eq_iff_eq] at hk ⊢
    grind
  · intro p d s hd hs
    have old := h.listed hd hs
    simp only [withFile_metadataMap, getElem?_insert]
    grind

theorem Bootable.withDirectory {ns : Namespace} (h : Bootable ns) {path : Str}
    {m : FileMetadata} (kind : isMetadataKey path) (absent : ns.metadataMap[path]? = none) :
    Bootable (ns.withDirectory path m) := by
  have unlisted := not_isListingKey_of_isMetadataKey kind
  have unknown : path ∉ ns.metadataMap := (not_mem_iff _ _).mpr absent
  have new : path ∉ ns.directories := fun hd => unknown (h.known hd)
  have none := (not_mem_iff _ _).mp new
  refine { h.toMirrored.insert kind rfl rfl, h.toTidy.withDirectory absent with
    kinds := h.kinds_insert (.inl kind), entries := ?_, listed := ?_ }
  · intro k hk listing
    have old := h.entries (k := k)
    simp only [withDirectory_store, withDirectory_directories, ExtTreeMap.mem_insert,
      Std.compare_eq_iff_eq, getElem?_insertIfNew] at hk ⊢
    grind
  · intro p d s hd hs
    simp only [withDirectory_directories, getElem?_insertIfNew] at hd
    split at hd
    · obtain rfl := Option.some.inj hd
      exact absurd hs ExtTreeSet.not_mem_empty
    · have old := h.listed hd hs
      simp only [withDirectory_metadataMap, getElem?_insert]
      grind

theorem Bootable.withoutFile {ns : Namespace} (h : Bootable ns) {path : Str}
    {m : FileMetadata} (found : ns.metadataMap[path]? = some m)
    (mapped : ns.idToPathMap[m.objectId]? = some path) :
    Bootable (ns.withoutFile path m.objectId) := by
  have file := (h.files mapped).1
  refine { h.toMirrored.erase rfl rfl, h.toTidy.withoutFile found mapped with
    kinds := ?_, entries := ?_, listed := ?_ }
  · intro k hk
    exact h.kinds (ExtTreeMap.mem_erase.mp hk).2
  · intro k hk listing
    exact h.entries (ExtTreeMap.mem_erase.mp hk).2 listing
  · intro p d s hd hs
    have old := h.listed hd hs
    have here : p ∈ ns.directories := (mem_iff_exists _ _).mpr ⟨d, hd⟩
    simp only [withoutFile_metadataMap, getElem?_erase]
    grind

theorem Bootable.withoutDirectory {ns : Namespace} (h : Bootable ns) {path : Str}
    {dir : Directory} (found : ns.directories[path]? = some dir)
    (empty : dir.subfiles.isEmpty = true) : Bootable (ns.withoutDirectory path) := by
  have here : path ∈ ns.directories := (mem_iff_exists _ _).mpr ⟨dir, found⟩
  have gone (s : Str) : s ∉ dir.subfiles := by
    rw [ExtTreeSet.isEmpty_iff.mp empty]
    exact ExtTreeSet.not_mem_empty
  refine { h.toMirrored.erase rfl rfl, h.toTidy.withoutDirectory found with
    kinds := ?_, entries := ?_, listed := ?_ }
  · intro k hk
    exact h.kinds (ExtTreeMap.mem_erase.mp hk).2
  · intro k hk listing
    obtain ⟨p, d, s, hd, hs, key⟩ := h.entries (ExtTreeMap.mem_erase.mp hk).2 listing
    have other : path ≠ p := by
      rintro rfl
      rw [found] at hd
      exact gone s (Option.some.inj hd ▸ hs)
    exact ⟨p, d, s, by rw [withoutDirectory_directories, getElem?_erase, if_neg other, hd],
      hs, key⟩
  · intro p d s hd hs
    have old := h.listed (p := p) (d := d) (s := s)
    simp only [withoutDirectory_directories, withoutDirectory_metadataMap, getElem?_erase] at hd ⊢
    grind

theorem Bootable.withSubfile {ns : Namespace} (h : Bootable ns) {parent subfile : Str}
    {dir : Directory} (found : ns.directories[parent]? = some dir)
    (split : FsPath.parentPath (FsPath.join parent subfile) = parent)
    (type : ∀ m, ns.metadataMap[parent]? = some m → S_ISDIR m.mode) :
    Bootable (ns.withSubfile parent dir subfile) := by
  have here : parent ∈ ns.directories := (mem_iff_exists _ _).mpr ⟨dir, found⟩
  obtain ⟨m, hm⟩ := (mem_iff_exists _ _).mp (h.known here)
  have mirrored : Mirrored (ns.withSubfile parent dir subfile) := by
    refine h.toMirrored.relist rfl fun p hp => ?_
    rw [withSubfile_store, getElem?_insert, if_neg (ne_directoryMapKey hp _)]
  have tidy : Tidy (ns.withSubfile parent dir subfile) := h.toTidy.relist found rfl rfl rfl
  refine { mirrored, tidy with
    kinds := h.kinds_insert (.inr (.inl (isListingKey_directoryMapKey _)))
    entries := ?_, listed := ?_ }
  · intro k hk listing
    rcases ExtTreeMap.mem_insert.mp hk with same | hk
    · refine ⟨parent, ⟨dir.subfiles.insert subfile⟩, subfile, ?_, by simp,
        (compare_eq_iff_eq.mp same).symm⟩
      rw [withSubfile_directories, getElem?_insert, if_pos rfl]
    · obtain ⟨p, d, s, hd, hs, key⟩ := h.entries hk listing
      by_cases same : parent = p
      · subst same
        rw [found] at hd
        refine ⟨parent, ⟨dir.subfiles.insert subfile⟩, s, ?_, ?_, key⟩
        · rw [withSubfile_directories, getElem?_insert, if_pos rfl]
        · exact ExtTreeSet.mem_insert.mpr (.inr (Option.some.inj hd ▸ hs))
      · exact ⟨p, d, s, by rw [withSubfile_directories, getElem?_insert, if_neg same, hd],
          hs, key⟩
  · intro p d s hd hs
    simp only [withSubfile_directories, getElem?_insert] at hd
    split at hd
    · rename_i same
      subst same
      obtain rfl := Option.some.inj hd
      rcases ExtTreeSet.mem_insert.mp hs with same | hs
      · rw [← compare_eq_iff_eq.mp same]
        exact ⟨split, m, hm, type m hm⟩
      · exact h.listed found hs
    · exact h.listed hd hs

theorem Bootable.withoutSubfile {ns : Namespace} (h : Bootable ns) {parent subfile : Str}
    {dir : Directory} (found : ns.directories[parent]? = some dir) :
    Bootable (ns.withoutSubfile parent dir subfile) := by
  have here : parent ∈ ns.directories := (mem_iff_exists _ _).mpr ⟨dir, found⟩
  have mirrored : Mirrored (ns.withoutSubfile parent dir subfile) := by
    refine h.toMirrored.relist rfl fun p hp => ?_
    rw [withoutSubfile_store, getElem?_erase, if_neg (ne_directoryMapKey hp _)]
  have tidy : Tidy (ns.withoutSubfile parent dir subfile) := h.toTidy.relist found rfl rfl rfl
  refine { mirrored, tidy with kinds := ?_, entries := ?_, listed := ?_ }
  · intro k hk
    exact h.kinds (ExtTreeMap.mem_erase.mp hk).2
  · -- The key is another one, so its entry is not the one that was taken out.
    intro k hk listing
    obtain ⟨different, hk⟩ := ExtTreeMap.mem_erase.mp hk
    obtain ⟨p, d, s, hd, hs, key⟩ := h.entries hk listing
    by_cases same : parent = p
    · subst same
      rw [found] at hd
      refine ⟨parent, ⟨dir.subfiles.erase subfile⟩, s, ?_, ?_, key⟩
      · rw [withoutSubfile_directories, getElem?_insert, if_pos rfl]
      · refine ExtTreeSet.mem_erase.mpr ⟨fun e => different ?_, Option.some.inj hd ▸ hs⟩
        rw [Std.compare_eq_iff_eq] at e ⊢
        rw [key, e]
    · exact ⟨p, d, s, by rw [withoutSubfile_directories, getElem?_insert, if_neg same, hd],
        hs, key⟩
  · intro p d s hd hs
    simp only [withoutSubfile_directories, getElem?_insert] at hd
    split at hd
    · rename_i same
      subst same
      obtain rfl := Option.some.inj hd
      exact h.listed found (ExtTreeSet.mem_erase.mp hs).2
    · exact h.listed hd hs

theorem Bootable.withMetadata {ns : Namespace} (h : Bootable ns) {path : Str}
    {m m' : FileMetadata} (found : ns.metadataMap[path]? = some m)
    (oid : m'.objectId = m.objectId)
    (type : ∀ d, ns.directories[path]? = some d → d.subfiles.isEmpty = false → S_ISDIR m'.mode) :
    Bootable (ns.withMetadata path m') := by
  have kind := h.absolute found
  have unlisted := not_isListingKey_of_isMetadataKey kind
  refine { h.toMirrored.insert kind rfl rfl, h.toTidy.withMetadata found oid with
    kinds := h.kinds_insert (.inl kind), entries := ?_, listed := ?_ }
  · intro k hk listing
    have old := h.entries (k := k)
    simp only [withMetadata_store, withMetadata_directories, ExtTreeMap.mem_insert,
      Std.compare_eq_iff_eq] at hk ⊢
    grind
  · intro p d s hd hs
    have old := h.listed hd hs
    have full : d.subfiles.isEmpty = false := by
      rw [Bool.eq_false_iff]
      intro empty
      rw [ExtTreeSet.isEmpty_iff.mp empty] at hs
      exact ExtTreeSet.not_mem_empty hs
    simp only [withMetadata_metadataMap, getElem?_insert]
    split
    · rename_i same
      subst same
      exact ⟨old.1, m', rfl, type d hd full⟩
    · exact old

variable [PathHash]

theorem Bootable.effect {ns ns' : Namespace} {r : Request} (h : Bootable ns)
    (e : Effect ns r ns') (keeps : ns.KeepsBootable r) : Bootable ns' := by
  cases e with
  | refused => exact h
  | create absent => exact h.withFile keeps absent
  | remove found _ mapped => exact h.withoutFile found mapped
  | mkdir absent => exact h.withDirectory keeps absent
  | rmdir found empty => exact h.withoutDirectory found empty
  | addSubfile found new => exact h.withSubfile found (keeps _ found new).1 (keeps _ found new).2
  | removeSubfile found => exact h.withoutSubfile found
  | setattr found => exact h.withMetadata found rfl (fun d => keeps _ d found)

end

theorem Bootable.loadable [FsPath] [Thrift FileMetadata] [LawfulThrift FileMetadata]
    {ns : Namespace} (h : Bootable ns) : Loadable ns.store.records := by
  have stored {k v : Str} (hk : (k, v) ∈ ns.store.records) : k ∈ ns.store :=
    (mem_iff_exists _ _).mpr ⟨v, LevelDBStore.mem_records.mp hk⟩
  refine ⟨ns.store.records_sorted, fun hk => h.kinds (stored hk), fun {k v} hk kind => ?_,
    fun {k v} hk kind => ?_⟩
  · obtain ⟨m, -, read⟩ := h.read kind (LevelDBStore.mem_records.mp hk)
    exact ⟨m, read⟩
  · obtain ⟨p, d, s, hd, hs, rfl⟩ := h.entries (stored hk) kind
    obtain ⟨split, m, hm, dir⟩ := h.listed hd hs
    have absolute := h.absolute hm
    rw [drop_directoryMapKey, split]
    refine ⟨absolute, ThriftSerialize.serialize m, m, ?_, LawfulThrift.deserialize_serialize m,
      dir⟩
    rw [LevelDBStore.mem_records, h.stored absolute, hm]
    rfl

end Namespace

/-! ## The master -/

namespace MasterServer

open Namespace

section

variable [FsPath] [PathHash] [ThriftSerialize FileMetadata] [ThriftSerialize IndexNamespaceNode]

/-- A call on the master, with the time at which it is handled. -/
structure Call where
  now : Double
  {answer : Type}
  rpc : MasterRpc answer

def step (mc : MasterController) (c : Call) : Cpp MasterController :=
  (handle mc c.now c.rpc).map (·.2)

/-- What a call must not do for the master to start again: create an index whose path does
not begin with a slash, list a name that is not split off again or under a path without a
directory's mode, or take the directory's mode from a path with entries. -/
def KeepsRestartable (mc : MasterController) {α : Type} : MasterRpc α → Prop
  | .createIndex index => isMetadataKey (PathUtil.indexPath index.root index.name)
  | .addSubfile parent subfile => mc.namespace.KeepsBootable (.addSubfile parent subfile)
  | .setattr path info => mc.namespace.KeepsBootable (.setattr path info)
  | _ => True

omit [PathHash] [ThriftSerialize FileMetadata] [ThriftSerialize IndexNamespaceNode] in
theorem keepsBootable_of_issues [LawfulFsPath] {mc : MasterController} {c : Call} {r : Request}
    (keeps : KeepsRestartable mc c.rpc) (issues : Issues c.now c.rpc r) :
    mc.namespace.KeepsBootable r := by
  obtain ⟨now, rpc⟩ := c
  cases issues with
  | mkdir valid =>
    obtain ⟨rest, rfl⟩ := LawfulFsPath.head_of_isAbsolute valid
    exact isMetadataKey_cons rest
  | create valid =>
    obtain ⟨rest, rfl⟩ := LawfulFsPath.head_of_isAbsolute valid
    exact isMetadataKey_cons rest
  | createIndex => exact keeps
  | addSubfile => exact keeps
  | setattr => exact keeps
  | _ => trivial

theorem bootable_of_step [LawfulFsPath] {mc mc' : MasterController} {c : Call}
    (h : Bootable mc.namespace) (hs : step mc c = .ok mc') (keeps : KeepsRestartable mc c.rpc) :
    Bootable mc'.namespace := by
  unfold step at hs
  cases hh : handle mc c.now c.rpc with
  | error e => simp [hh, Except.map] at hs
  | ok out =>
    rw [hh] at hs
    cases hs
    rcases namespace_of_handle hh with same | ⟨r, issues, e⟩
    · rwa [same]
    · exact h.effect e (keepsBootable_of_issues keeps issues)

end

section Restart

variable [FsPath] [LawfulFsPath] [PathHash] [Thrift FileMetadata] [LawfulThrift FileMetadata]
  [ThriftSerialize IndexNamespaceNode]

/-- From an empty store, after any calls that are all of the harmless kind and do not take
the process down, a new process over the store starts up. -/
theorem master_can_restart (start : ObjectId) (calls : List Call)
    (keeps : Transition.Meets step (fun mc c => KeepsRestartable mc c.rpc)
      { «namespace» := { nextObjId := start } } calls)
    (mc : MasterController)
    (run : Transition.run step { «namespace» := { nextObjId := start } } calls = .ok mc)
    (counter : ObjectId) :
    ∃ ns, (Namespace.open_ mc.namespace.store counter).init .OK = .ok (.OK, ns) := by
  have bootable : Bootable mc.namespace :=
    Transition.run_preserves (fun _ _ _ h hs keeps => bootable_of_step h hs keeps)
      (Bootable.empty start) keeps run
  obtain ⟨ns, hinit, -⟩ := load_spec bootable.loadable counter
  exact ⟨ns, hinit⟩

end Restart

section Example

attribute [local instance] Posix.fsPath Md5.pathHash BinaryProtocol.fileMetadataThrift
  BinaryProtocol.indexNamespaceNode

def directory (path : String) : Call :=
  ⟨0, .mkdir path.toList { mode := some 0o755, uid := some 0, gid := some 0 }⟩

def index (root name : String) : Call :=
  ⟨0, .createIndex ⟨root.toList, name.toList, 1, 1, 0o755, 0, 0⟩⟩

/-- An index on a directory that is listed in the root. -/
def indexedDirectory : List Call :=
  [directory "/", directory "/d", ⟨0, .addSubfile "/".toList "d".toList⟩, index "/d" "size"]

/-- The directory of an index whose root is not absolute has a key that `init` rejects. -/
theorem relative_index_stops_restart :
    ¬ ∀ (start : ObjectId) (calls : List Call) (mc : MasterController),
      Transition.run step { «namespace» := { nextObjId := start } } calls = .ok mc →
      ∀ counter : ObjectId,
        ∃ ns, (Namespace.open_ mc.namespace.store counter).init .OK = .ok (.OK, ns) := by
  intro restarts
  have outcome : (Transition.run step { «namespace» := { nextObjId := 0 } } [index "a" "n"]).bind
      (fun mc => ((Namespace.open_ mc.namespace.store 0).init .OK).map (·.1)) =
        .ok corrupted := by
    decide +kernel
  cases run : Transition.run step { «namespace» := { nextObjId := 0 } } [index "a" "n"] with
  | error e =>
    rw [run] at outcome
    cases outcome
  | ok mc =>
    obtain ⟨ns, hinit⟩ := restarts 0 [index "a" "n"] mc run 0
    rw [run] at outcome
    simp only [Except.bind, hinit, Except.map] at outcome
    exact absurd (Except.ok.inj outcome) (by decide)

theorem indexedDirectory_can_restart :
    ∃ mc, Transition.run step { «namespace» := { nextObjId := 0 } } indexedDirectory = .ok mc ∧
      ∃ ns, (Namespace.open_ mc.namespace.store 3).init .OK = .ok (.OK, ns) := by
  have keeps : Transition.Meets step (fun mc c => KeepsRestartable mc c.rpc)
      { «namespace» := { nextObjId := 0 } } indexedDirectory := by
    refine ⟨trivial, fun mc₁ h₁ => ⟨trivial, fun mc₂ h₂ => ⟨?_, fun _ _ => ⟨?_, fun _ _ =>
      trivial⟩⟩⟩⟩
    · intro d found new
      refine ⟨by decide, fun m hm => ?_⟩
      have mode : ((step { «namespace» := { nextObjId := 0 } } (directory "/")).bind
          (fun mc => step mc (directory "/d"))).map
          (fun mc => (mc.namespace.metadataMap["/".toList]?).map (·.mode)) =
            .ok (some 0o40755) := by
        decide +kernel
      rw [h₁] at mode
      simp only [Except.bind, h₂, Except.map, hm] at mode
      have type : m.mode = 0o40755 := Option.some.inj (Except.ok.inj mode)
      rw [type]
      decide
    · exact ⟨_, rfl⟩
  have ok : (Transition.run step { «namespace» := { nextObjId := 0 } }
      indexedDirectory).toBool = true := by
    decide +kernel
  cases run : Transition.run step { «namespace» := { nextObjId := 0 } } indexedDirectory with
  | error e =>
    rw [run] at ok
    cases ok
  | ok mc => exact ⟨mc, rfl, master_can_restart 0 indexedDirectory keeps mc run 3⟩

end Example

end MasterServer

end Vsfs.Masterd

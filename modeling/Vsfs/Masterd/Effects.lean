import Vsfs.Lib.Transition
import Vsfs.Masterd.Namespace

/-!
# Requests to a namespace

The requests that change a namespace, and `Effect`, which says once what each of them can
do to its maps and its store while the store does not fail. `Tidy` is what every request
keeps: directories and files have a record each, and no path is both.
-/

namespace Vsfs.Masterd

open Std FiniteMap

/-- A request that changes the namespace. -/
inductive Request where
  | create (path : Str) (mode uid gid : BitVec 32) (now : Double)
  | remove (path : Str)
  | mkdir (path : Str) (mode uid gid : BitVec 32) (now : Double)
  | rmdir (path : Str)
  | addSubfile (parent subfile : Str)
  | removeSubfile (parent subfile : Str)
  | setattr (path : Str) (info : RpcFileInfo)

namespace Request

def isCreate : Request → Bool
  | .create .. => true
  | _ => false

end Request

namespace Namespace

section Effects

variable [FsPath] [PathHash] [ThriftSerialize FileMetadata]

/-- One request, with a store that does not fail. -/
def step (ns : Namespace) : Request → Cpp Namespace
  | .create path mode uid gid now => (ns.create .OK now path mode uid gid).map (·.2.2)
  | .remove path => (ns.remove .OK path).map (·.2.2)
  | .mkdir path mode uid gid now => .ok (ns.mkdir .OK now path mode uid gid).2
  | .rmdir path => .ok (ns.rmdir .OK path).2
  | .addSubfile parent subfile => .ok (ns.addSubfile .OK parent subfile).2
  | .removeSubfile parent subfile => .ok (ns.removeSubfile .OK parent subfile).2
  | .setattr path info => .ok (ns.setattr .OK path info).2

/-! ## Effects -/

/-- The id the next file gets. -/
def nextId (ns : Namespace) (path : Str) : ObjectId :=
  objectIdOf (PathHash.pathToHash path) ns.nextObjId

@[simps] def withFile (ns : Namespace) (path : Str) (metadata : FileMetadata) : Namespace where
  store := ns.store.insert path (ThriftSerialize.serialize metadata)
  directories := ns.directories
  metadataMap := ns.metadataMap.insert path metadata
  idToPathMap := ns.idToPathMap.insert metadata.objectId path
  nextObjId := ns.nextObjId + 1

@[simps] def withoutFile (ns : Namespace) (path : Str) (oid : ObjectId) : Namespace where
  store := ns.store.erase path
  directories := ns.directories
  metadataMap := ns.metadataMap.erase path
  idToPathMap := ns.idToPathMap.erase oid
  nextObjId := ns.nextObjId

@[simps] def withDirectory (ns : Namespace) (path : Str) (metadata : FileMetadata) :
    Namespace where
  store := ns.store.insert path (ThriftSerialize.serialize metadata)
  directories := ns.directories.insertIfNew path {}
  metadataMap := ns.metadataMap.insert path metadata
  idToPathMap := ns.idToPathMap
  nextObjId := ns.nextObjId

@[simps] def withoutDirectory (ns : Namespace) (path : Str) : Namespace where
  store := ns.store.erase path
  directories := ns.directories.erase path
  metadataMap := ns.metadataMap.erase path
  idToPathMap := ns.idToPathMap
  nextObjId := ns.nextObjId

@[simps] def withSubfile (ns : Namespace) (parent : Str) (dir : Directory) (subfile : Str) :
    Namespace where
  store := ns.store.insert (directoryMapKey (FsPath.join parent subfile)) []
  directories := ns.directories.insert parent ⟨dir.subfiles.insert subfile⟩
  metadataMap := ns.metadataMap
  idToPathMap := ns.idToPathMap
  nextObjId := ns.nextObjId

@[simps] def withoutSubfile (ns : Namespace) (parent : Str) (dir : Directory) (subfile : Str) :
    Namespace where
  store := ns.store.erase (directoryMapKey (FsPath.join parent subfile))
  directories := ns.directories.insert parent ⟨dir.subfiles.erase subfile⟩
  metadataMap := ns.metadataMap
  idToPathMap := ns.idToPathMap
  nextObjId := ns.nextObjId

@[simps] def withMetadata (ns : Namespace) (path : Str) (metadata : FileMetadata) :
    Namespace where
  store := ns.store.insert path (ThriftSerialize.serialize metadata)
  directories := ns.directories
  metadataMap := ns.metadataMap.insert path metadata
  idToPathMap := ns.idToPathMap
  nextObjId := ns.nextObjId

/-- Everything a request can do while the store does not fail. -/
inductive Effect (ns : Namespace) : Request → Namespace → Prop where
  | refused (r : Request) : Effect ns r ns
  | create {path : Str} {mode uid gid : BitVec 32} {now : Double}
      (absent : ns.metadataMap[path]? = none) :
      Effect ns (.create path mode uid gid now)
        (ns.withFile path (newFile (ns.nextId path) mode uid gid now))
  | remove {path : Str} {metadata : FileMetadata}
      (found : ns.metadataMap[path]? = some metadata) (file : ¬ S_ISDIR metadata.mode)
      (mapped : ns.idToPathMap[metadata.objectId]? = some path) :
      Effect ns (.remove path) (ns.withoutFile path metadata.objectId)
  | mkdir {path : Str} {mode uid gid : BitVec 32} {now : Double}
      (absent : ns.metadataMap[path]? = none) :
      Effect ns (.mkdir path mode uid gid now)
        (ns.withDirectory path (newDirectory mode uid gid now))
  | rmdir {path : Str} {dir : Directory} (found : ns.directories[path]? = some dir)
      (empty : dir.subfiles.isEmpty = true) : Effect ns (.rmdir path) (ns.withoutDirectory path)
  | addSubfile {parent subfile : Str} {dir : Directory}
      (found : ns.directories[parent]? = some dir) (new : subfile ∉ dir.subfiles) :
      Effect ns (.addSubfile parent subfile) (ns.withSubfile parent dir subfile)
  | removeSubfile {parent subfile : Str} {dir : Directory}
      (found : ns.directories[parent]? = some dir) (listed : subfile ∈ dir.subfiles) :
      Effect ns (.removeSubfile parent subfile) (ns.withoutSubfile parent dir subfile)
  | setattr {path : Str} {info : RpcFileInfo} {metadata : FileMetadata}
      (found : ns.metadataMap[path]? = some metadata) :
      Effect ns (.setattr path info) (ns.withMetadata path (FileMetadata.assign metadata info))

end Effects

/-! One equation for each operation that is not refused. -/

theorem create_absent [PathHash] [ThriftSerialize FileMetadata] {ns : Namespace} {path : Str}
    (mode uid gid : BitVec 32) (now : Double)
    (absent : ns.metadataMap[path]? = none) :
    ns.create .OK now path mode uid gid =
      if ns.idToPathMap[ns.nextId path]? = some path then
        .error (.check "The object ID and path pair has already existed")
      else .ok (.OK, some (ns.nextId path),
        ns.withFile path (newFile (ns.nextId path) mode uid gid now)) := by
  have new : path ∉ ns.metadataMap := (not_mem_iff _ _).mpr absent
  unfold nextId
  by_cases clash : ns.idToPathMap[objectIdOf (PathHash.pathToHash path) ns.nextObjId]? = some path
  · simp [create, new, getObjectId, containIdAndPath, clash]
  · simp [create, new, getObjectId, containIdAndPath, clash, storeMetadata, withFile, newFile]

theorem remove_file {ns : Namespace} {path : Str} {metadata : FileMetadata}
    (found : ns.metadataMap[path]? = some metadata) (file : ¬ S_ISDIR metadata.mode) :
    ns.remove .OK path =
      if ns.idToPathMap[metadata.objectId]? = some path then
        .ok (.OK, some metadata.objectId, ns.withoutFile path metadata.objectId)
      else .error (.check "The object ID and path pair dose not exist") := by
  by_cases mapped : ns.idToPathMap[metadata.objectId]? = some path
  · simp [remove, found, file, containIdAndPath, mapped, withoutFile]
  · simp [remove, found, file, containIdAndPath, mapped]

theorem mkdir_absent [ThriftSerialize FileMetadata] {ns : Namespace} {path : Str}
    (mode uid gid : BitVec 32) (now : Double)
    (absent : ns.metadataMap[path]? = none) :
    ns.mkdir .OK now path mode uid gid =
      (.OK, ns.withDirectory path (newDirectory mode uid gid now)) := by
  have new : path ∉ ns.metadataMap := (not_mem_iff _ _).mpr absent
  simp [mkdir, new, storeMetadata, withDirectory]

theorem rmdir_empty {ns : Namespace} {path : Str} {dir : Directory}
    (found : ns.directories[path]? = some dir) (empty : dir.subfiles.isEmpty = true) :
    ns.rmdir .OK path = (.OK, ns.withoutDirectory path) := by
  simp [rmdir, found, empty, withoutDirectory]

theorem addSubfile_new [FsPath] {ns : Namespace} {parent subfile : Str} {dir : Directory}
    (found : ns.directories[parent]? = some dir) (new : subfile ∉ dir.subfiles) :
    ns.addSubfile .OK parent subfile = (.OK, ns.withSubfile parent dir subfile) := by
  simp [addSubfile, found, new, withSubfile]

theorem removeSubfile_listed [FsPath] {ns : Namespace} {parent subfile : Str} {dir : Directory}
    (found : ns.directories[parent]? = some dir) (listed : subfile ∈ dir.subfiles) :
    ns.removeSubfile .OK parent subfile = (.OK, ns.withoutSubfile parent dir subfile) := by
  simp [removeSubfile, found, listed, withoutSubfile]

theorem setattr_found [ThriftSerialize FileMetadata] {ns : Namespace} {path : Str}
    {metadata : FileMetadata} (info : RpcFileInfo)
    (found : ns.metadataMap[path]? = some metadata) :
    ns.setattr .OK path info = (.OK, ns.withMetadata path (FileMetadata.assign metadata info)) := by
  simp [setattr, found, storeMetadata, withMetadata]

variable [FsPath] [PathHash] [ThriftSerialize FileMetadata]

theorem effect_of_step {ns ns' : Namespace} {r : Request} (h : ns.step r = .ok ns') :
    Effect ns r ns' := by
  cases r with
  | create path mode uid gid now =>
    cases found : ns.metadataMap[path]? with
    | none =>
      simp only [step, create_absent mode uid gid now found] at h
      split at h
      · cases h
      · cases h
        exact .create found
    | some metadata =>
      have old : path ∈ ns.metadataMap := (mem_iff_exists _ _).mpr ⟨_, found⟩
      simp only [step, create, old, if_true] at h
      cases h
      exact .refused _
  | remove path =>
    cases found : ns.metadataMap[path]? with
    | none =>
      simp only [step, remove, found] at h
      cases h
      exact .refused _
    | some metadata =>
      by_cases dir : S_ISDIR metadata.mode
      · simp only [step, remove, found, dir, if_true] at h
        cases h
        exact .refused _
      · simp only [step, remove_file found dir] at h
        split at h
        · cases h
          exact .remove found dir ‹_›
        · cases h
  | mkdir path mode uid gid now =>
    cases found : ns.metadataMap[path]? with
    | none =>
      simp only [step, mkdir_absent mode uid gid now found] at h
      cases h
      exact .mkdir found
    | some metadata =>
      have old : path ∈ ns.metadataMap := (mem_iff_exists _ _).mpr ⟨_, found⟩
      simp only [step, mkdir, old, if_true] at h
      cases h
      exact .refused _
  | rmdir path =>
    cases found : ns.directories[path]? with
    | none =>
      simp only [step, rmdir, found] at h
      cases h
      exact .refused _
    | some dir =>
      by_cases empty : dir.subfiles.isEmpty = true
      · simp only [step, rmdir_empty found empty] at h
        cases h
        exact .rmdir found empty
      · simp only [step, rmdir, found, empty] at h
        cases h
        exact .refused _
  | addSubfile parent subfile =>
    cases found : ns.directories[parent]? with
    | none =>
      simp only [step, addSubfile, found] at h
      cases h
      exact .refused _
    | some dir =>
      by_cases listed : subfile ∈ dir.subfiles
      · simp only [step, addSubfile, found, listed, if_true] at h
        cases h
        exact .refused _
      · simp only [step, addSubfile_new found listed] at h
        cases h
        exact .addSubfile found listed
  | removeSubfile parent subfile =>
    cases found : ns.directories[parent]? with
    | none =>
      simp only [step, removeSubfile, found] at h
      cases h
      exact .refused _
    | some dir =>
      by_cases listed : subfile ∈ dir.subfiles
      · simp only [step, removeSubfile_listed found listed] at h
        cases h
        exact .removeSubfile found listed
      · simp only [step, removeSubfile, found, listed, not_false_eq_true, if_true] at h
        cases h
        exact .refused _
  | setattr path info =>
    cases found : ns.metadataMap[path]? with
    | none =>
      simp only [step, setattr, found] at h
      cases h
      exact .refused _
    | some metadata =>
      simp only [step, setattr_found info found] at h
      cases h
      exact .setattr found

/-! ## Files and directories -/

omit [FsPath] [PathHash] [ThriftSerialize FileMetadata] in
/-- Every directory has a record, and an object id leads to the record of a file. -/
structure Tidy (ns : Namespace) : Prop where
  known : ∀ {p : Str}, p ∈ ns.directories → p ∈ ns.metadataMap
  files : ∀ {o : ObjectId} {p : Str}, ns.idToPathMap[o]? = some p →
    p ∉ ns.directories ∧ ∃ m, ns.metadataMap[p]? = some m ∧ m.objectId = o

omit [FsPath] [PathHash] [ThriftSerialize FileMetadata] in
theorem Tidy.empty (counter : ObjectId) : Tidy { nextObjId := counter } :=
  ⟨by simp, by simp⟩

omit [FsPath] [PathHash] in
theorem Tidy.withFile {ns : Namespace} (h : Tidy ns) {path : Str} {m : FileMetadata}
    (absent : ns.metadataMap[path]? = none) : Tidy (ns.withFile path m) := by
  have new : path ∉ ns.directories := fun hd => (not_mem_iff _ _).mpr absent (h.known hd)
  refine ⟨fun {p} hp => ?_, fun {o p} ho => ?_⟩
  · exact ExtTreeMap.mem_insert.mpr (.inr (h.known hp))
  · have old := h.files (o := o) (p := p)
    simp only [withFile_idToPathMap, withFile_directories, withFile_metadataMap,
      getElem?_insert] at ho ⊢
    grind

omit [FsPath] [PathHash] in
theorem Tidy.withDirectory {ns : Namespace} (h : Tidy ns) {path : Str} {m : FileMetadata}
    (absent : ns.metadataMap[path]? = none) : Tidy (ns.withDirectory path m) := by
  have unknown : path ∉ ns.metadataMap := (not_mem_iff _ _).mpr absent
  refine ⟨fun {p} hp => ?_, fun {o p} ho => ?_⟩
  · have old := h.known (p := p)
    simp only [withDirectory_directories, withDirectory_metadataMap, ExtTreeMap.mem_insertIfNew,
      ExtTreeMap.mem_insert, Std.compare_eq_iff_eq] at hp ⊢
    grind
  · have old := h.files (show ns.idToPathMap[o]? = some p from ho)
    simp only [withDirectory_directories, withDirectory_metadataMap, ExtTreeMap.mem_insertIfNew,
      getElem?_insert, Std.compare_eq_iff_eq]
    grind

omit [FsPath] [PathHash] [ThriftSerialize FileMetadata] in
theorem Tidy.withoutFile {ns : Namespace} (h : Tidy ns) {path : Str} {m : FileMetadata}
    (found : ns.metadataMap[path]? = some m)
    (mapped : ns.idToPathMap[m.objectId]? = some path) :
    Tidy (ns.withoutFile path m.objectId) := by
  have file := (h.files mapped).1
  refine ⟨fun {p} hp => ?_, fun {o p} ho => ?_⟩
  · have old := h.known hp
    simp only [withoutFile_metadataMap, withoutFile_directories, ExtTreeMap.mem_erase] at hp ⊢
    grind
  · have old := h.files (o := o) (p := p)
    simp only [withoutFile_idToPathMap, withoutFile_directories, withoutFile_metadataMap,
      getElem?_erase] at ho ⊢
    grind

omit [FsPath] [PathHash] [ThriftSerialize FileMetadata] in
theorem Tidy.withoutDirectory {ns : Namespace} (h : Tidy ns) {path : Str} {dir : Directory}
    (found : ns.directories[path]? = some dir) : Tidy (ns.withoutDirectory path) := by
  have here : path ∈ ns.directories := (mem_iff_exists _ _).mpr ⟨dir, found⟩
  refine ⟨fun {p} hp => ?_, fun {o p} ho => ?_⟩
  · have old := h.known (p := p)
    simp only [withoutDirectory_metadataMap, withoutDirectory_directories,
      ExtTreeMap.mem_erase] at hp ⊢
    grind
  · have old := h.files (show ns.idToPathMap[o]? = some p from ho)
    simp only [withoutDirectory_directories, withoutDirectory_metadataMap, getElem?_erase,
      ExtTreeMap.mem_erase]
    grind

omit [FsPath] [PathHash] [ThriftSerialize FileMetadata] in
/-- A change of a listing leaves the maps alone. -/
theorem Tidy.relist {ns ns' : Namespace} (h : Tidy ns) {path : Str} {old new : Directory}
    (found : ns.directories[path]? = some old) (metadata : ns'.metadataMap = ns.metadataMap)
    (ids : ns'.idToPathMap = ns.idToPathMap)
    (listing : ns'.directories = ns.directories.insert path new) : Tidy ns' := by
  have here : path ∈ ns.directories := (mem_iff_exists _ _).mpr ⟨old, found⟩
  refine ⟨fun {p} hp => ?_, fun {o p} ho => ?_⟩
  · have known := h.known (p := p)
    rw [listing, ExtTreeMap.mem_insert, Std.compare_eq_iff_eq] at hp
    rw [metadata]
    grind
  · rw [ids] at ho
    have files := h.files ho
    rw [listing, metadata, ExtTreeMap.mem_insert, Std.compare_eq_iff_eq]
    grind

omit [FsPath] [PathHash] in
theorem Tidy.withMetadata {ns : Namespace} (h : Tidy ns) {path : Str} {m m' : FileMetadata}
    (found : ns.metadataMap[path]? = some m) (oid : m'.objectId = m.objectId) :
    Tidy (ns.withMetadata path m') := by
  refine ⟨fun {p} hp => ?_, fun {o p} ho => ?_⟩
  · exact ExtTreeMap.mem_insert.mpr (.inr (h.known hp))
  · have old := h.files (show ns.idToPathMap[o]? = some p from ho)
    simp only [withMetadata_directories, withMetadata_metadataMap, getElem?_insert]
    grind

theorem Tidy.effect {ns ns' : Namespace} {r : Request} (h : Tidy ns) (e : Effect ns r ns') :
    Tidy ns' := by
  cases e with
  | refused => exact h
  | create absent => exact h.withFile absent
  | remove found _ mapped => exact h.withoutFile found mapped
  | mkdir absent => exact h.withDirectory absent
  | rmdir found => exact h.withoutDirectory found
  | addSubfile found => exact h.relist found rfl rfl rfl
  | removeSubfile found => exact h.relist found rfl rfl rfl
  | setattr found => exact h.withMetadata found rfl

end Namespace

end Vsfs.Masterd

import Vsfs.Common.Md5
import Vsfs.Masterd.Effects
import Vsfs.Rpc.BinaryProtocol

/-!
# The maps of a namespace

The three maps of `Namespace` are updated separately by seven operations. They stay
consistent as long as every new file gets an object id that no file has, which the counter
guarantees for fewer than `2 ^ 48` files.

## Main results

* `maps_stay_consistent` : during one lifetime the reverse map inverts the object ids of
  the files, the listings belong to the directories, and no check fails.
-/

namespace Vsfs.Masterd.Namespace

open Std FiniteMap

/-- The maps agree: the reverse map is the inverse of the object ids of the files, and
the directories are the paths with a directory's mode. -/
structure Consistent (ns : Namespace) : Prop where
  ids : ∀ {o : ObjectId} {p : Str}, ns.idToPathMap[o]? = some p ↔
    ∃ m, ns.metadataMap[p]? = some m ∧ ¬ S_ISDIR m.mode ∧ m.objectId = o
  dirs : ∀ {p : Str}, p ∈ ns.directories ↔ ∃ m, ns.metadataMap[p]? = some m ∧ S_ISDIR m.mode

theorem Consistent.empty (counter : ObjectId) : Consistent { nextObjId := counter } :=
  ⟨by simp, by simp⟩

/-- The file type of a path is not changed by a request: a new directory carries no other
type, and `setattr` leaves the type bits alone. -/
def KeepsType (ns : Namespace) : Request → Prop
  | .mkdir _ mode _ _ _ => mode &&& S_IFMT = 0 ∨ mode &&& S_IFMT = S_IFDIR
  | .setattr path info => ∀ m, ns.metadataMap[path]? = some m →
      (FileMetadata.assign m info).mode &&& S_IFMT = m.mode &&& S_IFMT
  | _ => True

/-! ## One step -/

theorem Consistent.withFile [ThriftSerialize FileMetadata] {ns : Namespace} (h : Consistent ns)
    {path : Str} {m : FileMetadata} (absent : ns.metadataMap[path]? = none)
    (file : ¬ S_ISDIR m.mode) (fresh : ns.idToPathMap[m.objectId]? = none) :
    Consistent (ns.withFile path m) := by
  refine ⟨fun {o p} => ?_, fun {p} => ?_⟩
  · have old := h.ids (o := o) (p := p)
    simp only [withFile_idToPathMap, withFile_metadataMap, getElem?_insert]
    grind
  · have old := h.dirs (p := p)
    simp only [withFile_directories, withFile_metadataMap, getElem?_insert]
    grind

theorem Consistent.withoutFile {ns : Namespace} (h : Consistent ns) {path : Str}
    {m : FileMetadata} (found : ns.metadataMap[path]? = some m) (file : ¬ S_ISDIR m.mode) :
    Consistent (ns.withoutFile path m.objectId) := by
  have mapped : ns.idToPathMap[m.objectId]? = some path := h.ids.mpr ⟨m, found, file, rfl⟩
  refine ⟨fun {o p} => ?_, fun {p} => ?_⟩
  · have old := h.ids (o := o) (p := p)
    simp only [withoutFile_idToPathMap, withoutFile_metadataMap, getElem?_erase]
    grind
  · have old := h.dirs (p := p)
    simp only [withoutFile_directories, withoutFile_metadataMap, getElem?_erase]
    grind

theorem Consistent.withDirectory [ThriftSerialize FileMetadata] {ns : Namespace}
    (h : Consistent ns) {path : Str} {m : FileMetadata}
    (absent : ns.metadataMap[path]? = none) (dir : S_ISDIR m.mode) :
    Consistent (ns.withDirectory path m) := by
  refine ⟨fun {o p} => ?_, fun {p} => ?_⟩
  · have old := h.ids (o := o) (p := p)
    simp only [withDirectory_idToPathMap, withDirectory_metadataMap, getElem?_insert]
    grind
  · have old := h.dirs (p := p)
    simp only [withDirectory_directories, withDirectory_metadataMap, getElem?_insert,
      ExtTreeMap.mem_insertIfNew, Std.compare_eq_iff_eq]
    grind

theorem Consistent.withoutDirectory {ns : Namespace} (h : Consistent ns) {path : Str}
    (found : path ∈ ns.directories) : Consistent (ns.withoutDirectory path) := by
  obtain ⟨m, hm, dir⟩ := h.dirs.mp found
  refine ⟨fun {o p} => ?_, fun {p} => ?_⟩
  · have old := h.ids (o := o) (p := p)
    simp only [withoutDirectory_idToPathMap, withoutDirectory_metadataMap, getElem?_erase]
    grind
  · have old := h.dirs (p := p)
    simp only [withoutDirectory_directories, withoutDirectory_metadataMap, getElem?_erase,
      ExtTreeMap.mem_erase]
    grind

/-- A change of a listing leaves the maps alone. -/
theorem Consistent.relist {ns ns' : Namespace} (h : Consistent ns) {path : Str} {dir : Directory}
    (found : path ∈ ns.directories) (metadata : ns'.metadataMap = ns.metadataMap)
    (ids : ns'.idToPathMap = ns.idToPathMap)
    (listing : ns'.directories = ns.directories.insert path dir) : Consistent ns' := by
  refine ⟨by rw [metadata, ids]; exact h.ids, fun {p} => ?_⟩
  have old := h.dirs (p := p)
  rw [listing, metadata]
  simp only [ExtTreeMap.mem_insert, Std.compare_eq_iff_eq]
  grind

theorem Consistent.withMetadata [ThriftSerialize FileMetadata] {ns : Namespace}
    (h : Consistent ns) {path : Str} {m m' : FileMetadata}
    (found : ns.metadataMap[path]? = some m) (type : S_ISDIR m'.mode ↔ S_ISDIR m.mode)
    (oid : m'.objectId = m.objectId) : Consistent (ns.withMetadata path m') := by
  refine ⟨fun {o p} => ?_, fun {p} => ?_⟩
  · have old := h.ids (o := o) (p := p)
    simp only [withMetadata_idToPathMap, withMetadata_metadataMap, getElem?_insert]
    grind
  · have old := h.dirs (p := p)
    simp only [withMetadata_directories, withMetadata_metadataMap, getElem?_insert]
    grind

theorem isDir_congr {mode mode' : BitVec 32} (type : mode' &&& S_IFMT = mode &&& S_IFMT) :
    S_ISDIR mode' ↔ S_ISDIR mode := by
  simp only [S_ISDIR, type]

section Runs

variable [FsPath] [PathHash] [ThriftSerialize FileMetadata]

/-- No file has the id that a request for a new file would use. -/
def Fresh (ns : Namespace) : Request → Prop
  | .create path _ _ _ _ => ns.idToPathMap[ns.nextId path]? = none
  | _ => True

theorem Consistent.effect {ns ns' : Namespace} {r : Request} (h : Consistent ns)
    (e : Effect ns r ns') (type : ns.KeepsType r) (fresh : ns.Fresh r) : Consistent ns' := by
  cases e with
  | refused => exact h
  | create absent => exact h.withFile absent (not_isDir_regular _) fresh
  | remove found file => exact h.withoutFile found file
  | mkdir absent => exact h.withDirectory absent (isDir_directory type)
  | rmdir found => exact h.withoutDirectory ((mem_iff_exists _ _).mpr ⟨_, found⟩)
  | addSubfile found => exact h.relist ((mem_iff_exists _ _).mpr ⟨_, found⟩) rfl rfl rfl
  | removeSubfile found => exact h.relist ((mem_iff_exists _ _).mpr ⟨_, found⟩) rfl rfl rfl
  | setattr found => exact h.withMetadata found (isDir_congr (type _ found)) rfl

/-- In a consistent namespace no check fails. -/
theorem Consistent.step_defined {ns : Namespace} (h : Consistent ns) (r : Request) :
    ∃ ns', ns.step r = .ok ns' := by
  cases r with
  | create path mode uid gid now =>
    cases found : ns.metadataMap[path]? with
    | none =>
      have unmapped : ns.idToPathMap[ns.nextId path]? ≠ some path := by
        intro clash
        obtain ⟨m, hm, -⟩ := h.ids.mp clash
        simp [found] at hm
      exact ⟨_, by simp only [step, create_absent mode uid gid now found, if_neg unmapped]; rfl⟩
    | some m =>
      have old : path ∈ ns.metadataMap := (mem_iff_exists _ _).mpr ⟨_, found⟩
      exact ⟨ns, by simp only [step, create, old, if_true]; rfl⟩
  | remove path =>
    cases found : ns.metadataMap[path]? with
    | none => exact ⟨ns, by simp only [step, remove, found]; rfl⟩
    | some m =>
      by_cases dir : S_ISDIR m.mode
      · exact ⟨ns, by simp only [step, remove, found, dir, if_true]; rfl⟩
      · have mapped : ns.idToPathMap[m.objectId]? = some path := h.ids.mpr ⟨m, found, dir, rfl⟩
        exact ⟨_, by simp only [step, remove_file found dir, if_pos mapped]; rfl⟩
  | _ => exact ⟨_, rfl⟩

/-! ## Runs -/

/-- After `n` new files since the counter was at `start`, every live id has the counter
value of one of them. -/
structure Counted (start : ObjectId) (n : Nat) (ns : Namespace) : Prop where
  counter : ns.nextObjId = start + BitVec.ofNat 64 n
  issued : ∀ {o : ObjectId} {p : Str}, ns.idToPathMap[o]? = some p →
    ∃ j < n, counterPart o = counterPart (start + BitVec.ofNat 64 j)

omit [FsPath] [ThriftSerialize FileMetadata] in
theorem Counted.fresh {start : ObjectId} {n : Nat} {ns : Namespace} (h : Counted start n ns)
    (few : n < 2 ^ 48) (r : Request) : ns.Fresh r := by
  cases r with
  | create path mode uid gid now =>
    rw [Fresh, Option.eq_none_iff_forall_not_mem]
    intro p used
    obtain ⟨j, less, same⟩ := h.issued used
    rw [nextId, counterPart_objectIdOf, h.counter] at same
    have := counterPart_inj same few (less.trans few)
    omega
  | _ => trivial

theorem Counted.effect {start : ObjectId} {n : Nat} {ns ns' : Namespace} {r : Request}
    (h : Counted start n ns) (e : Effect ns r ns') :
    ∃ k, k ≤ n + (if r.isCreate then 1 else 0) ∧ Counted start k ns' := by
  cases e with
  | create absent =>
    refine ⟨n + 1, by simp [Request.isCreate], ?_, fun {o p} used => ?_⟩
    · rw [withFile_nextObjId, h.counter, BitVec.ofNat_add, BitVec.add_assoc]
      rfl
    · rw [withFile_idToPathMap, getElem?_insert] at used
      split at used
      · rename_i same
        refine ⟨n, by omega, ?_⟩
        rw [← same]
        simp [newFile, nextId, h.counter]
      · obtain ⟨j, less, same⟩ := h.issued used
        exact ⟨j, by omega, same⟩
  | remove =>
    refine ⟨n, by simp, h.counter, fun {o p} used => ?_⟩
    rw [withoutFile_idToPathMap, getElem?_erase] at used
    split at used
    · cases used
    · exact h.issued used
  | _ => exact ⟨n, Nat.le_add_right _ _, h.counter, h.issued⟩

/-- The number of requests for a new file. -/
def creates (rs : List Request) : Nat := rs.countP Request.isCreate

/-- The invariant of one lifetime that began with the counter at `start`. -/
structure Inv (start : ObjectId) (done : List Request) (ns : Namespace) : Prop where
  consistent : Consistent ns
  counted : ∃ n, n ≤ creates done ∧ Counted start n ns

omit [FsPath] [PathHash] [ThriftSerialize FileMetadata] in
theorem Inv.empty (start : ObjectId) : Inv start [] { nextObjId := start } :=
  ⟨.empty start, 0, Nat.zero_le _, by simp, by simp⟩

theorem Inv.step {start : ObjectId} {done : List Request} {ns : Namespace} {r : Request}
    (h : Inv start done ns) (few : creates done < 2 ^ 48) (type : ns.KeepsType r) :
    ∃ ns', ns.step r = .ok ns' ∧ Inv start (done ++ [r]) ns' := by
  obtain ⟨ns', hs⟩ := h.consistent.step_defined r
  have e := effect_of_step hs
  obtain ⟨n, le, counted⟩ := h.counted
  obtain ⟨k, le', counted'⟩ := counted.effect e
  refine ⟨ns', hs, h.consistent.effect e type (counted.fresh (by omega) r), k, ?_, counted'⟩
  have : creates (done ++ [r]) = creates done + if r.isCreate then 1 else 0 := by
    simp [creates, List.countP_append, List.countP_cons]
  omega

omit [FsPath] [PathHash] [ThriftSerialize FileMetadata] in
theorem creates_le_of_append {done rest all : List Request} {r : Request}
    (total : done ++ r :: rest = all) : creates done ≤ creates all := by
  rw [← total, creates, creates, List.countP_append]
  exact Nat.le_add_right _ _

/-- Every run of one lifetime ends, and ends in the invariant. -/
theorem inv_of_run (start : ObjectId) {rs : List Request} (few : creates rs < 2 ^ 48)
    (types : Transition.Meets step KeepsType { nextObjId := start } rs) :
    ∃ ns, Transition.run step { nextObjId := start } rs = .ok ns ∧ Inv start rs ns :=
  Transition.run_invariant
    (fun _ _ _ _ total h type => h.step ((creates_le_of_append total).trans_lt few) type)
    (List.nil_append rs) (Inv.empty start) types

/-! ## Lookups -/

omit [FsPath] [PathHash] [ThriftSerialize FileMetadata] in
theorem Consistent.findFiles_findObjects {ns : Namespace} (h : Consistent ns) {ps : List Str}
    (files : ∀ p ∈ ps, ∃ m, ns.metadataMap[p]? = some m ∧ ¬ S_ISDIR m.mode) :
    ns.findFiles (ns.findObjects ps) = ps := by
  rw [findFiles, findObjects, List.map_map]
  conv_rhs => rw [← List.map_id ps]
  refine List.map_congr_left fun p hp => ?_
  obtain ⟨m, hm, file⟩ := files p hp
  have mapped : ns.idToPathMap[m.objectId]? = some p := h.ids.mpr ⟨m, hm, file, rfl⟩
  simp [hm, mapped]

omit [FsPath] [PathHash] [ThriftSerialize FileMetadata] in
theorem Consistent.findObjects_findFiles {ns : Namespace} (h : Consistent ns)
    {ids : List ObjectId} (live : ∀ o ∈ ids, o ∈ ns.idToPathMap) :
    ns.findObjects (ns.findFiles ids) = ids := by
  rw [findFiles, findObjects, List.map_map]
  conv_rhs => rw [← List.map_id ids]
  refine List.map_congr_left fun o ho => ?_
  obtain ⟨p, hp⟩ := (mem_iff_exists _ _).mp (live o ho)
  obtain ⟨m, hm, -, same⟩ := h.ids.mp hp
  simp [hp, hm, same]

/-- From the empty state, every run of fewer than `2 ^ 48` creations whose requests leave
file types alone ends without a failed check, with the reverse map the inverse of the
object ids of the files, the directories the paths with a directory's mode, and the two
batched lookups inverse to each other. -/
theorem maps_stay_consistent (start : ObjectId) (rs : List Request)
    (few : creates rs < 2 ^ 48)
    (types : Transition.Meets step KeepsType { nextObjId := start } rs) :
    ∃ ns, Transition.run step { nextObjId := start } rs = .ok ns ∧
      (∀ (o : ObjectId) (p : Str), ns.idToPathMap[o]? = some p ↔
        ∃ m, ns.metadataMap[p]? = some m ∧ ¬ S_ISDIR m.mode ∧ m.objectId = o) ∧
      (∀ p : Str, p ∈ ns.directories ↔ ∃ m, ns.metadataMap[p]? = some m ∧ S_ISDIR m.mode) ∧
      (∀ ps : List Str, (∀ p ∈ ps, ∃ m, ns.metadataMap[p]? = some m ∧ ¬ S_ISDIR m.mode) →
        ns.findFiles (ns.findObjects ps) = ps) ∧
      (∀ ids : List ObjectId, (∀ o ∈ ids, o ∈ ns.idToPathMap) →
        ns.findObjects (ns.findFiles ids) = ids) := by
  obtain ⟨ns, hrun, inv⟩ := inv_of_run start few types
  have h := inv.consistent
  exact ⟨ns, hrun, fun _ _ => h.ids, fun _ => h.dirs, fun _ => h.findFiles_findObjects,
    fun _ => h.findObjects_findFiles⟩

end Runs

section Example

attribute [local instance] Posix.fsPath Md5.pathHash BinaryProtocol.fileMetadataThrift

/-- A file under the root, with a new owner. -/
def firstFile : List Request :=
  [.mkdir "/".toList 0o755 0 0 0, .create "/a".toList 0o644 1 1 0,
    .addSubfile "/".toList "a".toList, .setattr "/a".toList { uid := some 7 }]

theorem maps_consistent_after_firstFile :
    creates firstFile < 2 ^ 48 ∧
      ∃ ns, Transition.run step { nextObjId := 5 } firstFile = .ok ns ∧
        ns.findFiles (ns.findObjects ["/a".toList]) = ["/a".toList] := by
  have types : Transition.Meets step KeepsType { nextObjId := 5 } firstFile :=
    ⟨.inl (by decide), fun _ _ => ⟨trivial, fun _ _ => ⟨trivial, fun _ _ =>
      ⟨fun _ _ => rfl, fun _ _ => trivial⟩⟩⟩⟩
  obtain ⟨ns, hrun, -, -, lookup, -⟩ := maps_stay_consistent 5 firstFile (by decide) types
  have mode : (Transition.run step { nextObjId := 5 } firstFile).map
      (fun ns => (ns.metadataMap["/a".toList]?).map (·.mode)) = .ok (some 0o100644) := by
    decide +kernel
  refine ⟨by decide, ns, hrun, lookup _ fun p hp => ?_⟩
  rw [hrun] at mode
  obtain ⟨m, hm, hmode⟩ := Option.map_eq_some_iff.mp (Except.ok.inj mode)
  rw [List.mem_singleton.mp hp]
  exact ⟨m, hm, by rw [hmode]; decide⟩

end Example

end Vsfs.Masterd.Namespace

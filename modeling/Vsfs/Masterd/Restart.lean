import Vsfs.Masterd.Loading

/-!
# Restarting a master

On absolute normalised paths every operation keeps the maps in memory and the two kinds of
records in the store in step, so that a new process over the same store comes back with the
same maps.

## Main results

* `restart_rebuilds_namespace` : after any run, `init` of a new process succeeds and
  rebuilds the metadata, the reverse map and the listings.
-/

namespace Vsfs.Masterd

open Std FiniteMap

/-- The paths of a request are absolute and normalised and its names are plain. -/
def Request.Normalised : Request → Prop
  | .create path _ _ _ _ => Normal path
  | .remove path => Normal path
  | .mkdir path _ _ _ _ => Normal path
  | .rmdir path => Normal path
  | .addSubfile parent subfile => Normal parent ∧ Plain subfile
  | .removeSubfile parent subfile => Normal parent ∧ Plain subfile
  | .setattr path _ => Normal path

namespace Namespace

theorem isMetadataKey_of_normal {p : Str} (h : Normal p) : isMetadataKey p := by
  obtain ⟨rest, rfl⟩ := h.head
  exact isMetadataKey_cons rest

theorem absolute_of_normalised {r : Request} (h : r.Normalised) : Absolute r := by
  cases r with
  | create => exact isMetadataKey_of_normal h
  | mkdir => exact isMetadataKey_of_normal h
  | _ => trivial

/-- The names that the listing of `p` holds. -/
def Lists (ns : Namespace) (p s : Str) : Prop := ∃ d, ns.directories[p]? = some d ∧ s ∈ d.subfiles

/-- The store mirrors the maps. -/
structure Synced [ThriftSerialize FileMetadata] (ns : Namespace) : Prop extends Mirrored ns where
  normal : ∀ {p : Str} {m : FileMetadata}, ns.metadataMap[p]? = some m → Normal p
  plain : ∀ {p s : Str}, ns.Lists p s → Plain s
  listing : ∀ {p s : Str}, Normal p → Plain s →
    (directoryMapKey (child p s) ∈ ns.store ↔ ns.Lists p s)
  keys : ∀ {k : Str}, k ∈ ns.store →
    Normal k ∨ ∃ p s, Normal p ∧ Plain s ∧ k = directoryMapKey (child p s)

section

variable [ThriftSerialize FileMetadata]

theorem Synced.empty (counter : ObjectId) : Synced { nextObjId := counter } :=
  { Mirrored.empty counter with
    normal := by simp
    plain := by simp [Lists]
    listing := by simp [Lists]
    keys := by simp }

/-- A change at one path that leaves the listings alone. -/
theorem Synced.setPath {ns ns' : Namespace} (h : Synced ns) (mirrored : Mirrored ns')
    {path : Str} (np : Normal path)
    (maps : ∀ p, p ≠ path → ns'.metadataMap[p]? = ns.metadataMap[p]?)
    (store : ∀ k, k ≠ path → ns'.store[k]? = ns.store[k]?)
    (lists : ∀ p s, ns'.Lists p s ↔ ns.Lists p s) : Synced ns' := by
  refine { mirrored with normal := ?_, plain := ?_, listing := ?_, keys := ?_ }
  · intro p m hm
    by_cases same : p = path
    · exact same ▸ np
    · exact h.normal (maps p same ▸ hm)
  · intro p s hs
    exact h.plain ((lists p s).mp hs)
  · intro p s hp hs
    have other := ne_directoryMapKey (isMetadataKey_of_normal np) (child p s)
    rw [lists, ← h.listing hp hs, mem_iff_exists, store _ other, mem_iff_exists]
  · intro k hk
    by_cases same : k = path
    · exact .inl (same ▸ np)
    · rw [mem_iff_exists, store k same, ← mem_iff_exists] at hk
      exact h.keys hk

end

section

variable [FsPath] [LawfulFsPath]

theorem child_inj {p s q t : Str} (hp : Normal p) (hs : Plain s) (hq : Normal q) (ht : Plain t) :
    directoryMapKey (child p s) = directoryMapKey (child q t) ↔ p = q ∧ s = t := by
  rw [directoryMapKey, directoryMapKey, List.append_cancel_left_eq, child_eq_iff hp hs hq ht]

/-- A change of one entry of a listing. -/
theorem Synced.setListing [ThriftSerialize FileMetadata] {ns ns' : Namespace} (h : Synced ns)
    (mirrored : Mirrored ns') {parent subfile : Str} (np : Normal parent) (ps : Plain subfile)
    (maps : ns'.metadataMap = ns.metadataMap)
    (store : ∀ k, k ≠ directoryMapKey (child parent subfile) → ns'.store[k]? = ns.store[k]?)
    (lists : ∀ p s, ¬ (p = parent ∧ s = subfile) → (ns'.Lists p s ↔ ns.Lists p s))
    (here : directoryMapKey (child parent subfile) ∈ ns'.store ↔ ns'.Lists parent subfile) :
    Synced ns' := by
  refine { mirrored with normal := ?_, plain := ?_, listing := ?_, keys := ?_ }
  · intro p m hm
    exact h.normal (maps ▸ hm)
  · intro p s hs
    by_cases same : p = parent ∧ s = subfile
    · exact same.2 ▸ ps
    · exact h.plain ((lists p s same).mp hs)
  · intro p s hp hs
    by_cases same : p = parent ∧ s = subfile
    · obtain ⟨rfl, rfl⟩ := same
      exact here
    · have key : directoryMapKey (child p s) ≠ directoryMapKey (child parent subfile) :=
        fun e => same ((child_inj hp hs np ps).mp e)
      rw [lists p s same, ← h.listing hp hs, mem_iff_exists, store _ key, mem_iff_exists]
  · intro k hk
    by_cases same : k = directoryMapKey (child parent subfile)
    · exact .inr ⟨parent, subfile, np, ps, same⟩
    · rw [mem_iff_exists, store k same, ← mem_iff_exists] at hk
      exact h.keys hk

variable [PathHash] [ThriftSerialize FileMetadata]

theorem Synced.effect {ns ns' : Namespace} {r : Request} (h : Synced ns) (maps : Consistent ns)
    (e : Effect ns r ns') (normal : r.Normalised) : Synced ns' := by
  have mirrored : Mirrored ns' := h.toMirrored.effect e (absolute_of_normalised normal)
  cases e with
  | refused => exact h
  | create =>
    refine h.setPath mirrored normal (fun p hp => ?_) (fun k hk => ?_) fun _ _ => Iff.rfl
    · simp [withFile_metadataMap, hp.symm]
    · simp [withFile_store, hk.symm]
  | remove =>
    refine h.setPath mirrored normal (fun p hp => ?_) (fun k hk => ?_) fun _ _ => Iff.rfl
    · simp [withoutFile_metadataMap, hp.symm]
    · simp [withoutFile_store, hk.symm]
  | setattr =>
    refine h.setPath mirrored normal (fun p hp => ?_) (fun k hk => ?_) fun _ _ => Iff.rfl
    · simp [withMetadata_metadataMap, hp.symm]
    · simp [withMetadata_store, hk.symm]
  | @mkdir path mode uid gid now absent =>
    refine h.setPath mirrored normal (fun p hp => ?_) (fun k hk => ?_) fun p s => ?_
    · simp [withDirectory_metadataMap, hp.symm]
    · simp [withDirectory_store, hk.symm]
    · have none : ns.directories[path]? = none := by
        rw [← not_mem_iff, maps.dirs]
        simp [absent]
      simp only [Lists, withDirectory_directories, getElem?_insertIfNew]
      by_cases same : path = p
      · subst same
        simp [none]
      · simp [same]
  | @rmdir path dir found empty =>
    refine h.setPath mirrored normal (fun p hp => ?_) (fun k hk => ?_) fun p s => ?_
    · simp [withoutDirectory_metadataMap, hp.symm]
    · simp [withoutDirectory_store, hk.symm]
    · simp only [Lists, withoutDirectory_directories, getElem?_erase]
      by_cases same : path = p
      · subst same
        have gone : s ∉ dir.subfiles := by
          rw [ExtTreeSet.isEmpty_iff.mp empty]
          exact ExtTreeSet.not_mem_empty
        simp [found, gone]
      · simp [same]
  | @addSubfile parent subfile dir found new =>
    have join := LawfulFsPath.join_eq normal.1 normal.2
    refine h.setListing mirrored normal.1 normal.2 rfl (fun k hk => ?_) (fun p s other => ?_) ?_
    · simp only [withSubfile_store, getElem?_insert, join, if_neg hk.symm]
    · simp only [Lists, withSubfile_directories, getElem?_insert]
      by_cases same : parent = p
      · subst same
        have : subfile ≠ s := fun e => other ⟨rfl, e.symm⟩
        simp [found, ExtTreeSet.mem_insert, this]
      · simp [same]
    · simp [Lists, withSubfile_directories, withSubfile_store, join]
  | @removeSubfile parent subfile dir found listed =>
    have join := LawfulFsPath.join_eq normal.1 normal.2
    refine h.setListing mirrored normal.1 normal.2 rfl (fun k hk => ?_) (fun p s other => ?_) ?_
    · simp only [withoutSubfile_store, getElem?_erase, join, if_neg hk.symm]
    · simp only [Lists, withoutSubfile_directories, getElem?_insert]
      by_cases same : parent = p
      · subst same
        have : subfile ≠ s := fun e => other ⟨rfl, e.symm⟩
        simp [found, ExtTreeSet.mem_erase, this]
      · simp [same]
    · simp [Lists, withoutSubfile_directories, withoutSubfile_store, join]

end

/-! ## The new process -/

section

variable [FsPath] [LawfulFsPath] [Thrift FileMetadata] [LawfulThrift FileMetadata]

theorem Synced.loadable {ns : Namespace} (h : Synced ns) (maps : Consistent ns) :
    Loadable ns.store.records := by
  refine ⟨ns.store.records_sorted, fun {k v} hk => ?_, fun {k v} hk kind => ?_,
    fun {k v} hk kind => ?_⟩
  · rcases h.keys ((mem_iff_exists _ _).mpr ⟨v, LevelDBStore.mem_records.mp hk⟩) with
      normal | ⟨p, s, -, -, rfl⟩
    · exact .inl (isMetadataKey_of_normal normal)
    · exact .inr (.inl (isListingKey_directoryMapKey _))
  · obtain ⟨m, -, read⟩ := h.read kind (LevelDBStore.mem_records.mp hk)
    exact ⟨m, read⟩
  · have stored : k ∈ ns.store := (mem_iff_exists _ _).mpr ⟨v, LevelDBStore.mem_records.mp hk⟩
    rcases h.keys stored with normal | ⟨p, s, hp, hs, rfl⟩
    · exact absurd kind (not_isListingKey_of_isMetadataKey (isMetadataKey_of_normal normal))
    · rw [drop_directoryMapKey, LawfulFsPath.parentPath_child hp hs]
      obtain ⟨d, hd, -⟩ := (h.listing hp hs).mp stored
      obtain ⟨m, hm, dir⟩ := maps.dirs.mp ((mem_iff_exists _ _).mpr ⟨d, hd⟩)
      refine ⟨isMetadataKey_of_normal hp, ThriftSerialize.serialize m, m, ?_,
        LawfulThrift.deserialize_serialize m, dir⟩
      rw [LevelDBStore.mem_records, h.stored (isMetadataKey_of_normal hp), hm]
      rfl

/-- What is read back from the entries is the listings. -/
theorem Synced.listings_loaded {ns ns' : Namespace} (h : Synced ns) (maps : Consistent ns)
    (loaded : Loaded ns.store.records ns') : ns'.directories = ns.directories := by
  have metadata := h.toMirrored.metadata_loaded loaded
  have same (p : Str) : p ∈ ns'.directories ↔ p ∈ ns.directories := by
    rw [loaded.dirs, maps.dirs, metadata]
  refine ExtTreeMap.ext_getElem? fun p => ?_
  cases hd : ns.directories[p]? with
  | none =>
    rw [← not_mem_iff] at hd ⊢
    rwa [same]
  | some d =>
    have here : p ∈ ns.directories := (mem_iff_exists _ _).mpr ⟨d, hd⟩
    obtain ⟨d', hd'⟩ := (mem_iff_exists _ _).mp ((same p).mpr here)
    obtain ⟨m, hm, -⟩ := maps.dirs.mp here
    have np := h.normal hm
    rw [hd']
    refine congrArg some (Directory.ext (ExtTreeSet.ext_mem fun s => ?_))
    rw [loaded.subfiles hd']
    constructor
    · rintro ⟨k, v, hk, kind, hparent, hname⟩
      rw [LevelDBStore.mem_records] at hk
      have stored : k ∈ ns.store := (mem_iff_exists _ _).mpr ⟨v, hk⟩
      rcases h.keys stored with normal | ⟨q, t, hq, ht, rfl⟩
      · exact absurd kind (not_isListingKey_of_isMetadataKey (isMetadataKey_of_normal normal))
      · rw [drop_directoryMapKey, LawfulFsPath.parentPath_child hq ht] at hparent
        rw [drop_directoryMapKey, LawfulFsPath.filename_child hq ht] at hname
        obtain ⟨d'', hd'', listed⟩ := (h.listing hq ht).mp stored
        rw [hparent, hd] at hd''
        rw [Option.some.inj hd'', ← hname]
        exact listed
    · intro listed
      have ps := h.plain ⟨d, hd, listed⟩
      obtain ⟨v, hv⟩ := (mem_iff_exists _ _).mp ((h.listing np ps).mpr ⟨d, hd, listed⟩)
      refine ⟨_, v, LevelDBStore.mem_records.mpr hv, isListingKey_directoryMapKey _, ?_, ?_⟩
      · rw [drop_directoryMapKey, LawfulFsPath.parentPath_child np ps]
      · rw [drop_directoryMapKey, LawfulFsPath.filename_child np ps]

variable [PathHash]

/-- The condition on a request: normalised paths, file types left alone. -/
def Orderly (ns : Namespace) (r : Request) : Prop := r.Normalised ∧ ns.KeepsType r

/-- The invariant of one lifetime, with the store. -/
structure StoredInv (start : ObjectId) (done : List Request) (ns : Namespace) : Prop where
  memory : Inv start done ns
  synced : Synced ns

omit [LawfulThrift FileMetadata] in
theorem StoredInv.step {start : ObjectId} {done : List Request} {ns : Namespace} {r : Request}
    (h : StoredInv start done ns) (few : creates done < 2 ^ 48) (orderly : ns.Orderly r) :
    ∃ ns', ns.step r = .ok ns' ∧ StoredInv start (done ++ [r]) ns' := by
  obtain ⟨ns', hs, memory⟩ := h.memory.step few orderly.2
  exact ⟨ns', hs, memory,
    h.synced.effect h.memory.consistent (effect_of_step hs) orderly.1⟩

/-- After any orderly run of fewer than `2 ^ 48` creations from an empty store, a new
process over the store starts up and has the same metadata, the same reverse map and the
same listings, whatever its counter holds. -/
theorem restart_rebuilds_namespace (start : ObjectId) (rs : List Request)
    (few : creates rs < 2 ^ 48)
    (orderly : Transition.Meets step Orderly { nextObjId := start } rs) (counter : ObjectId) :
    ∃ ns ns', Transition.run step { nextObjId := start } rs = .ok ns ∧
      (Namespace.open_ ns.store counter).init .OK = .ok (.OK, ns') ∧
      ns'.metadataMap = ns.metadataMap ∧ ns'.idToPathMap = ns.idToPathMap ∧
      ns'.directories = ns.directories := by
  obtain ⟨ns, hrun, inv, synced⟩ := Transition.run_invariant
    (fun _ _ _ _ total h cond => h.step ((creates_le_of_append total).trans_lt few) cond)
    (List.nil_append rs) (StoredInv.mk (Inv.empty start) (Synced.empty start)) orderly
  obtain ⟨ns', hinit, loaded, -, -⟩ := load_spec (synced.loadable inv.consistent) counter
  have metadata := synced.toMirrored.metadata_loaded loaded
  exact ⟨ns, ns', hrun, hinit, metadata, loaded.ids_eq inv.consistent metadata,
    synced.listings_loaded inv.consistent loaded⟩

end

section Example

attribute [local instance] Posix.fsPath Md5.pathHash BinaryProtocol.fileMetadataThrift

theorem firstFile_survives_restart :
    ∃ ns ns', Transition.run step { nextObjId := 5 } firstFile = .ok ns ∧
      (Namespace.open_ ns.store 9).init .OK = .ok (.OK, ns') ∧
      ns'.metadataMap = ns.metadataMap ∧ ns'.idToPathMap = ns.idToPathMap ∧
      ns'.directories = ns.directories := by
  have file : Normal "/a".toList := .top (by decide)
  have name : Plain "a".toList := by decide
  have orderly : Transition.Meets step Orderly { nextObjId := 5 } firstFile :=
    ⟨⟨.root, .inl (by decide)⟩, fun _ _ => ⟨⟨file, trivial⟩, fun _ _ =>
      ⟨⟨⟨.root, name⟩, trivial⟩, fun _ _ => ⟨⟨file, fun _ _ => rfl⟩, fun _ _ => trivial⟩⟩⟩⟩
  exact restart_rebuilds_namespace 5 firstFile (by decide) orderly 9

end Example

end Namespace

end Vsfs.Masterd

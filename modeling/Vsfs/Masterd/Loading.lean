import Vsfs.Masterd.Consistency

/-!
# Loading a store

`init` reads the records of the store in key order: the metadata of every path first, then
the entries of the listings, whose directories it expects to have read already.

## Main results

* `load_spec` : on a store whose records are well formed and whose listings belong to
  stored directories, `init` succeeds and rebuilds what the records say.
-/

namespace Vsfs.Masterd.Namespace

open Std FiniteMap

def isMetadataKey (key : Str) : Prop := "/".toList <+: key

def isListingKey (key : Str) : Prop := "dir:".toList <+: key

def isSystemKey (key : Str) : Prop := "meta:".toList <+: key

theorem isMetadataKey_cons (p : Str) : isMetadataKey ('/' :: p) := ⟨p, rfl⟩

theorem isListingKey_directoryMapKey (p : Str) : isListingKey (directoryMapKey p) := ⟨p, rfl⟩

/-- A key is of one kind only. -/
theorem not_isListingKey_of_isMetadataKey {k : Str} (h : isMetadataKey k) : ¬ isListingKey k := by
  obtain ⟨p, rfl⟩ := h
  rintro ⟨q, hq⟩
  simp at hq

theorem ne_directoryMapKey {p : Str} (h : isMetadataKey p) (q : Str) :
    directoryMapKey q ≠ p := by
  rintro rfl
  exact not_isListingKey_of_isMetadataKey h (isListingKey_directoryMapKey q)

/-- The metadata comes before the listings. -/
theorem compare_metadata_listing {k l : Str} (hk : isMetadataKey k) (hl : isListingKey l) :
    compare k l = .lt := by
  obtain ⟨p, rfl⟩ := hk
  obtain ⟨q, rfl⟩ := hl
  rfl

@[simp] theorem drop_directoryMapKey (p : Str) : (directoryMapKey p).drop 4 = p := rfl

section

variable [FsPath] [Thrift FileMetadata]

/-- What `init` asks of the records it reads. -/
structure Loadable (records : List (Str × Str)) : Prop where
  sorted : records.Pairwise (fun a b => compare a.1 b.1 = .lt)
  kinds : ∀ {k v : Str}, (k, v) ∈ records → isMetadataKey k ∨ isListingKey k ∨ isSystemKey k
  readable : ∀ {k v : Str}, (k, v) ∈ records → isMetadataKey k →
    ∃ m : FileMetadata, Thrift.deserialize v = some m
  rooted : ∀ {k v : Str}, (k, v) ∈ records → isListingKey k →
    isMetadataKey (FsPath.parentPath (k.drop 4)) ∧
      ∃ (v' : Str) (m : FileMetadata), (FsPath.parentPath (k.drop 4), v') ∈ records ∧
        Thrift.deserialize v' = some m ∧ S_ISDIR m.mode

/-- The maps say what the records read so far say. -/
structure Loaded (records : List (Str × Str)) (ns : Namespace) : Prop where
  metadata : ∀ {p : Str} {m : FileMetadata}, ns.metadataMap[p]? = some m ↔
    ∃ v, (p, v) ∈ records ∧ isMetadataKey p ∧ Thrift.deserialize v = some m
  dirs : ∀ {p : Str}, p ∈ ns.directories ↔ ∃ m, ns.metadataMap[p]? = some m ∧ S_ISDIR m.mode
  subfiles : ∀ {p : Str} {d : Directory} {s : Str}, ns.directories[p]? = some d →
    (s ∈ d.subfiles ↔ ∃ k v, (k, v) ∈ records ∧ isListingKey k ∧
      FsPath.parentPath (k.drop 4) = p ∧ FsPath.filename (k.drop 4) = s)
  ids : ∀ {o : ObjectId} {p : Str}, ns.idToPathMap[o]? = some p →
    ∃ m, ns.metadataMap[p]? = some m ∧ ¬ S_ISDIR m.mode ∧ m.objectId = o
  mapped : ∀ {p : Str} {m : FileMetadata}, ns.metadataMap[p]? = some m →
    ¬ S_ISDIR m.mode → ∃ p', ns.idToPathMap[m.objectId]? = some p'

theorem Loaded.open_ (store : LevelDBStore) (counter : ObjectId) :
    Loaded [] (Namespace.open_ store counter) := by
  constructor <;> simp [Namespace.open_]

theorem Loaded.absent {records : List (Str × Str)} {ns : Namespace} (h : Loaded records ns)
    {key : Str} (new : ∀ v, (key, v) ∉ records) : ns.metadataMap[key]? = none := by
  rw [Option.eq_none_iff_forall_not_mem]
  intro m hm
  obtain ⟨v, hv, -⟩ := h.metadata.mp hm
  exact new v hv

/-- The record of a directory under a new key. -/
theorem Loaded.directory {records : List (Str × Str)} {ns : Namespace} (h : Loaded records ns)
    {key value : Str} {m : FileMetadata} (kind : isMetadataKey key)
    (new : ∀ v, (key, v) ∉ records) (read : Thrift.deserialize value = some m)
    (first : ∀ k v, (k, v) ∈ records → ¬ isListingKey k) (dir : S_ISDIR m.mode) :
    Loaded (records ++ [(key, value)]) (ns.loadMetadata key m) := by
  have absent := h.absent new
  have unlisted := not_isListingKey_of_isMetadataKey kind
  have none : ns.directories[key]? = none := by
    rw [← not_mem_iff, h.dirs]
    simp [absent]
  simp only [loadMetadata, dir, if_true]
  refine ⟨fun {p m'} => ?_, fun {p} => ?_, fun {p d s} hd => ?_, fun {o p} ho => ?_,
    fun {p m'} hm' file => ?_⟩
  · have old := h.metadata (p := p) (m := m')
    simp only [getElem?_insert, List.mem_append, List.mem_singleton, Prod.mk.injEq]
    grind
  · have old := h.dirs (p := p)
    simp only [getElem?_insert, ExtTreeMap.mem_insertIfNew, Std.compare_eq_iff_eq]
    grind
  · simp only [getElem?_insertIfNew] at hd
    simp only [List.mem_append, List.mem_singleton, Prod.mk.injEq]
    split at hd
    · obtain rfl : ({} : Directory) = d := Option.some.inj hd
      simp only [ExtTreeSet.not_mem_empty]
      grind
    · have old := h.subfiles (s := s) hd
      grind
  · have old := h.ids ho
    simp only [getElem?_insert]
    grind
  · simp only [getElem?_insert] at hm'
    split at hm'
    · grind
    · exact h.mapped hm' file

/-- The record of a file under a new key. -/
theorem Loaded.file {records : List (Str × Str)} {ns : Namespace} (h : Loaded records ns)
    {key value : Str} {m : FileMetadata} (kind : isMetadataKey key)
    (new : ∀ v, (key, v) ∉ records) (read : Thrift.deserialize value = some m)
    (file : ¬ S_ISDIR m.mode) :
    Loaded (records ++ [(key, value)]) (ns.loadMetadata key m) := by
  have absent := h.absent new
  have unlisted := not_isListingKey_of_isMetadataKey kind
  simp only [loadMetadata, file, if_false]
  refine ⟨fun {p m'} => ?_, fun {p} => ?_, fun {p d s} hd => ?_, fun {o p} ho => ?_,
    fun {p m'} hm' file' => ?_⟩
  · have old := h.metadata (p := p) (m := m')
    simp only [getElem?_insert, List.mem_append, List.mem_singleton, Prod.mk.injEq]
    grind
  · have old := h.dirs (p := p)
    simp only [getElem?_insert]
    grind
  · have old := h.subfiles (s := s) hd
    simp only [List.mem_append, List.mem_singleton, Prod.mk.injEq]
    grind
  · simp only [getElem?_insert] at ho ⊢
    have old := h.ids (o := o) (p := p)
    grind
  · simp only [getElem?_insert] at hm' ⊢
    split at hm'
    · obtain rfl := Option.some.inj hm'
      exact ⟨key, by simp⟩
    · obtain ⟨p', hp'⟩ := h.mapped hm' file'
      split
      · exact ⟨key, rfl⟩
      · exact ⟨p', hp'⟩

/-- The entry of a listing whose directory has been read. -/
theorem Loaded.entry {records : List (Str × Str)} {ns : Namespace} (h : Loaded records ns)
    {key value : Str} {dir : Directory} (kind : isListingKey key)
    (found : ns.directories[FsPath.parentPath (key.drop 4)]? = some dir) :
    Loaded (records ++ [(key, value)])
      { ns with
        directories := ns.directories.insert (FsPath.parentPath (key.drop 4))
          ⟨dir.subfiles.insert (FsPath.filename (key.drop 4))⟩ } := by
  have other : ¬ isMetadataKey key := fun k => not_isListingKey_of_isMetadataKey k kind
  refine ⟨fun {p m'} => ?_, fun {p} => ?_, fun {p d s} hd => ?_, h.ids, h.mapped⟩
  · have old := h.metadata (p := p) (m := m')
    simp only [List.mem_append, List.mem_singleton, Prod.mk.injEq]
    grind
  · have old := h.dirs (p := p)
    have here : FsPath.parentPath (key.drop 4) ∈ ns.directories :=
      (mem_iff_exists _ _).mpr ⟨dir, found⟩
    simp only [ExtTreeMap.mem_insert, Std.compare_eq_iff_eq]
    grind
  · simp only [getElem?_insert] at hd
    simp only [List.mem_append, List.mem_singleton, Prod.mk.injEq]
    split at hd
    · rename_i same
      obtain rfl := Option.some.inj hd
      have old := h.subfiles (s := s) found
      simp only [ExtTreeSet.mem_insert, Std.compare_eq_iff_eq]
      grind
    · have old := h.subfiles (s := s) hd
      grind

theorem Loaded.system {records : List (Str × Str)} {ns : Namespace} (h : Loaded records ns)
    {key value : Str} (meta₁ : ¬ isMetadataKey key) (listing : ¬ isListingKey key) :
    Loaded (records ++ [(key, value)]) ns := by
  refine ⟨fun {p m'} => ?_, h.dirs, fun {p d s} hd => ?_, h.ids, h.mapped⟩
  · have old := h.metadata (p := p) (m := m')
    simp only [List.mem_append, List.mem_singleton, Prod.mk.injEq]
    grind
  · have old := h.subfiles (s := s) hd
    simp only [List.mem_append, List.mem_singleton, Prod.mk.injEq]
    grind

/-! ## The loop -/

theorem load_metadata (ns : Namespace) {key value : Str} {m : FileMetadata}
    (kind : isMetadataKey key) (read : Thrift.deserialize value = some m)
    (rest : List (Str × Str)) :
    ns.load ((key, value) :: rest) = (ns.loadMetadata key m).load rest := by
  rw [load, if_pos (show "/".toList <+: key from kind), read]

theorem load_listing {ns : Namespace} {key : Str} {dir : Directory} (kind : isListingKey key)
    (found : ns.directories[FsPath.parentPath (key.drop 4)]? = some dir) (value : Str)
    (rest : List (Str × Str)) :
    ns.load ((key, value) :: rest) =
      load { ns with
        directories := ns.directories.insert (FsPath.parentPath (key.drop 4))
          ⟨dir.subfiles.insert (FsPath.filename (key.drop 4))⟩ } rest := by
  have other : ¬ "/".toList <+: key := fun k => not_isListingKey_of_isMetadataKey k kind
  rw [load, if_neg other, if_pos (show "dir:".toList <+: key from kind)]
  simp only [found]

theorem load_system (ns : Namespace) {key : Str} (other : ¬ isMetadataKey key)
    (unlisted : ¬ isListingKey key) (kind : isSystemKey key) (value : Str)
    (rest : List (Str × Str)) : ns.load ((key, value) :: rest) = ns.load rest := by
  rw [load, if_neg (show ¬ "/".toList <+: key from other),
    if_neg (show ¬ "dir:".toList <+: key from unlisted),
    if_pos (show "meta:".toList <+: key from kind)]

omit [FsPath] [Thrift FileMetadata] in
/-- The keys read before a record of a sorted store are smaller. -/
theorem before_lt {all done rest : List (Str × Str)} {key value k v : Str}
    (sorted : all.Pairwise (fun a b => compare a.1 b.1 = .lt))
    (total : done ++ (key, value) :: rest = all) (hk : (k, v) ∈ done) : compare k key = .lt := by
  rw [← total, List.pairwise_append] at sorted
  exact sorted.2.2 _ hk (key, value) (by simp)

omit [FsPath] [Thrift FileMetadata] in
/-- Every smaller key has been read before. -/
theorem mem_before {all done rest : List (Str × Str)} {key value k v : Str}
    (sorted : all.Pairwise (fun a b => compare a.1 b.1 = .lt))
    (total : done ++ (key, value) :: rest = all) (hk : (k, v) ∈ all)
    (less : compare k key = .lt) : (k, v) ∈ done := by
  rw [← total] at hk sorted
  rcases List.mem_append.mp hk with hk | hk
  · exact hk
  · rw [List.pairwise_append, List.pairwise_cons] at sorted
    rcases List.mem_cons.mp hk with same | hk
    · cases same
      simp at less
    · have greater : compare key k = .lt := sorted.2.1.1 _ hk
      rw [OrientedCmp.gt_of_lt less] at greater
      cases greater

theorem Loaded.load {all : List (Str × Str)} (ok : Loadable all) {rest done : List (Str × Str)}
    {ns : Namespace} (total : done ++ rest = all) (h : Loaded done ns) :
    ∃ ns', ns.load rest = .ok (.OK, ns') ∧ Loaded all ns' ∧ ns'.store = ns.store ∧
      ns'.nextObjId = ns.nextObjId := by
  induction rest generalizing done ns with
  | nil => exact ⟨ns, rfl, by simpa [← total] using h, rfl, rfl⟩
  | cons record rest ih =>
    obtain ⟨key, value⟩ := record
    have here : (key, value) ∈ all := by simp [← total]
    have next : done ++ [(key, value)] ++ rest = all := by simpa using total
    have smaller : ∀ k v, (k, v) ∈ done → compare k key = .lt :=
      fun k v hk => before_lt ok.sorted total hk
    by_cases metadata : isMetadataKey key
    · obtain ⟨m, read⟩ := ok.readable here metadata
      have new : ∀ v, (key, v) ∉ done := fun v hv => by simpa using smaller key v hv
      have first : ∀ k v, (k, v) ∈ done → ¬ isListingKey k := by
        intro k v hk listing
        have less := smaller k v hk
        rw [OrientedCmp.gt_of_lt (compare_metadata_listing metadata listing)] at less
        cases less
      have loaded : Loaded (done ++ [(key, value)]) (ns.loadMetadata key m) := by
        by_cases dir : S_ISDIR m.mode
        · exact h.directory metadata new read first dir
        · exact h.file metadata new read dir
      obtain ⟨ns', run, final, store, counter⟩ := ih next loaded
      refine ⟨ns', ?_, final, store.trans ?_, counter.trans ?_⟩
      · rw [load_metadata ns metadata read, run]
      · unfold loadMetadata
        split <;> rfl
      · unfold loadMetadata
        split <;> rfl
    · by_cases listing : isListingKey key
      · obtain ⟨kind, v', m, hm, read, dir⟩ := ok.rooted here listing
        have parent : (FsPath.parentPath (key.drop 4), v') ∈ done :=
          mem_before ok.sorted total hm (compare_metadata_listing kind listing)
        obtain ⟨d, found⟩ := (mem_iff_exists _ _).mp
          (h.dirs.mpr ⟨m, h.metadata.mpr ⟨v', parent, kind, read⟩, dir⟩)
        obtain ⟨ns', run, final, store, counter⟩ := ih next (h.entry listing found)
        refine ⟨ns', ?_, final, store, counter⟩
        rw [load_listing listing found, run]
      · have system : isSystemKey key := by
          rcases ok.kinds here with k | k | k
          · exact absurd k metadata
          · exact absurd k listing
          · exact k
        obtain ⟨ns', run, final, store, counter⟩ := ih next (h.system metadata listing)
        refine ⟨ns', ?_, final, store, counter⟩
        rw [load_system ns metadata listing system, run]

/-- A new process over a loadable store starts up with what the records say. -/
theorem load_spec {store : LevelDBStore} (ok : Loadable store.records) (counter : ObjectId) :
    ∃ ns', (Namespace.open_ store counter).init .OK = .ok (.OK, ns') ∧ Loaded store.records ns' ∧
      ns'.store = store ∧ ns'.nextObjId = counter :=
  Loaded.load ok (List.nil_append _) (Loaded.open_ store counter)

end

/-! ## The metadata in the store -/

/-- The metadata is stored under its paths, which all begin with a slash. -/
structure Mirrored [ThriftSerialize FileMetadata] (ns : Namespace) : Prop where
  absolute : ∀ {p : Str} {m : FileMetadata}, ns.metadataMap[p]? = some m → isMetadataKey p
  stored : ∀ {p : Str}, isMetadataKey p →
    ns.store[p]? = (ns.metadataMap[p]?).map ThriftSerialize.serialize

section

variable [ThriftSerialize FileMetadata]

theorem Mirrored.empty (counter : ObjectId) : Mirrored { nextObjId := counter } := by
  constructor <;> simp

theorem Mirrored.insert {ns ns' : Namespace} (h : Mirrored ns) {path : Str} {m : FileMetadata}
    (kind : isMetadataKey path) (maps : ns'.metadataMap = ns.metadataMap.insert path m)
    (store : ns'.store = ns.store.insert path (ThriftSerialize.serialize m)) : Mirrored ns' := by
  refine ⟨fun {p m'} hm' => ?_, fun {p} hp => ?_⟩
  · rw [maps, getElem?_insert] at hm'
    have old := h.absolute (p := p) (m := m')
    grind
  · rw [maps, store, getElem?_insert, getElem?_insert, h.stored hp]
    split <;> rfl

theorem Mirrored.erase {ns ns' : Namespace} (h : Mirrored ns) {path : Str}
    (maps : ns'.metadataMap = ns.metadataMap.erase path)
    (store : ns'.store = ns.store.erase path) : Mirrored ns' := by
  refine ⟨fun {p m'} hm' => ?_, fun {p} hp => ?_⟩
  · rw [maps, getElem?_erase] at hm'
    have old := h.absolute (p := p) (m := m')
    grind
  · rw [maps, store, getElem?_erase, getElem?_erase, h.stored hp]
    split <;> rfl

/-- A change of the listings leaves the metadata alone. -/
theorem Mirrored.relist {ns ns' : Namespace} (h : Mirrored ns)
    (maps : ns'.metadataMap = ns.metadataMap)
    (store : ∀ p, isMetadataKey p → ns'.store[p]? = ns.store[p]?) : Mirrored ns' := by
  refine ⟨fun hm' => h.absolute (maps ▸ hm'), fun {p} hp => ?_⟩
  rw [store p hp, maps, h.stored hp]

/-- The new paths of a request begin with a slash. -/
def Absolute : Request → Prop
  | .create path _ _ _ _ => isMetadataKey path
  | .mkdir path _ _ _ _ => isMetadataKey path
  | _ => True

theorem Mirrored.effect [FsPath] [PathHash] {ns ns' : Namespace} {r : Request} (h : Mirrored ns)
    (e : Effect ns r ns') (absolute : Absolute r) : Mirrored ns' := by
  cases e with
  | refused => exact h
  | create => exact h.insert absolute rfl rfl
  | remove => exact h.erase rfl rfl
  | mkdir => exact h.insert absolute rfl rfl
  | rmdir => exact h.erase rfl rfl
  | addSubfile =>
    refine h.relist rfl fun p hp => ?_
    rw [withSubfile_store, getElem?_insert, if_neg (ne_directoryMapKey hp _)]
  | removeSubfile =>
    refine h.relist rfl fun p hp => ?_
    rw [withoutSubfile_store, getElem?_erase, if_neg (ne_directoryMapKey hp _)]
  | setattr found => exact h.insert (h.absolute found) rfl rfl

end

section

variable [Thrift FileMetadata] [LawfulThrift FileMetadata]

/-- The stored metadata can be read back. -/
theorem Mirrored.read {ns : Namespace} (h : Mirrored ns) {p v : Str} (kind : isMetadataKey p)
    (here : ns.store[p]? = some v) :
    ∃ m, ns.metadataMap[p]? = some m ∧ Thrift.deserialize v = some m := by
  rw [h.stored kind] at here
  obtain ⟨m, hm, rfl⟩ := Option.map_eq_some_iff.mp here
  exact ⟨m, hm, LawfulThrift.deserialize_serialize m⟩

/-- What is read back from the metadata records is the metadata. -/
theorem Mirrored.metadata_loaded [FsPath] {ns ns' : Namespace} (h : Mirrored ns)
    (loaded : Loaded ns.store.records ns') : ns'.metadataMap = ns.metadataMap := by
  refine ExtTreeMap.ext_getElem? fun p => Option.ext fun m => ?_
  rw [loaded.metadata]
  constructor
  · rintro ⟨v, hv, kind, read⟩
    obtain ⟨m', hm', read'⟩ := h.read kind (LevelDBStore.mem_records.mp hv)
    rw [hm', ← read', read]
  · intro hm
    have kind := h.absolute hm
    refine ⟨ThriftSerialize.serialize m, ?_, kind, LawfulThrift.deserialize_serialize m⟩
    rw [LevelDBStore.mem_records, h.stored kind, hm]
    rfl

end

section

variable [FsPath] [Thrift FileMetadata]

/-- With ids in use once, the reverse map that is read back is the inverse again. -/
theorem Loaded.ids_eq {records : List (Str × Str)} {ns ns' : Namespace}
    (loaded : Loaded records ns') (maps : Consistent ns)
    (metadata : ns'.metadataMap = ns.metadataMap) : ns'.idToPathMap = ns.idToPathMap := by
  refine ExtTreeMap.ext_getElem? fun o => Option.ext fun p => ?_
  rw [maps.ids, ← metadata]
  constructor
  · exact loaded.ids
  · rintro ⟨m, hm, file, rfl⟩
    obtain ⟨q, hq⟩ := loaded.mapped hm file
    obtain ⟨m', hm', file', same⟩ := loaded.ids hq
    have one := maps.ids.mpr ⟨m, metadata ▸ hm, file, rfl⟩
    have two := maps.ids.mpr ⟨m', metadata ▸ hm', file', same⟩
    rw [one] at two
    rw [hq, Option.some.inj two]

end

end Vsfs.Masterd.Namespace

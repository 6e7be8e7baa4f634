import Mathlib.Logic.Function.Basic
import Vsfs.Masterd.Loading
import Vsfs.Masterd.MasterController

/-!
# Object ids in a cluster

Every file is created on the master that the hash of its path is routed to, and gets an id
made of the first bits of that hash and of the master's own counter. Two files can only get
the same id when their hashes begin alike and the counters coincide: across two masters, or
on one master across a restart, after which the counter holds whatever memory holds.

A cluster remembers which of its files were created since the last start of their master;
on those the counter itself rules a second use out.

## Main results

* `object_ids_unique` : as long as no file from elsewhere or from before a restart stands in
  the way of a new one, the ids of all files are different and no check fails.
* `duplicate_of_clash` : a single file in the way is enough for two files with one id.
-/

namespace Vsfs.Masterd

open Std FiniteMap

namespace Namespace

/-- A namespace with nothing but files in it, in step with its store. -/
structure FilesOnly [ThriftSerialize FileMetadata] (ns : Namespace) : Prop extends
    Consistent ns, Mirrored ns where
  keys : ∀ {k : Str}, k ∈ ns.store → isMetadataKey k
  files : ∀ {p : Str} {m : FileMetadata}, ns.metadataMap[p]? = some m → ¬ S_ISDIR m.mode

theorem FilesOnly.empty [ThriftSerialize FileMetadata] (counter : ObjectId) :
    FilesOnly { nextObjId := counter } :=
  { Consistent.empty counter, Mirrored.empty counter with
    keys := by simp
    files := by simp }

theorem FilesOnly.withFile [ThriftSerialize FileMetadata] {ns : Namespace} (h : FilesOnly ns)
    {path : Str} {m : FileMetadata} (kind : isMetadataKey path)
    (absent : ns.metadataMap[path]? = none) (file : ¬ S_ISDIR m.mode)
    (fresh : ns.idToPathMap[m.objectId]? = none) : FilesOnly (ns.withFile path m) := by
  refine { h.toConsistent.withFile absent file fresh, h.toMirrored.insert kind rfl rfl with
    keys := ?_, files := ?_ }
  · intro k hk
    rcases ExtTreeMap.mem_insert.mp hk with same | hk
    · exact compare_eq_iff_eq.mp same ▸ kind
    · exact h.keys hk
  · intro p m' hm'
    have old := h.files (p := p) (m := m')
    rw [withFile_metadataMap, getElem?_insert] at hm'
    grind

theorem FilesOnly.withoutFile [ThriftSerialize FileMetadata] {ns : Namespace} (h : FilesOnly ns)
    {path : Str} {m : FileMetadata} (found : ns.metadataMap[path]? = some m) :
    FilesOnly (ns.withoutFile path m.objectId) := by
  refine { h.toConsistent.withoutFile found (h.files found), h.toMirrored.erase rfl rfl with
    keys := ?_, files := ?_ }
  · intro k hk
    exact h.keys (ExtTreeMap.mem_erase.mp hk).2
  · intro p m' hm'
    have old := h.files (p := p) (m := m')
    rw [withoutFile_metadataMap, getElem?_erase] at hm'
    grind

/-- A restart changes nothing but the counter. -/
theorem FilesOnly.restart [FsPath] [Thrift FileMetadata] [LawfulThrift FileMetadata]
    {ns : Namespace} (h : FilesOnly ns) (counter : ObjectId) :
    ∃ ns', (Namespace.open_ ns.store counter).init .OK = .ok (.OK, ns') ∧ FilesOnly ns' ∧
      ns'.metadataMap = ns.metadataMap ∧ ns'.nextObjId = counter := by
  have stored {k v : Str} (hk : (k, v) ∈ ns.store.records) : isMetadataKey k :=
    h.keys ((mem_iff_exists _ _).mpr ⟨v, LevelDBStore.mem_records.mp hk⟩)
  have loadable : Loadable ns.store.records := by
    refine ⟨ns.store.records_sorted, fun hk => .inl (stored hk), fun hk kind => ?_,
      fun hk kind => ?_⟩
    · obtain ⟨m, -, read⟩ := h.read kind (LevelDBStore.mem_records.mp hk)
      exact ⟨m, read⟩
    · exact absurd kind (not_isListingKey_of_isMetadataKey (stored hk))
  obtain ⟨ns', hinit, loaded, store, next⟩ := load_spec loadable counter
  have metadata := h.toMirrored.metadata_loaded loaded
  have ids := loaded.ids_eq h.toConsistent metadata
  refine ⟨ns', hinit, ?_, metadata, next⟩
  refine { ids := ?_, dirs := loaded.dirs, absolute := ?_, stored := ?_, keys := ?_, files := ?_ }
  · intro o p
    rw [ids, metadata]
    exact h.ids
  · intro p m hm
    exact h.absolute (metadata ▸ hm)
  · intro p hp
    rw [store, metadata]
    exact h.stored hp
  · intro k hk
    exact h.keys (store ▸ hk)
  · intro p m hm
    exact h.files (metadata ▸ hm)

end Namespace

/-! ## Clusters -/

/-- The masters of a cluster. `recent` is no part of the program: the paths that were created
on a master since its process started. -/
structure Cluster (ι : Type) where
  masters : ι → Namespace
  recent : ι → ExtTreeSet Str

namespace Cluster

inductive Event (ι : Type) where
  | create (path : Str) (mode uid gid : BitVec 32) (now : Double)
  | remove (path : Str)
  | restart (master : ι) (counter : ObjectId)

variable {ι : Type} [DecidableEq ι]

/-- Every master with an empty store and whatever its counter holds. -/
def start (counters : ι → ObjectId) : Cluster ι where
  masters i := { nextObjId := counters i }
  recent _ := ∅

/-- The cluster after the file at `path` has appeared on master `i`. -/
def addFile [ThriftSerialize FileMetadata] (c : Cluster ι) (i : ι) (path : Str)
    (m : FileMetadata) : Cluster ι where
  masters := Function.update c.masters i ((c.masters i).withFile path m)
  recent := Function.update c.recent i ((c.recent i).insert path)

/-- The cluster after the file at `path` has gone from master `i`. -/
def eraseFile (c : Cluster ι) (i : ι) (path : Str) (oid : ObjectId) : Cluster ι where
  masters := Function.update c.masters i ((c.masters i).withoutFile path oid)
  recent := c.recent

section Step

variable [FsPath] [PathHash] [Thrift FileMetadata] (route : HashValueType → ι)

/-- The master that a path is routed to. -/
def home (path : Str) : ι := route (PathHash.pathToHash path)

/-- One request, sent to the master its path is routed to, or the restart of a master. -/
def step (c : Cluster ι) : Event ι → Cpp (Cluster ι)
  | .create path mode uid gid now =>
    if !MasterController.isValidPath path then .ok c
    else
      let i := home route path
      match (c.masters i).create .OK now path mode uid gid with
      | .error e => .error e
      | .ok (status, _, ns) => .ok
          { masters := Function.update c.masters i ns
            recent := if status.ok then Function.update c.recent i ((c.recent i).insert path)
              else c.recent }
  | .remove path =>
    let i := home route path
    match (c.masters i).remove .OK path with
    | .error e => .error e
    | .ok (_, _, ns) => .ok { c with masters := Function.update c.masters i ns }
  | .restart i counter =>
    match (Namespace.open_ (c.masters i).store counter).init .OK with
    | .error e => .error e
    | .ok (status, ns) =>
      if !status.ok then .error (.exit status)
      else .ok
        { masters := Function.update c.masters i ns
          recent := Function.update c.recent i ∅ }

/-- Two files anywhere in the cluster with the same id are the same file. -/
def UniqueIds (c : Cluster ι) : Prop :=
  ∀ ⦃i j : ι⦄ ⦃p q : Str⦄ ⦃m m' : FileMetadata⦄, (c.masters i).metadataMap[p]? = some m →
    (c.masters j).metadataMap[q]? = some m' → m.objectId = m'.objectId → i = j ∧ p = q

/-- No file of another master, and none that its own master had before it was started,
stands in the way of a new file: has a hash that begins like the new one and the value that
the counter of the master is about to give out. -/
def NoClash (c : Cluster ι) : Event ι → Prop
  | .create path _ _ _ _ =>
    let i := home route path
    (c.masters i).metadataMap[path]? = none →
    ∀ (j : ι) (q : Str) (m : FileMetadata), (c.masters j).metadataMap[q]? = some m →
      ¬ (j = i ∧ q ∈ c.recent i) →
      hashPart (PathHash.pathToHash q) = hashPart (PathHash.pathToHash path) →
      counterPart m.objectId ≠ counterPart (c.masters i).nextObjId
  | _ => True

/-! ## The invariant -/

/-- The requests for a new file on master `i`. -/
def createsOn (i : ι) : List (Event ι) → Nat :=
  List.countP (fun e => match e with
    | .create path _ _ _ _ => home route path = i
    | _ => false)

/-- The counter of a master and the ids of the files it created since it was started. -/
def Counting (c : Cluster ι) (i : ι) (bound : Nat) : Prop :=
  ∃ (first : ObjectId) (n : Nat), n ≤ bound ∧
    (c.masters i).nextObjId = first + BitVec.ofNat 64 n ∧
    ∀ (p : Str) (m : FileMetadata), p ∈ c.recent i → (c.masters i).metadataMap[p]? = some m →
      ∃ j < n, counterPart m.objectId = counterPart (first + BitVec.ofNat 64 j)

structure Inv (done : List (Event ι)) (c : Cluster ι) : Prop where
  files : ∀ i, Namespace.FilesOnly (c.masters i)
  stamped : ∀ {i : ι} {p : Str} {m : FileMetadata}, (c.masters i).metadataMap[p]? = some m →
    hashPart m.objectId = hashPart (PathHash.pathToHash p)
  counting : ∀ i, Counting c i (createsOn route i done)
  unique : UniqueIds c

omit [FsPath] in
theorem Inv.start (counters : ι → ObjectId) : Inv route [] (start counters) where
  files i := .empty _
  stamped := by simp [Cluster.start]
  counting i := ⟨counters i, 0, by simp, by simp [Cluster.start], by simp [Cluster.start]⟩
  unique := by
    intro i j p q m m' hm
    simp [Cluster.start] at hm

/-! ## Steps -/

variable {route}

omit [FsPath] [Thrift FileMetadata] in
theorem createsOn_le (i : ι) (done : List (Event ι)) (e : Event ι) :
    createsOn route i done ≤ createsOn route i (done ++ [e]) := by
  rw [createsOn, List.countP_append]
  exact Nat.le_add_right _ _

omit [FsPath] [Thrift FileMetadata] in
theorem createsOn_create {i : ι} {path : Str} (h : home route path = i) (done : List (Event ι))
    (mode uid gid : BitVec 32) (now : Double) :
    createsOn route i (done ++ [.create path mode uid gid now]) = createsOn route i done + 1 := by
  simp [createsOn, List.countP_append, h]

omit [DecidableEq ι] [PathHash] [FsPath] [Thrift FileMetadata] in
theorem Counting.mono {c c' : Cluster ι} {i : ι} {n k : Nat} (h : Counting c i n) (le : n ≤ k)
    (masters : c'.masters i = c.masters i) (recent : c'.recent i = c.recent i) :
    Counting c' i k := by
  obtain ⟨first, count, bound, counter, issued⟩ := h
  refine ⟨first, count, bound.trans le, by rw [masters, counter], ?_⟩
  rw [masters, recent]
  exact issued

omit [FsPath] in
/-- A step that leaves the cluster as it is. -/
theorem Inv.same {done : List (Event ι)} {c : Cluster ι} (h : Inv route done c) (e : Event ι) :
    Inv route (done ++ [e]) c where
  files := h.files
  stamped := h.stamped
  counting i := (h.counting i).mono (createsOn_le i done e) rfl rfl
  unique := h.unique

omit [FsPath] in
/-- No file has the id of a new one. -/
theorem Inv.fresh {done : List (Event ι)} {c : Cluster ι} (h : Inv route done c) {path : Str}
    {mode uid gid : BitVec 32} {now : Double}
    (few : createsOn route (home route path) done < 2 ^ 48)
    (absent : (c.masters (home route path)).metadataMap[path]? = none)
    (clear : NoClash route c (.create path mode uid gid now)) {j : ι} {q : Str}
    {m : FileMetadata} (hm : (c.masters j).metadataMap[q]? = some m) :
    m.objectId ≠ (c.masters (home route path)).nextId path := by
  intro same
  have high := congrArg hashPart same
  have low := congrArg counterPart same
  rw [Namespace.nextId, hashPart_objectIdOf, h.stamped hm] at high
  rw [Namespace.nextId, counterPart_objectIdOf] at low
  by_cases young : j = home route path ∧ q ∈ c.recent (home route path)
  · obtain ⟨rfl, young⟩ := young
    obtain ⟨first, n, bound, counter, issued⟩ := h.counting (home route path)
    obtain ⟨k, less, value⟩ := issued q m young hm
    rw [low, counter] at value
    have := counterPart_inj value (by omega) (by omega)
    omega
  · exact clear absent j q m hm young high low

omit [FsPath] in
theorem Inv.addFile {done : List (Event ι)} {c : Cluster ι} (h : Inv route done c) {path : Str}
    {mode uid gid : BitVec 32} {now : Double} (kind : Namespace.isMetadataKey path)
    (few : createsOn route (home route path) done < 2 ^ 48)
    (absent : (c.masters (home route path)).metadataMap[path]? = none)
    (clear : NoClash route c (.create path mode uid gid now)) :
    Inv route (done ++ [.create path mode uid gid now])
      (c.addFile (home route path) path
        (Namespace.newFile ((c.masters (home route path)).nextId path) mode uid gid now)) := by
  have fresh := fun {j : ι} {q : Str} {m : FileMetadata} => h.fresh few absent clear
    (j := j) (q := q) (m := m)
  generalize hi : home route path = i at *
  generalize hm : Namespace.newFile ((c.masters i).nextId path) mode uid gid now = new
  have id : new.objectId = (c.masters i).nextId path := by rw [← hm]; rfl
  have look (j : ι) (q : Str) : ((c.addFile i path new).masters j).metadataMap[q]? =
      if j = i ∧ path = q then some new else (c.masters j).metadataMap[q]? := by
    by_cases same : j = i
    · subst same
      simp [Cluster.addFile]
    · simp [Cluster.addFile, same]
  refine ⟨fun j => ?_, fun {j p m} hp => ?_, fun j => ?_, fun j k p q m m' hp hq same => ?_⟩
  · by_cases same : j = i
    · subst same
      simp only [Cluster.addFile, Function.update_self]
      refine (h.files j).withFile kind absent ?_ ?_
      · rw [← hm]
        exact not_isDir_regular _
      · rw [Option.eq_none_iff_forall_not_mem]
        intro p used
        obtain ⟨m, hm', -, same⟩ := (h.files j).ids.mp used
        exact fresh hm' (same.trans id)
    · simp only [Cluster.addFile, Function.update_of_ne same]
      exact h.files j
  · rw [look] at hp
    split at hp
    · rename_i here
      rw [← Option.some.inj hp, id, Namespace.nextId, hashPart_objectIdOf, here.2]
    · exact h.stamped hp
  · by_cases same : j = i
    · subst same
      obtain ⟨first, n, bound, counter, issued⟩ := h.counting j
      refine ⟨first, n + 1, ?_, ?_, fun p m hp hm' => ?_⟩
      · rw [createsOn_create hi]
        omega
      · simp only [Cluster.addFile, Function.update_self, Namespace.withFile_nextObjId]
        rw [counter, BitVec.ofNat_add, BitVec.add_assoc]
        rfl
      · rw [look] at hm'
        split at hm'
        · rename_i here
          refine ⟨n, by omega, ?_⟩
          rw [← Option.some.inj hm', id, Namespace.nextId, counterPart_objectIdOf, counter]
        · rename_i other
          have young : p ∈ c.recent j := by
            simp only [Cluster.addFile, Function.update_self] at hp
            rcases ExtTreeSet.mem_insert.mp hp with e | hp
            · exact absurd ⟨rfl, compare_eq_iff_eq.mp e⟩ other
            · exact hp
          obtain ⟨k, less, value⟩ := issued p m young hm'
          exact ⟨k, by omega, value⟩
    · exact (h.counting j).mono (createsOn_le j done _) (by simp [Cluster.addFile, same])
        (by simp [Cluster.addFile, same])
  · rw [look] at hp hq
    split at hp <;> split at hq
    · rename_i here there
      exact ⟨here.1.trans there.1.symm, here.2.symm.trans there.2⟩
    · rw [← Option.some.inj hp, id] at same
      exact absurd same.symm (fresh hq)
    · rw [← Option.some.inj hq, id] at same
      exact absurd same (fresh hp)
    · exact h.unique hp hq same

omit [FsPath] in
theorem Inv.eraseFile {done : List (Event ι)} {c : Cluster ι} (h : Inv route done c) {i : ι}
    {path : Str} {m : FileMetadata} (found : (c.masters i).metadataMap[path]? = some m)
    (e : Event ι) : Inv route (done ++ [e]) (c.eraseFile i path m.objectId) := by
  have look {j : ι} {q : Str} {m' : FileMetadata}
      (hq : ((c.eraseFile i path m.objectId).masters j).metadataMap[q]? = some m') :
      (c.masters j).metadataMap[q]? = some m' := by
    by_cases same : j = i
    · subst same
      simp only [Cluster.eraseFile, Function.update_self, Namespace.withoutFile_metadataMap,
        getElem?_erase] at hq
      split at hq
      · cases hq
      · exact hq
    · simpa [Cluster.eraseFile, same] using hq
  refine ⟨fun j => ?_, fun hp => h.stamped (look hp), fun j => ?_,
    fun _ _ _ _ _ _ hp hq same => h.unique (look hp) (look hq) same⟩
  · by_cases same : j = i
    · subst same
      simp only [Cluster.eraseFile, Function.update_self]
      exact (h.files j).withoutFile found
    · simp only [Cluster.eraseFile, Function.update_of_ne same]
      exact h.files j
  · obtain ⟨first, n, bound, counter, issued⟩ := h.counting j
    refine ⟨first, n, bound.trans (createsOn_le j done e), ?_,
      fun p m' hp hm' => issued p m' hp (look hm')⟩
    by_cases same : j = i
    · subst same
      simpa [Cluster.eraseFile] using counter
    · simpa [Cluster.eraseFile, same] using counter

omit [FsPath] in
/-- A master that comes back with its files and another counter. -/
theorem Inv.restart {done : List (Event ι)} {c : Cluster ι} (h : Inv route done c) (i : ι)
    {ns : Namespace} (files : Namespace.FilesOnly ns)
    (metadata : ns.metadataMap = (c.masters i).metadataMap) (e : Event ι) :
    Inv route (done ++ [e])
      ⟨Function.update c.masters i ns, Function.update c.recent i ∅⟩ := by
  have look (j : ι) :
      (Function.update c.masters i ns j).metadataMap = (c.masters j).metadataMap := by
    by_cases same : j = i
    · subst same
      simp [metadata]
    · simp [same]
  refine ⟨fun j => ?_, fun {j p m} hp => h.stamped (look j ▸ hp), fun j => ?_,
    fun j k _ _ _ _ hp hq same => h.unique (look j ▸ hp) (look k ▸ hq) same⟩
  · by_cases same : j = i
    · subst same
      simpa using files
    · simpa [same] using h.files j
  · by_cases same : j = i
    · subst same
      exact ⟨ns.nextObjId, 0, Nat.zero_le _, by simp, by simp⟩
    · exact (h.counting j).mono (createsOn_le j done e) (by simp [same]) (by simp [same])

/-- A new path appears on its master. -/
theorem step_create {c : Cluster ι} {path : Str}
    (maps : Namespace.Consistent (c.masters (home route path)))
    (valid : MasterController.isValidPath path = true)
    (absent : (c.masters (home route path)).metadataMap[path]? = none)
    (mode uid gid : BitVec 32) (now : Double) :
    c.step route (.create path mode uid gid now) =
      .ok (c.addFile (home route path) path
        (Namespace.newFile ((c.masters (home route path)).nextId path) mode uid gid now)) := by
  have unmapped : ¬ (c.masters (home route path)).idToPathMap[
      (c.masters (home route path)).nextId path]? = some path := by
    intro used
    obtain ⟨m, hm, -⟩ := maps.ids.mp used
    simp [absent] at hm
  simp only [Cluster.step, valid, Namespace.create_absent mode uid gid now absent,
    if_neg unmapped]
  rfl

theorem Inv.step [LawfulFsPath] [LawfulThrift FileMetadata] {done : List (Event ι)}
    {c : Cluster ι} (h : Inv route done c) (e : Event ι)
    (few : ∀ i, createsOn route i done < 2 ^ 48) (clear : NoClash route c e) :
    ∃ c', c.step route e = .ok c' ∧ Inv route (done ++ [e]) c' := by
  cases e with
  | create path mode uid gid now =>
    by_cases valid : MasterController.isValidPath path = true
    · cases found : (c.masters (home route path)).metadataMap[path]? with
      | none =>
        have kind : Namespace.isMetadataKey path := by
          obtain ⟨rest, rfl⟩ := LawfulFsPath.head_of_isAbsolute valid
          exact Namespace.isMetadataKey_cons rest
        exact ⟨_, step_create (h.files _).toConsistent valid found mode uid gid now,
          h.addFile kind (few _) found clear⟩
      | some m =>
        have old : path ∈ (c.masters (home route path)).metadataMap :=
          (mem_iff_exists _ _).mpr ⟨m, found⟩
        refine ⟨c, ?_, h.same _⟩
        simp only [Cluster.step, valid, Namespace.create, old, if_true]
        simp [Status.systemError, Status.ok, EEXIST]
    · refine ⟨c, ?_, h.same _⟩
      simp [Cluster.step, valid]
  | remove path =>
    cases found : (c.masters (home route path)).metadataMap[path]? with
    | none =>
      refine ⟨c, ?_, h.same _⟩
      simp [Cluster.step, Namespace.remove, found]
    | some m =>
      have file := (h.files (home route path)).files found
      have mapped : (c.masters (home route path)).idToPathMap[m.objectId]? = some path :=
        (h.files _).ids.mpr ⟨m, found, file, rfl⟩
      refine ⟨_, ?_, h.eraseFile found _⟩
      simp only [Cluster.step, Namespace.remove_file found file, if_pos mapped]
      rfl
  | restart i counter =>
    obtain ⟨ns, hinit, files, metadata, -⟩ := (h.files i).restart counter
    refine ⟨_, ?_, h.restart i files metadata _⟩
    simp only [Cluster.step, hinit]
    rfl

/-- A new file that another one stands in the way of gets the id of that one. -/
theorem duplicate_of_clash {done : List (Event ι)} {c c' : Cluster ι} (h : Inv route done c)
    {path : Str} {mode uid gid : BitVec 32} {now : Double}
    (valid : MasterController.isValidPath path = true)
    (clash : ¬ NoClash route c (.create path mode uid gid now))
    (hs : c.step route (.create path mode uid gid now) = .ok c') : ¬ UniqueIds c' := by
  simp only [NoClash, Classical.not_imp, not_forall, not_not] at clash
  obtain ⟨absent, j, q, m, hm, -, high, low⟩ := clash
  have id : m.objectId = (c.masters (home route path)).nextId path :=
    eq_of_parts (by rw [h.stamped hm, high, Namespace.nextId, hashPart_objectIdOf])
      (by rw [low, Namespace.nextId, counterPart_objectIdOf])
  rw [step_create (h.files _).toConsistent valid absent] at hs
  cases hs
  intro unique
  have other : ¬ (home route path = j ∧ path = q) := by
    rintro ⟨rfl, rfl⟩
    simp [absent] at hm
  have new : ((c.addFile (home route path) path
      (Namespace.newFile ((c.masters (home route path)).nextId path) mode uid gid now)).masters
        (home route path)).metadataMap[path]? =
      some (Namespace.newFile ((c.masters (home route path)).nextId path) mode uid gid now) := by
    simp [Cluster.addFile]
  refine other (unique new ?_ id.symm)
  by_cases same : j = home route path
  · subst same
    have : path ≠ q := fun e => other ⟨rfl, e⟩
    simpa [Cluster.addFile, this] using hm
  · simpa [Cluster.addFile, same] using hm

omit [FsPath] [Thrift FileMetadata] in
theorem createsOn_le_of_append (i : ι) {done rest all : List (Event ι)} {e : Event ι}
    (total : done ++ e :: rest = all) : createsOn route i done ≤ createsOn route i all := by
  rw [← total, createsOn, List.countP_append]
  exact Nat.le_add_right _ _

/-- Any number of masters, any routing, any counters before and after restarts, fewer than
`2 ^ 48` creations on each master: a run in which no file stands in the way of a new one
fails no check and ends with different ids for different files. -/
theorem object_ids_unique [LawfulFsPath] [LawfulThrift FileMetadata] (route : HashValueType → ι)
    (counters : ι → ObjectId) (events : List (Event ι))
    (few : ∀ i, createsOn route i events < 2 ^ 48)
    (clear : Transition.Meets (step route) (NoClash route) (Cluster.start counters) events) :
    ∃ c, Transition.run (step route) (Cluster.start counters) events = .ok c ∧ UniqueIds c := by
  obtain ⟨c, hrun, inv⟩ := Transition.run_invariant
    (fun _ _ e _ total h clear => h.step e
      (fun i => (createsOn_le_of_append i total).trans_lt (few i)) clear)
    (List.nil_append events) (Inv.start route counters) clear
  exact ⟨c, hrun, inv.unique⟩

end Step

section Example

attribute [local instance] Posix.fsPath Md5.pathHash BinaryProtocol.fileMetadataThrift

/-- Everything is routed to the only master. -/
def alone (_ : HashValueType) : Unit := ()

def newFile (path : String) : Event Unit := .create path.toList 0o644 0 0 0

/-- The hashes of the two paths begin with the same 16 bits; in between the master restarts
and finds its counter where it was at first. -/
def repeatedCounter : List (Event Unit) := [newFile "/bu", .restart () 0, newFile "/rn"]

theorem restart_repeats_object_id :
    ¬ ∀ (counters : Unit → ObjectId) (events : List (Event Unit)),
      (∀ i, createsOn alone i events < 2 ^ 48) →
      ∃ c, Transition.run (step alone) (start counters) events = .ok c ∧ UniqueIds c := by
  intro unique
  obtain ⟨c, hrun, ids⟩ := unique (fun _ => 0) repeatedCounter (by decide)
  have both : (Transition.run (step alone) (start fun _ => 0) repeatedCounter).map (fun c =>
      (((c.masters ()).metadataMap["/bu".toList]?).map (·.objectId),
        ((c.masters ()).metadataMap["/rn".toList]?).map (·.objectId))) =
      .ok (some 0x7254000000000000, some 0x7254000000000000) := by
    decide +kernel
  rw [hrun] at both
  have pair := Except.ok.inj both
  obtain ⟨m, hm, id⟩ := Option.map_eq_some_iff.mp (congrArg Prod.fst pair)
  obtain ⟨m', hm', id'⟩ := Option.map_eq_some_iff.mp (congrArg Prod.snd pair)
  exact absurd (ids hm hm' (id.trans id'.symm)).2 (by decide)

/-- The same with two paths whose hashes begin differently. -/
def otherPrefix : List (Event Unit) := [newFile "/bu", .restart () 0, newFile "/a"]

theorem otherPrefix_ids_unique :
    ∃ c, Transition.run (step alone) (start fun _ => 0) otherPrefix = .ok c ∧ UniqueIds c := by
  refine object_ids_unique alone (fun _ => 0) otherPrefix (by decide) ⟨?_, fun c₁ h₁ =>
    ⟨trivial, fun c₂ h₂ => ⟨?_, fun _ _ => trivial⟩⟩⟩
  · intro _ j q m hm
    simp [start] at hm
  · intro _ j q m hm _ same
    have differ : ((step alone (start fun _ => 0) (newFile "/bu")).bind
        (fun c => step alone c (.restart () 0))).map (fun c =>
          (c.masters ()).metadataMap.toList.all (fun file => decide
            (hashPart (PathHash.pathToHash file.1) ≠
              hashPart (PathHash.pathToHash "/a".toList)))) = .ok true := by
      decide +kernel
    rw [h₁] at differ
    simp only [Except.bind, h₂, Except.map] at differ
    have all := List.all_eq_true.mp (Except.ok.inj differ) (q, m)
      (ExtTreeMap.mem_toList_iff_getElem?_eq_some.mpr hm)
    exact absurd same (of_decide_eq_true all)

end Example

end Cluster

end Vsfs.Masterd

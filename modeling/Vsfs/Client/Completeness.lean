import Vsfs.Client.Conjunction
import Vsfs.Client.History
import Vsfs.Masterd.Subtree

/-!
# Complete searches

An update walks up from the directory of a file to the nearest index, and a search looks for
indices from its root downwards. So a search finds what is in the indices at or below its
root, and nothing of an index above it, although files below the root may be in that one.

## Main results

* `search_finds_iff` : after any history, the entries that a search finds.
-/

namespace Vsfs.Client

open Std Program Prog Masterd Indexd Index Replay FiniteMap VSFSRpcClient IndexUpdateTask
open IndexNamespace (Below)

section Completeness

variable {K : Type} [LinearOrder K] [KeyTypes K]

/-- A query with one condition. -/
def single (root name : Str) (range : StringRange) : ComplexQuery where
  root := root
  rangeQueryMap := (∅ : ExtTreeMap Str StringRange).insert name range

theorem mem_single {root name : Str} {range : StringRange} {n : Str} :
    n ∈ (single root name range).rangeQueryMap ↔ n = name := by
  simp only [single, ExtTreeMap.mem_insert, ExtTreeMap.not_mem_empty, or_false,
    Std.compare_eq_iff_eq]
  exact eq_comm

variable [FsPath] [LawfulFsPath] [PathHash] [ConsistentHashMap] {c : VSFSRpcClient}
  {batchSize : Nat} {s : Servers K} {files : Set Str} {entries : Set (Entry K)} {n : Nat}

omit [PathHash] [ConsistentHashMap] in
/-- The key of an entry is in a range, as the index reads it. -/
def Entry.InRange (e : Entry K) (root : Str) (range : StringRange) : Prop :=
  (RangeIndex.empty e.keyType : RangeIndex K).Matches
    (rangeFor (single root e.name range) e.part) e.key

omit [KeyTypes K] [PathHash] [ConsistentHashMap] in
/-- The partition of an index is one of those that a search of a prefix of its path asks. -/
theorem mem_partitions_of_prefix (registered : AllRegistered c s) {top name : Str}
    (ht : Normal top) (hn : Plain name) {a : NodeAddress}
    (there : PathUtil.indexPath top name ++ "/0".toList ∈ (s.indexServers a).rangeIndexMap)
    {root : Str} (within : root <+: top) (range : StringRange) :
    PathUtil.indexPath top name ++ "/0".toList ∈ partitions c (single root name range) s := by
  obtain ⟨top', name', ht', hn', same, sep, node, onRing, listed⟩ := registered a _ there
  rw [PathUtil.partitionPath_zero ht' hn'] at same
  obtain ⟨rfl, rfl⟩ :=
    (PathUtil.indexPath_eq_iff ht hn ht' hn').mp (List.append_cancel_right same)
  obtain ⟨entry, found, inside⟩ := listed_of_registered ht listed
  exact mem_partitions.mpr ⟨name, mem_single.mpr rfl, sep, node, top, onRing,
    IndexNamespace.mem_collect.mpr ⟨entry, found, within, inside⟩, rfl⟩

omit [PathHash] [ConsistentHashMap] [LawfulFsPath] [KeyTypes K] in
/-- No other partitions are asked, in particular none of an index above the root. -/
theorem prefix_of_mem_partitions {root name part : Str} {range : StringRange}
    (h : part ∈ partitions c (single root name range) s) :
    ∃ top, root <+: top ∧ (∃ a, top ∈ (s.masters a).indexNamespace.nodes) ∧
      part = PathUtil.indexPath top name ++ "/0".toList := by
  obtain ⟨name', inQuery, sep, node, top, -, collected, same⟩ := mem_partitions.mp h
  obtain ⟨entry, found, within, -⟩ := IndexNamespace.mem_collect.mp collected
  rw [mem_single.mp inQuery] at same
  exact ⟨top, within, ⟨node.address, (mem_iff_exists _ _).mpr ⟨entry, found⟩⟩, same⟩

omit [LawfulFsPath] in
/-- What is recorded in range is found there. -/
theorem found_of_recorded (kept : Kept c s files entries n) {e : Entry K}
    (recorded : Recorded c s e) {root : Str} {range : StringRange} (inRange : e.InRange root range)
    (searched : Searched c s e.part) :
    Found c (single root e.name range) s e.part (objectOf c s e.file) := by
  obtain ⟨a, w, server, found, type, logged⟩ := recorded
  obtain ⟨-, node, w', home, found', merged⟩ := searched
  rw [serverOf, home, Option.map_some, Option.some.injEq] at server
  subst server
  cases found.symm.trans found'
  have zeros := (kept.usable node.address).logs e.part w found
  obtain ⟨type', pairs⟩ := RangeIndexWrapper.merge_of_zeros zeros merged
  refine ⟨node, w, e.key, home, found, ?_, ?_⟩
  · rw [pairs]
    exact logged
  · obtain ⟨lower, upper, bounds, between⟩ := inRange
    refine ⟨lower, upper, ?_, between⟩
    rw [RangeIndex.bounds, type', type]
    exact bounds

omit [FsPath] [LawfulFsPath] [KeyTypes K] in
/-- The id of a file leads back to it: the master that is asked for the id has the path. -/
def LeadsBack (c : VSFSRpcClient) (s : Servers K) (file : Str) : Prop :=
  pathOf c s (objectOf c s file) = file

omit [FsPath] [LawfulFsPath] [KeyTypes K] in
theorem Filed.leadsBack {file : Str} {o : ObjectId} (filed : Filed c s file o)
    (home : c.masterMap.get (Client.objectOf c s file) = c.masterMap.getByPath file) :
    LeadsBack c s file := by
  have same := filed.objectOf
  obtain ⟨node, m, there, -, -, back⟩ := filed
  rw [LeadsBack, pathOf, home, there, same]
  simp [back]

/-- Another record leads a search of the root to the file: one of another index with the name,
or one with another id. -/
def FoundOtherwise (c : VSFSRpcClient) (s : Servers K) (e : Entry K) (root : Str)
    (range : StringRange) : Prop :=
  ∃ top o, (top ≠ e.root ∨ o ≠ objectOf c s e.file) ∧ Normal top ∧ root <+: top ∧
    Found c (single root e.name range) s (PathUtil.indexPath top e.name ++ "/0".toList) o ∧
    pathOf c s o = e.file

variable [ThriftSerialize FileMetadata] [ThriftSerialize IndexNamespaceNode]

/-- When every key has a server, a search succeeds, and returns the files that the records in
range lead to. -/
theorem search_returns (reachable : Reachable c) {query : ComplexQuery}
    (orderly : Orderly query s) :
    Ends Succeeds (fun r _ => ∃ results, r = .ok (.OK, results) ∧
      (∀ part ∈ partitions c query s, Searched c s part) ∧
      ∀ file, file ∈ results ↔ ∃ part ∈ partitions c query s, ∃ o,
        Found c query s part o ∧ pathOf c s o = file) (c.search query) s := by
  refine (search_ends c query s (ranged_of_orderly orderly)).imp ?_
  rintro r s' (⟨⟨part, -, unnamed⟩, -⟩ | ⟨members, -, all, searched, ended⟩)
  · exact absurd (reachable.indexServers _) unnamed
  rcases ended with ⟨-, o, -, unnamed⟩ | ⟨results, rfl, perm⟩
  · exact absurd (reachable.masters o) unnamed
  refine ⟨results, rfl, fun part hp => searched part ((all part).mpr hp), ?_⟩
  intro file
  rw [perm.mem_iff, List.mem_map]
  constructor
  · rintro ⟨o, answered, path⟩
    obtain ⟨part, inside, answer⟩ := List.mem_flatMap.mp answered
    exact ⟨part, (all part).mp inside, o, (mem_answerOf (searched part inside) o).mp answer, path⟩
  · rintro ⟨part, located, o, found, path⟩
    have inside := (all part).mpr located
    exact ⟨o, List.mem_flatMap.mpr ⟨part, inside,
      (mem_answerOf (searched part inside) o).mpr found⟩, path⟩

variable [LawfulConsistentHashMap]

/-- After any successful calls, a search succeeds, and what is in range comes back just when
its index is on a path that begins with the root of the search, if no other record leads to
the file. -/
theorem search_finds_iff (reachable : Reachable c)
    (history : History c batchSize s files entries n) (few : n ≤ 2 ^ 48) {e : Entry K}
    (indexed : e ∈ entries) (root : Str) {range : StringRange} (inRange : e.InRange root range) :
    Ends Succeeds (fun r _ => ∃ results, r = .ok (.OK, results) ∧
      (e.file ∈ results ↔
        (root <+: e.root ∧ LeadsBack c s e.file) ∨ FoundOtherwise c s e root range))
      (c.search (single root e.name range)) s := by
  have kept := kept_of_history reachable history few
  have registered := allRegistered_of_history reachable history few
  obtain ⟨-, recorded⟩ := kept.recorded e indexed
  have orderly : Orderly (single root e.name range) s := by
    refine ⟨kept.roots, ?_⟩
    intro name inQuery
    rw [mem_single.mp inQuery]
    exact e.plain
  refine (search_returns reachable orderly).imp ?_
  rintro r s' ⟨results, rfl, searched, returned⟩
  refine ⟨results, rfl, (returned e.file).trans ⟨?_, ?_⟩⟩
  · rintro ⟨part, located, o, found, path⟩
    obtain ⟨top, within, ⟨a, there⟩, rfl⟩ := prefix_of_mem_partitions located
    by_cases same : top = e.root ∧ o = objectOf c s e.file
    · obtain ⟨rfl, rfl⟩ := same
      exact .inl ⟨within, path⟩
    · refine .inr ⟨top, o, ?_, kept.roots there, within, found, path⟩
      simpa [or_iff_not_imp_left] using same
  · rintro (⟨within, back⟩ | ⟨top, o, -, ht, within, found, path⟩)
    · have located : e.part ∈ partitions c (single root e.name range) s := by
        obtain ⟨a, w, -, there, -⟩ := recorded
        exact mem_partitions_of_prefix registered e.normal e.plain
          ((mem_iff_exists _ _).mpr ⟨w, there⟩) within range
      exact ⟨e.part, located, _,
        found_of_recorded kept recorded inRange (searched e.part located), back⟩
    · have located : PathUtil.indexPath top e.name ++ "/0".toList ∈
          partitions c (single root e.name range) s := by
        obtain ⟨node, w, k, -, there, -⟩ := found
        exact mem_partitions_of_prefix registered ht e.plain
          ((mem_iff_exists _ _).mpr ⟨w, there⟩) within range
      exact ⟨_, located, o, found, path⟩

/-- The search returns the file of the entry. -/
def Finding (c : VSFSRpcClient) (s : Servers K) (e : Entry K) (root : Str) (range : StringRange) :
    Prop :=
  Ends Succeeds (fun r _ => ∃ results, r = .ok (.OK, results) ∧ e.file ∈ results)
    (c.search (single root e.name range)) s

end Completeness

section Example

attribute [local instance] SortedRing.consistentHashMap Posix.fsPath Md5.pathHash
  BinaryProtocol.fileMetadataThrift BinaryProtocol.indexNamespaceNode uint64Keys

theorem reachable_oneServer : Reachable oneServer where
  masters key := ⟨_, congrArg Prod.snd (oneServer_master key), by decide⟩
  indexServers key := ⟨_, congrArg Prod.snd (oneServer_indexServer key), by decide⟩

/-- Make a call that succeeds. -/
def succeed {α : Type} (status : α → Status) (p : ClientM α) (s : Servers Int) :
    Option (Servers Int) :=
  match eval succeeding 30 p s with
  | some (.ok a, s') => if (status a).ok then some s' else none
  | _ => none

theorem succeed_sound {α : Type} {status : α → Status} {p : ClientM α} {s s' : Servers Int}
    (h : succeed status p s = some s') :
    ∃ a, Evals Granted p s (.ok a) s' ∧ (status a).ok = true := by
  have granted (β : Type) (rpc : Rpc β) (s : Servers Int) (b : Except RpcError β) (s' : Servers Int)
      (served : succeeding β rpc s = some (b, s')) : Granted β rpc s b s' := by
    obtain ⟨a, rfl, answers⟩ := succeeding_sound β rpc s b s' served
    exact ⟨.ok a, rfl, answers, by simp⟩
  unfold succeed at h
  split at h
  · rename_i a t ran
    split at h
    · cases h
      exact ⟨a, eval_sound granted ran, ‹_›⟩
    · cases h
  · cases h

def hasSucceeded (t : Task Rpc RpcError Exit Status (List IndexUpdateRequest)) : Bool :=
  match t.prog with
  | .ret status => status.ok
  | _ => false

/-- Make an update that succeeds, with the first task taking 20 steps. -/
def updateWith (requests : List IndexUpdateRequest) (s : Servers Int) : Option (Servers Int) :=
  match (launched oneServer s (tasksOf kBatchSize requests)).follow (run oneServer) reliable
      (List.replicate 20 (0, 0)) with
  | .ok p => if p.tasks.all hasSucceeded then some p.state else none
  | .error _ => none

theorem updateWith_sound {requests : List IndexUpdateRequest} {s s' : Servers Int}
    (h : updateWith requests s = some s') : Succeeded oneServer kBatchSize s requests s' := by
  unfold updateWith at h
  split at h
  · rename_i p followed
    split at h
    · rename_i all
      cases h
      refine ⟨_, p, followed, ?_, rfl⟩
      intro t ht
      have here := List.all_eq_true.mp all t ht
      unfold hasSucceeded at here
      split at here
      · exact ⟨_, ‹_›, here⟩
      · cases here
    · cases h
  · cases h

/-- The file `/d/e/f`, and an index of sizes on `/d`. -/
def sizesOnD : Option (Servers Int) := do
  let s₁ ← succeed id (oneServer.mkdir "/d".toList 0o755 0 0) rootOnly
  let s₂ ← succeed id (oneServer.mkdir "/d/e".toList 0o755 0 0) s₁
  let s₃ ← succeed Prod.fst (oneServer.create "/d/e/f".toList 0o644 0 0) s₂
  succeed id (oneServer.createIndex "/d".toList "size".toList 2 0 0o755 0 0) s₃

theorem plain_size : Plain "size".toList := by decide

/-- The size 10 of the file. -/
def tenBytes : IndexUpdateRequest := ⟨.insert, "/d/e/f".toList, "size".toList, "10".toList⟩

def tenOnD : Entry Int where
  file := "/d/e/f".toList
  root := "/d".toList
  name := "size".toList
  keyType := 0
  key := 10
  normal := normal_d
  plain := plain_size

theorem empty_rootOnly : EmptyCluster rootOnly where
  files _ := rfl
  indices _ := rfl
  partitions _ := ⟨rfl, rfl⟩

theorem history_sizesOnD {s : Servers Int} (h : sizesOnD = some s) :
    History oneServer kBatchSize s (insert (PathUtil.partitionPath "/d".toList "size".toList 0)
      (insert "/d/e/f".toList ∅)) ∅ 2 := by
  simp only [sizesOnD, Option.bind_eq_bind, Option.bind_eq_some_iff] at h
  obtain ⟨s₁, first, s₂, second, s₃, third, h⟩ := h
  obtain ⟨status₁, run₁, ok₁⟩ := succeed_sound first
  obtain ⟨status₂, run₂, ok₂⟩ := succeed_sound second
  obtain ⟨⟨status₃, oid⟩, run₃, ok₃⟩ := succeed_sound third
  obtain ⟨status₄, run₄, ok₄⟩ := succeed_sound h
  exact .createIndex (.create (.mkdir (.mkdir (.start empty_rootOnly) run₁ ok₁) run₂ ok₂) run₃ ok₃)
    normal_d plain_size run₄ ok₄

/-- The update can be served, and the nearest index is the one on `/d`. -/
def Prepared (s : Servers Int) : Prop :=
  RangeIndex.toWrite 0 (toRecord tenBytes (objectOf oneServer s tenOnD.file)) =
      some ⟨tenOnD.pair oneServer s, true⟩ ∧
    (s.masters ⟨"m".toList, 1⟩).namespace.metadataMap["/d/e/.vsfs/size".toList]? = none ∧
    ((s.masters ⟨"m".toList, 1⟩).namespace.metadataMap["/d/.vsfs/size".toList]?.map
      fun m => decide (S_ISDIR m.mode)) = some true ∧
    ((s.indexServers ⟨"i".toList, 2⟩).rangeIndexMap["/d/.vsfs/size/0".toList]?.map
      fun w => w.index.keyType) = some 0

instance (s : Servers Int) : Decidable (Prepared s) := inferInstanceAs (Decidable (_ ∧ _))

theorem sizesOnD_prepared : sizesOnD.map (fun s => decide (Prepared s)) = some true := by
  decide +kernel

theorem inserted_tenBytes {s : Servers Int} {files : Set Str} (prepared : Prepared s)
    (there : "/d/e/f".toList ∈ files) : Inserted oneServer s files [tenBytes] tenOnD := by
  obtain ⟨write, absent, onD, type⟩ := prepared
  refine ⟨there, ⟨tenBytes, List.mem_singleton_self _, rfl, rfl, write⟩, ?_, ?_⟩
  · refine .up ?_ (by decide) (.here ?_)
    · rintro ⟨node, m, home, found, -⟩
      cases (oneServer_master _).symm.trans home
      cases absent.symm.trans found
    · obtain ⟨m, found, directory⟩ := Option.map_eq_some_iff.mp onD
      exact ⟨_, m, oneServer_master _, found, of_decide_eq_true directory⟩
  · obtain ⟨w, found, type⟩ := Option.map_eq_some_iff.mp type
    refine ⟨⟨"i".toList, 2⟩, w, ?_, found, type⟩
    exact congrArg (fun r => r.2.map (·.address)) (oneServer_indexServer _)

theorem spared_tenBytes {s : Servers Int} {files : Set Str}
    (inserted : Inserted oneServer s files [tenBytes] tenOnD) :
    Spared oneServer kBatchSize s [tenBytes] tenOnD := by
  intro task ht
  have alone : tasksOf kBatchSize [tenBytes] = [[tenBytes]] := rfl
  rw [alone, List.mem_singleton] at ht
  obtain ⟨r, hr, -, -, write⟩ := inserted.request
  cases List.mem_singleton.mp hr
  have isFor : IsFor oneServer s tenBytes tenOnD.part := ⟨_, inserted.nearest, rfl⟩
  have written : RangeIndex.writes Int 0 (recordsTo oneServer s task tenOnD.part) =
      [⟨tenOnD.pair oneServer s, true⟩] := by
    rw [ht, recordsTo, List.filter_cons_of_pos (by simpa using isFor)]
    exact List.filterMap_cons_some write
  rw [show tenOnD.keyType = 0 from rfl, written]
  simp [last]

/-- The index is there, and has the size of the file. -/
def indexedOnD : Option (Servers Int) := sizesOnD.bind (updateWith [tenBytes])

theorem history_indexedOnD {s' : Servers Int} (h : indexedOnD = some s') :
    ∃ files entries, History oneServer kBatchSize s' files entries 2 ∧ tenOnD ∈ entries := by
  obtain ⟨s, before, updated⟩ := Option.bind_eq_some_iff.mp h
  have prepared : Prepared s := by
    have all := sizesOnD_prepared
    rw [before] at all
    simpa using all
  have made := history_sizesOnD before
  have inserted := inserted_tenBytes prepared (Set.mem_insert_of_mem
    (PathUtil.partitionPath "/d".toList "size".toList 0) (Set.mem_insert "/d/e/f".toList ∅))
  exact ⟨_, _, made.update (updateWith_sound updated), .inr inserted, spared_tenBytes inserted⟩

/-- With one master, every id leads back. -/
theorem leadsBack_oneServer {batchSize n : Nat} {s : Servers Int} {files : Set Str}
    {entries : Set (Entry Int)} (history : History oneServer batchSize s files entries n)
    (few : n ≤ 2 ^ 48) {e : Entry Int} (indexed : e ∈ entries) : LeadsBack oneServer s e.file := by
  have kept := kept_of_history reachable_oneServer history few
  obtain ⟨o, filed⟩ := kept.filed e.file (kept.recorded e indexed).1
  exact filed.leadsBack ((oneServer_master _).trans (oneServer_master _).symm)

/-- Sizes from 1 to 99. -/
def oneTo99 : StringRange := ⟨"1".toList, true, "99".toList, true⟩

theorem tenOnD_inRange (root : Str) : tenOnD.InRange root oneTo99 := by
  refine ⟨1, 99, rfl, ?_⟩
  show (1 : Int) ≤ 10 ∧ (10 : Int) ≤ 99
  omega

/-- A search of the directory `/d/e` returns nothing. -/
theorem indexedOnD_searched : indexedOnD.map (fun s => decide (
    (eval succeeding 20 (oneServer.search (single "/d/e".toList "size".toList oneTo99)) s).map
      (·.1) = some (.ok (.OK, [])) ∧
    ((s.masters ⟨"m".toList, 1⟩).namespace.metadataMap["/d/e".toList]?.map
      fun m => decide (S_ISDIR m.mode)) = some true)) = some true := by
  decide +kernel

/-- The file is below the directory `/d/e`, and a search of `/d/e` returns nothing. -/
theorem search_misses_ancestor :
    ¬ ∀ (c : VSFSRpcClient) (batchSize : Nat) (s : Servers Int) (files : Set Str)
      (entries : Set (Entry Int)) (n : Nat) (e : Entry Int) (root : Str) (range : StringRange),
      Reachable c → History c batchSize s files entries n → n ≤ 2 ^ 48 → e ∈ entries →
      IsDirectory c s root → Below root e.file → LeadsBack c s e.file → e.InRange root range →
      Finding c s e root range := by
  intro claim
  obtain ⟨s, reached, seen⟩ := Option.map_eq_some_iff.mp indexedOnD_searched
  obtain ⟨run, there⟩ := of_decide_eq_true seen
  obtain ⟨⟨r, s'⟩, ran, rfl⟩ := Option.map_eq_some_iff.mp run
  obtain ⟨m, there, isDir⟩ := Option.map_eq_some_iff.mp there
  have directory : IsDirectory oneServer s "/d/e".toList :=
    ⟨_, m, oneServer_master _, there, of_decide_eq_true isDir⟩
  obtain ⟨files, entries, history, indexed⟩ := history_indexedOnD reached
  have back := leadsBack_oneServer history (by decide) indexed
  obtain ⟨results, same, inside⟩ := (claim oneServer kBatchSize s files entries 2 tenOnD
    "/d/e".toList oneTo99 reachable_oneServer history (by decide) indexed directory (by decide) back
    (tenOnD_inRange _)).sound (eval_sound succeeding_sound ran)
  cases same
  cases inside

/-- A search of `/d` finds the file. -/
theorem search_finds_tenOnD : ∃ s files entries,
    History oneServer kBatchSize s files entries 2 ∧ tenOnD ∈ entries ∧
      Finding oneServer s tenOnD "/d".toList oneTo99 := by
  obtain ⟨s, there, _⟩ := Option.map_eq_some_iff.mp indexedOnD_searched
  obtain ⟨files, entries, history, indexed⟩ := history_indexedOnD there
  refine ⟨s, files, entries, history, indexed, ?_⟩
  refine (search_finds_iff reachable_oneServer history (by decide) indexed "/d".toList
    (tenOnD_inRange _)).imp ?_
  rintro r s' ⟨results, same, iff⟩
  exact ⟨results, same,
    iff.mpr (.inl ⟨by decide, leadsBack_oneServer history (by decide) indexed⟩)⟩

end Example

end Vsfs.Client

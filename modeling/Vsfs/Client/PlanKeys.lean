import Vsfs.Client.Placement
import Vsfs.Client.Work
import Vsfs.Lib.Cuts

/-!
# Addresses as keys of plans

Every plan of the client is a map from the text of an address to what is to be sent there. The
text determines the address, but it can only be read back when the host has no colon.

## Main results

- `addressToString_injective`: two addresses never have one text.
- `addresses_survive_iff`: when the planners' plans lead to the servers that the rings named.
-/

namespace Vsfs.Client

open Std Program Prog Masterd Indexd Index FiniteMap Grouping VSFSRpcClient IndexUpdateTask

/-! ## One address -/

/-- The host is what is in front of the last colon. -/
theorem beforeLast_addressToString (a : NodeAddress) :
    Cuts.beforeLast ':' (addressToString a) = some a.host :=
  Cuts.beforeLast_append (colon_not_mem_toString a.port.toInt)

theorem addressToString_injective {a b : NodeAddress}
    (same : addressToString a = addressToString b) : a = b := by
  have hosts := beforeLast_addressToString a
  rw [same, beforeLast_addressToString b] at hosts
  have host : a.host = b.host := (Option.some.inj hosts).symm
  unfold addressToString at same
  rw [host] at same
  have digits := (List.cons.inj (List.append_cancel_left same)).2
  have values := stoi_port a.port
  rw [digits, stoi_port b.port] at values
  have port : a.port = b.port := BitVec.eq_of_toInt_eq (Except.ok.inj values).symm
  cases a
  cases b
  cases host
  cases port
  rfl

theorem stringToAddress_addressToString_iff (a : NodeAddress) :
    stringToAddress (addressToString a) = .ret a ↔ ':' ∉ a.host := by
  constructor
  · intro read colon
    rw [stringToAddress_of_colon colon] at read
    cases read
  · exact stringToAddress_addressToString

/-- Reading a list of texts, one after the other. -/
theorem mapM_read_cons {key : Str} {keys : List Str} {servers : List NodeAddress} :
    (key :: keys).mapM stringToAddress = (.ret servers : ClientM _) ↔
      ∃ a rest, stringToAddress key = .ret a ∧ keys.mapM stringToAddress = (.ret rest : ClientM _) ∧
        servers = a :: rest := by
  rw [List.mapM_cons]
  constructor
  · intro read
    obtain ⟨a, first, read⟩ := ret_of_bind_eq_ret read
    obtain ⟨rest, others, same⟩ := ret_of_bind_eq_ret read
    cases same
    exact ⟨a, rest, first, others, rfl⟩
  · rintro ⟨a, rest, first, others, rfl⟩
    rw [first, others]
    rfl

theorem reads_of_mapM {keys : List Str} {servers : List NodeAddress}
    (read : keys.mapM stringToAddress = (.ret servers : ClientM _)) {key : Str}
    (here : key ∈ keys) : ∃ a, stringToAddress key = .ret a := by
  induction keys generalizing servers with
  | nil => cases here
  | cons first keys ih =>
    obtain ⟨a, rest, ret, others, _⟩ := mapM_read_cons.mp read
    rcases List.mem_cons.mp here with rfl | here
    · exact ⟨a, ret⟩
    · exact ih others here

/-! ## Plans -/

/-- The server that was found has the address. -/
def At (found : Status × Option NodeInfo) (a : NodeAddress) : Prop :=
  ∃ node, found.2 = some node ∧ node.address = a

section Plans

variable {ι β : Type} (home : ι → Status × Option NodeInfo) (items : List ι) (holds : β → ι → Prop)
  (plan : ExtTreeMap Str β)

/-- The keys of the plan are read back without a failure: as the servers of the items and no
others, each of them once. -/
def Contacts : Prop :=
  ∃ servers, plan.keys.mapM stringToAddress = (.ret servers : ClientM _) ∧ servers.Nodup ∧
    ∀ a, a ∈ servers ↔ ∃ x ∈ items, At (home x) a

/-- An entry has the items of one server. -/
def Unshared : Prop :=
  ∀ key entry, plan[key]? = some entry →
    ∃ a, key = addressToString a ∧ ∀ x, holds entry x ↔ x ∈ items ∧ At (home x) a

/-- The items are grouped by the texts of their servers. -/
structure Planned : Prop where
  named : ∀ x ∈ items, ∃ node, (home x).2 = some node
  keys : ∀ key, key ∈ plan ↔ ∃ x ∈ items, addressText (home x) = key
  entries : ∀ key entry, plan[key]? = some entry →
    ∀ x, holds entry x ↔ x ∈ items ∧ addressText (home x) = key

variable {home items holds plan}

theorem at_iff_addressText {found : Status × Option NodeInfo} {node : NodeInfo} {a : NodeAddress}
    (named : found.2 = some node) : At found a ↔ addressText found = addressToString a := by
  rw [addressText_of_some named]
  constructor
  · rintro ⟨node', named', rfl⟩
    cases named.symm.trans named'
    rfl
  · intro same
    exact ⟨node, named, addressToString_injective same⟩

/-- Two addresses never share an entry. -/
theorem Planned.unshared (h : Planned home items holds plan) : Unshared home items holds plan := by
  intro key entry found
  obtain ⟨x, inside, text⟩ := (h.keys key).mp ((mem_iff_exists _ _).mpr ⟨entry, found⟩)
  obtain ⟨node, named⟩ := h.named x inside
  have mine : addressToString node.address = key :=
    ((at_iff_addressText named).mp ⟨node, named, rfl⟩).symm.trans text
  refine ⟨node.address, mine.symm, fun y => ?_⟩
  rw [h.entries key entry found]
  refine and_congr_right fun there => ?_
  obtain ⟨node', named'⟩ := h.named y there
  rw [at_iff_addressText named', mine]

/-- A text that all keys are read from is the text of the address it is read as. -/
theorem Planned.readAddress_eq (h : Planned home items holds plan)
    (plain : ∀ x ∈ items, ∀ a, At (home x) a → ':' ∉ a.host) {key : Str} (here : key ∈ plan) :
    stringToAddress key = .ret (readAddress key) ∧ addressToString (readAddress key) = key ∧
      ∃ x ∈ items, At (home x) (readAddress key) := by
  obtain ⟨x, inside, text⟩ := (h.keys key).mp here
  obtain ⟨node, named⟩ := h.named x inside
  have at_node : At (home x) node.address := ⟨node, named, rfl⟩
  have mine : addressToString node.address = key :=
    ((at_iff_addressText named).mp at_node).symm.trans text
  have read := stringToAddress_addressToString (plain x inside node.address at_node)
  rw [mine] at read
  have same : readAddress key = node.address := by simp only [readAddress, read]
  rw [same]
  exact ⟨read, mine, x, inside, at_node⟩

/-- The keys lead to the servers of the items just when none of these has a colon in its host. -/
theorem Planned.contacts_iff (h : Planned home items holds plan) :
    Contacts home items plan ↔ ∀ x ∈ items, ∀ a, At (home x) a → ':' ∉ a.host := by
  constructor
  · rintro ⟨servers, read, _, _⟩ x inside a there colon
    obtain ⟨node, named, rfl⟩ := there
    have text := (at_iff_addressText named).mp ⟨node, named, rfl⟩
    have here : addressToString node.address ∈ plan.keys :=
      ExtTreeMap.mem_keys.mpr ((h.keys _).mpr ⟨x, inside, text⟩)
    obtain ⟨b, back⟩ := reads_of_mapM read here
    rw [stringToAddress_of_colon colon] at back
    cases back
  · intro plain
    have reads : ∀ key ∈ plan.keys, stringToAddress key = .ret (readAddress key) :=
      fun key hk => (h.readAddress_eq plain (ExtTreeMap.mem_keys.mp hk)).1
    refine ⟨plan.keys.map readAddress, mapM_ret reads, ?_, fun a => ?_⟩
    · refine ExtTreeMap.nodup_keys.map_on fun key hk key' hk' same => ?_
      have mine := (h.readAddress_eq plain (ExtTreeMap.mem_keys.mp hk)).2.1
      have others := (h.readAddress_eq plain (ExtTreeMap.mem_keys.mp hk')).2.1
      rw [← mine, ← others, same]
    · rw [List.mem_map]
      constructor
      · rintro ⟨key, hk, rfl⟩
        exact (h.readAddress_eq plain (ExtTreeMap.mem_keys.mp hk)).2.2
      · rintro ⟨x, inside, there⟩
        obtain ⟨node, named, rfl⟩ := there
        have text := (at_iff_addressText named).mp ⟨node, named, rfl⟩
        have here := (h.keys _).mpr ⟨x, inside, text⟩
        refine ⟨addressToString node.address, ExtTreeMap.mem_keys.mpr here, ?_⟩
        exact addressToString_injective (h.readAddress_eq plain here).2.1

end Plans

/-! ## The planners -/

section Planners

variable [FsPath] [PathHash] [ConsistentHashMap]

/-- The plan of `find_objects`: positions of paths. -/
def findObjectsPlan (c : VSFSRpcClient) (paths : List Str) : ClientM (ExtTreeMap Str (List Nat)) :=
  paths.zipIdx.foldlM (fun reordered (path, i) => do
    let node ← checkGet "master_map_.get(paths[i], &node).ok()" (c.masterMap.getByPath path)
    return push reordered (addressToString node.address) i) ∅

/-- The plan of `get_file_paths_from_objects`: object ids. -/
def filePathsPlan (c : VSFSRpcClient) (objects : List ObjectId) :
    ClientM (ExtTreeMap Str (List ObjectId)) :=
  objects.foldlM (fun plan obj => do
    let node ← checkGet "master_map_.get(obj, &node).ok()" (c.masterMap.get obj)
    return push plan (addressToString node.address) obj) ∅

example (c : VSFSRpcClient) (paths : List Str) : c.findObjects paths =
    (findObjectsPlan c paths).bind fun reordered =>
      findObjectsOn paths (List.replicate paths.length 0) reordered.toList := rfl

example (c : VSFSRpcClient) (objects : List ObjectId) : c.getFilePathsFromObjects objects =
    (filePathsPlan c objects).bind fun plan => findFilesOn [] plan.toList := rfl

/-- A planner, the items it plans for, where the ring has these, and how an entry holds them. A
search plans for the indices that the masters report; every request of an update has an index in
the map. -/
inductive Planner (c : VSFSRpcClient) : {ι β : Type} → (ι → Status × Option NodeInfo) → List ι →
    (β → ι → Prop) → ClientM (ExtTreeMap Str β) → Prop where
  | genSearchPlan (indices : List Str) :
      Planner c c.indexServerMap.getByPath (indices.map (· ++ "/0".toList))
        (fun partitions part => part ∈ partitions) (indices.foldlM c.planPartition ∅)
  | findObjects (paths : List Str) :
      Planner c (fun pos => c.masterMap.getByPath (paths.getD pos [])) (List.range paths.length)
        (fun positions pos => pos ∈ positions) (findObjectsPlan c paths)
  | getFilePathsFromObjects (objects : List ObjectId) :
      Planner c c.masterMap.get objects (fun ids o => o ∈ ids) (filePathsPlan c objects)
  | reorderRequestsToIndexServers (indexMap : ParentPathToIndexPathMap)
      (index : IndexUpdateRequest → Str) (requests : List IndexUpdateRequest)
      (found : ∀ r ∈ requests,
        lookup indexMap (FsPath.parentPath r.filePath) r.indexName = some (index r)) :
      Planner c (fun pos => c.indexServerMap.getByPath (partitionAt index requests pos))
        (List.range requests.length)
        (fun partitions pos => ∃ positions,
          partitions[partitionAt index requests pos]? = some positions ∧ pos ∈ positions)
        (reorderRequestsToIndexServers c indexMap requests)

variable {c : VSFSRpcClient}

omit [FsPath] [PathHash] [ConsistentHashMap] in
theorem planned_group {ι : Type} {home : ι → Status × Option NodeInfo} {items : List ι}
    (named : ∀ x ∈ items, ∃ node, (home x).2 = some node) :
    Planned home items (fun group x => x ∈ group)
      (group (fun x => addressText (home x)) items) where
  named := named
  keys := fun key => mem_group _ items key
  entries := by
    intro key entry found x
    rw [group_eq_some found, List.mem_filter, decide_eq_true_eq]

omit [FsPath] [PathHash] [ConsistentHashMap] in
theorem planned_groupSet {home : Str → Status × Option NodeInfo} {items : List Str}
    (named : ∀ x ∈ items, ∃ node, (home x).2 = some node) :
    Planned home items (fun set x => x ∈ set)
      (groupSet (fun x => addressText (home x)) items) where
  named := named
  keys := by
    refine fun key => ⟨exists_of_mem_groupSet, ?_⟩
    rintro ⟨x, inside, rfl⟩
    obtain ⟨e, he, hx⟩ := List.mem_flatMap.mp
      ((mem_flatMap_groupSet (fun x => addressText (home x)) items x).mpr inside)
    have found := ExtTreeMap.mem_toList_iff_getElem?_eq_some.mp he
    have mine := ((mem_groupSet found x).mp (ExtTreeSet.mem_toList.mp hx)).2
    exact mine ▸ (mem_iff_exists _ _).mpr ⟨e.2, found⟩
  entries := fun _ _ found x => mem_groupSet found x

omit [FsPath] [PathHash] [ConsistentHashMap] in
theorem planned_group₂ {ι : Type} {home : ι → Status × Option NodeInfo} {items : List ι}
    {part : ι → Str} (named : ∀ x ∈ items, ∃ node, (home x).2 = some node) :
    Planned home items
      (fun groups x => ∃ group, groups[part x]? = some group ∧ x ∈ group)
      (group₂ (fun x => addressText (home x)) part items) where
  named := named
  keys := fun key => mem_group₂ _ part items key
  entries := by
    intro key entry found x
    have mine := getD_group part (items.filter fun x => addressText (home x) = key) (part x)
    rw [← group₂_eq_some found] at mine
    have inside : (∃ group, entry[part x]? = some group ∧ x ∈ group) ↔
        x ∈ entry[part x]?.getD [] := by
      cases entry[part x]? <;> simp
    rw [inside, mine]
    simp

/-- Every planner groups its items by the texts of their servers. -/
theorem Planner.planned {ι β : Type} {home : ι → Status × Option NodeInfo} {items : List ι}
    {holds : β → ι → Prop} {program : ClientM (ExtTreeMap Str β)}
    (planner : Planner c home items holds program)
    (named : ∀ x ∈ items, ∃ node, (home x).2 = some node) :
    ∃ plan, program = .ret plan ∧ Planned home items holds plan := by
  cases planner with
  | genSearchPlan indices =>
    have homes : ∀ indexPath ∈ indices, ∃ node,
        (c.indexServerMap.getByPath (indexPath ++ "/0".toList)).2 = some node :=
      fun indexPath inside => named _ (List.mem_map_of_mem inside)
    refine ⟨_, foldlM_of_named "index_server_map_.get(hash, &node).ok()"
      (fun plan addr indexPath => put plan addr (indexPath ++ "/0".toList)) homes ∅, ?_⟩
    have grouped := planned_groupSet named
    rw [groupSet, List.foldl_map] at grouped
    exact grouped
  | findObjects paths =>
    have homes : ∀ path ∈ paths, ∃ node, (c.masterMap.getByPath path).2 = some node := by
      intro path inside
      obtain ⟨pos, bound, here⟩ := (mem_iff_getD paths [] path).mp inside
      exact here ▸ named pos bound
    exact ⟨_, reorderPaths_eq homes, planned_group named⟩
  | getFilePathsFromObjects objects =>
    exact ⟨_, foldlM_of_named "master_map_.get(obj, &node).ok()" push named ∅,
      planned_group named⟩
  | reorderRequestsToIndexServers indexMap index requests found =>
    have homes : ∀ r ∈ requests, ∃ node,
        (c.indexServerMap.getByPath (partitionOf index r)).2 = some node := by
      intro r inside
      obtain ⟨pos, bound, here⟩ := (mem_iff_getD requests default r).mp inside
      exact here ▸ named pos bound
    exact ⟨_, reorder_eq homes found, planned_group₂ named⟩

/-- An address survives as a key just when its host has no colon. Where the ring names a server
for every item, a planner builds a plan that never mixes servers, and that leads to exactly the
named servers just when none of these has a colon in its host. -/
theorem addresses_survive_iff {ι β : Type} {home : ι → Status × Option NodeInfo} {items : List ι}
    {holds : β → ι → Prop} {program : ClientM (ExtTreeMap Str β)}
    (planner : Planner c home items holds program)
    (named : ∀ x ∈ items, ∃ node, (home x).2 = some node) (a : NodeAddress) :
    (stringToAddress (addressToString a) = .ret a ↔ ':' ∉ a.host) ∧
    ∃ plan, program = .ret plan ∧ Unshared home items holds plan ∧
      (Contacts home items plan ↔ ∀ x ∈ items, ∀ a, At (home x) a → ':' ∉ a.host) := by
  obtain ⟨plan, built, planned⟩ := planner.planned named
  exact ⟨stringToAddress_addressToString_iff a, plan, built, planned.unshared,
    planned.contacts_iff⟩

end Planners

section Example

attribute [local instance] SortedRing.consistentHashMap Posix.fsPath Md5.pathHash

theorem named_oneServer_get (o : ObjectId) :
    ∃ node, (oneServer.masterMap.get o).2 = some node :=
  ⟨_, congrArg Prod.snd (oneServer_master o)⟩

/-- The plan for two object ids on the only server. -/
theorem oneServer_survives :
    ':' ∉ "127.0.0.1".toList ∧
    (stringToAddress (addressToString ⟨"127.0.0.1".toList, 9876⟩) =
        .ret ⟨"127.0.0.1".toList, 9876⟩ ↔ ':' ∉ "127.0.0.1".toList) ∧
    ∃ plan, filePathsPlan oneServer [1, 2] = .ret plan ∧
      Unshared oneServer.masterMap.get [1, 2] (fun ids o => o ∈ ids) plan ∧
      (Contacts oneServer.masterMap.get [1, 2] plan ↔
        ∀ o ∈ [1, 2], ∀ a, At (oneServer.masterMap.get o) a → ':' ∉ a.host) :=
  ⟨by decide, addresses_survive_iff (.getFilePathsFromObjects [1, 2])
    (fun o _ => named_oneServer_get o) ⟨"127.0.0.1".toList, 9876⟩⟩

/-- The text of a server with an IPv6 address has too many fields. -/
theorem not_survives_ipv6 :
    ¬ ∀ a : NodeAddress, stringToAddress (addressToString a) = .ret a := by
  intro survives
  have loopback := survives ⟨"::1".toList, 9876⟩
  rw [stringToAddress_of_colon (by decide)] at loopback
  cases loopback

end Example

end Vsfs.Client

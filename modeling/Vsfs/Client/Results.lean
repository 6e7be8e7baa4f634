import Mathlib.Data.List.Flatten
import Vsfs.Client.Search
import Vsfs.Client.Servers

/-!
# What a search returns

When every RPC succeeds, a search returns the paths of all object ids that the partitions
of the located indices have in range, one partition after the other and none of them twice.
It does not return when the text of an address cannot be read back.

## Main results

- `search_ends`: the outcome of a search in terms of the state of the servers.
-/

namespace Vsfs.Client

open Std Program Prog Masterd Indexd Index FiniteMap Grouping VSFSRpcClient

/-- There is a server, and its address can be read back from a text. -/
def Named (found : Status × Option NodeInfo) : Prop :=
  ∃ node, found.2 = some node ∧ ':' ∉ node.address.host

theorem Named.server {found : Status × Option NodeInfo} (h : Named found) :
    ∃ node, found.2 = some node := h.imp fun _ => And.left

/-! ## Texts of addresses -/

/-- The text of the address of the server that was found. -/
def addressText (found : Status × Option NodeInfo) : Str :=
  match found.2 with
  | some node => addressToString node.address
  | none => []

/-- Reading the text back. -/
theorem read_addressText {found : Status × Option NodeInfo} {node : NodeInfo} {addr : Str}
    (home : found.2 = some node) (text : addressText found = addr) :
    (¬ Named found ∧ ∃ exit, stringToAddress addr = .throw exit) ∨
      (Named found ∧ stringToAddress addr = .ret node.address) := by
  simp only [addressText, home] at text
  subst text
  by_cases colon : ':' ∈ node.address.host
  · refine .inl ⟨?_, _, stringToAddress_of_colon colon⟩
    rintro ⟨node', home', plain⟩
    cases home.symm.trans home'
    exact plain colon
  · exact .inr ⟨⟨node, home, colon⟩, stringToAddress_addressToString colon⟩

theorem addressText_of_some {found : Status × Option NodeInfo} {node : NodeInfo}
    (home : found.2 = some node) : addressText found = addressToString node.address := by
  simp only [addressText, home]

/-- What the text is read as is the address. -/
theorem address_of_read {found : Status × Option NodeInfo} {node : NodeInfo} {addr : Str}
    {a : NodeAddress} (home : found.2 = some node) (text : addressText found = addr)
    (read : stringToAddress addr = .ret a) : node.address = a ∧ Named found := by
  rcases read_addressText home text with ⟨-, exit, thrown⟩ | ⟨named, read'⟩
  · rw [read] at thrown
    cases thrown
  · rw [read] at read'
    exact ⟨(Prog.ret.inj read').symm, named⟩

theorem read_of_named {found : Status × Option NodeInfo} {addr : Str} (named : Named found)
    (text : addressText found = addr) :
    ∃ node, found.2 = some node ∧ stringToAddress addr = .ret node.address := by
  obtain ⟨node, home, plain⟩ := named
  rcases read_addressText home text with ⟨unnamed, -⟩ | ⟨-, read⟩
  · exact absurd ⟨node, home, plain⟩ unnamed
  · exact ⟨node, home, read⟩

/-- A loop that looks up the server of every element and uses the text of its address. -/
theorem foldlM_addressText {α σ : Type} (condition : String) (home : α → Status × Option NodeInfo)
    (f : σ → Str → α → σ) (l : List α) (x : σ) :
    (∃ exit, l.foldlM (fun x a => do
        let node ← checkGet condition (home a)
        return f x (addressToString node.address) a) x = (.throw exit : ClientM σ) ∧
        ∃ a ∈ l, ¬ Named (home a)) ∨
      ((∀ a ∈ l, ∃ node, (home a).2 = some node) ∧
        l.foldlM (fun x a => do
          let node ← checkGet condition (home a)
          return f x (addressToString node.address) a) x =
        (.ret (l.foldl (fun x a => f x (addressText (home a)) a) x) : ClientM σ)) := by
  induction l generalizing x with
  | nil => exact .inr ⟨by simp, rfl⟩
  | cons a l ih =>
    rw [List.foldlM_cons, List.foldl_cons]
    cases found : (home a).2 with
    | none =>
      rw [checkGet_none found]
      refine .inl ⟨_, rfl, a, List.mem_cons_self, ?_⟩
      rintro ⟨node, found', -⟩
      rw [found] at found'
      cases found'
    | some node =>
      have text : addressText (home a) = addressToString node.address :=
        addressText_of_some found
      rw [checkGet_some found, text]
      rcases ih (f x (addressToString node.address) a) with
        ⟨exit, thrown, a', inside, unnamed⟩ | ⟨homes, done⟩
      · exact .inl ⟨exit, thrown, a', List.mem_cons_of_mem _ inside, unnamed⟩
      · refine .inr ⟨fun a' ha' => ?_, done⟩
        rcases List.mem_cons.mp ha' with rfl | ha'
        · exact ⟨node, found⟩
        · exact homes a' ha'

/-- The loop when all elements have a server. -/
theorem foldlM_of_named {α σ : Type} (condition : String) {home : α → Status × Option NodeInfo}
    (f : σ → Str → α → σ) {l : List α} (named : ∀ a ∈ l, ∃ node, (home a).2 = some node) (x : σ) :
    l.foldlM (fun x a => do
      let node ← checkGet condition (home a)
      return f x (addressToString node.address) a) x =
    (.ret (l.foldl (fun x a => f x (addressText (home a)) a) x) : ClientM σ) := by
  refine foldlM_ret (fun x a inside => ?_) x
  obtain ⟨node, here⟩ := named a inside
  rw [checkGet_some here, addressText_of_some here]
  rfl

variable {K : Type} [LinearOrder K] [KeyTypes K] [FsPath] [PathHash] [ConsistentHashMap]
  [ThriftSerialize FileMetadata] [ThriftSerialize IndexNamespaceNode]

/-- Every RPC succeeds. -/
def Succeeds : Exec Rpc RpcError (Servers K) :=
  fun _ rpc s b s' => ∃ a, b = .ok a ∧ s.Answers rpc (.ok a) s'

variable (c : VSFSRpcClient) (query : ComplexQuery) (s : Servers K)

/-! ## The indices -/

/-- The indices that the masters of the client report. -/
def located : List Str :=
  (c.masterMap.ring.toList.map (·.2)).flatMap fun node =>
    (s.masters node.address).locateIndicesForSearch query.root query.getNamesOfRangeQueries

/-- The partitions of these indices. -/
def partitions : List Str := (located c query s).map (· ++ "/0".toList)

omit [KeyTypes K] [PathHash] [ConsistentHashMap] [ThriftSerialize FileMetadata]
  [ThriftSerialize IndexNamespaceNode] in
theorem mem_located {indexPath : Str} : indexPath ∈ located c query s ↔
    ∃ (sep : Int) (node : NodeInfo) (name root : Str), c.masterMap.ring[sep]? = some node ∧
      name ∈ query.rangeQueryMap ∧
      root ∈ (s.masters node.address).indexNamespace.collect query.root name ∧
      indexPath = PathUtil.indexPath root name := by
  simp only [located, List.mem_flatMap, List.mem_map, Prod.exists,
    ExtTreeMap.mem_toList_iff_getElem?_eq_some, MasterController.locateIndicesForSearch,
    ComplexQuery.getNamesOfRangeQueries, ExtTreeMap.mem_keys, PathUtil.indexPath]
  constructor
  · rintro ⟨node, ⟨sep, _, found, rfl⟩, name, inQuery, root, registered, rfl⟩
    exact ⟨sep, _, name, root, found, inQuery, registered, rfl⟩
  · rintro ⟨sep, node, name, root, found, inQuery, registered, rfl⟩
    exact ⟨node, ⟨sep, node, found, rfl⟩, name, inQuery, root, registered, rfl⟩

omit [ConsistentHashMap] in
theorem locateOn_ends (indices : List Str) (nodes : List NodeInfo) :
    Ends Succeeds (fun r s' => r = .ok (.OK, indices ++ nodes.flatMap fun node =>
      (s.masters node.address).locateIndicesForSearch query.root query.getNamesOfRangeQueries) ∧
        s' = s) (locateOn query indices nodes) s := by
  induction nodes generalizing indices with
  | nil => exact .ret (by simp)
  | cons node nodes ih =>
    refine .call ?_
    rintro b s' ⟨results, rfl, answered⟩
    obtain ⟨now, mc, handled, rfl⟩ := Servers.answers_master answered
    cases handled
    rw [s.setMaster_self]
    simpa using ih (indices ++
      (s.masters node.address).locateIndicesForSearch query.root query.getNamesOfRangeQueries)

/-! ## The plan -/

/-- The text of the address of the index server of a partition. -/
abbrev serverText (part : Str) : Str := addressText (c.indexServerMap.getByPath part)

theorem genSearchPlan_ends :
    Ends Succeeds (fun r s' => s' = s ∧
      ((∃ exit, r = .error exit ∧
          ∃ part ∈ partitions c query s, ¬ Named (c.indexServerMap.getByPath part)) ∨
        ((∀ part ∈ partitions c query s, ∃ node, (c.indexServerMap.getByPath part).2 = some node) ∧
          r = .ok (.OK, groupSet (serverText c) (partitions c query s)))))
      (c.genSearchPlan query) s := by
  refine .bind ((locateOn_ends query s [] _).imp ?_)
  rintro r s' ⟨rfl, rfl⟩
  simp only [Then, List.nil_append, Status.ok_OK, Bool.not_true, Bool.false_eq_true, if_false]
  rcases foldlM_addressText "index_server_map_.get(hash, &node).ok()"
    (fun indexPath => c.indexServerMap.getByPath (indexPath ++ "/0".toList))
    (fun plan addr indexPath => put plan addr (indexPath ++ "/0".toList))
    (located c query s') ∅ with
    ⟨exit, thrown, indexPath, inside, unnamed⟩ | ⟨homes, done⟩
  · have first : (located c query s').foldlM c.planPartition ∅ = .throw exit := thrown
    rw [located] at first
    rw [first]
    exact .throw ⟨rfl, .inl ⟨exit, rfl, _, List.mem_map_of_mem inside, unnamed⟩⟩
  · have first : (located c query s').foldlM c.planPartition ∅ = .ret _ := done
    rw [located] at first
    rw [first]
    refine .ret ⟨rfl, .inr ⟨fun part hp => ?_, ?_⟩⟩
    · obtain ⟨indexPath, inside, rfl⟩ := List.mem_map.mp hp
      exact homes indexPath inside
    · rw [groupSet, partitions, List.foldl_map]
      rfl

/-! ## The index servers -/

/-- The name of the index that a partition belongs to. -/
def nameOf (part : Str) : Str := FsPath.filename (FsPath.parentPath part)

/-- The range that a partition is searched for. -/
def rangeFor (part : Str) : RangeQuery :=
  let range := (query.rangeQuery (nameOf part)).getD ⟨[], false, [], false⟩
  { indexPath := part
    name := nameOf part
    upper := range.upper
    upperOpen := !range.upperClosed
    lower := range.lower
    lowerOpen := !range.lowerClosed }

omit [PathHash] [ConsistentHashMap] [ThriftSerialize FileMetadata]
  [ThriftSerialize IndexNamespaceNode] in
theorem subQuery_eq {part : Str} (h : nameOf part ∈ query.rangeQueryMap) :
    subQuery query part = .ret (rangeFor query part) := by
  obtain ⟨range, found⟩ := (mem_iff_exists _ _).mp h
  have found' : query.rangeQuery (FsPath.filename (FsPath.parentPath part)) = some range := found
  simp [subQuery, rangeFor, nameOf, found']

/-- What a partition adds to the answer, in a state of the servers. -/
def answerOf (part : Str) : List ObjectId :=
  match (c.indexServerMap.getByPath part).2 with
  | some node => (s.indexServers node.address).answer 0 (rangeFor query part)
  | none => []

/-- The client reaches the server of a partition, which has it and can apply its log. -/
def Searched (part : Str) : Prop :=
  Named (c.indexServerMap.getByPath part) ∧
    ∃ node w, (c.indexServerMap.getByPath part).2 = some node ∧
      (s.indexServers node.address).rangeIndexMap[part]? = some w ∧ (w.merge 0).1.ok = true

theorem searchOn_ends {parts : List Str}
    (homes : ∀ part ∈ parts, ∃ node, (c.indexServerMap.getByPath part).2 = some node)
    (ranged : ∀ part ∈ parts, nameOf part ∈ query.rangeQueryMap)
    (objects : List ObjectId) (entries : List (Str × ExtTreeSet Str))
    (planned : ∀ e ∈ entries, (∃ part, part ∈ e.2) ∧
      ∀ part ∈ e.2, part ∈ parts ∧ serverText c part = e.1)
    (distinct : (entries.flatMap (·.2.toList)).Nodup) (t : Servers K)
    (masters : t.masters = s.masters)
    (same : ∀ a, ∀ part ∈ entries.flatMap (·.2.toList),
      (t.indexServers a).rangeIndexMap[part]? = (s.indexServers a).rangeIndexMap[part]?) :
    Ends Succeeds (fun r t' => t'.masters = s.masters ∧
      ((∃ exit, r = .error exit ∧ ∃ part ∈ parts, ¬ Named (c.indexServerMap.getByPath part)) ∨
        (r = .ok (.OK, objects ++
            (entries.flatMap (·.2.toList)).flatMap (answerOf c query s)) ∧
          ∀ part ∈ entries.flatMap (·.2.toList), Searched c s part)))
      (searchOn query objects entries) t := by
  induction entries generalizing objects t with
  | nil => exact .ret ⟨masters, .inr ⟨by simp, by simp⟩⟩
  | cons e entries ih =>
    obtain ⟨addr, set⟩ := e
    obtain ⟨⟨part, inside⟩, mine⟩ := planned _ List.mem_cons_self
    obtain ⟨node, home⟩ := homes part (mine part inside).1
    rcases read_addressText home (mine part inside).2 with ⟨unnamed, exit, thrown⟩ | ⟨-, read⟩
    · rw [searchOn, thrown]
      exact .throw ⟨masters, .inl ⟨exit, rfl, part, (mine part inside).1, unnamed⟩⟩
    -- All partitions of the entry are on this server.
    have server (part' : Str) (h' : part' ∈ set) :
        ∃ node', (c.indexServerMap.getByPath part').2 = some node' ∧
          node'.address = node.address ∧ Named (c.indexServerMap.getByPath part') := by
      obtain ⟨node', home'⟩ := homes part' (mine part' h').1
      exact ⟨node', home', address_of_read home' (mine part' h').2 read⟩
    have queries : set.toList.mapM (subQuery query) = .ret (set.toList.map (rangeFor query)) :=
      mapM_ret fun part' h' => subQuery_eq query (ranged part' (mine part' (by simpa using h')).1)
    rw [searchOn, read, bind_eq, ret_bind, queries, bind_eq, ret_bind, bind_eq, perform_bind]
    refine .call ?_
    rintro b t' ⟨tmp, rfl, answered⟩
    obtain ⟨id, im, handled, rfl⟩ := Servers.answers_index answered
    obtain ⟨status, ok, all⟩ := IndexServer.search_answered handled
    rw [List.flatMap_cons] at distinct same
    obtain ⟨first, rest, apart⟩ := List.nodup_append'.mp distinct
    have paths : (set.toList.map (rangeFor query)).map (·.indexPath) = set.toList := by
      simp [rangeFor, Function.comp_def]
    obtain ⟨found, searched, others⟩ := IndexManager.searchAll_ok (paths.symm ▸ first) all ok
    have mine' (part' : Str) (h' : part' ∈ set.toList) :
        (t.indexServers node.address).answer 0 (rangeFor query part') =
          answerOf c query s part' := by
      obtain ⟨node', home', addr', -⟩ := server part' (by simpa using h')
      have here := same node.address part' (List.mem_append_left _ h')
      simp only [answerOf, home', addr', IndexManager.answer, rangeFor, here]
    have tmp_eq : tmp = set.toList.flatMap (answerOf c query s) := by
      rw [found, List.nil_append, List.flatMap_map]
      exact List.flatMap_congr mine'
    have left (a : NodeAddress) (part' : Str) (h' : part' ∈ entries.flatMap (·.2.toList)) :
        ((t.setIndexServer node.address im).indexServers a).rangeIndexMap[part']? =
          (s.indexServers a).rangeIndexMap[part']? := by
      rw [← same a part' (List.mem_append_right _ h')]
      by_cases there : a = node.address
      · subst there
        simp only [Servers.setIndexServer_indexServers, Function.update_self]
        refine others part' ?_
        rw [paths]
        exact fun h => apart h h'
      · simp [there]
    refine (ih (objects ++ tmp) (fun e he => planned e (List.mem_cons_of_mem _ he)) rest
      (t.setIndexServer node.address im) masters left).imp ?_
    rintro r t' ⟨masters', bad | ⟨rfl, all⟩⟩
    · exact ⟨masters', .inl bad⟩
    · refine ⟨masters', .inr ⟨?_, fun part' h' => ?_⟩⟩
      · rw [List.flatMap_cons, List.flatMap_append, tmp_eq, List.append_assoc]
      · rw [List.flatMap_cons, List.mem_append] at h'
        rcases h' with h' | h'
        · obtain ⟨node', home', addr', named⟩ := server part' (by simpa using h')
          obtain ⟨w, there, merged⟩ := searched (rangeFor query part') (List.mem_map_of_mem h')
          refine ⟨named, node', w, home', ?_, merged⟩
          rw [addr', ← same node.address part' (List.mem_append_left _ h')]
          exact there
        · exact all part' h'

/-! ## The paths -/

/-- The text of the address of the master that is asked for an object id. -/
abbrev masterText (o : ObjectId) : Str := addressText (c.masterMap.get o)

/-- The path that the client gets for an object id. -/
def pathOf (o : ObjectId) : Str :=
  match (c.masterMap.get o).2 with
  | some node => ((s.masters node.address).namespace.idToPathMap[o]?).getD []
  | none => []

theorem findFilesOn_ends {objects : List ObjectId}
    (homes : ∀ o ∈ objects, ∃ node, (c.masterMap.get o).2 = some node) (paths : List Str)
    (entries : List (Str × List ObjectId))
    (planned : ∀ e ∈ entries, e.2 ≠ [] ∧ ∀ o ∈ e.2, o ∈ objects ∧ masterText c o = e.1)
    (t : Servers K) (masters : t.masters = s.masters) :
    Ends Succeeds (fun r _ =>
      (∃ exit, r = .error exit ∧ ∃ o ∈ objects, ¬ Named (c.masterMap.get o)) ∨
        r = .ok (.OK, paths ++ (entries.flatMap (·.2)).map (pathOf c s)))
      (findFilesOn paths entries) t := by
  induction entries generalizing paths with
  | nil => exact .ret (.inr (by simp))
  | cons e entries ih =>
    obtain ⟨addr, ids⟩ := e
    obtain ⟨some, mine⟩ := planned _ List.mem_cons_self
    obtain ⟨o, inside⟩ := List.exists_mem_of_ne_nil _ some
    obtain ⟨node, home⟩ := homes o (mine o inside).1
    rcases read_addressText home (mine o inside).2 with ⟨unnamed, exit, thrown⟩ | ⟨-, read⟩
    · rw [findFilesOn, thrown]
      exact .throw (.inl ⟨exit, rfl, o, (mine o inside).1, unnamed⟩)
    have found : (s.masters node.address).namespace.findFiles ids = ids.map (pathOf c s) := by
      refine List.map_congr_left fun o' ho' => ?_
      obtain ⟨node', home'⟩ := homes o' (mine o' ho').1
      simp only [pathOf, home', (address_of_read home' (mine o' ho').2 read).1]
    rw [findFilesOn, read, bind_eq, ret_bind, bind_eq, perform_bind]
    refine .call ?_
    rintro b t' ⟨tmp, rfl, answered⟩
    obtain ⟨now, mc, handled, rfl⟩ := Servers.answers_master answered
    cases handled
    rw [t.setMaster_self, masters, found]
    refine (ih (paths ++ ids.map (pathOf c s)) fun e he =>
      planned e (List.mem_cons_of_mem _ he)).imp ?_
    rintro r t' (bad | rfl)
    · exact .inl bad
    · exact .inr (by simp)

theorem getFilePathsFromObjects_ends (objects : List ObjectId) (t : Servers K)
    (masters : t.masters = s.masters) :
    Ends Succeeds (fun r _ =>
      (∃ exit, r = .error exit ∧ ∃ o ∈ objects, ¬ Named (c.masterMap.get o)) ∨
        ∃ results, r = .ok (.OK, results) ∧ results.Perm (objects.map (pathOf c s)))
      (c.getFilePathsFromObjects objects) t := by
  unfold getFilePathsFromObjects
  rcases foldlM_addressText "master_map_.get(obj, &node).ok()" c.masterMap.get push objects ∅ with
    ⟨exit, thrown, unnamed⟩ | ⟨homes, done⟩
  · rw [thrown]
    exact .throw (.inl ⟨exit, rfl, unnamed⟩)
  · rw [done, bind_eq, ret_bind]
    have groups : objects.foldl (fun plan o => push plan (masterText c o) o) ∅ =
        group (masterText c) objects := rfl
    rw [groups]
    refine (findFilesOn_ends c s homes [] _ (fun e he => ?_) t masters).imp ?_
    · have found := ExtTreeMap.mem_toList_iff_getElem?_eq_some.mp he
      obtain ⟨o, inside, same⟩ := (mem_group _ _ _).mp ((mem_iff_exists _ _).mpr ⟨_, found⟩)
      rw [group_eq_some found]
      refine ⟨List.ne_nil_of_mem (List.mem_filter.mpr ⟨inside, by simpa using same⟩),
        fun o' ho' => ?_⟩
      simpa using ho'
    · rintro r t' (bad | rfl)
      · exact .inl bad
      · refine .inr ⟨_, rfl, ?_⟩
        rw [List.nil_append]
        exact (flatMap_group_perm _ _).map _

/-! ## The whole search -/

/-- The outcome of a search. `members` are the partitions in the order they are searched. -/
def Outcome (r : Except Exit (Status × List Str)) : Prop :=
  (∃ part ∈ partitions c query s, ¬ Named (c.indexServerMap.getByPath part)) ∧
      (∃ exit, r = .error exit) ∨
    ∃ members : List Str, members.Nodup ∧ (∀ part, part ∈ members ↔ part ∈ partitions c query s) ∧
      (∀ part ∈ members, Searched c s part) ∧
      ((∃ exit, r = .error exit) ∧
          (∃ o ∈ members.flatMap (answerOf c query s), ¬ Named (c.masterMap.get o)) ∨
        ∃ results, r = .ok (.OK, results) ∧
          results.Perm ((members.flatMap (answerOf c query s)).map (pathOf c s)))

theorem search_ends (ranged : ∀ part ∈ partitions c query s, nameOf part ∈ query.rangeQueryMap) :
    Ends Succeeds (fun r _ => Outcome c query s r) (c.search query) s := by
  refine .bind ((genSearchPlan_ends c query s).imp ?_)
  rintro r s' ⟨rfl, ⟨exit, rfl, unnamed⟩ | ⟨homes, rfl⟩⟩
  · exact .inl ⟨unnamed, exit, rfl⟩
  simp only [Then, Status.ok_OK, Bool.not_true, Bool.false_eq_true, if_false]
  have planned : ∀ e ∈ (groupSet (serverText c) (partitions c query s')).toList,
      (∃ part, part ∈ e.2) ∧
        ∀ part ∈ e.2, part ∈ partitions c query s' ∧ serverText c part = e.1 := by
    intro e he
    have found := ExtTreeMap.mem_toList_iff_getElem?_eq_some.mp he
    refine ⟨?_, fun part hp => (mem_groupSet found part).mp hp⟩
    obtain ⟨part, inside, same⟩ := exists_of_mem_groupSet ((mem_iff_exists _ _).mpr ⟨_, found⟩)
    exact ⟨part, (mem_groupSet found part).mpr ⟨inside, same⟩⟩
  refine .bind ((searchOn_ends c query s' homes ranged [] _ planned (nodup_flatMap_groupSet _ _) s'
    rfl fun _ _ _ => rfl).imp ?_)
  rintro r t ⟨masters, ⟨exit, rfl, unnamed⟩ | ⟨rfl, searched⟩⟩
  · exact .inl ⟨unnamed, exit, rfl⟩
  simp only [Then, List.nil_append, Status.ok_OK, Bool.not_true, Bool.false_eq_true, if_false]
  refine .bind ((getFilePathsFromObjects_ends c s' _ t masters).imp ?_)
  rintro r t' (⟨exit, rfl, unnamed⟩ | ⟨results, rfl, perm⟩)
  · exact .inr ⟨_, nodup_flatMap_groupSet _ _, mem_flatMap_groupSet _ _, searched,
      .inl ⟨⟨exit, rfl⟩, unnamed⟩⟩
  · simp only [Then, Status.ok_OK, Bool.not_true, Bool.false_eq_true, if_false]
    exact .ret (.inr ⟨_, nodup_flatMap_groupSet _ _, mem_flatMap_groupSet _ _, searched,
      .inr ⟨results, rfl, perm⟩⟩)

end Vsfs.Client

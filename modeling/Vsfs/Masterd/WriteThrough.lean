import Vsfs.Lib.Transition
import Vsfs.Masterd.IndexNamespace
import Vsfs.Rpc.BinaryProtocol

/-!
# The namespace of indices as a write-through cache

Every operation of `IndexNamespace` changes the nodes in memory and then writes to the
store; when the write is refused it takes its own change back. A node that was made for a
refused name stays, without names, and no lookup can tell it from a node that is not there.

## Main results

* `namespace_is_write_through` : after any operations, whatever becomes of their writes,
  memory and store have the same names for every key, and an instance that is loaded from
  the store answers every lookup as the old one does.
-/

namespace Vsfs.Masterd.IndexNamespace

open Std FiniteMap

/-! ## What lookups depend on -/

/-- The names that memory has for a key. -/
def namesAt (ns : IndexNamespace) (key : Str) : ExtTreeSet Str :=
  ((ns.nodes[key]?).map (·.names)).getD ∅

/-- The names of a node that has some. -/
def someNames (node : IndexNamespaceNode) : Option (ExtTreeSet Str) :=
  if node.names = ∅ then none else some node.names

/-- The keys that have names, with their names. -/
def named (ns : IndexNamespace) : ExtTreeMap Str (ExtTreeSet Str) :=
  ns.nodes.filterMap (fun _ node => someNames node)

theorem named_congr {a b : IndexNamespace} (same : ∀ key, a.namesAt key = b.namesAt key) :
    a.named = b.named := by
  have value (ns : IndexNamespace) (key : Str) : ns.named[key]? =
      if ns.namesAt key = ∅ then none else some (ns.namesAt key) := by
    rw [named, ExtTreeMap.getElem?_filterMap', namesAt]
    cases ns.nodes[key]? <;> simp [someNames]
  refine ExtTreeMap.ext_getElem? fun key => ?_
  rw [value a, value b, same]

theorem toList_named (ns : IndexNamespace) : ns.named.toList =
    ns.nodes.toList.filterMap (fun n => (someNames n.2).map (fun names => (n.1, names))) := by
  rw [named, ExtTreeMap.toList_filterMap]

theorem collect_eq (ns : IndexNamespace) (root name : Str) : ns.collect root name =
    (ns.named.toList.filter (fun n => root.isPrefixOf n.1 && n.2.contains name)).map (·.1) := by
  rw [collect, subtree_eq_filter, toList_named, List.filter_filter]
  induction ns.nodes.toList with
  | nil => rfl
  | cons n l ih =>
    by_cases empty : n.2.names = ∅
    · have none : someNames n.2 = none := if_pos empty
      simpa [none, empty] using ih
    · have some : someNames n.2 = some n.2.names := if_neg empty
      rw [List.filterMap_cons, some, Option.map_some, List.filter_cons, List.filter_cons,
        Bool.and_comm]
      split
      · simp [ih]
      · exact ih

theorem getIndices_recursive_eq [FsPath] (ns : IndexNamespace) (root : Str) :
    ns.getIndices root true =
      (ns.named.toList.filter (fun n => root.isPrefixOf n.1)).flatMap
        (fun n => n.2.toList.map (PathUtil.indexPath n.1)) := by
  rw [getIndices, if_pos rfl, subtree_eq_filter, toList_named]
  induction ns.nodes.toList with
  | nil => rfl
  | cons n l ih =>
    by_cases empty : n.2.names = ∅
    · have none : someNames n.2 = none := if_pos empty
      rw [List.filterMap_cons, none, Option.map_none, ← ih, List.filter_cons]
      split
      · simp [empty]
      · rfl
    · have some : someNames n.2 = some n.2.names := if_neg empty
      rw [List.filterMap_cons, some, Option.map_some, List.filter_cons, List.filter_cons]
      split
      · simp [ih]
      · exact ih

theorem getIndexNames_eq (ns : IndexNamespace) (path : Str) :
    ns.getIndexNames path = (ns.namesAt path).toList := by
  rw [getIndexNames, namesAt]
  cases ns.nodes[path]? <;> simp

theorem lists_eq (ns : IndexNamespace) (key name : Str) :
    ns.lists key name = (ns.namesAt key).contains name := by
  rw [lists, namesAt]
  cases ns.nodes[key]? <;> simp

theorem findFrom_congr {a b : IndexNamespace} (same : ∀ key, a.namesAt key = b.namesAt key)
    (name path : Str) : a.findFrom name path = b.findFrom name path := by
  have lists (key : Str) : a.lists key name = b.lists key name := by rw [lists_eq, lists_eq, same]
  induction path using findFrom.induct a name with
  | case1 path found => rw [findFrom_eq, findFrom_eq, if_pos found, if_pos (lists path ▸ found)]
  | case2 path missing last =>
    rw [findFrom_eq, findFrom_eq, if_neg missing, if_neg (lists path ▸ missing), last]
  | case3 path missing last =>
    rw [findFrom_eq, findFrom_eq, if_neg missing, if_neg (lists path ▸ missing), last]
  | case4 path missing c rest last ih =>
    rw [findFrom_eq, findFrom_eq, if_neg missing, if_neg (lists path ▸ missing), last]
    exact ih

/-- Both instances answer every lookup alike. -/
structure AnswersAlike [FsPath] (a b : IndexNamespace) : Prop where
  «have» : ∀ path name, a.have path name = b.have path name
  find : ∀ fileName name, a.find fileName name = b.find fileName name
  collect : ∀ root name, a.collect root name = b.collect root name
  getIndices : ∀ root recursive, a.getIndices root recursive = b.getIndices root recursive
  getIndexNames : ∀ path, a.getIndexNames path = b.getIndexNames path

theorem answersAlike_of_names [FsPath] {a b : IndexNamespace}
    (same : ∀ key, a.namesAt key = b.namesAt key) : AnswersAlike a b where
  «have» path name := by simp only [IndexNamespace.have, lists_eq, same]
  find fileName name := by simp only [IndexNamespace.find, findFrom_congr same, lists_eq, same]
  collect root name := by rw [collect_eq, collect_eq, named_congr same]
  getIndices root recursive := by
    cases recursive with
    | true => rw [getIndices_recursive_eq, getIndices_recursive_eq, named_congr same]
    | false => simp only [IndexNamespace.getIndices, getIndexNames_eq, same, Bool.false_eq_true,
        if_false]
  getIndexNames path := by rw [getIndexNames_eq, getIndexNames_eq, same]

/-! ## Memory and store -/

section Store

variable [Thrift IndexNamespaceNode]

/-- The names that the record of a key decodes to. -/
def storedNames (store : LevelDBStore) (key : Str) : ExtTreeSet Str :=
  ((store[key]?.bind (Thrift.deserialize (α := IndexNamespaceNode))).map (·.names)).getD ∅

/-- Every record can be read. -/
abbrev Readable (store : LevelDBStore) : Prop :=
  store.Readable (Thrift.deserialize (α := IndexNamespaceNode))

/-- Memory and store have the same names for every key. -/
structure Coherent (ns : IndexNamespace) : Prop where
  readable : Readable ns.store
  names : ∀ key, ns.namesAt key = storedNames ns.store key

/-- A put of what memory has for a key, or a refused put for a key whose names stay. -/
theorem Coherent.put [LawfulThrift IndexNamespaceNode] {ns : IndexNamespace} (h : Coherent ns)
    {key : Str} (io : Status) {old : IndexNamespaceNode} (new : IndexNamespaceNode)
    (before : ns.namesAt key = old.names) :
    Coherent ⟨ns.nodes.insert key (if io.ok then new else old),
      (ns.store.put io key (ThriftSerialize.serialize new)).2⟩ := by
  cases ok : io.ok with
  | false =>
    refine ⟨by simpa [LevelDBStore.put, ok] using h.readable, fun k => ?_⟩
    simp only [LevelDBStore.put, ok, Bool.false_eq_true, if_false]
    rw [← h.names k]
    by_cases same : key = k
    · subst same
      simp [namesAt, ← before]
    · simp [namesAt, same]
  | true =>
    simp only [LevelDBStore.put, ok, if_true]
    refine ⟨fun k value found => ?_, fun k => ?_⟩
    · rw [getElem?_insert] at found
      split at found
      · cases found
        exact ⟨new, LawfulThrift.deserialize_serialize new⟩
      · exact h.readable k value found
    · by_cases same : key = k
      · subst same
        simp [namesAt, storedNames]
      · have others := h.names k
        simpa [namesAt, storedNames, same] using others

theorem Coherent.erase {ns : IndexNamespace} (h : Coherent ns) (key : Str) (io : Status) :
    Coherent ⟨if io.ok then ns.nodes.erase key else ns.nodes, (ns.store.remove io key).2⟩ := by
  cases ok : io.ok with
  | false => simpa [LevelDBStore.remove, ok] using h
  | true =>
    simp only [LevelDBStore.remove, ok, if_true]
    refine ⟨fun k value found => ?_, fun k => ?_⟩
    · rw [getElem?_erase] at found
      split at found
      · cases found
      · exact h.readable k value found
    · by_cases same : key = k
      · subst same
        simp [namesAt, storedNames]
      · have others := h.names k
        simpa [namesAt, storedNames, same] using others

/-! ## Operations -/

/-- An operation, with how its write to the store ends. -/
inductive Request where
  | insert (io : Status) (path name : Str)
  | remove (io : Status) (path name : Str)
  | removePath (io : Status) (path : Str)

def Request.path : Request → Str
  | .insert _ path _ => path
  | .remove _ path _ => path
  | .removePath _ path => path

def step (ns : IndexNamespace) : Request → Cpp IndexNamespace
  | .insert io path name => do return (← ns.insert io path name).2
  | .remove io path name => do return (← ns.remove io path name).2
  | .removePath io path => do return (← ns.removePath io path).2

omit [Thrift IndexNamespaceNode] in
theorem cleanupPath_ok {path : Str} (h : path ≠ []) : ∃ key, cleanupPath path = .ok key := by
  cases path with
  | nil => exact (h rfl).elim
  | cons c rest => exact ⟨_, rfl⟩

variable [LawfulThrift IndexNamespaceNode] {ns : IndexNamespace} {p : Str}

theorem Coherent.insert (h : Coherent ns) (hp : p ≠ []) (io : Status) (name : Str) :
    ∃ status ns', ns.insert io p name = .ok (status, ns') ∧ Coherent ns' := by
  obtain ⟨key, clean⟩ := cleanupPath_ok hp
  simp only [IndexNamespace.insert, clean, bind, Except.bind, pure, Except.pure]
  by_cases old : name ∈ ((ns.nodes[key]?).getD ⟨key, ∅⟩).names
  · rw [if_pos old]
    exact ⟨_, ns, rfl, h⟩
  · rw [if_neg old]
    refine ⟨_, _, rfl, h.put io _ ?_⟩
    cases found : ns.nodes[key]? <;> simp [namesAt, found]

theorem Coherent.remove (h : Coherent ns) (hp : p ≠ []) (io : Status) (name : Str) :
    ∃ status ns', ns.remove io p name = .ok (status, ns') ∧ Coherent ns' := by
  obtain ⟨key, clean⟩ := cleanupPath_ok hp
  simp only [IndexNamespace.remove, clean, bind, Except.bind, pure, Except.pure]
  cases found : ns.nodes[key]? with
  | none => exact ⟨_, ns, rfl, h⟩
  | some node =>
    by_cases old : name ∈ node.names
    · simp only [old, not_true, if_false]
      exact ⟨_, _, rfl, h.put io _ (by simp [namesAt, found])⟩
    · simp only [old, not_false_iff, if_true]
      exact ⟨_, ns, rfl, h⟩

omit [LawfulThrift IndexNamespaceNode] in
theorem Coherent.removePath (h : Coherent ns) (hp : p ≠ []) (io : Status) :
    ∃ status ns', ns.removePath io p = .ok (status, ns') ∧ Coherent ns' := by
  obtain ⟨key, clean⟩ := cleanupPath_ok hp
  simp only [IndexNamespace.removePath, clean, bind, Except.bind, pure, Except.pure]
  by_cases old : key ∈ ns.nodes
  · simp only [old, not_true, if_false]
    exact ⟨_, _, rfl, h.erase key io⟩
  · simp only [old, not_false_iff, if_true]
    exact ⟨_, ns, rfl, h⟩

theorem Coherent.step (h : Coherent ns) {r : Request} (hp : r.path ≠ []) :
    ∃ ns', ns.step r = .ok ns' ∧ Coherent ns' := by
  cases r with
  | insert io p name =>
    obtain ⟨status, ns', out, next⟩ := h.insert (p := p) hp io name
    exact ⟨ns', by simp [IndexNamespace.step, out, bind, Except.bind, pure, Except.pure], next⟩
  | remove io p name =>
    obtain ⟨status, ns', out, next⟩ := h.remove (p := p) hp io name
    exact ⟨ns', by simp [IndexNamespace.step, out, bind, Except.bind, pure, Except.pure], next⟩
  | removePath io p =>
    obtain ⟨status, ns', out, next⟩ := h.removePath (p := p) hp io
    exact ⟨ns', by simp [IndexNamespace.step, out, bind, Except.bind, pure, Except.pure], next⟩

/-! ## Loading -/

omit [LawfulThrift IndexNamespaceNode]

/-- A new instance has the names of the store. -/
theorem init_spec {store : LevelDBStore} (readable : Readable store) :
    ∃ ns, init .OK store = (.OK, ns) ∧ ns.store = store ∧ Coherent ns := by
  have adds (nodes : ExtTreeMap Str IndexNamespaceNode) (key : Str) (node : IndexNamespaceNode)
      (k : Str) (absent : nodes[key]? = none) :
      (nodes.insertIfNew key node)[k]? = if key = k then some (id node) else nodes[k]? := by
    rw [getElem?_insertIfNew]
    by_cases same : key = k
    · subst same
      simp only [absent, and_self, if_true, id]
    · simp only [same, false_and, if_false]
  obtain ⟨ok, all⟩ := LevelDBStore.readAll_records
    ⟨-1, "Failed to deserialize namespace node."⟩ adds readable
  refine ⟨⟨(load store.records).2, store⟩, ?_, rfl, readable, fun key => ?_⟩
  · simp only [init, load, Status.ok_OK, Bool.not_true, Bool.false_eq_true, if_false, ok]
  · rw [namesAt, load, all key, Option.map_id, storedNames]
    rfl

theorem coherent_of_init {io : Status} {store : LevelDBStore} {ns : IndexNamespace}
    (start : init io store = (.OK, ns)) : Coherent ns := by
  unfold init at start
  split at start
  · rename_i bad
    cases start
    cases bad
  · have readable : Readable store := fun key value found =>
      LevelDBStore.readable_of_readAll (by decide) (congrArg Prod.fst start) (key, value)
        (LevelDBStore.mem_records.mpr found)
    obtain ⟨ns', loaded, -, coherent⟩ := init_spec readable
    have same : ns' = ns := by
      simp only [init, Status.ok_OK, Bool.not_true, Bool.false_eq_true, if_false] at loaded
      exact congrArg Prod.snd (loaded.symm.trans start)
    exact same ▸ coherent

/-! ## Runs -/

/-- A namespace that was loaded from a store stays coherent through all operations on paths
that are not empty, and an instance loaded from its store answers as it does. -/
theorem namespace_is_write_through [FsPath] [LawfulThrift IndexNamespaceNode] (io : Status)
    (store : LevelDBStore) (ns₀ : IndexNamespace) (start : init io store = (.OK, ns₀))
    (requests : List Request) (paths : ∀ r ∈ requests, r.path ≠ []) :
    ∃ ns, Transition.run step ns₀ requests = .ok ns ∧
      (∀ key, ns.namesAt key = storedNames ns.store key) ∧
      ∃ ns', init .OK ns.store = (.OK, ns') ∧ AnswersAlike ns' ns := by
  have keeps (done : List Request) (ns : IndexNamespace) (r : Request) (rest : List Request)
      (total : done ++ r :: rest = requests) (h : Coherent ns) (_ : True) :
      ∃ ns', ns.step r = .ok ns' ∧ Coherent ns' :=
    h.step (paths r (total ▸ by simp))
  obtain ⟨ns, ran, coherent⟩ := Transition.run_invariant keeps (List.nil_append requests)
    (coherent_of_init start) (Transition.meets_true _ _ _)
  obtain ⟨ns', loaded, same, coherent'⟩ := init_spec coherent.readable
  refine ⟨ns, ran, coherent.names, ns', loaded, answersAlike_of_names fun key => ?_⟩
  rw [coherent'.names, coherent.names, same]

end Store

section Example

attribute [local instance] BinaryProtocol.indexNamespaceNodeThrift Posix.fsPath

/-- A refused insert, whose node stays, and a removal that is refused once. -/
def refusedWrites : List Request :=
  [.insert ⟨-1, "Mock failure"⟩ "/foo".toList "bar".toList, .insert .OK "/foo/".toList "red".toList,
    .insert ⟨-1, "Mock failure"⟩ "/foo0".toList "bar".toList,
    .remove ⟨-1, "Mock failure"⟩ "/foo".toList "red".toList, .removePath .OK "/foo0".toList]

theorem refusedWrites_write_through : ∃ ns, Transition.run step {} refusedWrites = .ok ns ∧
    (∀ key, ns.namesAt key = storedNames ns.store key) ∧
    ∃ ns', init .OK ns.store = (.OK, ns') ∧ AnswersAlike ns' ns :=
  namespace_is_write_through .OK ∅ {} rfl refusedWrites (by decide)

end Example

end Vsfs.Masterd.IndexNamespace

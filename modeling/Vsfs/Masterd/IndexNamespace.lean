import Vsfs.Common.LevelDBStore
import Vsfs.Common.Path
import Vsfs.Lib.Scan

/-!
# The namespace of indices

`IndexNamespace` of `vsfs/masterd`: which named indices exist on which directories, as a
cache in front of a key value store. Every operation that writes to the store takes the
status of that write.
-/

namespace Vsfs.Masterd

open Std

structure IndexNamespaceNode where
  path : Str
  names : ExtTreeSet Str

structure IndexNamespace where
  nodes : ExtTreeMap Str IndexNamespaceNode := ∅
  store : LevelDBStore := ∅

namespace IndexNamespace

/-- The path without the slashes at its end, except for a first character. The loop starts
at the last character, which an empty path does not have. -/
def cleanupPath (path : Str) : Cpp Str :=
  match path with
  | [] => .error (.undefined "path[pos] of an empty path")
  | c :: rest => .ok (c :: (rest.reverse.dropWhile (· = '/')).reverse)

/-- The name is registered on the path. -/
def Registered (ns : IndexNamespace) (path name : Str) : Prop :=
  ∃ key node, cleanupPath path = .ok key ∧ ns.nodes[key]? = some node ∧ name ∈ node.names

section Updates

variable [ThriftSerialize IndexNamespaceNode]

def insert (ns : IndexNamespace) (io : Status) (path name : Str) :
    Cpp (Status × IndexNamespace) := do
  let key ← cleanupPath path
  let node := (ns.nodes[key]?).getD ⟨key, ∅⟩
  if name ∈ node.names then
    return (⟨-EEXIST, "The named index have existed."⟩, ns)
  let inserted : IndexNamespaceNode := ⟨node.path, node.names.insert name⟩
  let (status, store) := ns.store.put io key (ThriftSerialize.serialize inserted)
  -- A node made for the name stays when the store refuses it.
  let kept : IndexNamespaceNode := if status.ok then inserted else node
  return (status, ⟨ns.nodes.insert key kept, store⟩)

def remove (ns : IndexNamespace) (io : Status) (path name : Str) :
    Cpp (Status × IndexNamespace) := do
  let key ← cleanupPath path
  match ns.nodes[key]? with
  | none => return (⟨-ENOENT, "The index does not exist."⟩, ns)
  | some node =>
    if name ∉ node.names then
      return (⟨-ENOENT, "The index does not exist."⟩, ns)
    let erased : IndexNamespaceNode := ⟨node.path, node.names.erase name⟩
    let (status, store) := ns.store.put io key (ThriftSerialize.serialize erased)
    return (status, ⟨ns.nodes.insert key (if status.ok then erased else node), store⟩)

/-- `remove(path)`. -/
def removePath (ns : IndexNamespace) (io : Status) (path : Str) :
    Cpp (Status × IndexNamespace) := do
  let key ← cleanupPath path
  if key ∉ ns.nodes then
    return (⟨-ENOENT, "The directory is not existed."⟩, ns)
  let (status, store) := ns.store.remove io key
  return (status, ⟨if status.ok then ns.nodes.erase key else ns.nodes, store⟩)

end Updates

section Init

variable [Thrift IndexNamespaceNode]

/-- The loop of `init` over the records of the store. -/
def load (records : List (Str × Str)) : Status × ExtTreeMap Str IndexNamespaceNode :=
  LevelDBStore.readAll Thrift.deserialize ⟨-1, "Failed to deserialize namespace node."⟩
    ExtTreeMap.insertIfNew ∅ records

/-- `init` of a new instance; `io` tells how the opening of the store ends. -/
def init (io : Status) (store : LevelDBStore) : Status × IndexNamespace :=
  if !io.ok then (io, { store })
  else
    let (status, nodes) := load store.records
    (status, ⟨nodes, store⟩)

end Init

/-! ## Lookups -/

/-- There is a node for the key, and it has the name. -/
def lists (ns : IndexNamespace) (key name : Str) : Bool :=
  match ns.nodes[key]? with
  | none => false
  | some node => node.names.contains name

def «have» (ns : IndexNamespace) (path name : Str) : Cpp Bool := do
  let key ← cleanupPath path
  return ns.lists key name

/-- The text before the last slash. -/
def beforeLastSlash (path : Str) : Option Str :=
  match path.reverse.dropWhile (fun c => decide (c ≠ '/')) with
  | [] => none
  | _ :: rest => some rest.reverse

theorem length_beforeLastSlash {path rest : Str} (h : beforeLastSlash path = some rest) :
    rest.length < path.length := by
  unfold beforeLastSlash at h
  split at h
  · cases h
  · rename_i c tail cut
    cases h
    have shorter :=
      (List.dropWhile_sublist (fun c => decide (c ≠ '/')) (l := path.reverse)).length_le
    rw [cut, List.length_cons, List.length_reverse] at shorter
    rw [List.length_reverse]
    omega

/-- The loop of `find`: the path, then what is before its last slash, and so on. -/
def findFrom (ns : IndexNamespace) (name partialPath : Str) : Option Str :=
  if ns.lists partialPath name then some partialPath
  else
    match _h : beforeLastSlash partialPath with
    | none => none
    | some [] => none
    | some (c :: rest) => ns.findFrom name (c :: rest)
termination_by partialPath.length
decreasing_by exact length_beforeLastSlash ‹_›

theorem findFrom_eq (ns : IndexNamespace) (name path : Str) : ns.findFrom name path =
    if ns.lists path name then some path
    else
      match beforeLastSlash path with
      | none => none
      | some [] => none
      | some (c :: rest) => ns.findFrom name (c :: rest) := by
  rw [findFrom]
  split
  · rfl
  · split <;> rename_i last <;> rw [last]

def find (ns : IndexNamespace) (fileName name : Str) : Status × Option Str :=
  match ns.findFrom name fileName with
  | some indexPath => (.OK, some indexPath)
  | none =>
    if ns.lists ['/'] name then (.OK, some ['/'])
    else (⟨-ENOENT, "The index does not exist."⟩, none)

/-- The nodes from `root` on, as long as their path begins with `root`. -/
def subtree (ns : IndexNamespace) (root : Str) : List (Str × IndexNamespaceNode) :=
  (ns.nodes.toList.dropWhile (fun n => compare n.1 root = .lt)).takeWhile
    (fun n => root.isPrefixOf n.1)

def collect (ns : IndexNamespace) (root name : Str) : List Str :=
  ((ns.subtree root).filter (fun n => n.2.names.contains name)).map (·.1)

def getIndexNames (ns : IndexNamespace) (path : Str) : List Str :=
  match ns.nodes[path]? with
  | none => []
  | some node => node.names.toList

def getIndices [FsPath] (ns : IndexNamespace) (root : Str) (recursive : Bool) : List Str :=
  if recursive then
    (ns.subtree root).flatMap (fun n => n.2.names.toList.map (PathUtil.indexPath n.1))
  else (ns.getIndexNames root).map (PathUtil.indexPath root)

/-! ## Which nodes are collected -/

/-- In the order of the nodes, the strings that begin with `root` come one after the other
from `root` on. -/
theorem prefix_of_between {root a b : Str} (low : compare a root ≠ .lt) (high : compare a b = .lt)
    (h : root <+: b) : root <+: a := by
  induction root generalizing a b with
  | nil => exact List.nil_prefix
  | cons x root ih =>
    obtain ⟨rest, rfl⟩ := h
    cases a with
    | nil => exact absurd List.compare_nil_cons low
    | cons y a =>
      rw [List.compare_cons_cons, ne_eq, Ordering.then_eq_lt, not_or] at low
      rw [List.cons_append, List.compare_cons_cons, Ordering.then_eq_lt] at high
      obtain ⟨same, less⟩ := high.resolve_left low.1
      obtain ⟨rest', rfl⟩ := ih (fun h => low.2 ⟨same, h⟩) less ⟨rest, rfl⟩
      cases Std.compare_eq_iff_eq.mp same
      exact ⟨rest', rfl⟩

theorem compare_prefix {root a : Str} (h : root <+: a) : compare a root ≠ .lt := by
  obtain ⟨rest, rfl⟩ := h
  induction root with
  | nil => cases rest <;> simp
  | cons x root ih => simpa [Ordering.then_eq_lt] using ih

/-- The nodes whose path begins with `root`, as a string. -/
theorem subtree_eq_filter (ns : IndexNamespace) (root : Str) :
    ns.subtree root = ns.nodes.toList.filter (fun n => root.isPrefixOf n.1) := by
  have sorted : ns.nodes.toList.Pairwise (fun a b => compare a.1 b.1 = .lt) :=
    ExtTreeMap.ordered_keys_toList
  have scan := Scan.seek_run_eq_filter (fun n => decide (compare n.1 root = .lt))
    (fun n => root.isPrefixOf n.1) sorted (fun a b hab hb => ?_) (fun a b hab ha hb => ?_)
  · rw [subtree, scan]
    refine List.filter_congr fun n _ => ?_
    cases below : root.isPrefixOf n.1 with
    | false => simp
    | true => simpa using compare_prefix (List.isPrefixOf_iff_prefix.mp below)
  · simpa using TransCmp.lt_trans hab (by simpa using hb)
  · rw [List.isPrefixOf_iff_prefix] at hb ⊢
    exact prefix_of_between (by simpa using ha) hab hb

/-- The paths that begin with `root`, as strings, and have the name. -/
theorem mem_collect {ns : IndexNamespace} {root name path : Str} :
    path ∈ ns.collect root name ↔
      ∃ node, ns.nodes[path]? = some node ∧ root <+: path ∧ name ∈ node.names := by
  simp only [collect, subtree_eq_filter, List.mem_map, List.mem_filter, Prod.exists,
    ExtTreeMap.mem_toList_iff_getElem?_eq_some, List.isPrefixOf_iff_prefix]
  constructor
  · rintro ⟨_, node, ⟨⟨found, below⟩, listed⟩, rfl⟩
    exact ⟨node, found, below, by simpa using listed⟩
  · rintro ⟨node, found, below, listed⟩
    exact ⟨path, node, ⟨⟨found, below⟩, by simpa using listed⟩, rfl⟩

end IndexNamespace

end Vsfs.Masterd

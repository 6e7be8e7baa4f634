import Vsfs.Client.VsfsRpcClient
import Vsfs.Common.ComplexQuery
import Vsfs.Common.LexicalCast
import Vsfs.Lib.Grouping

/-!
# Searching

`VSFSRpcClient::search` asks every master for the indices of the names in a query, then
every index server for the object ids that its partitions have in range, and the masters
again for the paths of these object ids. In between, servers are known by the text of their
address.
-/

namespace Vsfs.Client

open Std Program Masterd Indexd Index Grouping

/-! ## Addresses as texts -/

def addressToString (addr : NodeAddress) : Str :=
  addr.host ++ ':' :: (toString addr.port.toInt).toList

def stringToAddress (addrStr : Str) : ClientM NodeAddress :=
  match addrStr.splitOn ':' with
  | [host, port] =>
    match stoi port with
    | .ok value => .ret ⟨host, BitVec.ofInt 32 value⟩
    | .error what => .throw (.stdException what)
  | _ => .throw (.crash (.check "2u == fields.size()"))

theorem colon_not_mem_toString (i : Int) : ':' ∉ (toString i).toList := by
  have digits : ':' ∉ i.natAbs.repr.toList := fun h => by
    simpa using isDigit_of_mem_repr h
  rw [toList_toString]
  split
  · simpa using digits
  · exact digits

theorem stoi_port (port : BitVec 32) : stoi (toString port.toInt).toList = .ok port.toInt := by
  have low := port.le_toInt
  have high := port.toInt_lt
  exact stoi_toString (by omega) (by omega)

/-- An address whose host has no colon survives. -/
theorem stringToAddress_addressToString {addr : NodeAddress} (h : ':' ∉ addr.host) :
    stringToAddress (addressToString addr) = .ret addr := by
  have fields : (addressToString addr).splitOn ':' =
      [addr.host, (toString addr.port.toInt).toList] := by
    rw [addressToString, List.splitOn_append_cons_self_of_not_mem h,
      List.splitOn_eq_singleton (colon_not_mem_toString _)]
  simp only [stringToAddress, fields, stoi_port, BitVec.ofInt_toInt]

/-- With a colon in the host, the text has too many fields. -/
theorem stringToAddress_of_colon {addr : NodeAddress} (h : ':' ∈ addr.host) :
    stringToAddress (addressToString addr) = .throw (.crash (.check "2u == fields.size()")) := by
  obtain ⟨before, after, host⟩ := List.append_of_mem h
  unfold stringToAddress
  split
  · rename_i fields
    have length := congrArg List.length fields
    have some (s : Str) : 0 < (s.splitOn ':').length :=
      List.length_pos_iff.mpr (List.splitOn_ne_nil _ _)
    have := some before
    have := some after
    have := some (toString addr.port.toInt).toList
    rw [addressToString, host, List.splitOn_append_cons_self, List.splitOn_append_cons_self,
      List.length_append, List.length_append] at length
    simp only [List.length_cons, List.length_nil] at length
    omega
  · rfl

namespace VSFSRpcClient

variable [FsPath] [PathHash] [ConsistentHashMap]

/-! ## The plan -/

/-- The loop of `locate_index_for_search` over the masters; `indices` are those found so
far. An exception with the code zero is passed over. -/
def locateOn (query : ComplexQuery) (indices : List Str) :
    List NodeInfo → ClientM (Status × List Str)
  | [] => .ret (.OK, indices)
  | node :: rest => do
    match ← Prog.perform (.master node.address
        (.locateIndicesForSearch query.root query.getNamesOfRangeQueries)) with
    | .ok results => locateOn query (indices ++ results) rest
    | .error e =>
      if !e.status.ok then return (e.status, indices)
      locateOn query indices rest

/-- A master that has several places on the ring is asked several times. -/
def locateIndexForSearch (c : VSFSRpcClient) (query : ComplexQuery) : ClientM (Status × List Str) :=
  locateOn query [] (c.masterMap.ring.toList.map (·.2))

/-- The partitions to search on each server, by the text of its address. -/
abbrev SearchPlanMap := ExtTreeMap Str (ExtTreeSet Str)

/-- One turn of the loop of `gen_search_plan` over the indices. -/
def planPartition (c : VSFSRpcClient) (plan : SearchPlanMap) (indexPath : Str) :
    ClientM SearchPlanMap := do
  let partitionPath := indexPath ++ "/0".toList
  let node ← checkGet "index_server_map_.get(hash, &node).ok()"
    (c.indexServerMap.get (PathHash.pathToHash partitionPath))
  let addr := addressToString node.address
  return put plan addr partitionPath

def genSearchPlan (c : VSFSRpcClient) (query : ComplexQuery) :
    ClientM (Status × SearchPlanMap) := do
  let (status, indices) ← c.locateIndexForSearch query
  if !status.ok then return (status, ∅)
  let plan ← indices.foldlM c.planPartition ∅
  return (.OK, plan)

/-! ## Object ids to paths -/

/-- The loop of `get_file_paths_from_objects` over the masters of the object ids. -/
def findFilesOn (paths : List Str) : List (Str × List ObjectId) → ClientM (Status × List Str)
  | [] => .ret (.OK, paths)
  | (addr, objects) :: rest => do
    let address ← stringToAddress addr
    match ← Prog.perform (.master address (.findFiles objects)) with
    | .ok tmp => findFilesOn (paths ++ tmp) rest
    | .error e => return (e.status, paths)

/-- The master of an object id is looked up by the id itself. -/
def getFilePathsFromObjects (c : VSFSRpcClient) (objects : List ObjectId) :
    ClientM (Status × List Str) := do
  let plan ← objects.foldlM (fun plan obj => do
    let node ← checkGet "master_map_.get(obj, &node).ok()" (c.masterMap.get obj)
    return push plan (addressToString node.address) obj) ∅
  findFilesOn [] plan.toList

/-! ## The search -/

/-- The range of a partition, by the name of the directory it is in. There is none for a
name that the query does not have, and the source follows a null pointer. -/
def subQuery (query : ComplexQuery) (part : Str) : ClientM RangeQuery :=
  let indexName := FsPath.filename (FsPath.parentPath part)
  match query.rangeQuery indexName with
  | none => .throw (.crash (.undefined "range of a name that is not in the query"))
  | some range => .ret
      { indexPath := part
        name := indexName
        upper := range.upper
        upperOpen := !range.upperClosed
        lower := range.lower
        lowerOpen := !range.lowerClosed }

/-- The loop of `search` over the index servers; an exception ends it. -/
def searchOn (query : ComplexQuery) (objects : List ObjectId) :
    List (Str × ExtTreeSet Str) → ClientM (Status × List ObjectId)
  | [] => .ret (.OK, objects)
  | (addr, partitions) :: rest => do
    let address ← stringToAddress addr
    let rangeQueries ← partitions.toList.mapM (subQuery query)
    match ← Prog.perform (.index address (.search { root := query.root, rangeQueries })) with
    | .ok tmp => searchOn query (objects ++ tmp) rest
    | .error e => return (e.status, objects)

/-- The status and what is appended to `*results`. -/
def search (c : VSFSRpcClient) (query : ComplexQuery) : ClientM (Status × List Str) := do
  let (status, plan) ← c.genSearchPlan query
  if !status.ok then return (status, [])
  let (status, objects) ← searchOn query [] plan.toList
  if !status.ok then return (status, [])
  let (status, results) ← c.getFilePathsFromObjects objects
  if !status.ok then return (status, results)
  return (.OK, results)

end VSFSRpcClient

end Vsfs.Client

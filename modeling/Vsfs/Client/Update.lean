import Vsfs.Client.Search

/-!
# Updating indices

`VSFSRpcClient::update` cuts the requests of a call into tasks and hands these to a pool of
threads. A task looks for the index of every request, from the directory of the file
upwards, and for the object ids of the files, and then sends one update to every index
server that has something to do. Servers are known by the text of their address again.
-/

namespace Vsfs.Client

open Std Program Masterd Indexd Index Grouping

/-- The operations of a request; every code that is not listed in the source is `unknown`. -/
inductive IndexUpdateRequest.Op where
  | unknown
  | insert
  | update
  | remove
  deriving DecidableEq, Repr, Inhabited

structure IndexUpdateRequest where
  op : IndexUpdateRequest.Op
  filePath : Str
  indexName : Str
  key : Str
  deriving DecidableEq, Repr, Inhabited

def IndexUpdateRequest.Op.code : IndexUpdateRequest.Op → UpdateOpCode
  | .insert => .insert
  | .update => .update
  | .remove => .remove
  | .unknown => .unknown

/-! ## Tasks -/

/-- `FLAGS_vsfs_client_batch_size`. -/
def kBatchSize : Nat := 2048

/-- One turn of the loop of `update`: the tasks in the pool and the task to be filled, which
goes to the pool once it has more than `batchSize` requests. -/
def addRequest {α : Type} (batchSize : Nat) : List (List α) × List α → α → List (List α) × List α
  | (tasks, last), request =>
    let last := last ++ [request]
    if batchSize < last.length then (tasks ++ [last], []) else (tasks, last)

/-- The tasks of a call. The last one goes to the pool in any case. -/
def tasksOf {α : Type} (batchSize : Nat) (requests : List α) : List (List α) :=
  let (tasks, last) := requests.foldl (addRequest batchSize) ([], [])
  tasks ++ [last]

/-- Nothing is lost or moved. -/
theorem flatten_tasksOf {α : Type} (batchSize : Nat) (requests : List α) :
    (tasksOf batchSize requests).flatten = requests := by
  have all (cut : List (List α) × List α) :
      ((requests.foldl (addRequest batchSize) cut).1 ++
        [(requests.foldl (addRequest batchSize) cut).2]).flatten =
      (cut.1 ++ [cut.2]).flatten ++ requests := by
    induction requests generalizing cut with
    | nil => simp
    | cons r requests ih =>
      rw [List.foldl_cons, ih]
      unfold addRequest
      dsimp only
      split <;> simp
  simpa [tasksOf] using all ([], [])

/-- The first task of a call that is long enough. -/
theorem tasksOf_append {α : Type} {batchSize : Nat} {first : List α}
    (full : first.length = batchSize + 1) (rest : List α) :
    tasksOf batchSize (first ++ rest) = first :: tasksOf batchSize rest := by
  have fill (part : List α) (short : part.length < batchSize + 1) :
      part.foldl (addRequest batchSize) ([], []) = (([], part) : List (List α) × List α) := by
    induction part using List.reverseRecOn with
    | nil => rfl
    | append_singleton part a ih =>
      rw [List.length_append, List.length_singleton] at short
      rw [List.foldl_append, ih (by omega), List.foldl_cons, List.foldl_nil]
      simp only [addRequest, List.length_append, List.length_singleton]
      rw [if_neg (by omega)]
  have later (tasks : List (List α)) (cut : List (List α) × List α) :
      rest.foldl (addRequest batchSize) (tasks ++ cut.1, cut.2) =
        (tasks ++ (rest.foldl (addRequest batchSize) cut).1,
          (rest.foldl (addRequest batchSize) cut).2) := by
    induction rest generalizing cut with
    | nil => rfl
    | cons r rest ih =>
      have one : addRequest batchSize (tasks ++ cut.1, cut.2) r =
          (tasks ++ (addRequest batchSize cut r).1, (addRequest batchSize cut r).2) := by
        simp only [addRequest]
        split <;> simp
      rw [List.foldl_cons, one, ih, List.foldl_cons]
  obtain ⟨part, a, rfl⟩ : ∃ part a, first = part ++ [a] := by
    refine ⟨first.dropLast, first.getLast (List.ne_nil_of_length_pos (by omega)), ?_⟩
    exact (List.dropLast_append_getLast _).symm
  have filled : (part ++ [a]).foldl (addRequest batchSize) ([], []) = ([part ++ [a]], []) := by
    rw [List.length_append, List.length_singleton] at full
    rw [List.foldl_append, fill part (by omega), List.foldl_cons, List.foldl_nil]
    simp only [addRequest, List.length_append, List.length_singleton, List.nil_append]
    rw [if_pos (by omega)]
  have rest' := later [part ++ [a]] ([], [])
  simp only [List.append_nil] at rest'
  rw [tasksOf, List.foldl_append, filled, rest']
  rfl

namespace VSFSRpcClient

variable [FsPath] [PathHash] [ConsistentHashMap]

/-! ## Object ids of files -/

/-- The loop of `find_objects` over the masters of the paths. The cells of `objects` are
those of a vector whose storage is reserved only. -/
def findObjectsOn (paths : List Str) (objects : List ObjectId) :
    List (Str × List Nat) → ClientM (Status × List ObjectId)
  | [] => .ret (.OK, objects)
  | (addr, positions) :: rest => do
    let tmpFiles := positions.map fun pos => paths.getD pos []
    let address ← stringToAddress addr
    match ← Prog.perform (.master address (.findObjects tmpFiles)) with
    | .error e => return (e.status, objects)
    | .ok tmpObjs =>
      if tmpObjs.length ≠ tmpFiles.length then
        .throw (.crash (.check "tmp_objs.size() == tmp_files.size()"))
      else
        let objects :=
          (positions.zip tmpObjs).foldl (fun objs (pos, obj) => objs.set pos obj) objects
        findObjectsOn paths objects rest

def findObjects (c : VSFSRpcClient) (paths : List Str) : ClientM (Status × List ObjectId) := do
  let reordered ← paths.zipIdx.foldlM (fun reordered (path, i) => do
    let node ← checkGet "master_map_.get(paths[i], &node).ok()" (c.masterMap.getByPath path)
    return push reordered (addressToString node.address) i) ∅
  findObjectsOn paths (List.replicate paths.length 0) reordered.toList

end VSFSRpcClient

/-! ## One task -/

namespace IndexUpdateTask

variable [FsPath] [PathHash] [ConsistentHashMap]

/-- The index of every name that is used in a directory. -/
abbrev ParentPathToIndexPathMap := ExtTreeMap Str (ExtTreeMap Str Str)

/-- The positions of the requests for every partition of every server. -/
abbrev ServerToRequestMap := ExtTreeMap Str (ExtTreeMap Str (List Nat))

/-- One turn of the loop from a directory upwards. -/
def findIndexTurn (c : VSFSRpcClient) (indexName tmpParent : Str) :
    ClientM (Str ⊕ Status × Option Str) := do
  let indexPath := PathUtil.indexPath tmpParent indexName
  let (status, stbuf) ← c.getattrStat indexPath
  if stbuf.any fun stbuf => S_ISDIR stbuf.mode then return .inr (.OK, some indexPath)
  if !status.ok ∧ status.error ≠ -ENOENT then return .inr (status, none)
  if tmpParent = ['/'] then return .inr (⟨-1, "Failed to find valid index."⟩, none)
  return .inl (FsPath.parentPath tmpParent)

/-- The status, and the path of the index that is found. The parent of a relative path gets
shorter until it is empty, and from there the loop does not end unless a call fails. -/
def findIndex (c : VSFSRpcClient) (indexName parent : Str) : ClientM (Status × Option Str) :=
  .loop (findIndexTurn c indexName) parent

/-- The loop over the directories and the names used in them. -/
def findIndices (c : VSFSRpcClient) (indexMap : ParentPathToIndexPathMap) :
    List (Str × Str) → ClientM (Status × ParentPathToIndexPathMap)
  | [] => .ret (.OK, indexMap)
  | (parent, indexName) :: rest => do
    match ← findIndex c indexName parent with
    | (status, none) => return (status, indexMap)
    | (_, some indexPath) =>
      let names := (indexMap[parent]?.getD ∅).insert indexName indexPath
      findIndices c (indexMap.insert parent names) rest

def getParentPathToIndexPathMap (c : VSFSRpcClient) (requests : List IndexUpdateRequest) :
    ClientM (Status × ParentPathToIndexPathMap) :=
  let names := requests.foldl (fun names request =>
    put names (FsPath.parentPath request.filePath) request.indexName)
    (∅ : ExtTreeMap Str (ExtTreeSet Str))
  findIndices c ∅ (names.toList.flatMap fun (parent, names) => names.toList.map (parent, ·))

/-- `index_map.at(parent).at(index_name)`. -/
def indexOf (indexMap : ParentPathToIndexPathMap) (request : IndexUpdateRequest) : ClientM Str :=
  match (indexMap[FsPath.parentPath request.filePath]?).bind (·[request.indexName]?) with
  | none => .throw (.stdException "map::at")
  | some indexPath => .ret indexPath

def reorderRequestsToIndexServers (c : VSFSRpcClient) (indexMap : ParentPathToIndexPathMap)
    (requests : List IndexUpdateRequest) : ClientM ServerToRequestMap :=
  requests.zipIdx.foldlM (fun requestMap (request, pos) => do
    let indexPath ← indexOf indexMap request
    let partitionPath := indexPath ++ "/0".toList
    let node ← checkGet "parent_->index_server_map_.get(hash, &node).ok()"
      (c.indexServerMap.get (PathHash.pathToHash partitionPath))
    return pushAt requestMap (addressToString node.address) partitionPath pos) ∅

/-- The record of a request. -/
def toRecord (request : IndexUpdateRequest) (object : ObjectId) : RecordUpdateOp where
  op := request.op.code
  key := request.key
  value := (toString object.toInt).toList

/-- The records for one partition. The name of the list is not set. -/
def recordList (requests : List IndexUpdateRequest) (objectIds : List ObjectId) :
    Str × List Nat → RecordUpdateList
  | (partitionPath, positions) =>
    { rootPath := partitionPath
      name := []
      recordUpdates := positions.filterMap fun pos =>
        (requests[pos]?).map fun request => toRecord request (objectIds.getD pos 0) }

/-- The loop of `run` over the index servers; an exception ends it. -/
def updateOn (requests : List IndexUpdateRequest) (objectIds : List ObjectId) :
    List (Str × ExtTreeMap Str (List Nat)) → ClientM Status
  | [] => .ret .OK
  | (addr, partitions) :: rest => do
    let updates := partitions.toList.map (recordList requests objectIds)
    let address ← stringToAddress addr
    match ← Prog.perform (.index address (.update { updates })) with
    | .error e => return e.status
    | .ok _ => updateOn requests objectIds rest

def run (c : VSFSRpcClient) (requests : List IndexUpdateRequest) : ClientM Status := do
  let (status, indexMap) ← getParentPathToIndexPathMap c requests
  if !status.ok then return status
  let requestMap ← reorderRequestsToIndexServers c indexMap requests
  let (status, objectIds) ← c.findObjects (requests.map (·.filePath))
  if !status.ok then return status
  updateOn requests objectIds requestMap.toList

end IndexUpdateTask

end Vsfs.Client

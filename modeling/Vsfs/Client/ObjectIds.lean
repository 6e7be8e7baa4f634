import Vsfs.Client.Placement

/-!
# The vector of object ids

`find_objects` reserves storage in a vector and then writes to the cells by index, without making
the vector any longer. The model of the vector has its size beside the cells of its storage, and
keeps the indices at or beyond the size that were used.

## Main results

- `gathered_iff`: the object ids of some paths are only gathered as they should when there are no
  paths.
- `findObjectsVector_resized`, `updateVector_requestMapOf`: in a vector of the right size they are,
  and a task stays inside.
-/

namespace Vsfs.Client

open Std Program Prog Masterd Indexd Index FiniteMap Grouping VSFSRpcClient IndexUpdateTask

/-- A `vector<ObjectId>`: its size, its storage, and the accesses outside of its size. -/
structure ObjectVector where
  size : Nat := 0
  cells : List ObjectId := []
  outside : List Nat := []

namespace ObjectVector

/-- `reserve(n)` gives the vector more storage and leaves its size alone. -/
def reserve (v : ObjectVector) (n : Nat) : ObjectVector :=
  { v with cells := v.cells ++ List.replicate (n - v.cells.length) 0 }

/-- Any use of `v[i]`. -/
def access (v : ObjectVector) (i : Nat) : ObjectVector :=
  if i < v.size then v else { v with outside := v.outside ++ [i] }

/-- `v[i] = obj` -/
def write (v : ObjectVector) (i : Nat) (obj : ObjectId) : ObjectVector :=
  { v.access i with cells := v.cells.set i obj }

@[simp] theorem reserve_size (v : ObjectVector) (n : Nat) : (v.reserve n).size = v.size := rfl

@[simp] theorem reserve_outside (v : ObjectVector) (n : Nat) :
    (v.reserve n).outside = v.outside := rfl

@[simp] theorem access_size (v : ObjectVector) (i : Nat) : (v.access i).size = v.size := by
  unfold access
  split <;> rfl

@[simp] theorem access_cells (v : ObjectVector) (i : Nat) : (v.access i).cells = v.cells := by
  unfold access
  split <;> rfl

@[simp] theorem write_size (v : ObjectVector) (i : Nat) (obj : ObjectId) :
    (v.write i obj).size = v.size := v.access_size i

@[simp] theorem write_cells (v : ObjectVector) (i : Nat) (obj : ObjectId) :
    (v.write i obj).cells = v.cells.set i obj := rfl

theorem foldl_access {positions : List Nat} {v : ObjectVector}
    (inside : ∀ pos ∈ positions, pos < v.size) : positions.foldl access v = v := by
  induction positions with
  | nil => rfl
  | cons pos positions ih =>
    have here : v.access pos = v := if_pos (inside pos (by simp))
    rw [List.foldl_cons, here]
    exact ih fun p hp => inside p (by simp [hp])

theorem write_outside {v : ObjectVector} {i : Nat} (inside : i < v.size) (obj : ObjectId) :
    (v.write i obj).outside = v.outside := by
  rw [write, access, if_pos inside]

theorem foldl_access_cells (positions : List Nat) (v : ObjectVector) :
    (positions.foldl access v).cells = v.cells := by
  induction positions generalizing v with
  | nil => rfl
  | cons pos positions ih => rw [List.foldl_cons, ih, access_cells]

/-- Writing to many cells. -/
theorem foldl_write (f : Nat → ObjectId) (positions : List Nat) (v : ObjectVector) :
    (positions.foldl (fun v pos => v.write pos (f pos)) v).size = v.size ∧
      (positions.foldl (fun v pos => v.write pos (f pos)) v).cells =
        positions.foldl (fun cells pos => cells.set pos (f pos)) v.cells ∧
      ((∀ pos ∈ positions, pos < v.size) →
        (positions.foldl (fun v pos => v.write pos (f pos)) v).outside = v.outside) := by
  induction positions generalizing v with
  | nil => exact ⟨rfl, rfl, fun _ => rfl⟩
  | cons pos positions ih =>
    obtain ⟨size, cells, outside⟩ := ih (v.write pos (f pos))
    simp only [List.foldl_cons, size, cells, write_size, write_cells, true_and]
    intro inside
    rw [outside fun p hp => by simpa using inside p (by simp [hp]),
      write_outside (inside pos (by simp))]

end ObjectVector

section ObjectIds

variable {K : Type} [LinearOrder K] [FsPath] [PathHash] [ConsistentHashMap]

/-! ## Reading and writing -/

/-- `find_objects` on a vector. -/
def findObjectsVector (c : VSFSRpcClient) (paths : List Str) (objects : ObjectVector) :
    ClientM (Status × ObjectVector) := do
  let reordered ← paths.zipIdx.foldlM (fun reordered (path, i) => do
    let node ← checkGet "master_map_.get(paths[i], &node).ok()" (c.masterMap.getByPath path)
    return push reordered (addressToString node.address) i) ∅
  findObjectsWith ObjectVector.write paths (objects.reserve paths.length) reordered.toList

/-- The loop of `run` over the index servers, with the reads of `object_ids`. -/
def updateVector (requests : List IndexUpdateRequest) (objectIds : ObjectVector) :
    List (Str × ExtTreeMap Str (List Nat)) → ClientM (Status × ObjectVector)
  | [] => .ret (.OK, objectIds)
  | (addr, partitions) :: rest => do
    let updates := partitions.toList.map (recordList requests objectIds.cells)
    let objectIds := (partitions.toList.flatMap (·.2)).foldl ObjectVector.access objectIds
    let address ← stringToAddress addr
    match ← Prog.perform (.index address (.update { updates })) with
    | .error e => return (e.status, objectIds)
    | .ok _ => updateVector requests objectIds rest

/-- `run`, with the vector it has in the end. -/
def runVector (c : VSFSRpcClient) (requests : List IndexUpdateRequest) :
    ClientM (Status × ObjectVector) := do
  let (status, indexMap) ← getParentPathToIndexPathMap c requests
  if !status.ok then return (status, {})
  let requestMap ← reorderRequestsToIndexServers c indexMap requests
  let (status, objectIds) ← findObjectsVector c (requests.map (·.filePath)) {}
  if !status.ok then return (status, objectIds)
  updateVector requests objectIds requestMap.toList

variable {c : VSFSRpcClient} {s : Servers K}

omit [FsPath] in
/-- What ends up in the storage of an empty vector is what `findObjects` has. -/
theorem findObjects_eq (paths : List Str) : c.findObjects paths =
    (findObjectsVector c paths {}).bind fun out => .ret (out.1, out.2.cells) := by
  unfold findObjects findObjectsVector
  rw [bind_eq, bind_eq, bind_assoc]
  congr 1
  funext reordered
  rw [findObjectsWith_map ObjectVector.cells ObjectVector.write_cells, findObjectsOn_eq]
  simp [ObjectVector.reserve]

omit [FsPath] [PathHash] [ConsistentHashMap] in
theorem updateOn_eq (requests : List IndexUpdateRequest) (objectIds : ObjectVector)
    (entries : List (Str × ExtTreeMap Str (List Nat))) :
    updateOn requests objectIds.cells entries =
      (updateVector requests objectIds entries).bind fun out => .ret out.1 := by
  induction entries generalizing objectIds with
  | nil => rfl
  | cons e entries ih =>
    obtain ⟨addr, partitions⟩ := e
    simp only [updateOn, updateVector, bind_eq, bind_assoc, perform_bind, call_bind]
    congr 1
    funext address
    congr 1
    funext b
    cases b with
    | error e => rfl
    | ok =>
      dsimp only
      rw [← ih, ObjectVector.foldl_access_cells]

theorem run_eq (requests : List IndexUpdateRequest) :
    run c requests = (runVector c requests).bind fun out => .ret out.1 := by
  unfold run runVector
  simp only [bind_eq, bind_assoc]
  congr 1
  funext found
  obtain ⟨status, indexMap⟩ := found
  dsimp only
  split
  · rfl
  · simp only [bind_assoc]
    congr 1
    funext requestMap
    rw [findObjects_eq, bind_assoc]
    congr 1
    funext objects
    obtain ⟨status, objectIds⟩ := objects
    simp only [ret_bind]
    split
    · rfl
    · exact updateOn_eq requests objectIds requestMap.toList

/-! ## What ends up in the vector -/

omit [FsPath] in
/-- When there is room in the storage, it ends up with the object ids of the paths at their
positions, whatever the size of the vector. -/
theorem findObjectsVector_plays {paths : List Str}
    (masters : ∀ path ∈ paths, Named (c.masterMap.getByPath path)) {objects : ObjectVector}
    (room : (objects.reserve paths.length).cells = List.replicate paths.length 0) :
    ∃ objects' : ObjectVector, objects'.size = objects.size ∧
      objects'.cells = paths.map (objectOf c s) ∧
      (objects.size = paths.length → objects'.outside = objects.outside) ∧
      Plays (Asks s) (Acts s) (findObjectsVector c paths objects) [] (.ok (.OK, objects')) := by
  obtain ⟨size, cells, outside⟩ := ObjectVector.foldl_write
    (fun pos => objectOf c s (paths.getD pos []))
    ((pathPositions c paths).toList.flatMap (·.2)) (objects.reserve paths.length)
  refine ⟨_, size, ?_, ?_, ?_⟩
  · rw [cells, room, foldl_set_pathPositions (fun pos => objectOf c s (paths.getD pos [])),
      map_getD_range]
  · intro resized
    refine outside fun pos hp => ?_
    simpa [resized] using (pathPositions_perm paths).mem_iff.mp hp
  · have plays := findObjectsWith_plays (s := s) ObjectVector.write masters
      (objects.reserve paths.length) _ (pathPositions_planned (c := c) paths)
    unfold findObjectsVector
    rw [reorderPaths_eq fun path here => (masters path here).server]
    exact plays

omit [FsPath] [PathHash] [ConsistentHashMap] in
theorem updateVector_inside {T : Type} {exec : Exec Rpc RpcError T}
    {requests : List IndexUpdateRequest} {objectIds : ObjectVector}
    {entries : List (Str × ExtTreeMap Str (List Nat))}
    (inside : ∀ e ∈ entries, ∀ pos ∈ e.2.toList.flatMap (·.2), pos < objectIds.size) (t : T) :
    Always exec (fun r _ => ∀ status v, r = .ok (status, v) → v = objectIds)
      (updateVector requests objectIds entries) t := by
  induction entries generalizing t with
  | nil =>
    refine .ret ?_
    rintro status v ⟨⟩
    rfl
  | cons e entries ih =>
    obtain ⟨addr, partitions⟩ := e
    have same : (partitions.toList.flatMap (·.2)).foldl ObjectVector.access objectIds = objectIds :=
      ObjectVector.foldl_access (inside _ List.mem_cons_self)
    rw [updateVector, same]
    refine .bind fun r t' _ => ?_
    cases r with
    | error exit => rintro status v ⟨⟩
    | ok address =>
      refine .call fun b t'' _ => ?_
      cases b with
      | error e =>
        refine .ret ?_
        rintro status v ⟨⟩
        rfl
      | ok => exact ih (fun e he => inside e (List.mem_cons_of_mem _ he)) t''

omit [FsPath] in
/-- The reads of a task are at positions of its requests. -/
theorem updateVector_requestMapOf {T : Type} {exec : Exec Rpc RpcError T}
    (index : IndexUpdateRequest → Str) {requests : List IndexUpdateRequest}
    {objectIds : ObjectVector} (long : requests.length ≤ objectIds.size) (t : T) :
    Always exec (fun r _ => ∀ status v, r = .ok (status, v) → v = objectIds)
      (updateVector requests objectIds (requestMapOf c index requests).toList) t := by
  refine updateVector_inside (fun e he pos hp => ?_) t
  have all := flatMap_group₂_perm (fun pos => serverText c (partitionAt index requests pos))
    (partitionAt index requests) (List.range requests.length)
  have within := all.mem_iff.mp (List.mem_flatMap.mpr ⟨e, he, hp⟩)
  exact (List.mem_range.mp within).trans_le long

variable [KeyTypes K] [ThriftSerialize FileMetadata] [ThriftSerialize IndexNamespaceNode]

omit [ConsistentHashMap] in
theorem delivered_of_asks {β : Type} {rpc : Rpc β} {b : Except RpcError β}
    (asked : Asks s β rpc b) : Delivered β rpc s b s := by
  have fine : Beside s s := ⟨rfl, fun _ _ there => there⟩
  obtain ⟨answer, same, answers⟩ :=
    answers_of_reliable ((answered s).ask (0 : Double) fine asked)
  exact ⟨answer, answers, same⟩

/-- Had the vector been made as long as the list of paths, all would be well. -/
theorem findObjectsVector_resized {paths : List Str}
    (masters : ∀ path ∈ paths, Named (c.masterMap.getByPath path)) :
    Evals Delivered (findObjectsVector c paths ⟨paths.length, List.replicate paths.length 0, []⟩) s
      (.ok (.OK, ⟨paths.length, paths.map (objectOf c s), []⟩)) s := by
  have room : (ObjectVector.reserve ⟨paths.length, List.replicate paths.length 0, []⟩
      paths.length).cells = List.replicate paths.length 0 := by
    simp [ObjectVector.reserve]
  obtain ⟨⟨size, cells, outside⟩, sized, filled, inside, plays⟩ :=
    findObjectsVector_plays (s := s) masters room
  cases sized
  cases filled
  cases inside rfl
  exact plays.evals fun _ _ _ asked => delivered_of_asks asked

/-- The object ids of the paths are gathered: a vector that was empty has one for every path, in
order, and no task for these files uses an index outside of the vector. -/
structure Gathered (c : VSFSRpcClient) (s : Servers K) (paths : List Str) : Prop where
  ids : Ends Delivered (fun r _ => ∃ v : ObjectVector, r = .ok (.OK, v) ∧
      v.size = paths.length ∧ v.outside = [] ∧
      ∀ (i : Nat) (path : Str), paths[i]? = some path → v.cells[i]? = some (objectOf c s path))
    (findObjectsVector c paths {}) s
  within : ∀ requests : List IndexUpdateRequest, requests.map (·.filePath) = paths →
    Always Delivered (fun r _ => ∀ status v, r = .ok (status, v) → v.outside = [])
      (runVector c requests) s

theorem gathered_nil : Gathered c s [] where
  ids := by
    refine .ret ⟨{}, rfl, rfl, rfl, ?_⟩
    intro i path found
    cases found
  within requests none := by
    cases List.map_eq_nil_iff.mp none
    refine .bind fun r s' _ => ?_
    cases r with
    | error e =>
      rintro status v ⟨⟩
    | ok found =>
      obtain ⟨status, indexMap⟩ := found
      have last (status : Status) (t : Servers K) :
          Always Delivered (fun r _ => ∀ status v, r = .ok (status, v) → v.outside = [])
            (.ret (status, {}) : ClientM (Status × ObjectVector)) t := by
        refine .ret ?_
        rintro status v ⟨⟩
        rfl
      simp only [Leads]
      split
      · exact last status s'
      · exact last .OK s'

/-- The size of the vector stays zero. -/
theorem eq_nil_of_gathered {paths : List Str}
    (masters : ∀ path ∈ paths, Named (c.masterMap.getByPath path)) (h : Gathered c s paths) :
    paths = [] := by
  have room : (({} : ObjectVector).reserve paths.length).cells =
      List.replicate paths.length 0 := by
    simp [ObjectVector.reserve]
  obtain ⟨objects, size, -, -, plays⟩ := findObjectsVector_plays (s := s) masters room
  have run := plays.evals fun _ _ _ asked => delivered_of_asks asked
  obtain ⟨v, same, long, -⟩ := h.ids.sound run
  cases same
  exact List.length_eq_zero_iff.mp (long.symm.trans size)

theorem gathered_iff {paths : List Str}
    (masters : ∀ path ∈ paths, Named (c.masterMap.getByPath path)) :
    Gathered c s paths ↔ paths = [] := by
  constructor
  · exact eq_nil_of_gathered masters
  · rintro rfl
    exact gathered_nil

end ObjectIds

section Example

attribute [local instance] SortedRing.consistentHashMap Posix.fsPath Md5.pathHash
  BinaryProtocol.fileMetadataThrift BinaryProtocol.indexNamespaceNode uint64Keys

theorem named_oneServer (path : Str) : Named (oneServer.masterMap.getByPath path) :=
  ⟨_, congrArg Prod.snd (oneServer_master _), by decide⟩

/-- The object id of the root directory is written outside of the vector. -/
theorem not_gathered_root : ¬ Gathered oneServer rootOnly ["/".toList] := by
  intro gathered
  cases eq_nil_of_gathered (fun path _ => named_oneServer path) gathered

theorem gathered_none_not_root :
    Gathered oneServer rootOnly [] ∧ ¬ Gathered oneServer rootOnly ["/".toList] := by
  constructor
  · exact (gathered_iff (fun path _ => named_oneServer path)).mpr rfl
  · intro gathered
    cases (gathered_iff (fun path _ => named_oneServer path)).mp gathered

end Example

end Vsfs.Client

import Vsfs.Client.VsfsRpcClient

/-!
# The indices under a path

`get_index_infos` asks all masters for the indices of a path and then the index server of each
for its types.
-/

namespace Vsfs.Client

open Program Masterd Indexd

namespace VSFSRpcClient

variable [FsPath] [PathHash] [ConsistentHashMap]

/-- The loop over the masters; `indices` are those found so far. An exception with the code
zero is passed over. -/
def listIndicesOn (path : Str) (recursive : Bool) (indices : List Str) :
    List NodeInfo → ClientM (Status × List Str)
  | [] => .ret (.OK, indices)
  | node :: rest => do
    match ← Prog.perform (.master node.address (.locateIndices path recursive)) with
    | .ok tmp => listIndicesOn path recursive (indices ++ tmp) rest
    | .error e =>
      if !e.status.ok then return (e.status, indices)
      listIndicesOn path recursive indices rest

/-- The types of an index that the server does not send. -/
def noInfo : RpcIndexInfo := ⟨[], [], 0, 0, 0⟩

/-- The loop over the indices; `infos` are those of the indices passed so far. -/
def infosOf (c : VSFSRpcClient) (infos : List IndexInfo) :
    List Str → ClientM (Status × List IndexInfo)
  | [] => .ret (.OK, infos)
  | idxPath :: rest =>
    match PathUtil.splitIndexPath idxPath with
    | none => .ret (⟨-1, "Wrong index path format."⟩, infos)
    | some (root, name) => do
      let partitionPath := idxPath ++ "/0".toList
      let node ← checkGet "index_server_map_.get(partition_path, &node).ok()"
        (c.indexServerMap.getByPath partitionPath)
      match ← Prog.perform (.index node.address (.info 0 partitionPath)) with
      | .ok info => c.infosOf (infos ++ [⟨root, name, info.type, info.keyType⟩]) rest
      | .error e =>
        if !e.status.ok then return (e.status, infos)
        c.infosOf (infos ++ [⟨root, name, noInfo.type, noInfo.keyType⟩]) rest

def getIndexInfos (c : VSFSRpcClient) (path : Str) (recursive : Bool) :
    ClientM (Status × List IndexInfo) := do
  let (status, indices) ← listIndicesOn path recursive [] (c.masterMap.ring.toList.map (·.2))
  if !status.ok then return (status, [])
  c.infosOf [] indices

end VSFSRpcClient

end Vsfs.Client

import Vsfs.Common.Path

/-!
# Where the storage managers keep their files

`PosixStorageManager` keeps a file under its own path, `ObjectStorageManager` under its object
id, in one of the directories that `init` makes.
-/

namespace Vsfs

/-- The storage managers; the second one divides by the number of its directories. -/
inductive StorageManager where
  | posix (basePath : Str)
  | object (basePath : Str) (numSubdirs : BitVec 32) (nonzero : numSubdirs ≠ 0)

namespace StorageManager

variable [FsPath]

/-- The directory with the number `i`. -/
def subdir (basePath : Str) (i : Int) : Str := FsPath.join basePath (toString i).toList

/-- The number of the directory of an object: both are converted to `uint64_t`. -/
def subdirNum (numSubdirs : BitVec 32) (objId : ObjectId) : BitVec 64 :=
  objId % numSubdirs.signExtend 64

def translatePath : StorageManager → Str → ObjectId → Str
  | .posix basePath, path, _ => basePath ++ path
  | .object basePath numSubdirs _, _, objId =>
    FsPath.join (subdir basePath (subdirNum numSubdirs objId).toNat) (toString objId.toInt).toList

end StorageManager

end Vsfs

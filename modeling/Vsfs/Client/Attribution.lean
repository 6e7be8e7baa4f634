import Vsfs.Client.Addressing
import Vsfs.Common.IndexPath

/-!
# The directory an index is listed under

The masters list the paths of indices, and `get_index_infos` cuts each of them into a directory
and a name again. Below a directory `.vsfs` it cuts in front of the wrong component.

## Main results

* `splitsBack_iff` : an index path has the parts it was made of, here and in the listing,
  exactly when no component of its directory is `.vsfs`.
-/

namespace Vsfs.Client

open Std Program Prog Masterd Indexd VSFSRpcClient

section Listing

variable {K : Type} [LinearOrder K] [FsPath] [PathHash] [ConsistentHashMap]

/-- The directory and the name that an index is listed with. -/
def partsOf (info : IndexInfo) : Str × Str := (info.path, info.name)

omit [FsPath] in
/-- Every index in the listing has the parts that its path is cut into, whatever the servers
answer. -/
theorem infosOf_parts {S : Type} {exec : Exec Rpc RpcError S} {c : VSFSRpcClient}
    (indices : List Str) (infos : List IndexInfo) (s : S) :
    Always exec (fun r _ => ∀ status out, r = .ok (status, out) → status.ok = true →
      ∃ more, out = infos ++ more ∧
        more.map (some ∘ partsOf) = indices.map PathUtil.splitIndexPath)
      (c.infosOf infos indices) s := by
  induction indices generalizing infos s with
  | nil =>
    refine .ret fun status out same _ => ⟨[], ?_, rfl⟩
    cases same
    simp
  | cons idxPath indices ih =>
    cases cut : PathUtil.splitIndexPath idxPath with
    | none =>
      simp only [infosOf, cut]
      refine .ret fun status out same ok => ?_
      cases same
      cases ok
    | some parts =>
      obtain ⟨root, name⟩ := parts
      simp only [infosOf, cut]
      -- One more index is listed, and then the others.
      have later (type keyType : Int) (s : S) : Always exec
          (fun r _ => ∀ status out, r = .ok (status, out) → status.ok = true →
            ∃ more, out = infos ++ more ∧ more.map (some ∘ partsOf) =
              (idxPath :: indices).map PathUtil.splitIndexPath)
          (c.infosOf (infos ++ [⟨root, name, type, keyType⟩]) indices) s := by
        refine (ih _ s).imp fun r _ all status out same ok => ?_
        obtain ⟨more, rfl, parts⟩ := all status out same ok
        refine ⟨⟨root, name, type, keyType⟩ :: more, by simp, ?_⟩
        simp only [List.map_cons, parts, cut, Function.comp_apply, partsOf]
      cases home : (c.indexServerMap.getByPath (idxPath ++ "/0".toList)).2 with
      | none =>
        rw [checkGet_none home]
        exact .throw fun status out same => by cases same
      | some node =>
        rw [checkGet_some home]
        simp only [bind_eq, ret_bind, perform_bind]
        refine .call fun b s' _ => ?_
        cases b with
        | ok info => exact later _ _ s'
        | error e =>
          cases ok : e.status.ok with
          | false =>
            simp only [ok, Bool.not_false, if_true]
            refine .ret fun status out same done => ?_
            cases same
            rw [ok] at done
            cases done
          | true =>
            simp only [ok, Bool.not_true, Bool.false_eq_true, if_false]
            exact later _ _ s'

theorem getIndexInfos_parts (c : VSFSRpcClient) (s : Servers K) (path : Str) (recursive : Bool) :
    Always (Watched s) (fun r _ => ∀ status infos, r = .ok (status, infos) → status.ok = true →
      infos.map (some ∘ partsOf) = (listed c path recursive s).map PathUtil.splitIndexPath)
      (c.getIndexInfos path recursive) [] := by
  refine .bind ((listIndicesOn_always path recursive [] _ []).imp fun r sent ⟨_, all⟩ => ?_)
  cases r with
  | error exit => exact fun status infos same => by cases same
  | ok out =>
    obtain ⟨status, indices⟩ := out
    cases ok : status.ok with
    | false =>
      simp only [Leads, ok, Bool.not_false, if_true]
      refine .ret fun status' infos same done => ?_
      cases same
      rw [ok] at done
      cases done
    | true =>
      simp only [Leads, ok, Bool.not_true, Bool.false_eq_true, if_false]
      rw [all status indices rfl ok]
      refine (infosOf_parts _ [] sent).imp fun r _ done status infos same ok => ?_
      obtain ⟨more, rfl, parts⟩ := done status infos same ok
      simpa [listed] using parts

end Listing

section Parts

variable (K : Type) [LinearOrder K] [FsPath] [PathHash] [ConsistentHashMap]

/-- The path of an index on `root` is cut into the parts it was made of, no other index has it,
and wherever a master lists it, it is listed with these parts. -/
structure SplitsBack (root name : Str) : Prop where
  split : PathUtil.splitIndexPath (PathUtil.indexPath root name) = some (root, name)
  injective : ∀ root' name', Normal root' → Plain name' →
    PathUtil.indexPath root' name' = PathUtil.indexPath root name → root' = root ∧ name' = name
  listed : ∀ (c : VSFSRpcClient) (s : Servers K) (path : Str) (recursive : Bool),
    Always (Watched s) (fun r _ => ∀ status infos, r = .ok (status, infos) → status.ok = true →
      ∀ i : Nat, (listed c path recursive s)[i]? = some (PathUtil.indexPath root name) →
        (infos[i]?).map partsOf = some (root, name))
      (c.getIndexInfos path recursive) []

/-- The parts of an index path are found again exactly when no component of the directory is
`.vsfs`. -/
theorem splitsBack_iff [LawfulFsPath] {root name : Str} (hr : Normal root) (hn : Plain name) :
    SplitsBack K root name ↔ ".vsfs".toList ∉ root.splitOn '/' := by
  rw [← PathUtil.splitIndexPath_indexPath_iff hr hn]
  constructor
  · exact SplitsBack.split
  · intro split
    refine ⟨split, fun root' name' hr' hn' same => ?_, fun c s path recursive => ?_⟩
    · exact (PathUtil.indexPath_eq_iff hr' hn' hr hn).mp same
    · refine (getIndexInfos_parts c s path recursive).imp ?_
      intro r _ all status infos same ok i at_i
      have parts := congrArg (·[i]?) (all status infos same ok)
      simp only [List.getElem?_map, at_i, Option.map_some, split] at parts
      obtain ⟨info, here, is⟩ := Option.map_eq_some_iff.mp parts
      simpa [here] using is

end Parts

section Example

attribute [local instance] SortedRing.consistentHashMap Posix.fsPath Posix.lawful Md5.pathHash

theorem splitsBack_root : SplitsBack Int ['/'] "abc".toList :=
  (splitsBack_iff Int .root (by decide)).mpr (by decide)

/-- The index `n` on `/a/.vsfs/b` is taken for the index `b/.vsfs/n` on `/a`. -/
theorem not_splitsBack_below : ¬ SplitsBack Int "/a/.vsfs/b".toList "n".toList := by
  intro h
  have split := h.split
  revert split
  decide

end Example

end Vsfs.Client

import Vsfs.Masterd.Registration
import Vsfs.Masterd.Answers
import Vsfs.Masterd.Consistency

/-!
# Requests that add

The requests for new files, directories and indices only add to a master: every record stays
as it is, and so does the path of every object id as long as the ids do not run out.

## Main results

* `extends_of_handle` : one request that a master serves.
-/

namespace Vsfs.Masterd

open Std FiniteMap

/-- A request for something new. -/
def Request.Adds : Request → Prop
  | .create .. => True
  | .mkdir .. => True
  | .addSubfile .. => True
  | _ => False

namespace Namespace

/-! ## Namespaces -/

/-- All records are still there, and the object ids too while they do not run out. At most
`k` object ids are new. -/
structure Extends (k : Nat) (ns ns' : Namespace) : Prop where
  records : ∀ {p : Str} {m : FileMetadata}, ns.metadataMap[p]? = some m →
    ns'.metadataMap[p]? = some m
  counted : ∀ {start : ObjectId} {n : Nat}, Counted start n ns → ∃ n' ≤ n + k, Counted start n' ns'
  ids : ∀ {start : ObjectId} {n : Nat}, Counted start n ns → n + k ≤ 2 ^ 48 →
    ∀ {o : ObjectId} {p : Str}, ns.idToPathMap[o]? = some p → ns'.idToPathMap[o]? = some p

theorem Extends.of_eq (k : Nat) {ns ns' : Namespace} (same : ns' = ns) : Extends k ns ns' := by
  subst same
  exact ⟨fun h => h, fun {_ n} counted => ⟨n, by omega, counted⟩, fun _ _ _ _ h => h⟩

theorem Extends.trans {k k' : Nat} {ns ns' ns'' : Namespace} (h : Extends k ns ns')
    (h' : Extends k' ns' ns'') : Extends (k + k') ns ns'' where
  records found := h'.records (h.records found)
  counted counted := by
    obtain ⟨n', le, counted'⟩ := h.counted counted
    obtain ⟨n'', le', counted''⟩ := h'.counted counted'
    exact ⟨n'', by omega, counted''⟩
  ids counted few o p found := by
    obtain ⟨n', le, counted'⟩ := h.counted counted
    exact h'.ids counted' (by omega) (h.ids counted (by omega) found)

variable [FsPath] [PathHash] [ThriftSerialize FileMetadata]

omit [FsPath] [PathHash] [ThriftSerialize FileMetadata] in
/-- A record under a new path leaves the others alone. -/
theorem insert_absent {ns : Namespace} {path p : Str} {m m' : FileMetadata}
    (absent : ns.metadataMap[path]? = none) (found : ns.metadataMap[p]? = some m) :
    (ns.metadataMap.insert path m')[p]? = some m := by
  rw [getElem?_insert, if_neg, found]
  rintro rfl
  rw [absent] at found
  cases found

theorem Effect.extends {ns ns' : Namespace} {r : Request} (e : Effect ns r ns') (adds : r.Adds) :
    Extends (if r.isCreate then 1 else 0) ns ns' where
  records {p m} found := by
    cases e with
    | refused | addSubfile => exact found
    | create absent | mkdir absent => exact insert_absent absent found
    | _ => exact adds.elim
  counted counted := counted.effect e
  ids {start n} counted few {o p} found := by
    cases e with
    | @create path mode uid gid now absent =>
      have one : (Request.create path mode uid gid now).isCreate = true := rfl
      rw [if_pos one] at few
      have fresh := counted.fresh (by omega) (.create path mode uid gid now)
      rw [withFile_idToPathMap, getElem?_insert, if_neg, found]
      intro same
      have taken : ns.nextId path = o := same
      rw [Fresh, taken, found] at fresh
      cases fresh
    | refused | mkdir | addSubfile => exact found
    | _ => exact adds.elim

end Namespace

/-! ## Masters -/

/-- The files are extended, all indices are still there, and new ones are on normalised
paths. -/
structure MasterController.Extends (k : Nat) (mc mc' : MasterController) : Prop where
  files : mc.namespace.Extends k mc'.namespace
  registered : ∀ {root name : Str}, mc.indexNamespace.Registered root name →
    mc'.indexNamespace.Registered root name
  roots : ∀ {root : Str}, root ∈ mc'.indexNamespace.nodes →
    root ∈ mc.indexNamespace.nodes ∨ Normal root

theorem MasterController.Extends.refl (k : Nat) (mc : MasterController) : mc.Extends k mc :=
  ⟨.of_eq k rfl, fun h => h, .inl⟩

theorem MasterController.Extends.trans {k k' : Nat} {mc mc' mc'' : MasterController}
    (h : mc.Extends k mc') (h' : mc'.Extends k' mc'') : mc.Extends (k + k') mc'' where
  files := h.files.trans h'.files
  registered there := h'.registered (h.registered there)
  roots there := by
    rcases h'.roots there with old | new
    · exact h.roots old
    · exact .inr new

namespace MasterServer

/-- A call for something new, indices being on normalised paths. -/
def Adds : {α : Type} → MasterRpc α → Prop
  | _, .getattr _ => True
  | _, .create .. => True
  | _, .mkdir .. => True
  | _, .addSubfile .. => True
  | _, .createIndex index => Normal index.root
  | _, _ => False

/-- The number of files that a call makes. -/
def newFiles : {α : Type} → MasterRpc α → Nat
  | _, .create .. => 1
  | _, _ => 0

variable [FsPath] [PathHash] [ThriftSerialize FileMetadata] [ThriftSerialize IndexNamespaceNode]
  {mc mc' : MasterController} {now : Double}

/-- A call that a master serves extends the files. -/
theorem files_of_handle {α : Type} {rpc : MasterRpc α} {answer : Except RpcInvalidOp α}
    (adds : Adds rpc) (h : handle mc now rpc = .ok (answer, mc')) :
    mc.namespace.Extends (newFiles rpc) mc'.namespace := by
  rcases namespace_of_handle h with same | ⟨r, issues, e⟩
  · exact .of_eq _ same
  · cases issues with
    | mkdir | addSubfile | create | createIndex => exact e.extends trivial
    | _ => exact adds.elim

omit [FsPath] [PathHash] [ThriftSerialize FileMetadata] in
theorem nodes_of_insert {idx idx' : IndexNamespace} {root name : Str} {status : Status}
    (hr : Normal root) (h : idx.insert .OK root name = .ok (status, idx')) {path : Str}
    (there : path ∈ idx'.nodes) : path ∈ idx.nodes ∨ path = root := by
  simp only [IndexNamespace.insert, IndexNamespace.cleanupPath_normal hr, bind, Except.bind, pure,
    Except.pure] at h
  split at h
  · cases h
    exact .inl there
  · cases h
    rcases ExtTreeMap.mem_insert.mp there with same | old
    · exact .inr (compare_eq_iff_eq.mp same).symm
    · exact .inl old

theorem extends_of_handle {α : Type} {rpc : MasterRpc α} {a : α} (adds : Adds rpc)
    (h : handle mc now rpc = .ok (.ok a, mc')) : mc.Extends (newFiles rpc) mc' := by
  have files := files_of_handle adds h
  -- Only one of the calls is about indices.
  have same (kept : mc'.indexNamespace = mc.indexNamespace) : mc.Extends (newFiles rpc) mc' := by
    refine ⟨files, ?_, ?_⟩
    · rw [kept]
      exact fun h => h
    · rw [kept]
      exact .inl
  cases rpc with
  | getattr path => exact same (congrArg _ (answer_getattr h).1)
  | create path mode uid gid =>
    rcases answer_create h with ⟨⟨_, wrong, _⟩, _⟩ | ⟨_, _, rfl⟩
    · cases wrong
    · exact same rfl
  | mkdir path info =>
    rcases answer_mkdir h with ⟨⟨_, wrong, _⟩, _⟩ | ⟨_, _, rfl⟩
    · cases wrong
    · exact same rfl
  | addSubfile parent subfile =>
    rcases answer_addSubfile h with ⟨⟨_, wrong, _⟩, _⟩ | ⟨_, _, _, _, rfl⟩
    · cases wrong
    · exact same rfl
  | createIndex index =>
    obtain ⟨⟨status, ok, inserted⟩, -⟩ := inserted_of_createIndex h
    refine ⟨files, (insert_ok inserted ok).2.2 _ _, ?_⟩
    intro root there
    rcases nodes_of_insert adds inserted there with old | rfl
    · exact .inl old
    · exact .inr adds
  | _ => exact adds.elim

end MasterServer

end Vsfs.Masterd

import Vsfs.Masterd.Answers

/-!
# The object ids of a master

Which requests give an id out or take one back, and which answer says so.

## Main results

* `idEffect_of_handle` : what a request does to the reverse map and the counter.
* `what_of_handle` : a refusal has a code.
-/

namespace Vsfs.Masterd

open Std FiniteMap Namespace

/-- The answer to the request is an id that was given out or taken back. -/
def MasterRpc.Transfers : {α : Type} → MasterRpc α → Prop
  | _, .create .. => True
  | _, .remove _ => True
  | _, _ => False

/-- What a request does to the ids of a namespace, together with its answer. -/
inductive IdEffect [PathHash] (ns ns' : Namespace) :
    {α : Type} → MasterRpc α → Except RpcInvalidOp α → Prop where
  | same {α : Type} {request : MasterRpc α} {answer : Except RpcInvalidOp α}
      (ids : ns'.idToPathMap = ns.idToPathMap) (counter : ns'.nextObjId = ns.nextObjId)
      (refused : request.Transfers → ∃ ouch, answer = .error ouch) :
      IdEffect ns ns' request answer
  | given {path : Str} {mode uid gid : BitVec 64}
      (ids : ns'.idToPathMap = ns.idToPathMap.insert (ns.nextId path) path)
      (counter : ns'.nextObjId = ns.nextObjId + 1) :
      IdEffect ns ns' (.create path mode uid gid) (.ok (ns.nextId path))
  | taken {path : Str} {oid : ObjectId} (mapped : ns.idToPathMap[oid]? = some path)
      (ids : ns'.idToPathMap = ns.idToPathMap.erase oid) (counter : ns'.nextObjId = ns.nextObjId) :
      IdEffect ns ns' (.remove path) (.ok oid)

namespace MasterServer

variable [FsPath] [PathHash] [ThriftSerialize FileMetadata] [ThriftSerialize IndexNamespaceNode]
  {mc mc' : MasterController} {now : Double} {α : Type} {request : MasterRpc α}
  {answer : Except RpcInvalidOp α}

omit [ThriftSerialize IndexNamespaceNode] in
/-- Requests on directories and attributes leave the ids alone. -/
theorem same_of_effect {ns ns' : Namespace} {r : Request} (e : Effect ns r ns')
    (issues : Issues now request r) (other : ¬ request.Transfers) :
    ns'.idToPathMap = ns.idToPathMap ∧ ns'.nextObjId = ns.nextObjId := by
  cases e with
  | refused => exact ⟨rfl, rfl⟩
  | create absent =>
    cases issues
    exact absurd trivial other
  | remove found file mapped =>
    cases issues
    exact absurd trivial other
  | _ => exact ⟨rfl, rfl⟩

theorem created_id {path : Str} {mode uid gid : BitVec 64} {oid : ObjectId}
    (h : handle mc now (.create path mode uid gid) = .ok (.ok oid, mc'))
    (absent : mc.namespace.metadataMap[path]? = none) : oid = mc.namespace.nextId path := by
  by_cases valid : MasterController.isValidPath path = true
  · by_cases clash : mc.namespace.idToPathMap[mc.namespace.nextId path]? = some path
    · simp [handle, MasterController.create, valid, create_absent _ _ _ _ absent, clash,
        bind, Except.bind] at h
    · simp only [handle, MasterController.create, valid, create_absent _ _ _ _ absent, clash] at h
      cases h
      rfl
  · simp only [handle, MasterController.create, valid] at h
    cases h

theorem removed_id {path : Str} {oid : ObjectId} {m : FileMetadata}
    (h : handle mc now (.remove path) = .ok (.ok oid, mc'))
    (found : mc.namespace.metadataMap[path]? = some m) (file : ¬ S_ISDIR m.mode)
    (mapped : mc.namespace.idToPathMap[m.objectId]? = some path) : oid = m.objectId := by
  simp only [handle, MasterController.remove, remove_file found file, mapped] at h
  cases h
  rfl

theorem idEffect_of_handle (h : handle mc now request = .ok (answer, mc')) :
    IdEffect mc.namespace mc'.namespace request answer := by
  by_cases transfers : request.Transfers
  · cases request with
    | create path mode uid gid =>
      rcases answer_create h with ⟨⟨ouch, refused, -⟩, rfl⟩ | ⟨absent, ⟨oid, rfl⟩, rfl⟩
      · exact .same rfl rfl fun _ => ⟨ouch, refused⟩
      · rw [created_id h absent]
        exact .given rfl rfl
    | remove path =>
      rcases answer_remove h with ⟨⟨⟨ouch, refused, -⟩, rfl⟩, -⟩ |
        ⟨m, found, file, mapped, ⟨oid, rfl⟩, rfl⟩
      · exact .same rfl rfl fun _ => ⟨ouch, refused⟩
      · rw [removed_id h found file mapped]
        exact .taken mapped rfl rfl
    | _ => cases transfers
  · rcases namespace_of_handle h with same | ⟨r, issues, e⟩
    · exact .same (by rw [same]) (by rw [same]) fun transfers' => absurd transfers' transfers
    · obtain ⟨ids, counter⟩ := same_of_effect e issues transfers
      exact .same ids counter fun transfers' => absurd transfers' transfers

omit [FsPath] [PathHash] [ThriftSerialize FileMetadata] [ThriftSerialize IndexNamespaceNode] in
theorem what_of_checkStatus {status : Status} {a : α} {ouch : RpcInvalidOp}
    (h : checkStatus status a = .error ouch) : ouch.what ≠ 0 := by
  unfold checkStatus at h
  split at h
  · cases h
  · next bad =>
    cases h
    simpa [Status.ok] using bad

theorem what_of_handle {ouch : RpcInvalidOp} (h : handle mc now request = .ok (.error ouch, mc')) :
    ouch.what ≠ 0 := by
  have checked {status : Status} {a : α} {mc₁ : MasterController}
      (h : Except.ok (checkStatus status a, mc₁) = (.ok (.error ouch, mc') : Cpp _)) :
      ouch.what ≠ 0 := by
    injection h with h
    exact what_of_checkStatus (congrArg Prod.fst h)
  have bound {γ : Type} {x : Cpp γ} {f : γ → Cpp (Except RpcInvalidOp α × MasterController)}
      (each : ∀ a, f a = .ok (.error ouch, mc') → ouch.what ≠ 0)
      (h : x.bind f = .ok (.error ouch, mc')) : ouch.what ≠ 0 := by
    cases x with
    | error e => cases h
    | ok a => exact each a h
  cases request with
  | findObjects files => cases h
  | findFiles objects => cases h
  | locateIndicesForSearch root names => cases h
  | locateIndices path recursive => cases h
  | create path mode uid gid => exact bound (fun a h => checked h) h
  | remove path => exact bound (fun a h => checked h) h
  | createIndex index => exact bound (fun a h => checked h) h
  | removeIndex root name => exact bound (fun a h => checked h) h
  | _ => exact checked h

end MasterServer

end Vsfs.Masterd

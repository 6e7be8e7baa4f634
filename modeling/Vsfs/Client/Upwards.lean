import Vsfs.Client.Placement
import Vsfs.Lib.Answers

/-!
# The way upwards

A task looks for the index of a name in the directory of the file and then in one directory
after the other upwards. It gives up at the path `/` only, which a file path without a leading
slash never comes to, and neither does `/` itself, whose directory is the empty path.

## Main results

- `indicesResolved_iff`: for which requests the search comes to an end, with the nearest indices.
-/

namespace Vsfs.Client

open Std Program Prog Masterd Indexd FiniteMap Grouping VSFSRpcClient IndexUpdateTask

section Upwards

variable [FsPath] [PathHash] [ConsistentHashMap] {c : VSFSRpcClient}
  {answer : (β : Type) → Rpc β → Except RpcError β} {name : Str}

/-! ## What the masters say -/

/-- The attributes of the path are those of a directory. -/
def SaysDirectory (c : VSFSRpcClient) (answer : (β : Type) → Rpc β → Except RpcError β)
    (path : Str) : Prop :=
  ∃ stat : Stat, (c.getattrStat path).result answer = some (.ok (.OK, some stat)) ∧
    S_ISDIR stat.mode

/-- The question for the attributes is answered with OK or `-ENOENT`. -/
def Answered (c : VSFSRpcClient) (answer : (β : Type) → Rpc β → Except RpcError β)
    (path : Str) : Prop :=
  ∃ status stat, (c.getattrStat path).result answer = some (.ok (status, stat)) ∧
    (status.ok = true ∨ status.error = -ENOENT)

/-- The nearest directory upwards with an index of the name. -/
inductive FoundAt (c : VSFSRpcClient) (answer : (β : Type) → Rpc β → Except RpcError β)
    (name : Str) : Str → Str → Prop where
  | here {dir : Str} (there : SaysDirectory c answer (PathUtil.indexPath dir name)) :
      FoundAt c answer name dir dir
  | up {dir root : Str} (absent : ¬ SaysDirectory c answer (PathUtil.indexPath dir name))
      (told : Answered c answer (PathUtil.indexPath dir name)) (below : dir ≠ ['/'])
      (rest : FoundAt c answer name (FsPath.parentPath dir) root) : FoundAt c answer name dir root

theorem FoundAt.unique {dir root root' : Str} (h : FoundAt c answer name dir root)
    (h' : FoundAt c answer name dir root') : root = root' := by
  induction h with
  | here there =>
    cases h' with
    | here => rfl
    | up absent => exact absurd there absent
  | up absent _ _ _ ih =>
    cases h' with
    | here there => exact absurd there absent
    | up _ _ _ rest => exact ih rest

/-- Where the loop ends without an index: at the root, or when the question is refused. -/
def GivesUp (c : VSFSRpcClient) (answer : (β : Type) → Rpc β → Except RpcError β)
    (name dir : Str) : Prop :=
  dir = ['/'] ∨ ¬ Answered c answer (PathUtil.indexPath dir name)

omit [FsPath] in
theorem getattrStat_result (c : VSFSRpcClient) (answer : (β : Type) → Rpc β → Except RpcError β)
    (path : Str) :
    (∃ exit, (c.getattrStat path).result answer = some (.error exit)) ∨
      ∃ status stat, (c.getattrStat path).result answer = some (.ok (status, stat)) ∧
        (stat ≠ none → status = .OK) := by
  cases home : (c.masterMap.getByPath path).2 with
  | none =>
    simp only [getattrStat, VSFSRpcClient.getattr, checkGet_none home, bind_eq, throw_bind]
    exact .inl ⟨_, rfl⟩
  | some node =>
    simp only [getattrStat, VSFSRpcClient.getattr, checkGet_some home, bind_eq, ret_bind,
      perform_bind, call_bind, Prog.result]
    cases answer _ (.master node.address (.getattr path)) with
    | ok info => exact .inr ⟨_, _, rfl, fun _ => rfl⟩
    | error e =>
      cases ok : e.status.ok with
      | true =>
        simp only [pure_eq, ret_bind, ok, Bool.not_true, Bool.false_eq_true, if_false]
        exact .inr ⟨_, _, rfl, fun _ => rfl⟩
      | false =>
        simp only [pure_eq, ret_bind, ok, Bool.not_false, if_true]
        exact .inr ⟨_, none, rfl, fun some => absurd rfl some⟩

/-- How a turn ends. -/
inductive TurnsTo (c : VSFSRpcClient) (answer : (β : Type) → Rpc β → Except RpcError β)
    (name dir : Str) : Except Exit (Str ⊕ Status × Option Str) → Prop where
  | index (there : SaysDirectory c answer (PathUtil.indexPath dir name)) :
      TurnsTo c answer name dir (.ok (.inr (.OK, some (PathUtil.indexPath dir name))))
  | thrown {exit : Exit} (absent : ¬ SaysDirectory c answer (PathUtil.indexPath dir name))
      (refused : ¬ Answered c answer (PathUtil.indexPath dir name)) :
      TurnsTo c answer name dir (.error exit)
  | stopped {status : Status} (absent : ¬ SaysDirectory c answer (PathUtil.indexPath dir name))
      (bad : status.ok = false) (last : GivesUp c answer name dir) :
      TurnsTo c answer name dir (.ok (.inr (status, none)))
  | up (absent : ¬ SaysDirectory c answer (PathUtil.indexPath dir name))
      (told : Answered c answer (PathUtil.indexPath dir name)) (below : dir ≠ ['/']) :
      TurnsTo c answer name dir (.ok (.inl (FsPath.parentPath dir)))

theorem exists_turnsTo (c : VSFSRpcClient) (answer : (β : Type) → Rpc β → Except RpcError β)
    (name dir : Str) : ∃ r, (findIndexTurn c name dir).result answer = some r ∧
      TurnsTo c answer name dir r := by
  rcases getattrStat_result c answer (PathUtil.indexPath dir name) with
    ⟨exit, thrown⟩ | ⟨status, stat, seen, only⟩
  · refine ⟨_, result_bind_error thrown, .thrown ?_ ?_⟩
    · rintro ⟨stat, told, -⟩
      rw [thrown] at told
      cases told
    · rintro ⟨status, stat, told, -⟩
      rw [thrown] at told
      cases told
  have there : SaysDirectory c answer (PathUtil.indexPath dir name) ↔
      (stat.any fun st => S_ISDIR st.mode) = true := by
    constructor
    · rintro ⟨st, told, isDir⟩
      rw [seen] at told
      cases told
      simpa using isDir
    · intro isDir
      obtain ⟨st, rfl, isDir⟩ := (Option.any_eq_true _ _).mp isDir
      cases only (by simp)
      exact ⟨st, seen, of_decide_eq_true isDir⟩
  have told : Answered c answer (PathUtil.indexPath dir name) ↔
      (status.ok = true ∨ status.error = -ENOENT) := by
    constructor
    · rintro ⟨status', stat', same, good⟩
      rw [seen] at same
      cases same
      exact good
    · exact fun good => ⟨status, stat, seen, good⟩
  have turn : (findIndexTurn c name dir).result answer = _ := result_bind_ok seen
  rw [turn]
  dsimp only
  split
  · rename_i isDir
    exact ⟨_, rfl, .index (there.mpr isDir)⟩
  rename_i file
  split
  · rename_i bad
    have refused : ¬ Answered c answer (PathUtil.indexPath dir name) := by
      rw [told]
      rintro (ok | absent)
      · simp [ok] at bad
      · exact bad.2 absent
    exact ⟨_, rfl, .stopped (mt there.mp file) (by simpa using bad.1) (.inr refused)⟩
  rename_i passed
  split
  · rename_i top
    exact ⟨_, rfl, .stopped (mt there.mp file) rfl (.inl top)⟩
  · rename_i below
    have good : status.ok = true ∨ status.error = -ENOENT := by
      by_cases ok : status.ok = true
      · exact .inl ok
      · exact .inr (by_contra fun other => passed ⟨by simpa using ok, other⟩)
    exact ⟨_, rfl, .up (mt there.mp file) (told.mpr good) below⟩

/-! ## One name -/

theorem stops_of_found {dir root : Str} (h : FoundAt c answer name dir root) :
    Stops answer (findIndexTurn c name) dir (.ok (.OK, some (PathUtil.indexPath root name))) := by
  induction h with
  | @here dir there =>
    obtain ⟨r, turn, turns⟩ := exists_turnsTo c answer name dir
    cases turns with
    | index => exact .last turn
    | thrown absent => exact absurd there absent
    | stopped absent => exact absurd there absent
    | up absent => exact absurd there absent
  | @up dir root absent told below _ ih =>
    obtain ⟨r, turn, turns⟩ := exists_turnsTo c answer name dir
    cases turns with
    | index there => exact absurd there absent
    | thrown _ refused => exact absurd told refused
    | stopped _ _ last => exact absurd told (last.resolve_left below)
    | up => exact .again turn ih

/-- The loop ends when it comes to a directory where it gives up. -/
theorem exists_stops_of_givesUp {n : Nat} {dir : Str}
    (last : GivesUp c answer name (FsPath.parentPath^[n] dir)) :
    ∃ r, Stops answer (findIndexTurn c name) dir r := by
  induction n generalizing dir with
  | zero =>
    obtain ⟨r, turn, turns⟩ := exists_turnsTo c answer name dir
    cases turns with
    | index => exact ⟨_, .last turn⟩
    | thrown => exact ⟨_, .thrown turn⟩
    | stopped => exact ⟨_, .last turn⟩
    | up _ told below =>
      rcases last with top | refused
      · exact absurd top below
      · exact absurd told refused
  | succ n ih =>
    obtain ⟨r, turn, turns⟩ := exists_turnsTo c answer name dir
    cases turns with
    | index => exact ⟨_, .last turn⟩
    | thrown => exact ⟨_, .thrown turn⟩
    | stopped => exact ⟨_, .last turn⟩
    | up =>
      obtain ⟨r, rest⟩ := ih last
      exact ⟨r, .again turn rest⟩

/-- An end without an index. -/
inductive Fails (c : VSFSRpcClient) (answer : (β : Type) → Rpc β → Except RpcError β)
    (name dir : Str) : Except Exit (Status × Option Str) → Prop where
  | status {status : Status} (bad : status.ok = false) :
      Fails c answer name dir (.ok (status, none))
  | exit {exit : Exit} {n : Nat}
      (refused : ¬ Answered c answer (PathUtil.indexPath (FsPath.parentPath^[n] dir) name)) :
      Fails c answer name dir (.error exit)

/-- The loop ends with the nearest index, or where it gives up. -/
theorem stops_cases {dir : Str} {r : Except Exit (Status × Option Str)}
    (stops : Stops answer (findIndexTurn c name) dir r) :
    (∃ root, FoundAt c answer name dir root ∧ r = .ok (.OK, some (PathUtil.indexPath root name))) ∨
      ((∀ root, ¬ FoundAt c answer name dir root) ∧
        (∃ n, GivesUp c answer name (FsPath.parentPath^[n] dir)) ∧ Fails c answer name dir r) := by
  -- Without an index here, there is one only above, and above nothing but the root.
  have missing {dir : Str} (absent : ¬ SaysDirectory c answer (PathUtil.indexPath dir name))
      (above : GivesUp c answer name dir ∨
        ∀ root, ¬ FoundAt c answer name (FsPath.parentPath dir) root)
      (root : Str) : ¬ FoundAt c answer name dir root := by
    rintro (there | ⟨-, told, below, rest⟩)
    · exact absent there
    · rcases above with (top | refused) | none
      · exact below top
      · exact refused told
      · exact none root rest
  induction stops with
  | @last dir a turn =>
    obtain ⟨r, turn', turns⟩ := exists_turnsTo c answer name dir
    cases turn.symm.trans turn'
    cases turns with
    | index there => exact .inl ⟨dir, .here there, rfl⟩
    | stopped absent bad last => exact .inr ⟨missing absent (.inl last), ⟨0, last⟩, .status bad⟩
  | @thrown dir e turn =>
    obtain ⟨r, turn', turns⟩ := exists_turnsTo c answer name dir
    cases turn.symm.trans turn'
    cases turns with
    | thrown absent refused =>
      exact .inr ⟨missing absent (.inl (.inr refused)), ⟨0, .inr refused⟩, .exit (n := 0) refused⟩
  | @again dir y r turn _ ih =>
    obtain ⟨r', turn', turns⟩ := exists_turnsTo c answer name dir
    cases turn.symm.trans turn'
    cases turns with
    | up absent told below =>
      rcases ih with ⟨root, found, rfl⟩ | ⟨none, ⟨n, last⟩, fails⟩
      · exact .inl ⟨root, .up absent told below found, rfl⟩
      · refine .inr ⟨missing absent (.inr none), ⟨n + 1, last⟩, ?_⟩
        cases fails with
        | status bad => exact .status bad
        | @exit _ n refused => exact .exit (n := n + 1) refused

/-- The search for one name comes to an end. -/
def Settled (c : VSFSRpcClient) (answer : (β : Type) → Rpc β → Except RpcError β)
    (e : Str × Str) : Prop :=
  (∃ root, FoundAt c answer e.2 e.1 root) ∨
    ∃ n, GivesUp c answer e.2 (FsPath.parentPath^[n] e.1)

/-- A file path leads to the root when it begins with a slash and has more to it. -/
theorem settled_iff [DropsComponent] (r : IndexUpdateRequest) :
    Settled c answer (FsPath.parentPath r.filePath, r.indexName) ↔
      (∃ root, FoundAt c answer r.indexName (FsPath.parentPath r.filePath) root) ∨
        (r.filePath.head? = some '/' ∧ r.filePath ≠ ['/']) ∨
          ∃ n, ¬ Answered c answer (PathUtil.indexPath
            (FsPath.parentPath^[n] (FsPath.parentPath r.filePath)) r.indexName) := by
  rw [← parent_reaches_root_iff, Settled]
  simp only [GivesUp, exists_or]

/-! ## All names -/

section Names

variable {names : List (Str × Str)} {indexMap : ParentPathToIndexPathMap}
  {post : Except Exit (Status × ParentPathToIndexPathMap) → Unit → Prop}

/-- What is found is put into the map. -/
theorem findIndices_found_iff {parent root : Str} (found : FoundAt c answer name parent root) :
    Ends (Fixed answer) post (findIndices c indexMap ((parent, name) :: names)) () ↔
      Ends (Fixed answer) post (findIndices c (indexMap.insert parent
        ((indexMap[parent]?.getD ∅).insert name (PathUtil.indexPath root name))) names) () :=
  (stops_of_found found).ends_iff

/-- A search that ends has come to the first name without an index, if there is one, and from
there to a place to give up. -/
theorem settled_of_ends {first rest : List (Str × Str)} {e : Str × Str}
    (found : ∀ e' ∈ first, ∃ root, FoundAt c answer e'.2 e'.1 root)
    (total : Ends (Fixed answer) post (findIndices c indexMap (first ++ e :: rest)) ()) :
    Settled c answer e := by
  induction first generalizing indexMap with
  | nil =>
    obtain ⟨r, stops⟩ := exists_stops (fun dir => by
      obtain ⟨r, turn, -⟩ := exists_turnsTo c answer e.2 dir
      exact ⟨r, turn⟩) total
    rcases stops_cases stops with ⟨root, found, -⟩ | ⟨-, last, -⟩
    · exact .inl ⟨root, found⟩
    · exact .inr last
  | cons e' first ih =>
    obtain ⟨root, here⟩ := found e' (by simp)
    exact ih (fun e he => found e (by simp [he])) ((findIndices_found_iff here).mp total)

/-- The map only has the nearest indices. -/
def Nearby (c : VSFSRpcClient) (answer : (β : Type) → Rpc β → Except RpcError β)
    (indexMap : ParentPathToIndexPathMap) : Prop :=
  ∀ dir name path, lookup indexMap dir name = some path →
    ∃ root, FoundAt c answer name dir root ∧ path = PathUtil.indexPath root name

theorem Nearby.insert {parent root : Str} (nearby : Nearby c answer indexMap)
    (found : FoundAt c answer name parent root) : Nearby c answer (indexMap.insert parent
      ((indexMap[parent]?.getD ∅).insert name (PathUtil.indexPath root name))) := by
  intro dir name' path h
  rw [lookup_insert] at h
  split at h
  · rename_i same
    obtain ⟨rfl, rfl⟩ := same
    cases h
    exact ⟨root, found, rfl⟩
  · exact nearby dir name' path h

/-- The names before the first one without an index are found, and the search for that one comes
to an end. -/
def SettledInOrder (c : VSFSRpcClient) (answer : (β : Type) → Rpc β → Except RpcError β)
    (names : List (Str × Str)) : Prop :=
  ∀ first e rest, names = first ++ e :: rest →
    (∀ e' ∈ first, ∃ root, FoundAt c answer e'.2 e'.1 root) → Settled c answer e

/-- The outcome that is expected: the index nearest to every directory, or an error when there is
none for some name, as long as the masters answer. -/
structure Resolved (c : VSFSRpcClient) (answer : (β : Type) → Rpc β → Except RpcError β)
    (names : List (Str × Str)) (r : Except Exit (Status × ParentPathToIndexPathMap)) : Prop where
  found : (∀ e ∈ names, ∃ root, FoundAt c answer e.2 e.1 root) → ∃ status indexMap,
    r = .ok (status, indexMap) ∧ status.ok = true ∧ ∀ e ∈ names, ∀ root,
      FoundAt c answer e.2 e.1 root → lookup indexMap e.1 e.2 = some (PathUtil.indexPath root e.2)
  missing : (∃ e ∈ names, ∀ root, ¬ FoundAt c answer e.2 e.1 root) →
    (∀ e ∈ names, ∀ n, Answered c answer (PathUtil.indexPath (FsPath.parentPath^[n] e.1) e.2)) →
      ∃ status indexMap, r = .ok (status, indexMap) ∧ status.ok = false

theorem findIndices_resolved (nearby : Nearby c answer indexMap)
    (settled : SettledInOrder c answer names) :
    Ends (Fixed answer) (fun r _ =>
      ((∀ e ∈ names, ∃ root, FoundAt c answer e.2 e.1 root) → ∃ status indexMap',
        r = .ok (status, indexMap') ∧ status.ok = true ∧ Nearby c answer indexMap' ∧
          ∀ dir name, lookup indexMap dir name ≠ none ∨ (dir, name) ∈ names →
            lookup indexMap' dir name ≠ none) ∧
      ((∃ e ∈ names, ∀ root, ¬ FoundAt c answer e.2 e.1 root) →
        (∀ e ∈ names, ∀ n, Answered c answer
          (PathUtil.indexPath (FsPath.parentPath^[n] e.1) e.2)) →
            ∃ status indexMap', r = .ok (status, indexMap') ∧ status.ok = false))
      (findIndices c indexMap names) () := by
  induction names generalizing indexMap with
  | nil => exact .ret ⟨fun _ => ⟨.OK, indexMap, rfl, rfl, nearby, by simp⟩, by simp⟩
  | cons e names ih =>
    obtain ⟨parent, name⟩ := e
    by_cases here : ∃ root, FoundAt c answer name parent root
    · obtain ⟨root, here⟩ := here
      have later : SettledInOrder c answer names := fun first e rest split found =>
        settled ((parent, name) :: first) e rest (by rw [split, List.cons_append]) (by
          intro e' he'
          rcases List.mem_cons.mp he' with rfl | he'
          · exact ⟨root, here⟩
          · exact found e' he')
      refine (findIndices_found_iff here).mpr ((ih (nearby.insert here) later).imp ?_)
      intro r _ now
      refine ⟨fun found => ?_, fun missing answered => ?_⟩
      · obtain ⟨status, indexMap', same, ok, nearby', all⟩ :=
          now.1 fun e he => found e (by simp [he])
        refine ⟨status, indexMap', same, ok, nearby', fun dir name' h => all dir name' ?_⟩
        rw [lookup_insert]
        rcases h with old | new
        · exact .inl (by split <;> simp [old])
        · rcases List.mem_cons.mp new with same | new
          · cases same
            exact .inl (by simp)
          · exact .inr new
      · obtain ⟨e, he, none⟩ := missing
        refine now.2 ⟨e, ?_, none⟩ fun e he => answered e (by simp [he])
        rcases List.mem_cons.mp he with rfl | he
        · exact absurd here (none root)
        · exact he
    · obtain ⟨n, last⟩ := (settled [] _ names rfl (by simp)).resolve_left here
      obtain ⟨r, stops⟩ := exists_stops_of_givesUp last
      refine stops.ends_iff.mpr ?_
      rcases stops_cases stops with ⟨root, found, -⟩ | ⟨-, -, fails⟩
      · exact absurd ⟨root, found⟩ here
      · have notAll (found : ∀ e ∈ (parent, name) :: names,
            ∃ root, FoundAt c answer e.2 e.1 root) : False := here (found _ List.mem_cons_self)
        cases fails with
        | status bad =>
          exact .ret ⟨fun found => (notAll found).elim, fun _ _ => ⟨_, indexMap, rfl, bad⟩⟩
        | exit refused =>
          exact ⟨fun found => (notAll found).elim,
            fun _ answered => absurd (answered _ List.mem_cons_self _) refused⟩

end Names

/-! ## Requests -/

/-- The directory and the name that a request is about. -/
def wanted (requests : List IndexUpdateRequest) : List (Str × Str) :=
  requests.map fun r => (FsPath.parentPath r.filePath, r.indexName)

omit [PathHash] [ConsistentHashMap] in
theorem mem_namesOf_iff {requests : List IndexUpdateRequest} {e : Str × Str} :
    e ∈ namesOf requests ↔ e ∈ wanted requests := by
  obtain ⟨parent, name⟩ := e
  simp [mem_namesOf, wanted]

/-- The search for the indices of all requests ends, as expected. -/
def IndicesResolved (c : VSFSRpcClient) (answer : (β : Type) → Rpc β → Except RpcError β)
    (requests : List IndexUpdateRequest) : Prop :=
  Ends (Fixed answer) (fun r _ => Resolved c answer (wanted requests) r)
    (getParentPathToIndexPathMap c requests) ()

theorem indicesResolved_of_settled {requests : List IndexUpdateRequest}
    (settled : SettledInOrder c answer (namesOf requests)) : IndicesResolved c answer requests := by
  have nearby : Nearby c answer ∅ := fun _ _ _ h => by simp [lookup] at h
  refine (findIndices_resolved nearby settled).imp fun r _ now => ?_
  refine ⟨fun found => ?_, fun missing answered => ?_⟩
  · obtain ⟨status, indexMap, same, ok, right, all⟩ :=
      now.1 fun e he => found e (mem_namesOf_iff.mp he)
    refine ⟨status, indexMap, same, ok, fun e he root here => ?_⟩
    obtain ⟨path, there⟩ := Option.ne_none_iff_exists'.mp
      (all e.1 e.2 (.inr (mem_namesOf_iff.mpr he)))
    obtain ⟨root', here', rfl⟩ := right _ _ _ there
    rw [there, here'.unique here]
  · obtain ⟨e, he, none⟩ := missing
    exact now.2 ⟨e, mem_namesOf_iff.mpr he, none⟩ fun e he => answered e (mem_namesOf_iff.mp he)

theorem settled_of_indicesResolved {requests : List IndexUpdateRequest}
    (resolved : IndicesResolved c answer requests) :
    SettledInOrder c answer (namesOf requests) := by
  intro first e rest split found
  have total : Ends (Fixed answer) (fun r _ => Resolved c answer (wanted requests) r)
      (findIndices c ∅ (first ++ e :: rest)) () := split ▸ resolved
  exact settled_of_ends found total

/-- The indices are resolved exactly when the first name that has no index upwards is looked for
from a directory below the root, or a question on its way is refused. -/
theorem indicesResolved_iff (c : VSFSRpcClient) (answer : (β : Type) → Rpc β → Except RpcError β)
    (requests : List IndexUpdateRequest) :
    IndicesResolved c answer requests ↔ SettledInOrder c answer (namesOf requests) :=
  ⟨settled_of_indicesResolved, indicesResolved_of_settled⟩

/-! ## Masters that are there -/

section States

variable {K : Type} [LinearOrder K] {s : Servers K}

/-- What a master says about attributes, which is all that it is asked for. -/
def attributesOf (mc : MasterController) : {β : Type} → MasterRpc β → Except RpcError β
  | _, .getattr path => (checkStatus (mc.namespace.getattr path).1
      ((mc.namespace.getattr path).2.getD {})).mapError .invalidOp
  | _, _ => .error (.transport 1 "Not asked")

/-- The answers in a state of the masters. -/
def attributes (s : Servers K) : (β : Type) → Rpc β → Except RpcError β
  | _, .master a request => attributesOf (s.masters a) request
  | _, .index _ _ => .error (.transport 1 "Not asked")

omit [FsPath] in
/-- A master only ever says OK or `-ENOENT`, and the first with a directory when it has one. -/
theorem attributes_told {path : Str} {node : NodeInfo}
    (home : c.masterMap.getByPath path = (.OK, some node)) :
    Answered c (attributes s) path ∧
      (SaysDirectory c (attributes s) path ↔ IsDirectory c s path) := by
  cases found : (s.masters node.address).namespace.metadataMap[path]? with
  | none =>
    have seen : ∃ status : Status, status.error = -ENOENT ∧
        (c.getattrStat path).result (attributes s) = some (.ok (status, none)) := by
      simp only [getattrStat, VSFSRpcClient.getattr, home, checkGet, bind_eq, ret_bind,
        perform_bind, call_bind, Prog.result, attributes, attributesOf, Namespace.getattr, found,
        checkStatus, Status.systemError, Except.mapError]
      exact ⟨_, rfl, rfl⟩
    obtain ⟨status, code, seen⟩ := seen
    refine ⟨⟨status, none, seen, .inr code⟩, ?_⟩
    simp [SaysDirectory, IsDirectory, seen, home, found]
  | some m =>
    have seen : ∃ stat : Stat, stat.mode = m.mode ∧
        (c.getattrStat path).result (attributes s) = some (.ok (.OK, some stat)) := by
      simp only [getattrStat, VSFSRpcClient.getattr, home, checkGet, bind_eq, ret_bind,
        perform_bind, call_bind, Prog.result, attributes, attributesOf, Namespace.getattr, found,
        checkStatus, Status.ok_OK, if_true, Option.getD_some, Except.mapError]
      exact ⟨_, setWidth_signExtend m.mode, rfl⟩
    obtain ⟨stat, mode, seen⟩ := seen
    refine ⟨⟨.OK, some stat, seen, .inl rfl⟩, ?_⟩
    simp [SaysDirectory, IsDirectory, seen, home, found, mode]

end States

end Upwards

section Example

attribute [local instance] SortedRing.consistentHashMap Posix.fsPath Md5.pathHash

/-- Neither a path without a slash nor the root has an index, and for both of them the search goes
on for ever in the empty directory. -/
theorem not_indicesResolved_relative :
    ¬ IndicesResolved oneServer (attributes rootOnly)
        [⟨.insert, "a".toList, "size".toList, "1".toList⟩] ∧
      ¬ IndicesResolved oneServer (attributes rootOnly)
        [⟨.insert, "/".toList, "size".toList, "1".toList⟩] := by
  have home (path : Str) : ∃ node, oneServer.masterMap.getByPath path = (.OK, some node) :=
    ServerMap.get_of_ring_ne (by decide) _
  have absent : ¬ SaysDirectory oneServer (attributes rootOnly)
      (PathUtil.indexPath [] "size".toList) := by
    obtain ⟨node, there⟩ := home (PathUtil.indexPath [] "size".toList)
    rw [(attributes_told there).2]
    rintro ⟨_, m, -, found, -⟩
    have none : (rootOnly.masters ⟨[], 0⟩).namespace.metadataMap[
      PathUtil.indexPath [] "size".toList]? = none := by decide +kernel
    cases none.symm.trans found
  have empty (n : Nat) : FsPath.parentPath^[n] ([] : Str) = [] := Function.iterate_fixed rfl n
  have nowhere : ¬ Settled oneServer (attributes rootOnly) ([], "size".toList) := by
    intro settled
    rcases (settled_iff ⟨.insert, "a".toList, "size".toList, "1".toList⟩).mp settled with
      ⟨root, found⟩ | ⟨rooted, -⟩ | ⟨n, refused⟩
    · change FoundAt oneServer (attributes rootOnly) "size".toList [] root at found
      generalize here : ([] : Str) = dir at found
      induction found with
      | here there => exact absent (here ▸ there)
      | up _ _ _ _ ih =>
        subst here
        exact ih rfl
    · cases rooted
    · obtain ⟨node, there⟩ := home (PathUtil.indexPath [] "size".toList)
      refine refused ?_
      change Answered _ _ (PathUtil.indexPath (FsPath.parentPath^[n] []) "size".toList)
      rw [empty n]
      exact (attributes_told there).1
  have forever (requests : List IndexUpdateRequest)
      (only : namesOf requests = [([], "size".toList)]) :
      ¬ IndicesResolved oneServer (attributes rootOnly) requests := fun resolved =>
    nowhere (settled_of_indicesResolved resolved [] _ [] only (by simp))
  exact ⟨forever _ (by decide +kernel), forever _ (by decide +kernel)⟩

end Example

end Vsfs.Client

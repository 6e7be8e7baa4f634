import Vsfs.Masterd.FailedWrites

/-!
# Files and directories

What a path is is kept twice, in the type bits of its mode and among the directories; what
it was made as is known from the requests only. `setattr` takes the bits as they come.

## Main results

* `kinds_agree` : as long as no request changes a type, mode, directories and history agree,
  and files and directories can be removed as what they were made.
-/

namespace Vsfs.Masterd.Namespace

open Std FiniteMap

inductive Kind where
  | file
  | directory
  deriving DecidableEq, Repr

/-- What the mode of a path says. -/
def kindAt (ns : Namespace) (path : Str) : Option Kind :=
  (ns.metadataMap[path]?).map fun m => if S_ISDIR m.mode then .directory else .file

/-- A namespace, with what the requests so far have made and not removed. -/
structure Tracked where
  state : Namespace
  made : Str → Option Kind

section Tracking

variable [FsPath] [PathHash] [ThriftSerialize FileMetadata]

/-- What a request that succeeds makes or removes. -/
def track (made : Str → Option Kind) : Request → Str → Option Kind
  | .create path .. => Function.update made path (some .file)
  | .mkdir path .. => Function.update made path (some .directory)
  | .remove path => Function.update made path none
  | .rmdir path => Function.update made path none
  | _ => made

/-- A request, with the status of its write. -/
def trackedCall (t : Tracked) (r : Status × Request) : Cpp Tracked :=
  match t.state.call r.1 r.2 with
  | .ok (status, ns) => .ok ⟨ns, if status.ok then track t.made r.2 else t.made⟩
  | .error e => .error e

def Succeeds (ns : Namespace) (r : Request) : Prop :=
  ∃ status ns', ns.call .OK r = .ok (status, ns') ∧ status.ok = true

/-- Mode, directories and history tell the same of every path. -/
structure KindsAgree (t : Tracked) : Prop where
  types : ∀ p, p ∈ t.state.directories ↔
    ∃ m, t.state.metadataMap[p]? = some m ∧ S_ISDIR m.mode
  removes : ∀ p, Succeeds t.state (.remove p) ↔ t.made p = some .file
  rmdirs : ∀ p, Succeeds t.state (.rmdir p) ↔ t.made p = some .directory ∧
    ∀ dir, t.state.directories[p]? = some dir → dir.subfiles.isEmpty = true
  defined : ∀ io p, ∃ result, t.state.remove io p = .ok result

/-- The request changes no type: attributes keep a directory one and make none, a new
directory brings no other type along, and a new file gets an id that no file has. The write
of a new file does not fail. -/
def KeepsKind (t : Tracked) (r : Status × Request) : Prop :=
  match r.2 with
  | .create path .. => path ∉ t.state.metadataMap →
      r.1.ok = true ∧ t.state.idToPathMap[t.state.nextId path]? = none
  | .mkdir path mode .. => path ∉ t.state.metadataMap → S_ISDIR (mode ||| S_IFDIR)
  | .setattr path info => ∀ m, t.state.metadataMap[path]? = some m →
      (S_ISDIR (FileMetadata.assign m info).mode ↔ S_ISDIR m.mode)
  | _ => True

/-! ## The invariant -/

omit [FsPath] [PathHash] [ThriftSerialize FileMetadata] in
structure Sound (t : Tracked) : Prop where
  consistent : Consistent t.state
  made : t.made = kindAt t.state

section Kinds

variable {ns ns' : Namespace} {path : Str} {m : FileMetadata}

omit [FsPath] [PathHash] [ThriftSerialize FileMetadata] in
theorem kindAt_insert (maps : ns'.metadataMap = ns.metadataMap.insert path m) :
    kindAt ns' = Function.update (kindAt ns) path
      (some (if S_ISDIR m.mode then .directory else .file)) := by
  funext p
  rw [kindAt, maps, getElem?_insert, Function.update_apply]
  grind [kindAt]

omit [FsPath] [PathHash] [ThriftSerialize FileMetadata] in
theorem kindAt_erase (maps : ns'.metadataMap = ns.metadataMap.erase path) :
    kindAt ns' = Function.update (kindAt ns) path none := by
  funext p
  rw [kindAt, maps, getElem?_erase, Function.update_apply]
  grind [kindAt]

omit [FsPath] [PathHash] [ThriftSerialize FileMetadata] in
/-- Attributes that keep the type. -/
theorem kindAt_insert_same {m' : FileMetadata}
    (maps : ns'.metadataMap = ns.metadataMap.insert path m')
    (found : ns.metadataMap[path]? = some m) (type : S_ISDIR m'.mode ↔ S_ISDIR m.mode) :
    kindAt ns' = kindAt ns := by
  rw [kindAt_insert maps, Function.update_eq_self_iff, kindAt, found]
  simp only [type, Option.map_some]

end Kinds

theorem Sound.step {t : Tracked} (h : Sound t) {r : Status × Request} (keeps : KeepsKind t r) :
    ∃ t', trackedCall t r = .ok t' ∧ Sound t' := by
  obtain ⟨io, r⟩ := r
  obtain ⟨ns, made⟩ := t
  obtain ⟨consistent, known⟩ := h
  dsimp only at consistent known
  subst known
  have outcome := outcome_of_call consistent io r
  unfold trackedCall
  generalize returns : ns.call io r = result at outcome
  dsimp only
  cases outcome with
  | refused bad => exact ⟨_, rfl, consistent, if_neg (by simp [bad])⟩
  | failed bad => exact ⟨_, rfl, consistent, if_neg (by simp [bad])⟩
  | createFailed bad absent =>
    have ok := (keeps ((not_mem_iff _ _).mpr absent)).1
    cases ok.symm.trans bad
  | @setattrFailed path info m bad found =>
    have type := keeps m found
    have next := consistent.withMetadata found type rfl
    have kinds : kindAt { ns with
        metadataMap := ns.metadataMap.insert path (FileMetadata.assign m info) } = kindAt ns :=
      kindAt_insert_same rfl found type
    exact ⟨_, rfl, ⟨next.ids, next.dirs⟩, (if_neg (by simp [bad])).trans kinds.symm⟩
  | @create path mode uid gid now ok absent =>
    have fresh := (keeps ((not_mem_iff _ _).mpr absent)).2
    have file := not_isDir_regular mode
    have kinds : kindAt (ns.withFile path (newFile (ns.nextId path) mode uid gid now)) =
        Function.update (kindAt ns) path (some .file) := by
      rw [kindAt_insert (withFile_metadataMap _ _ _)]
      exact congrArg (Function.update (kindAt ns) path) (congrArg some (if_neg file))
    exact ⟨_, rfl, consistent.withFile absent file fresh, (if_pos ok).trans kinds.symm⟩
  | @remove path m ok found file =>
    have kinds : kindAt (ns.withoutFile path m.objectId) = Function.update (kindAt ns) path none :=
      kindAt_erase rfl
    exact ⟨_, rfl, consistent.withoutFile found file, kinds.symm⟩
  | @mkdir path mode uid gid now ok absent =>
    have dir := keeps ((not_mem_iff _ _).mpr absent)
    have kinds : kindAt (ns.withDirectory path (newDirectory mode uid gid now)) =
        Function.update (kindAt ns) path (some .directory) := by
      rw [kindAt_insert (withDirectory_metadataMap _ _ _)]
      exact congrArg (Function.update (kindAt ns) path) (congrArg some (if_pos dir))
    exact ⟨_, rfl, consistent.withDirectory absent dir, kinds.symm⟩
  | @rmdir path dir ok found =>
    have listed := (mem_iff_exists _ _).mpr ⟨dir, found⟩
    have kinds : kindAt (ns.withoutDirectory path) = Function.update (kindAt ns) path none :=
      kindAt_erase rfl
    exact ⟨_, rfl, consistent.withoutDirectory listed, kinds.symm⟩
  | addSubfile ok found =>
    exact ⟨_, rfl, consistent.relist ((mem_iff_exists _ _).mpr ⟨_, found⟩) rfl rfl rfl, rfl⟩
  | removeSubfile ok found =>
    exact ⟨_, rfl, consistent.relist ((mem_iff_exists _ _).mpr ⟨_, found⟩) rfl rfl rfl, rfl⟩
  | @setattr path info m ok found =>
    have type := keeps m found
    have kinds : kindAt (ns.withMetadata path (FileMetadata.assign m info)) = kindAt ns :=
      kindAt_insert_same rfl found type
    exact ⟨_, rfl, consistent.withMetadata found type rfl, (if_pos ok).trans kinds.symm⟩

/-! ## Removing -/

omit [FsPath] [PathHash] [ThriftSerialize FileMetadata] in
theorem kindAt_eq_file_iff {ns : Namespace} {path : Str} : kindAt ns path = some .file ↔
    ∃ m, ns.metadataMap[path]? = some m ∧ ¬ S_ISDIR m.mode := by
  unfold kindAt
  cases ns.metadataMap[path]? <;> simp

omit [FsPath] [PathHash] [ThriftSerialize FileMetadata] in
theorem kindAt_eq_directory_iff {ns : Namespace} {path : Str} :
    kindAt ns path = some .directory ↔ ∃ m, ns.metadataMap[path]? = some m ∧ S_ISDIR m.mode := by
  unfold kindAt
  cases ns.metadataMap[path]? <;> simp

theorem succeeds_remove_iff {ns : Namespace} (h : Consistent ns) (path : Str) :
    Succeeds ns (.remove path) ↔ kindAt ns path = some .file := by
  rw [kindAt_eq_file_iff]
  constructor
  · rintro ⟨status, ns', returns, ok⟩
    have outcome := outcome_of_call h .OK (.remove path)
    rw [returns] at outcome
    cases outcome with
    | refused bad => cases ok.symm.trans bad
    | failed bad => cases bad
    | remove _ found file => exact ⟨_, found, file⟩
  · rintro ⟨m, found, file⟩
    have mapped : ns.idToPathMap[m.objectId]? = some path := h.ids.mpr ⟨m, found, file, rfl⟩
    refine ⟨.OK, ns.withoutFile path m.objectId, ?_, rfl⟩
    rw [call, remove_file found file, if_pos mapped]
    rfl

theorem succeeds_rmdir_iff {ns : Namespace} (h : Consistent ns) (path : Str) :
    Succeeds ns (.rmdir path) ↔ kindAt ns path = some .directory ∧
      ∀ dir, ns.directories[path]? = some dir → dir.subfiles.isEmpty = true := by
  rw [kindAt_eq_directory_iff, ← h.dirs]
  constructor
  · rintro ⟨status, ns', returns, ok⟩
    have outcome := outcome_of_call h .OK (.rmdir path)
    rw [returns] at outcome
    cases outcome with
    | refused bad => cases ok.symm.trans bad
    | failed bad => cases bad
    | rmdir _ found empty =>
      refine ⟨(mem_iff_exists _ _).mpr ⟨_, found⟩, fun dir found' => ?_⟩
      rw [Option.some.inj (found'.symm.trans found), empty]
  · rintro ⟨listed, empty⟩
    obtain ⟨dir, found⟩ := (mem_iff_exists _ _).mp listed
    refine ⟨.OK, ns.withoutDirectory path, ?_, rfl⟩
    rw [call, rmdir_empty found (empty dir found)]

theorem remove_defined {ns : Namespace} (h : Consistent ns) (io : Status) (path : Str) :
    ∃ result, ns.remove io path = .ok result := by
  have outcome := outcome_of_call h io (.remove path)
  cases returns : ns.remove io path with
  | ok result => exact ⟨result, rfl⟩
  | error e =>
    rw [call, returns] at outcome
    cases outcome

theorem Sound.kindsAgree {t : Tracked} (h : Sound t) : KindsAgree t where
  types p := h.consistent.dirs
  removes p := by rw [h.made, succeeds_remove_iff h.consistent]
  rmdirs p := by rw [h.made, succeeds_rmdir_iff h.consistent]
  defined := remove_defined h.consistent

/-- A namespace in which nothing was made. -/
def blank (start : ObjectId) : Tracked := ⟨{ nextObjId := start }, fun _ => none⟩

omit [FsPath] [PathHash] [ThriftSerialize FileMetadata] in
theorem sound_blank (start : ObjectId) : Sound (blank start) where
  consistent := .empty start
  made := by
    funext p
    simp [blank, kindAt]

/-- In a run whose requests change no type, whatever becomes of their writes, every state is
reached without a failed check, and there mode, directories and history agree. -/
theorem kinds_agree (start : ObjectId) (rs : List (Status × Request))
    (keep : Transition.Meets trackedCall KeepsKind (blank start) rs)
    {done rest : List (Status × Request)} (reached : done ++ rest = rs) :
    ∃ t, Transition.run trackedCall (blank start) done = .ok t ∧ KindsAgree t := by
  have first : Transition.Meets trackedCall KeepsKind (blank start) done := by
    rw [← reached] at keep
    exact keep.of_append
  have keeps : ∀ before t r after, before ++ r :: after = done → Sound t → KeepsKind t r →
      ∃ t', trackedCall t r = .ok t' ∧ Sound t' := fun _ _ _ _ _ sound cond => sound.step cond
  obtain ⟨t, reaches, sound⟩ :=
    Transition.run_invariant keeps (List.nil_append done) (sound_blank start) first
  exact ⟨t, reaches, sound.kindsAgree⟩

end Tracking

section Example

attribute [local instance] Posix.fsPath Md5.pathHash BinaryProtocol.fileMetadataThrift

/-- A directory, with new permissions. -/
def chmodDirectory (mode : BitVec 64) : List (Status × Request) :=
  [(.OK, .mkdir "/d".toList 0o755 0 0 0), (.OK, .setattr "/d".toList { mode := some mode })]

theorem kinds_agree_after_chmod : ∃ t,
    Transition.run trackedCall (blank 5) (chmodDirectory 0o040700) = .ok t ∧ KindsAgree t := by
  have keep : Transition.Meets trackedCall KeepsKind (blank 5) (chmodDirectory 0o040700) :=
    ⟨fun _ => by decide, fun t returns => ⟨fun m found => by
      cases returns
      have made : newDirectory 0o755 0 0 0 = m := by simpa using found
      subst made
      decide, fun _ _ => trivial⟩⟩
  exact kinds_agree 5 _ keep (List.append_nil _)

/-- The plain permission bits make the directory a file, which no request can remove. -/
theorem not_kinds_agree_after_chmod : ∃ t,
    Transition.run trackedCall (blank 5) (chmodDirectory 0o700) = .ok t ∧
      (t.state.remove .OK "/d".toList).map (·.1) =
        .error (.check "The object ID and path pair dose not exist") ∧ ¬ KindsAgree t := by
  have outcome : (Transition.run trackedCall (blank 5) (chmodDirectory 0o700)).toOption.map
      (fun t => ((t.state.remove .OK "/d".toList).map (·.1))) =
      some (.error (.check "The object ID and path pair dose not exist")) := by decide +kernel
  cases reached : Transition.run trackedCall (blank 5) (chmodDirectory 0o700) with
  | error e =>
    rw [reached] at outcome
    cases outcome
  | ok t =>
    rw [reached] at outcome
    have aborts : (t.state.remove .OK "/d".toList).map (·.1) =
        .error (.check "The object ID and path pair dose not exist") := Option.some.inj outcome
    refine ⟨t, rfl, aborts, fun agree => ?_⟩
    obtain ⟨result, returns⟩ := agree.defined .OK "/d".toList
    rw [returns] at aborts
    cases aborts

end Example

end Vsfs.Masterd.Namespace

import Vsfs.Client.Calls
import Vsfs.Fuse.Lifetimes

/-!
# What a request has come to

The invariant of the masters and the storage goes with what each request has come to. Here are the
rules for the calls of a request and for the client under it, while RPCs get lost and the storage
fails.
-/

namespace Vsfs.Fuse.Paths

open Std Program Prog FileTree Client Masterd Indexd Index Lifetimes Function StorageManager
  VSFSRpcClient

/-- An exception has a type other than `UNKNOWN`, which is zero. -/
def Delivery.Coded : Delivery → Prop
  | .answered => True
  | .unanswered type _ => type ≠ 0
  | .undelivered type _ => type ≠ 0

instance : DecidablePred Delivery.Coded
  | .answered => inferInstanceAs (Decidable True)
  | .unanswered type _ => inferInstanceAs (Decidable (type ≠ 0))
  | .undelivered type _ => inferInstanceAs (Decidable (type ≠ 0))

def Request.unlinks : Request → Bool
  | .unlink _ => true
  | _ => false

/-- The file that the call has a master make. -/
def Call.makes : {β : Type} → Call β → Option (NodeAddress × Str)
  | _, .rpc (.master a (.create path _ _ _)) => some (a, path)
  | _, _ => none

/-- The call has a master remove a file. -/
def Call.removes : {β : Type} → Call β → Bool
  | _, .rpc (.master _ (.remove _)) => true
  | _, _ => false

section Environment

variable {K : Type} [LinearOrder K] [FsPath] [PathHash] (setup : Setup) (strict : Prop)

/-- What the environment keeps to: a file is made at the master that the first bits of the hash of
its path lead to, which has not been all around with its counter. With `strict`, no RPC gets lost
and no creation is rolled back. -/
def Fair (β : Type) (job : Job) (input : Input) (call : Call β) (s : Site K) : Prop :=
  input.delivery.Coded ∧
    (strict → input.delivery = .answered ∧ (call.removes = true → job.2.unlinks)) ∧
    ∀ file ∈ call.makes, setup.home (hashPart (PathHash.pathToHash file.2)) = file.1 ∧
      s.given setup file.1 < 2 ^ 48

instance [Decidable strict] (β : Type) (job : Job) (input : Input) (call : Call β) (s : Site K) :
    Decidable (Fair setup strict β job input call s) := inferInstanceAs (Decidable (_ ∧ _ ∧ _))

/-- A server has crashed. -/
def Halt.IsCrash : Halt → Prop
  | .crash _ => True
  | .follows _ => False

/-- A call after which the job has come to nothing else. -/
def Looks (job : Job) (β : Type) (call : Call β) : Prop :=
  match call with
  | .rpc (.master _ (.remove _)) => ¬ job.2.unlinks
  | .rpc _ => True
  | .storage request => request.Looks

def oversight : Oversight Call Job Input Halt (Stage ObjectId Entry) (Site K) where
  idle := .idle
  inv := Holds setup strict
  fair := Fair setup strict
  thrown h := ∀ o, h ≠ .removing o
  down := Halt.IsCrash

instance [Decidable strict] (β : Type) (job : Job) (input : Input) (call : Call β) (s : Site K) :
    Decidable ((oversight setup strict).fair β job input call s) :=
  inferInstanceAs (Decidable (Fair setup strict β job input call s))

end Environment

/-! ## Calls -/

section Calls

variable {K : Type} [LinearOrder K] [KeyTypes K] [FsPath] [PathHash] [ThriftSerialize FileMetadata]
  [ThriftSerialize IndexNamespaceNode] {setup : Setup} {strict : Prop}

/-- A job that has come to `h` keeps the invariant, and ends with a result and with what meets
`post`. -/
abbrev Upholds (K : Type) [LinearOrder K] [KeyTypes K] (setup : Setup) (strict : Prop) (i : Nat)
    (job : Job) {α : Type} (p : MountM α) (h : Stage ObjectId Entry)
    (post : α → Stage ObjectId Entry → Prop) : Prop :=
  (oversight (K := K) setup strict).Upholds (Site.serve setup.storage setup.cwd) i job p h post

variable {i : Nat} {job : Job} {s s' : Site K} {own : Nat → Stage ObjectId Entry} {input : Input}

/-- An RPC that got lost, or one that was executed. -/
theorem serve_rpc {β : Type} {request : Rpc β} {answer : Except RpcError β}
    (h : Site.serve setup.storage setup.cwd β input (.rpc request) s = .ok (answer, s'))
    (coded : input.delivery.Coded) :
    (s' = s ∧ ∃ e, answer = .error e ∧ e.status.ok = false) ∨
      ∃ told, s.rpc input request = .ok (told, s') ∧
        (answer = told.mapError .invalidOp ∨
          input.delivery ≠ .answered ∧ ∃ e, answer = .error e ∧ e.status.ok = false) := by
  have failed {type : Int} {what : String} (coded : type ≠ 0) :
      (RpcError.transport type what).status.ok = false := by
    simpa [RpcError.status, Status.ok] using coded
  have executed {g : Except RpcInvalidOp β × Site K → Except RpcError β × Site K}
      (h : (s.rpc input request).map g = .ok (answer, s')) :
      ∃ told s₁, s.rpc input request = .ok (told, s₁) ∧ g (told, s₁) = (answer, s') := by
    cases out : s.rpc input request with
    | error halt =>
      rw [out] at h
      cases h
    | ok r =>
      rw [out] at h
      exact ⟨r.1, r.2, rfl, Except.ok.inj h⟩
  unfold Site.serve at h
  cases delivery : input.delivery with
  | answered =>
    simp only [delivery] at h
    obtain ⟨told, s₁, out, same⟩ := executed h
    cases same
    exact .inr ⟨told, out, .inl rfl⟩
  | unanswered type what =>
    rw [delivery] at coded
    simp only [delivery] at h
    obtain ⟨told, s₁, out, same⟩ := executed h
    cases same
    exact .inr ⟨told, out, .inr ⟨by simp, _, rfl, failed coded⟩⟩
  | undelivered type what =>
    rw [delivery] at coded
    simp only [delivery] at h
    cases h
    exact .inl ⟨rfl, _, rfl, failed coded⟩

/-- Only a crash of a server takes an RPC down. -/
theorem down_rpc {β : Type} {request : Rpc β} {halt : Halt}
    (h : Site.serve setup.storage setup.cwd β input (.rpc request) s = .error halt) :
    halt.IsCrash := by
  have crashed {α : Type} {g : Except RpcInvalidOp β × Site K → α}
      (h : (s.rpc input request).map g = .error halt) : halt.IsCrash := by
    unfold Site.rpc at h
    split at h
    · cases h
      trivial
    · cases h
  unfold Site.serve at h
  cases delivery : input.delivery with
  | answered =>
    simp only [delivery] at h
    exact crashed h
  | unanswered type what =>
    simp only [delivery] at h
    exact crashed h
  | undelivered type what =>
    simp only [delivery] at h
    cases h

/-- A look at the storage is answered, also behind a link, and makes and removes nothing. -/
theorem serve_looks (s : Site K) (input : Input) {request : StorageRequest}
    (looks : request.Looks) :
    ∃ a files, Site.serve setup.storage setup.cwd _ input (.storage request) s =
        .ok (.ok a, { s with files }) ∧
      files.entries = s.files.entries ∧ files.nextIno = s.files.nextIno := by
  simp only [Site.serve]
  split
  · next a files done =>
    obtain ⟨entries, nextIno⟩ := entries_of_looks _ looks done
    exact ⟨a, files, rfl, entries, nextIno⟩
  · rw [if_pos looks]
    refine ⟨_, _, rfl, ?_⟩
    unfold Followed.files
    split <;> exact ⟨rfl, rfl⟩

theorem refusal_not_ok {β : Type} {request : Rpc β} {ouch : RpcInvalidOp}
    (h : s.rpc input request = .ok (.error ouch, s')) (transfers : Transfers request) :
    (RpcError.invalidOp ouch).status.ok = false := by
  unfold Site.rpc at h
  split at h
  · cases h
  · next answered servers served =>
    cases h
    cases request with
    | index address request => cases transfers
    | master address request =>
      have answers : s.servers.Answers (.master address request) (.error ouch) servers :=
        ⟨_, _, served⟩
      obtain ⟨now, mc, handled, -⟩ := Servers.answers_master answers
      have code := MasterServer.what_of_handle handled
      simpa [RpcError.status, Status.ok] using code

/-- After any other call than those that the job is about. -/
theorem holds_of_looks {β : Type} {call : Call β} {answer : Except RpcError β}
    (looks : Looks job β call) (holds : Holds setup strict s own)
    (fair : Fair setup strict β job input call s)
    (served : Site.serve setup.storage setup.cwd β input call s = .ok (answer, s')) :
    Holds setup strict s' own := by
  obtain ⟨coded, reliable, fresh⟩ := fair
  cases call with
  | storage request =>
    obtain ⟨a, files, done, entries, nextIno⟩ := serve_looks s input looks
    cases done.symm.trans served
    have books : Site.books setup { s with files } = s.books setup := by
      have object : Site.object setup { s with files } = s.object setup := by
        funext o
        rw [Site.object, Site.object, objectAt, objectAt, entries]
      simp only [Site.books, object]
      rfl
    refine ⟨holds.homes, fun o d target inside => ?_, by rw [books]; exact holds.sound,
      by rw [nextIno]; exact holds.apart⟩
    rw [entries]
    exact holds.solid o d target inside
  | rpc request =>
    rcases serve_rpc served coded with ⟨rfl, -⟩ | ⟨told, executed, -⟩
    · exact holds
    · obtain ⟨files, effect⟩ := effect_of_rpc executed
      cases effect with
      | same ids counter refused => exact holds.same files ids counter
      | given id ids counter =>
        obtain ⟨home, few⟩ := fresh _ rfl
        exact holds.given_unheard files id home few ids counter
      | taken mapped ids counter =>
        refine holds.taken_unheard files mapped ids counter fun holds => ?_
        exact looks ((reliable holds).2 rfl)

theorem down_of_looks {β : Type} {call : Call β} {halt : Halt} (looks : Looks job β call)
    (h : Site.serve setup.storage setup.cwd β input call s = .error halt) : halt.IsCrash := by
  cases call with
  | storage request =>
    obtain ⟨a, files, done, -, -⟩ := serve_looks s input looks
    cases done.symm.trans h
  | rpc request => exact down_rpc h

/-- A program that makes none of the calls that its job is about. -/
theorem upholds_looks {α : Type} {p : MountM α} {h : Stage ObjectId Entry}
    (other : ∀ o, h ≠ .removing o) (calls : p.Calls (Looks job)) :
    Upholds K setup strict i job p h fun _ g => g = h :=
  Oversight.upholds_of_calls other (fun _ _ _ _ _ looks _ holds fair =>
    ⟨fun _ => down_of_looks looks, fun _ _ => holds_of_looks looks holds fair⟩) calls

section Rules

variable {α : Type} {post : α → Stage ObjectId Entry → Prop}

theorem upholds_look {β : Type} {call : Call β} {k : Except RpcError β → MountM α}
    {h : Stage ObjectId Entry} (looks : Looks job β call)
    (rest : ∀ answer, Upholds K setup strict i job (k answer) h post) :
    Upholds K setup strict i job (.call call k) h post := by
  intro s own input mine holds fair
  refine ⟨fun _ => down_of_looks looks, fun answer s' served => ?_⟩
  exact ⟨h, (holds_of_looks looks holds fair served).stays mine, rest answer⟩

/-- A file is made at a master. -/
theorem upholds_create {a : NodeAddress} {path : Str} {mode uid gid : BitVec 64}
    {k : Except RpcError ObjectId → MountM α}
    (made : ∀ o, Upholds K setup strict i job (k (.ok o)) (.making o) post)
    (failed : ∀ e, e.status.ok = false → Upholds K setup strict i job (k (.error e)) .idle post) :
    Upholds K setup strict i job
      (.call (.rpc (.master a (.create path mode uid gid))) k) .idle post := by
  intro s own input idle holds fair
  refine ⟨fun _ => down_rpc, fun answer s' served => ?_⟩
  have looks : Looks job _ (.rpc (.master a (.create path mode uid gid))) := trivial
  have kept := (holds_of_looks looks holds fair served).stays idle
  obtain ⟨coded, -, fresh⟩ := fair
  obtain ⟨home, few⟩ := fresh _ rfl
  rcases serve_rpc served coded with ⟨-, e, rfl, bad⟩ | ⟨told, executed, rfl | ⟨-, e, rfl, bad⟩⟩
  · exact ⟨.idle, kept, failed e bad⟩
  · obtain ⟨files, effect⟩ := effect_of_rpc executed
    cases effect with
    | same ids counter refused =>
      obtain ⟨ouch, rfl⟩ := refused trivial
      exact ⟨.idle, kept, failed _ (refusal_not_ok executed trivial)⟩
    | given id ids counter =>
      exact ⟨.making _, holds.given files id home few ids counter idle, made _⟩
  · exact ⟨.idle, kept, failed e bad⟩

/-- The record of a file is removed for a job that unlinks it. -/
theorem upholds_remove {a : NodeAddress} {path : Str} {k : Except RpcError ObjectId → MountM α}
    (taken : ∀ o, Upholds K setup strict i job (k (.ok o)) (.removing o) post)
    (failed : ∀ e, e.status.ok = false → Upholds K setup strict i job (k (.error e)) .idle post) :
    Upholds K setup strict i job (.call (.rpc (.master a (.remove path))) k) .idle post := by
  intro s own input idle holds fair
  refine ⟨fun _ => down_rpc, fun answer s' served => ?_⟩
  obtain ⟨coded, reliable, -⟩ := fair
  rcases serve_rpc served coded with ⟨rfl, e, rfl, bad⟩ | ⟨told, executed, delivered⟩
  · exact ⟨.idle, holds.stays idle, failed e bad⟩
  · obtain ⟨files, effect⟩ := effect_of_rpc executed
    cases effect with
    | same ids counter refused =>
      obtain ⟨ouch, rfl⟩ := refused trivial
      have bad := refusal_not_ok executed trivial
      have kept := (holds.same files ids counter).stays idle
      rcases delivered with rfl | ⟨-, e, rfl, bad⟩
      · exact ⟨.idle, kept, failed _ bad⟩
      · exact ⟨.idle, kept, failed _ bad⟩
    | taken mapped ids counter =>
      rcases delivered with rfl | ⟨lost, e, rfl, bad⟩
      · exact ⟨.removing _, holds.taken files mapped ids counter idle, taken _⟩
      · have lax : ¬ strict := fun holds => lost (reliable holds).1
        exact ⟨.idle, (holds.taken_unheard files mapped ids counter lax).stays idle, failed e bad⟩

/-- The storage carries out a request, after which the job has come to something. -/
theorem upholds_storage {request : StorageRequest} {k : Except RpcError StorageAnswer → MountM α}
    {h : Stage ObjectId Entry}
    (carried : ∀ {s : Site K} {own : Nat → Stage ObjectId Entry} (input : Input), own i = h →
      Holds setup strict s own →
      ∃ r, setup.storage.perform setup.cwd s.files (request, input.fault) = .ok r)
    (done : ∀ {s : Site K} {own : Nat → Stage ObjectId Entry} {input : Input} {a : StorageAnswer}
      {files : Tree FileTree.Path (BitVec 8)}, own i = h → Holds setup strict s own →
      setup.storage.perform setup.cwd s.files (request, input.fault) = .ok (a, files) →
      ∃ g, Holds setup strict { s with files } (update own i g) ∧
        Upholds K setup strict i job (k (.ok a)) g post) :
    Upholds K setup strict i job (.call (.storage request) k) h post := by
  intro s own input mine holds fair
  obtain ⟨⟨a, files⟩, out⟩ := carried input mine holds
  have served : Site.serve setup.storage setup.cwd _ input (.storage request) s =
      .ok (.ok a, { s with files }) := by simp only [Site.serve, out]
  rw [served]
  refine ⟨nofun, ?_⟩
  rintro _ _ ⟨⟩
  exact done mine holds out

variable [JoinsName] {o : ObjectId} {path : Str}

/-- The object is made, or the job has its id still. -/
theorem upholds_openMode {flags mode : BitVec 32} {k : Except RpcError StorageAnswer → MountM α}
    (creat : (flagsOf flags).creat = true)
    (failed : ∀ a : StorageAnswer, a.1.ok = false →
      Upholds K setup strict i job (k (.ok a)) (.making o) post)
    (made : ∀ ino, Upholds K setup strict i job (k (.ok (.OK, .opened (some ino))))
      (.made o (.file ino)) post) :
    Upholds K setup strict i job (.call (.storage (.openMode path o flags mode)) k)
      (.making o) post := by
  have absent {s : Site K} {own : Nat → Stage ObjectId Entry} (mine : own i = .making o)
      (holds : Holds setup strict s own) : s.object setup o = none := by
    have fits := holds.sound.fits i
    rw [mine] at fits
    exact fits.2
  refine upholds_storage
    (fun _ mine holds => openMode_served _ (holds.solid o) (absent mine holds))
    fun {s own input a files} mine holds done => ?_
  rcases openMode_new _ creat (absent mine holds) done with ⟨bad, rfl⟩ | ⟨rfl, made'⟩
  · exact ⟨.making o, holds.stays mine, failed a bad⟩
  · refine ⟨_, holds.make mine (by rw [made']; rfl) ?_, made _⟩
    rw [made']
    exact holds.apart.made

/-- The link is made, or the job has the id still. -/
theorem upholds_symlink {fpath : Str} {k : Except RpcError StorageAnswer → MountM α}
    (failed : ∀ a : StorageAnswer, a.1.ok = false →
      Upholds K setup strict i job (k (.ok a)) (.making o) post)
    (made : ∀ a : StorageAnswer, a.1 = .OK →
      Upholds K setup strict i job (k (.ok a)) (.made o (.link fpath)) post) :
    Upholds K setup strict i job (.call (.storage (.symlink fpath path o)) k)
      (.making o) post := by
  refine upholds_storage (fun _ _ holds => symlink_served _ (holds.solid o))
    fun {s own input a files} mine holds done => ?_
  rcases symlink_object _ done with ⟨bad, rfl⟩ | ⟨ok, -, made'⟩
  · exact ⟨.making o, holds.stays mine, failed a bad⟩
  · refine ⟨_, holds.make mine (by rw [made']; rfl) ?_, made a ok⟩
    rw [made']
    exact holds.apart.other nofun

/-- The object is erased, or the job has begun to remove it still. -/
theorem upholds_unlink {k : Except RpcError StorageAnswer → MountM α}
    (failed : ∀ a : StorageAnswer, a.1.ok = false →
      Upholds K setup strict i job (k (.ok a)) (.removing o) post)
    (erased : ∀ a : StorageAnswer, a.1 = .OK →
      Upholds K setup strict i job (k (.ok a)) (.gone o) post) :
    Upholds K setup strict i job (.call (.storage (.unlink path o)) k) (.removing o) post := by
  refine upholds_storage (fun _ _ holds => unlink_served _ (holds.solid o))
    fun {s own input a files} mine holds done => ?_
  rcases unlink_object _ done with ⟨bad, rfl⟩ | ⟨ok, there, dropped⟩
  · exact ⟨.removing o, holds.stays mine, failed a bad⟩
  · exact ⟨_, holds.erase mine there (by rw [dropped]; rfl) (by rw [dropped]; rfl), erased a ok⟩

end Rules

/-! ## The client -/

/-- An id was made known to the job, if the status says so. -/
def Making (out : Status × Option ObjectId) (h : Stage ObjectId Entry) : Prop :=
  (∀ o, h ≠ .removing o) ∧ (out.1.ok = true → ∃ o, out.2 = some o ∧ h = .making o)

omit [FsPath] [PathHash] [ThriftSerialize FileMetadata] [ThriftSerialize IndexNamespaceNode] in
theorem client_bind {α β : Type} (p : ClientM α) (f : α → ClientM β) :
    client (p.bind f) = (client p).bind fun a => client (f a) := mapCalls_bind _ p f

/-- An RPC of a client that is none of those that the job is about. -/
def LooksRpc (job : Job) (β : Type) (request : Rpc β) : Prop := Looks job β (.rpc request)

omit [FsPath] [PathHash] [ThriftSerialize FileMetadata] [ThriftSerialize IndexNamespaceNode] in
theorem client_calls {α : Type} {p : ClientM α} (calls : p.Calls (LooksRpc job)) :
    (client p).Calls (Looks job) :=
  Calls.mapCalls (f := fun {β} => (Call.rpc : Rpc β → Call β)) (fun _ _ looks => looks) calls

theorem client_createLoop (a : NodeAddress) (path : Str) (mode uid gid : BitVec 64) :
    Upholds K setup strict i job (client (createLoop a path mode uid gid)) .idle Making := by
  have lost {st : Status} (bad : st.ok = false) : Making (st, none) .idle :=
    ⟨fun _ => by simp, fun ok => by rw [bad] at ok; cases ok⟩
  refine ⟨fun x h => h = .idle ∧ (x.1 = 0 → x.2.ok = false), ⟨rfl, by decide⟩, ?_⟩
  rintro ⟨backoff, status⟩ h ⟨rfl, last⟩
  dsimp only at last
  by_cases zero : backoff = 0
  · simp only [createTurn, zero, if_true]
    exact lost (last zero)
  · simp only [createTurn, zero, if_false]
    refine upholds_create (fun o => ?_) fun e bad => ?_
    · exact ⟨fun _ => by simp, fun _ => ⟨o, rfl, rfl⟩⟩
    · exact ⟨rfl, fun _ => bad⟩

variable [ConsistentHashMap] {c : VSFSRpcClient} {path : Str} {mode uid gid : BitVec 64}

theorem client_create (other : ¬ job.2.unlinks) :
    Upholds K setup strict i job (client (c.create path mode uid gid)) .idle Making := by
  unfold VSFSRpcClient.create
  split
  · exact ⟨nofun, nofun⟩
  split
  · next status absent =>
    refine ⟨nofun, fun ok => ?_⟩
    unfold ServerMap.get at absent
    split at absent
    · cases absent
      cases ok
    · cases absent
  · next node home =>
    dsimp only
    rw [bind_eq, client_bind]
    refine Oversight.Upholds.bind (client_createLoop _ _ _ _ _) ?_
    rintro ⟨status, oid⟩ h ⟨kept, known⟩
    dsimp only at known ⊢
    cases ok : status.ok with
    | false =>
      refine ⟨kept, fun good => ?_⟩
      rw [ok] at good
      cases good
    | true =>
      obtain ⟨o, rfl, rfl⟩ := known ok
      have done (st : Status) : Making (st, some o) (.making o) := ⟨nofun, fun _ => ⟨o, rfl, rfl⟩⟩
      have lists : (c.addSubfile path).Calls (LooksRpc job) := addSubfile_calls fun _ _ _ => trivial
      simp only [Bool.not_true, Bool.false_eq_true, if_false]
      rw [bind_eq, client_bind]
      refine Oversight.Upholds.bind (upholds_looks nofun (client_calls lists)) ?_
      rintro status' h rfl
      cases ok' : status'.ok with
      | true => exact done .OK
      | false =>
        simp only [Bool.not_false, if_true]
        refine upholds_look other fun answer => ?_
        cases answer with
        | ok _ => exact done .OK
        | error e => exact done e.status

/-- The id that was taken back was made known to the job, if the status says so. -/
def Removing (out : Status × Option ObjectId) (h : Stage ObjectId Entry) : Prop :=
  if out.1.ok then ∃ o, out.2 = some o ∧ h = .removing o else h = .idle

theorem client_unlink : Upholds K setup strict i job (client (c.unlink path)) .idle Removing := by
  have idle {st : Status} (bad : st.ok = false) : Removing (st, none) .idle := by
    simp [Removing, bad]
  unfold VSFSRpcClient.unlink
  rw [bind_eq, client_bind]
  have unlists : (c.removeSubfile path).Calls (LooksRpc job) :=
    removeSubfile_calls fun _ _ _ => trivial
  refine Oversight.Upholds.bind (upholds_looks nofun (client_calls unlists)) ?_
  rintro status h rfl
  cases ok : status.ok with
  | false => exact idle ok
  | true =>
    simp only [Bool.not_true, Bool.false_eq_true, if_false]
    rw [bind_eq, client_bind]
    refine Oversight.Upholds.bind (upholds_looks nofun (client_calls (checkGet_calls _ _))) ?_
    rintro node h rfl
    refine upholds_remove (fun o => ?_) fun e bad => idle bad
    exact ⟨o, rfl, rfl⟩

end Calls

end Vsfs.Fuse.Paths

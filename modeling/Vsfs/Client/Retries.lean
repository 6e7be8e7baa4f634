import Vsfs.Client.Servers
import Vsfs.Common.Md5

/-!
# The retry loops

`add_subfile`, `remove_subfile` and `create` repeat a call until it is served. The number of
attempts left counts down on some of the failures only, and the status of the last failure is
never taken back.
-/

namespace Vsfs.Client

open Program Prog Masterd

/-- How the attempts of a loop end, one after the other: `none` for a success. -/
abbrev Outcomes := Nat → Option RpcError

/-- An environment that answers by the outcomes, and counts the attempts. -/
def Scripted (outcomes : Outcomes) : Exec Rpc RpcError Nat := fun β _ n b n' =>
  n' = n + 1 ∧ match outcomes n with
    | none => ∃ a : β, b = .ok a
    | some e => b = .error e

/-- The program ends after at most `kNumBackOffs` attempts, and its status is a success exactly
when the last attempt was one. -/
def ReportsLast (outcomes : Outcomes) {α : Type} (status : α → Status) (p : ClientM α) : Prop :=
  Ends (Scripted outcomes) (fun r n => ∃ a, r = .ok a ∧ 0 < n ∧ n ≤ kNumBackOffs ∧
    ((status a).ok = true ↔ outcomes (n - 1) = none)) p 0

/-- When a loop reports its last attempt: the first attempt succeeds, or the first success
comes right behind an exception with the code zero, or the first three attempts fail, each of
them is counted, and the code of the third is not zero. -/
def Reportable (counts : RpcError → Bool) (outcomes : Outcomes) : Prop :=
  outcomes 0 = none ∨
  (∃ e, outcomes 0 = some e ∧ outcomes 1 = none ∧ e.status.ok = true) ∨
  (∃ e₀ e₁, outcomes 0 = some e₀ ∧ outcomes 1 = some e₁ ∧ outcomes 2 = none ∧
    e₁.status.ok = true) ∨
  ∃ e₀ e₁ e₂, outcomes 0 = some e₀ ∧ outcomes 1 = some e₁ ∧ outcomes 2 = some e₂ ∧
    counts e₀ = true ∧ counts e₁ = true ∧ counts e₂ = true ∧ e₂.status.ok = false

theorem nonempty_of_rpc {β : Type} (e : Rpc β) : Nonempty β := by
  cases e with
  | master address request => cases request <;> first | exact ⟨default⟩ | exact ⟨{}⟩
  | index address request => cases request <;> first | exact ⟨default⟩ | exact ⟨⟨[], [], 0, 0, 0⟩⟩

theorem scripted_answers (outcomes : Outcomes) (β : Type) (e : Rpc β) (n : Nat) :
    ∃ b n', Scripted outcomes β e n b n' := by
  unfold Scripted
  cases outcomes n with
  | none =>
    obtain ⟨a⟩ := nonempty_of_rpc e
    exact ⟨.ok a, n + 1, rfl, a, rfl⟩
  | some failure => exact ⟨.error failure, n + 1, rfl, rfl⟩

/-- No attempt is taken back. -/
theorem le_of_evals {outcomes : Outcomes} {α : Type} {p : ClientM α} {n n' : Nat}
    {r : Except Exit α} (run : Evals (Scripted outcomes) p n r n') : n ≤ n' := by
  induction run with
  | ret => exact le_rfl
  | throw => exact le_rfl
  | call now _ ih =>
    have := now.1
    omega
  | iter _ ih => exact ih

/-! ## A loop with a count -/

/-- The shape the loops share: attempts of `rpc`, as many as are left, where a failure is
counted or is not. -/
structure IsRetry (counts : RpcError → Bool) {β γ : Type} (rpc : Rpc β)
    (turn : Nat × Status → ClientM (Nat × Status ⊕ γ)) (status : γ → Status) : Prop where
  gaveUp : ∀ st, ∃ c, turn (0, st) = .ret (.inr c) ∧ status c = st
  attempt : ∀ left st, ∃ served : β → γ, (∀ a, status (served a) = st) ∧
    turn (left + 1, st) = .call rpc (fun b => match b with
      | .ok a => .ret (.inr (served a))
      | .error e => .ret (.inl (if counts e then left else left + 1, e.status)))

section Retry

variable {counts : RpcError → Bool} {β γ : Type} {rpc : Rpc β}
  {turn : Nat × Status → ClientM (Nat × Status ⊕ γ)} {status : γ → Status}
  {outcomes : Outcomes} {post : Except Exit γ → Nat → Prop}

/-- What a loop is to end in, as a condition on its status and the attempts. -/
abbrev Ended (status : γ → Status) (good : Status → Nat → Prop) : Except Exit γ → Nat → Prop :=
  fun r n => ∃ c, r = .ok c ∧ good (status c) n

variable {good : Status → Nat → Prop}

theorem ended_ok_iff {c : γ} {n : Nat} : Ended status good (.ok c) n ↔ good (status c) n := by
  constructor
  · rintro ⟨_, same, h⟩
    cases same
    exact h
  · exact fun h => ⟨c, rfl, h⟩

theorem IsRetry.ends_zero_iff (retry : IsRetry counts rpc turn status) {st : Status} {n : Nat} :
    Ends (Scripted outcomes) (Ended status good) (.iter turn (0, st) .ret) n ↔ good st n := by
  obtain ⟨c, gaveUp, rfl⟩ := retry.gaveUp st
  rw [ends_iter_iff, gaveUp, ret_bind, again, ends_ret_iff, ended_ok_iff]

theorem IsRetry.ends_served_iff (retry : IsRetry counts rpc turn status) {st : Status}
    {n left : Nat} (served : outcomes n = none) :
    Ends (Scripted outcomes) (Ended status good) (.iter turn (left + 1, st) .ret) n ↔
      good st (n + 1) := by
  obtain ⟨result, same, attempt⟩ := retry.attempt left st
  obtain ⟨a⟩ := nonempty_of_rpc rpc
  rw [ends_iter_iff, attempt, call_bind, ends_call_iff]
  simp only [Scripted, served]
  constructor
  · intro h
    have last := h (.ok a) (n + 1) ⟨rfl, a, rfl⟩
    rwa [ret_bind, again, ends_ret_iff, ended_ok_iff, same] at last
  · rintro h b n' ⟨rfl, a, rfl⟩
    rwa [ret_bind, again, ends_ret_iff, ended_ok_iff, same]

theorem IsRetry.ends_failed_iff (retry : IsRetry counts rpc turn status) {st : Status}
    {n left : Nat} {e : RpcError} (failed : outcomes n = some e) :
    Ends (Scripted outcomes) (Ended status good) (.iter turn (left + 1, st) .ret) n ↔
      Ends (Scripted outcomes) (Ended status good)
        (.iter turn (if counts e then left else left + 1, e.status) .ret) (n + 1) := by
  obtain ⟨result, -, attempt⟩ := retry.attempt left st
  rw [ends_iter_iff, attempt, call_bind, ends_call_iff]
  simp only [Scripted, failed]
  constructor
  · exact fun h => h (.error e) (n + 1) ⟨rfl, rfl⟩
  · rintro h b n' ⟨rfl, rfl⟩
    exact h

/-- A loop with an attempt left makes it. -/
theorem IsRetry.not_ends (retry : IsRetry counts rpc turn status) {st : Status} {n left : Nat}
    (late : ∀ st n', n < n' → ¬ good st n') :
    ¬ Ends (Scripted outcomes) (Ended status good) (.iter turn (left + 1, st) .ret) n := by
  intro total
  obtain ⟨r, n', run⟩ := total.exists_evals (scripted_answers outcomes)
  obtain ⟨c, -, ended⟩ := total.sound run
  obtain ⟨result, -, attempt⟩ := retry.attempt left st
  cases run with
  | iter run =>
    rw [attempt, call_bind] at run
    cases run with
    | call now rest =>
      have := now.1
      have := le_of_evals rest
      exact late (status c) n' (by omega) ended

/-- A loop of three attempts. -/
theorem IsRetry.reportsLast_iff (retry : IsRetry counts rpc turn status) :
    ReportsLast outcomes status (.loop turn (kNumBackOffs, .OK)) ↔ Reportable counts outcomes := by
  let good : Status → Nat → Prop := fun st n =>
    0 < n ∧ n ≤ kNumBackOffs ∧ (st.ok = true ↔ outcomes (n - 1) = none)
  change Ends (Scripted outcomes) (Ended status good) (.iter turn (2 + 1, .OK) .ret) 0 ↔ _
  have late : ∀ st n, 3 < n → ¬ good st n := fun st n hn h => absurd h.2.1 (Nat.not_le.mpr hn)
  cases first : outcomes 0 with
  | none =>
    rw [retry.ends_served_iff first]
    simp [good, Reportable, first, kNumBackOffs]
  | some e₀ =>
    rw [retry.ends_failed_iff first]
    obtain ⟨left₁, more₁, all₁⟩ : ∃ left, (if counts e₀ then 2 else 2 + 1) = left + 1 ∧
        (0 < left ∧ (left = 1 ↔ counts e₀ = true)) := by
      cases counts e₀
      · exact ⟨2, rfl, by simp⟩
      · exact ⟨1, rfl, by simp⟩
    rw [more₁]
    cases second : outcomes 1 with
    | none =>
      rw [retry.ends_served_iff second]
      simp [good, Reportable, first, second, kNumBackOffs]
    | some e₁ =>
      rw [retry.ends_failed_iff second]
      obtain ⟨left₂, more₂, all₂⟩ : ∃ left, (if counts e₁ then left₁ else left₁ + 1) = left + 1 ∧
          (left = 0 ↔ counts e₀ = true ∧ counts e₁ = true) := by
        cases counts e₁
        · exact ⟨left₁, rfl, by simp; omega⟩
        · refine ⟨left₁ - 1, by simp; omega, ?_⟩
          rw [← all₁.2]
          simp
          omega
      rw [more₂]
      cases third : outcomes 2 with
      | none =>
        rw [retry.ends_served_iff third]
        simp [good, Reportable, first, second, third, kNumBackOffs]
      | some e₂ =>
        rw [retry.ends_failed_iff third]
        have all₃ : (if counts e₂ then left₂ else left₂ + 1) = 0 ↔
            counts e₀ = true ∧ counts e₁ = true ∧ counts e₂ = true := by
          rw [← and_assoc, ← all₂]
          cases counts e₂ <;> simp
        by_cases last : (if counts e₂ then left₂ else left₂ + 1) = 0
        · rw [last, retry.ends_zero_iff]
          simp [good, Reportable, first, second, third, kNumBackOffs, all₃.mp last]
        · obtain ⟨left₃, more₃⟩ := Nat.exists_eq_succ_of_ne_zero last
          rw [more₃]
          rw [all₃] at last
          refine iff_of_false (retry.not_ends late) ?_
          simpa [Reportable, first, second, third] using fun c₀ c₁ c₂ => absurd ⟨c₀, c₁, c₂⟩ last

end Retry

namespace VSFSRpcClient

/-- Only a transport exception counts. -/
def countsTransport : RpcError → Bool
  | .invalidOp _ => false
  | .transport _ _ => true

theorem isRetry_subfileTurn (address : NodeAddress) (request : MasterRpc Unit) :
    IsRetry countsTransport (.master address request) (subfileTurn address request) id where
  gaveUp st := ⟨st, rfl, rfl⟩
  attempt left st := by
    refine ⟨fun _ => st, fun _ => rfl, ?_⟩
    simp only [subfileTurn, if_neg (Nat.succ_ne_zero left), bind_eq, perform_bind]
    congr 1
    funext b
    rcases b with (ouch | type) | _ <;> rfl

theorem isRetry_createTurn (address : NodeAddress) (path : Str) (mode uid gid : BitVec 64) :
    IsRetry (fun _ => true) (.master address (.create path mode uid gid))
      (createTurn address path mode uid gid) Prod.fst where
  gaveUp st := ⟨(st, none), rfl, rfl⟩
  attempt left st := by
    refine ⟨fun oid => (st, some oid), fun _ => rfl, ?_⟩
    simp only [createTurn, if_neg (Nat.succ_ne_zero left), bind_eq, perform_bind]
    congr 1
    funext b
    rcases b with _ | _ <;> rfl

section

variable [FsPath] [PathHash] [ConsistentHashMap]

theorem addSubfile_eq (c : VSFSRpcClient) {path : Str} (deep : path ≠ ['/']) {node : NodeInfo}
    (home : (c.masterMap.get (PathHash.pathToHash (FsPath.parentPath path))).2 = some node) :
    c.addSubfile path = subfileLoop node.address
      (.addSubfile (FsPath.parentPath path) (FsPath.filename path)) := by
  rw [addSubfile, if_neg deep]
  simp only [checkGet_some home, bind_eq, ret_bind]

theorem removeSubfile_eq (c : VSFSRpcClient) {path : Str} (deep : path ≠ ['/']) {node : NodeInfo}
    (home : (c.masterMap.get (PathHash.pathToHash (FsPath.parentPath path))).2 = some node) :
    c.removeSubfile path = subfileLoop node.address
      (.removeSubfile (FsPath.parentPath path) (FsPath.filename path)) := by
  rw [removeSubfile, if_neg deep]
  simp only [checkGet_some home, bind_eq, ret_bind]

/-- Each of the three loops reports its last attempt under its condition on the first three
outcomes, and otherwise makes a fourth attempt, or reports another one. -/
theorem retries_reportLast_iff (c : VSFSRpcClient) {path : Str} (deep : path ≠ ['/'])
    {node : NodeInfo}
    (home : (c.masterMap.get (PathHash.pathToHash (FsPath.parentPath path))).2 = some node)
    (address : NodeAddress) (mode uid gid : BitVec 64) (outcomes : Outcomes) :
    (ReportsLast outcomes id (c.addSubfile path) ↔ Reportable countsTransport outcomes) ∧
    (ReportsLast outcomes id (c.removeSubfile path) ↔ Reportable countsTransport outcomes) ∧
    (ReportsLast outcomes Prod.fst (createLoop address path mode uid gid) ↔
      Reportable (fun _ => true) outcomes) := by
  refine ⟨?_, ?_, (isRetry_createTurn address path mode uid gid).reportsLast_iff⟩
  · rw [c.addSubfile_eq deep home]
    exact (isRetry_subfileTurn node.address _).reportsLast_iff
  · rw [c.removeSubfile_eq deep home]
    exact (isRetry_subfileTurn node.address _).reportsLast_iff

end

section Examples

attribute [local instance] SortedRing.consistentHashMap Posix.fsPath Md5.pathHash

/-- The master cannot be reached. -/
def unreachable : Outcomes := fun _ => some (.transport 1 "Connection refused")

theorem addSubfile_unreachable : ReportsLast unreachable id (oneServer.addSubfile "/a".toList) := by
  have home : (oneServer.masterMap.get (PathHash.pathToHash (FsPath.parentPath "/a".toList))).2 =
      some { address := ⟨"m".toList, 1⟩ } := by decide +kernel
  have deep : "/a".toList ≠ ['/'] := by decide
  refine (retries_reportLast_iff oneServer deep home ⟨[], 0⟩ 0 0 0 unreachable).1.mpr ?_
  exact .inr (.inr (.inr ⟨_, _, _, rfl, rfl, rfl, rfl, rfl, rfl, rfl⟩))

/-- The connection is lost once. -/
def lostOnce : Outcomes
  | 0 => some (.transport 1 "Connection refused")
  | _ => none

/-- The second attempt is served, and the loop reports the first one. -/
theorem addSubfile_lostOnce :
    ¬ ReportsLast lostOnce id (oneServer.addSubfile "/a".toList) := by
  have home : (oneServer.masterMap.get (PathHash.pathToHash (FsPath.parentPath "/a".toList))).2 =
      some { address := ⟨"m".toList, 1⟩ } := by decide +kernel
  have deep : "/a".toList ≠ ['/'] := by decide
  rw [addSubfile_eq oneServer deep home, subfileLoop,
    (isRetry_subfileTurn _ _).reportsLast_iff]
  simp [Reportable, lostOnce, RpcError.status, Status.ok]

end Examples

end VSFSRpcClient

end Vsfs.Client

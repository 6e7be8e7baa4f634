import Vsfs.Client.Update
import Vsfs.Lib.Futures

/-!
# What an update reports

`VSFSRpcClient::update` hands its tasks to the pool and then asks the futures of the tasks one
after the other. The result of a future can be taken once, but the status of a failed task is
taken a second time to be returned.

## Main results

- `update_reports_iff`: `update` reports the outcome of its tasks when all of them succeed.
-/

namespace Vsfs.Client

open Program Prog

/-- Programs over the pool of threads, which runs tasks that return a status or throw. -/
abbrev PoolM :=
  Prog (FutureCall (List IndexUpdateRequest) Status) (FutureError Exit) (FutureError Exit)

namespace VSFSRpcClient

/-! ## The loops -/

/-- The variables of `update`: the tasks, of which `last` is to be filled, and the futures. -/
structure Batches where
  earlier : List (List IndexUpdateRequest) := []
  last : List IndexUpdateRequest := []
  futures : List Nat := []

/-- `thread_pool_.add_task(…)` -/
def addTask (task : List IndexUpdateRequest) : PoolM Nat := do
  match ← Prog.perform (.submit task) with
  | .ok future => return future
  | .error e => .throw e

/-- `future.get()` -/
def get (future : Nat) : PoolM Status := do
  match ← Prog.perform (.get future) with
  | .ok status => return status
  | .error e => .throw e

/-- One turn of the loop over the requests. -/
def updateTurn (batchSize : Nat) (batches : Batches) (request : IndexUpdateRequest) :
    PoolM Batches := do
  let last := batches.last ++ [request]
  if batchSize < last.length then
    let future ← addTask last
    return ⟨batches.earlier ++ [last], [], batches.futures ++ [future]⟩
  else return { batches with last }

/-- The loop over the futures. The failed one is asked twice. -/
def awaitAll : List Nat → PoolM Status
  | [] => .ret .OK
  | future :: futures => do
    let status ← get future
    if !status.ok then get future else awaitAll futures

/-- The number of tasks in the pool is never counted, and so the last task always goes there. -/
def update (batchSize : Nat) (requests : List IndexUpdateRequest) : PoolM Status := do
  let batches ← requests.foldlM (updateTurn batchSize) {}
  let tasksInPool := 0
  let tasks := batches.earlier ++ [batches.last]
  let futures ←
    if tasksInPool < tasks.length then do
      let future ← addTask batches.last
      pure (batches.futures ++ [future])
    else pure batches.futures
  awaitAll futures

/-! ## Submission -/

variable {batchSize : Nat} {outcome : Nat → Except Exit Status}
  {post : Except (FutureError Exit) Status → Futures (List IndexUpdateRequest) → Prop}

/-- After the requests in `done`, the tasks before the last one are in the pool. -/
structure Submits (batchSize : Nat) (done : List IndexUpdateRequest) (batches : Batches)
    (s : Futures (List IndexUpdateRequest)) : Prop where
  cut : (batches.earlier, batches.last) = done.foldl (addRequest batchSize) ([], [])
  futures : batches.futures = List.range s.submitted.length
  submitted : s.submitted = batches.earlier
  taken : s.taken = []

theorem updateTurn_submits {done : List IndexUpdateRequest} {batches : Batches}
    {s : Futures (List IndexUpdateRequest)} (now : Submits batchSize done batches s)
    (request : IndexUpdateRequest) :
    Ends (Serves outcome) (fun r s' => ∃ batches', r = .ok batches' ∧
      Submits batchSize (done ++ [request]) batches' s')
      (updateTurn batchSize batches request) s := by
  obtain ⟨cut, futures, submitted, taken⟩ := now
  have next : (done ++ [request]).foldl (addRequest batchSize) ([], []) =
      addRequest batchSize (batches.earlier, batches.last) request := by
    rw [List.foldl_append, ← cut]
    rfl
  unfold updateTurn
  dsimp only
  split
  · rename_i full
    refine ends_submit fun s' submitted' taken' => .ret ⟨_, rfl, ?_, ?_, ?_, ?_⟩
    · rw [next, addRequest]
      simp only [full, if_true]
    · rw [futures, submitted', List.length_append, List.length_singleton, List.range_succ]
    · rw [submitted', submitted]
    · rw [taken', taken]
  · rename_i short
    refine .ret ⟨_, rfl, ?_, futures, submitted, taken⟩
    rw [next, addRequest]
    simp only [short, if_false]

/-- Every task is submitted once, in the order of the requests. -/
theorem update_ends {requests : List IndexUpdateRequest}
    (wait : ∀ s : Futures (List IndexUpdateRequest), s.submitted = tasksOf batchSize requests →
      s.taken = [] → Ends (Serves outcome) post (awaitAll (List.range s.submitted.length)) s) :
    Ends (Serves outcome) post (update batchSize requests) {} := by
  have start : Submits batchSize [] {} {} := ⟨rfl, rfl, rfl, rfl⟩
  refine .bind (Ends.foldlM (fun done request rest batches s split now => ?_) ?_
    (List.nil_append requests) start)
  · refine (updateTurn_submits now request).imp fun r s' next => ?_
    obtain ⟨batches', rfl, next⟩ := next
    exact next
  intro batches s now
  have tasks : tasksOf batchSize requests = batches.earlier ++ [batches.last] := by
    rw [tasksOf, ← now.cut]
  have some : 0 < (batches.earlier ++ [batches.last]).length := by simp
  simp only [Then, some, if_true]
  refine ends_submit fun s' submitted taken => ?_
  have all := wait s' (by rw [submitted, now.submitted, tasks]) (taken.trans now.taken)
  rw [submitted, List.length_append, List.length_singleton, List.range_succ] at all
  rw [now.futures]
  exact all

/-! ## Waiting -/

/-- The task has returned OK. -/
def Succeeded (outcome : Nat → Except Exit Status) (i : Nat) : Prop :=
  ∃ status, outcome i = .ok status ∧ status.ok = true

/-- All futures that succeed are waited for, and the first one that does not ends the loop with an
exception. -/
theorem awaitAll_ends {futures : List Nat} (distinct : futures.Nodup)
    {s : Futures (List IndexUpdateRequest)} (valid : ∀ i ∈ futures, i < s.submitted.length)
    (fresh : ∀ i ∈ futures, i ∉ s.taken) :
    Ends (Serves outcome) (fun r s' => s'.submitted = s.submitted ∧
      ((∀ i ∈ futures, Succeeded outcome i) →
        r = .ok .OK ∧ s.finished ⊆ s'.finished ∧ ∀ i ∈ futures, i ∈ s'.finished) ∧
      ((∃ i ∈ futures, ¬ Succeeded outcome i) → ∃ e, r = .error e)) (awaitAll futures) s := by
  induction futures generalizing s with
  | nil => exact .ret ⟨rfl, fun _ => ⟨rfl, fun _ h => h, by simp⟩, by simp⟩
  | cons i futures ih =>
    obtain ⟨new, distinct⟩ := List.nodup_cons.mp distinct
    refine ends_get (valid i (by simp)) (fresh i (by simp)) fun s' submitted taken kept done => ?_
    have notAll (bad : ¬ Succeeded outcome i) (all : ∀ j ∈ i :: futures, Succeeded outcome j) :
        False := bad (all i (by simp))
    cases result : outcome i with
    | error exit =>
      have bad : ¬ Succeeded outcome i := by
        rintro ⟨status, same, -⟩
        cases result.symm.trans same
      exact .throw ⟨submitted, fun all => (notAll bad all).elim, fun _ => ⟨_, rfl⟩⟩
    | ok status =>
      by_cases ok : status.ok = true
      · have here : Succeeded outcome i := ⟨status, result, ok⟩
        simp only [Except.mapError, pure_eq, ret_bind, ok, Bool.not_true, Bool.false_eq_true,
          if_false]
        refine (ih distinct (fun j hj => ?_) fun j hj => ?_).imp fun r s'' later => ?_
        · rw [submitted]
          exact valid j (by simp [hj])
        · rw [taken]
          simp only [List.mem_cons, not_or]
          exact ⟨fun same => new (same ▸ hj), fresh j (by simp [hj])⟩
        · obtain ⟨submitted', all, some⟩ := later
          refine ⟨submitted'.trans submitted, fun good => ?_, fun bad => ?_⟩
          · obtain ⟨same, kept', finished⟩ := all fun j hj => good j (by simp [hj])
            refine ⟨same, fun j hj => kept' (kept hj), fun j hj => ?_⟩
            rcases List.mem_cons.mp hj with rfl | hj
            · exact kept' done
            · exact finished j hj
          · obtain ⟨j, hj, bad⟩ := bad
            rcases List.mem_cons.mp hj with rfl | hj
            · exact absurd here bad
            · exact some ⟨j, hj, bad⟩
      · have bad : ¬ Succeeded outcome i := by
          rintro ⟨status', same, ok'⟩
          cases result.symm.trans same
          exact ok ok'
        have failed : status.ok = false := by simpa using ok
        simp only [Except.mapError, pure_eq, ret_bind, failed, Bool.not_false, if_true]
        -- The result of the future is gone.
        refine ends_get_again (by simp [taken]) fun s'' submitted' => ?_
        exact .throw ⟨submitted'.trans submitted, fun all => (notAll bad all).elim,
          fun _ => ⟨_, rfl⟩⟩

/-! ## Reports -/

/-- What `update` has to end in when the outcomes of its tasks are `outcome`: all tasks are
submitted and finished, and it returns OK if they all do, and otherwise the status of one that
fails. -/
structure Reported (outcome : Nat → Except Exit Status) (tasks : List (List IndexUpdateRequest))
    (r : Except (FutureError Exit) Status) (s : Futures (List IndexUpdateRequest)) : Prop where
  submitted : s.submitted = tasks
  finished : ∀ i < tasks.length, i ∈ s.finished
  returned : ∃ status, r = .ok status ∧
    (status.ok = true ↔ ∀ i < tasks.length, Succeeded outcome i) ∧
    (status.ok = false → ∃ i < tasks.length, outcome i = .ok status)

/-- The tasks have every request once, and `update` reports them. -/
def Reports (batchSize : Nat) (requests : List IndexUpdateRequest)
    (outcome : Nat → Except Exit Status) : Prop :=
  (tasksOf batchSize requests).flatten = requests ∧
    Ends (Serves outcome) (Reported outcome (tasksOf batchSize requests))
      (update batchSize requests) {}

theorem reports_of_succeeded {requests : List IndexUpdateRequest}
    (all : ∀ i < (tasksOf batchSize requests).length, Succeeded outcome i) :
    Reports batchSize requests outcome := by
  refine ⟨flatten_tasksOf batchSize requests, update_ends fun s submitted taken => ?_⟩
  refine (awaitAll_ends List.nodup_range (by simp) (by simp [taken])).imp fun r s' ended => ?_
  obtain ⟨submitted', good, -⟩ := ended
  rw [← submitted] at all ⊢
  obtain ⟨rfl, -, finished⟩ := good fun i hi => all i (List.mem_range.mp hi)
  refine ⟨submitted', fun i hi => finished i (List.mem_range.mpr hi), .OK, rfl, ?_, by simp⟩
  exact ⟨fun _ => all, fun _ => rfl⟩

theorem succeeded_of_reports {requests : List IndexUpdateRequest}
    (reports : Reports batchSize requests outcome) :
    ∀ i < (tasksOf batchSize requests).length, Succeeded outcome i := by
  by_contra some
  obtain ⟨i, inside, bad⟩ : ∃ i, i < (tasksOf batchSize requests).length ∧
      ¬ Succeeded outcome i := by
    simpa using some
  -- Every run throws, and there is one.
  have throws : Ends (Serves outcome) (fun r _ => ∃ e, r = .error e)
      (update batchSize requests) {} :=
    update_ends fun s submitted taken =>
      (awaitAll_ends List.nodup_range (by simp) (by simp [taken])).imp fun r s' ended =>
        ended.2.2 ⟨i, List.mem_range.mpr (submitted ▸ inside), bad⟩
  obtain ⟨r, s', run⟩ := throws.exists_evals serves_answers
  obtain ⟨e, rfl⟩ := throws.sound run
  obtain ⟨status, same, -⟩ := (reports.2.sound run).returned
  cases same

/-- `update` reports its tasks exactly when all of them succeed. -/
theorem update_reports_iff (batchSize : Nat) (requests : List IndexUpdateRequest)
    (outcome : Nat → Except Exit Status) :
    Reports batchSize requests outcome ↔
      ∀ i < (tasksOf batchSize requests).length, Succeeded outcome i :=
  ⟨succeeded_of_reports, reports_of_succeeded⟩

/-- One request, whose index is not found. -/
theorem not_reports_missing :
    ¬ Reports kBatchSize [⟨.update, "/a".toList, "size".toList, "1".toList⟩]
      fun _ => .ok ⟨-1, "Failed to find valid index."⟩ := by
  intro reports
  obtain ⟨status, same, ok⟩ := succeeded_of_reports reports 0 (by decide)
  cases same
  cases ok

end VSFSRpcClient

end Vsfs.Client

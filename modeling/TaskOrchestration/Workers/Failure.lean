import TaskOrchestration.Deps.Scheduler
import TaskOrchestration.System.Step

set_option autoImplicit false

/-!
# A failed attempt

The worker decides by itself whether a failed job is retried, and `RetryService.shouldRetry` is
never asked.

* `RetryService.shouldRetry`, `shouldRetry_iff`;
* `WorkerProcess`, **`handleFailure`**: the operation, uninterrupted; `handleFailure_retrying`,
  **`handleFailure_failed`**: its two branches;
* `WorkerRun`, `Goes`, **`Goes.handleFailure`**: it is what the calls of a run do;
* `FollowsPolicy`, **`follows_policy_iff`**: only a job without retries left, or an error that the
  policy would retry, is treated alike; `permanent_error_retried`.
-/

namespace TaskOrchestration

open LabelledRun JobRepository DependencyResolver

/-! ## The policy -/

namespace RetryService

def permanentErrors : List String :=
  ["SECURITY_VIOLATION", "HANDLER_NOT_FOUND", "UNKNOWN_JOB_TYPE", "PERMISSION_DENIED",
    "RESOURCE_NOT_FOUND"]

/-- An empty error code counts as none. -/
def present (errorCode : Option String) : Option String := errorCode.filter (· ≠ "")

def shouldRetry (job : Job) (errorCode : Option String) : Bool :=
  if job.retryCount ≥ job.maxRetries then false
  else if (present errorCode).any permanentErrors.contains then false
  else if job.retryConfig.retryOn.length > 0 then
    (present errorCode).any job.retryConfig.retryOn.contains
  else true

/-- **The policy allows a retry after the error**: it is not permanent, and the job's list, if it
has one, names it. -/
def Heeds (job : Job) (errorCode : Option String) : Prop :=
  (∀ code ∈ present errorCode, code ∉ permanentErrors) ∧
    (job.retryConfig.retryOn = [] ∨ ∃ code ∈ present errorCode, code ∈ job.retryConfig.retryOn)

instance (job : Job) (errorCode : Option String) : Decidable (Heeds job errorCode) := by
  unfold Heeds
  infer_instance

theorem any_contains {code : Option String} {codes : List String} :
    code.any codes.contains = true ↔ ∃ c ∈ code, c ∈ codes := by
  rw [Option.any_eq_true]
  exact exists_congr fun c => and_congr_right fun _ => List.contains_iff_mem

theorem shouldRetry_iff {job : Job} {errorCode : Option String} :
    shouldRetry job errorCode = true ↔ job.retryCount < job.maxRetries ∧ Heeds job errorCode := by
  unfold shouldRetry Heeds
  split_ifs with hcount hperm hlist
  · exact iff_of_false id fun h => absurd h.1 (not_lt.mpr hcount)
  · refine iff_of_false id fun h => ?_
    obtain ⟨code, hcode, hmem⟩ := any_contains.mp hperm
    exact h.2.1 code hcode hmem
  · have hallowed : ∀ code ∈ present errorCode, code ∉ permanentErrors := fun code hcode hmem =>
      hperm (any_contains.mpr ⟨code, hcode, hmem⟩)
    rw [any_contains]
    have hne := List.length_pos_iff.mp hlist
    exact ⟨fun h => ⟨not_le.mp hcount, hallowed, .inr h⟩, fun h => h.2.2.resolve_left hne⟩
  · have hallowed : ∀ code ∈ present errorCode, code ∉ permanentErrors := fun code hcode hmem =>
      hperm (any_contains.mpr ⟨code, hcode, hmem⟩)
    have hnil := List.length_eq_zero_iff.mp (Nat.eq_zero_of_not_pos hlist)
    exact iff_of_true rfl ⟨not_le.mp hcount, hallowed, .inl hnil⟩

end RetryService

/-! ## The operation -/

/-- The tables and queues, and the dependency graph in the memory of the worker's process. -/
structure WorkerProcess where
  store : Store
  graph : Graph

namespace WorkerProcess

def onJobCompleted (w : WorkerProcess) (now : Time) (jobId : JobId) (status : JobStatus) :
    WorkerProcess :=
  let s := (⟨w.store.jobs, w.graph⟩ : Scheduler).onJobCompleted now jobId status
  ⟨{ w.store with jobs := s.jobs }, s.graph⟩

def updateJob (w : WorkerProcess) (now : Time) (jobId : JobId) (dto : UpdateJobDto) :
    WorkerProcess :=
  { w with store := { w.store with jobs := (update w.store.jobs jobId now dto).1 } }

def completeLog (w : WorkerProcess) (dto : CompleteExecutionLogDto) : WorkerProcess :=
  { w with store := { w.store with logs := w.store.logs.map fun r =>
      if r.id = dto.id then ExecutionRepository.completed dto r else r } }

def addDlq (w : WorkerProcess) (entry : DLQEntry) : WorkerProcess :=
  { w with store := { w.store with dlq := w.store.dlq.insertIfAbsent entry } }

/-- **`handleFailure`**, uninterrupted. -/
def handleFailure (w : WorkerProcess) (now : Time) (jobId : JobId) (f : Failure) : WorkerProcess :=
  match findById w.store.jobs jobId with
  | none => w
  | some job =>
      let w := w.completeLog
        { id := f.execLogId, status := f.finalStatus, completedAt := f.completedAt
          durationMs := f.result.durationMs, stdout := f.result.stdout, stderr := f.result.stderr
          errorMessage := f.result.errorMessage, errorStack := f.result.errorStack
          errorCode := f.result.errorCode }
      let newRetryCount := job.retryCount + 1
      if newRetryCount ≤ job.maxRetries then
        w.updateJob now jobId { status := some .retrying, retryCount := some newRetryCount }
      else
        let w := w.updateJob now jobId
          { status := some .failed, completedAt := some f.completedAt
            errorMessage := f.result.errorMessage, errorStack := f.result.errorStack
            exitCode := f.result.exitCode }
        let w := w.addDlq
          { originalJobId := jobId, type := job.type, payload := job.payload
            organizationId := job.organizationId
            failureReason := f.result.errorMessage.getD "Unknown error"
            failureStack := f.result.errorStack, totalAttempts := newRetryCount
            firstFailedAt := job.startedAt.getD f.completedAt, lastFailedAt := f.completedAt }
        w.onJobCompleted now jobId .failed

variable {w : WorkerProcess} {now : Time} {jobId : JobId} {f : Failure} {job : Job}

def HasStatus (w : WorkerProcess) (jobId : JobId) (status : JobStatus) : Prop :=
  ∃ r, w.store.jobs.find? jobId = some r ∧ r.status = status

theorem HasStatus.unique {a b : JobStatus} (ha : w.HasStatus jobId a) (hb : w.HasStatus jobId b) :
    a = b := by
  obtain ⟨r, hr, rfl⟩ := ha
  obtain ⟨r', hr', rfl⟩ := hb
  exact congrArg Job.status (Option.some.inj (hr.symm.trans hr'))

theorem hasStatus_updateJob (hjob : w.store.jobs.find? jobId = some job) {dto : UpdateJobDto}
    {status : JobStatus} (hd : dto.status = some status) :
    (w.updateJob now jobId dto).HasStatus jobId status := by
  refine ⟨toRow now dto job, ?_, ?_⟩
  · rw [updateJob, find?_update, if_pos rfl, hjob, Option.map_some]
  · simp only [toRow, hd, Option.getD_some]

theorem HasStatus.onJobCompleted {status : JobStatus} (h : w.HasStatus jobId status)
    (hne : status ≠ .pending) (status' : JobStatus) :
    (w.onJobCompleted now jobId status').HasStatus jobId status := by
  obtain ⟨r, hr, rfl⟩ := h
  refine ⟨r, ?_, rfl⟩
  rw [WorkerProcess.onJobCompleted]
  dsimp only
  rw [Scheduler.find?_onJobCompleted, hr, Option.map_some, if_neg fun hp => hne hp.2]

theorem exists_mem_addDlq (w : WorkerProcess) (entry : DLQEntry) :
    ∃ e ∈ (w.addDlq entry).store.dlq, e.originalJobId = entry.originalJobId := by
  have hfind := Table.find?_insertIfAbsent w.store.dlq entry entry.originalJobId
  rw [if_pos rfl] at hfind
  exact ⟨_, Table.find?_eq_some.mp hfind⟩

/-- **The permanent failure**: the row is `FAILED`, the job has an entry in the dead letter queue,
and the jobs that wait for it are notified. -/
def PermanentlyFails (w w' : WorkerProcess) (now : Time) (jobId : JobId) : Prop :=
  w'.HasStatus jobId .failed ∧ (∃ e ∈ w'.store.dlq, e.originalJobId = jobId) ∧
    ∃ w₁ : WorkerProcess, w₁.graph = w.graph ∧ w' = w₁.onJobCompleted now jobId .failed

/-- **With a retry left**, the row is `RETRYING`, and neither the dead letter queue nor the graph
changes. -/
theorem handleFailure_retrying (hjob : w.store.jobs.find? jobId = some job)
    (hleft : job.retryCount < job.maxRetries) :
    (w.handleFailure now jobId f).HasStatus jobId .retrying ∧
      (w.handleFailure now jobId f).store.dlq = w.store.dlq ∧
      (w.handleFailure now jobId f).graph = w.graph := by
  rw [handleFailure, findById, hjob]
  dsimp only
  rw [if_pos (show job.retryCount + 1 ≤ job.maxRetries from hleft)]
  exact ⟨hasStatus_updateJob (w := w.completeLog _) hjob rfl, rfl, rfl⟩

/-- **Without a retry left**, the job fails permanently. -/
theorem handleFailure_failed (hjob : w.store.jobs.find? jobId = some job)
    (hleft : job.maxRetries ≤ job.retryCount) :
    PermanentlyFails w (w.handleFailure now jobId f) now jobId := by
  rw [handleFailure, findById, hjob]
  dsimp only
  rw [if_neg (show ¬ job.retryCount + 1 ≤ job.maxRetries from not_lt.mpr hleft)]
  refine ⟨HasStatus.onJobCompleted ?_ (fun h => JobStatus.noConfusion h) .failed,
    exists_mem_addDlq _ _, _, ?_, rfl⟩
  · exact hasStatus_updateJob (w := w.completeLog _) hjob rfl
  · rfl

end WorkerProcess

/-! ## The calls of a run -/

/-- A run of `processJob` in the system. -/
structure WorkerRun where
  run : ℕ
  process : ℕ
  workerId : String
  entry : EntryId
  data : QueueJobPayload

namespace WorkerRun

/-- The run stands at `pc`, and `w` is what it works on. -/
structure At (a : WorkerRun) (s : Sys) (pc : ProcessPc) (w : WorkerProcess) : Prop where
  op : s.ops[a.run]? = some (.processJob a.process a.workerId a.entry a.data pc)
  store : s.store = w.store
  graph : s.graph a.process = w.graph

/-- **The run goes on** by the given events, and then stands at `pc`. -/
def Goes (cfg : Config) (ok : Event → Prop) (a : WorkerRun) (s : Sys) (pc : ProcessPc)
    (w : WorkerProcess) : Prop :=
  ∃ es s', (∀ e ∈ es, ok e) ∧ runEvents (Sys.step cfg) s es = some s' ∧ a.At s' pc w

variable {cfg : Config} {ok : Event → Prop} {a : WorkerRun} {s : Sys} {pc pc' : ProcessPc}
  {w : WorkerProcess} {now : Time} {second : Bool}

theorem Goes.snoc {w' : WorkerProcess} {e : Event} (h : a.Goes cfg ok s pc w) (he : ok e)
    (hstep : ∀ s, a.At s pc w → ∃ s', s.step cfg e = some s' ∧ a.At s' pc' w') :
    a.Goes cfg ok s pc' w' := by
  obtain ⟨es, s₁, hok, hrun, hat⟩ := h
  obtain ⟨s', hs, hat'⟩ := hstep s₁ hat
  refine ⟨es ++ [e], s', fun e' he' => ?_, ?_, hat'⟩
  · rcases List.mem_append.mp he' with he' | he'
    · exact hok e' he'
    · exact List.mem_singleton.mp he' ▸ he
  · rw [runEvents_snoc, hrun, Option.bind_some, hs]

theorem Goes.answer {c : Call} {st : Store} {reply : Reply} {g : Graph}
    (h : a.Goes cfg ok s pc w) (he : ok (.call a.run second now .ok []))
    (hc : pc.call a.workerId a.data second = some c)
    (hx : w.store.exec now [] c = some (st, reply))
    (hpc : pc.resume w.graph now a.data second reply = (pc', g)) :
    a.Goes cfg ok s pc' ⟨st, g⟩ := by
  refine h.snoc he fun s₁ hat => ⟨_, Sys.step_answered hat.op hc (hat.store ▸ hx), ?_⟩
  rw [← hat.graph] at hpc
  refine ⟨?_, rfl, ?_⟩
  · refine (getElem?_set_append_self hat.op _ _).trans ?_
    simp only [Op.resume, Op.process, hpc]
  · simp only [Sys.resumed, Op.process, Op.resume, Function.update_self, hpc]

theorem Goes.afterResolver {status : JobStatus} (he : ok (.call a.run false now .ok [])) (n : ℕ)
    {w : WorkerProcess} (h : a.Goes cfg ok s (.afterResolver status n) w) :
    a.Goes cfg ok s .resolved
      { w with store :=
        { w.store with jobs := resolveTimes w.store.jobs now a.data.jobId n } } := by
  induction n generalizing w with
  | zero =>
      unfold ProcessPc.afterResolver at h
      split_ifs at h
      · exact h.answer he rfl rfl rfl
      · exact h
  | succ n ih => exact ih (h.answer he rfl rfl rfl)

/-- **The calls of `onJobCompleted`.** -/
theorem Goes.report {status : JobStatus} {w' : WorkerProcess}
    (he : ok (.call a.run false now .ok []))
    (h : a.Goes cfg ok s (.afterResolver status (unblocked w.graph a.data.jobId status).length) w')
    (hstore : w'.store = w.store)
    (hgraph : w'.graph = (onJobStateChange w.graph a.data.jobId status).1) :
    a.Goes cfg ok s .resolved (w.onJobCompleted now a.data.jobId status) := by
  obtain ⟨st, g⟩ := w'
  obtain rfl : st = w.store := hstore
  obtain rfl : g = (onJobStateChange w.graph a.data.jobId status).1 := hgraph
  exact Goes.afterResolver he _ h

/-- **The calls of `handleFailure`**, one after the other, do what the uninterrupted operation
does. -/
theorem Goes.handleFailure {f : Failure} (he : ok (.call a.run false now .ok []))
    (h : a.Goes cfg ok s (.failRead f) w) :
    a.Goes cfg ok s .resolved (w.handleFailure now a.data.jobId f) := by
  rw [WorkerProcess.handleFailure]
  cases hjob : findById w.store.jobs a.data.jobId with
  | none =>
      exact h.answer (c := .findById a.data.jobId) he rfl rfl (by rw [hjob]; rfl)
  | some job =>
      have hlog : a.Goes cfg ok s (.failLog job f) w :=
        h.answer (c := .findById a.data.jobId) he rfl rfl (by rw [hjob]; rfl)
      dsimp only
      split_ifs with hleft
      · have hretry := hlog.answer he rfl rfl (congrArg (·, w.graph) (if_pos hleft))
        exact hretry.answer he rfl rfl rfl
      · have hfinal := hlog.answer he rfl rfl (congrArg (·, w.graph) (if_neg hleft))
        have hdlq := hfinal.answer he rfl rfl rfl
        have hreport := hdlq.answer he rfl rfl rfl
        exact hreport.report he rfl rfl

end WorkerRun

namespace WorkerProcess

variable {w : WorkerProcess} {now : Time} {jobId : JobId} {f : Failure} {job : Job}

/-! ## The policy and the worker -/

/-- **The worker follows the policy**: it moves the job to `RETRYING` exactly if the policy says so,
and lets it fail permanently otherwise. -/
def FollowsPolicy (w : WorkerProcess) (now : Time) (jobId : JobId) (f : Failure) (job : Job) :
    Prop :=
  ((w.handleFailure now jobId f).HasStatus jobId .retrying ↔
      RetryService.shouldRetry job f.result.errorCode = true) ∧
    (RetryService.shouldRetry job f.result.errorCode = false →
      PermanentlyFails w (w.handleFailure now jobId f) now jobId)

/-- **The worker follows the policy** exactly if the job has no retry left, or the policy allows a
retry after the error. -/
theorem follows_policy_iff (hjob : w.store.jobs.find? jobId = some job) :
    FollowsPolicy w now jobId f job ↔
      job.maxRetries ≤ job.retryCount ∨ RetryService.Heeds job f.result.errorCode := by
  have hpolicy : RetryService.shouldRetry job f.result.errorCode = true ↔
      job.retryCount < job.maxRetries ∧ RetryService.Heeds job f.result.errorCode :=
    RetryService.shouldRetry_iff
  rcases Nat.lt_or_ge job.retryCount job.maxRetries with hleft | hleft
  · have hretry : (w.handleFailure now jobId f).HasStatus jobId .retrying :=
      (handleFailure_retrying hjob hleft).1
    constructor
    · exact fun h => .inr (hpolicy.mp (h.1.mp hretry)).2
    · intro h
      have hshould := hpolicy.mpr ⟨hleft, h.resolve_left (not_le.mpr hleft)⟩
      exact ⟨iff_of_true hretry hshould, fun hnot => Bool.noConfusion (hnot.symm.trans hshould)⟩
  · have hfails : PermanentlyFails w (w.handleFailure now jobId f) now jobId :=
      handleFailure_failed hjob hleft
    have hnot : ¬ RetryService.shouldRetry job f.result.errorCode = true := fun h =>
      absurd (hpolicy.mp h).1 (not_lt.mpr hleft)
    refine iff_of_true ⟨iff_of_false (fun h => ?_) hnot, fun _ => hfails⟩ (.inl hleft)
    cases h.unique hfails.1

/-- A running job with the default retries, and nothing else. -/
def runningJob : Job := { newRow "a" 0 Sys.simpleDto with status := .running }

def runningAlone : WorkerProcess :=
  ⟨{ Store.empty with jobs := Table.empty.insertIfAbsent runningJob }, emptyGraph⟩

/-- The execution failed with the given error code. -/
def failedWith (errorCode : String) : Failure where
  execLogId := 0
  result := { success := false, errorCode := some errorCode }
  completedAt := 1
  finalStatus := .failed

theorem transient_error_retried :
    FollowsPolicy runningAlone 1 "a" (failedWith "HTTP_ERROR") runningJob :=
  (follows_policy_iff (by decide)).mpr (.inr (by decide))

/-- **A permanent error** is retried. -/
theorem permanent_error_retried : ¬ ∀ (w : WorkerProcess) (now : Time) (jobId : JobId) (f : Failure)
    (job : Job), w.store.jobs.find? jobId = some job → FollowsPolicy w now jobId f job := by
  intro hall
  have hjob : runningAlone.store.jobs.find? "a" = some runningJob := by decide
  have hfollows := hall runningAlone 1 "a" (failedWith "SECURITY_VIOLATION") runningJob hjob
  exact absurd (hfollows.1.mp (handleFailure_retrying hjob (by decide)).1) (by decide)

end WorkerProcess

end TaskOrchestration

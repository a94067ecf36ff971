import TaskOrchestration.Job.Service
import TaskOrchestration.Deps.Resolver
import TaskOrchestration.System.Store

set_option autoImplicit false

/-!
# The operations of the system

Every operation is cut at its repository and queue calls. Between two calls it is a value: the
call it waits for, with the local variables it still needs.

* `ProcessPc`: where a run of `processJob` and `handleFailure` stands;
* `Op`: the operations; `Op.pending`: the call an operation waits for;
* `Op.resume`: what it does with the answer, up to its next call; `Op.abort`: what it does when
  the call throws;
* **`leads_of_resume`**, **`leaves_of_abort`**: what an answer and an error lead to, said once;
* `not_isOrphan_resume`, `orphan_of_abort`, `tidy`: the calls that nobody waits for;
* `isProcess`, `isProcess_of_resume`, `not_isProcess_spawned`: the runs of `processJob`.
-/

namespace TaskOrchestration

open JobService DependencyResolver

structure Config where
  /-- `config.worker.maxRetries`, the `attempts` of an entry. -/
  attempts : ℕ := 3
  maxStalledCount : ℕ := 2
  batchSize : ℕ := 50
  stalledJobThresholdMs : ℕ := 120000

structure ExecutionResult where
  success : Bool
  exitCode : Option ℤ := none
  stdout : Option String := none
  stderr : Option String := none
  result : Option JsonObject := none
  errorMessage : Option String := none
  errorStack : Option String := none
  errorCode : Option String := none
  durationMs : ℕ := 0
  deriving DecidableEq, Repr

structure Failure where
  execLogId : ℕ
  result : ExecutionResult
  completedAt : Time
  finalStatus : ExecutionStatus
  deriving DecidableEq, Repr

/-- **Where a run of `processJob` stands**: before the call, or the execution, that its name
says. `success` waits for its two calls at once. `notify` has `more` calls of
`resolveDependency` to make after the next one. -/
inductive ProcessPc
  | fetch
  | createLog (job : Job) (startedAt : Time)
  | setRunning (job : Job) (execLogId : ℕ) (startedAt : Time)
  | execute (job : Job) (execLogId : ℕ)
  | executing (job : Job) (execLogId : ℕ)
  | success (result : ExecutionResult) (execLogId : ℕ) (completedAt : Time)
      (rowWritten logWritten : Bool)
  | failRead (f : Failure)
  | failLog (job : Job) (f : Failure)
  | failRetry (job : Job)
  | failFinal (job : Job) (f : Failure)
  | failDlq (job : Job) (f : Failure)
  | notify (status : JobStatus) (more : ℕ)
  | metrics
  | resolved
  | rejected
  deriving DecidableEq, Repr

namespace ProcessPc

/-- The call that the run waits for; `second` asks for the second one of `success`. -/
def call (workerId : String) (data : QueueJobPayload) : ProcessPc → Bool → Option Call
  | fetch, false => some (.findById data.jobId)
  | createLog _ startedAt, false => some (.createLog
      { jobId := data.jobId, workerId := workerId, attemptNumber := data.attemptNumber
        status := .running, startedAt := startedAt })
  | setRunning _ _ startedAt, false => some (.update data.jobId
      { status := some .running, workerId := some workerId, startedAt := some startedAt })
  | success result _ completedAt false _, false => some (.update data.jobId
      { status := some .completed, completedAt := some completedAt, result := result.result
        exitCode := result.exitCode })
  | success result execLogId completedAt _ false, true => some (.completeLog
      { id := execLogId, status := .completed, completedAt := completedAt
        durationMs := result.durationMs, stdout := result.stdout, stderr := result.stderr
        exitCode := result.exitCode, result := result.result })
  | failRead _, false => some (.findById data.jobId)
  | failLog _ f, false => some (.completeLog
      { id := f.execLogId, status := f.finalStatus, completedAt := f.completedAt
        durationMs := f.result.durationMs, stdout := f.result.stdout, stderr := f.result.stderr
        errorMessage := f.result.errorMessage, errorStack := f.result.errorStack
        errorCode := f.result.errorCode })
  | failRetry job, false => some (.update data.jobId
      { status := some .retrying, retryCount := some (job.retryCount + 1) })
  | failFinal _ f, false => some (.update data.jobId
      { status := some .failed, completedAt := some f.completedAt
        errorMessage := f.result.errorMessage, errorStack := f.result.errorStack
        exitCode := f.result.exitCode })
  | failDlq job f, false => some (.addDlq
      { originalJobId := data.jobId, type := job.type, payload := job.payload
        organizationId := job.organizationId
        failureReason := f.result.errorMessage.getD "Unknown error"
        failureStack := f.result.errorStack, totalAttempts := job.retryCount + 1
        firstFailedAt := job.startedAt.getD f.completedAt, lastFailedAt := f.completedAt })
  | notify _ _, false => some (.resolveDependency data.jobId)
  | metrics, false => some (.findById data.jobId)
  | _, _ => none

/-- The rest of `onJobCompleted` when `n` calls of `resolveDependency` are left. -/
def afterResolver (status : JobStatus) : ℕ → ProcessPc
  | 0 => if status = .completed then metrics else resolved
  | n + 1 => notify status n

/-- What holds of no place that `onJobCompleted` can reach does not hold where it goes on. -/
theorem afterResolver_eq_false {p : ProcessPc → Bool} (hn : ∀ status n, p (notify status n) = false)
    (hm : p metrics = false) (hr : p resolved = false) (status : JobStatus) (n : ℕ) :
    p (afterResolver status n) = false := by
  cases n with
  | zero =>
      unfold afterResolver
      split_ifs
      · exact hm
      · exact hr
  | succ n => exact hn status n

/-- `onJobCompleted`, up to its first call: the resolver runs in the process's memory. -/
def report (g : Graph) (jobId : JobId) (status : JobStatus) : ProcessPc × Graph :=
  (afterResolver status (unblocked g jobId status).length, (onJobStateChange g jobId status).1)

/-- The run after an answer, up to its next call. -/
def resume (g : Graph) (now : Time) (data : QueueJobPayload) :
    ProcessPc → Bool → Reply → ProcessPc × Graph
  | fetch, _, .job (some job) =>
      (if job.status = .cancelled then resolved else createLog job now, g)
  | fetch, _, _ => (resolved, g)
  | createLog job _, _, .log id => (setRunning job id now, g)
  | setRunning job id _, _, _ => (execute job id, g)
  | success r id t _ false, false, _ => (success r id t true false, g)
  | success r id t false _, true, _ => (success r id t false true, g)
  | success _ _ _ _ _, _, _ => report g data.jobId .completed
  | failRead f, _, .job (some job) => (failLog job f, g)
  | failRead _, _, _ => (resolved, g)
  | failLog job f, _, _ =>
      (if job.retryCount + 1 ≤ job.maxRetries then failRetry job else failFinal job f, g)
  | failRetry _, _, _ => (resolved, g)
  | failFinal job f, _, _ => (failDlq job f, g)
  | failDlq _ _, _, _ => report g data.jobId .failed
  | notify status more, _, _ => (afterResolver status more, g)
  | metrics, _, _ => (resolved, g)
  | pc, _, _ => (pc, g)

/-- The call of `success` that is still under way when the other one has thrown. -/
def other (workerId : String) (data : QueueJobPayload) (pc : ProcessPc) (second : Bool) :
    Option Call :=
  match pc with
  | success _ _ _ _ _ => pc.call workerId data !second
  | _ => none

/-- The run has ended, and the processor has resolved or rejected. -/
def ended : ProcessPc → Option Bool
  | resolved => some false
  | rejected => some true
  | _ => none

end ProcessPc

/-- **The operations**: each constructor stands before one call. `enqueue` and `revert` belong to
`scheduleReadyJobs`, one for each claimed job; `recover` has updates to make for the jobs of its
list. A call that nobody waits for any more is an `orphan`. -/
inductive Op
  | processJob (process : ℕ) (workerId : String) (entry : EntryId) (data : QueueJobPayload)
      (pc : ProcessPc)
  | scheduleReadyJobs
  | enqueue (job : Job) (delayMs : ℕ)
  | revert (id : JobId) (again : Bool)
  | recoverStalledJobs
  | recover (jobs : List Job) (now : Time)
  | cancelJob (id organizationId : String)
  | writeCancelled (id : JobId) (now : Time)
  | retryJob (id organizationId : String)
  | writePending (id : JobId)
  | replayJob (id : JobId)
  | replayAdd (entry : DLQEntry)
  | replayRemove (id : JobId)
  | submitJob (process : ℕ) (id : JobId) (dto : CreateJobDto)
  | orphan (call : Call)
  | finished
  deriving DecidableEq, Repr

namespace Op

/-- The operations that a caller can start. A run of `processJob` starts with its entry. -/
def IsRequest : Op → Prop
  | scheduleReadyJobs | recoverStalledJobs | cancelJob .. | retryJob .. | replayJob ..
  | submitJob .. => True
  | _ => False

instance : DecidablePred IsRequest := fun op => by
  cases op <;> unfold IsRequest <;> infer_instance

/-- One element of `enqueuePromises`, up to its first call. -/
def enqueueClaimed (now : Time) (job : Job) : Op :=
  if job.dependencyCount > job.resolvedDependencyCount then revert job.id true
  else enqueue job ((job.scheduledAt.map (· - now)).getD 0)

/-- The update of `recoverStalledJobs` for one job. -/
def recoverDto (job : Job) (now : Time) : UpdateJobDto :=
  if job.retryCount < job.maxRetries then { status := some .pending }
  else
    { status := some .failed
      errorMessage := some "Job stalled: worker did not complete within timeout"
      completedAt := some now }

/-- The payload that `scheduleReadyJobs` enqueues. -/
def enqueueData (job : Job) : QueueJobPayload where
  jobId := job.id
  type := job.type
  payload := job.payload
  organizationId := job.organizationId
  attemptNumber := job.retryCount + 1

/-- The payload that `replayJob` enqueues. -/
def replayData (entry : DLQEntry) : QueueJobPayload where
  jobId := entry.originalJobId
  type := entry.type
  payload := entry.payload
  organizationId := entry.organizationId
  attemptNumber := entry.totalAttempts + 1

/-- **The call an operation waits for.** -/
def pending (cfg : Config) : Op → Bool → Option Call
  | processJob _ workerId _ data pc, second => pc.call workerId data second
  | scheduleReadyJobs, false => some (.claimPendingJobs cfg.batchSize)
  | enqueue job delayMs, false =>
      some (.add (some job.id) (enqueueData job) (toBullPriority job.priority) delayMs)
  | revert id _, false => some (.update id { status := some .pending })
  | recoverStalledJobs, false => some (.findStalledJobs cfg.stalledJobThresholdMs)
  | recover (job :: _) now, false => some (.update job.id (recoverDto job now))
  | cancelJob id _, false => some (.findById id)
  | writeCancelled id now, false => some (.update id (cancelDto now))
  | retryJob id _, false => some (.findById id)
  | writePending id, false => some (.update id retryDto)
  | replayJob id, false => some (.getDlq id)
  | replayAdd entry, false => some (.add none (replayData entry) 0 0)
  | replayRemove id, false => some (.removeDlq id)
  | submitJob _ id dto, false => some (.create id dto)
  | orphan call, false => some call
  | _, _ => none

def recoverNext (jobs : List Job) (now : Time) : Op :=
  match jobs with
  | [] => finished
  | _ => recover jobs now

/-- The process whose memory an operation uses. -/
def process : Op → ℕ
  | processJob process .. => process
  | submitJob process .. => process
  | _ => 0

/-- **The operation after an answer**, the operations it starts, and the graph of its process. -/
def resume (g : Graph) (now : Time) : Op → Bool → Reply → Op × List Op × Graph
  | processJob process workerId entry data pc, second, reply =>
      let p := pc.resume g now data second reply
      (processJob process workerId entry data p.1, [], p.2)
  | scheduleReadyJobs, _, .jobs rows => (finished, rows.map (enqueueClaimed now), g)
  | recoverStalledJobs, _, .jobs rows => (recoverNext rows now, [], g)
  | recover jobs _, _, _ => (recoverNext jobs.tail now, [], g)
  | cancelJob id organizationId, _, .job row =>
      (match checkCancel id organizationId row with
        | .ok _ => writeCancelled id now
        | .error _ => finished, [], g)
  | retryJob id organizationId, _, .job row =>
      (match checkRetry id organizationId row with
        | .ok _ => writePending id
        | .error _ => finished, [], g)
  | replayJob _, _, .entry (some entry) => (replayAdd entry, [], g)
  | replayAdd entry, _, _ => (replayRemove entry.originalJobId, [], g)
  | submitJob _ _ _, _, .job (some job) => (finished, [], register g job)
  | _, _, _ => (finished, [], g)

/-- **The operation after an error.** The processor rejects, and leaves the other call of
`success` behind; an element of `enqueuePromises` reverts its job; the rest gives up. -/
def abort : Op → Bool → Op × List Op
  | processJob process workerId entry data pc, second =>
      (processJob process workerId entry data .rejected,
        ((pc.other workerId data second).map orphan).toList)
  | enqueue job _, _ => (revert job.id false, [])
  | revert id true, _ => (revert id false, [])
  | _, _ => (finished, [])

def isOrphan : Op → Bool
  | orphan _ => true
  | _ => false

def isProcess : Op → Bool
  | processJob .. => true
  | _ => false

def tidy : Op → Bool
  | orphan (.update _ dto) => dto.status = some .completed
  | orphan (.completeLog _) => true
  | orphan _ => false
  | _ => true

variable {op op' : Op} {g : Graph} {now : Time} {second : Bool} {reply : Reply}

/-! ## What an answer and an error lead to, said once -/

/-- **What an answer leads to**: the operation that goes on, or one that it starts. -/
inductive Leads (g : Graph) (now : Time) (second : Bool) (reply : Reply) : Op → Op → Prop
  | processJob {process : ℕ} {workerId : String} {entry : EntryId} {data : QueueJobPayload}
      {pc : ProcessPc} : Leads g now second reply (processJob process workerId entry data pc)
        (processJob process workerId entry data (pc.resume g now data second reply).1)
  | finished {op : Op} : op.isProcess = false → Leads g now second reply op finished
  | enqueue {rows : List Job} {job : Job} {delayMs : ℕ} : reply = .jobs rows → job ∈ rows →
      Leads g now second reply scheduleReadyJobs (enqueue job delayMs)
  | revert {rows : List Job} {job : Job} : reply = .jobs rows → job ∈ rows →
      Leads g now second reply scheduleReadyJobs (revert job.id true)
  | recoverStalledJobs {rows : List Job} : reply = .jobs rows →
      Leads g now second reply recoverStalledJobs (recover rows now)
  | recover {jobs : List Job} {now₀ : Time} :
      Leads g now second reply (recover jobs now₀) (recover jobs.tail now)
  | cancelJob {id organizationId : String} {row : Option Job} {job : Job} : reply = .job row →
      checkCancel id organizationId row = .ok job →
      Leads g now second reply (cancelJob id organizationId) (writeCancelled id now)
  | retryJob {id organizationId : String} {row : Option Job} {job : Job} : reply = .job row →
      checkRetry id organizationId row = .ok job →
      Leads g now second reply (retryJob id organizationId) (writePending id)
  | replayJob {id : JobId} {entry : DLQEntry} : reply = .entry (some entry) →
      Leads g now second reply (replayJob id) (replayAdd entry)
  | replayAdd {entry : DLQEntry} :
      Leads g now second reply (replayAdd entry) (replayRemove entry.originalJobId)

theorem recoverNext_cases (jobs : List Job) (now : Time) :
    recoverNext jobs now = finished ∨ recoverNext jobs now = recover jobs now := by
  cases jobs with
  | nil => exact .inl rfl
  | cons job jobs => exact .inr rfl

/-- **Every answer** leads to one of these. -/
theorem leads_of_resume (h : op' = (op.resume g now second reply).1 ∨
    op' ∈ (op.resume g now second reply).2.1) : Leads g now second reply op op' := by
  unfold resume at h
  split at h
  case h_1 process workerId entry data pc =>
    rcases h with rfl | h
    · exact .processJob
    · cases h
  case h_2 rows =>
    rcases h with rfl | h
    · exact .finished rfl
    · obtain ⟨job, hjob, rfl⟩ := List.mem_map.mp h
      unfold enqueueClaimed
      split_ifs
      · exact .revert rfl hjob
      · exact .enqueue rfl hjob
  case h_3 rows =>
    rcases h with rfl | h
    · rcases recoverNext_cases rows now with hr | hr
      · exact hr ▸ .finished rfl
      · exact hr ▸ .recoverStalledJobs rfl
    · cases h
  case h_4 jobs now₀ =>
    rcases h with rfl | h
    · rcases recoverNext_cases jobs.tail now with hr | hr
      · exact hr ▸ .finished rfl
      · exact hr ▸ .recover
    · cases h
  case h_5 id organizationId row =>
    rcases h with rfl | h
    · dsimp only
      split
      case h_1 job hok => exact .cancelJob rfl hok
      case h_2 => exact .finished rfl
    · cases h
  case h_6 id organizationId row =>
    rcases h with rfl | h
    · dsimp only
      split
      case h_1 job hok => exact .retryJob rfl hok
      case h_2 => exact .finished rfl
    · cases h
  case h_7 =>
    rcases h with rfl | h
    · exact .replayJob rfl
    · cases h
  case h_8 =>
    rcases h with rfl | h
    · exact .replayAdd
    · cases h
  case h_9 =>
    rcases h with rfl | h
    · exact .finished rfl
    · cases h
  case h_10 hp _ _ _ _ _ _ _ _ =>
    rcases h with rfl | h
    · refine .finished ?_
      cases op with
      | processJob => exact absurd rfl (hp _ _ _ _ _)
      | _ => rfl
    · cases h

/-- **What an error leads to**: the operation that goes on, or the call that it leaves behind. -/
inductive Leaves (second : Bool) : Op → Op → Prop
  | processJob {process : ℕ} {workerId : String} {entry : EntryId} {data : QueueJobPayload}
      {pc : ProcessPc} : Leaves second (processJob process workerId entry data pc)
        (processJob process workerId entry data .rejected)
  | orphan {process : ℕ} {workerId : String} {entry : EntryId} {data : QueueJobPayload}
      {pc : ProcessPc} {c : Call} : pc.other workerId data second = some c →
      Leaves second (processJob process workerId entry data pc) (orphan c)
  | enqueue {job : Job} {delayMs : ℕ} : Leaves second (enqueue job delayMs) (revert job.id false)
  | revert {id : JobId} : Leaves second (revert id true) (revert id false)
  | finished {op : Op} : op.isProcess = false → Leaves second op finished

/-- **Every error** leads to one of these. -/
theorem leaves_of_abort (h : op' = (op.abort second).1 ∨ op' ∈ (op.abort second).2) :
    Leaves second op op' := by
  unfold abort at h
  split at h
  case h_1 process workerId entry data pc =>
    rcases h with rfl | h
    · exact .processJob
    · obtain ⟨c, hc, rfl⟩ := Option.map_eq_some_iff.mp (Option.mem_toList.mp h)
      exact .orphan hc
  case h_2 =>
    rcases h with rfl | h
    · exact .enqueue
    · cases h
  case h_3 =>
    rcases h with rfl | h
    · exact .revert
    · cases h
  case h_4 hp _ _ =>
    rcases h with rfl | h
    · refine .finished ?_
      cases op with
      | processJob => exact absurd rfl (hp _ _ _ _ _)
      | _ => rfl
    · cases h

/-! ## Calls that nobody waits for -/

theorem tidy_of_not_isOrphan (h : op.isOrphan = false) : op.tidy = true := by
  cases op with
  | orphan c => cases h
  | _ => rfl

theorem not_isOrphan_resume (h : op' = (op.resume g now second reply).1 ∨
    op' ∈ (op.resume g now second reply).2.1) : op'.isOrphan = false := by
  cases leads_of_resume h <;> rfl

/-- An error leaves behind at most the other write of `success`. -/
theorem orphan_of_abort {c : Call}
    (h : orphan c = (op.abort second).1 ∨ orphan c ∈ (op.abort second).2) :
    (∃ id dto, c = .update id dto ∧ dto.status = some .completed) ∨
      ∃ dto, c = .completeLog dto := by
  cases leaves_of_abort h with
  | orphan hc =>
      unfold ProcessPc.other at hc
      split at hc
      case h_1 result id t rowWritten logWritten =>
        cases second <;> cases rowWritten <;> cases logWritten <;>
          simp only [ProcessPc.call, Bool.not_true, Bool.not_false, reduceCtorEq,
            Option.some.injEq] at hc
        all_goals subst hc
        all_goals first
          | exact .inl ⟨_, _, rfl, rfl⟩
          | exact .inr ⟨_, rfl⟩
      case h_2 => cases hc

theorem tidy_abort
    (h : op' = (op.abort second).1 ∨ op' ∈ (op.abort second).2) : op'.tidy = true := by
  cases op' with
  | orphan c =>
      rcases orphan_of_abort h with ⟨id, dto, rfl, hd⟩ | ⟨dto, rfl⟩
      · exact decide_eq_true hd
      · rfl
  | _ => rfl

theorem isProcess_eq_true (h : op.isProcess = true) :
    ∃ process workerId entry data pc, op = .processJob process workerId entry data pc := by
  cases op with
  | processJob process workerId entry data pc => exact ⟨process, workerId, entry, data, pc, rfl⟩
  | _ => cases h

theorem isProcess_of_resume (h : (op.resume g now second reply).1.isProcess = true) :
    op.isProcess = true := by
  have hl := leads_of_resume (.inl (Eq.refl (op.resume g now second reply).1))
  generalize (op.resume g now second reply).1 = op' at h hl
  cases hl with
  | processJob => rfl
  | _ => cases h

theorem isProcess_of_abort (h : (op.abort second).1.isProcess = true) : op.isProcess = true := by
  have hl := leaves_of_abort (.inl (Eq.refl (op.abort second).1))
  generalize (op.abort second).1 = op' at h hl
  cases hl with
  | processJob => rfl
  | _ => cases h

theorem not_isProcess_spawned (h : op' ∈ (op.resume g now second reply).2.1) :
    op'.isProcess = false := by
  cases leads_of_resume (.inr h) with
  | processJob => exact absurd h List.not_mem_nil
  | _ => rfl

theorem not_isProcess_left (h : op' ∈ (op.abort second).2) : op'.isProcess = false := by
  unfold abort at h
  split at h
  case h_1 process workerId entry data pc =>
    obtain ⟨c, -, rfl⟩ := Option.map_eq_some_iff.mp (Option.mem_toList.mp h)
    rfl
  all_goals cases h

end Op

end TaskOrchestration

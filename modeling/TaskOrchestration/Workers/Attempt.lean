import TaskOrchestration.Workers.Failure

set_option autoImplicit false

/-!
# An attempt and its outcome

The executor races the handler of a job against a timer. What the handler throws is caught, and
the `catch` logs it and reads its message. `null` and `undefined` have none, and the format of the
log may throw itself: it writes the value as JSON.

* `Thrown`, `Settlement`, `Handlers`: what a handler can do; **`execute`**: what the executor makes
  of it; `execute_eq_none`: when it throws itself;
* **`processJob`**: the operation, uninterrupted; **`Goes.processJob`**: it is what the calls and
  the execution of a run do;
* `Recorded`, `recorded_conclude`: every result of the executor is written;
* **`attempt_recorded_iff`**; `null_not_recorded`.
-/

namespace TaskOrchestration

open LabelledRun JobRepository

/-! ## The executor -/

/-- What a handler throws, as far as the executor looks at it: whether it is a `TimeoutError`,
whether `log.error` returns when it is given the value, and its `message` and `stack`. What is
`none` throws when it is looked at. `JSON.stringify`, in the format of the log, throws for a
`BigInt`, for a property that is circular, and when a `toJSON` throws. -/
inductive Thrown
  | nullish
  | value (isTimeout : Option Bool) (logged : Bool) (message stack : Option (Option String))
  deriving DecidableEq, Repr

/-- **What a promise does** before the timer fires. -/
inductive Settlement (α : Type)
  | resolves (result : α)
  | rejects (thrown : Thrown)
  | pending
  deriving DecidableEq, Repr

/-- The built-in executors, and the registered handlers. A payload without `handlerName` looks up
`undefined`, the key `none`. -/
structure Handlers where
  builtIn : JobType → JsonObject → Settlement ExecutionResult
  customHandlers : Option String → Option (JsonObject → Settlement (Option JsonObject))

namespace JobExecutor

variable (h : Handlers)

def executeCustom (payload : JsonObject) : Settlement ExecutionResult :=
  let handlerName := payload.lookup "handlerName"
  match h.customHandlers handlerName with
  | none => .resolves
      { success := false
        errorMessage := some ("No custom handler registered: " ++ handlerName.getD "undefined")
        errorCode := some "HANDLER_NOT_FOUND" }
  | some handler =>
      match handler payload with
      | .resolves result => .resolves { success := true, result := result }
      | .rejects thrown => .rejects thrown
      | .pending => .pending

def dispatch (job : Job) : Settlement ExecutionResult :=
  match job.type with
  | .custom => executeCustom h job.payload
  | type => h.builtIn type job.payload

/-- The result of a job whose timer fires first. -/
def timedOut (job : Job) (durationMs : ℕ) : ExecutionResult where
  success := false
  errorMessage := some ("Job exceeded timeout of " ++ toString job.timeoutMs ++ "ms")
  errorCode := some "JOB_TIMEOUT"
  durationMs := durationMs

/-- The `catch`: it may throw as well. -/
def caught (job : Job) (durationMs : ℕ) : Thrown → Option ExecutionResult
  | .nullish => none
  | .value isTimeout logged message stack => do
      if ← isTimeout then return timedOut job durationMs
      -- `log.error` comes before the result
      guard logged
      let message ← message
      let stack ← stack
      return {
        success := false
        errorMessage := message
        errorStack := stack
        errorCode := some "EXECUTION_ERROR"
        durationMs := durationMs }

/-- **`execute`**: the result, or `none` if it throws. -/
def execute (job : Job) (durationMs : ℕ) : Option ExecutionResult :=
  match dispatch h job with
  | .resolves result => some { result with durationMs := durationMs }
  | .rejects thrown => caught job durationMs thrown
  | .pending => some (timedOut job durationMs)

end JobExecutor

/-- **The executor can look at it**: it is a `TimeoutError`, or it can be logged and has a message
and a stack to read, which may be `undefined`. -/
def Thrown.Readable : Thrown → Prop
  | .nullish => False
  | .value isTimeout logged message stack =>
      isTimeout = some true ∨ isTimeout = some false ∧ logged ∧ message.isSome ∧ stack.isSome

namespace JobExecutor

variable {h : Handlers} {job : Job} {durationMs : ℕ}

theorem caught_eq_none {thrown : Thrown} :
    caught job durationMs thrown = none ↔ ¬ thrown.Readable := by
  cases thrown with
  | nullish => exact iff_of_true rfl not_false
  | value isTimeout logged message stack =>
      rcases isTimeout with _ | _ | _ <;> cases logged <;> rcases message with _ | message <;>
        rcases stack with _ | stack <;> simp [caught, Thrown.Readable]

/-- **The executor throws** exactly if the handler does, and throws what cannot be looked at. -/
theorem execute_eq_none : execute h job durationMs = none ↔
    ∃ thrown, dispatch h job = .rejects thrown ∧ ¬ thrown.Readable := by
  unfold execute
  cases hd : dispatch h job with
  | resolves result => exact iff_of_false (Option.some_ne_none _) (by rintro ⟨_, ⟨⟩, _⟩)
  | pending => exact iff_of_false (Option.some_ne_none _) (by rintro ⟨_, ⟨⟩, _⟩)
  | rejects thrown =>
      rw [caught_eq_none]
      constructor
      · exact fun hn => ⟨thrown, rfl, hn⟩
      · rintro ⟨_, ⟨⟩, hn⟩
        exact hn

end JobExecutor

/-! ## The operation -/

namespace WorkerProcess

def createLog (w : WorkerProcess) (now : Time) (dto : CreateExecutionLogDto) : WorkerProcess :=
  { w with store := { w.store with
    logs := w.store.logs ++ [ExecutionRepository.newLog w.store.logs.length now dto] } }

/-- What `processJob` does with the result of the execution. -/
def conclude (w : WorkerProcess) (completedAt : Time) (jobId : JobId) (execLogId : ℕ)
    (result : ExecutionResult) : WorkerProcess :=
  if result.success then
    let w := w.updateJob completedAt jobId
      { status := some .completed, completedAt := some completedAt, result := result.result
        exitCode := result.exitCode }
    let w := w.completeLog
      { id := execLogId, status := .completed, completedAt := completedAt
        durationMs := result.durationMs, stdout := result.stdout, stderr := result.stderr
        exitCode := result.exitCode, result := result.result }
    w.onJobCompleted completedAt jobId .completed
  else
    w.handleFailure completedAt jobId ⟨execLogId, result, completedAt,
      if result.errorCode = some "JOB_TIMEOUT" then .timedOut else .failed⟩

/-- The row and the log before the execution. -/
def begin (w : WorkerProcess) (startedAt : Time) (workerId : String) (data : QueueJobPayload) :
    WorkerProcess :=
  let w := w.createLog startedAt
    { jobId := data.jobId, workerId := workerId, attemptNumber := data.attemptNumber
      status := .running, startedAt := startedAt }
  w.updateJob startedAt data.jobId
    { status := some .running, workerId := some workerId, startedAt := some startedAt }

/-- **`processJob`**, uninterrupted: whether it resolves, and what it leaves. The calls before the
execution are made at `startedAt`, those after it at `completedAt`. -/
def processJob (h : Handlers) (durationMs : ℕ) (startedAt completedAt : Time) (workerId : String)
    (data : QueueJobPayload) (w : WorkerProcess) : Bool × WorkerProcess :=
  match findById w.store.jobs data.jobId with
  | none => (true, w)
  | some job =>
      if job.status = .cancelled then (true, w)
      else
        let begun := w.begin startedAt workerId data
        match JobExecutor.execute h job durationMs with
        | none => (false, begun)
        | some result => (true, begun.conclude completedAt data.jobId w.store.logs.length result)

/-! ## What is recorded -/

variable {h : Handlers} {durationMs : ℕ} {startedAt completedAt now : Time} {workerId : String}
  {data : QueueJobPayload} {w : WorkerProcess} {job : Job} {jobId : JobId} {execLogId : ℕ}

def LogHasStatus (w : WorkerProcess) (execLogId : ℕ) (status : ExecutionStatus) : Prop :=
  ∃ l, w.store.logs[execLogId]? = some l ∧ l.id = execLogId ∧ l.status = status

/-- **The outcome is recorded** in the row of the job and in the log of the attempt. -/
def Recorded (w : WorkerProcess) (jobId : JobId) (execLogId : ℕ) : Prop :=
  (w.HasStatus jobId .completed ∨ w.HasStatus jobId .retrying ∨ w.HasStatus jobId .failed) ∧
    (w.LogHasStatus execLogId .completed ∨ w.LogHasStatus execLogId .failed ∨
      w.LogHasStatus execLogId .timedOut)

theorem LogHasStatus.completeLog {status : ExecutionStatus} (hlog : w.LogHasStatus execLogId status)
    {dto : CompleteExecutionLogDto} (hid : dto.id = execLogId) :
    (w.completeLog dto).LogHasStatus execLogId dto.status := by
  obtain ⟨l, hl, hlid, -⟩ := hlog
  refine ⟨ExecutionRepository.completed dto l, ?_, hlid, rfl⟩
  rw [WorkerProcess.completeLog]
  dsimp only
  rw [List.getElem?_map, hl, Option.map_some, if_pos (hlid.trans hid.symm)]

theorem LogHasStatus.handleFailure {status : ExecutionStatus} {f : Failure}
    (hlog : w.LogHasStatus f.execLogId status) (hjob : w.store.jobs.find? jobId = some job)
    (now : Time) :
    (w.handleFailure now jobId f).LogHasStatus f.execLogId f.finalStatus := by
  rw [WorkerProcess.handleFailure, findById, hjob]
  dsimp only
  split_ifs
  · exact hlog.completeLog rfl
  · exact hlog.completeLog rfl

/-- **A failure** is recorded. -/
theorem recorded_handleFailure {status : ExecutionStatus} {f : Failure}
    (hjob : w.store.jobs.find? jobId = some job) (hlog : w.LogHasStatus f.execLogId status)
    (hf : f.finalStatus = .failed ∨ f.finalStatus = .timedOut) :
    (w.handleFailure now jobId f).Recorded jobId f.execLogId := by
  constructor
  · rcases Nat.lt_or_ge job.retryCount job.maxRetries with hleft | hleft
    · exact .inr (.inl (handleFailure_retrying hjob hleft).1)
    · exact .inr (.inr (handleFailure_failed hjob hleft).1)
  · have hlogged := hlog.handleFailure hjob now
    rcases hf with hf | hf
    · exact .inr (.inl (hf ▸ hlogged))
    · exact .inr (.inr (hf ▸ hlogged))

/-- **Every result** is recorded. -/
theorem recorded_conclude (hjob : w.store.jobs.find? jobId = some job)
    (hlog : w.LogHasStatus execLogId .running) (result : ExecutionResult) :
    (w.conclude completedAt jobId execLogId result).Recorded jobId execLogId := by
  unfold conclude
  by_cases hsuccess : result.success = true
  · rw [if_pos hsuccess]
    refine ⟨.inl (HasStatus.onJobCompleted ?_ (fun h => JobStatus.noConfusion h) _), .inl ?_⟩
    · exact hasStatus_updateJob hjob rfl
    · exact LogHasStatus.completeLog (w := w.updateJob _ _ _) hlog rfl
  · rw [if_neg hsuccess]
    refine recorded_handleFailure hjob hlog ?_
    dsimp only
    split_ifs
    · exact .inr rfl
    · exact .inl rfl

theorem find?_begin (hjob : w.store.jobs.find? data.jobId = some job) (startedAt : Time)
    (workerId : String) :
    ∃ r, (w.begin startedAt workerId data).store.jobs.find? data.jobId = some r :=
  ⟨_, (find?_update ..).trans ((if_pos rfl).trans (congrArg (Option.map _) hjob))⟩

theorem logHasStatus_begin : (w.begin startedAt workerId data).LogHasStatus w.store.logs.length
    .running :=
  ⟨_, List.getElem?_concat_length, rfl, rfl⟩

def customJob : Job :=
  { newRow "a" 0 { Sys.simpleDto with payload := [("handlerName", "import")] } with
    status := .queued }

def customAlone : WorkerProcess :=
  ⟨{ Store.empty with jobs := Table.empty.insertIfAbsent customJob },
    DependencyResolver.emptyGraph⟩

/-- Only one handler is registered, and it rejects at once. -/
def rejecting (thrown : Thrown) : Handlers where
  builtIn _ _ := .pending
  customHandlers name := if name = some "import" then some fun _ => .rejects thrown else none

def customData : QueueJobPayload := Op.enqueueData customJob

def thrownError : Thrown := .value (some false) true (some (some "no such file")) (some none)

end WorkerProcess

/-! ## The steps of a run -/

namespace WorkerRun

variable {cfg : Config} {ok : Event → Prop} {a : WorkerRun} {s : Sys} {w : WorkerProcess}
  {h : Handlers} {durationMs : ℕ} {startedAt completedAt : Time}

/-- The calls and the execution of the run are answered, and the executor does its work. -/
structure Undisturbed (ok : Event → Prop) (a : WorkerRun) (h : Handlers) (durationMs : ℕ)
    (startedAt completedAt : Time) : Prop where
  before : ok (.call a.run false startedAt .ok [])
  execute : ok (.execute a.run)
  executed : ∀ job result, JobExecutor.execute h job durationMs = some result →
    ok (.executed a.run completedAt result)
  rejected : ∀ job, JobExecutor.execute h job durationMs = none → ok (.executeRejected a.run)
  after : ∀ second, ok (.call a.run second completedAt .ok [])

theorem Goes.conclude {execLogId : ℕ} {result : ExecutionResult}
    (hok : Undisturbed ok a h durationMs startedAt completedAt)
    (hat : a.Goes cfg ok s (Sys.afterExecution completedAt execLogId result) w) :
    a.Goes cfg ok s .resolved (w.conclude completedAt a.data.jobId execLogId result) := by
  unfold Sys.afterExecution at hat
  unfold WorkerProcess.conclude
  by_cases hsuccess : result.success = true
  · rw [if_pos hsuccess] at hat ⊢
    have hrow := hat.answer (hok.after false) rfl rfl rfl
    have hlog := hrow.answer (hok.after true) rfl rfl rfl
    exact hlog.report (hok.after false) rfl rfl
  · rw [if_neg hsuccess] at hat ⊢
    exact hat.handleFailure (hok.after false)

theorem Goes.begin {job : Job} (hok : Undisturbed ok a h durationMs startedAt completedAt)
    (hat : a.Goes cfg ok s .fetch w) (hjob : findById w.store.jobs a.data.jobId = some job)
    (hlive : job.status ≠ .cancelled) :
    a.Goes cfg ok s (.executing job w.store.logs.length)
      (w.begin startedAt a.workerId a.data) := by
  have hcreate : a.Goes cfg ok s (.createLog job startedAt) w := by
    refine hat.answer (c := .findById a.data.jobId) hok.before rfl rfl ?_
    rw [hjob]
    exact congrArg (·, w.graph) (if_neg hlive)
  have hset := hcreate.answer hok.before rfl rfl rfl
  have hbegun : a.Goes cfg ok s (.execute job w.store.logs.length)
      (w.begin startedAt a.workerId a.data) := hset.answer hok.before rfl rfl rfl
  refine hbegun.snoc hok.execute fun s₁ hat₁ => ⟨_, by rw [Sys.step, hat₁.op], ?_⟩
  exact ⟨getElem?_set_append_self hat₁.op _ _, hat₁.store, hat₁.graph⟩

/-- **The calls and the execution of `processJob`**, one after the other, do what the uninterrupted
operation does. -/
theorem Goes.processJob (hok : Undisturbed ok a h durationMs startedAt completedAt)
    (hat : a.Goes cfg ok s .fetch w) :
    let p := w.processJob h durationMs startedAt completedAt a.workerId a.data
    a.Goes cfg ok s (if p.1 then .resolved else .rejected) p.2 := by
  intro p
  have hp : p = w.processJob h durationMs startedAt completedAt a.workerId a.data := rfl
  rw [WorkerProcess.processJob] at hp
  cases hjob : findById w.store.jobs a.data.jobId with
  | none =>
      rw [hjob] at hp
      rw [hp]
      exact hat.answer (c := .findById a.data.jobId) hok.before rfl rfl (by rw [hjob]; rfl)
  | some job =>
      rw [hjob] at hp
      dsimp only at hp
      split_ifs at hp with hcancelled
      · rw [hp]
        refine hat.answer (c := .findById a.data.jobId) hok.before rfl rfl ?_
        rw [hjob]
        exact congrArg (·, w.graph) (if_pos hcancelled)
      · have hexecuting := hat.begin hok hjob hcancelled
        cases hx : JobExecutor.execute h job durationMs with
        | none =>
            rw [hx] at hp
            rw [hp]
            refine hexecuting.snoc (hok.rejected job hx) fun s₁ hat₁ =>
              ⟨_, by rw [Sys.step, hat₁.op], ?_⟩
            exact ⟨getElem?_set_append_self hat₁.op _ _, hat₁.store, hat₁.graph⟩
        | some result =>
            rw [hx] at hp
            rw [hp]
            refine Goes.conclude hok (hexecuting.snoc (hok.executed job result hx) fun s₁ hat₁ =>
              ⟨_, by rw [Sys.step, hat₁.op], ?_⟩)
            exact ⟨getElem?_set_append_self hat₁.op _ _, hat₁.store, hat₁.graph⟩

end WorkerRun

end TaskOrchestration

import TaskOrchestration.System.Payloads

set_option autoImplicit false

/-!
# Every outcome has its cause

What the tables say of a job has happened. A job is `COMPLETED` because an execution of it has
succeeded, and the row, the history and the dead letter queue tell what that execution returned, at
the time when it did; a job is `CANCELLED` because a member of its organization has asked for it.

* `Returned`, `FoundStalled`, `Polled`: what may have happened before;
* `completion`: what a run writes into the history when its execution has returned;
* `Reason`, `Call.Caused`, `Op.Caused`: a call, or an operation, has its cause;
  `caused_pending`, `caused_resume`, `caused_abort`;
* `Explained`, `Told`: a row has its cause; **`explained_exec`**;
* `AllCaused`: the invariant; **`outcomes_have_causes`**.
-/

namespace TaskOrchestration

open LabelledRun JobRepository JobService

namespace Sys

/-! ## What may have happened -/

def Executes (s : Sys) (run : ℕ) (id : JobId) : Prop :=
  ∃ process workerId entry data job logId,
    s.ops[run]? = some (.processJob process workerId entry data (.executing job logId)) ∧
      data.jobId = id

/-- **An execution of the job has returned**, at this time. -/
def Returned (cfg : Config) (es : List Event) (id : JobId) (now : Time)
    (result : ExecutionResult) : Prop :=
  Happened (step cfg) init (fun s e => ∃ run, e = .executed run now result ∧ s.Executes run id) es

/-- A recovery has been told that the job is stalled. -/
def FoundStalled (cfg : Config) (es : List Event) (job : Job) : Prop :=
  Happened (step cfg) init (fun s e => ∃ run second now locked,
    e = .call run second now .ok locked ∧ s.ops[run]? = some .recoverStalledJobs ∧
      job ∈ findStalledJobs s.store.jobs now cfg.stalledJobThresholdMs) es

/-- A poll has claimed the job, when it was due and its dependencies were resolved; the answer may
be lost. -/
def Polled (cfg : Config) (es : List Event) (id : JobId) : Prop :=
  Happened (step cfg) init (fun s e => ∃ run second now outcome locked,
    e = .call run second now outcome locked ∧ outcome ≠ .fail ∧
      s.ops[run]? = some .scheduleReadyJobs ∧
      ∃ r, s.store.jobs.find? id = some r ∧ Claimable now r ∧
        claimed now r ∈ (claimPendingJobs s.store.jobs now cfg.batchSize locked).2) es

end Sys

open Sys

def ExecutionResult.status (result : ExecutionResult) : ExecutionStatus :=
  if result.success then .completed
  else if result.errorCode = some "JOB_TIMEOUT" then .timedOut
  else .failed

/-- **What a run writes into the history.** -/
def completion (execLogId : ℕ) (now : Time) (result : ExecutionResult) : CompleteExecutionLogDto :=
  if result.success then
    { id := execLogId, status := .completed, completedAt := now
      durationMs := result.durationMs, stdout := result.stdout, stderr := result.stderr
      exitCode := result.exitCode, result := result.result }
  else
    { id := execLogId, status := result.status, completedAt := now
      durationMs := result.durationMs, stdout := result.stdout, stderr := result.stderr
      errorMessage := result.errorMessage, errorStack := result.errorStack
      errorCode := result.errorCode }

/-- The log row is about this job and this worker. -/
def LoggedFor (logs : List ExecutionLog) (logId : ℕ) (id : JobId) (workerId : String) : Prop :=
  ∃ log, logs[logId]? = some log ∧ log.jobId = id ∧ log.workerId = workerId

section Causes

variable (cfg : Config) (es : List Event)

/-! ## Why a call is made -/

/-- **Why a row is updated.** -/
inductive Reason (st : Store) (id : JobId) : UpdateJobDto → Prop
  | pending : Reason st id { status := some .pending }
  | running {logId : ℕ} {workerId : String} {startedAt : Time} :
      LoggedFor st.logs logId id workerId → Reason st id
        { status := some .running, workerId := some workerId, startedAt := some startedAt }
  | completed {now : Time} {result : ExecutionResult} :
      Returned cfg es id now result → result.success = true → Reason st id
        { status := some .completed, completedAt := some now, result := result.result
          exitCode := result.exitCode }
  | retrying {now : Time} {result : ExecutionResult} {n : ℕ} :
      Returned cfg es id now result → result.success = false → Reason st id
        { status := some .retrying, retryCount := some n }
  | failed {now : Time} {result : ExecutionResult} :
      Returned cfg es id now result → result.success = false → Reason st id
        { status := some .failed, completedAt := some now, errorMessage := result.errorMessage
          errorStack := result.errorStack, exitCode := result.exitCode }
  | stalled {job : Job} {now : Time} :
      FoundStalled cfg es job → job.id = id → job.maxRetries ≤ job.retryCount → Reason st id
        { status := some .failed
          errorMessage := some "Job stalled: worker did not complete within timeout"
          completedAt := some now }
  | cancelled {r : Job} {now : Time} :
      st.jobs.find? id = some r → .start (.cancelJob id r.organizationId) ∈ es →
      Reason st id (cancelDto now)

/-- The entry tells how an execution of its job has failed. -/
def Buried (d : DLQEntry) : Prop :=
  ∃ result, Returned cfg es d.originalJobId d.lastFailedAt result ∧ result.success = false ∧
    d.failureReason = result.errorMessage.getD "Unknown error" ∧
      d.failureStack = result.errorStack

def Call.Caused (st : Store) : Call → Prop
  | update id dto => Reason cfg es st id dto
  | createLog dto => dto.status = .running
  | completeLog dto => ∃ id workerId now result, LoggedFor st.logs dto.id id workerId ∧
      Returned cfg es id now result ∧ dto = completion dto.id now result
  | addDlq d => Buried cfg es d
  | _ => True

/-- A run of `processJob` for the job tells of an execution of it. -/
def ProcessPc.Caused (logs : List ExecutionLog) (id : JobId) (workerId : String) :
    ProcessPc → Prop
  | setRunning _ logId _ | execute _ logId | executing _ logId => LoggedFor logs logId id workerId
  | success result logId now _ _ => LoggedFor logs logId id workerId ∧
      Returned cfg es id now result ∧ result.success = true
  | failRead f | failLog _ f | failFinal _ f | failDlq _ f =>
      LoggedFor logs f.execLogId id workerId ∧ Returned cfg es id f.completedAt f.result ∧
        f.result.success = false ∧ f.finalStatus = f.result.status
  | failRetry _ => ∃ now result, Returned cfg es id now result ∧ result.success = false
  | _ => True

def Op.Caused (st : Store) : Op → Prop
  | processJob _ workerId _ data pc => pc.Caused cfg es st.logs data.jobId workerId
  | recover jobs _ => ∀ job ∈ jobs, FoundStalled cfg es job
  | cancelJob id organizationId => Event.start (.cancelJob id organizationId) ∈ es
  | writeCancelled id _ => ∃ r, st.jobs.find? id = some r ∧
      Event.start (.cancelJob id r.organizationId) ∈ es
  | orphan c => c.Caused cfg es st
  | _ => True

/-! ## What the rows tell -/

/-- **The status of a row has its cause**, and the columns tell of it. -/
def StatusExplained (logs : List ExecutionLog) (r : Job) : Prop :=
  match r.status with
  | .pending => True
  | .queued => Polled cfg es r.id
  | .running => ∃ logId workerId, LoggedFor logs logId r.id workerId ∧ r.workerId = some workerId
  | .completed => ∃ now result, Returned cfg es r.id now result ∧ result.success = true ∧
      r.completedAt = some now ∧ ∀ o ∈ result.result, r.result = some o
  | .retrying => ∃ now result, Returned cfg es r.id now result ∧ result.success = false
  | .failed => (∃ now result, Returned cfg es r.id now result ∧ result.success = false ∧
        r.completedAt = some now ∧ ∀ m ∈ result.errorMessage, r.errorMessage = some m) ∨
      ∃ job, FoundStalled cfg es job ∧ job.id = r.id ∧ job.maxRetries ≤ job.retryCount
  | .cancelled => Event.start (.cancelJob r.id r.organizationId) ∈ es
  | .timedOut | .skipped => False

/-- **A row has its cause.** What an earlier execution has left there is told too. -/
structure Explained (logs : List ExecutionLog) (r : Job) : Prop where
  status : StatusExplained cfg es logs r
  result : ∀ o ∈ r.result, ∃ now result,
    Returned cfg es r.id now result ∧ result.success = true ∧ result.result = some o
  exitCode : ∀ x ∈ r.exitCode, ∃ now result,
    Returned cfg es r.id now result ∧ result.exitCode = some x
  error : ∀ m ∈ r.errorMessage, (∃ now result, Returned cfg es r.id now result ∧
      result.success = false ∧ result.errorMessage = some m) ∨
    ∃ job, FoundStalled cfg es job ∧ job.id = r.id ∧ job.maxRetries ≤ job.retryCount

/-- **An attempt has its cause**: it has not ended, or its execution has returned what the row
tells. -/
def Told (l : ExecutionLog) : Prop :=
  (l.status = .running ∧ l.completedAt = none) ∨
    ∃ now result l₀, Returned cfg es l.jobId now result ∧
      l = ExecutionRepository.completed (completion l.id now result) l₀

end Causes

/-! ## Later tables, and more events -/

section Monotone

variable {cfg : Config} {es es' : List Event} {st st' : Store} {now : Time} {locked : List JobId}
  {c : Call} {op : Op} {reply : Reply}

theorem LoggedFor.exec {logId : ℕ} {id : JobId} {workerId : String}
    (h : LoggedFor st.logs logId id workerId) (hx : st.exec now locked c = some (st', reply)) :
    LoggedFor st'.logs logId id workerId := by
  obtain ⟨log, hlog, hid, hworker⟩ := h
  cases c with
  | createLog dto =>
      obtain ⟨rfl, -⟩ := Prod.mk.inj (Option.some.inj hx)
      exact ⟨log, getElem?_append_of_some hlog _, hid, hworker⟩
  | completeLog dto =>
      obtain ⟨rfl, -⟩ := Prod.mk.inj (Option.some.inj hx)
      refine ⟨completedIn dto log, ?_, (completedIn_jobId dto log).1.trans hid, ?_⟩
      · rw [List.getElem?_map, hlog]
        rfl
      · rw [← hworker, completedIn]
        split_ifs <;> rfl
  | _ =>
      rw [LoggedFor, logs_exec hx (fun _ he => Call.noConfusion he)
        fun _ he => Call.noConfusion he]
      exact ⟨log, hlog, hid, hworker⟩

/-- **Later**: every row is still there, and the events have gone on. -/
structure Later (es : List Event) (st : Store) (es' : List Event) (st' : Store) : Prop where
  events : es <+: es'
  jobs : Defines st.jobs st'.jobs
  logs : ∀ logId id workerId, LoggedFor st.logs logId id workerId →
    LoggedFor st'.logs logId id workerId

theorem later_snoc (es : List Event) (e : Event) (st : Store) : Later es st (es ++ [e]) st :=
  ⟨List.prefix_append _ _, .refl _, fun _ _ _ h => h⟩

theorem later_exec (hx : st.exec now locked c = some (st', reply)) : Later es st es st' :=
  ⟨List.prefix_rfl, Store.exec_definition hx, fun _ _ _ h => h.exec hx⟩

theorem Later.asked (hl : Later es st es' st') {id : JobId} {r : Job}
    (hr : st.jobs.find? id = some r) (he : Event.start (.cancelJob id r.organizationId) ∈ es) :
    ∃ r', st'.jobs.find? id = some r' ∧ Event.start (.cancelJob id r'.organizationId) ∈ es' := by
  obtain ⟨r', hr', hd⟩ := hl.jobs _ _ hr
  have horg : r'.organizationId = r.organizationId :=
    congrArg Origin.organizationId (Job.origin_of_definition hd)
  exact ⟨r', hr', hl.events.subset (horg ▸ he)⟩

theorem Reason.mono {id : JobId} {dto : UpdateJobDto} (h : Reason cfg es st id dto)
    (hl : Later es st es' st') : Reason cfg es' st' id dto := by
  cases h with
  | pending => exact .pending
  | running hlog => exact .running (hl.logs _ _ _ hlog)
  | completed hr hs => exact .completed (hr.mono hl.events) hs
  | retrying hr hs => exact .retrying (hr.mono hl.events) hs
  | failed hr hs => exact .failed (hr.mono hl.events) hs
  | stalled hf hid hmax => exact .stalled (hf.mono hl.events) hid hmax
  | cancelled hr he =>
      obtain ⟨r', hr', he'⟩ := hl.asked hr he
      exact .cancelled hr' he'

theorem Buried.mono {d : DLQEntry} (h : Buried cfg es d) (hes : es <+: es') :
    Buried cfg es' d := by
  obtain ⟨result, hr, hrest⟩ := h
  exact ⟨result, hr.mono hes, hrest⟩

theorem Call.Caused.mono (h : c.Caused cfg es st) (hl : Later es st es' st') :
    c.Caused cfg es' st' := by
  cases c with
  | update id dto => exact Reason.mono h hl
  | completeLog dto =>
      obtain ⟨id, workerId, now, result, hlog, hr, hdto⟩ := h
      exact ⟨id, workerId, now, result, hl.logs _ _ _ hlog, hr.mono hl.events, hdto⟩
  | addDlq d => exact Buried.mono h hl.events
  | createLog dto => exact h
  | _ => trivial

theorem ProcessPc.Caused.mono {pc : ProcessPc} {id : JobId} {workerId : String}
    (h : pc.Caused cfg es st.logs id workerId) (hl : Later es st es' st') :
    pc.Caused cfg es' st'.logs id workerId := by
  cases pc with
  | setRunning | execute | executing => exact hl.logs _ _ _ h
  | success => exact ⟨hl.logs _ _ _ h.1, h.2.1.mono hl.events, h.2.2⟩
  | failRead | failLog | failFinal | failDlq =>
      exact ⟨hl.logs _ _ _ h.1, h.2.1.mono hl.events, h.2.2⟩
  | failRetry =>
      obtain ⟨now, result, hr, hs⟩ := h
      exact ⟨now, result, hr.mono hl.events, hs⟩
  | _ => trivial

theorem Op.Caused.mono (h : op.Caused cfg es st) (hl : Later es st es' st') :
    op.Caused cfg es' st' := by
  cases op with
  | processJob process workerId entry data pc => exact ProcessPc.Caused.mono h hl
  | recover jobs now => exact fun job hjob => (h job hjob).mono hl.events
  | cancelJob id organizationId => exact hl.events.subset h
  | writeCancelled id now =>
      obtain ⟨r, hr, he⟩ := h
      exact hl.asked hr he
  | orphan c => exact Call.Caused.mono h hl
  | _ => trivial

/-! ## What an operation does -/

/-- **The call of a run** has its cause. -/
theorem ProcessPc.Caused.caused_call {pc : ProcessPc} {data : QueueJobPayload}
    {workerId : String} {second : Bool} (h : pc.Caused cfg es st.logs data.jobId workerId)
    (hc : pc.call workerId data second = some c) : c.Caused cfg es st := by
  unfold ProcessPc.call at hc
  split at hc
  case h_13 => cases hc
  all_goals obtain rfl := Option.some.inj hc
  case h_2 => rfl
  case h_3 => exact .running h
  case h_4 => exact .completed h.2.1 h.2.2
  case h_5 =>
    obtain ⟨hlog, hr, hs⟩ := h
    exact ⟨_, _, _, _, hlog, hr, by rw [completion, if_pos hs]⟩
  case h_7 =>
    obtain ⟨hlog, hr, hs, hst⟩ := h
    refine ⟨_, _, _, _, hlog, hr, ?_⟩
    rw [completion, hst, if_neg (by rw [hs]; exact Bool.false_ne_true)]
  case h_8 =>
    obtain ⟨_, _, hr, hs⟩ := h
    exact .retrying hr hs
  case h_9 => exact .failed h.2.1 h.2.2.1
  case h_10 => exact ⟨_, h.2.1, h.2.2.1, rfl, rfl⟩
  all_goals trivial

/-- **The call of an operation** has its cause. -/
theorem Op.Caused.caused_pending {second : Bool} (h : op.Caused cfg es st)
    (hc : op.pending cfg second = some c) : c.Caused cfg es st := by
  unfold Op.pending at hc
  split at hc
  case h_1 => exact ProcessPc.Caused.caused_call h hc
  case h_16 => cases hc
  all_goals obtain rfl := Option.some.inj hc
  case h_4 => exact .pending
  case h_6 job jobs now =>
    have hjob := h job List.mem_cons_self
    change Reason cfg es st job.id (recoverDto job now)
    unfold recoverDto
    split_ifs with hmax
    · exact .pending
    · exact .stalled hjob rfl (Nat.le_of_not_lt hmax)
  case h_8 =>
    obtain ⟨r, hr, he⟩ := h
    exact .cancelled hr he
  case h_10 => exact .pending
  case h_15 => exact h
  all_goals trivial

/-- **An answer** leaves a run with its cause. -/
theorem ProcessPc.Caused.caused_resume {g : DependencyResolver.Graph} {pc : ProcessPc}
    {data : QueueJobPayload} {workerId : String} {second : Bool}
    (h : pc.Caused cfg es st.logs data.jobId workerId)
    (hc : pc.call workerId data second = some c) (hx : st.exec now locked c = some (st', reply)) :
    (pc.resume g now data second reply).1.Caused cfg es st'.logs data.jobId workerId := by
  have hlater := h.mono (later_exec hx)
  have hafter : ∀ status n,
      (ProcessPc.afterResolver status n).Caused cfg es st'.logs data.jobId workerId := by
    intro status n
    cases n with
    | zero => unfold ProcessPc.afterResolver; split_ifs <;> trivial
    | succ n => trivial
  unfold ProcessPc.resume
  split
  case h_1 => dsimp only; split_ifs <;> trivial
  case h_3 job startedAt logId =>
    cases second with
    | true => cases hc
    | false =>
        obtain rfl := Option.some.inj hc
        obtain ⟨rfl, hrep⟩ := Prod.mk.inj (Option.some.inj hx)
        obtain rfl := Reply.log.inj hrep
        exact ⟨_, List.getElem?_concat_length, rfl, rfl⟩
  case h_10 f =>
    dsimp only
    split_ifs
    · exact ⟨_, _, hlater.2.1, hlater.2.2.1⟩
    · exact hlater
  all_goals first
    | exact hlater
    | exact hafter _ _
    | trivial

/-- **An answer** leaves an operation, and those that it starts, with their causes. -/
theorem Op.Caused.caused_resume {op' : Op} {g : DependencyResolver.Graph} {second : Bool}
    (h : op.Caused cfg es st) (hc : op.pending cfg second = some c)
    (hx : st.exec now locked c = some (st', reply))
    (hfound : op = .recoverStalledJobs → ∀ job ∈ findStalledJobs st.jobs now
      cfg.stalledJobThresholdMs, FoundStalled cfg es job)
    (hop' : op' = (op.resume g now second reply).1 ∨ op' ∈ (op.resume g now second reply).2.1) :
    op'.Caused cfg es st' := by
  cases leads_of_resume hop' with
  | processJob => exact ProcessPc.Caused.caused_resume h hc hx
  | recoverStalledJobs hr =>
      subst hr
      cases second with
      | true => cases hc
      | false =>
          obtain rfl := Option.some.inj hc
          obtain ⟨-, hrep⟩ := Prod.mk.inj (Option.some.inj hx)
          exact Reply.jobs.inj hrep ▸ hfound rfl
  | recover => exact fun job hjob => h job (List.mem_of_mem_tail hjob)
  | @cancelJob id organizationId row job hr hok =>
      subst hr
      obtain ⟨hrow, horg, -⟩ := checkCancel_eq_ok.mp hok
      cases second with
      | true => cases hc
      | false =>
          obtain rfl := Option.some.inj hc
          have hread : st.jobs.find? id = some job :=
            (Reply.job.inj (Store.exec_findById hx)).symm.trans hrow
          have hasked : Event.start (.cancelJob id job.organizationId) ∈ es := horg ▸ h
          exact (later_exec hx).asked hread hasked
  | _ => trivial

/-- **An error** leaves an operation, and the call that it leaves behind, with their causes. -/
theorem Op.Caused.caused_abort {op' : Op} {second : Bool} (h : op.Caused cfg es st)
    (hop' : op' = (op.abort second).1 ∨ op' ∈ (op.abort second).2) : op'.Caused cfg es st := by
  cases leaves_of_abort hop' with
  | @orphan process workerId entry data pc c hother =>
      cases pc with
      | success result logId t rowWritten logWritten =>
          have hrun : (ProcessPc.success result logId t rowWritten logWritten).Caused cfg es
            st.logs data.jobId workerId := h
          exact hrun.caused_call hother
      | _ => cases hother
  | _ => trivial

/-! ## What the rows tell after a call -/

theorem StatusExplained.mono {r : Job} (h : StatusExplained cfg es st.logs r)
    (hl : Later es st es' st') : StatusExplained cfg es' st'.logs r := by
  unfold StatusExplained at h ⊢
  split at h
  case h_1 => trivial
  case h_2 => exact Happened.mono h hl.events
  case h_3 =>
    obtain ⟨logId, workerId, hlog, hw⟩ := h
    exact ⟨logId, workerId, hl.logs _ _ _ hlog, hw⟩
  case h_4 =>
    obtain ⟨t, result, hr, hrest⟩ := h
    exact ⟨t, result, hr.mono hl.events, hrest⟩
  case h_5 =>
    obtain ⟨t, result, hr, hs⟩ := h
    exact ⟨t, result, hr.mono hl.events, hs⟩
  case h_6 =>
    rcases h with ⟨t, result, hr, hrest⟩ | ⟨job, hf, hrest⟩
    · exact .inl ⟨t, result, hr.mono hl.events, hrest⟩
    · exact .inr ⟨job, hf.mono hl.events, hrest⟩
  case h_7 => exact hl.events.subset h
  all_goals exact h.elim

theorem Explained.mono {r : Job} (h : Explained cfg es st.logs r) (hl : Later es st es' st') :
    Explained cfg es' st'.logs r where
  status := h.status.mono hl
  result := fun o ho => by
    obtain ⟨t, result, hr, hrest⟩ := h.result o ho
    exact ⟨t, result, hr.mono hl.events, hrest⟩
  exitCode := fun x hx => by
    obtain ⟨t, result, hr, hrest⟩ := h.exitCode x hx
    exact ⟨t, result, hr.mono hl.events, hrest⟩
  error := fun m hm => by
    rcases h.error m hm with ⟨t, result, hr, hrest⟩ | ⟨job, hf, hrest⟩
    · exact .inl ⟨t, result, hr.mono hl.events, hrest⟩
    · exact .inr ⟨job, hf.mono hl.events, hrest⟩

/-- **A row after an update** that has its reason. -/
theorem explained_toRow {r : Job} {dto : UpdateJobDto} (h : Explained cfg es st.logs r)
    (hr : st.jobs.find? r.id = some r) (hreason : Reason cfg es st r.id dto) :
    Explained cfg es st.logs (toRow now dto r) := by
  cases hreason with
  | pending => exact ⟨trivial, h.result, h.exitCode, h.error⟩
  | running hlog => exact ⟨⟨_, _, hlog, rfl⟩, h.result, h.exitCode, h.error⟩
  | @completed t result hret hs =>
      refine ⟨⟨t, result, hret, hs, rfl, fun o ho => Option.or_eq_some_iff.mpr (.inl ho)⟩,
        fun o ho => ?_, fun x hx => ?_, h.error⟩
      · rcases Option.or_eq_some_iff.mp ho with hnew | ⟨-, hold⟩
        · exact ⟨t, result, hret, hs, hnew⟩
        · exact h.result o hold
      · rcases Option.or_eq_some_iff.mp hx with hnew | ⟨-, hold⟩
        · exact ⟨t, result, hret, hnew⟩
        · exact h.exitCode x hold
  | retrying hret hs => exact ⟨⟨_, _, hret, hs⟩, h.result, h.exitCode, h.error⟩
  | @failed t result hret hs =>
      refine ⟨.inl ⟨t, result, hret, hs, rfl, fun m hm => Option.or_eq_some_iff.mpr (.inl hm)⟩,
        h.result, fun x hx => ?_, fun m hm => ?_⟩
      · rcases Option.or_eq_some_iff.mp hx with hnew | ⟨-, hold⟩
        · exact ⟨t, result, hret, hnew⟩
        · exact h.exitCode x hold
      · rcases Option.or_eq_some_iff.mp hm with hnew | ⟨-, hold⟩
        · exact .inl ⟨t, result, hret, hs, hnew⟩
        · exact h.error m hold
  | stalled hf hid hmax =>
      exact ⟨.inr ⟨_, hf, hid, hmax⟩, h.result, h.exitCode, fun _ _ => .inr ⟨_, hf, hid, hmax⟩⟩
  | @cancelled r' t hr' he =>
      obtain rfl := Option.some.inj (hr.symm.trans hr')
      exact ⟨he, h.result, h.exitCode, h.error⟩

/-- **The rows after a call** have their causes. -/
theorem explained_exec (h : ∀ r ∈ st.jobs, Explained cfg es st.logs r)
    (hcause : c.Caused cfg es st) (hx : st.exec now locked c = some (st', reply))
    (hpolled : ∀ limit, c = .claimPendingJobs limit → ∀ id r, st.jobs.find? id = some r →
      Claimable now r → claimed now r ∈ (claimPendingJobs st.jobs now limit locked).2 →
        Polled cfg es id) :
    ∀ r ∈ st'.jobs, Explained cfg es st'.logs r := by
  intro r' hr'
  have hl : Later es st es st' := later_exec hx
  have hk' := Table.mem_iff_find?.mp hr'
  rcases Store.exec_row hx hk' with ⟨-, dto, -, hnew⟩ | ⟨r, hk, hcase⟩
  · rw [hnew]
    exact ⟨trivial, nofun, nofun, nofun⟩
  · have hid : r.id = r'.id := Table.key_of_find? hk
    have hr := h r (Table.mem_of_find? hk)
    rcases hcase with rfl | ⟨dto, rfl, rfl⟩ | ⟨-, rfl, limit, rfl, -⟩ | rfl
    · exact hr.mono hl
    · exact (explained_toRow hr hk hcause).mono hl
    · obtain ⟨rfl, -⟩ := Prod.mk.inj (Option.some.inj hx)
      rcases find?_claimPendingJobs hk' with hsame | ⟨r₀, hr₀, hclaim, hrow, hmem⟩
      · have he := Option.some.inj (hk.symm.trans hsame)
        rw [← he]
        exact hr
      · have hpoll := hpolled limit rfl _ r₀ hr₀ hclaim (hrow ▸ hmem)
        exact ⟨hpoll, hr.result, hr.exitCode, hr.error⟩
    · have hsame := hr.mono hl
      exact ⟨hsame.status, hsame.result, hsame.exitCode, hsame.error⟩

theorem Told.mono {l : ExecutionLog} (h : Told cfg es l) (hes : es <+: es') : Told cfg es' l := by
  rcases h with h | ⟨t, result, l₀, hr, hrest⟩
  · exact .inl h
  · exact .inr ⟨t, result, l₀, hr.mono hes, hrest⟩

/-- **The history after a call** has its causes. -/
theorem told_exec (h : ∀ l ∈ st.logs, Told cfg es l) (hindexed : Indexed st.logs)
    (hcause : c.Caused cfg es st) (hx : st.exec now locked c = some (st', reply)) :
    ∀ l ∈ st'.logs, Told cfg es l := by
  intro l' hl'
  cases c with
  | createLog dto =>
      obtain ⟨rfl, -⟩ := Prod.mk.inj (Option.some.inj hx)
      rcases List.mem_append.mp hl' with hold | hnew
      · exact h l' hold
      · obtain rfl := List.mem_singleton.mp hnew
        exact .inl ⟨hcause, rfl⟩
  | completeLog dto =>
      obtain ⟨rfl, -⟩ := Prod.mk.inj (Option.some.inj hx)
      obtain ⟨l, hl, rfl⟩ := List.mem_map.mp hl'
      split_ifs with hid
      · obtain ⟨id, workerId, t, result, ⟨log, hlog, hjob, -⟩, hr, hdto⟩ := hcause
        obtain ⟨n, hn⟩ := List.mem_iff_getElem?.mp hl
        obtain rfl : n = dto.id := (hindexed n l hn).symm.trans hid
        obtain rfl := Option.some.inj (hn.symm.trans hlog)
        refine .inr ⟨t, result, l, hjob ▸ hr, ?_⟩
        rw [show (ExecutionRepository.completed dto l).id = dto.id from hid, ← hdto]
      · exact h l hl
  | _ =>
      rw [logs_exec hx (fun _ he => Call.noConfusion he) fun _ he => Call.noConfusion he] at hl'
      exact h l' hl'

end Monotone

/-! ## The invariant -/

namespace Sys

variable {cfg : Config} {s s' : Sys} {e : Event} {es : List Event}

/-- **Everything that is told has happened**: the rows, the history, the dead letter queue, and what
the operations hold. -/
structure AllCaused (cfg : Config) (es : List Event) (s : Sys) : Prop where
  rows : ∀ r ∈ s.store.jobs, Explained cfg es s.store.logs r
  logs : ∀ l ∈ s.store.logs, Told cfg es l
  dlq : ∀ d ∈ s.store.dlq, Buried cfg es d
  indexed : Indexed s.store.logs
  ops : ∀ op ∈ s.ops, op.Caused cfg es s.store

theorem allCaused_init : AllCaused cfg [] init where
  rows := fun r hr => absurd hr (Table.not_mem_empty r)
  logs := fun _ hl => absurd hl List.not_mem_nil
  dlq := fun d hd => absurd hd (Table.not_mem_empty d)
  indexed := fun _ _ hi => absurd hi (by simp [init, Store.empty])
  ops := fun _ hop => absurd hop List.not_mem_nil

theorem AllCaused.snoc (h : AllCaused cfg es s) (e : Event) : AllCaused cfg (es ++ [e]) s where
  rows := fun r hr => (h.rows r hr).mono (later_snoc es e s.store)
  logs := fun l hl => (h.logs l hl).mono (List.prefix_append _ _)
  dlq := fun d hd => (h.dlq d hd).mono (List.prefix_append _ _)
  indexed := h.indexed
  ops := fun op hop => (h.ops op hop).mono (later_snoc es e s.store)

theorem AllCaused.sameTables (h : AllCaused cfg es s) (hj : s'.store.jobs = s.store.jobs)
    (hl : s'.store.logs = s.store.logs) (hd : s'.store.dlq = s.store.dlq)
    (hops : ∀ op ∈ s'.ops, op ∈ s.ops ∨ op.Caused cfg es s.store) :
    AllCaused cfg es s' where
  rows := by rw [hj, hl]; exact h.rows
  logs := by rw [hl]; exact h.logs
  dlq := by rw [hd]; exact h.dlq
  indexed := by rw [hl]; exact h.indexed
  ops := fun op hop => by
    have hlater : Later es s.store es s'.store := by
      refine ⟨List.prefix_rfl, ?_, fun _ _ _ hlog => ?_⟩
      · rw [hj]; exact .refl _
      · rw [hl]; exact hlog
    rcases hops op hop with hold | hnew
    · exact (h.ops op hold).mono hlater
    · exact hnew.mono hlater

theorem AllCaused.exec {st : Store} {now : Time} {locked : List JobId} {c : Call} {reply : Reply}
    (h : AllCaused cfg es s) (hcause : c.Caused cfg es s.store)
    (hx : s.store.exec now locked c = some (st, reply))
    (hpolled : ∀ limit, c = .claimPendingJobs limit → ∀ id r, s.store.jobs.find? id = some r →
      Claimable now r → claimed now r ∈ (claimPendingJobs s.store.jobs now limit locked).2 →
        Polled cfg es id)
    (hst : s'.store = st) (hops : ∀ op ∈ s'.ops, op ∈ s.ops ∨ op.Caused cfg es st) :
    AllCaused cfg es s' := by
  subst hst
  refine ⟨explained_exec h.rows hcause hx hpolled, told_exec h.logs h.indexed hcause hx,
    fun d hd => ?_, indexed_exec h.indexed hx, fun op hop => ?_⟩
  · rcases Store.dlq_exec hx hd with hold | rfl
    · exact h.dlq d hold
    · exact hcause
  · rcases hops op hop with hold | hnew
    · exact (h.ops op hold).mono (later_exec hx)
    · exact hnew

theorem caused_of_request {op : Op} (hr : op.IsRequest) (st : Store) :
    op.Caused cfg (es ++ [.start op]) st := by
  cases op with
  | cancelJob id organizationId => exact List.mem_append_right _ List.mem_cons_self
  | scheduleReadyJobs | recoverStalledJobs | retryJob | replayJob | submitJob => trivial
  | _ => exact absurd hr id

theorem caused_afterExecution {logs : List ExecutionLog} {id : JobId} {workerId : String}
    {now : Time} {logId : ℕ} {result : ExecutionResult} (hlog : LoggedFor logs logId id workerId)
    (hreturned : Returned cfg es id now result) :
    (afterExecution now logId result).Caused cfg es logs id workerId := by
  by_cases hsuccess : result.success = true
  · rw [afterExecution, if_pos hsuccess]
    exact ⟨hlog, hreturned, hsuccess⟩
  · have hstatus : result.status =
        if result.errorCode = some "JOB_TIMEOUT" then .timedOut else .failed := by
      rw [ExecutionResult.status, if_neg hsuccess]
    rw [afterExecution, if_neg hsuccess, ← hstatus]
    exact ⟨hlog, hreturned, Bool.eq_false_of_not_eq_true hsuccess, rfl⟩

theorem scheduleReadyJobs_of_claim {op : Op} {second : Bool} {limit : ℕ} (ht : op.tidy = true)
    (hc : op.pending cfg second = some (.claimPendingJobs limit)) :
    op = .scheduleReadyJobs ∧ limit = cfg.batchSize := by
  have hop : op = .scheduleReadyJobs := by
    refine Op.of_pending_claim hc ?_
    cases op with
    | orphan c =>
        cases second with
        | true => cases hc
        | false =>
            obtain rfl := Option.some.inj hc
            cases ht
    | _ => rfl
  subst hop
  cases second with
  | true => cases hc
  | false => exact ⟨rfl, (Call.claimPendingJobs.inj (Option.some.inj hc)).symm⟩

theorem allCaused_step (h : AllCaused cfg es s) (hrun : Run (step cfg) anyStep init es s)
    (ht : Tidy s) (hs : s.step cfg e = some s') : AllCaused cfg (es ++ [e]) s' := by
  have h' := h.snoc e
  have hmoved : ∀ {run : ℕ} {op op' : Op} {spawned : List Op} {st : Store},
      op ∈ s.ops.set run op' ++ spawned →
      (op = op' ∨ op ∈ spawned → op.Caused cfg (es ++ [e]) st) →
      op ∈ s.ops ∨ op.Caused cfg (es ++ [e]) st := by
    intro run op op' spawned st hop hnew
    rcases mem_moveTo hop with hold | hmem
    · exact .inl hold
    · exact .inr (hnew hmem)
  cases stepTo_of_step hs with
  | start hr =>
      refine h'.sameTables rfl rfl rfl fun op hop => ?_
      rcases mem_snoc hop with hold | rfl
      · exact .inl hold
      · exact .inr (caused_of_request hr s.store)
  | pickUp =>
      refine h'.sameTables rfl rfl rfl fun op hop => ?_
      rcases mem_snoc hop with hold | rfl
      · exact .inl hold
      · exact .inr trivial
  | @answered run second now locked op c st reply hop hc hx =>
      have hmem := List.mem_of_getElem? hop
      have hg := h'.ops op hmem
      refine h'.exec (hg.caused_pending hc) hx ?_ rfl fun op' hop' => hmoved hop' fun hnew => ?_
      · rintro limit rfl id r hr hclaim hreturned
        obtain ⟨rfl, rfl⟩ := scheduleReadyJobs_of_claim (ht op hmem) hc
        have hok : Outcome.ok ≠ .fail := by decide
        exact hrun.happened
          ⟨run, second, now, .ok, locked, rfl, hok, hop, r, hr, hclaim, hreturned⟩
      · refine hg.caused_resume hc hx ?_ hnew
        rintro rfl job hjob
        exact hrun.happened ⟨run, second, now, locked, rfl, hop, hjob⟩
  | @errored run second now outcome locked op c st hop hc _ hst =>
      have hmem := List.mem_of_getElem? hop
      have hg := h'.ops op hmem
      rcases hst with ⟨rfl, -⟩ | ⟨rfl, reply, hx⟩
      · exact h'.sameTables rfl rfl rfl fun op' hop' => hmoved hop' hg.caused_abort
      · refine h'.exec (hg.caused_pending hc) hx ?_ rfl fun op' hop' => hmoved hop' fun hnew =>
          (hg.caused_abort hnew).mono (later_exec hx)
        rintro limit rfl id r hr hclaim hreturned
        obtain ⟨rfl, rfl⟩ := scheduleReadyJobs_of_claim (ht op hmem) hc
        have hlost : Outcome.lost ≠ .fail := by decide
        exact hrun.happened
          ⟨run, second, now, .lost, locked, rfl, hlost, hop, r, hr, hclaim, hreturned⟩
  | execute hop =>
      refine h'.sameTables rfl rfl rfl fun op hmem => hmoved hmem ?_
      rintro (rfl | hmem)
      · have hg := h'.ops _ (List.mem_of_getElem? hop)
        exact hg
      · cases hmem
  | @executed run process now result workerId entry data job logId hop =>
      refine h'.sameTables rfl rfl rfl fun op hmem => hmoved hmem ?_
      rintro (rfl | hmem)
      · have hg := h'.ops _ (List.mem_of_getElem? hop)
        have hreturned : Returned cfg (es ++ [.executed run now result]) data.jobId now result :=
          hrun.happened ⟨run, rfl, process, workerId, entry, data, job, logId, hop, rfl⟩
        exact caused_afterExecution hg hreturned
      · cases hmem
  | executeRejected | settle | crash =>
      refine h'.sameTables rfl rfl rfl fun op hmem => hmoved hmem ?_
      rintro (rfl | hmem)
      · trivial
      · cases hmem
  | stall | promote | evict | restart => exact h'.sameTables rfl rfl rfl fun op hop => .inl hop

/-- **Every outcome has its cause**, in every interleaving, with any failing calls, lost answers and
crashes: what the rows, the history and the dead letter queue tell of a job has happened. -/
theorem outcomes_have_causes (h : Run (step cfg) anyStep init es s) : AllCaused cfg es s := by
  have hinv : Tidy s ∧ AllCaused cfg es s := by
    induction h with
    | nil => exact ⟨tidy_init, allCaused_init⟩
    | snoc hr _ hs ih => exact ⟨tidy_step ih.1 hs, allCaused_step ih.2 hr ih.1 hs⟩
  exact hinv.2

/-- The answer to the write of `COMPLETED` is lost; the row tells what the execution returned. -/
theorem lost_write_has_cause : ∃ s : Sys, AllCaused {} (pickedUp ++ executes 3 ++
    [.executed 3 7 { success := true, result := some [("n", "1")] }, .call 3 false 8 .lost []]) s ∧
    ∃ r ∈ s.store.jobs.rows, r.status = .completed ∧ r.result = some [("n", "1")] := by
  obtain ⟨s, hs, hp⟩ := exists_run_of_check (step {}) anyStep init (pickedUp ++ executes 3 ++
    [.executed 3 7 { success := true, result := some [("n", "1")] }, .call 3 false 8 .lost []])
    (fun s => ∃ r ∈ s.store.jobs.rows, r.status = .completed ∧ r.result = some [("n", "1")])
    (by decide)
  exact ⟨s, outcomes_have_causes hs, of_decide_eq_true hp⟩

end Sys

end TaskOrchestration

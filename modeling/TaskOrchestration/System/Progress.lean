import TaskOrchestration.Job.Claim
import TaskOrchestration.System.Exclusive
import TaskOrchestration.Workers.Attempt

set_option autoImplicit false

/-!
# From `PENDING` to the outcome

Polls, answered calls, a delivery and an execution are enough to bring a job that waits to its
outcome, whatever else is under way: unless there is an entry under its id that no worker takes.

* `Routine`: the steps that are needed; `outcome`: where they lead;
* `exists_claimed`: polls come to every job; **`exists_begun`**: and it is delivered;
* `Queue.Takable`, `kept_routine`: the entry that is in the way stays;
* **`driven_iff`**.
-/

namespace TaskOrchestration

open LabelledRun JobRepository Batches

/-- **A worker can take the entry of the job**, or there is none yet. -/
def Queue.Takable (q : Queue) (id : JobId) : Prop :=
  ∀ en, q.entries.find? (.job id) = some en → en.state = .waiting ∨ en.state = .prioritized

/-- **The outcome** of an attempt at the job. -/
def outcome (job : Job) (result : ExecutionResult) : JobStatus :=
  if result.success then .completed
  else if job.retryCount < job.maxRetries then .retrying else .failed

namespace Sys

/-- **Routine steps**: polls, calls that are answered, deliveries, and executions that resolve. -/
def Routine : Event → Prop
  | .start .scheduleReadyJobs | .call _ _ _ .ok [] | .pickUp .. | .execute _ | .executed .. => True
  | _ => False

/-- **Routine steps drive the job to the status**; one of them is its delivery to the worker. -/
def Driven (cfg : Config) (s : Sys) (process : ℕ) (workerId : String) (id : JobId)
    (status : JobStatus) : Prop :=
  ∃ es s', (∀ e ∈ es, Routine e) ∧ .pickUp process workerId (.job id) ∈ es ∧
    runEvents (step cfg) s es = some s' ∧
    ∃ r, s'.store.jobs.find? id = some r ∧ r.status = status

variable {cfg : Config} {s s' : Sys} {e : Event} {now : Time} {id : JobId} {job : Job}

/-! ## The polls -/

theorem exists_poll (cfg : Config) (s : Sys) (now : Time) :
    ∃ es s', (∀ e ∈ es, Routine e) ∧ runEvents (step cfg) s es = some s' ∧
      s'.store = { s.store with
        jobs := (claimPendingJobs s.store.jobs now cfg.batchSize []).1 } ∧
      ∀ r ∈ (claimPendingJobs s.store.jobs now cfg.batchSize []).2,
        Op.enqueueClaimed now r ∈ s'.ops := by
  let polling : Sys := { s with ops := s.ops ++ [.scheduleReadyJobs] }
  have hop : polling.ops[s.ops.length]? = some .scheduleReadyJobs := List.getElem?_concat_length
  have hs : ∃ st rows, st = { s.store with jobs := (claimPendingJobs s.store.jobs now
        cfg.batchSize []).1 } ∧ rows = (claimPendingJobs s.store.jobs now cfg.batchSize []).2 ∧
      polling.step cfg (.call s.ops.length false now .ok []) =
        some (polling.resumed st s.ops.length now .scheduleReadyJobs false (.jobs rows)) :=
    ⟨_, _, rfl, rfl, step_answered hop rfl rfl⟩
  obtain ⟨st, rows, hst, hrows, hs⟩ := hs
  refine ⟨[.start .scheduleReadyJobs, .call s.ops.length false now .ok []],
    polling.resumed st s.ops.length now .scheduleReadyJobs false (.jobs rows), ?_, ?_, hst, ?_⟩
  · simp [Routine]
  · change (polling.step cfg _).bind _ = _
    rw [hs]
    rfl
  · intro r hr
    exact List.mem_append_right _ (List.mem_map_of_mem (hrows ▸ hr))

/-- **Polls come to every job** that can be claimed. Each shortens the backlog. -/
theorem exists_claimed (hbatch : 0 < cfg.batchSize) (hclaim : Claimable now job) (n : ℕ)
    (hn : (claimable s.store.jobs now []).length ≤ n) (hjob : s.store.jobs.find? id = some job) :
    ∃ es s', (∀ e ∈ es, Routine e) ∧ runEvents (step cfg) s es = some s' ∧
      s'.store.queue = s.store.queue ∧ s'.store.jobs.find? id = some (claimed now job) ∧
      .enqueue (claimed now job) 0 ∈ s'.ops := by
  obtain rfl : job.id = id := Table.key_of_find? hjob
  have hmem : job ∈ claimable s.store.jobs now [] :=
    List.mem_filter.mpr ⟨Table.mem_of_find? hjob, by simpa using hclaim⟩
  induction n generalizing s with
  | zero => exact absurd (List.length_pos_of_mem hmem) (by omega)
  | succ n ih =>
      obtain ⟨es, s₁, hes, hrun, hstore, hspawned⟩ := exists_poll cfg s now
      rcases claimed_or_kept hjob now cfg.batchSize [] with hnow | hkept
      · refine ⟨es, s₁, hes, hrun, by rw [hstore], ?_, ?_⟩
        · rw [hstore]
          exact find?_of_mem_claim hnow
        · have hop := hspawned _ hnow
          have hdelay : (job.scheduledAt.map (· - now)).getD 0 = 0 := by
            cases hat : job.scheduledAt with
            | none => rfl
            | some t => exact Nat.sub_eq_zero_of_le (hclaim.2.1 t hat)
          rw [Op.enqueueClaimed, if_neg (by exact not_lt.mpr hclaim.2.2.le)] at hop
          exact hdelay ▸ hop
      · -- The poll has taken others, and leaves a shorter backlog.
        have hjob₁ : s₁.store.jobs.find? job.id = some job := by rw [hstore, hkept]
        have hshort : (claimable s₁.store.jobs now []).length ≤ n := by
          have hpos := List.length_pos_of_mem hmem
          rw [hstore, length_claimable_claim]
          omega
        obtain ⟨es', s', hes', hrun', hqueue, hrow, hop⟩ := ih hshort hjob₁
          (List.mem_filter.mpr ⟨Table.mem_of_find? hjob₁, by simpa using hclaim⟩)
        refine ⟨es ++ es', s', List.forall_mem_append.mpr ⟨hes, hes'⟩, ?_, ?_, hrow, hop⟩
        · rw [runEvents_append, hrun]
          exact hrun'
        · rw [hqueue, hstore]

/-! ## The delivery -/

/-- **The entry of a job** has its id in the payload. -/
def Addressed (s : Sys) : Prop :=
  ∀ id en, s.store.queue.entries.find? (.job id) = some en → en.data.jobId = id

theorem addressed_of_run {es : List Event} (h : Run (step cfg) anyStep init es s) :
    Addressed s := by
  have hinv : Tidy s ∧ Addressed s := by
    refine h.stable (P := fun s => Tidy s ∧ Addressed s)
      ⟨tidy_init, fun _ _ hen => by cases hen⟩ ?_
    rintro _ s e s' ⟨ht, hi⟩ - hs
    refine ⟨tidy_step ht hs, fun id en' hen' => ?_⟩
    rcases entry_step hs hen' with ⟨en, hen, hdata⟩ |
      ⟨op, hop, second, jobId, data, priority, delayMs, hc, hid, hdata⟩
    · rw [hdata]
      exact hi id en hen
    · rcases Op.of_pending_add hc (ht op hop) with ⟨job, rfl, rfl, rfl⟩ | ⟨entry, rfl, rfl, -⟩
      · rw [hdata]
        exact (EntryId.job.inj hid).symm
      · cases hid
  exact hinv.2

/-- **The job is delivered**: its `add` finds an entry that a worker takes, or leaves one. -/
theorem exists_begun (cfg : Config) (hopen : s.store.queue.Takable id) (haddr : Addressed s)
    (hid : job.id = id) (hop : .enqueue job 0 ∈ s.ops) (process : ℕ) (workerId : String)
    (now : Time) :
    ∃ (es : List Event) (s' : Sys), (∀ e ∈ es, Routine e) ∧
      .pickUp process workerId (.job id) ∈ es ∧ runEvents (step cfg) s es = some s' ∧
      s'.store.jobs = s.store.jobs ∧ ∃ (run : ℕ) (data : QueueJobPayload), data.jobId = id ∧
        s'.ops[run]? = some (.processJob process workerId (.job id) data .fetch) := by
  subst hid
  obtain ⟨i, hi⟩ := List.mem_iff_getElem?.mp hop
  obtain ⟨s₁, hs₁, hstore, -⟩ := exists_step_answered cfg false now [] hi rfl rfl rfl
  -- The entry that is there now, whoever has added it.
  have hentry : ∃ en, s₁.store.queue.entries.find? (.job job.id) = some en ∧
      (en.state = .waiting ∨ en.state = .prioritized) ∧ en.data.jobId = job.id := by
    have hfind : s₁.store.queue.entries.find? (.job job.id) = some
        ((s.store.queue.entries.find? (.job job.id)).getD (Queue.newEntry (.job job.id)
          (Op.enqueueData job) (toBullPriority job.priority) 0)) := by
      rw [hstore]
      exact (Queue.find?_add ..).trans (if_pos rfl)
    refine ⟨_, hfind, ?_⟩
    cases hold : s.store.queue.entries.find? (.job job.id) with
    | some en => exact ⟨hopen en hold, haddr job.id en hold⟩
    | none => exact ⟨.inr rfl, rfl⟩
  obtain ⟨en, hfind, hstate, hjobId⟩ := hentry
  have hpick : s₁.store.queue.pick (.job job.id) s₁.ops.length =
      some (s₁.store.queue.change (.job job.id) (.active s₁.ops.length) 0 0, en) := by
    rw [Queue.pick, hfind]
    exact if_pos hstate
  have hs : ∃ s', s₁.step cfg (.pickUp process workerId (.job job.id)) = some s' ∧
      s'.store.jobs = s₁.store.jobs ∧
      s'.ops = s₁.ops ++ [.processJob process workerId (.job job.id) en.data .fetch] := by
    rw [step, hpick]
    exact ⟨_, rfl, rfl, rfl⟩
  obtain ⟨s', hs, hjobs, hops⟩ := hs
  refine ⟨[.call i false now .ok [], .pickUp process workerId (.job job.id)], s', ?_, ?_, ?_, ?_,
    s₁.ops.length, en.data, hjobId, ?_⟩
  · simp [Routine]
  · simp
  · rw [runEvents, hs₁, Option.bind_some, runEvents, hs]
    rfl
  · rw [hjobs, hstore]
  · rw [hops]
    exact List.getElem?_concat_length

end Sys

/-! ## The attempt -/

/-- **What the run leaves** of a row that it has begun. -/
theorem WorkerProcess.hasStatus_conclude {w : WorkerProcess} {id : JobId} {job : Job}
    (hjob : w.store.jobs.find? id = some job) (completedAt : Time) (execLogId : ℕ)
    (result : ExecutionResult) :
    (w.conclude completedAt id execLogId result).HasStatus id (outcome job result) := by
  unfold conclude outcome
  by_cases hsuccess : result.success = true
  · rw [if_pos hsuccess, if_pos hsuccess]
    exact HasStatus.onJobCompleted (hasStatus_updateJob hjob rfl) (by decide) _
  · rw [if_neg hsuccess, if_neg hsuccess]
    rcases Nat.lt_or_ge job.retryCount job.maxRetries with hleft | hleft
    · rw [if_pos hleft]
      exact (handleFailure_retrying hjob hleft).1
    · rw [if_neg (not_lt.mpr hleft)]
      exact (handleFailure_failed hjob hleft).1

namespace WorkerRun

variable {cfg : Config} {a : WorkerRun} {s : Sys} {w : WorkerProcess} {job : Job}

theorem undisturbed_routine (a : WorkerRun) (startedAt completedAt : Time) :
    Undisturbed Sys.Routine a ⟨fun _ _ => .pending, fun _ => none⟩ 0 startedAt completedAt where
  before := trivial
  execute := trivial
  executed := fun _ _ _ => trivial
  rejected := fun job hx => by
    obtain ⟨thrown, hd, -⟩ := JobExecutor.execute_eq_none.mp hx
    unfold JobExecutor.dispatch JobExecutor.executeCustom at hd
    split at hd <;> cases hd
  after := fun _ => trivial

/-- **The run of a job that is not cancelled** comes to the outcome of its execution. -/
theorem Goes.outcome (hat : a.Goes cfg Sys.Routine s .fetch w)
    (hjob : findById w.store.jobs a.data.jobId = some job) (hlive : job.status ≠ .cancelled)
    (startedAt completedAt : Time) (result : ExecutionResult) :
    ∃ w', a.Goes cfg Sys.Routine s .resolved w' ∧
      w'.HasStatus a.data.jobId (outcome job result) := by
  have hok := undisturbed_routine a startedAt completedAt
  have hbegun := hat.begin hok hjob hlive
  have hdone : a.Goes cfg Sys.Routine s
      (Sys.afterExecution completedAt w.store.logs.length result)
      (w.begin startedAt a.workerId a.data) := by
    refine hbegun.snoc (e := .executed a.run completedAt result) trivial fun s₁ hat₁ => ?_
    refine ⟨_, by rw [Sys.step, hat₁.op], ?_⟩
    exact ⟨getElem?_set_append_self hat₁.op _ _, hat₁.store, hat₁.graph⟩
  refine ⟨_, hdone.conclude hok, ?_⟩
  have hrow : (w.begin startedAt a.workerId a.data).store.jobs.find? a.data.jobId = some
      (toRow startedAt { status := some .running, workerId := some a.workerId
                         startedAt := some startedAt } job) :=
    (find?_update ..).trans ((if_pos rfl).trans (congrArg (Option.map _) hjob))
  exact WorkerProcess.hasStatus_conclude hrow completedAt _ result

end WorkerRun

namespace Sys

variable {cfg : Config} {s s' : Sys} {e : Event} {now : Time} {id : JobId} {job : Job}

/-- **A job that can be claimed is driven to its outcome**, if a worker takes its entry. -/
theorem driven_of_takable (hbatch : 0 < cfg.batchSize) (haddr : Addressed s)
    (hjob : s.store.jobs.find? id = some job) (hclaim : Claimable now job)
    (hopen : s.store.queue.Takable id) (process : ℕ) (workerId : String) (completedAt : Time)
    (result : ExecutionResult) : Driven cfg s process workerId id (outcome job result) := by
  obtain ⟨es₁, s₁, hes₁, hrun₁, hqueue, hrow₁, hop⟩ :=
    exists_claimed hbatch hclaim _ le_rfl hjob
  have haddr₁ : Addressed s₁ := fun id en hen => haddr id en (hqueue ▸ hen)
  obtain ⟨es₂, s₂, hes₂, hpick, hrun₂, hjobs, run, data, rfl, hop₂⟩ :=
    exists_begun cfg (show s₁.store.queue.Takable id from hqueue ▸ hopen) haddr₁
      ((claimed_id now job).trans (Table.key_of_find? hjob)) hop process workerId now
  let a : WorkerRun := ⟨run, process, workerId, .job data.jobId, data⟩
  have hat : a.Goes cfg Routine s₂ .fetch ⟨s₂.store, s₂.graph process⟩ :=
    ⟨[], s₂, fun _ he => absurd he List.not_mem_nil, rfl, hop₂, rfl, rfl⟩
  have hrow₂ : findById s₂.store.jobs data.jobId = some (claimed now job) := by
    rw [findById, hjobs, hrow₁]
  obtain ⟨w', ⟨es₃, s₃, hes₃, hrun₃, hat₃⟩, r, hr, hstatus⟩ :=
    hat.outcome hrow₂ (fun h => JobStatus.noConfusion h) now completedAt result
  refine ⟨es₁ ++ es₂ ++ es₃, s₃, ?_, ?_, ?_, r, hat₃.store ▸ hr, hstatus⟩
  · exact List.forall_mem_append.mpr ⟨List.forall_mem_append.mpr ⟨hes₁, hes₂⟩, hes₃⟩
  · exact List.mem_append_left _ (List.mem_append_right _ hpick)
  · rw [runEvents_append, runEvents_append, hrun₁, Option.bind_some, hrun₂, Option.bind_some, hrun₃]

/-! ## The entry in the way -/

/-- **Routine steps leave the entry alone** that no worker takes, and do not deliver it. -/
theorem kept_routine {k : EntryId} {en : Entry} (he : Routine e) (hs : s.step cfg e = some s')
    (hen : s.store.queue.entries.find? k = some en)
    (hstate : ¬ (en.state = .waiting ∨ en.state = .prioritized)) :
    s'.store.queue.entries.find? k = some en ∧
      ∀ process workerId, e ≠ .pickUp process workerId k := by
  cases stepTo_of_step hs with
  | @pickUp process workerId entry q en₀ hpick =>
      have hne : entry ≠ k := by
        rintro rfl
        rw [Queue.pick, hen] at hpick
        dsimp only at hpick
        rw [if_neg hstate] at hpick
        cases hpick
      obtain ⟨-, rfl⟩ := Queue.pick_eq_some hpick
      refine ⟨?_, fun process workerId heq => hne ?_⟩
      · dsimp only
        rw [Queue.find?_change, if_neg hne.symm, hen]
      · cases heq
        rfl
  | answered _ _ hx => exact ⟨find?_entries_exec hx hen, fun _ _ heq => by cases heq⟩
  | errored _ _ hnone hst =>
      refine ⟨?_, fun _ _ heq => by cases heq⟩
      rcases hst with ⟨rfl, -⟩ | ⟨rfl, -⟩
      · exact hen
      · exact he.elim
  | start | execute | executed => exact ⟨hen, fun _ _ heq => by cases heq⟩
  | executeRejected | settle | stall | promote | evict | crash | restart => exact he.elim

theorem not_delivered {k : EntryId} {en : Entry} {es : List Event} (hes : ∀ e ∈ es, Routine e)
    (hrun : runEvents (step cfg) s es = some s')
    (hen : s.store.queue.entries.find? k = some en)
    (hstate : ¬ (en.state = .waiting ∨ en.state = .prioritized)) (process : ℕ)
    (workerId : String) : .pickUp process workerId k ∉ es := by
  induction es generalizing s with
  | nil => exact List.not_mem_nil
  | cons e es ih =>
      obtain ⟨s₁, hs, hrest⟩ := Option.bind_eq_some_iff.mp hrun
      obtain ⟨he, hes⟩ := List.forall_mem_cons.mp hes
      obtain ⟨hen₁, hne⟩ := kept_routine he hs hen hstate
      rw [List.mem_cons, not_or]
      exact ⟨(hne process workerId).symm, ih hes hrest hen₁⟩

/-- **A job that waits is driven to its outcome** by polls, answered calls, a delivery and an
execution, whatever else is under way and whatever the execution returns, exactly if no entry under
its id is delayed, held or finished. -/
theorem driven_iff {es : List Event} (h : Run (step cfg) anyStep init es s)
    (hbatch : 0 < cfg.batchSize) (hjob : s.store.jobs.find? id = some job)
    (hclaim : Claimable now job) :
    (∀ process workerId result, Driven cfg s process workerId id (outcome job result)) ↔
      s.store.queue.Takable id := by
  constructor
  · intro hall en hen
    by_contra hstate
    obtain ⟨es', s', hes, hpick, hrun, -⟩ := hall 0 "" { success := true }
    exact not_delivered hes hrun hen hstate 0 "" hpick
  · intro hopen process workerId result
    exact driven_of_takable hbatch (addressed_of_run h) hjob hclaim hopen process workerId now
      result

theorem submitted_job_driven : ∃ s, s.store.jobs.find? "a" = some (newRow "a" 1 simpleDto) ∧
    ∀ process workerId result,
      Driven {} s process workerId "a" (outcome (newRow "a" 1 simpleDto) result) := by
  obtain ⟨s, hrun, hs⟩ := exists_run_of_check (step {}) anyStep init
    [.start (.submitJob 0 "a" simpleDto), .call 0 false 1 .ok []]
    (fun s => s.store.jobs.find? "a" = some (newRow "a" 1 simpleDto) ∧
      s.store.queue.entries.find? (.job "a") = none) (by decide)
  obtain ⟨hjob, hnone⟩ := of_decide_eq_true hs
  have hclaim : Claimable 1 (newRow "a" 1 simpleDto) := by decide
  refine ⟨s, hjob, (driven_iff hrun (by decide) hjob hclaim).mpr ?_⟩
  intro en hen
  cases hnone.symm.trans hen

end Sys

end TaskOrchestration

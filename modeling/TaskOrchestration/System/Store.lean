import TaskOrchestration.Job.Repository
import TaskOrchestration.Queue.Bull

set_option autoImplicit false

/-!
# The shared store and the calls on it

PostgreSQL and Redis, as one value, and the single repository and queue calls that the operations
of the system send to it. A call is atomic.

* `ExecutionLog`, `Store`;
* `Call`, `Reply`, `Store.exec`: what a call does and answers; `none` is an error of the database;
* **`exec_row`**, `exec_rows`, `exec_status`: where a row comes from, and what a call can do to the
  rows and to a status.
-/

namespace TaskOrchestration

open JobRepository

inductive ExecutionStatus
  | running | completed | failed | timedOut | cancelled
  deriving DecidableEq, Repr

/-- A row of the `execution_logs` table. -/
structure ExecutionLog where
  id : ℕ
  jobId : JobId
  workerId : String
  attemptNumber : ℕ
  status : ExecutionStatus
  startedAt : Time
  completedAt : Option Time
  durationMs : Option ℕ
  stdout : Option String
  stderr : Option String
  exitCode : Option ℤ
  result : Option JsonObject
  errorMessage : Option String
  errorStack : Option String
  errorCode : Option String
  createdAt : Time
  deriving DecidableEq, Repr

structure CreateExecutionLogDto where
  jobId : JobId
  workerId : String
  attemptNumber : ℕ
  status : ExecutionStatus
  startedAt : Time
  deriving DecidableEq, Repr

structure CompleteExecutionLogDto where
  id : ℕ
  status : ExecutionStatus
  completedAt : Time
  durationMs : ℕ
  stdout : Option String := none
  stderr : Option String := none
  exitCode : Option ℤ := none
  result : Option JsonObject := none
  errorMessage : Option String := none
  errorStack : Option String := none
  errorCode : Option String := none
  deriving DecidableEq, Repr

namespace ExecutionRepository

/-- The row that `create` inserts. -/
def newLog (id : ℕ) (now : Time) (dto : CreateExecutionLogDto) : ExecutionLog where
  id := id
  jobId := dto.jobId
  workerId := dto.workerId
  attemptNumber := dto.attemptNumber
  status := dto.status
  startedAt := dto.startedAt
  completedAt := none
  durationMs := none
  stdout := none
  stderr := none
  exitCode := none
  result := none
  errorMessage := none
  errorStack := none
  errorCode := none
  createdAt := now

/-- The row after `complete`. A field that is `undefined` keeps its column, except `result`. -/
def completed (dto : CompleteExecutionLogDto) (r : ExecutionLog) : ExecutionLog :=
  { r with
    status := dto.status
    completedAt := some dto.completedAt
    durationMs := some dto.durationMs
    stdout := dto.stdout.or r.stdout
    stderr := dto.stderr.or r.stderr
    exitCode := dto.exitCode.or r.exitCode
    result := dto.result
    errorMessage := dto.errorMessage.or r.errorMessage
    errorStack := dto.errorStack.or r.errorStack
    errorCode := dto.errorCode.or r.errorCode }

/-- `findByJobId`: the rows of the job, by `attempt_number`. -/
def findByJobId (logs : List ExecutionLog) (jobId : JobId) : List ExecutionLog :=
  (logs.filter (·.jobId = jobId)).insertionSort fun a b => a.attemptNumber ≤ b.attemptNumber

/-- `getLatestAttempt`: the first row of the job by `attempt_number DESC`. -/
def getLatestAttempt (logs : List ExecutionLog) (jobId : JobId) : Option ExecutionLog :=
  ((logs.filter (·.jobId = jobId)).insertionSort fun a b =>
    b.attemptNumber ≤ a.attemptNumber).head?

end ExecutionRepository

/-- **The store**: the tables and the two queues. The generated id of a log row is its number. -/
structure Store where
  jobs : JobTable
  logs : List ExecutionLog
  queue : Queue
  dlq : DeadLetterQueue

inductive Call
  | create (id : JobId) (dto : CreateJobDto)
  | findById (id : JobId)
  | update (id : JobId) (dto : UpdateJobDto)
  | claimPendingJobs (limit : ℕ)
  | findStalledJobs (staleThresholdMs : ℕ)
  | resolveDependency (completedJobId : JobId)
  | createLog (dto : CreateExecutionLogDto)
  | completeLog (dto : CompleteExecutionLogDto)
  | add (jobId : Option JobId) (data : QueueJobPayload) (priority delayMs : ℕ)
  | addDlq (entry : DLQEntry)
  | getDlq (id : JobId)
  | removeDlq (id : JobId)
  deriving DecidableEq, Repr

inductive Reply
  | job (row : Option Job)
  | jobs (rows : List Job)
  | log (id : ℕ)
  | entry (e : Option DLQEntry)
  | unit
  deriving DecidableEq, Repr

namespace Store

def empty : Store := ⟨Table.empty, [], Queue.empty, Table.empty⟩

/-- **A call**: the store after it and the answer. `locked` are the rows that other transactions
hold when `claimPendingJobs` runs. -/
def exec (st : Store) (now : Time) (locked : List JobId) : Call → Option (Store × Reply)
  | .create id dto =>
      (JobRepository.create st.jobs id now dto).map fun p =>
        ({ st with jobs := p.1 }, .job (some p.2))
  | .findById id => some (st, .job (JobRepository.findById st.jobs id))
  | .update id dto =>
      let p := JobRepository.update st.jobs id now dto
      some ({ st with jobs := p.1 }, .job p.2)
  | .claimPendingJobs limit =>
      let p := JobRepository.claimPendingJobs st.jobs now limit locked
      some ({ st with jobs := p.1 }, .jobs p.2)
  | .findStalledJobs staleThresholdMs =>
      some (st, .jobs (JobRepository.findStalledJobs st.jobs now staleThresholdMs))
  | .resolveDependency id =>
      some ({ st with jobs := JobRepository.resolveDependency st.jobs now id }, .unit)
  | .createLog dto =>
      some ({ st with logs := st.logs ++ [ExecutionRepository.newLog st.logs.length now dto] },
        .log st.logs.length)
  | .completeLog dto =>
      some ({ st with logs := st.logs.map fun r =>
                if r.id = dto.id then ExecutionRepository.completed dto r else r }, .unit)
  | .add jobId data priority delayMs =>
      some ({ st with queue := st.queue.add jobId data priority delayMs }, .unit)
  | .addDlq entry => some ({ st with dlq := st.dlq.insertIfAbsent entry }, .unit)
  | .getDlq id => some (st, .entry (st.dlq.find? id))
  | .removeDlq id => some ({ st with dlq := st.dlq.erase id }, .unit)

variable {st st' : Store} {now : Time} {locked : List JobId} {c : Call} {reply : Reply}

theorem exec_findById {id : JobId} (h : st.exec now locked (.findById id) = some (st', reply)) :
    reply = .job (st.jobs.find? id) :=
  (Prod.mk.inj (Option.some.inj h)).2.symm

theorem create_of_exec_none (h : st.exec now locked c = none) : ∃ id dto, c = .create id dto := by
  cases c with
  | create id dto => exact ⟨id, dto, rfl⟩
  | _ => cases h

theorem exec_isSome (h : st.exec now locked c = some (st', reply)) {k : JobId} {r : Job}
    (hk : st.jobs.find? k = some r) : ∃ r', st'.jobs.find? k = some r' := by
  cases c with
  | create id dto =>
      obtain ⟨⟨t, r₁⟩, ht, he⟩ := Option.map_eq_some_iff.mp h
      obtain ⟨rfl, -⟩ := Prod.mk.inj he
      dsimp only
      rw [find?_create ht, hk]
      split_ifs <;> exact ⟨_, rfl⟩
  | update id dto =>
      obtain ⟨rfl, -⟩ := Prod.mk.inj (Option.some.inj h)
      dsimp only
      rw [find?_update, hk]
      split_ifs <;> exact ⟨_, rfl⟩
  | claimPendingJobs limit =>
      obtain ⟨rfl, -⟩ := Prod.mk.inj (Option.some.inj h)
      obtain ⟨r', hr', -⟩ := find?_claim_of_some hk now limit locked
      exact ⟨r', hr'⟩
  | resolveDependency id =>
      obtain ⟨rfl, -⟩ := Prod.mk.inj (Option.some.inj h)
      dsimp only
      rw [find?_resolveDependency, hk]
      exact ⟨_, rfl⟩
  | _ =>
      obtain ⟨rfl, -⟩ := Prod.mk.inj (Option.some.inj h)
      exact ⟨r, hk⟩

/-- **Where a row comes from**: it is new, or it was there, and the call has left it alone, updated
it, claimed it, or raised its counter. -/
theorem exec_row (h : st.exec now locked c = some (st', reply)) {k : JobId} {r' : Job}
    (hk' : st'.jobs.find? k = some r') :
    (st.jobs.find? k = none ∧ ∃ dto, c = .create k dto ∧ r' = newRow k now dto) ∨
      ∃ r, st.jobs.find? k = some r ∧ (r' = r ∨ (∃ dto, c = .update k dto ∧ r' = toRow now dto r) ∨
        (r.status = .pending ∧ r' = claimed now r ∧
          ∃ limit, c = .claimPendingJobs limit ∧ ∃ rows, reply = .jobs rows ∧ r' ∈ rows) ∨
        r' = resolved now r) := by
  cases c with
  | create id dto =>
      obtain ⟨⟨t, r₁⟩, ht, he⟩ := Option.map_eq_some_iff.mp h
      obtain ⟨rfl, -⟩ := Prod.mk.inj he
      dsimp only at hk'
      rw [find?_create ht] at hk'
      split_ifs at hk' with hid
      · subst hid
        exact .inl ⟨(create_eq ht).2, dto, rfl, (Option.some.inj hk').symm⟩
      · exact .inr ⟨r', hk', .inl rfl⟩
  | update id dto =>
      obtain ⟨rfl, -⟩ := Prod.mk.inj (Option.some.inj h)
      dsimp only at hk'
      rw [find?_update] at hk'
      split_ifs at hk' with hid
      · subst hid
        obtain ⟨r, hr, rfl⟩ := Option.map_eq_some_iff.mp hk'
        exact .inr ⟨r, hr, .inr (.inl ⟨dto, rfl, rfl⟩)⟩
      · exact .inr ⟨r', hk', .inl rfl⟩
  | claimPendingJobs limit =>
      obtain ⟨rfl, rfl⟩ := Prod.mk.inj (Option.some.inj h)
      rcases find?_claimPendingJobs hk' with hr | ⟨r, hr, hc, he, hmem⟩
      · exact .inr ⟨r', hr, .inl rfl⟩
      · exact .inr ⟨r, hr, .inr (.inr (.inl ⟨hc.1, he, limit, rfl, _, rfl, hmem⟩))⟩
  | resolveDependency id =>
      obtain ⟨rfl, -⟩ := Prod.mk.inj (Option.some.inj h)
      dsimp only at hk'
      rw [find?_resolveDependency] at hk'
      obtain ⟨r, hr, rfl⟩ := Option.map_eq_some_iff.mp hk'
      refine .inr ⟨r, hr, ?_⟩
      split_ifs
      · exact .inr (.inr (.inr rfl))
      · exact .inl rfl
  | _ =>
      obtain ⟨rfl, -⟩ := Prod.mk.inj (Option.some.inj h)
      exact .inr ⟨r', hk', .inl rfl⟩

/-- **The rows after a call**: each is in its place, with its id and its dependencies, and an
insertion adds one. -/
theorem exec_rows (h : st.exec now locked c = some (st', reply)) :
    ∃ (f : Job → Job) (new : List Job), st'.jobs.rows = st.jobs.rows.map f ++ new ∧
      (∀ r, (f r).id = r.id ∧ (f r).dependencies = r.dependencies) ∧
      (new = [] ∨ ∃ id dto, c = .create id dto ∧ new = [newRow id now dto]) := by
  have hwhere : ∀ (p : Job → Bool) (f : Job → Job),
      (∀ r, (f r).id = r.id ∧ (f r).dependencies = r.dependencies) →
      ∀ r, (if p r then f r else r).id = r.id ∧
        (if p r then f r else r).dependencies = r.dependencies := by
    intro p f hf r
    split_ifs
    · exact hf r
    · exact ⟨rfl, rfl⟩
  cases c with
  | create id dto =>
      obtain ⟨⟨t, r₁⟩, ht, he⟩ := Option.map_eq_some_iff.mp h
      obtain ⟨rfl, -⟩ := Prod.mk.inj he
      obtain ⟨t', ht', he'⟩ := Option.map_eq_some_iff.mp ht
      obtain ⟨rfl, -⟩ := Prod.mk.inj he'
      refine ⟨fun r => r, [newRow id now dto], ?_, fun r => ⟨rfl, rfl⟩, .inr ⟨id, dto, rfl, rfl⟩⟩
      rw [List.map_id']
      exact (Table.insert?_eq_some.mp ht').2
  | update id dto =>
      obtain ⟨rfl, -⟩ := Prod.mk.inj (Option.some.inj h)
      exact ⟨_, [], (List.append_nil _).symm, hwhere _ _ fun r => ⟨rfl, rfl⟩, .inl rfl⟩
  | claimPendingJobs limit =>
      obtain ⟨rfl, -⟩ := Prod.mk.inj (Option.some.inj h)
      exact ⟨_, [], (List.append_nil _).symm, hwhere _ _ fun r => ⟨rfl, rfl⟩, .inl rfl⟩
  | resolveDependency id =>
      obtain ⟨rfl, -⟩ := Prod.mk.inj (Option.some.inj h)
      exact ⟨_, [], (List.append_nil _).symm, hwhere _ _ fun r => ⟨rfl, rfl⟩, .inl rfl⟩
  | _ =>
      obtain ⟨rfl, -⟩ := Prod.mk.inj (Option.some.inj h)
      exact ⟨fun r => r, [], by simp, fun r => ⟨rfl, rfl⟩, .inl rfl⟩

/-- **What a call can do to a status**: nothing, or it is an `update` that sets it, or the claim
of a row that was `PENDING` and is returned. -/
theorem exec_status (h : st.exec now locked c = some (st', reply)) {k : JobId} {r : Job}
    (hk : st.jobs.find? k = some r) : ∃ r', st'.jobs.find? k = some r' ∧
      (r'.status = r.status ∨
        (∃ dto, c = .update k dto ∧ dto.status = some r'.status) ∨
        (r.status = .pending ∧ r'.status = .queued ∧
          ∃ limit, c = .claimPendingJobs limit ∧ ∃ rows, reply = .jobs rows ∧ r' ∈ rows)) := by
  obtain ⟨r', hk'⟩ := exec_isSome h hk
  refine ⟨r', hk', ?_⟩
  rcases exec_row h hk' with ⟨hn, -⟩ | ⟨r₀, hr₀, hcase⟩
  · rw [hn] at hk
    cases hk
  · obtain rfl := Option.some.inj (hr₀.symm.trans hk)
    rcases hcase with rfl | ⟨dto, rfl, rfl⟩ | ⟨hp, rfl, hclaim⟩ | rfl
    · exact .inl rfl
    · cases hst : dto.status with
      | none => exact .inl (by simp [toRow, hst])
      | some x => exact .inr (.inl ⟨dto, rfl, by simp [toRow, hst]⟩)
    · exact .inr (.inr ⟨hp, rfl, hclaim⟩)
    · exact .inl rfl

end Store

end TaskOrchestration

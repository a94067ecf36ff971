import TaskOrchestration.Deps.Scheduler
import TaskOrchestration.Job.Service

set_option autoImplicit false

/-!
# The moment of a completion

A completion raises the rows that are `PENDING` when it runs. It therefore counts or does not
count for a job depending on when it runs, relative to the creation of the job and to a cancel
followed by a retry.

* `createJob`, `complete`, `ServiceEvent`, `serviceStep`: the calls of the API and of the worker;
* `SameStanding`: two states give a job the same counters and the same claimability;
* `commutesWithCreate_iff`, `commutesWithCancelRetry_iff`, and together
  **`completion_commutes_iff`**: the orders agree exactly when the completion unblocks nothing,
  or, for a cancel and a retry, when the job is `PENDING` before the cancel.
-/

namespace TaskOrchestration.Scheduler

open JobRepository DependencyResolver JobService LabelledRun

variable (cronError : String → String → Option String)

/-- The cron check of `createJob`: what `computeNextTrigger` throws. An empty expression is not
checked. -/
def checkCron (dto : CreateJobDto) : Option String :=
  match dto.cronExpression with
  | none => none
  | some expression =>
      if expression = "" then none else cronError expression (dto.timezone.getD "UTC")

def createJob (s : Scheduler) (id : JobId) (now : Time) (dto : CreateJobDto) :
    Except ServiceError (Scheduler × Job) :=
  match checkCron cronError dto with
  | some msg => .error (.error msg)
  | none =>
      match (dto.dependencies.getD []).find? fun dep => (findById s.jobs dep.jobId).isNone with
      | some dep => .error (.error ("Dependency job not found: " ++ dep.jobId))
      | none =>
          match s.submitJob id now dto with
          | none => .error (.error "duplicate key value violates unique constraint")
          | some p => .ok p

/-- The completion of a job: the worker writes its row and calls `onJobCompleted`. The result or
the error that the worker stores with the status is no input of the resolution. -/
def complete (s : Scheduler) (now : Time) (jobId : JobId) (status : JobStatus) : Scheduler :=
  let dto : UpdateJobDto := { status := some status, completedAt := some now }
  onJobCompleted { s with jobs := (update s.jobs jobId now dto).1 } now jobId status

def cancelThenRetry (s : Scheduler) (now : Time) (id organizationId : String) :
    Except ServiceError Scheduler :=
  match JobService.cancelJob s.jobs now id organizationId with
  | .error e => .error e
  | .ok (t, _) => (JobService.retryJob t now id organizationId).map fun p => { s with jobs := p.1 }

/-- `cancelJob`, the completion of another job, then `retryJob`. -/
def cancelCompleteRetry (s : Scheduler) (now : Time) (id organizationId : String)
    (doneAt : Time) (jobId : JobId) (status : JobStatus) : Except ServiceError Scheduler :=
  match JobService.cancelJob s.jobs now id organizationId with
  | .error e => .error e
  | .ok (t, _) =>
      let s' := complete { s with jobs := t } doneAt jobId status
      (JobService.retryJob s'.jobs now id organizationId).map fun p => { s' with jobs := p.1 }

/-- The calls of the API, of the worker and of the poll. -/
inductive ServiceEvent
  | createJob (id : JobId) (now : Time) (dto : CreateJobDto)
  | complete (now : Time) (jobId : JobId) (status : JobStatus)
  | claimPendingJobs (now : Time) (limit : ℕ) (locked : List JobId)
  | cancelJob (now : Time) (id organizationId : String)
  | retryJob (now : Time) (id organizationId : String)
  deriving DecidableEq, Repr

/-- One call. A call that throws leaves the state as it is. -/
def serviceStep (s : Scheduler) : ServiceEvent → Option Scheduler
  | .createJob id now dto => (s.createJob cronError id now dto).toOption.map (·.1)
  | .complete now jobId status => some (s.complete now jobId status)
  | .claimPendingJobs now limit locked =>
      some { s with jobs := (claimPendingJobs s.jobs now limit locked).1 }
  | .cancelJob now id organizationId =>
      (JobService.cancelJob s.jobs now id organizationId).toOption.map fun p =>
        { s with jobs := p.1 }
  | .retryJob now id organizationId =>
      (JobService.retryJob s.jobs now id organizationId).toOption.map fun p =>
        { s with jobs := p.1 }

variable {cronError}

theorem createJob_eq_ok {s s' : Scheduler} {id : JobId} {now : Time} {dto : CreateJobDto}
    {job : Job} : createJob cronError s id now dto = .ok (s', job) ↔
      checkCron cronError dto = none ∧
        (∀ dep ∈ dto.dependencies.getD [], (s.jobs.find? dep.jobId).isSome) ∧
        s.submitJob id now dto = some (s', job) := by
  unfold createJob
  cases checkCron cronError dto with
  | some msg => simp
  | none =>
      simp only [true_and]
      cases hf : (dto.dependencies.getD []).find? fun dep => (findById s.jobs dep.jobId).isNone with
      | some dep =>
          refine ⟨fun h => (by cases h), fun h => ?_⟩
          have hdep := h.1 dep (List.mem_of_find?_eq_some hf)
          have hnone := List.find?_some hf
          rw [findById] at hnone
          cases hg : s.jobs.find? dep.jobId <;> simp [hg] at hdep hnone
      | none =>
          have hall : ∀ dep ∈ dto.dependencies.getD [], (s.jobs.find? dep.jobId).isSome := by
            intro dep hdep
            have := List.find?_eq_none.mp hf dep hdep
            rw [findById] at this
            cases hg : s.jobs.find? dep.jobId <;> simp [hg] at this ⊢
          cases s.submitJob id now dto with
          | none => simp
          | some p => simpa using fun _ => hall

theorem createJob_eq_error {s : Scheduler} {id : JobId} {now : Time} {dto : CreateJobDto}
    {e : ServiceError} (h : createJob cronError s id now dto = .error e) :
    ∃ msg, e = .error msg := by
  unfold createJob at h
  split at h
  · exact ⟨_, (Except.error.inj h).symm⟩
  · split at h
    · exact ⟨_, (Except.error.inj h).symm⟩
    · split at h
      · exact ⟨_, (Except.error.inj h).symm⟩
      · cases h

theorem submitJob_eq_some {s s' : Scheduler} {id : JobId} {now : Time} {dto : CreateJobDto}
    {job : Job} (h : s.submitJob id now dto = some (s', job)) :
    job = newRow id now dto ∧ s'.graph = register s.graph job ∧ s.jobs.find? id = none ∧
      ∀ k, s'.jobs.find? k = if k = id then some job else s.jobs.find? k := by
  obtain ⟨⟨t, j⟩, hc, he⟩ := Option.map_eq_some_iff.mp h
  obtain ⟨rfl, rfl⟩ := Prod.mk.inj he
  obtain ⟨rfl, hn⟩ := create_eq hc
  exact ⟨rfl, rfl, hn, fun k => find?_create hc k⟩

/-! ## Rows after a completion -/

theorem find?_complete {s : Scheduler} {id jobId : JobId} (hne : id ≠ jobId) (now : Time)
    (status : JobStatus) : (s.complete now jobId status).jobs.find? id =
      (s.jobs.find? id).map fun r => if Names r jobId ∧ r.status = .pending then
        (resolved now)^[(unblocked s.graph jobId status).length] r else r := by
  rw [complete, find?_onJobCompleted]
  dsimp only
  rw [find?_update, if_neg hne]

theorem mem_complete {s : Scheduler} {now : Time} {jobId : JobId} {status : JobStatus} {r : Job}
    (h : r ∈ (s.complete now jobId status).jobs) :
    ∃ r₀ ∈ s.jobs, r.id = r₀.id ∧ r.dependencies = r₀.dependencies := by
  obtain ⟨r₁, h₁, hr⟩ := mem_onJobCompleted h
  have hid : r.id = r₁.id ∧ r.dependencies = r₁.dependencies := by
    rcases hr with ⟨-, -, rfl⟩ | ⟨-, rfl⟩
    · rw [iterate_resolved]
      exact ⟨rfl, rfl⟩
    · exact ⟨rfl, rfl⟩
  rcases mem_update.mp h₁ with ⟨h₁, -⟩ | ⟨r₀, h₀, -, rfl⟩
  · exact ⟨r₁, h₁, hid⟩
  · exact ⟨r₀, h₀, hid⟩

theorem isSome_find?_complete {s : Scheduler} {now : Time} {jobId k : JobId} {status : JobStatus} :
    ((s.complete now jobId status).jobs.find? k).isSome = (s.jobs.find? k).isSome := by
  rw [complete, find?_onJobCompleted, Option.isSome_map]
  dsimp only
  rw [find?_update]
  split_ifs <;> simp

/-! ## Standing -/

def counters (s : Scheduler) (id : JobId) : Option (ℕ × ℕ) :=
  (s.jobs.find? id).map fun r => (r.dependencyCount, r.resolvedDependencyCount)

/-- The job passes the guard of a claim at time `now`. -/
def ClaimableAt (s : Scheduler) (id : JobId) (now : Time) : Prop :=
  ∃ r ∈ s.jobs.find? id, Claimable now r

/-- **The same standing** of a job: the same counters, and claimable at the same times. -/
def SameStanding (id : JobId) (s s' : Scheduler) : Prop :=
  counters s id = counters s' id ∧ ∀ now, ClaimableAt s id now ↔ ClaimableAt s' id now

/-- Between rows that differ in the counter of satisfied entries only, the standing is that
counter. -/
theorem sameStanding_iff {s s' : Scheduler} {id : JobId} {a b : Job}
    (ha : s.jobs.find? id = some a) (hb : s'.jobs.find? id = some b) (hst : a.status = b.status)
    (hsch : a.scheduledAt = b.scheduledAt) (hc : a.dependencyCount = b.dependencyCount) :
    SameStanding id s s' ↔ a.resolvedDependencyCount = b.resolvedDependencyCount := by
  unfold SameStanding counters ClaimableAt
  rw [ha, hb]
  simp only [Option.map_some, Option.some.injEq, Prod.mk.injEq, hc, true_and, Option.mem_def,
    exists_eq_left']
  refine ⟨fun h => h.1, fun h => ⟨h, fun now => ?_⟩⟩
  unfold Claimable
  rw [hst, hsch, hc, h]

/-! ## Creation -/

/-- **A completion and a creation commute**: both orders run, and give the job the same
standing. -/
def CommutesWithCreate (cronError : String → String → Option String) (s : Scheduler) (id : JobId)
    (now : Time) (dto : CreateJobDto) (doneAt : Time) (jobId : JobId) (status : JobStatus) : Prop :=
  ∃ s₁ s₂ job₁ job₂, createJob cronError s id now dto = .ok (s₁, job₁) ∧
    createJob cronError (s.complete doneAt jobId status) id now dto = .ok (s₂, job₂) ∧
    SameStanding id (s₁.complete doneAt jobId status) s₂

/-- Nothing passes the check of the resolver's loop. -/
def UnblocksNothing (g : Graph) (jobId : JobId) (status : JobStatus) : Prop :=
  ∀ a ∈ dependentsOf g jobId, ¬ Unblocks g jobId status a

instance (g : Graph) (jobId : JobId) (status : JobStatus) :
    Decidable (UnblocksNothing g jobId status) := by
  unfold UnblocksNothing; infer_instance

theorem unblocksNothing_iff {g : Graph} {jobId : JobId} {status : JobStatus} :
    UnblocksNothing g jobId status ↔ (unblocked g jobId status).length = 0 := by
  rw [UnblocksNothing, ← unblocked_eq_nil_iff, List.length_eq_zero_iff]

/-- **Creation.** The orders agree exactly when the completion unblocks nothing once the job is
registered: the later creation starts its counter at zero. -/
theorem commutesWithCreate_iff {s s₁ : Scheduler} {id : JobId} {now : Time} {dto : CreateJobDto}
    {job : Job} (hc : createJob cronError s id now dto = .ok (s₁, job)) {d : JobDependency}
    (hd : d ∈ job.dependencies) (doneAt : Time) (status : JobStatus) :
    CommutesWithCreate cronError s id now dto doneAt d.jobId status ↔
      UnblocksNothing (register s.graph job) d.jobId status := by
  obtain ⟨hcron, hdeps, hsub⟩ := createJob_eq_ok.mp hc
  obtain ⟨rfl, hg, hfresh, hfind⟩ := submitJob_eq_some hsub
  have hne : id ≠ d.jobId := by
    rintro rfl
    have := hdeps d hd
    rw [hfresh] at this
    cases this
  -- the second order runs as well: the completion removes no row and takes no id
  have hfresh' : (s.complete doneAt d.jobId status).jobs.find? id = none := by
    rw [← Option.not_isSome_iff_eq_none, isSome_find?_complete, hfresh]
    exact Bool.false_ne_true
  obtain ⟨t₂, ht₂⟩ := create_isSome now dto hfresh'
  set s₂ : Scheduler :=
    ⟨t₂, register (s.complete doneAt d.jobId status).graph (newRow id now dto)⟩ with hs₂
  have hsub₂ : (s.complete doneAt d.jobId status).submitJob id now dto =
      some (s₂, newRow id now dto) := by
    rw [submitJob, ht₂]
    rfl
  have hc₂ := createJob_eq_ok.mpr
    ⟨hcron, fun dep hdep => by rw [isSome_find?_complete]; exact hdeps dep hdep, hsub₂⟩
  have h₂ : s₂.jobs.find? id = some (newRow id now dto) := by
    rw [(submitJob_eq_some hsub₂).2.2.2, if_pos rfl]
  have h₁ : (s₁.complete doneAt d.jobId status).jobs.find? id = some
      ((resolved doneAt)^[(unblocked s₁.graph d.jobId status).length] (newRow id now dto)) := by
    rw [find?_complete hne, hfind, if_pos rfl, Option.map_some, if_pos ⟨⟨d, hd, rfl⟩, rfl⟩]
  rw [iterate_resolved, hg] at h₁
  rw [unblocksNothing_iff]
  have hiff := sameStanding_iff h₁ h₂ rfl rfl rfl
  constructor
  · rintro ⟨a, b, ja, jb, ha, hb, hab⟩
    obtain ⟨rfl, -⟩ := Prod.mk.inj (Except.ok.inj (hc.symm.trans ha))
    obtain ⟨rfl, -⟩ := Prod.mk.inj (Except.ok.inj (hc₂.symm.trans hb))
    have : 0 + _ = 0 := hiff.mp hab
    omega
  · intro h0
    exact ⟨s₁, s₂, _, _, hc, hc₂, hiff.mpr (by rw [h0]; rfl)⟩

/-! ## A cancel followed by a retry -/

def revived (now : Time) (r : Job) : Job := toRow now retryDto (toRow now (cancelDto now) r)

theorem retryJob_of_cancelled {t : JobTable} {id organizationId : String} {r : Job} {now : Time}
    (h : t.find? id = some (toRow now (cancelDto now) r)) (horg : r.organizationId = organizationId)
    : ∃ t', retryJob t now id organizationId = .ok (t', revived now r) ∧
      t'.find? id = some (revived now r) := by
  have hcheck : checkRetry id organizationId (t.find? id) = .ok (toRow now (cancelDto now) r) :=
    checkRetry_eq_ok.mpr ⟨h, horg, by rw [retryable]; simp [toRow, cancelDto]⟩
  refine ⟨_, retryJob_eq_ok.mpr ⟨_, hcheck, rfl, rfl⟩, ?_⟩
  rw [find?_update, if_pos rfl, h]
  rfl

/-- **A cancel that returns** can always be followed by a retry, and the row is then revived. -/
theorem cancelThenRetry_of_checkCancel {s : Scheduler} {id organizationId : String} {r : Job}
    (h : checkCancel id organizationId (s.jobs.find? id) = .ok r) (now : Time) :
    ∃ s', cancelThenRetry s now id organizationId = .ok s' ∧ s'.graph = s.graph ∧
      s'.jobs.find? id = some (revived now r) := by
  obtain ⟨hr, horg, -⟩ := checkCancel_eq_ok.mp h
  have hfind : (update s.jobs id now (cancelDto now)).1.find? id =
      some (toRow now (cancelDto now) r) := by
    rw [find?_update, if_pos rfl, hr]
    rfl
  obtain ⟨t', hretry, hfind'⟩ := retryJob_of_cancelled hfind horg
  refine ⟨{ s with jobs := t' }, ?_, rfl, hfind'⟩
  rw [cancelThenRetry, cancelJob_eq_ok.mpr ⟨r, h, rfl, rfl⟩]
  dsimp only
  rw [hretry]
  rfl

/-- A cancel and a retry, with the completion of another job in between: it finds the row
`CANCELLED`, and passes it over. -/
theorem cancelCompleteRetry_of_checkCancel {s : Scheduler} {id organizationId : String} {r : Job}
    {jobId : JobId} (hne : id ≠ jobId)
    (h : checkCancel id organizationId (s.jobs.find? id) = .ok r) (now doneAt : Time)
    (status : JobStatus) :
    ∃ s', cancelCompleteRetry s now id organizationId doneAt jobId status = .ok s' ∧
      s'.jobs.find? id = some (revived now r) := by
  obtain ⟨hr, horg, -⟩ := checkCancel_eq_ok.mp h
  set s₀ := complete { s with jobs := (update s.jobs id now (cancelDto now)).1 } doneAt jobId status
    with hs₀
  have hfind : s₀.jobs.find? id = some (toRow now (cancelDto now) r) := by
    rw [hs₀, find?_complete hne]
    dsimp only
    rw [find?_update, if_pos rfl, hr, Option.map_some, Option.map_some,
      if_neg fun hp => JobStatus.noConfusion hp.2]
  obtain ⟨t', hretry, hfind'⟩ := retryJob_of_cancelled hfind horg
  refine ⟨{ s₀ with jobs := t' }, ?_, hfind'⟩
  rw [cancelCompleteRetry, cancelJob_eq_ok.mpr ⟨r, h, rfl, rfl⟩]
  dsimp only
  rw [← hs₀, hretry]
  rfl

/-- **A completion commutes with a cancel and a retry**: both orders run, and give the job the
same standing. -/
def CommutesWithCancelRetry (s : Scheduler) (id organizationId : String) (now doneAt : Time)
    (jobId : JobId) (status : JobStatus) : Prop :=
  ∃ s₁ s₂, cancelThenRetry (s.complete doneAt jobId status) now id organizationId = .ok s₁ ∧
    cancelThenRetry s now id organizationId = .ok s₂ ∧
    SameStanding id s₁ (s₂.complete doneAt jobId status)

/-- A completion between the cancel and the retry counts as one after both. -/
def CountsWhileCancelled (s : Scheduler) (id organizationId : String) (now doneAt : Time)
    (jobId : JobId) (status : JobStatus) : Prop :=
  ∃ s₁ s₂, cancelCompleteRetry s now id organizationId doneAt jobId status = .ok s₁ ∧
    cancelThenRetry s now id organizationId = .ok s₂ ∧
    SameStanding id s₁ (s₂.complete doneAt jobId status)

theorem find?_complete_revived {s s₂ : Scheduler} {id jobId : JobId} {r : Job} (hne : id ≠ jobId)
    (hn : Names r jobId) {now : Time} (hg : s₂.graph = s.graph)
    (h : s₂.jobs.find? id = some (revived now r)) (doneAt : Time) (status : JobStatus) :
    (s₂.complete doneAt jobId status).jobs.find? id =
      some ((resolved doneAt)^[(unblocked s.graph jobId status).length] (revived now r)) := by
  rw [find?_complete hne, h, hg, Option.map_some, if_pos ⟨hn, rfl⟩]

/-- **Cancel and retry.** The orders agree exactly when the job is `PENDING` before, or the
completion unblocks nothing. -/
theorem commutesWithCancelRetry_iff {s : Scheduler} {id organizationId : String} {r : Job}
    (h : checkCancel id organizationId (s.jobs.find? id) = .ok r) {jobId : JobId} (hne : id ≠ jobId)
    (hn : Names r jobId) (now doneAt : Time) (status : JobStatus) :
    CommutesWithCancelRetry s id organizationId now doneAt jobId status ↔
      r.status = .pending ∨ UnblocksNothing s.graph jobId status := by
  obtain ⟨s₂, hok₂, hg₂, hfind₂⟩ := cancelThenRetry_of_checkCancel h now
  have hlast := find?_complete_revived hne hn hg₂ hfind₂ doneAt status
  rw [iterate_resolved] at hlast
  obtain ⟨hr, horg, hst⟩ := checkCancel_eq_ok.mp h
  set n := (unblocked s.graph jobId status).length with hndef
  rw [unblocksNothing_iff, ← hndef]
  -- the row that the completion leaves for the cancel to find
  obtain ⟨r₁, hr₁, hfind₁⟩ : ∃ r₁, r₁ = (if Names r jobId ∧ r.status = .pending then
      (resolved doneAt)^[n] r else r) ∧ (s.complete doneAt jobId status).jobs.find? id = some r₁ :=
    ⟨_, rfl, by rw [find?_complete hne, hr]; rfl⟩
  rw [iterate_resolved] at hr₁
  have hsame : r₁.status = r.status ∧ r₁.organizationId = r.organizationId ∧
      r₁.scheduledAt = r.scheduledAt ∧ r₁.dependencyCount = r.dependencyCount := by
    subst hr₁
    split_ifs <;> exact ⟨rfl, rfl, rfl, rfl⟩
  obtain ⟨s₁, hok₁, -, hfirst⟩ := cancelThenRetry_of_checkCancel (checkCancel_eq_ok.mpr
    ⟨hfind₁, hsame.2.1.trans horg, hsame.1 ▸ hst⟩) now
  have hiff : SameStanding id s₁ (s₂.complete doneAt jobId status) ↔
      r₁.resolvedDependencyCount = r.resolvedDependencyCount + n :=
    sameStanding_iff hfirst hlast rfl hsame.2.2.1 hsame.2.2.2
  have hcount : r₁.resolvedDependencyCount = r.resolvedDependencyCount + n ↔
      r.status = .pending ∨ n = 0 := by
    subst hr₁
    by_cases hp : r.status = .pending
    · rw [if_pos ⟨hn, hp⟩]
      exact ⟨fun _ => .inl hp, fun _ => rfl⟩
    · rw [if_neg fun hc => hp hc.2]
      refine ⟨fun he => .inr (by omega), fun hc => ?_⟩
      have := hc.resolve_left hp
      omega
  rw [← hcount, ← hiff]
  constructor
  · rintro ⟨a, b, ha, hb, hab⟩
    obtain rfl := Except.ok.inj (hok₁.symm.trans ha)
    obtain rfl := Except.ok.inj (hok₂.symm.trans hb)
    exact hab
  · exact fun hab => ⟨s₁, s₂, hok₁, hok₂, hab⟩

/-- **Between the two**, a completion counts exactly when it unblocks nothing. -/
theorem countsWhileCancelled_iff {s : Scheduler} {id organizationId : String} {r : Job}
    (h : checkCancel id organizationId (s.jobs.find? id) = .ok r) {jobId : JobId} (hne : id ≠ jobId)
    (hn : Names r jobId) (now doneAt : Time) (status : JobStatus) :
    CountsWhileCancelled s id organizationId now doneAt jobId status ↔
      UnblocksNothing s.graph jobId status := by
  obtain ⟨s₂, hok₂, hg₂, hfind₂⟩ := cancelThenRetry_of_checkCancel h now
  obtain ⟨s₁, hok₁, hfind₁⟩ := cancelCompleteRetry_of_checkCancel hne h now doneAt status
  have hlast := find?_complete_revived hne hn hg₂ hfind₂ doneAt status
  rw [iterate_resolved] at hlast
  have hiff := sameStanding_iff hfind₁ hlast rfl rfl rfl
  rw [unblocksNothing_iff]
  constructor
  · rintro ⟨a, b, ha, hb, hab⟩
    obtain rfl := Except.ok.inj (hok₁.symm.trans ha)
    obtain rfl := Except.ok.inj (hok₂.symm.trans hb)
    have : (revived now r).resolvedDependencyCount =
      (revived now r).resolvedDependencyCount + _ := hiff.mp hab
    omega
  · intro h0
    exact ⟨s₁, s₂, hok₁, hok₂, hiff.mpr (by rw [h0]; rfl)⟩

/-! ## Over whole runs -/

def NoSelf (s : Scheduler) : Prop := ∀ r ∈ s.jobs, ∀ d ∈ r.dependencies, d.jobId ≠ r.id

theorem noSelf_update {s : Scheduler} (h : NoSelf s) (id : JobId) (now : Time)
    (dto : UpdateJobDto) : NoSelf { s with jobs := (update s.jobs id now dto).1 } := by
  intro r hr
  rcases mem_update.mp hr with ⟨hr, -⟩ | ⟨r₀, h₀, -, rfl⟩
  · exact h r hr
  · exact h r₀ h₀

/-- **No job waits for itself**: the jobs a new one waits for are in the table before it. -/
theorem noSelf_serviceStep {s s' : Scheduler} {e : ServiceEvent} (h : NoSelf s)
    (hs : serviceStep cronError s e = some s') : NoSelf s' := by
  cases e with
  | createJob id now dto =>
      obtain ⟨⟨s₁, job⟩, hc, rfl⟩ := Option.map_eq_some_iff.mp hs
      obtain ⟨-, hdeps, hsub⟩ := createJob_eq_ok.mp (toOption_eq_some.mp hc)
      obtain ⟨rfl, -, hfresh, -⟩ := submitJob_eq_some hsub
      intro r hr d hd he
      rcases (mem_submitJob hsub r).mp hr with hr | rfl
      · exact h r hr d hd he
      · have hdep := hdeps d hd
        rw [he, show (newRow id now dto).id = id from rfl, hfresh] at hdep
        exact Bool.false_ne_true hdep
  | complete now jobId status =>
      obtain rfl := Option.some.inj hs
      intro r hr
      obtain ⟨r₀, h₀, hid, hd⟩ := mem_complete hr
      rw [hid, hd]
      exact h r₀ h₀
  | claimPendingJobs now limit locked =>
      obtain rfl := Option.some.inj hs
      intro r hr
      rcases mem_claim hr with hr | ⟨r₀, h₀, rfl⟩
      · exact h r hr
      · exact h r₀ h₀
  | cancelJob now id organizationId =>
      obtain ⟨⟨t, job⟩, hc, rfl⟩ := Option.map_eq_some_iff.mp hs
      obtain ⟨-, -, rfl, -⟩ := cancelJob_eq_ok.mp (toOption_eq_some.mp hc)
      exact noSelf_update h id now _
  | retryJob now id organizationId =>
      obtain ⟨⟨t, job⟩, hc, rfl⟩ := Option.map_eq_some_iff.mp hs
      obtain ⟨-, -, rfl, -⟩ := retryJob_eq_ok.mp (toOption_eq_some.mp hc)
      exact noSelf_update h id now _

/-- **When a completion counts whenever it happens.** In every reachable state, a completion
commutes with the creation of a job that waits for it exactly when it unblocks nothing once the
job is registered; it commutes with a cancel and a retry of such a job exactly when the job is
`PENDING` before, or the completion unblocks nothing; and between the two it counts exactly when
it unblocks nothing. -/
theorem completion_commutes_iff {es : List ServiceEvent} {s : Scheduler}
    (h : Run (serviceStep cronError) anyStep init es s) :
    (∀ id now dto s₁ job, createJob cronError s id now dto = .ok (s₁, job) →
      ∀ d ∈ job.dependencies, ∀ doneAt status,
        (CommutesWithCreate cronError s id now dto doneAt d.jobId status ↔
          UnblocksNothing (register s.graph job) d.jobId status)) ∧
    (∀ id organizationId r, checkCancel id organizationId (s.jobs.find? id) = .ok r →
      ∀ d ∈ r.dependencies, ∀ now doneAt status,
        (CommutesWithCancelRetry s id organizationId now doneAt d.jobId status ↔
          r.status = .pending ∨ UnblocksNothing s.graph d.jobId status) ∧
        (CountsWhileCancelled s id organizationId now doneAt d.jobId status ↔
          UnblocksNothing s.graph d.jobId status)) := by
  have hself : NoSelf s := h.stable (P := NoSelf)
    (fun r hr => absurd hr (Table.not_mem_empty r)) fun _ _ _ _ hi _ hs => noSelf_serviceStep hi hs
  refine ⟨fun id now dto s₁ job hc d hd doneAt status => commutesWithCreate_iff hc hd doneAt status,
    fun id organizationId r hr d hd now doneAt status => ?_⟩
  obtain ⟨hfind, -⟩ := checkCancel_eq_ok.mp hr
  have hne : id ≠ d.jobId := by
    rintro rfl
    exact hself r (Table.mem_of_find? hfind) d hd (Table.key_of_find? hfind).symm
  exact ⟨commutesWithCancelRetry_iff hr hne ⟨d, hd, rfl⟩ now doneAt status,
    countsWhileCancelled_iff hr hne ⟨d, hd, rfl⟩ now doneAt status⟩

def noCronError : String → String → Option String := fun _ _ => none

/-- `b` is created to wait for `a`. -/
def created : List ServiceEvent :=
  [.createJob "a" 1 (plainDto []), .createJob "b" 2 (plainDto [⟨"a", [.completed]⟩])]

def waitsForA : CreateJobDto := plainDto [⟨"a", [.completed]⟩]

theorem created_completion_commutes :
    ∃ s, runEvents (serviceStep noCronError) init created = some s ∧
      CommutesWithCreate noCronError s "c" 3 waitsForA 4 "a" .failed ∧
      CommutesWithCancelRetry s "b" "org1" 3 4 "a" .completed := by
  obtain ⟨s, hs, hp⟩ := exists_run_of_check (serviceStep noCronError) anyStep init created
    (fun s =>
      ((createJob noCronError s "c" 3 waitsForA).toOption.map (·.2) =
        some (newRow "c" 3 waitsForA)) ∧
      UnblocksNothing (register s.graph (newRow "c" 3 waitsForA)) "a" .failed ∧
      (checkCancel "b" "org1" (s.jobs.find? "b")).toOption = some (newRow "b" 2 waitsForA))
    (by decide)
  obtain ⟨hc, hu, hr⟩ := of_decide_eq_true hp
  have hiff := completion_commutes_iff hs
  have hd : (⟨"a", [.completed]⟩ : JobDependency) ∈ [⟨"a", [.completed]⟩] :=
    List.mem_singleton.mpr rfl
  refine ⟨s, hs.runEvents_eq, ?_, ?_⟩
  · obtain ⟨⟨s₁, job⟩, hok, rfl⟩ := Option.map_eq_some_iff.mp hc
    exact (hiff.1 "c" 3 _ s₁ _ (toOption_eq_some.mp hok) _ hd 4 .failed).mpr hu
  · exact (hiff.2 "b" "org1" _ (toOption_eq_some.mp hr) _ hd 3 4 .completed).1.mpr (.inl rfl)

/-- **A completion before the creation is lost**: `a` completes with the status that `c` asks for,
and the counter of `c` depends on whether that happened before `c` was created or after. -/
theorem completed_before_creation_lost :
    ∃ s, Run (serviceStep noCronError) anyStep init created s ∧
      (createJob noCronError s "c" 3 waitsForA).toOption.isSome ∧
      ¬ CommutesWithCreate noCronError s "c" 3 waitsForA 4 "a" .completed := by
  obtain ⟨s, hs, hp⟩ := exists_run_of_check (serviceStep noCronError) anyStep init created
    (fun s =>
      ((createJob noCronError s "c" 3 waitsForA).toOption.map (·.2) =
        some (newRow "c" 3 waitsForA)) ∧
      ¬ UnblocksNothing (register s.graph (newRow "c" 3 waitsForA)) "a" .completed) (by decide)
  obtain ⟨hc, hu⟩ := of_decide_eq_true hp
  obtain ⟨⟨s₁, job⟩, hok, rfl⟩ := Option.map_eq_some_iff.mp hc
  refine ⟨s, hs, by rw [hok]; rfl, fun hcomm => hu ?_⟩
  exact (commutesWithCreate_iff (toOption_eq_some.mp hok) (d := ⟨"a", [.completed]⟩)
    (List.mem_singleton.mpr rfl) 4 .completed).mp hcomm

end TaskOrchestration.Scheduler

import TaskOrchestration.Job.Repository

set_option autoImplicit false

/-!
# The job service

The checks of `JobService` between its repository calls, the updates it sends, and its operations
run without interruption.

* `ServiceError`, with the HTTP status of each kind;
* `authorize`, `checkCancel`, `checkRetry`: the checks; `cancelDto`, `retryDto`: the updates;
* `cancelJob`, `retryJob`; **`updateChecked_eq_ok`**: what a call that returns has done;
* `bulkCancel`; `mem_bulkCancel`, `bulkCancel_induction`.
-/

namespace TaskOrchestration

open JobRepository

inductive ServiceError
  | error (msg : String)
  | notFound (msg : String)
  | forbidden (msg : String)
  | conflict (msg : String)
  | validation (msg : String)
  deriving DecidableEq, Repr

def ServiceError.statusCode : ServiceError → ℕ
  | .error _ => 500
  | .notFound _ => 404
  | .forbidden _ => 403
  | .conflict _ => 409
  | .validation _ => 422

def ServiceError.message : ServiceError → String
  | .error msg | .notFound msg | .forbidden msg | .conflict msg | .validation msg => msg

structure BulkCancelled where
  cancelled : List JobId
  skipped : List JobId
  deriving DecidableEq, Repr

namespace JobService

/-- The checks of `getJob` on the row that was read. -/
def authorize (id organizationId : String) (row : Option Job) : Except ServiceError Job :=
  match row with
  | none => .error (.notFound ("Job not found: " ++ id))
  | some job =>
      if job.organizationId ≠ organizationId then .error (.forbidden "Access denied") else .ok job

/-- The statuses in which `cancelJob` refuses. -/
def notCancellable : List JobStatus := [.completed, .failed, .cancelled]

def retryable : List JobStatus := [.failed, .cancelled, .timedOut]

/-- The checks of an operation that accepts the statuses in `allowed`. -/
def checkStatus (verb : String) (allowed : JobStatus → Bool) (id organizationId : String)
    (row : Option Job) : Except ServiceError Job :=
  match authorize id organizationId row with
  | .error e => .error e
  | .ok job =>
      if allowed job.status then .ok job
      else .error (.conflict ("Cannot " ++ verb ++ " job in status: " ++ job.status.toText))

def checkCancel : String → String → Option Job → Except ServiceError Job :=
  checkStatus "cancel" (· ∉ notCancellable)

def checkRetry : String → String → Option Job → Except ServiceError Job :=
  checkStatus "retry" (· ∈ retryable)

def cancelDto (now : Time) : UpdateJobDto := { status := some .cancelled, completedAt := some now }

/-- The update of `retryJob`. The fields it means to clear are `undefined`. -/
def retryDto : UpdateJobDto where
  status := some .pending
  workerId := none
  startedAt := none
  completedAt := none
  errorMessage := none
  errorStack := none

def getJob (t : JobTable) (id organizationId : String) : Except ServiceError Job :=
  authorize id organizationId (findById t id)

def updateChecked (verb : String) (check : Option Job → Except ServiceError Job) (t : JobTable)
    (now : Time) (id : JobId) (dto : UpdateJobDto) : Except ServiceError (JobTable × Job) :=
  match check (findById t id) with
  | .error e => .error e
  | .ok _ =>
      match update t id now dto with
      | (t', some updated) => .ok (t', updated)
      | (_, none) => .error (.error ("Failed to " ++ verb ++ " job"))

def cancelJob (t : JobTable) (now : Time) (id organizationId : String) :
    Except ServiceError (JobTable × Job) :=
  updateChecked "cancel" (checkCancel id organizationId) t now id (cancelDto now)

def retryJob (t : JobTable) (now : Time) (id organizationId : String) :
    Except ServiceError (JobTable × Job) :=
  updateChecked "retry" (checkRetry id organizationId) t now id retryDto

/-- `bulkCancel`, uninterrupted: an id whose cancel throws is skipped. -/
def bulkCancel (now : Time) (organizationId : String) :
    JobTable → List JobId → JobTable × BulkCancelled
  | t, [] => (t, ⟨[], []⟩)
  | t, id :: ids =>
      match cancelJob t now id organizationId with
      | .ok (t', _) =>
          let p := bulkCancel now organizationId t' ids
          (p.1, { p.2 with cancelled := id :: p.2.cancelled })
      | .error _ =>
          let p := bulkCancel now organizationId t ids
          (p.1, { p.2 with skipped := id :: p.2.skipped })

/-! ## What the checks say -/

theorem toOption_eq_some {ε α : Type} {x : Except ε α} {a : α} :
    x.toOption = some a ↔ x = .ok a := by
  cases x <;> simp [Except.toOption]

theorem authorize_eq_ok {id organizationId : String} {row : Option Job} {job : Job} :
    authorize id organizationId row = .ok job ↔
      row = some job ∧ job.organizationId = organizationId := by
  cases row with
  | none => simp [authorize]
  | some j =>
      simp only [authorize, Option.some.injEq]
      by_cases hj : j.organizationId = organizationId
      · rw [if_neg (not_not.mpr hj), Except.ok.injEq]
        exact ⟨fun h => ⟨h, h ▸ hj⟩, fun h => h.1⟩
      · rw [if_pos hj]
        exact ⟨nofun, fun h => absurd (h.1 ▸ h.2) hj⟩

theorem checkStatus_eq_ok {verb id organizationId : String} {allowed : JobStatus → Bool}
    {row : Option Job} {job : Job} : checkStatus verb allowed id organizationId row = .ok job ↔
      row = some job ∧ job.organizationId = organizationId ∧ allowed job.status = true := by
  rw [← and_assoc, ← authorize_eq_ok, checkStatus]
  cases h : authorize id organizationId row with
  | error e => simp
  | ok j =>
      simp only [Except.ok.injEq]
      by_cases hj : allowed j.status = true
      · rw [if_pos hj, Except.ok.injEq]
        exact ⟨fun h => ⟨h, h ▸ hj⟩, fun h => h.1⟩
      · rw [if_neg hj]
        exact ⟨nofun, fun h => absurd (h.1 ▸ h.2) hj⟩

/-- **A refusal**: the row is not there, or it is another organization's. -/
theorem authorize_eq_error {id organizationId : String} {row : Option Job} {e : ServiceError}
    (h : authorize id organizationId row = .error e) :
    (row = none ∧ e = .notFound ("Job not found: " ++ id)) ∨ e = .forbidden "Access denied" := by
  unfold authorize at h
  cases row with
  | none => exact .inl ⟨rfl, (Except.error.inj h).symm⟩
  | some job =>
      dsimp only at h
      split_ifs at h
      exact .inr (Except.error.inj h).symm

theorem checkStatus_eq_error {verb id organizationId : String} {allowed : JobStatus → Bool}
    {row : Option Job} {e : ServiceError}
    (h : checkStatus verb allowed id organizationId row = .error e) :
    authorize id organizationId row = .error e ∨ ∃ status : JobStatus,
      e = .conflict ("Cannot " ++ verb ++ " job in status: " ++ status.toText) := by
  unfold checkStatus at h
  split at h
  · rename_i e' he
    rw [he, Except.error.inj h]
    exact .inl rfl
  · rename_i job _
    split_ifs at h
    exact .inr ⟨job.status, (Except.error.inj h).symm⟩

theorem checkCancel_eq_ok {id organizationId : String} {row : Option Job} {job : Job} :
    checkCancel id organizationId row = .ok job ↔
      row = some job ∧ job.organizationId = organizationId ∧ job.status ∉ notCancellable := by
  rw [checkCancel, checkStatus_eq_ok, decide_eq_true_eq]

theorem checkRetry_eq_ok {id organizationId : String} {row : Option Job} {job : Job} :
    checkRetry id organizationId row = .ok job ↔
      row = some job ∧ job.organizationId = organizationId ∧ job.status ∈ retryable := by
  rw [checkRetry, checkStatus_eq_ok, decide_eq_true_eq]

/-- **An operation that returns** has passed its check, and has updated the row. -/
theorem updateChecked_eq_ok {verb : String} {check : Option Job → Except ServiceError Job}
    {t t' : JobTable} {now : Time} {id : JobId} {dto : UpdateJobDto} {job : Job}
    (hcheck : ∀ row j, check row = .ok j → row = some j) :
    updateChecked verb check t now id dto = .ok (t', job) ↔
      ∃ r, check (t.find? id) = .ok r ∧ t' = (update t id now dto).1 ∧ job = toRow now dto r := by
  rw [updateChecked, findById]
  cases hc : check (t.find? id) with
  | error e => simp
  | ok r =>
      have hu : update t id now dto = ((update t id now dto).1, some (toRow now dto r)) := by
        refine Prod.ext rfl ?_
        rw [update_snd, hcheck _ _ hc]
        rfl
      simp only [Except.ok.injEq]
      rw [hu]
      simp only [Except.ok.injEq, Prod.mk.injEq]
      constructor
      · rintro ⟨rfl, rfl⟩
        exact ⟨r, rfl, rfl, rfl⟩
      · rintro ⟨r', rfl, rfl, rfl⟩
        exact ⟨rfl, rfl⟩

theorem updateChecked_eq_error {verb : String} {check : Option Job → Except ServiceError Job}
    {t : JobTable} {now : Time} {id : JobId} {dto : UpdateJobDto} {e : ServiceError}
    (h : updateChecked verb check t now id dto = .error e) :
    check (t.find? id) = .error e ∨ e = .error ("Failed to " ++ verb ++ " job") := by
  unfold updateChecked at h
  split at h
  · rename_i e' he
    rw [← Except.error.inj h]
    exact .inl he
  · split at h
    · cases h
    · exact .inr (Except.error.inj h).symm

theorem cancelJob_eq_ok {t t' : JobTable} {now : Time} {id organizationId : String} {job : Job} :
    cancelJob t now id organizationId = .ok (t', job) ↔
      ∃ r, checkCancel id organizationId (t.find? id) = .ok r ∧
        t' = (update t id now (cancelDto now)).1 ∧ job = toRow now (cancelDto now) r :=
  updateChecked_eq_ok fun _ _ h => (checkCancel_eq_ok.mp h).1

theorem retryJob_eq_ok {t t' : JobTable} {now : Time} {id organizationId : String} {job : Job} :
    retryJob t now id organizationId = .ok (t', job) ↔
      ∃ r, checkRetry id organizationId (t.find? id) = .ok r ∧
        t' = (update t id now retryDto).1 ∧ job = toRow now retryDto r :=
  updateChecked_eq_ok fun _ _ h => (checkRetry_eq_ok.mp h).1

/-- **Every id** of a bulk cancel is cancelled or skipped. -/
theorem mem_bulkCancel {now : Time} {organizationId x : String} {ids : List JobId} (t : JobTable) :
    (x ∈ (bulkCancel now organizationId t ids).2.cancelled ∨
      x ∈ (bulkCancel now organizationId t ids).2.skipped) ↔ x ∈ ids := by
  induction ids generalizing t with
  | nil => simp [bulkCancel]
  | cons id ids ih =>
      rw [bulkCancel]
      split
      · rename_i t' job _
        simp only [List.mem_cons, or_assoc, ih t']
      · simp only [List.mem_cons, or_left_comm, ih t]

theorem bulkCancel_induction {now : Time} {organizationId : String} {P : JobTable → Prop}
    (hstep : ∀ t t' id job, P t → cancelJob t now id organizationId = .ok (t', job) → P t')
    {t : JobTable} (h : P t) (ids : List JobId) : P (bulkCancel now organizationId t ids).1 := by
  induction ids generalizing t with
  | nil => exact h
  | cons id ids ih =>
      rw [bulkCancel]
      split
      · rename_i t' job hc
        exact ih (hstep t t' id job h hc)
      · exact ih h

end JobService

end TaskOrchestration

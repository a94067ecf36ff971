import Mathlib.Data.List.Sort
import TaskOrchestration.Job.Model

set_option autoImplicit false

/-!
# The job repository

The statements `JobRepository` sends to PostgreSQL, as functions of the table and of the time
they run at. Each is one atomic statement.

* `create`, `findById`, `update` (with `toRow`: a field that is `undefined` keeps its column);
* `claimPendingJobs`: the oldest claimable rows of the highest priority move to `QUEUED`;
* `findStalledJobs`, `resolveDependency`.
-/

namespace TaskOrchestration.JobRepository

open TaskOrchestration

/-- The row that `create` inserts. -/
def newRow (id : JobId) (now : Time) (dto : CreateJobDto) : Job where
  id := id
  name := dto.name
  description := dto.description
  type := dto.type
  payload := dto.payload
  status := .pending
  priority := dto.priority.getD .medium
  scheduledAt := dto.scheduledAt
  cronExpression := dto.cronExpression
  timezone := dto.timezone.getD "UTC"
  workerId := none
  startedAt := none
  completedAt := none
  timeoutMs := dto.timeoutMs.getD 300000
  retryConfig :=
    { maxRetries := (dto.retryConfig.bind (·.maxRetries)).getD 3
      retryDelay := (dto.retryConfig.bind (·.retryDelay)).getD 5000
      retryBackoff := (dto.retryConfig.bind (·.retryBackoff)).getD .exponential
      retryOn := (dto.retryConfig.bind (·.retryOn)).getD [] }
  retryCount := 0
  maxRetries := (dto.retryConfig.bind (·.maxRetries)).getD 3
  dependencies := dto.dependencies.getD []
  dependencyCount := (dto.dependencies.getD []).length
  resolvedDependencyCount := 0
  result := none
  errorMessage := none
  errorStack := none
  exitCode := none
  organizationId := dto.organizationId
  createdBy := dto.createdBy
  tags := dto.tags.getD []
  metadata := dto.metadata.getD []
  createdAt := now
  updatedAt := now

/-- `create`: insert the row of `dto` under the generated id. The primary key rejects an id that
is already in the table. -/
def create (t : JobTable) (id : JobId) (now : Time) (dto : CreateJobDto) :
    Option (JobTable × Job) :=
  (t.insert? (newRow id now dto)).map fun t' => (t', newRow id now dto)

def findById (t : JobTable) (id : JobId) : Option Job := t.find? id

/-- `toRow` and the `updated_at` trigger: the columns of the fields that are not `undefined` are
set, every other column keeps its value. -/
def toRow (now : Time) (dto : UpdateJobDto) (r : Job) : Job :=
  { r with
    status := dto.status.getD r.status
    workerId := dto.workerId.or r.workerId
    startedAt := dto.startedAt.or r.startedAt
    completedAt := dto.completedAt.or r.completedAt
    result := dto.result.or r.result
    errorMessage := dto.errorMessage.or r.errorMessage
    errorStack := dto.errorStack.or r.errorStack
    exitCode := dto.exitCode.or r.exitCode
    retryCount := dto.retryCount.getD r.retryCount
    resolvedDependencyCount := dto.resolvedDependencyCount.getD r.resolvedDependencyCount
    updatedAt := now }

@[simp] theorem toRow_id (now : Time) (dto : UpdateJobDto) (r : Job) :
    (toRow now dto r).id = r.id := rfl

/-- `update`: set the fields of `dto` in the row `id`, and return that row. -/
def update (t : JobTable) (id : JobId) (now : Time) (dto : UpdateJobDto) :
    JobTable × Option Job :=
  let t' := Table.update t id (toRow now dto) (toRow_id now dto)
  (t', t'.find? id)

/-! ## Claiming -/

/-- The `WHERE` clause of `claimPendingJobs`. -/
def Claimable (now : Time) (r : Job) : Prop :=
  r.status = .pending ∧ (∀ t ∈ r.scheduledAt, t ≤ now) ∧
    r.dependencyCount = r.resolvedDependencyCount

instance (now : Time) : DecidablePred (Claimable now) := fun r => by
  unfold Claimable; infer_instance

/-- The `CASE priority` of the `ORDER BY` clause. -/
def priorityRank : JobPriority → ℕ
  | .critical => 1
  | .high => 2
  | .medium => 3
  | .low => 4
  | .background => 5

/-- `scheduled_at ASC NULLS LAST`: is the first date strictly before the second? -/
def scheduledBefore : Option Time → Option Time → Bool
  | some a, some b => a < b
  | some _, none => true
  | none, _ => false

/-- The `ORDER BY` clause of `claimPendingJobs`. -/
def ClaimOrder (a b : Job) : Prop :=
  priorityRank a.priority < priorityRank b.priority ∨
    (priorityRank a.priority = priorityRank b.priority ∧
      (scheduledBefore a.scheduledAt b.scheduledAt = true ∨
        (a.scheduledAt = b.scheduledAt ∧ a.createdAt ≤ b.createdAt)))

instance : DecidableRel ClaimOrder := fun a b => by unfold ClaimOrder; infer_instance

/-- The rows that the inner `SELECT` of `claimPendingJobs` returns. Rows in `locked` are locked by
other sessions, and skipped. -/
def selectClaimable (t : JobTable) (now : Time) (limit : ℕ) (locked : List JobId) : List Job :=
  ((t.rows.filter fun r => Claimable now r ∧ r.id ∉ locked).insertionSort ClaimOrder).take limit

def claimed (now : Time) (r : Job) : Job := { r with status := .queued, updatedAt := now }

@[simp] theorem claimed_id (now : Time) (r : Job) : (claimed now r).id = r.id := rfl

/-- `claimPendingJobs`: move the selected rows to `QUEUED`, and return them. `RETURNING` promises no
order; they come here in that of the `SELECT`, and each is enqueued by itself. -/
def claimPendingJobs (t : JobTable) (now : Time) (limit : ℕ) (locked : List JobId) :
    JobTable × List Job :=
  let ids := (selectClaimable t now limit locked).map Job.id
  (t.updateWhere (fun r => r.id ∈ ids) (claimed now) (claimed_id now),
    (selectClaimable t now limit locked).map (claimed now))

/-- `findStalledJobs`: the `RUNNING` rows that started at least `staleThresholdMs` ago. -/
def findStalledJobs (t : JobTable) (now : Time) (staleThresholdMs : ℕ) : List Job :=
  t.rows.filter fun r => r.status = .running ∧ ∃ s ∈ r.startedAt, s + staleThresholdMs ≤ now

/-! ## Dependency counters -/

/-- `dependencies @> [{"jobId": id}]`: some entry names the job. -/
def Names (r : Job) (id : JobId) : Prop := ∃ d ∈ r.dependencies, d.jobId = id

instance (r : Job) (id : JobId) : Decidable (Names r id) := by unfold Names; infer_instance

/-- A row whose counter is raised. -/
def resolved (now : Time) (r : Job) : Job :=
  { r with resolvedDependencyCount := r.resolvedDependencyCount + 1, updatedAt := now }

@[simp] theorem resolved_id (now : Time) (r : Job) : (resolved now r).id = r.id := rfl

/-- `resolveDependency`: raise the counter of every `PENDING` row that names the job. -/
def resolveDependency (t : JobTable) (now : Time) (completedJobId : JobId) : JobTable :=
  t.updateWhere (fun r => Names r completedJobId ∧ r.status = .pending) (resolved now)
    (resolved_id now)

/-! ## What the statements do to a row -/

theorem find?_create {t t' : JobTable} {id : JobId} {now : Time} {dto : CreateJobDto} {r : Job}
    (h : create t id now dto = some (t', r)) (k : JobId) :
    t'.find? k = if k = id then some (newRow id now dto) else t.find? k := by
  obtain ⟨t₁, ht, he⟩ := Option.map_eq_some_iff.mp h
  obtain ⟨rfl, -⟩ := Prod.mk.inj he
  exact Table.find?_insert ht k

theorem mem_create {t t' : JobTable} {id : JobId} {now : Time} {dto : CreateJobDto} {r : Job}
    (h : create t id now dto = some (t', r)) (b : Job) : b ∈ t' ↔ b ∈ t ∨ b = r := by
  obtain ⟨t₁, ht, he⟩ := Option.map_eq_some_iff.mp h
  obtain ⟨rfl, rfl⟩ := Prod.mk.inj he
  exact Table.mem_insert ht

theorem create_eq {t t' : JobTable} {id : JobId} {now : Time} {dto : CreateJobDto} {r : Job}
    (h : create t id now dto = some (t', r)) :
    r = newRow id now dto ∧ t.find? id = none := by
  obtain ⟨t₁, ht, he⟩ := Option.map_eq_some_iff.mp h
  obtain ⟨rfl, rfl⟩ := Prod.mk.inj he
  exact ⟨rfl, (Table.insert?_eq_some.mp ht).1⟩

theorem create_isSome {t : JobTable} {id : JobId} (now : Time) (dto : CreateJobDto)
    (h : t.find? id = none) : ∃ t', create t id now dto = some (t', newRow id now dto) := by
  obtain ⟨t', ht⟩ := Table.insert?_isSome (a := newRow id now dto) h
  exact ⟨t', by rw [create, ht]; rfl⟩

theorem find?_update (t : JobTable) (id : JobId) (now : Time) (dto : UpdateJobDto) (k : JobId) :
    (update t id now dto).1.find? k =
      if k = id then (t.find? k).map (toRow now dto) else t.find? k :=
  Table.find?_update _ _ _ (toRow_id now dto) _

theorem update_snd (t : JobTable) (id : JobId) (now : Time) (dto : UpdateJobDto) :
    (update t id now dto).2 = (t.find? id).map (toRow now dto) :=
  Table.find?_update_self _ _ _ (toRow_id now dto)

theorem mem_update {t : JobTable} {id : JobId} {now : Time} {dto : UpdateJobDto} {b : Job} :
    b ∈ (update t id now dto).1 ↔ (b ∈ t ∧ b.id ≠ id) ∨ ∃ a ∈ t, a.id = id ∧ toRow now dto a = b :=
  Table.mem_update (toRow_id now dto)

theorem mem_selectClaimable {t : JobTable} {now : Time} {limit : ℕ} {locked : List JobId}
    {r : Job} (h : r ∈ selectClaimable t now limit locked) : r ∈ t ∧ Claimable now r := by
  have h' := List.mem_of_mem_take h
  rw [List.mem_insertionSort, List.mem_filter] at h'
  exact ⟨h'.1, (of_decide_eq_true h'.2).1⟩

/-- **What is claimed**: rows of the table that pass the guard. -/
theorem mem_claimPendingJobs {t : JobTable} {now : Time} {limit : ℕ} {locked : List JobId}
    {r : Job} (h : r ∈ (claimPendingJobs t now limit locked).2) :
    ∃ r₀ ∈ t, Claimable now r₀ ∧ r = claimed now r₀ := by
  obtain ⟨r₀, h₀, rfl⟩ := List.mem_map.mp h
  exact ⟨r₀, (mem_selectClaimable h₀).1, (mem_selectClaimable h₀).2, rfl⟩

theorem find?_of_mem_claim {t : JobTable} {now : Time} {limit : ℕ} {locked : List JobId} {r : Job}
    (h : r ∈ (claimPendingJobs t now limit locked).2) :
    (claimPendingJobs t now limit locked).1.find? r.id = some r := by
  obtain ⟨r₀, h₀, rfl⟩ := List.mem_map.mp h
  have hid : r₀.id ∈ (selectClaimable t now limit locked).map Job.id := List.mem_map_of_mem h₀
  rw [claimed_id, claimPendingJobs, Table.find?_updateWhere,
    Table.mem_iff_find?.mp (mem_selectClaimable h₀).1, Option.map_some, if_pos (decide_eq_true hid)]

/-- A row after a claim: unchanged, or a claimable row that is now `QUEUED` and was returned. -/
theorem find?_claimPendingJobs {t : JobTable} {now : Time} {limit : ℕ} {locked : List JobId}
    {k : JobId} {r : Job} (h : (claimPendingJobs t now limit locked).1.find? k = some r) :
    t.find? k = some r ∨ ∃ r₀, t.find? k = some r₀ ∧ Claimable now r₀ ∧ r = claimed now r₀ ∧
      r ∈ (claimPendingJobs t now limit locked).2 := by
  rw [claimPendingJobs, Table.find?_updateWhere] at h
  obtain ⟨r₀, h₀, hr⟩ := Option.map_eq_some_iff.mp h
  split_ifs at hr with hid
  · obtain ⟨r₁, h₁, he⟩ := List.mem_map.mp (of_decide_eq_true hid)
    obtain rfl := Table.key_inj (mem_selectClaimable h₁).1 (Table.mem_of_find? h₀) he
    exact .inr ⟨r₁, h₀, (mem_selectClaimable h₁).2, hr.symm, List.mem_map.mpr ⟨r₁, h₁, hr⟩⟩
  · exact .inl (hr ▸ h₀)

theorem find?_claim_of_some {t : JobTable} {k : JobId} {r₀ : Job} (h : t.find? k = some r₀)
    (now : Time) (limit : ℕ) (locked : List JobId) :
    ∃ r, (claimPendingJobs t now limit locked).1.find? k = some r ∧
      (r = r₀ ∨ (Claimable now r₀ ∧ r = claimed now r₀)) := by
  have hk : ((claimPendingJobs t now limit locked).1.find? k).isSome := by
    rw [claimPendingJobs, Table.find?_updateWhere, h]
    rfl
  obtain ⟨r, hr⟩ := Option.isSome_iff_exists.mp hk
  refine ⟨r, hr, ?_⟩
  rcases find?_claimPendingJobs hr with h' | ⟨r₁, h₁, hc, rfl, -⟩
  · exact .inl (Option.some.inj (h'.symm.trans h))
  · obtain rfl := Option.some.inj (h₁.symm.trans h)
    exact .inr ⟨hc, rfl⟩

theorem mem_findStalledJobs {t : JobTable} {now : Time} {staleThresholdMs : ℕ} {r : Job} :
    r ∈ findStalledJobs t now staleThresholdMs ↔
      r ∈ t ∧ r.status = .running ∧ ∃ s ∈ r.startedAt, s + staleThresholdMs ≤ now := by
  rw [findStalledJobs, List.mem_filter, decide_eq_true_eq]
  rfl

theorem find?_resolveDependency (t : JobTable) (now : Time) (id k : JobId) :
    (resolveDependency t now id).find? k = (t.find? k).map fun r =>
      if Names r id ∧ r.status = .pending then resolved now r else r := by
  rw [resolveDependency, Table.find?_updateWhere]
  simp only [decide_eq_true_eq]

/-- `n` calls of `resolveDependency` for the same job. -/
def resolveTimes (t : JobTable) (now : Time) (id : JobId) : ℕ → JobTable
  | 0 => t
  | n + 1 => resolveTimes (resolveDependency t now id) now id n

/-- **`n` calls**: a `PENDING` row that names the job is raised `n` times, the others stay. -/
theorem find?_resolveTimes (now : Time) (id k : JobId) (n : ℕ) (t : JobTable) :
    (resolveTimes t now id n).find? k = (t.find? k).map fun r =>
      if Names r id ∧ r.status = .pending then (resolved now)^[n] r else r := by
  induction n generalizing t with
  | zero => simp [resolveTimes]
  | succ n ih =>
      rw [resolveTimes, ih, find?_resolveDependency, Option.map_map]
      congr 1
      funext r
      by_cases hr : Names r id ∧ r.status = .pending
      · have hr' : Names (resolved now r) id ∧ (resolved now r).status = .pending := hr
        rw [Function.comp_apply, if_pos hr, if_pos hr', if_pos hr, Function.iterate_succ_apply]
      · rw [Function.comp_apply, if_neg hr, if_neg hr, if_neg hr]

theorem iterate_resolved (now : Time) (n : ℕ) (r : Job) :
    (resolved now)^[n] r =
      { r with
        resolvedDependencyCount := r.resolvedDependencyCount + n
        updatedAt := if n = 0 then r.updatedAt else now } := by
  induction n with
  | zero => rfl
  | succ n ih =>
      rw [Function.iterate_succ_apply', ih]
      rfl

end TaskOrchestration.JobRepository

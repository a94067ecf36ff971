import Mathlib.Algebra.BigOperators.Group.List.Basic
import Mathlib.Algebra.Ring.Nat
import TaskOrchestration.Api.Jobs
import TaskOrchestration.System.Step

set_option autoImplicit false

/-!
# The statistics of an organization

`getJobStats` adds up the counts of seven of the nine statuses. The other two are never written to a
job: `TIMED_OUT` goes to the execution log only, and nothing skips a job.

* `countedStatuses`, `JobStats`, **`getJobStats`**;
* `counted_of_pending`: the statuses that the calls of the operations write;
* `Counted`, **`counted_of_run`**: the statuses of the rows;
* `sum_map_countP`, `total_findMany`, **`stats_account`**.
-/

namespace TaskOrchestration

open LabelledRun JobRepository

namespace JobService

def countedStatuses : List JobStatus :=
  [.pending, .queued, .running, .completed, .failed, .retrying, .cancelled]

structure JobStats where
  total : ℕ
  byStatus : List (JobStatus × ℕ)
  byPriority : List (JobPriority × ℕ)
  avgDurationMs : ℕ
  deriving DecidableEq, Repr

/-- **`getJobStats`**: one query for each status, of which only the total is used. -/
def getJobStats (pg : Postgres) (t : JobTable) (organizationId : String) : JobStats :=
  let byStatus := countedStatuses.map fun status =>
    (status, (findMany pg t
      { status := some [status], organizationId := some organizationId, limit := some 1 }).total)
  { total := (byStatus.map Prod.snd).sum
    byStatus := byStatus
    byPriority := []
    avgDurationMs := 0 }

end JobService

open JobService

/-! ## The statuses that are written -/

theorem counted_of_call {workerId : String} {data : QueueJobPayload} {pc : ProcessPc}
    {second : Bool} {k : JobId} {dto : UpdateJobDto} {x : JobStatus}
    (hc : pc.call workerId data second = some (.update k dto)) (hd : dto.status = some x) :
    x ∈ countedStatuses := by
  unfold ProcessPc.call at hc
  split at hc <;> simp only [Option.some.injEq, Call.update.injEq, reduceCtorEq] at hc
  all_goals
    obtain ⟨rfl, rfl⟩ := hc
    obtain rfl := Option.some.inj hd
    decide

/-- **The statuses that the operations write.** A call that nobody waits for is one of `success`. -/
theorem counted_of_pending {cfg : Config} {op : Op} {second : Bool} {k : JobId}
    {dto : UpdateJobDto} {x : JobStatus} (htidy : op.tidy = true)
    (hc : op.pending cfg second = some (.update k dto)) (hd : dto.status = some x) :
    x ∈ countedStatuses := by
  unfold Op.pending at hc
  split at hc
  case h_1 => exact counted_of_call hc hd
  case h_15 =>
    obtain rfl := Option.some.inj hc
    obtain rfl := Option.some.inj (hd.symm.trans (of_decide_eq_true htidy))
    decide
  all_goals simp only [Option.some.injEq, Call.update.injEq, reduceCtorEq] at hc
  all_goals obtain ⟨rfl, rfl⟩ := hc
  case h_6 =>
    -- a stalled job is pending again, or has failed
    unfold Op.recoverDto at hd
    split_ifs at hd
    all_goals
      obtain rfl := Option.some.inj hd
      decide
  all_goals
    obtain rfl := Option.some.inj hd
    decide

variable {cfg : Config} {s s' : Sys} {e : Event} {es : List Event}

/-- **Every row has a status that is counted.** -/
def Counted (t : JobTable) : Prop := ∀ r ∈ t, r.status ∈ countedStatuses

theorem counted_step (h : Counted s.store.jobs) (htidy : s.Tidy) (hs : s.step cfg e = some s') :
    Counted s'.store.jobs := by
  intro r' hr'
  have hk' := Table.mem_iff_find?.mp hr'
  cases hk : s.store.jobs.find? r'.id with
  | none =>
      rw [Sys.step_new_row hs hk hk']
      decide
  | some r =>
      obtain ⟨r₁, hr₁, hcase⟩ := Sys.step_status hs hk
      obtain rfl := Option.some.inj (hk'.symm.trans hr₁)
      rcases hcase with hsame | hwrites | ⟨-, hqueued, -⟩
      · rw [hsame]
        exact h r (Table.mem_of_find? hk)
      · obtain ⟨op, hop, second, now, dto, hc, hd, -⟩ := Sys.jobs_of_writes hs hwrites
        exact counted_of_pending (htidy op hop) hc hd
      · rw [hqueued]
        decide

/-- **In every reachable state** no job is `TIMED_OUT` or `SKIPPED`. -/
theorem counted_of_run (h : Run (Sys.step cfg) anyStep Sys.init es s) : Counted s.store.jobs := by
  have hinv := h.stable (P := fun s => Counted s.store.jobs ∧ s.Tidy)
    ⟨fun _ hr => absurd hr (Table.not_mem_empty _), Sys.tidy_init⟩
    fun _ _ _ _ hi _ hs => ⟨counted_step hi.1 hi.2 hs, Sys.tidy_step hi.2 hs⟩
  exact hinv.1

/-! ## The counts -/

/-- **Counting by values**: the counts of different values add up. -/
theorem sum_map_countP {α β : Type} [DecidableEq β] {values : List β} (hvalues : values.Nodup)
    (p : α → Bool) (f : α → β) (rows : List α) :
    (values.map fun b => rows.countP fun a => p a && decide (f a = b)).sum =
      rows.countP fun a => p a && decide (f a ∈ values) := by
  induction values with
  | nil => simp
  | cons b values ih =>
      obtain ⟨hb, hvalues⟩ := List.nodup_cons.mp hvalues
      rw [List.map_cons, List.sum_cons, ih hvalues]
      clear ih
      induction rows with
      | nil => rfl
      | cons a rows ihrows =>
          have hone : (if p a && decide (f a = b) then 1 else 0) +
              (if p a && decide (f a ∈ values) then 1 else 0) =
                if p a && decide (f a ∈ b :: values) then 1 else 0 := by
            by_cases hfb : f a = b
            · subst hfb
              cases p a <;> simp [hb]
            · cases p a <;> simp [hfb]
          simp only [List.countP_cons]
          omega

theorem total_findMany (pg : Postgres) (t : JobTable) {organizationId : String}
    (hne : organizationId ≠ "") (status : JobStatus) :
    (findMany pg t
        { status := some [status], organizationId := some organizationId, limit := some 1 }).total =
      t.rows.countP fun r =>
        decide (r.organizationId = organizationId) && decide (r.status = status) := by
  rw [List.countP_eq_length_filter]
  refine congrArg List.length (List.filter_congr fun r _ => ?_)
  rw [Bool.eq_iff_iff, Bool.and_eq_true, decide_eq_true_iff, decide_eq_true_iff,
    decide_eq_true_iff]
  have htruthy : truthy (some organizationId) = some organizationId := by
    rw [truthy, Option.filter_some, decide_eq_true hne]
    rfl
  have hnone : truthy none = none := rfl
  simp only [Meets, htruthy, hnone, Option.mem_def, Option.some.injEq, reduceCtorEq, forall_eq',
    List.mem_singleton, false_imp_iff, implies_true, true_and, and_true]
  exact and_comm

theorem stats_of_counted (pg : Postgres) {t : JobTable} {organizationId : String}
    (hne : organizationId ≠ "") (h : Counted t) : (getJobStats pg t organizationId).total =
      t.rows.countP fun r => r.organizationId = organizationId := by
  have hsum := sum_map_countP (show countedStatuses.Nodup by decide)
    (fun r : Job => decide (r.organizationId = organizationId)) Job.status t.rows
  rw [getJobStats]
  simp only [List.map_map, Function.comp_def, total_findMany pg t hne]
  rw [hsum]
  refine List.countP_congr fun r hr => ?_
  rw [decide_eq_true (h r hr), Bool.and_true]

/-- **The statistics account for every job.** In every reachable state the total is the number of
the organization's rows, the count of each status is the number of those that have it, and the
counts add up to the total. -/
theorem stats_account (cfg : Config) (es : List Event) (s : Sys) (pg : Postgres)
    (user : AuthUser) (h : Run (Sys.step cfg) anyStep Sys.init es s) :
    (getJobStats pg s.store.jobs user.organizationId).total =
        s.store.jobs.rows.countP (fun r => r.organizationId = user.organizationId) ∧
      (∀ p ∈ (getJobStats pg s.store.jobs user.organizationId).byStatus,
        p.2 = s.store.jobs.rows.countP fun r =>
          decide (r.organizationId = user.organizationId) && decide (r.status = p.1)) ∧
      ((getJobStats pg s.store.jobs user.organizationId).byStatus.map Prod.snd).sum =
        (getJobStats pg s.store.jobs user.organizationId).total := by
  refine ⟨stats_of_counted pg user.organization (counted_of_run h), fun p hp => ?_, rfl⟩
  obtain ⟨status, -, rfl⟩ := List.mem_map.mp hp
  exact total_findMany pg s.store.jobs user.organization status

/-- A PostgreSQL that matches no pattern and leaves the rows as they are. -/
def plainPostgres : Postgres := ⟨fun _ _ => false, fun _ _ rows => rows, fun _ _ _ => .refl _⟩

theorem statsOrganization_ne : "org1" ≠ "" := by decide

def statsUser : AuthUser := ⟨"user1", "org1", ["jobs:read"], statsOrganization_ne⟩

/-- One job has failed for good, one is cancelled, one waits, and one is of another organization. -/
def fourJobs : List Event :=
  Sys.lastAttempt ++ [.start (.submitJob 0 "b" Sys.simpleDto), .call 4 false 12 .ok [],
    .start (.submitJob 0 "c" Sys.simpleDto), .call 5 false 13 .ok [],
    .start (.submitJob 0 "d" { Sys.simpleDto with organizationId := "org2" }),
    .call 6 false 14 .ok [], .start (.cancelJob "b" "org1"), .call 7 false 15 .ok [],
    .call 7 false 16 .ok []]

theorem three_of_four_counted : ∃ s, Run (Sys.step {}) anyStep Sys.init fourJobs s ∧
    (getJobStats plainPostgres s.store.jobs statsUser.organizationId).total = 3 ∧
    (getJobStats plainPostgres s.store.jobs statsUser.organizationId).byStatus =
      [(.pending, 1), (.queued, 0), (.running, 0), (.completed, 0), (.failed, 1), (.retrying, 0),
        (.cancelled, 1)] := by
  obtain ⟨s, hs, hp⟩ := exists_run_of_check (Sys.step {}) anyStep Sys.init fourJobs
    (fun s => (s.store.jobs.rows.countP fun r => r.organizationId = statsUser.organizationId) = 3 ∧
      (getJobStats plainPostgres s.store.jobs statsUser.organizationId).byStatus =
        [(.pending, 1), (.queued, 0), (.running, 0), (.completed, 0), (.failed, 1),
          (.retrying, 0), (.cancelled, 1)])
    (by decide)
  obtain ⟨hrows, hcounts⟩ := of_decide_eq_true hp
  exact ⟨s, hs, (stats_account {} fourJobs s plainPostgres statsUser hs).1.trans hrows, hcounts⟩

end TaskOrchestration

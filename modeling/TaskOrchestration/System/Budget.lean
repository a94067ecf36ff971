import TaskOrchestration.System.Deliveries

set_option autoImplicit false

/-!
# The retry budget

Only `handleFailure` advances `retry_count`, and it puts nothing back into the queue. What starts
a job again is a redelivery by BullMQ, after a rejection or a stall, or another `add` of
`scheduleReadyJobs`, after `recoverStalledJobs` has moved the row back to `PENDING`. None of them
is compared with `max_retries`.

* `offersJob`: the step puts a delivery of the job on offer;
* **`logs_le_offers`**: a job has at most as many log rows as deliveries were put on offer;
* **`retry_budget`**; `budget_exceeded`: a job without retries is redelivered once.
-/

namespace TaskOrchestration.Sys

open LabelledRun

variable {cfg : Config} {s : Sys} {es : List Event}

def offersJob (cfg : Config) (k : JobId) (s : Sys) (e : Event) : Bool :=
  (s.offered cfg e).any (·.jobId = k)

/-- How often a delivery of the job `k` was put on offer. -/
def offersOf (cfg : Config) (k : JobId) (es : List Event) : ℕ :=
  tally (step cfg) (offersJob cfg k) init es

/-- **The budget**: the log rows of a job are at most its `max_retries` and one. -/
def WithinBudget (s : Sys) : Prop :=
  ∀ r ∈ s.store.jobs, s.store.logs.countP (·.jobId = r.id) ≤ r.maxRetries + 1

theorem countP_logs (s : Sys) (k : JobId) :
    s.store.logs.countP (·.jobId = k) = (s.attempts k).length := by
  rw [attempts, attemptsOf, List.length_map, List.countP_eq_length_filter]

/-- **Every log row was a delivery on offer**, and so are the deliveries that are outstanding. -/
theorem logs_le_offers (h : Run (step cfg) anyStep init es s) (k : JobId) :
    (s.attempts k).length + s.outstanding (·.jobId = k) ≤ offersOf cfg k es := by
  have hinv : Tidy s ∧
      (s.attempts k).length + s.outstanding (·.jobId = k) ≤ offersOf cfg k es := by
    induction h with
    | nil => exact ⟨tidy_init, le_rfl⟩
    | @snoc es s s' e hr _ hs ih =>
        refine ⟨tidy_step ih.1 hs, ?_⟩
        have hout := outstanding_step hs fun data => data.jobId = k
        have hlog := congrArg List.length (attempts_step ih.1 hs k)
        have hone : (((s.created cfg e).toList.filter (·.jobId = k)).map
            QueueJobPayload.attemptNumber).length =
              if (s.created cfg e).any (fun data => data.jobId = k) = true then 1 else 0 := by
          cases s.created cfg e with
          | none => rfl
          | some data => by_cases hk : data.jobId = k <;> simp [hk]
        rw [List.length_append, hone] at hlog
        have htally : offersOf cfg k (es ++ [e]) =
            offersOf cfg k es + if offersJob cfg k s e = true then 1 else 0 := hr.tally_snoc hs
        rw [htally, offersJob]
        have := ih.2
        omega
  exact hinv.2

/-- **The retry budget bounds the executions** of a job in every run in which its deliveries are
put on offer at most `max_retries + 1` times. -/
theorem retry_budget (h : Run (step cfg) anyStep init es s)
    (hoffers : ∀ r ∈ s.store.jobs, offersOf cfg r.id es ≤ r.maxRetries + 1) : WithinBudget s := by
  intro r hr
  rw [countP_logs]
  have hlogs := logs_le_offers h r.id
  have hr := hoffers r hr
  omega

def firstAttempt : List Event := pickedUp ++ executes 3

theorem first_attempt_within_budget : ∃ s, runEvents (step {}) init firstAttempt = some s ∧
    WithinBudget s ∧ s.store.logs.length = 1 := by
  obtain ⟨s, hs, hp⟩ := exists_run_of_check (step {}) anyStep init firstAttempt
    (fun s => s.store.logs.length = 1 ∧
      ∀ r ∈ s.store.jobs.rows, offersOf {} r.id firstAttempt ≤ r.maxRetries + 1) (by decide)
  obtain ⟨hlogs, hoffers⟩ := of_decide_eq_true hp
  exact ⟨s, hs.runEvents_eq, retry_budget hs hoffers, hlogs⟩

/-- The call that sets a job without retries to `RUNNING` fails, and BullMQ redelivers the
entry. -/
def redeliveredOnce : List Event :=
  [.start (.submitJob 0 "a" { simpleDto with retryConfig := some { maxRetries := some 0 } }),
    .call 0 false 1 .ok [], .start .scheduleReadyJobs, .call 1 false 2 .ok [],
    .call 2 false 3 .ok [], .pickUp 1 "w" (.job "a"), .call 3 false 4 .ok [],
    .call 3 false 5 .ok [], .call 3 false 6 .fail [], .settle 3, .promote (.job "a"),
    .pickUp 1 "w" (.job "a"), .call 4 false 7 .ok [], .call 4 false 8 .ok []]

/-- **A job without retries is executed twice.** -/
theorem budget_exceeded :
    ∃ s, Run (step {}) anyStep init redeliveredOnce s ∧ ¬ WithinBudget s := by
  obtain ⟨s, hs, hp⟩ := exists_run_of_check (step {}) anyStep init redeliveredOnce
    (fun s => ∃ r ∈ s.store.jobs.rows,
      r.maxRetries + 1 < s.store.logs.countP (·.jobId = r.id)) (by decide)
  obtain ⟨r, hr, hlt⟩ := of_decide_eq_true hp
  exact ⟨s, hs, fun h => absurd (h r hr) (Nat.not_le_of_lt hlt)⟩

end TaskOrchestration.Sys

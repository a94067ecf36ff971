import TaskOrchestration.System.Notify

set_option autoImplicit false

/-!
# Stall recovery and healthy jobs

`recoverStalledJobs` looks at the time a row was set to `RUNNING` and not at the timeout of the
job. The executor lets a job run for up to an hour, the scheduler takes it for stalled after two
minutes.

* `JobScheduler.recoverStalledJobs`: the operation, uninterrupted; **`recoverStalledJobs_run`**:
  it is what the steps of the system do;
* `Healthy`: the job runs within its timeout;
* **`healthy_unchanged_iff`**: such a job is left alone exactly before the threshold;
* `healthy_recovered`: a job with the default timeout.
-/

namespace TaskOrchestration

open LabelledRun JobRepository

namespace JobScheduler

/-- The update of the row of one stalled job. -/
def recoverOne (now : Time) (t : JobTable) (job : Job) : JobTable :=
  (update t job.id now (Op.recoverDto job now)).1

/-- **`recoverStalledJobs`**, uninterrupted. -/
def recoverStalledJobs (t : JobTable) (now : Time) (stalledJobThresholdMs : ℕ) : JobTable :=
  (findStalledJobs t now stalledJobThresholdMs).foldl (recoverOne now) t

variable {t : JobTable} {now : Time} {job r : Job} {jobs : List Job} {k : JobId}

theorem status_recoverDto (job : Job) (now : Time) :
    (Op.recoverDto job now).status = some .pending ∨
      (Op.recoverDto job now).status = some .failed := by
  unfold Op.recoverDto
  split_ifs
  · exact .inl rfl
  · exact .inr rfl

theorem find?_recoverOne_ne (h : job.id ≠ k) :
    (recoverOne now t job).find? k = t.find? k := by
  rw [recoverOne, find?_update, if_neg (Ne.symm h)]

/-- **A row that is not in the list** is left alone. -/
theorem find?_recover_of_not_mem (h : ∀ job ∈ jobs, job.id ≠ k) :
    (jobs.foldl (recoverOne now) t).find? k = t.find? k := by
  induction jobs generalizing t with
  | nil => rfl
  | cons job jobs ih =>
      rw [List.foldl_cons, ih fun j hj => h j (List.mem_cons_of_mem _ hj)]
      exact find?_recoverOne_ne (h job List.mem_cons_self)

theorem not_running_recover (h : ∀ r ∈ t.find? k, r.status ≠ .running) :
    ∀ r ∈ (jobs.foldl (recoverOne now) t).find? k, r.status ≠ .running := by
  induction jobs generalizing t with
  | nil => exact h
  | cons job jobs ih =>
      apply ih
      intro r hr
      by_cases hk : job.id = k
      · rw [recoverOne, find?_update, if_pos hk.symm] at hr
        obtain ⟨r₀, -, rfl⟩ := Option.map_eq_some_iff.mp hr
        rcases status_recoverDto job now with hd | hd <;> simp [toRow, hd]
      · rw [find?_recoverOne_ne hk] at hr
        exact h r hr

/-- **A row in the list** is taken out of `RUNNING`. -/
theorem not_running_of_mem (hjob : job ∈ jobs) (hk : job.id = k) :
    ∀ r ∈ (jobs.foldl (recoverOne now) t).find? k, r.status ≠ .running := by
  induction jobs generalizing t with
  | nil => exact absurd hjob List.not_mem_nil
  | cons j jobs ih =>
      rw [List.foldl_cons]
      rcases List.mem_cons.mp hjob with rfl | hjob
      · apply not_running_recover
        intro r hr
        rw [recoverOne, find?_update, if_pos hk.symm] at hr
        obtain ⟨r₀, -, rfl⟩ := Option.map_eq_some_iff.mp hr
        rcases status_recoverDto job now with hd | hd <;> simp [toRow, hd]
      · exact ih hjob

end JobScheduler

open JobScheduler

/-- **The job is healthy**: its worker has set the row to `RUNNING` at `start`, has not finished
it, and is within the timeout of the job. -/
structure Healthy (r : Job) (start now : Time) : Prop where
  running : r.status = .running
  started : r.startedAt = some start
  inTime : (now : ℤ) < start + r.timeoutMs

/-- **A healthy job is left alone** exactly when it has run for less than the threshold. -/
theorem healthy_unchanged_iff {t : JobTable} {r : Job} {start now : Time} (hr : r ∈ t)
    (h : Healthy r start now) :
    (recoverStalledJobs t now ({} : Config).stalledJobThresholdMs).find? r.id = some r ↔
      now < start + 120000 := by
  have hfind := Table.mem_iff_find?.mp hr
  have hmem : r ∈ findStalledJobs t now ({} : Config).stalledJobThresholdMs ↔
      start + 120000 ≤ now := by
    rw [mem_findStalledJobs, h.started]
    simp [hr, h.running]
  constructor
  · intro hsame
    by_contra hlt
    have hstalled := hmem.mpr (Nat.le_of_not_lt hlt)
    exact not_running_of_mem hstalled rfl r hsame h.running
  · intro hlt
    rw [recoverStalledJobs, find?_recover_of_not_mem, hfind]
    intro job hjob hid
    obtain rfl := Table.key_inj (mem_findStalledJobs.mp hjob).1 hr hid
    exact absurd (hmem.mp hjob) (Nat.not_le_of_lt hlt)

/-- A healthy job whose timeout is at most two minutes is always left alone. -/
theorem healthy_unchanged_of_timeout {t : JobTable} {r : Job} {start now : Time} (hr : r ∈ t)
    (h : Healthy r start now) (hle : r.timeoutMs ≤ 120000) :
    (recoverStalledJobs t now ({} : Config).stalledJobThresholdMs).find? r.id = some r := by
  apply (healthy_unchanged_iff hr h).mpr
  have hlt : (now : ℤ) < start + 120000 := h.inTime.trans_le (by omega)
  exact Int.ofNat_lt.mp hlt

namespace Sys

theorem recover_run (cfg : Config) {i : ℕ} {now : Time} (jobs : List Job) {s : Sys}
    (hi : s.ops[i]? = some (Op.recoverNext jobs now)) :
    ∃ s', runEvents (step cfg) s (List.replicate jobs.length (.call i false now .ok [])) = some s' ∧
      s'.store.jobs = jobs.foldl (recoverOne now) s.store.jobs ∧
      s'.ops[i]? = some .finished := by
  induction jobs generalizing s with
  | nil => exact ⟨s, rfl, rfl, hi⟩
  | cons job jobs ih =>
      obtain ⟨s₁, hstep, hst₁, hi₁⟩ := exists_step_answered cfg false now [] hi rfl rfl rfl
      obtain ⟨s', hrun, hjobs, hend⟩ := ih hi₁
      refine ⟨s', ?_, ?_, hend⟩
      · rw [List.length_cons, List.replicate_succ, runEvents, hstep, Option.bind_some, hrun]
      · rw [hjobs, hst₁]
        rfl

/-- **The calls of `recoverStalledJobs`**, one after the other, do what the uninterrupted operation
does. -/
theorem recoverStalledJobs_run (cfg : Config) {s : Sys} {i : ℕ} (now : Time)
    (hi : s.ops[i]? = some .recoverStalledJobs) :
    ∃ n s', runEvents (step cfg) s (List.replicate n (.call i false now .ok [])) = some s' ∧
      s'.store.jobs = recoverStalledJobs s.store.jobs now cfg.stalledJobThresholdMs ∧
      s'.ops[i]? = some .finished := by
  obtain ⟨s₁, hstep, hst₁, hi₁⟩ := exists_step_answered cfg false now [] hi rfl rfl rfl
  set jobs := findStalledJobs s.store.jobs now cfg.stalledJobThresholdMs
  obtain ⟨s', hrun, hjobs, hend⟩ := recover_run cfg jobs hi₁
  refine ⟨jobs.length + 1, s', ?_, ?_, hend⟩
  · rw [List.replicate_succ, runEvents, hstep, Option.bind_some, hrun]
  · rw [hjobs, hst₁]
    rfl

/-- A job is executed for two minutes and its timeout is five. -/
def executed : List Event := pickedUp ++ executes 3

theorem healthy_left_alone : ∃ s, runEvents (step {}) init executed = some s ∧
    ∃ r ∈ s.store.jobs, r.timeoutMs = 300000 ∧ Healthy r 5 120004 ∧
      (recoverStalledJobs s.store.jobs 120004 ({} : Config).stalledJobThresholdMs).find? r.id =
        some r := by
  obtain ⟨s, hs, hp⟩ := exists_run_of_check (step {}) anyStep init executed
    (fun s => ∃ r ∈ s.store.jobs.rows, r.timeoutMs = 300000 ∧ r.status = .running ∧
      r.startedAt = some 5) (by decide)
  obtain ⟨r, hr, hto, hst, hstart⟩ := of_decide_eq_true hp
  have hhealthy : Healthy r 5 120004 := ⟨hst, hstart, by rw [hto]; decide⟩
  exact ⟨s, hs.runEvents_eq, r, hr, hto, hhealthy,
    (healthy_unchanged_iff hr hhealthy).mpr (by decide)⟩

/-- Every healthy job that request validation admits is left alone. -/
def SparesHealthy (cfg : Config) : Prop :=
  ∀ (t : JobTable) (r : Job) (start now : Time), r ∈ t → 1000 ≤ r.timeoutMs →
    r.timeoutMs ≤ 3600000 → Healthy r start now →
    (recoverStalledJobs t now cfg.stalledJobThresholdMs).find? r.id = some r

/-- **A job with the default timeout** is recovered while its worker executes it. -/
theorem healthy_recovered : (∃ s, Run (step {}) anyStep init executed s ∧
      (∃ op ∈ s.ops, op.isProcess = true ∧ op.ended = false) ∧
      ∃ r ∈ s.store.jobs, Healthy r 5 120005 ∧
        (recoverStalledJobs s.store.jobs 120005 ({} : Config).stalledJobThresholdMs).find? r.id ≠
          some r) ∧ ¬ SparesHealthy {} := by
  obtain ⟨s, hs, hp⟩ := exists_run_of_check (step {}) anyStep init executed
    (fun s => (∃ op ∈ s.ops, op.isProcess = true ∧ op.ended = false) ∧
      ∃ r ∈ s.store.jobs.rows, r.timeoutMs = 300000 ∧ r.status = .running ∧
        r.startedAt = some 5 ∧ (recoverStalledJobs s.store.jobs 120005
          ({} : Config).stalledJobThresholdMs).find? r.id ≠ some r) (by decide)
  obtain ⟨hlive, r, hr, hto, hst, hstart, hne⟩ := of_decide_eq_true hp
  have hhealthy : Healthy r 5 120005 := ⟨hst, hstart, by rw [hto]; decide⟩
  refine ⟨⟨s, hs, hlive, r, hr, hhealthy, hne⟩, fun h => ?_⟩
  exact hne (h s.store.jobs r 5 120005 hr (by rw [hto]; decide) (by rw [hto]; decide) hhealthy)

end Sys

end TaskOrchestration

import TaskOrchestration.Cron.Routes

set_option autoImplicit false

/-!
# The trigger counter of a schedule

`triggerSchedule` raises `total_triggered_count` before it calls `onTrigger`. A run of `tick` whose
update is answered goes on to create a job, so the counter is at least the number of jobs, and it is
ahead of them by the runs that are between the two, and by the answers and insertions that were
lost.

* `awaits`, `drawn`: the calls of `onTrigger` for a schedule, made or next in their run;
  **`drawn_step`**;
* `Accounted`, `Balanced`: the counters cover the calls, and exactly; `Accounted.step`,
  `Balanced.step`;
* `Inserted`: every update is answered, and every job is inserted; **`jobs_within_count`**.
-/

namespace TaskOrchestration

open CronScheduler LabelledRun

namespace Cron

variable {next : String → String → Time → Option Time} {s s' : Cron} {e : Event}

/-- The run has updated the schedule, and `onTrigger` is next. -/
def awaits (id : String) (t : Tick) : Bool :=
  match t.pc with
  | .updated r _ => r.id = id
  | _ => false

theorem not_awaits {id : String} {c : Time} {pc : TickPc} (h : ∀ r rest, pc ≠ .updated r rest) :
    awaits id ⟨c, pc⟩ = false := by
  cases pc with
  | updated r rest => exact absurd rfl (h r rest)
  | _ => rfl

/-- The calls of `onTrigger` for the schedule that were made, or are next in their run. -/
def drawn (s : Cron) (id : String) : ℕ :=
  s.fired.countP (fun f => f.schedule.id = id) + s.ticks.countP (awaits id)

/-- **The calls** grow with the updates that are answered. -/
theorem drawn_step (hs : step next s e = some s') (id : String) :
    s'.drawn id = s.drawn id + (s.granted e).toList.countP (fun r => r.id = id) := by
  cases e with
  | tick now =>
      obtain rfl := Option.some.inj hs
      simp [drawn, granted, awaits]
  | act run a =>
      obtain ⟨t, p, ht, hp, rfl⟩ := step_act hs
      have hset := countP_set_add (p := awaits id) (b := p.1) ht
      simp only [drawn, List.countP_append]
      cases hp with
      | update lost =>
          cases lost with
          | false =>
              simp [awaits, granted, ht, updating, List.countP_cons] at hset ⊢
              omega
          | true =>
              simp [awaits, granted] at hset ⊢
              omega
      | fail hpc =>
          rw [not_awaits hpc] at hset
          simp [awaits, granted] at hset ⊢
          omega
      | onTrigger hc =>
          simp [awaits, granted, List.countP_cons] at hset ⊢
          omega
      | _ =>
          simp [awaits, granted] at hset ⊢
          omega

/-- **The counters** of the rows cover the calls since the start of the run, and do not run ahead
of them if nothing is lost. -/
def Accounted (exact : Prop) (t : ScheduleTable) (s : Cron) : Prop :=
  ∀ r ∈ s.schedules, ∃ r₀ ∈ t, r₀.id = r.id ∧
    s.drawn r.id + r₀.totalTriggeredCount ≤ r.totalTriggeredCount ∧
    (exact → s.drawn r.id + r₀.totalTriggeredCount = r.totalTriggeredCount)

variable {exact : Prop} {t : ScheduleTable}

theorem accounted_init (exact : Prop) (t : ScheduleTable) : Accounted exact t (init t) :=
  fun r hr => ⟨r, hr, rfl, (Nat.zero_add _).le, fun _ => Nat.zero_add _⟩

theorem Accounted.of_rows (h : Accounted exact t s) (hf : s'.fired = s.fired)
    (ht : s'.ticks = s.ticks) (hrows : ∀ r' ∈ s'.schedules, ∃ r ∈ s.schedules, r.id = r'.id ∧
      r.totalTriggeredCount = r'.totalTriggeredCount) : Accounted exact t s' := by
  intro r' hr'
  obtain ⟨r, hr, hid, htotal⟩ := hrows r' hr'
  have hsame : s'.drawn r'.id = s.drawn r.id := by rw [drawn, drawn, hf, ht, hid]
  obtain ⟨r₀, hr₀, hid₀, hle, heq⟩ := h r hr
  rw [hsame, ← htotal]
  exact ⟨r₀, hr₀, hid₀.trans hid, hle, heq⟩

/-- **A step of a run of `tick`**: an update that is answered raises the counter and the calls. -/
theorem Accounted.step (h : Accounted exact t s) (hs : Cron.step next s e = some s')
    (hexact : exact → s.granted e = s.updates e) : Accounted exact t s' := by
  intro r' hr'
  have hdrawn := drawn_step hs r'.id
  rcases schedules_step hs with ⟨hnone, hsame⟩ | ⟨r, c, now, nextRun, rest, hupdates, -, hrows⟩
  · rw [hsame] at hr'
    have hgranted : s.granted e = none := by
      cases hg : s.granted e with
      | none => rfl
      | some r =>
          rw [updates_of_granted hg] at hnone
          cases hnone
    rw [hgranted] at hdrawn
    change s'.drawn r'.id = s.drawn r'.id at hdrawn
    rw [hdrawn]
    exact h r' hr'
  · have hle : (s.granted e).toList.countP (fun q => q.id = r'.id) ≤
        if r.id = r'.id then 1 else 0 := by
      cases hg : s.granted e with
      | none => exact Nat.zero_le _
      | some q =>
          obtain rfl := Option.some.inj (hupdates.symm.trans (updates_of_granted hg))
          simp
    have heq : exact → (s.granted e).toList.countP (fun q => q.id = r'.id) =
        if r.id = r'.id then 1 else 0 := by
      intro hex
      rw [hexact hex, hupdates]
      simp
    rw [hrows] at hr'
    rcases (Table.mem_update (advanced_id _ _)).mp hr' with ⟨hmem, hne⟩ | ⟨row, hrow, hid, rfl⟩
    · -- the row of another schedule
      obtain ⟨r₀, hr₀, hid₀, hle₀, heq₀⟩ := h r' hmem
      rw [if_neg (Ne.symm hne)] at hle heq
      refine ⟨r₀, hr₀, hid₀, by omega, fun hex => ?_⟩
      have h₁ := heq hex
      have h₂ := heq₀ hex
      omega
    · obtain ⟨r₀, hr₀, hid₀, hle₀, heq₀⟩ := h row hrow
      rw [advanced_id, if_pos hid.symm] at hle heq
      rw [advanced_id] at hdrawn
      refine ⟨r₀, hr₀, hid₀, ?_, fun hex => ?_⟩
      · change s'.drawn row.id + _ ≤ row.totalTriggeredCount + 1
        omega
      · have h₁ := heq hex
        have h₂ := heq₀ hex
        change s'.drawn row.id + _ = row.totalTriggeredCount + 1
        omega

end Cron

namespace CronRoutes

variable {next : String → String → Time → Option Time}
  {firstRow : Option Schedule → Option (Option Schedule)} {s s' : CronRoutes} {e : Event}
  {exact : Prop} {t : ScheduleTable}

/-- The answer of no update is lost, and every job is inserted. -/
def Inserted (_ : CronRoutes) : Event → Prop
  | .act _ a inserted => a ≠ .update true ∧ inserted = true
  | _ => True

instance (s : CronRoutes) : DecidablePred (Inserted s) := fun e => by
  cases e <;> unfold Inserted <;> infer_instance

/-- **The invariant**: the counters, and the jobs that the calls have inserted. -/
structure Balanced (exact : Prop) (t : ScheduleTable) (s : CronRoutes) : Prop where
  accounted : Cron.Accounted exact t s.cron
  inserted : s.jobs.Sublist s.cron.fired
  all : exact → s.jobs = s.cron.fired

theorem Balanced.of_rows (h : Balanced exact t s) {rows : ScheduleTable}
    (hrows : ∀ r' ∈ rows, ∃ r ∈ s.cron.schedules, r.id = r'.id ∧
      r.totalTriggeredCount = r'.totalTriggeredCount) (resumes : List Resume)
    (off : List String) :
    Balanced exact t { s.setSchedules rows with resumes := resumes, off := off } :=
  ⟨h.accounted.of_rows rfl rfl hrows, h.inserted, h.all⟩

theorem balanced_step (h : Balanced exact t s) (hs : step next firstRow s e = some s')
    (hexact : exact → Inserted s e) : Balanced exact t s' := by
  cases e with
  | tick now =>
      obtain rfl := Option.some.inj hs
      have hc : Cron.step next s.cron (.tick now) = some _ := rfl
      exact ⟨h.accounted.step hc fun _ => rfl, h.inserted, h.all⟩
  | act run a inserted =>
      obtain ⟨cron, hc, rfl⟩ := Option.map_eq_some_iff.mp hs
      have hgranted : exact → s.cron.granted (.act run a) = s.cron.updates (.act run a) := by
        intro hex
        cases a with
        | update lost =>
            cases lost with
            | true => exact absurd rfl (hexact hex).1
            | false => rfl
        | _ => rfl
      have haccounted := h.accounted.step hc hgranted
      obtain ⟨tick, p, -, -, rfl⟩ := Cron.step_act hc
      refine ⟨haccounted, ?_, fun hex => ?_⟩
      · dsimp only
        split_ifs
        · rw [List.drop_left]
          exact h.inserted.append (List.Sublist.refl _)
        · rw [List.append_nil]
          exact h.inserted.trans (List.sublist_append_left _ _)
      · dsimp only
        rw [if_pos (hexact hex).2, List.drop_left, h.all hex]
  | pause id organizationId now =>
      obtain rfl := Option.some.inj hs
      refine h.of_rows (fun r' hr' => ?_) _ _
      obtain ⟨r, hr, rfl⟩ := Table.mem_updateWhere.mp hr'
      refine ⟨r, hr, ?_⟩
      split_ifs <;> exact ⟨rfl, rfl⟩
  | delete id organizationId =>
      obtain rfl := Option.some.inj hs
      exact h.of_rows (fun r hr => ⟨r, (Table.mem_filter.mp hr).1, rfl, rfl⟩) _ _
  | resume id organizationId now =>
      obtain rfl := Option.some.inj hs
      obtain ⟨resumes, hr⟩ := resume_eq next firstRow s id organizationId now
      rw [hr]
      exact ⟨h.accounted, h.inserted, h.all⟩
  | resumed request now =>
      obtain ⟨q, -, rfl⟩ := Option.map_eq_some_iff.mp hs
      refine h.of_rows (fun r' hr' => ?_) _ _
      have hid : ∀ r : Schedule, (Schedules.setResumed now q.nextTrigger r).id = r.id :=
        fun _ => rfl
      rcases (Table.mem_update hid).mp hr' with ⟨hmem, -⟩ | ⟨r, hr, -, rfl⟩
      · exact ⟨r', hmem, rfl, rfl⟩
      · exact ⟨r, hr, rfl, rfl⟩

variable {es : List Event}

/-- **A schedule has created at most as many jobs as it has counted triggers**, in any number of
runs of `tick` at the same time, and whatever the routes do in between; and exactly as many, but
for the runs that are between the update and the job, if no answer is lost and every job is
inserted. -/
theorem jobs_within_count (h : Run (step next firstRow) anyStep (init t) es s) {r : Schedule}
    (hr : r ∈ s.cron.schedules) : ∃ r₀ ∈ t, r₀.id = r.id ∧
    s.jobs.countP (fun f => f.schedule.id = r.id) + r₀.totalTriggeredCount ≤
      r.totalTriggeredCount ∧
    (Run (step next firstRow) (stateGuard Inserted) (init t) es s →
      s.jobs.countP (fun f => f.schedule.id = r.id) + s.cron.ticks.countP (Cron.awaits r.id) +
        r₀.totalTriggeredCount = r.totalTriggeredCount) := by
  have hinit : ∀ exact, Balanced exact t (init t) := fun exact =>
    ⟨Cron.accounted_init exact t, List.Sublist.refl _, fun _ => rfl⟩
  by_cases hall : Run (step next firstRow) (stateGuard Inserted) (init t) es s
  · have hI : Balanced True t s := hall.stable (hinit True) fun _ _ _ _ hI hok hs =>
      balanced_step hI hs fun _ => hok
    obtain ⟨r₀, hr₀, hid, hle, heq⟩ := hI.accounted r hr
    have heq := heq trivial
    rw [Cron.drawn, ← hI.all trivial] at hle heq
    exact ⟨r₀, hr₀, hid, by omega, fun _ => heq⟩
  · have hI : Balanced False t s := h.stable (hinit False) fun _ _ _ _ hI _ hs =>
      balanced_step hI hs False.elim
    obtain ⟨r₀, hr₀, hid, hle, -⟩ := hI.accounted r hr
    have hjobs := hI.inserted.countP_le (p := fun f : Firing => f.schedule.id = r.id)
    rw [Cron.drawn] at hle
    exact ⟨r₀, hr₀, hid, by omega, fun hrun => absurd hrun hall⟩

open Cron (everyMinute minutely oneSchedule)

/-- The schedule fires once; a minute later the answer to the update is lost. -/
theorem lost_trigger_counted : ∃ es s, Run (step everyMinute fun _ => none) anyStep
      (init oneSchedule) es s ∧ s.jobs.length = 1 ∧ ∃ r ∈ s.cron.schedules,
        r.totalTriggeredCount = 2 ∧ ∃ r₀ ∈ oneSchedule, r₀.id = r.id ∧
          s.jobs.countP (fun f => f.schedule.id = r.id) + r₀.totalTriggeredCount ≤
            r.totalTriggeredCount := by
  obtain ⟨s, hs, hp⟩ := exists_run_of_check (step everyMinute fun _ => none) anyStep
    (init oneSchedule)
    [.tick 60000, .act 0 (.fetch [] [minutely]) true, .act 0 (.trigger 60001) true,
      .act 0 (.update false) true, .act 0 (.onTrigger 60002) true, .act 0 .triggered true,
      .tick 120000,
      .act 1 (.fetch [] [advanced 60001 120000 minutely]) true, .act 1 (.trigger 120001) true,
      .act 1 (.update true) true]
    (fun s => s.jobs.length = 1 ∧ ∃ r ∈ s.cron.schedules, r.totalTriggeredCount = 2) (by decide)
  obtain ⟨hjobs, r, hr, htotal⟩ := of_decide_eq_true hp
  obtain ⟨r₀, hr₀, hid, hle, -⟩ := jobs_within_count hs hr
  exact ⟨_, s, hs, hjobs, r, hr, htotal, r₀, hr₀, hid, hle⟩

end CronRoutes

end TaskOrchestration

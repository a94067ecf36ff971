import TaskOrchestration.Cron.Model
import Mathlib.Order.Basic
import Mathlib.Order.Nat

set_option autoImplicit false

/-!
# A cron occurrence fires at most once

`triggerSchedule` advances `next_trigger_at` before it calls `onTrigger`, but it does not look at
the row again: the occurrence is the one its run of `tick` has fetched.

* `TickStep`, `tickStep_of_stepTick`: what a run of `tick` can do, said once;
* `claims`, `claims_step`: the calls of `onTrigger` for an occurrence, made or next in their run;
* `Fresh`: an update finds the occurrence that its run has fetched;
* **`fired_once_iff_fresh`**: then every occurrence fires at most once, and not otherwise;
  `overlapping_ticks_fire_twice`.
-/

namespace TaskOrchestration.Cron

open CronScheduler LabelledRun

variable {next : String → String → Time → Option Time} {table : ScheduleTable}
  {s s' : Cron} {e : Event}

/-! ## What a run of `tick` does -/

/-- **The steps of a run of `tick`**, with the table and the calls of `onTrigger` after them. -/
inductive TickStep (next : String → String → Time → Option Time) (table : ScheduleTable) :
    Tick → Action → Tick × ScheduleTable × List Firing → Prop
  | fetch {c dueAt : Time} {locked : List String} {rows : List Schedule} :
      rows.Perm (fetchDueSchedules table dueAt locked) →
      TickStep next table ⟨c, .fetching dueAt⟩ (.fetch locked rows) (⟨c, .looping rows⟩, table, [])
  | trigger {c now nextRun : Time} {r : Schedule} {rest : List Schedule} :
      c ≤ now → next r.cronExpression r.timezone now = some nextRun →
      TickStep next table ⟨c, .looping (r :: rest)⟩ (.trigger now)
        (⟨now, .updating r now nextRun rest⟩, table, [])
  | throws {c now : Time} {r : Schedule} {rest : List Schedule} :
      TickStep next table ⟨c, .looping (r :: rest)⟩ (.trigger now) (⟨now, .ended⟩, table, [])
  | update {c now nextRun : Time} {r : Schedule} {rest : List Schedule} (lost : Bool) :
      TickStep next table ⟨c, .updating r now nextRun rest⟩ (.update lost)
        (⟨c, if lost then .ended else .updated r rest⟩, advance table r.id now nextRun, [])
  | onTrigger {c now : Time} {r : Schedule} {rest : List Schedule} :
      c ≤ now →
      TickStep next table ⟨c, .updated r rest⟩ (.onTrigger now)
        (⟨now, .triggering rest⟩, table, [⟨r, jobDto r now⟩])
  | triggered {c : Time} {rest : List Schedule} :
      TickStep next table ⟨c, .triggering rest⟩ .triggered (⟨c, .looping rest⟩, table, [])
  | fail {c : Time} {pc : TickPc} :
      (∀ r rest, pc ≠ .updated r rest) →
      TickStep next table ⟨c, pc⟩ .fail (⟨c, .ended⟩, table, [])

theorem tickStep_of_stepTick {t : Tick} {a : Action} {p : Tick × ScheduleTable × List Firing}
    (h : stepTick next table t a = some p) : TickStep next table t a p := by
  obtain ⟨c, pc⟩ := t
  cases a with
  | fetch locked rows =>
      cases pc with
      | fetching dueAt =>
          simp only [stepTick] at h
          split_ifs at h with hp
          obtain rfl := Option.some.inj h
          exact .fetch hp
      | _ => cases h
  | trigger now =>
      cases pc with
      | looping rest =>
          cases rest with
          | nil => cases h
          | cons r rest =>
              simp only [stepTick] at h
              split_ifs at h with hc
              cases hn : next r.cronExpression r.timezone now with
              | some nextRun =>
                  rw [hn] at h
                  obtain rfl := Option.some.inj h
                  exact .trigger hc hn
              | none =>
                  rw [hn] at h
                  obtain rfl := Option.some.inj h
                  exact .throws
      | _ => cases h
  | update lost =>
      cases pc with
      | updating r now nextRun rest =>
          obtain rfl := Option.some.inj h
          exact .update lost
      | _ => cases h
  | onTrigger now =>
      cases pc with
      | updated r rest =>
          simp only [stepTick] at h
          split_ifs at h with hc
          obtain rfl := Option.some.inj h
          exact .onTrigger hc
      | _ => cases h
  | triggered =>
      cases pc with
      | triggering rest =>
          obtain rfl := Option.some.inj h
          exact .triggered
      | _ => cases h
  | fail =>
      cases pc with
      | fetching _ | updating _ _ _ _ | triggering _ =>
          simp only [stepTick, Option.some.injEq] at h
          subst h
          exact .fail (by simp)
      | _ => cases h

theorem step_act {run : ℕ} {a : Action} (hs : step next s (.act run a) = some s') :
    ∃ t p, s.ticks[run]? = some t ∧ TickStep next s.schedules t a p ∧
      s' = ⟨p.2.1, s.ticks.set run p.1, s.fired ++ p.2.2⟩ := by
  obtain ⟨t, ht, hs⟩ := Option.bind_eq_some_iff.mp hs
  obtain ⟨p, hp, rfl⟩ := Option.map_eq_some_iff.mp hs
  exact ⟨t, p, ht, tickStep_of_stepTick hp, rfl⟩

/-! ## Occurrences -/

/-- The due occurrence that a fetched schedule stands for. -/
def occurrence (r : Schedule) : String × Option Time := (r.id, r.nextTriggerAt)

/-- How often `onTrigger` was called for an occurrence. -/
def timesFired (s : Cron) (o : String × Option Time) : ℕ :=
  s.fired.countP fun f => occurrence f.schedule = o

/-- **At most once**: no schedule fires twice for a value of its `next_trigger_at`. -/
def FiredOnce (s : Cron) : Prop := ∀ id v, s.timesFired (id, some v) ≤ 1

/-- The `next_trigger_at` of a schedule, in the table. -/
def nextTriggerAt (s : Cron) (id : String) : Option Time :=
  (s.schedules.find? id).bind Schedule.nextTriggerAt

/-- The schedule that a run is about to update. -/
def updating (t : Tick) : Option Schedule :=
  match t.pc with
  | .updating r _ _ _ => some r
  | _ => none

/-- The schedule that a step updates. -/
def updates (s : Cron) : Event → Option Schedule
  | .act run (.update _) => (s.ticks[run]?).bind updating
  | _ => none

/-- The schedule that a step updates, and whose run goes on to `onTrigger`. -/
def granted (s : Cron) : Event → Option Schedule
  | .act run (.update false) => (s.ticks[run]?).bind updating
  | _ => none

/-- **The condition on a step**: the row that it updates still has the `next_trigger_at` that its
run of `tick` has fetched. -/
def Fresh (s : Cron) (e : Event) : Prop :=
  ∀ r ∈ s.updates e, s.nextTriggerAt r.id = r.nextTriggerAt

instance (s : Cron) (e : Event) : Decidable (Fresh s e) :=
  inferInstanceAs (Decidable (∀ r ∈ s.updates e, _))

/-- The run has updated the occurrence, and `onTrigger` is next. -/
def holds (o : String × Option Time) (t : Tick) : Bool :=
  match t.pc with
  | .updated r _ => occurrence r = o
  | _ => false

theorem not_holds {o : String × Option Time} {c : Time} {pc : TickPc}
    (h : ∀ r rest, pc ≠ .updated r rest) : holds o ⟨c, pc⟩ = false := by
  cases pc with
  | updated r rest => exact absurd rfl (h r rest)
  | _ => rfl

/-- The calls of `onTrigger` for an occurrence that were made, or are next in their run. -/
def claims (s : Cron) (o : String × Option Time) : ℕ := s.timesFired o + s.ticks.countP (holds o)

/-- **The claims on an occurrence** grow with the updates that are granted, and do not shrink. -/
theorem claims_step (hs : step next s e = some s') (o : String × Option Time) :
    s'.claims o = s.claims o + (s.granted e).toList.countP (fun r => occurrence r = o) := by
  cases e with
  | tick now =>
      obtain rfl := Option.some.inj hs
      simp [claims, timesFired, granted, holds]
  | act run a =>
      obtain ⟨t, p, ht, hp, rfl⟩ := step_act hs
      have hset := countP_set_add (p := holds o) (b := p.1) ht
      simp only [claims, timesFired, List.countP_append]
      cases hp with
      | update lost =>
          cases lost with
          | false =>
              simp [holds, granted, ht, updating, List.countP_cons] at hset ⊢
              omega
          | true =>
              simp [holds, granted] at hset ⊢
              omega
      | fail hpc =>
          rw [not_holds hpc] at hset
          simp [holds, granted] at hset ⊢
          omega
      | onTrigger hc =>
          simp [holds, granted, List.countP_cons] at hset ⊢
          omega
      | _ =>
          simp [holds, granted] at hset ⊢
          omega

/-! ## The schedules a run still has to update -/

def pending (t : Tick) : List Schedule :=
  match t.pc with
  | .looping rest | .updated _ rest | .triggering rest => rest
  | .updating r _ _ rest => r :: rest
  | _ => []

/-- **What a run has fetched is due**, by its own clock, and the next occurrence is later. -/
structure Due (t : Tick) : Prop where
  pending : ∀ r ∈ pending t, ∃ v, r.nextTriggerAt = some v ∧ v ≤ t.clock
  fetching : ∀ dueAt, t.pc = .fetching dueAt → dueAt ≤ t.clock
  updating : ∀ r now nextRun rest, t.pc = .updating r now nextRun rest →
    ∀ v, r.nextTriggerAt = some v → v < nextRun

theorem mem_fetchDueSchedules {now : Time} {locked : List String} {r : Schedule}
    (h : r ∈ fetchDueSchedules table now locked) :
    r ∈ table ∧ r.isActive = true ∧ ∃ v, r.nextTriggerAt = some v ∧ v ≤ now := by
  have h := List.mem_filter.mp h
  simp only [decide_eq_true_eq] at h
  obtain ⟨hr, hactive, hv, -⟩ := h
  obtain ⟨v, hv, hle⟩ := (Option.any_eq_true _ _).mp hv
  exact ⟨hr, hactive, v, hv, of_decide_eq_true hle⟩

theorem TickStep.mem_pending {t : Tick} {a : Action} {p : Tick × ScheduleTable × List Firing}
    (h : TickStep next table t a p) {r : Schedule} (hr : r ∈ pending p.1) :
    r ∈ pending t ∨ r ∈ table ∧ ∀ lost, a ≠ .update lost := by
  cases h with
  | fetch hp => exact .inr ⟨(mem_fetchDueSchedules (hp.mem_iff.mp hr)).1, nofun⟩
  | trigger => exact .inl hr
  | throws => cases hr
  | update lost =>
      cases lost with
      | false => exact .inl (List.mem_cons_of_mem _ hr)
      | true => cases hr
  | onTrigger => exact .inl hr
  | triggered => exact .inl hr
  | fail => cases hr

/-- A run that stands at neither of the two places where dates were computed. -/
theorem due_of_pending {c : Time} {pc : TickPc}
    (h : ∀ r ∈ pending ⟨c, pc⟩, ∃ v, r.nextTriggerAt = some v ∧ v ≤ c)
    (hf : ∀ dueAt, pc ≠ .fetching dueAt)
    (hu : ∀ r now nextRun rest, pc ≠ .updating r now nextRun rest) : Due ⟨c, pc⟩ :=
  ⟨h, fun dueAt he => absurd he (hf dueAt),
    fun r now nextRun rest he => absurd he (hu r now nextRun rest)⟩

theorem due_ended (c : Time) : Due ⟨c, .ended⟩ := by
  apply due_of_pending
  · intro r hr
    cases hr
  · simp
  · simp

theorem Due.tickStep (hnext : ∀ expr tz now t, next expr tz now = some t → now < t) {t : Tick}
    {a : Action} {p : Tick × ScheduleTable × List Firing} (hd : Due t)
    (h : TickStep next table t a p) : Due p.1 := by
  cases h with
  | fetch hp =>
      apply due_of_pending
      · intro r hr
        obtain ⟨-, -, v, hv, hle⟩ := mem_fetchDueSchedules (hp.mem_iff.mp hr)
        exact ⟨v, hv, Nat.le_trans hle (hd.fetching _ rfl)⟩
      · simp
      · simp
  | trigger hc hn =>
      refine ⟨fun r hr => ?_, fun dueAt he => ?_, fun r now nextRun rest he v hv => ?_⟩
      · obtain ⟨v, hv, hle⟩ := hd.pending r hr
        exact ⟨v, hv, Nat.le_trans hle hc⟩
      · cases he
      · cases he
        obtain ⟨u, hu, hle⟩ := hd.pending _ (List.mem_cons_self ..)
        rw [hu] at hv
        obtain rfl := Option.some.inj hv
        exact Nat.lt_of_le_of_lt (Nat.le_trans hle hc) (hnext _ _ _ _ hn)
  | throws => exact due_ended _
  | update lost =>
      cases lost with
      | false =>
          apply due_of_pending
          · exact fun r hr => hd.pending r (List.mem_cons_of_mem _ hr)
          · simp
          · simp
      | true => exact due_ended _
  | onTrigger hc =>
      apply due_of_pending
      · intro r hr
        obtain ⟨v, hv, hle⟩ := hd.pending r hr
        exact ⟨v, hv, Nat.le_trans hle hc⟩
      · simp
      · simp
  | triggered =>
      apply due_of_pending
      · exact hd.pending
      · simp
      · simp
  | fail => exact due_ended _

theorem mem_ticks_step (hs : step next s e = some s') {t' : Tick} (ht : t' ∈ s'.ticks) :
    t' ∈ s.ticks ∨ (∃ now, t' = ⟨now, .fetching now⟩) ∨
      ∃ run a t p, e = .act run a ∧ t ∈ s.ticks ∧ TickStep next s.schedules t a p ∧ t' = p.1 := by
  cases e with
  | tick now =>
      obtain rfl := Option.some.inj hs
      rcases List.mem_append.mp ht with ht | ht
      · exact .inl ht
      · exact .inr (.inl ⟨now, List.mem_singleton.mp ht⟩)
  | act run a =>
      obtain ⟨t, p, hk, hp, rfl⟩ := step_act hs
      rcases List.mem_or_eq_of_mem_set ht with ht | ht
      · exact .inl ht
      · exact .inr (.inr ⟨run, a, t, p, rfl, List.mem_of_getElem? hk, hp, ht⟩)

theorem due_step (hnext : ∀ expr tz now t, next expr tz now = some t → now < t)
    (hd : ∀ t ∈ s.ticks, Due t) (hs : step next s e = some s') : ∀ t ∈ s'.ticks, Due t := by
  intro t' ht
  rcases mem_ticks_step hs ht with ht | ⟨now, rfl⟩ | ⟨run, a, t, p, -, hk, hp, rfl⟩
  · exact hd t' ht
  · refine ⟨fun r hr => ?_, fun dueAt he => ?_, fun r now nextRun rest he => ?_⟩
    · cases hr
    · cases he
      exact Nat.le_refl _
    · cases he
  · exact (hd t hk).tickStep hnext hp

/-! ## The rows -/

/-- **A step and the table**: it is left alone, or a run updates the row of its schedule. -/
theorem schedules_step (hs : step next s e = some s') :
    s.updates e = none ∧ s'.schedules = s.schedules ∨
      ∃ r c now nextRun rest, s.updates e = some r ∧
        (⟨c, .updating r now nextRun rest⟩ : Tick) ∈ s.ticks ∧
        s'.schedules = advance s.schedules r.id now nextRun := by
  cases e with
  | tick now =>
      obtain rfl := Option.some.inj hs
      exact .inl ⟨rfl, rfl⟩
  | act run a =>
      obtain ⟨t, p, hk, hp, rfl⟩ := step_act hs
      cases hp with
      | update lost =>
          refine .inr ⟨_, _, _, _, _, ?_, List.mem_of_getElem? hk, rfl⟩
          rw [updates, hk]
          rfl
      | _ => exact .inl ⟨rfl, rfl⟩

theorem nextTriggerAt_advance {r : Schedule} {now nextRun : Time}
    (hs : s'.schedules = advance s.schedules r.id now nextRun) (id : String) :
    s'.nextTriggerAt id =
      if id = r.id then (s.schedules.find? id).map fun _ => nextRun else s.nextTriggerAt id := by
  rw [nextTriggerAt, nextTriggerAt, hs, advance, Table.find?_update]
  split_ifs
  · cases s.schedules.find? id <;> rfl
  · rfl

theorem updates_of_granted {r : Schedule} (h : s.granted e = some r) : s.updates e = some r := by
  unfold granted at h
  split at h
  · exact h
  · cases h

theorem claims_step_of_ne (hs : step next s e = some s') {o : String × Option Time}
    (h : ∀ r ∈ s.updates e, occurrence r ≠ o) : s'.claims o = s.claims o := by
  rw [claims_step hs]
  cases hg : s.granted e with
  | none => rfl
  | some r => simp [h r (updates_of_granted hg)]

theorem claims_step_le (hs : step next s e = some s') (o : String × Option Time) :
    s'.claims o ≤ s.claims o + 1 := by
  rw [claims_step hs]
  have : (s.granted e).toList.countP (fun r => occurrence r = o) ≤ (s.granted e).toList.length :=
    List.countP_le_length
  have : (s.granted e).toList.length ≤ 1 := by cases s.granted e <;> simp
  omega

/-! ## Fresh updates -/

/-- **The invariant.** An occurrence has at most one claim, and a schedule with a claim on an
occurrence has moved on to a later one. -/
structure Once (s : Cron) : Prop where
  due : ∀ t ∈ s.ticks, Due t
  claims : ∀ id v, s.claims (id, some v) ≤ 1
  passed : ∀ id v, s.claims (id, some v) ≠ 0 → ∃ u, s.nextTriggerAt id = some u ∧ v < u

theorem once_init (t : ScheduleTable) : Once (init t) where
  due _ ht := absurd ht List.not_mem_nil
  claims _ _ := Nat.zero_le 1
  passed _ _ h := absurd rfl h

theorem Once.unclaimed (h : Once s) {id : String} {v : Time} (hrow : s.nextTriggerAt id = some v) :
    s.claims (id, some v) = 0 := by
  by_contra hne
  obtain ⟨u, hu, hvu⟩ := h.passed id v hne
  rw [hrow] at hu
  exact absurd (Option.some.inj hu) hvu.ne

theorem nextTriggerAt_of_advance {r : Schedule} {now nextRun v : Time}
    (ht : s'.schedules = advance s.schedules r.id now nextRun)
    (hrow : s.nextTriggerAt r.id = some v) : s'.nextTriggerAt r.id = some nextRun := by
  obtain ⟨row, hfind, -⟩ := Option.bind_eq_some_iff.mp hrow
  rw [nextTriggerAt_advance ht, if_pos rfl, hfind]
  rfl

/-- **The step lemma.** A fresh update claims an occurrence that nobody has claimed, and passes
it; the other occurrences of the schedule are passed even more. -/
theorem once_step (hnext : ∀ expr tz now t, next expr tz now = some t → now < t) (h : Once s)
    (hf : Fresh s e) (hs : step next s e = some s') : Once s' := by
  have hdue : ∀ t ∈ s'.ticks, Due t := due_step hnext h.due hs
  rcases schedules_step hs with ⟨hu, ht⟩ | ⟨r, c, now, nextRun, rest, hu, hmem, ht⟩
  · have hc : ∀ o, s'.claims o = s.claims o := fun o =>
      claims_step_of_ne hs fun r hr => by rw [hu] at hr; cases hr
    refine ⟨hdue, fun id v => ?_, fun id v hne => ?_⟩
    · rw [hc]
      exact h.claims id v
    · rw [hc] at hne
      rw [nextTriggerAt, ht]
      exact h.passed id v hne
  · have hd : Due ⟨c, .updating r now nextRun rest⟩ := h.due _ hmem
    obtain ⟨v, hv, -⟩ := hd.pending r (List.mem_cons_self ..)
    have hlt : v < nextRun := hd.updating r now nextRun rest rfl v hv
    have hrow : s.nextTriggerAt r.id = some v := (hf r hu).trans hv
    have hrow' : s'.nextTriggerAt r.id = some nextRun := nextTriggerAt_of_advance ht hrow
    have hfree : s.claims (r.id, some v) = 0 := h.unclaimed hrow
    have hother : ∀ id w, (id, some w) ≠ (r.id, some v) →
        s'.claims (id, some w) = s.claims (id, some w) := by
      intro id w hne
      apply claims_step_of_ne hs
      intro q hq
      rw [hu] at hq
      obtain rfl := Option.some.inj hq
      rw [occurrence, hv]
      exact hne.symm
    refine ⟨hdue, fun id w => ?_, fun id w hne => ?_⟩
    · by_cases heq : (id, some w) = (r.id, some v)
      · have := claims_step_le hs (r.id, some v)
        rw [heq]
        omega
      · rw [hother id w heq]
        exact h.claims id w
    · by_cases hid : id = r.id
      · subst hid
        refine ⟨nextRun, hrow', ?_⟩
        by_cases hw : w = v
        · rwa [hw]
        · rw [hother _ w (by simpa using hw)] at hne
          obtain ⟨u, hu', hwu⟩ := h.passed _ w hne
          rw [hrow] at hu'
          rw [← Option.some.inj hu'] at hwu
          exact hwu.trans hlt
      · rw [hother id w (by simp [hid])] at hne
        rw [nextTriggerAt_advance ht, if_neg hid]
        exact h.passed id w hne

theorem firedOnce_of_once (h : Once s) : FiredOnce s :=
  fun id v => (Nat.le_add_right _ _).trans (h.claims id v)

/-! ## Stale updates -/

/-- **The invariant of fresh updates**: a fetched occurrence is still the one of the row, or it
has a claim. -/
def Held (s : Cron) : Prop :=
  ∀ t ∈ s.ticks, ∀ r ∈ pending t,
    s.nextTriggerAt r.id = r.nextTriggerAt ∨ s.claims (occurrence r) ≠ 0

def Doubled (s : Cron) : Prop := ∃ id v, 2 ≤ s.claims (id, some v)

theorem claims_mono (hs : step next s e = some s') (o : String × Option Time) :
    s.claims o ≤ s'.claims o := by
  rw [claims_step hs]
  exact Nat.le_add_right _ _

theorem claims_step_update (hs : step next s e = some s')
    (hl : ∀ run, e ≠ .act run (.update true)) {r : Schedule} (hr : s.updates e = some r) :
    s'.claims (occurrence r) = s.claims (occurrence r) + 1 := by
  have hg : s.granted e = some r := by
    unfold updates at hr
    split at hr
    · rename_i run lost
      cases lost with
      | false => exact hr
      | true => exact absurd rfl (hl run)
    · cases hr
  rw [claims_step hs, hg]
  simp

theorem mem_pending_step (hs : step next s e = some s') {t' : Tick} (ht : t' ∈ s'.ticks)
    {r : Schedule} (hr : r ∈ pending t') :
    (∃ t ∈ s.ticks, r ∈ pending t) ∨ r ∈ s.schedules ∧ s.updates e = none := by
  rcases mem_ticks_step hs ht with ht | ⟨now, rfl⟩ | ⟨run, a, t, p, rfl, hk, hp, rfl⟩
  · exact .inl ⟨t', ht, hr⟩
  · cases hr
  · rcases hp.mem_pending hr with hr | ⟨hr, ha⟩
    · exact .inl ⟨t, hk, hr⟩
    · refine .inr ⟨hr, ?_⟩
      cases a with
      | update lost => exact absurd rfl (ha lost)
      | _ => rfl

theorem held_step (h : Held s) (hf : Fresh s e) (hl : ∀ run, e ≠ .act run (.update true))
    (hs : step next s e = some s') : Held s' := by
  intro t' ht r hr
  rcases mem_pending_step hs ht hr with ⟨t, hk, hr⟩ | ⟨hr, hu⟩
  · rcases h t hk r hr with hrow | hc
    · rcases schedules_step hs with ⟨-, ht⟩ | ⟨q, c, now, nextRun, rest, hu, -, ht⟩
      · left
        rw [nextTriggerAt, ht]
        exact hrow
      · by_cases hid : r.id = q.id
        · -- the row is updated: by freshness for the occurrence that `r` stands for
          right
          have ho : occurrence r = occurrence q := by
            rw [occurrence, occurrence, ← hrow, ← hf q hu, hid]
          rw [ho, claims_step_update hs hl hu]
          exact Nat.succ_ne_zero _
        · left
          rw [nextTriggerAt_advance ht, if_neg hid]
          exact hrow
    · right
      have := claims_mono hs (occurrence r)
      omega
  · left
    rcases schedules_step hs with ⟨-, ht⟩ | ⟨q, c, now, nextRun, rest, hu', -, -⟩
    · rw [nextTriggerAt, ht, Table.mem_iff_find?.mp hr]
      rfl
    · rw [hu] at hu'
      cases hu'

/-- **A stale update** claims an occurrence again. -/
theorem doubled_of_stale (hd : ∀ t ∈ s.ticks, Due t) (h : Held s) (hf : ¬ Fresh s e)
    (hl : ∀ run, e ≠ .act run (.update true)) (hs : step next s e = some s') : Doubled s' := by
  rcases schedules_step hs with ⟨hu, -⟩ | ⟨r, c, now, nextRun, rest, hu, hmem, -⟩
  · refine absurd (fun r hr => ?_) hf
    rw [hu] at hr
    cases hr
  · have hr : r ∈ pending ⟨c, .updating r now nextRun rest⟩ := List.mem_cons_self ..
    obtain ⟨v, hv, -⟩ := (hd _ hmem).pending r hr
    have hc : s.claims (occurrence r) ≠ 0 := by
      apply (h _ hmem r hr).resolve_left
      intro hrow
      refine hf fun q hq => ?_
      rw [hu] at hq
      obtain rfl := Option.some.inj hq
      exact hrow
    refine ⟨r.id, v, ?_⟩
    have := claims_step_update hs hl hu
    rw [occurrence, hv] at this hc
    omega

theorem fresh_or_doubled (hnext : ∀ expr tz now t, next expr tz now = some t → now < t)
    {t₀ : ScheduleTable} {es : List Event} (h : Run (step next) anyStep (init t₀) es s)
    (hl : ∀ run, .act run (.update true) ∉ es) :
    Run (step next) (stateGuard Fresh) (init t₀) es s ∧ Held s ∨ Doubled s := by
  induction h with
  | nil => exact .inl ⟨.nil, fun t ht => absurd ht List.not_mem_nil⟩
  | @snoc es s s' e h _ hs ih =>
      have hle : ∀ run, e ≠ .act run (.update true) := by
        rintro run rfl
        exact hl run (by simp)
      rcases ih fun run hm => hl run (List.mem_append_left _ hm) with ⟨hr, hh⟩ | ⟨id, v, h2⟩
      · have hd : ∀ t ∈ s.ticks, Due t :=
          h.stable (fun t ht => absurd ht List.not_mem_nil)
            fun _ _ _ _ hd _ hs => due_step hnext hd hs
        by_cases hf : Fresh s e
        · exact .inl ⟨hr.snoc hf hs, held_step hh hf hle hs⟩
        · exact .inr (doubled_of_stale hd hh hf hle hs)
      · exact .inr ⟨id, v, h2.trans (claims_mono hs _)⟩

/-- No run of `tick` stands between its update and its call of `onTrigger`. -/
def Settled (s : Cron) : Prop := ∀ t ∈ s.ticks, ∀ r rest, t.pc ≠ .updated r rest

theorem claims_of_settled (h : Settled s) (o : String × Option Time) :
    s.claims o = s.timesFired o := by
  have : s.ticks.countP (holds o) = 0 := by
    rw [List.countP_eq_zero]
    intro t ht
    rw [not_holds (c := t.clock) (h t ht)]
    exact Bool.false_ne_true
  rw [claims, this, Nat.add_zero]

/-- **Every occurrence fires at most once** when every update is fresh; and when no answer of an
update is lost and no call of `onTrigger` is still to come, only then. -/
theorem fired_once_iff_fresh (hnext : ∀ expr tz now t, next expr tz now = some t → now < t)
    {t₀ : ScheduleTable} {es : List Event} (h : Run (step next) anyStep (init t₀) es s) :
    (Run (step next) (stateGuard Fresh) (init t₀) es s → FiredOnce s) ∧
      ((∀ run, .act run (.update true) ∉ es) → Settled s → FiredOnce s →
        Run (step next) (stateGuard Fresh) (init t₀) es s) := by
  constructor
  · intro hr
    apply firedOnce_of_once
    exact hr.stable (once_init t₀) fun _ _ _ _ hi hf hs => once_step hnext hi hf hs
  · intro hl hset honce
    rcases fresh_or_doubled hnext h hl with ⟨hr, -⟩ | ⟨id, v, h2⟩
    · exact hr
    · rw [claims_of_settled hset] at h2
      exact absurd (honce id v) (by omega)

/-! ## A schedule of every minute -/

/-- The next run of a cron expression for every minute. -/
def everyMinute (_ _ : String) (now : Time) : Option Time := some ((now / 60000 + 1) * 60000)

theorem lt_everyMinute (expr tz : String) (now t : ℕ) (h : everyMinute expr tz now = some t) :
    now < t := by
  have h : (now / 60000 + 1) * 60000 = t := Option.some.inj h
  omega

def minutely : Schedule where
  id := "s"
  name := "cleanup"
  description := none
  cronExpression := "* * * * *"
  timezone := "UTC"
  jobTemplate := ⟨.databaseCleanup, [], .medium, 300000, {}, none⟩
  isActive := true
  lastTriggeredAt := none
  nextTriggerAt := some 60000
  totalTriggeredCount := 0
  organizationId := "org1"
  createdBy := "user1"
  createdAt := 0
  updatedAt := 0

def oneSchedule : ScheduleTable := ⟨[minutely], List.nodup_singleton _⟩

/-- A run of `tick` that triggers the schedule and ends before the next one. -/
def oneTick : List Event :=
  [.tick 60000, .act 0 (.fetch [] [minutely]), .act 0 (.trigger 60001), .act 0 (.update false),
    .act 0 (.onTrigger 60002), .act 0 .triggered, .tick 61000, .act 1 (.fetch [] [])]

theorem oneTick_fires_once :
    ∃ s, Run (step everyMinute) (stateGuard Fresh) (init oneSchedule) oneTick s ∧ FiredOnce s := by
  obtain ⟨s, hs, -⟩ := exists_run_of_check (step everyMinute) (stateGuard Fresh)
    (init oneSchedule) oneTick (fun s => s.timesFired ("s", some 60000) = 1) (by decide)
  exact ⟨s, hs, (fired_once_iff_fresh lt_everyMinute (hs.mono fun _ _ _ _ => trivial)).1 hs⟩

/-- The interval calls `tick` again while the update of the first run is under way. -/
def overlappingTicks : List Event :=
  [.tick 60000, .act 0 (.fetch [] [minutely]), .act 0 (.trigger 60001), .tick 61000,
    .act 1 (.fetch [] [minutely]), .act 0 (.update false), .act 0 (.onTrigger 61001),
    .act 1 (.trigger 61001), .act 1 (.update false), .act 1 (.onTrigger 61002)]

/-- **Both runs fire** for the one occurrence they have fetched. -/
theorem overlapping_ticks_fire_twice :
    ∃ s, Run (step everyMinute) anyStep (init oneSchedule) overlappingTicks s ∧ ¬ FiredOnce s := by
  obtain ⟨s, hs, hp⟩ := exists_run_of_check (step everyMinute) anyStep (init oneSchedule)
    overlappingTicks (fun s => s.timesFired ("s", some 60000) = 2) (by decide)
  have htwo := of_decide_eq_true hp
  refine ⟨s, hs, fun honce => ?_⟩
  have := honce "s" 60000
  omega

end TaskOrchestration.Cron

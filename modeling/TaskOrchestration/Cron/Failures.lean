import TaskOrchestration.Cron.Model
import TaskOrchestration.Lib.Run

set_option autoImplicit false

/-!
# A tick with failures

The loop of `tick` stands in one `try`, so the first schedule whose trigger throws ends it.

* `Fault`, `triggerSchedule`, **`triggerAll`**: the loop, uninterrupted, when the given triggers
  throw; **`triggerAll_run`**: it is what the steps of a run of `tick` do;
* `Throws`, `triggerAll_of_throws`, `triggerAll_of_not_throws`: its two cases;
* `TriggersOthers`, **`triggers_others_iff`**; `healthy_schedule_held_back`.
-/

namespace TaskOrchestration

open LabelledRun

namespace CronScheduler

/-- Which call of `triggerSchedule` fails. The answer of an update may be lost. -/
inductive Fault
  | update (lost : Bool)
  | onTrigger
  deriving DecidableEq, Repr

variable (getNextCronRun : String → String → Time → Option Time) (faults : String → Option Fault)
  (now : Time)

/-- **`triggerSchedule`**: the table, the call of `onTrigger`, and whether it returns. -/
def triggerSchedule (table : ScheduleTable) (schedule : Schedule) :
    ScheduleTable × List Firing × Bool :=
  match getNextCronRun schedule.cronExpression schedule.timezone now with
  | none => (table, [], false)
  | some nextRun =>
      match faults schedule.id with
      | some (.update lost) =>
          (if lost then advance table schedule.id now nextRun else table, [], false)
      | some .onTrigger =>
          (advance table schedule.id now nextRun, [⟨schedule, jobDto schedule now⟩], false)
      | none => (advance table schedule.id now nextRun, [⟨schedule, jobDto schedule now⟩], true)

/-- **The loop of `tick`** over the due schedules. -/
def triggerAll : ScheduleTable → List Schedule → ScheduleTable × List Firing
  | table, [] => (table, [])
  | table, schedule :: rest =>
      let p := triggerSchedule getNextCronRun faults now table schedule
      if p.2.2 then
        let q := triggerAll p.1 rest
        (q.1, p.2.1 ++ q.2)
      else (p.1, p.2.1)

/-- `triggerSchedule` throws: the cron expression has no next run, or a call fails. -/
def Throws (schedule : Schedule) : Prop :=
  getNextCronRun schedule.cronExpression schedule.timezone now = none ∨
    (faults schedule.id).isSome

instance : DecidablePred (Throws getNextCronRun faults now) := fun schedule => by
  unfold Throws
  infer_instance

/-- **The schedules whose trigger does not throw are triggered**, whatever the others do. -/
def TriggersOthers (table : ScheduleTable) (due : List Schedule) : Prop :=
  ∀ schedule ∈ due, ¬ Throws getNextCronRun faults now schedule →
    ⟨schedule, jobDto schedule now⟩ ∈ (triggerAll getNextCronRun faults now table due).2

variable {getNextCronRun} {faults} {now} {table : ScheduleTable} {schedule : Schedule}
  {due rest : List Schedule}

variable (getNextCronRun faults now) in
/-- **One trigger**: it throws, and at most its own job has been submitted, or it returns, and the
job has been submitted. -/
theorem triggerSchedule_cases (table : ScheduleTable) (schedule : Schedule) :
    (Throws getNextCronRun faults now schedule ∧
        (triggerSchedule getNextCronRun faults now table schedule).2.2 = false ∧
        ∀ f ∈ (triggerSchedule getNextCronRun faults now table schedule).2.1,
          f.schedule = schedule) ∨
      ¬ Throws getNextCronRun faults now schedule ∧
        (triggerSchedule getNextCronRun faults now table schedule).2.2 = true ∧
        (triggerSchedule getNextCronRun faults now table schedule).2.1 =
          [⟨schedule, jobDto schedule now⟩] := by
  unfold triggerSchedule Throws
  cases hnext : getNextCronRun schedule.cronExpression schedule.timezone now with
  | none => exact .inl ⟨.inl rfl, rfl, fun f hf => absurd hf List.not_mem_nil⟩
  | some nextRun =>
      cases hfault : faults schedule.id with
      | none => exact .inr ⟨by simp, rfl, rfl⟩
      | some fault =>
          refine .inl ⟨.inr rfl, ?_⟩
          cases fault with
          | update lost => exact ⟨rfl, fun f hf => absurd hf List.not_mem_nil⟩
          | onTrigger =>
              exact ⟨rfl, fun f hf => congrArg Firing.schedule (List.mem_singleton.mp hf)⟩

/-- **A trigger that throws** ends the loop. -/
theorem triggerAll_of_throws (h : Throws getNextCronRun faults now schedule)
    (table : ScheduleTable) (rest : List Schedule) :
    ∀ f ∈ (triggerAll getNextCronRun faults now table (schedule :: rest)).2,
      f.schedule = schedule := by
  rcases triggerSchedule_cases getNextCronRun faults now table schedule with
    ⟨-, hends, hfired⟩ | ⟨hnot, -⟩
  · rw [triggerAll]
    dsimp only
    rw [hends]
    exact hfired
  · exact absurd h hnot

/-- **A trigger that returns** submits its job, and the loop goes on. -/
theorem triggerAll_of_not_throws (h : ¬ Throws getNextCronRun faults now schedule)
    (table : ScheduleTable) (rest : List Schedule) :
    ∃ table', (triggerAll getNextCronRun faults now table (schedule :: rest)).2 =
      ⟨schedule, jobDto schedule now⟩ :: (triggerAll getNextCronRun faults now table' rest).2 := by
  rcases triggerSchedule_cases getNextCronRun faults now table schedule with
    ⟨hthrows, -⟩ | ⟨-, hgoes, hfired⟩
  · exact absurd hthrows h
  · refine ⟨(triggerSchedule getNextCronRun faults now table schedule).1, ?_⟩
    rw [triggerAll]
    dsimp only
    rw [hgoes, hfired]
    rfl

theorem triggersOthers_cons_of_throws (h : Throws getNextCronRun faults now schedule)
    (hnew : schedule ∉ rest) (table : ScheduleTable) :
    TriggersOthers getNextCronRun faults now table (schedule :: rest) ↔
      ∀ b ∈ rest, Throws getNextCronRun faults now b := by
  constructor
  · intro hall b hb
    by_contra hnot
    have hown := triggerAll_of_throws h table rest _ (hall b (List.mem_cons_of_mem _ hb) hnot)
    exact hnew (hown ▸ hb)
  · intro hrest b hb hnot
    rcases List.mem_cons.mp hb with rfl | hb
    · exact absurd h hnot
    · exact absurd (hrest b hb) hnot

theorem triggersOthers_cons_of_not_throws (h : ¬ Throws getNextCronRun faults now schedule)
    (hnew : schedule ∉ rest) (table : ScheduleTable) :
    ∃ table', TriggersOthers getNextCronRun faults now table (schedule :: rest) ↔
      TriggersOthers getNextCronRun faults now table' rest := by
  obtain ⟨table', hfired⟩ := triggerAll_of_not_throws h table rest
  refine ⟨table', ?_⟩
  unfold TriggersOthers
  rw [hfired]
  constructor
  · intro hall b hb hnot
    rcases List.mem_cons.mp (hall b (List.mem_cons_of_mem _ hb) hnot) with heq | hmem
    · have hb' : b = schedule := congrArg Firing.schedule heq
      exact absurd (hb' ▸ hb) hnew
    · exact hmem
  · intro hall b hb hnot
    rcases List.mem_cons.mp hb with rfl | hb
    · exact List.mem_cons_self
    · exact List.mem_cons_of_mem _ (hall b hb hnot)

/-- **The other schedules are triggered** exactly if every schedule after one whose trigger throws
throws as well. -/
theorem triggers_others_iff (hids : (due.map Schedule.id).Nodup) :
    TriggersOthers getNextCronRun faults now table due ↔ due.Pairwise fun a b =>
      Throws getNextCronRun faults now a → Throws getNextCronRun faults now b := by
  have hnodup := hids.of_map
  clear hids
  induction due generalizing table with
  | nil => exact iff_of_true (fun _ h => absurd h List.not_mem_nil) List.Pairwise.nil
  | cons schedule rest ih =>
      obtain ⟨hnew, hnodup⟩ := List.nodup_cons.mp hnodup
      rw [List.pairwise_cons]
      by_cases hthrows : Throws getNextCronRun faults now schedule
      · rw [triggersOthers_cons_of_throws hthrows hnew]
        constructor
        · exact fun hrest => ⟨fun b hb _ => hrest b hb,
            hnodup.imp_of_mem fun _ hb _ _ => hrest _ hb⟩
        · exact fun hrest b hb => hrest.1 b hb hthrows
      · obtain ⟨table', hgoes⟩ := triggersOthers_cons_of_not_throws hthrows hnew table
        have hrest : TriggersOthers getNextCronRun faults now table' rest ↔ _ := ih hnodup
        rw [hgoes, hrest]
        exact (and_iff_right fun b _ h => absurd h hthrows).symm

def dueSchedule (id : String) : Schedule where
  id := id
  name := id
  description := none
  cronExpression := "* * * * *"
  timezone := "UTC"
  jobTemplate := ⟨.custom, [], .medium, 300000, ⟨none, none, none, none⟩, none⟩
  isActive := true
  lastTriggeredAt := none
  nextTriggerAt := some 0
  totalTriggeredCount := 0
  organizationId := "org1"
  createdBy := "user1"
  createdAt := 0
  updatedAt := 0

def twoSchedules : ScheduleTable := ⟨[dueSchedule "a", dueSchedule "b"], by decide⟩

/-- The submission of the job of one schedule fails. -/
def failsFor (id : String) : String → Option Fault := fun id' =>
  if id' = id then some .onTrigger else none

def inOneMinute : String → String → Time → Option Time := fun _ _ now => some (now + 60000)

theorem last_failure_harmless :
    TriggersOthers inOneMinute (failsFor "b") 1 twoSchedules twoSchedules.rows :=
  (triggers_others_iff twoSchedules.nodup).mpr (by decide)

/-- **A healthy schedule** is not triggered. -/
theorem healthy_schedule_held_back : ¬ ∀ (getNextCronRun : String → String → Time → Option Time)
    (faults : String → Option Fault) (now : Time) (table : ScheduleTable) (due : List Schedule),
    (due.map Schedule.id).Nodup → TriggersOthers getNextCronRun faults now table due := by
  intro hall
  have hothers := hall inOneMinute (failsFor "a") 1 twoSchedules twoSchedules.rows
    twoSchedules.nodup
  exact absurd (hothers (dueSchedule "b") (by decide) (by decide)) (by decide)

end CronScheduler

/-! ## The steps of a run of `tick` -/

namespace Cron

open CronScheduler

variable {getNextCronRun : String → String → Time → Option Time} {faults : String → Option Fault}
  {now : Time} {s : Cron} {k : ℕ}

/-- The run stands at `pc`, its process has read the time `now`, and `table` and `fired` are what
there is. -/
def At (s : Cron) (k : ℕ) (now : Time) (pc : TickPc) (table : ScheduleTable) (fired : List Firing) :
    Prop :=
  s.ticks[k]? = some ⟨now, pc⟩ ∧ s.schedules = table ∧ s.fired = fired

def Goes (getNextCronRun : String → String → Time → Option Time) (s : Cron) (k : ℕ) (now : Time)
    (pc : TickPc) (table : ScheduleTable) (fired : List Firing) : Prop :=
  ∃ (as : List Action) (s' : Cron),
    runEvents (step getNextCronRun) s (as.map (.act k)) = some s' ∧ s'.At k now pc table fired

theorem Goes.snoc {pc pc' : TickPc} {table table' : ScheduleTable} {fired new : List Firing}
    (h : s.Goes getNextCronRun k now pc table fired) (a : Action)
    (hs : stepTick getNextCronRun table ⟨now, pc⟩ a = some (⟨now, pc'⟩, table', new)) :
    s.Goes getNextCronRun k now pc' table' (fired ++ new) := by
  obtain ⟨as, s₁, hrun, hop, rfl, rfl⟩ := h
  obtain ⟨hlt, -⟩ := List.getElem?_eq_some_iff.mp hop
  refine ⟨as ++ [a], ⟨table', s₁.ticks.set k ⟨now, pc'⟩, s₁.fired ++ new⟩, ?_, ?_⟩
  · rw [List.map_append, List.map_singleton, runEvents_snoc, hrun, Option.bind_some, step, hop,
      Option.bind_some, hs, Option.map_some]
  · exact ⟨List.getElem?_set_self hlt, rfl, rfl⟩

theorem Goes.snoc_nil {pc pc' : TickPc} {table table' : ScheduleTable} {fired : List Firing}
    (h : s.Goes getNextCronRun k now pc table fired) (a : Action)
    (hs : stepTick getNextCronRun table ⟨now, pc⟩ a = some (⟨now, pc'⟩, table', [])) :
    s.Goes getNextCronRun k now pc' table' fired :=
  List.append_nil fired ▸ h.snoc a hs

/-- **The steps of one trigger.** -/
theorem triggerSchedule_run {schedule : Schedule} {rest : List Schedule} {table : ScheduleTable}
    {fired : List Firing}
    (h : s.Goes getNextCronRun k now (.looping (schedule :: rest)) table fired)
    (faults : String → Option Fault) :
    let p := triggerSchedule getNextCronRun faults now table schedule
    s.Goes getNextCronRun k now (if p.2.2 then .looping rest else .ended) p.1
      (fired ++ p.2.1) := by
  intro p
  have hp : p = triggerSchedule getNextCronRun faults now table schedule := rfl
  rw [triggerSchedule] at hp
  cases hnext : getNextCronRun schedule.cronExpression schedule.timezone now with
  | none =>
      rw [hnext] at hp
      rw [hp]
      exact h.snoc (.trigger now) (by simp [stepTick, hnext])
  | some nextRun =>
      rw [hnext] at hp
      have hupdating : s.Goes getNextCronRun k now (.updating schedule now nextRun rest) table
          fired := h.snoc_nil (.trigger now) (by simp [stepTick, hnext])
      have hcalling : s.Goes getNextCronRun k now (.triggering rest)
          (advance table schedule.id now nextRun)
          (fired ++ [⟨schedule, jobDto schedule now⟩]) :=
        (hupdating.snoc_nil (.update false) rfl).snoc (.onTrigger now) (by simp [stepTick])
      cases hfault : faults schedule.id with
      | none =>
          rw [hfault] at hp
          rw [hp]
          exact hcalling.snoc_nil .triggered rfl
      | some fault =>
          rw [hfault] at hp
          rw [hp]
          cases fault with
          | update lost =>
              cases lost with
              | true => exact hupdating.snoc (.update true) rfl
              | false => exact hupdating.snoc .fail rfl
          | onTrigger => exact hcalling.snoc_nil .fail rfl

/-- **The steps of a run of `tick`**, one after the other, do what the uninterrupted loop does, and
then the run has ended, or no schedule is left. -/
theorem triggerAll_run (faults : String → Option Fault) (due : List Schedule)
    {table : ScheduleTable} {fired : List Firing}
    (h : s.Goes getNextCronRun k now (.looping due) table fired) :
    ∃ pc, (pc = .ended ∨ pc = .looping []) ∧
      s.Goes getNextCronRun k now pc (triggerAll getNextCronRun faults now table due).1
        (fired ++ (triggerAll getNextCronRun faults now table due).2) := by
  induction due generalizing table fired with
  | nil => exact ⟨.looping [], .inr rfl, (List.append_nil fired).symm ▸ h⟩
  | cons schedule rest ih =>
      have hone := triggerSchedule_run h faults
      rw [triggerAll]
      dsimp only at hone ⊢
      split_ifs at hone ⊢ with hgoes
      · obtain ⟨pc, hpc, hall⟩ := ih hone
        exact ⟨pc, hpc, (List.append_assoc ..) ▸ hall⟩
      · exact ⟨.ended, .inl rfl, hone⟩

end Cron

end TaskOrchestration

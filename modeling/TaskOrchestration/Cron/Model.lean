import TaskOrchestration.Lib.Run
import TaskOrchestration.Job.Model

set_option autoImplicit false

/-!
# The cron scheduler

The `schedules` table, and any number of runs of `tick`, of one `CronScheduler` or of several. A
run is cut at its awaits: the query, the update of a schedule, and `onTrigger`. The rows that the
query locks are free again when it has ended, since it runs outside a transaction.

* `Schedule`, `JobTemplate`: a row, and the job it stands for; `toISOString`;
* `fetchDueSchedules`, `advance`, `jobDto`: what `tick` and `triggerSchedule` read and write;
* `TickPc`, `Tick`: where a run of `tick` stands; `Firing`: a call of `onTrigger`;
* `Cron`, `Event`, `stepTick`, **`step`**; `getNextCronRun`, which calls the cron parser, is a
  parameter.
-/

namespace TaskOrchestration

/-- The job of a schedule. Its type, priority and retry configuration, which the source casts to
those of a `CreateJobDto`, have these types. -/
structure JobTemplate where
  type : JobType
  payload : JsonObject
  priority : JobPriority
  timeoutMs : ℤ
  retryConfig : PartialRetryConfig
  tags : Option (List String)
  deriving DecidableEq, Repr

/-- **A row of the `schedules` table.** -/
structure Schedule where
  id : String
  name : String
  description : Option String
  cronExpression : String
  timezone : String
  jobTemplate : JobTemplate
  isActive : Bool
  lastTriggeredAt : Option Time
  nextTriggerAt : Option Time
  totalTriggeredCount : ℕ
  organizationId : String
  createdBy : String
  createdAt : Time
  updatedAt : Time
  deriving DecidableEq, Repr

/-- The `schedules` table; `id` is its primary key. -/
abbrev ScheduleTable := Table Schedule.id

/-! ## Dates as texts -/

def padded (n k : ℕ) : String := "".pushn '0' (n - (toString k).length) ++ toString k

/-- The year, month and day of a date. The years begin in March, in eras of 400 years. -/
def civilDate (now : Time) : ℕ × ℕ × ℕ :=
  let days := now / 86400000 + 719468
  let inEra := days % 146097
  let year := (inEra - inEra / 1460 + inEra / 36524 - inEra / 146096) / 365
  let inYear := inEra - (365 * year + year / 4 - year / 100)
  let march := (5 * inYear + 2) / 153
  let month := if march < 10 then march + 3 else march - 9
  (days / 146097 * 400 + year + (if month ≤ 2 then 1 else 0), month,
    inYear - (153 * march + 2) / 5 + 1)

def toISOString (now : Time) : String :=
  let (year, month, day) := civilDate now
  (if year ≤ 9999 then padded 4 year else "+" ++ padded 6 year) ++ "-" ++ padded 2 month ++ "-" ++
    padded 2 day ++ "T" ++ padded 2 (now / 3600000 % 24) ++ ":" ++ padded 2 (now / 60000 % 60) ++
    ":" ++ padded 2 (now / 1000 % 60) ++ "." ++ padded 3 (now % 1000) ++ "Z"

example : toISOString 1700000000123 = "2023-11-14T22:13:20.123Z" := by decide

/-! ## The statements of a tick -/

namespace CronScheduler

/-- The rows that `fetchDueSchedules` may read, but for those another statement has locked. -/
def fetchDueSchedules (t : ScheduleTable) (now : Time) (locked : List String) : List Schedule :=
  t.rows.filter fun r => r.isActive ∧ r.nextTriggerAt.any (· ≤ now) ∧ r.id ∉ locked

def advanced (now nextRun : Time) (r : Schedule) : Schedule :=
  { r with
    lastTriggeredAt := some now
    nextTriggerAt := some nextRun
    totalTriggeredCount := r.totalTriggeredCount + 1
    updatedAt := now }

theorem advanced_id (now nextRun : Time) (r : Schedule) : (advanced now nextRun r).id = r.id := rfl

def advance (t : ScheduleTable) (id : String) (now nextRun : Time) : ScheduleTable :=
  t.update id (advanced now nextRun) (advanced_id now nextRun)

def jobDto (schedule : Schedule) (now : Time) : CreateJobDto where
  name := schedule.name ++ " [cron:" ++ toISOString now ++ "]"
  description := schedule.description
  type := schedule.jobTemplate.type
  payload := schedule.jobTemplate.payload
  priority := some schedule.jobTemplate.priority
  timeoutMs := some schedule.jobTemplate.timeoutMs
  retryConfig := some schedule.jobTemplate.retryConfig
  tags := some (schedule.jobTemplate.tags.getD [] ++ ["cron", "schedule:" ++ schedule.id])
  organizationId := schedule.organizationId
  createdBy := schedule.createdBy
  metadata := some [("scheduleId", schedule.id), ("triggeredAt", toISOString now)]

/-! ## Runs of `tick` -/

/-- **Where a run of `tick` stands**: before its query, at the head of its loop, before the update
of `triggerSchedule`, after it, or waiting for `onTrigger`; `rest` are the schedules to come. -/
inductive TickPc
  | fetching (dueAt : Time)
  | looping (rest : List Schedule)
  | updating (schedule : Schedule) (now nextRun : Time) (rest : List Schedule)
  | updated (schedule : Schedule) (rest : List Schedule)
  | triggering (rest : List Schedule)
  | ended
  deriving DecidableEq, Repr

/-- A run of `tick`, and the last time its process has read the clock. -/
structure Tick where
  clock : Time
  pc : TickPc
  deriving DecidableEq, Repr

structure Firing where
  schedule : Schedule
  dto : CreateJobDto
  deriving DecidableEq, Repr

end CronScheduler

open CronScheduler

/-- **The state**: the table, the runs of `tick`, and the calls of `onTrigger` so far. -/
structure Cron where
  schedules : ScheduleTable
  ticks : List Tick
  fired : List Firing

namespace Cron

/-- What a run of `tick` does next. `update` says whether its answer is lost; a call that fails
without effect is `fail`. -/
inductive Action
  | fetch (locked : List String) (rows : List Schedule)
  | trigger (now : Time)
  | update (lost : Bool)
  | onTrigger (now : Time)
  | triggered
  | fail
  deriving DecidableEq, Repr

inductive Event
  | tick (now : Time)
  | act (run : ℕ) (a : Action)
  deriving DecidableEq, Repr

def init (t : ScheduleTable) : Cron := ⟨t, [], []⟩

variable (getNextCronRun : String → String → Time → Option Time)

/-- **One step of a run of `tick`**: the run, the table, and the calls of `onTrigger` it makes.
The query reads its rows in any order; what throws ends the run. -/
def stepTick (table : ScheduleTable) (t : Tick) :
    Action → Option (Tick × ScheduleTable × List Firing)
  | .fetch locked rows =>
      match t.pc with
      | .fetching dueAt =>
          if rows.Perm (fetchDueSchedules table dueAt locked) then
            some (⟨t.clock, .looping rows⟩, table, [])
          else none
      | _ => none
  | .trigger now =>
      match t.pc with
      | .looping (schedule :: rest) =>
          if t.clock ≤ now then
            match getNextCronRun schedule.cronExpression schedule.timezone now with
            | some nextRun => some (⟨now, .updating schedule now nextRun rest⟩, table, [])
            | none => some (⟨now, .ended⟩, table, [])
          else none
      | _ => none
  | .update lost =>
      match t.pc with
      | .updating schedule now nextRun rest =>
          some (⟨t.clock, if lost then .ended else .updated schedule rest⟩,
            advance table schedule.id now nextRun, [])
      | _ => none
  | .onTrigger now =>
      match t.pc with
      | .updated schedule rest =>
          if t.clock ≤ now then
            some (⟨now, .triggering rest⟩, table, [⟨schedule, jobDto schedule now⟩])
          else none
      | _ => none
  | .triggered =>
      match t.pc with
      | .triggering rest => some (⟨t.clock, .looping rest⟩, table, [])
      | _ => none
  | .fail =>
      match t.pc with
      | .fetching _ | .updating _ _ _ _ | .triggering _ => some (⟨t.clock, .ended⟩, table, [])
      | _ => none

/-- **One step**: an interval calls `tick`, or a run of it goes on. -/
def step (s : Cron) : Event → Option Cron
  | .tick now => some { s with ticks := s.ticks ++ [⟨now, .fetching now⟩] }
  | .act run a =>
      (s.ticks[run]?).bind fun t => (stepTick getNextCronRun s.schedules t a).map fun p =>
        { schedules := p.2.1, ticks := s.ticks.set run p.1, fired := s.fired ++ p.2.2 }

end Cron

end TaskOrchestration

import Mathlib.Algebra.Ring.Int.Defs
import TaskOrchestration.Api.Jobs
import TaskOrchestration.Cron.Model
import TaskOrchestration.Lib.Json

set_option autoImplicit false

/-!
# The admission of jobs

A job enters the table by `POST /jobs`, or by a tick that creates it from the template of a schedule
that `POST /schedules` has stored. `validate` reads only the error of a schema: the body stays as
it was sent, so a number may be a text.

* `jobSchemas.create`, `scheduleSchemas.create`: the two schemas;
* `insertedColumns`: what `JobRepository.create` stores in the columns that the limits are about;
* `jobDto`: what a tick creates from a template; `insertedColumns_toJson`, `jobDto_toJson`: the
  values of the typed model;
* `Admission`, `step`; `WithinLimits`, `FieldsWithin`, `withinLimits_iff`: the limits, of a row and
  of what it is created from;
* **`rows_within_limits_iff`**; `template_exceeds_limits`.

The validator and `readInteger`, the text input of an integer column, are parameters.
-/

namespace TaskOrchestration

open Json LabelledRun Schema

/-! ## The schemas -/

def retryConfigKeys : List (String × Bool × Schema) := [
  ("maxRetries", false, .number true (some 0) (some 10)),
  ("retryDelay", false, .number true (some 100) (some 300000)),
  ("retryBackoff", false, .string none ["FIXED", "EXPONENTIAL", "JITTER"]),
  ("retryOn", false, .array (.string none []) none none)]

def jobSchemas.create : Schema := .object [
  ("name", true, .string (some 255) []),
  ("description", false, .string (some 1000) []),
  ("type", true, .string none [
    "HTTP_REQUEST", "SHELL_COMMAND", "DATA_PIPELINE",
    "EMAIL_NOTIFICATION", "REPORT_GENERATION", "FILE_PROCESSING",
    "DATABASE_CLEANUP", "WEBHOOK", "CUSTOM"]),
  ("payload", true, .anyObject),
  ("priority", false, .string none ["CRITICAL", "HIGH", "MEDIUM", "LOW", "BACKGROUND"]),
  ("scheduledAt", false, .date),
  ("cronExpression", false, .string (some 100) []),
  ("timezone", false, .string (some 100) []),
  ("timeoutMs", false, .number true (some 1000) (some 3600000)),
  ("retryConfig", false, .object retryConfigKeys),
  ("dependencies", false, .array (.object [
    ("jobId", true, .uuid),
    ("requireStatus", true,
      .array (.string none ["COMPLETED", "FAILED", "CANCELLED"]) (some 1) none)]) none none),
  ("tags", false, .array (.string (some 50) []) none (some 20)),
  ("metadata", false, .anyObject)]

def scheduleSchemas.create : Schema := .object [
  ("name", true, .string (some 255) []),
  ("description", false, .string (some 1000) []),
  ("cronExpression", true, .string (some 100) []),
  ("timezone", false, .string (some 100) []),
  ("jobTemplate", true, .object [
    ("type", true, .string none []),
    ("payload", true, .anyObject),
    ("priority", false, .string none []),
    ("timeoutMs", false, .number false none none),
    ("retryConfig", false, .anyObject),
    ("tags", false, .array (.string none []) none none)])]

/-! ## From a request to a row -/

/-- The columns of a row of `jobs` that the limits are about. -/
structure LimitedColumns where
  timeoutMs : ℤ
  maxRetries : ℤ
  retryConfig : Json

variable (joi : Validator) (readInteger : String → Option ℤ)

/-- What an integer column between `-bound` and `bound` stores for a value; what is not an integer
or is out of range is an error. -/
def integerColumn (bound : ℤ) : Json → Option ℤ
  | .number x => if x.den = 1 ∧ -bound ≤ x.num ∧ x.num < bound then some x.num else none
  | .string s => (readInteger s).filter fun n => -bound ≤ n ∧ n < bound
  | _ => none

section

variable {readInteger}

theorem integerColumn_intCast {bound n : ℤ} (hlow : -bound ≤ n) (h : n < bound) :
    integerColumn readInteger bound (.number n) = some n :=
  if_pos ⟨Rat.den_intCast n, hlow, h⟩

theorem integerColumn_natCast {bound : ℤ} {n : ℕ} (h : (n : ℤ) < bound) :
    integerColumn readInteger bound (.number n) = some (n : ℤ) :=
  integerColumn_intCast (by omega) h

end

/-- An `INTEGER` column. -/
def integer : Json → Option ℤ := integerColumn readInteger (2 ^ 31)

/-- A `SMALLINT` column. -/
def smallint : Json → Option ℤ := integerColumn readInteger (2 ^ 15)

/-- `dto.retryConfig?.key`. -/
def retryField (dto : Json) (key : String) : Option Json :=
  (dto.get "retryConfig").bind fun retryConfig => retryConfig.get key

/-- The `retry_config` that `create` writes. -/
def retryConfig (dto : Json) : Json := .object [
  ("maxRetries", orDefault (retryField dto "maxRetries") (.number 3)),
  ("retryDelay", orDefault (retryField dto "retryDelay") (.number 5000)),
  ("retryBackoff", orDefault (retryField dto "retryBackoff") (.string "EXPONENTIAL")),
  ("retryOn", orDefault (retryField dto "retryOn") (.array []))]

/-- **What `JobRepository.create` inserts**, in the limited columns. -/
def insertedColumns (dto : Json) : Option LimitedColumns :=
  (integer readInteger (orDefault (dto.get "timeoutMs") (.number 300000))).bind fun timeoutMs =>
    (smallint readInteger (orDefault (retryField dto "maxRetries") (.number 3))).map
      fun maxRetries => ⟨timeoutMs, maxRetries, (retryConfig dto).stored⟩

/-- The `dto` of `POST /jobs`. -/
def submitted (user : AuthUser) (body : Json) : Json :=
  body.withFields [("organizationId", .string user.organizationId),
    ("createdBy", .string user.userId)]

/-- The fields of the `jobDto` of a tick that the template gives. -/
def jobDto (jobTemplate : Json) : Json := .object
  (field "type" (jobTemplate.get "type") ++ field "payload" (jobTemplate.get "payload") ++
    field "priority" (jobTemplate.get "priority") ++
    field "timeoutMs" (jobTemplate.get "timeoutMs") ++
    field "retryConfig" (jobTemplate.get "retryConfig"))

/-! ## The values of the typed model -/

def RetryBackoff.toText : RetryBackoff → String
  | fixed => "FIXED"
  | exponential => "EXPONENTIAL"
  | jitter => "JITTER"

def RetryConfig.toJson (c : RetryConfig) : Json := .object [
  ("maxRetries", .number c.maxRetries),
  ("retryDelay", .number c.retryDelay),
  ("retryBackoff", .string c.retryBackoff.toText),
  ("retryOn", .array (c.retryOn.map .string))]

def PartialRetryConfig.toJson (c : PartialRetryConfig) : Json := .object
  (field "maxRetries" (c.maxRetries.map fun n => .number n) ++
    field "retryDelay" (c.retryDelay.map fun n => .number n) ++
    field "retryBackoff" (c.retryBackoff.map fun b => .string b.toText) ++
    field "retryOn" (c.retryOn.map fun codes => .array (codes.map .string)))

/-- The fields of a `CreateJobDto` that the limits are about. -/
def CreateJobDto.toJson (dto : CreateJobDto) : Json := .object
  (field "timeoutMs" (dto.timeoutMs.map fun n => .number n) ++
    field "retryConfig" (dto.retryConfig.map PartialRetryConfig.toJson))

/-- The fields of a template that the limits are about. -/
def JobTemplate.toJson (jobTemplate : JobTemplate) : Json := .object
  [("timeoutMs", .number jobTemplate.timeoutMs),
    ("retryConfig", jobTemplate.retryConfig.toJson)]

theorem retryField_toJson (dto : CreateJobDto) (key : String) :
    retryField dto.toJson key = dto.retryConfig.bind fun c => c.toJson.get key := by
  rw [retryField, CreateJobDto.toJson]
  cases dto.timeoutMs <;> cases dto.retryConfig <;> rfl

theorem get_toJson (c : PartialRetryConfig) :
    c.toJson.get "maxRetries" = c.maxRetries.map (fun n => .number n) ∧
      c.toJson.get "retryDelay" = c.retryDelay.map (fun n => .number n) ∧
      c.toJson.get "retryBackoff" = c.retryBackoff.map (fun b => .string b.toText) ∧
      c.toJson.get "retryOn" = c.retryOn.map fun codes => .array (codes.map .string) := by
  unfold PartialRetryConfig.toJson
  cases c.maxRetries <;> cases c.retryDelay <;> cases c.retryBackoff <;> cases c.retryOn <;>
    exact ⟨rfl, rfl, rfl, rfl⟩

theorem orDefault_map {α : Type} {f : α → Json} (hf : ∀ a, given (some (f a)) = some (f a))
    (o : Option α) (default : α) : orDefault (o.map f) (f default) = f (o.getD default) := by
  cases o with
  | none => rfl
  | some a => rw [Option.map_some, orDefault, hf, Option.getD_some, Option.getD_some]

theorem orDefault_retryField {α : Type} {f : α → Json} (dto : CreateJobDto) {key : String}
    (hf : ∀ a, given (some (f a)) = some (f a)) {o : PartialRetryConfig → Option α}
    (ho : ∀ c, c.toJson.get key = (o c).map f) (default : α) :
    orDefault (retryField dto.toJson key) (f default) =
      f ((dto.retryConfig.bind o).getD default) := by
  have hmap : retryField dto.toJson key = (dto.retryConfig.bind o).map f := by
    rw [retryField_toJson]
    cases dto.retryConfig with
    | none => rfl
    | some c => exact ho c
  rw [hmap, orDefault_map hf]

theorem storedItems_strings (codes : List String) :
    storedItems (codes.map .string) = codes.map .string := by
  induction codes with
  | nil => rfl
  | cons s codes ih => rw [List.map_cons, storedItems, ih, stored]

theorem maxRetries_toJson (dto : CreateJobDto) (id : JobId) (now : Time) :
    orDefault (retryField dto.toJson "maxRetries") (.number 3) =
      .number (JobRepository.newRow id now dto).maxRetries :=
  orDefault_retryField dto (fun _ => rfl) (fun c => (get_toJson c).1) 3

theorem retryConfig_toJson (dto : CreateJobDto) (id : JobId) (now : Time) :
    (retryConfig dto.toJson).stored = (JobRepository.newRow id now dto).retryConfig.toJson := by
  have hdelay : orDefault (retryField dto.toJson "retryDelay") (.number 5000) =
      .number (JobRepository.newRow id now dto).retryConfig.retryDelay :=
    orDefault_retryField dto (fun _ => rfl) (fun c => (get_toJson c).2.1) 5000
  have hbackoff : orDefault (retryField dto.toJson "retryBackoff") (.string "EXPONENTIAL") =
      .string (JobRepository.newRow id now dto).retryConfig.retryBackoff.toText :=
    orDefault_retryField dto (f := fun b : RetryBackoff => .string b.toText) (fun _ => rfl)
      (fun c => (get_toJson c).2.2.1) .exponential
  have hon : orDefault (retryField dto.toJson "retryOn") (.array []) =
      .array ((JobRepository.newRow id now dto).retryConfig.retryOn.map .string) :=
    orDefault_retryField dto (f := fun codes : List String => .array (codes.map .string))
      (fun _ => rfl) (fun c => (get_toJson c).2.2.2) []
  rw [retryConfig, maxRetries_toJson dto id now, hdelay, hbackoff, hon]
  simp only [stored, storedFields, storedItems_strings]
  rfl

/-- The limited columns of a row of the typed model. -/
def Job.limitedColumns (r : Job) : LimitedColumns :=
  ⟨r.timeoutMs, r.maxRetries, r.retryConfig.toJson⟩

/-- **The columns are those of the typed `create`**, when its numbers fit in them. -/
theorem insertedColumns_toJson (dto : CreateJobDto) (id : JobId) (now : Time)
    (hlow : -2 ^ 31 ≤ (JobRepository.newRow id now dto).timeoutMs)
    (ht : (JobRepository.newRow id now dto).timeoutMs < 2 ^ 31)
    (hm : ((JobRepository.newRow id now dto).maxRetries : ℤ) < 2 ^ 15) :
    insertedColumns readInteger dto.toJson =
      some (JobRepository.newRow id now dto).limitedColumns := by
  have htimeout : orDefault (dto.toJson.get "timeoutMs") (.number 300000) =
      .number (JobRepository.newRow id now dto).timeoutMs := by
    have hget : dto.toJson.get "timeoutMs" = dto.timeoutMs.map fun n => .number n := by
      unfold CreateJobDto.toJson
      cases dto.timeoutMs <;> cases dto.retryConfig <;> rfl
    rw [hget]
    exact orDefault_map (f := fun n : ℤ => .number n) (fun _ => rfl) dto.timeoutMs 300000
  rw [insertedColumns, htimeout, integer, integerColumn_intCast hlow ht, Option.bind_some,
    maxRetries_toJson dto id now, smallint, integerColumn_natCast hm, Option.map_some,
    retryConfig_toJson dto id now]
  rfl

/-- **The `jobDto` of a template is that of the typed tick.** -/
theorem jobDto_toJson (schedule : Schedule) (now : Time) :
    insertedColumns readInteger (jobDto schedule.jobTemplate.toJson) =
      insertedColumns readInteger (CronScheduler.jobDto schedule now).toJson := by
  rfl

/-! ## The run -/

/-- **The state**: the templates of the schedules, and the rows of the jobs. -/
structure Admission where
  templates : List Json
  jobs : List LimitedColumns

namespace Admission

/-- An accepted `POST /jobs` or `POST /schedules`, and a tick that creates the job of a schedule. -/
inductive Event
  | createJob (user : AuthUser) (body : Json)
  | createSchedule (body : Json)
  | tick (schedule : ℕ)

def init : Admission := ⟨[], []⟩

def insert (s : Admission) (dto : Json) : Option Admission :=
  (insertedColumns readInteger dto).map fun row => { s with jobs := s.jobs ++ [row] }

def step (s : Admission) : Event → Option Admission
  | .createJob user body =>
      if joi.accepts jobSchemas.create body then s.insert readInteger (submitted user body)
      else none
  | .createSchedule body =>
      if joi.accepts scheduleSchemas.create body then
        (body.get "jobTemplate").map fun jobTemplate =>
          { s with templates := s.templates ++ [jobTemplate.stored] }
      else none
  | .tick schedule =>
      s.templates[schedule]?.bind fun jobTemplate => s.insert readInteger (jobDto jobTemplate)

end Admission

/-! ## The limits -/

/-- The number that a value stands for; `texts` says whether a text stands for one. -/
def delayOf (texts : Bool) (v : Json) : Option ℚ :=
  v.number?.or (if texts then v.string?.bind joi.toNumber else none)

def retryBackoffs : List String := ["FIXED", "EXPONENTIAL", "JITTER"]

/-- **The limits that the creation of a job validates**, of a row. -/
structure WithinLimits (texts : Bool) (row : LimitedColumns) : Prop where
  timeoutMs : 1000 ≤ row.timeoutMs ∧ row.timeoutMs ≤ 3600000
  maxRetries : 0 ≤ row.maxRetries ∧ row.maxRetries ≤ 10
  retryDelay : ∃ x ∈ (row.retryConfig.get "retryDelay").bind (delayOf joi texts),
    100 ≤ x ∧ x ≤ 300000
  retryBackoff : ∃ s ∈ (row.retryConfig.get "retryBackoff").bind string?, s ∈ retryBackoffs

/-- The limits, of the fields that a body or a template gives; the others have their defaults. -/
structure FieldsWithin (texts : Bool) (dto : Json) : Prop where
  timeoutMs : ∀ v ∈ given (dto.get "timeoutMs"), ∀ n ∈ integer readInteger v,
    1000 ≤ n ∧ n ≤ 3600000
  maxRetries : ∀ v ∈ given (retryField dto "maxRetries"), ∀ n ∈ smallint readInteger v,
    0 ≤ n ∧ n ≤ 10
  retryDelay : ∀ v ∈ given (retryField dto "retryDelay"), ∃ x ∈ delayOf joi texts v,
    100 ≤ x ∧ x ≤ 300000
  retryBackoff : ∀ v ∈ given (retryField dto "retryBackoff"), ∃ s ∈ v.string?, s ∈ retryBackoffs

variable {joi readInteger} {texts : Bool} {dto dto' body v : Json} {row : LimitedColumns}

theorem delayOf_stored : delayOf joi texts v.stored = delayOf joi texts v := by
  rw [delayOf, delayOf, number?_stored, string?_stored]

theorem orDefault_iff {P : Json → Prop} {o : Option Json} {d : Json} (h : P d) :
    P (orDefault o d) ↔ ∀ v ∈ given o, P v := by
  rw [orDefault]
  cases given o with
  | none => exact iff_of_true h fun v hv => absurd hv (Option.not_mem_none v)
  | some v => simp only [Option.getD_some, Option.mem_some_iff, forall_eq']

theorem integerColumn_within_iff {bound lo hi n : ℤ} {o : Option Json} {d : ℕ}
    (hbound : (d : ℤ) < bound) (hd : lo ≤ d ∧ (d : ℤ) ≤ hi)
    (h : integerColumn readInteger bound (orDefault o (.number d)) = some n) :
    (lo ≤ n ∧ n ≤ hi) ↔
      ∀ v ∈ given o, ∀ m ∈ integerColumn readInteger bound v, lo ≤ m ∧ m ≤ hi := by
  rw [← orDefault_iff (P := fun v => ∀ m ∈ integerColumn readInteger bound v, lo ≤ m ∧ m ≤ hi)
    (d := .number d), h]
  · simp only [Option.mem_some_iff, forall_eq']
  · intro m hm
    obtain rfl := Option.some.inj ((integerColumn_natCast hbound).symm.trans hm)
    exact hd

theorem retryDelay_within_iff :
    (∃ x ∈ ((retryConfig dto).stored.get "retryDelay").bind (delayOf joi texts),
      100 ≤ x ∧ x ≤ 300000) ↔
      ∀ v ∈ given (retryField dto "retryDelay"), ∃ x ∈ delayOf joi texts v,
        100 ≤ x ∧ x ≤ 300000 := by
  rw [← orDefault_iff (P := fun v => ∃ x ∈ delayOf joi texts v, 100 ≤ x ∧ x ≤ 300000)
    (d := .number 5000) ⟨5000, rfl, by decide +kernel⟩, get_stored]
  change (∃ x ∈ delayOf joi texts (orDefault _ _).stored, _) ↔ _
  rw [delayOf_stored]

theorem retryBackoff_within_iff :
    (∃ s ∈ ((retryConfig dto).stored.get "retryBackoff").bind string?, s ∈ retryBackoffs) ↔
      ∀ v ∈ given (retryField dto "retryBackoff"), ∃ s ∈ v.string?, s ∈ retryBackoffs := by
  rw [← orDefault_iff (P := fun v => ∃ s ∈ v.string?, s ∈ retryBackoffs)
    (d := .string "EXPONENTIAL") ⟨"EXPONENTIAL", rfl, by decide⟩, get_stored]
  change (∃ s ∈ (orDefault _ _).stored.string?, _) ↔ _
  rw [string?_stored]

/-- **A row is within the limits** exactly when the fields it is created from are. -/
theorem withinLimits_iff (h : insertedColumns readInteger dto = some row) :
    WithinLimits joi texts row ↔ FieldsWithin joi readInteger texts dto := by
  obtain ⟨timeoutMs, ht, h⟩ := Option.bind_eq_some_iff.mp h
  obtain ⟨maxRetries, hm, rfl⟩ := Option.map_eq_some_iff.mp h
  have htimeout : (1000 ≤ timeoutMs ∧ timeoutMs ≤ 3600000) ↔ _ :=
    integerColumn_within_iff (d := 300000) (by decide) (by decide) ht
  have hretries : (0 ≤ maxRetries ∧ maxRetries ≤ 10) ↔ _ :=
    integerColumn_within_iff (d := 3) (by decide) (by decide) hm
  constructor
  · intro h
    exact ⟨htimeout.mp h.timeoutMs, hretries.mp h.maxRetries,
      retryDelay_within_iff.mp h.retryDelay, retryBackoff_within_iff.mp h.retryBackoff⟩
  · intro h
    exact ⟨htimeout.mpr h.timeoutMs, hretries.mpr h.maxRetries,
      retryDelay_within_iff.mpr h.retryDelay, retryBackoff_within_iff.mpr h.retryBackoff⟩

/-! ## What a body or a template gives -/

theorem retryField_congr (h : dto.get "retryConfig" = dto'.get "retryConfig") (key : String) :
    retryField dto key = retryField dto' key := by
  rw [retryField, retryField, h]

theorem FieldsWithin.congr (ht : dto.get "timeoutMs" = dto'.get "timeoutMs")
    (hr : dto.get "retryConfig" = dto'.get "retryConfig")
    (h : FieldsWithin joi readInteger texts dto) : FieldsWithin joi readInteger texts dto' where
  timeoutMs := ht ▸ h.timeoutMs
  maxRetries := retryField_congr hr _ ▸ h.maxRetries
  retryDelay := retryField_congr hr _ ▸ h.retryDelay
  retryBackoff := retryField_congr hr _ ▸ h.retryBackoff

theorem fieldsWithin_submitted {user : AuthUser} :
    FieldsWithin joi readInteger texts (submitted user body) ↔
      FieldsWithin joi readInteger texts body := by
  have ht : (submitted user body).get "timeoutMs" = body.get "timeoutMs" := get_withFields ..
  have hr : (submitted user body).get "retryConfig" = body.get "retryConfig" := get_withFields ..
  exact ⟨.congr ht hr, .congr ht.symm hr.symm⟩

theorem get_jobDto (jobTemplate : Json) :
    (jobDto jobTemplate).get "timeoutMs" = jobTemplate.get "timeoutMs" ∧
      (jobDto jobTemplate).get "retryConfig" = jobTemplate.get "retryConfig" := by
  unfold jobDto
  cases jobTemplate.get "type" <;> cases jobTemplate.get "payload" <;>
    cases jobTemplate.get "priority" <;> cases jobTemplate.get "timeoutMs" <;>
    cases jobTemplate.get "retryConfig" <;> exact ⟨rfl, rfl⟩

theorem fieldsWithin_jobDto {jobTemplate : Json} :
    FieldsWithin joi readInteger texts (jobDto jobTemplate) ↔
      FieldsWithin joi readInteger texts jobTemplate := by
  obtain ⟨ht, hr⟩ := get_jobDto jobTemplate
  exact ⟨.congr ht hr, .congr ht.symm hr.symm⟩

/-! ## What the schema of a job admits -/

variable (joi readInteger) in
/-- A text that both the validator and an integer column read is the same number for both. -/
def ReadAlike : Prop :=
  ∀ (s : String) (n : ℤ) (x : ℚ), readInteger s = some n → joi.toNumber s = some x → x = n

variable (texts) in
/-- The delay between retries is not given as a text, or a text stands for a number. -/
def DelayReadable (dto : Json) : Prop :=
  texts = true ∨ ∀ v ∈ given (retryField dto "retryDelay"), v.string? = none

theorem mem_delayOf {x : ℚ} (ht : texts = true ∨ v.string? = none)
    (hx : v.number? = some x ∨ v.string?.bind joi.toNumber = some x) : x ∈ delayOf joi texts v := by
  cases v with
  | number y => exact hx.resolve_right nofun
  | string s =>
      obtain rfl : texts = true := ht.resolve_right nofun
      exact hx.resolve_left nofun
  | null | bool | infinite | array | object => exact (hx.elim nofun nofun)

theorem integerColumn_within (hread : ReadAlike joi readInteger) {bound lo hi n : ℤ}
    (h : joi.accepts (.number true (some lo) (some hi)) v = true)
    (hn : integerColumn readInteger bound v = some n) : lo ≤ n ∧ n ≤ hi := by
  obtain ⟨x, hx, hlo, hhi⟩ := joi.number h
  have heq : x = n := by
    cases v with
    | number y =>
        obtain rfl : y = x := Option.some.inj (hx.resolve_right nofun)
        rw [integerColumn] at hn
        split_ifs at hn with hden
        obtain rfl := Option.some.inj hn
        exact ((Rat.den_eq_one_iff y).mp hden.1).symm
    | string s =>
        obtain ⟨hs, -⟩ := Option.filter_eq_some_iff.mp hn
        exact hread s n x hs (hx.resolve_left nofun)
    | null | bool | infinite | array | object => cases hn
  rw [heq] at hlo hhi
  exact ⟨Rat.intCast_le_intCast.mp (hlo lo rfl), Rat.intCast_le_intCast.mp (hhi hi rfl)⟩

theorem accepts_timeoutMs (h : joi.accepts jobSchemas.create body = true)
    (hv : v ∈ given (body.get "timeoutMs")) :
    joi.accepts (.number true (some 1000) (some 3600000)) v = true :=
  joi.object h ("timeoutMs", false, _) (by simp) v (eq_some_of_mem_given hv)

theorem accepts_retryField (schema : Schema) (h : joi.accepts jobSchemas.create body = true)
    {key : String} (hv : v ∈ given (retryField body key))
    (hkey : (key, false, schema) ∈ retryConfigKeys) : joi.accepts schema v = true := by
  obtain ⟨config, hc, hv⟩ := Option.bind_eq_some_iff.mp (eq_some_of_mem_given hv)
  have hconfig : joi.accepts (.object retryConfigKeys) config = true :=
    joi.object h ("retryConfig", false, _) (by simp) config hc
  exact joi.object hconfig _ hkey v hv

/-- **An accepted body is within the limits** exactly when its delay is readable. -/
theorem fieldsWithin_of_accepts (hread : ReadAlike joi readInteger)
    (h : joi.accepts jobSchemas.create body = true) :
    FieldsWithin joi readInteger texts body ↔ DelayReadable texts body := by
  constructor
  · intro hw
    cases texts with
    | true => exact .inl rfl
    | false =>
        refine .inr fun v hv => ?_
        obtain ⟨x, hx, -⟩ := hw.retryDelay v hv
        cases v with
        | string s => cases hx
        | null | bool | number | infinite | array | object => rfl
  · intro hdelay
    refine ⟨fun v hv n hn => ?_, fun v hv n hn => ?_, fun v hv => ?_, fun v hv => ?_⟩
    · exact integerColumn_within hread (accepts_timeoutMs h hv) hn
    · exact integerColumn_within hread (accepts_retryField (.number true (some 0) (some 10)) h hv
        (by simp [retryConfigKeys])) hn
    · obtain ⟨x, hx, hlo, hhi⟩ := joi.number (accepts_retryField
        (.number true (some 100) (some 300000)) h hv (by simp [retryConfigKeys]))
      exact ⟨x, mem_delayOf (hdelay.imp_right fun hno => hno v hv) hx, hlo 100 rfl,
        hhi 300000 rfl⟩
    · exact joi.string (accepts_retryField (.string none retryBackoffs) h hv
        (by simp [retryConfigKeys, retryBackoffs])) (by decide)

/-! ## The runs -/

namespace Admission

variable (joi) in
def AllWithin (texts : Bool) (s : Admission) : Prop := ∀ row ∈ s.jobs, WithinLimits joi texts row

variable (joi readInteger) in
/-- **The step admits no job outside the limits**: the body has a readable delay; the fields that
the template gives are within the limits. -/
def KeepsLimits (texts : Bool) (s : Admission) : Event → Prop
  | .createJob _ body => DelayReadable texts body
  | .createSchedule _ => True
  | .tick schedule =>
      ∀ jobTemplate ∈ s.templates[schedule]?, FieldsWithin joi readInteger texts jobTemplate

variable {s s' : Admission} {e : Event}

theorem allWithin_insert (h : AllWithin joi texts s) (hs : s.insert readInteger dto = some s') :
    AllWithin joi texts s' ↔ FieldsWithin joi readInteger texts dto := by
  obtain ⟨row, hrow, rfl⟩ := Option.map_eq_some_iff.mp hs
  rw [← withinLimits_iff hrow]
  constructor
  · intro hall
    exact hall row (List.mem_append_right _ (List.mem_singleton_self row))
  · intro hw r hr
    rcases List.mem_append.mp hr with hr | hr
    · exact h r hr
    · exact List.mem_singleton.mp hr ▸ hw

/-- **A step keeps the rows within the limits** exactly when it admits no job outside them. -/
theorem allWithin_step (hread : ReadAlike joi readInteger) (h : AllWithin joi texts s)
    (hs : step joi readInteger s e = some s') :
    AllWithin joi texts s' ↔ KeepsLimits joi readInteger texts s e := by
  cases e with
  | createJob user body =>
      rw [step] at hs
      split_ifs at hs with hacc
      rw [allWithin_insert h hs, fieldsWithin_submitted]
      exact fieldsWithin_of_accepts hread hacc
  | createSchedule body =>
      rw [step] at hs
      split_ifs at hs with hacc
      obtain ⟨jobTemplate, -, rfl⟩ := Option.map_eq_some_iff.mp hs
      exact iff_of_true h trivial
  | tick schedule =>
      obtain ⟨jobTemplate, ht, hs⟩ := Option.bind_eq_some_iff.mp hs
      rw [allWithin_insert h hs, fieldsWithin_jobDto, KeepsLimits, ht]
      simp only [Option.mem_some_iff, forall_eq']

/-- **Every stored job is within the limits** all along a run exactly when no tick creates a job
from a template outside them and, if a text stands for no number, no body gives its delay as one. -/
theorem rows_within_limits_iff (hread : ReadAlike joi readInteger) {es : List Event}
    (h : Run (step joi readInteger) anyStep init es s) (texts : Bool) :
    Always (step joi readInteger) init (AllWithin joi texts) es ↔
      Run (step joi readInteger) (stateGuard (KeepsLimits joi readInteger texts)) init es s := by
  have hinit : AllWithin joi texts init := fun row hrow => absurd hrow List.not_mem_nil
  apply h.always_iff (I := fun _ => True) trivial hinit
  intro es s e s' _ hP _ hs
  exact ⟨trivial, allWithin_step hread hP hs⟩

/-! ## A job within the limits, and a template outside them -/

instance (dto : Json) (texts : Bool) : Decidable (DelayReadable texts dto) := by
  unfold DelayReadable; infer_instance

instance (texts : Bool) (dto : Json) :
    Decidable (FieldsWithin exactValidator readInteger texts dto) :=
  decidable_of_iff (_ ∧ _ ∧ _ ∧ _) ⟨fun ⟨h₁, h₂, h₃, h₄⟩ => ⟨h₁, h₂, h₃, h₄⟩,
    fun ⟨h₁, h₂, h₃, h₄⟩ => ⟨h₁, h₂, h₃, h₄⟩⟩

instance (s : Admission) (e : Event) (texts : Bool) :
    Decidable (KeepsLimits exactValidator readInteger texts s e) := by
  unfold KeepsLimits; split <;> infer_instance

def timedBody : Json := .object
  [("name", .string "a"), ("type", .string "CUSTOM"), ("payload", .object []),
    ("timeoutMs", .number 1000)]

/-- The body of a schedule, with the timeout of its jobs. -/
def scheduleBody (timeoutMs : ℚ) : Json := .object
  [("name", .string "nightly"), ("cronExpression", .string "0 0 * * *"),
    ("jobTemplate", .object
      [("type", .string "CUSTOM"), ("payload", .object []), ("timeoutMs", .number timeoutMs)])]

def writer : AuthUser := ⟨"writer", "org", ["jobs:write"], by decide⟩

/-- A job is submitted, and a tick creates another. -/
def admittedJobs : List Event :=
  [.createJob writer timedBody, .createSchedule (scheduleBody 60000), .tick 0]

theorem admitted_jobs_within : ∃ s,
    Run (step exactValidator fun _ => none) anyStep init admittedJobs s ∧
      s.jobs.map (·.timeoutMs) = [1000, 60000] ∧
      Always (step exactValidator fun _ => none) init (AllWithin exactValidator true)
        admittedJobs := by
  obtain ⟨s, hs, hp⟩ := exists_run_of_check (step exactValidator fun _ => none)
    (stateGuard (KeepsLimits exactValidator (fun _ => none) true)) init admittedJobs
    (fun s => s.jobs.map (·.timeoutMs) = [1000, 60000]) (by decide +kernel)
  have hrun : Run (step exactValidator fun _ => none) anyStep init admittedJobs s :=
    hs.mono fun _ _ _ _ => trivial
  refine ⟨s, hrun, of_decide_eq_true hp, ?_⟩
  exact (rows_within_limits_iff (fun _ _ _ hn => by cases hn) hrun true).mpr hs

/-- **A tick creates a job with a timeout of one millisecond.** -/
theorem template_exceeds_limits : ∃ s,
    Run (step exactValidator fun _ => none) anyStep init
      [.createSchedule (scheduleBody 1), .tick 0] s ∧ ¬ AllWithin exactValidator true s := by
  obtain ⟨s, hs, hp⟩ := exists_run_of_check (step exactValidator fun _ => none) anyStep init
    [.createSchedule (scheduleBody 1), .tick 0] (fun s => ∃ row ∈ s.jobs, row.timeoutMs < 1000)
    (by decide +kernel)
  obtain ⟨row, hrow, hlow⟩ := of_decide_eq_true hp
  exact ⟨s, hs, fun hall => absurd (hall row hrow).timeoutMs.1 (not_le.mpr hlow)⟩

end Admission

end TaskOrchestration

import Mathlib.Algebra.Ring.Int.Defs
import Mathlib.Algebra.Ring.Nat
import Mathlib.Data.List.Induction
import TaskOrchestration.Job.Repository

set_option autoImplicit false

/-!
# The columns of a job

An update is an object of JavaScript: its keys are renamed to columns, its objects are written as
texts, and PostgreSQL reads each value as the type of its column says, or refuses the statement.
`JobRepository.toRow` is what comes of it.

* `JobColumn`, `ColumnType`: the table `jobs`; `SqlValue`, `Row`;
* `JsValue`, `columnName`, `toRow`: the object that is sent; `Codec`, `ColumnType.read`,
  **`sqlUpdate`**: what PostgreSQL does with it;
* `columns`, `fromRow`, **`fromRow_columns`**: a job, column by column, and back;
* `DtoField`, `entries`, `lookup_toRow`: the object of an `UpdateJobDto`;
* `Fits`; **`update_refines`**.
-/

namespace TaskOrchestration.JobRepository.Columns

open TaskOrchestration

/-! ## The table -/

inductive JobColumn
  | id | name | description | type | payload | status | priority
  | scheduledAt | cronExpression | timezone | nextRunAt | lastRunAt
  | workerId | startedAt | completedAt | timeoutMs
  | retryConfig | retryCount | maxRetries
  | dependencies | dependencyCount | resolvedDependencyCount
  | result | errorMessage | errorStack | exitCode
  | organizationId | createdBy | tags | metadata | createdAt | updatedAt
  deriving DecidableEq, Repr

namespace JobColumn

def sqlName : JobColumn → String
  | id => "id"
  | name => "name"
  | description => "description"
  | type => "type"
  | payload => "payload"
  | status => "status"
  | priority => "priority"
  | scheduledAt => "scheduled_at"
  | cronExpression => "cron_expression"
  | timezone => "timezone"
  | nextRunAt => "next_run_at"
  | lastRunAt => "last_run_at"
  | workerId => "worker_id"
  | startedAt => "started_at"
  | completedAt => "completed_at"
  | timeoutMs => "timeout_ms"
  | retryConfig => "retry_config"
  | retryCount => "retry_count"
  | maxRetries => "max_retries"
  | dependencies => "dependencies"
  | dependencyCount => "dependency_count"
  | resolvedDependencyCount => "resolved_dependency_count"
  | result => "result"
  | errorMessage => "error_message"
  | errorStack => "error_stack"
  | exitCode => "exit_code"
  | organizationId => "organization_id"
  | createdBy => "created_by"
  | tags => "tags"
  | metadata => "metadata"
  | createdAt => "created_at"
  | updatedAt => "updated_at"

def all : List JobColumn :=
  [id, name, description, type, payload, status, priority, scheduledAt, cronExpression, timezone,
    nextRunAt, lastRunAt, workerId, startedAt, completedAt, timeoutMs, retryConfig, retryCount,
    maxRetries, dependencies, dependencyCount, resolvedDependencyCount, result, errorMessage,
    errorStack, exitCode, organizationId, createdBy, tags, metadata, createdAt, updatedAt]

theorem mem_all (c : JobColumn) : c ∈ all := by
  cases c <;> decide

end JobColumn

inductive ColumnType
  | uuid | varchar (n : ℕ) | text | enum (labels : List String) | jsonb | timestamptz
  | integer | smallint | textArray
  deriving DecidableEq, Repr

def statusLabels : List String :=
  ["PENDING", "QUEUED", "RUNNING", "COMPLETED", "FAILED", "RETRYING", "CANCELLED", "TIMED_OUT",
    "SKIPPED"]

def priorityLabels : List String := ["CRITICAL", "HIGH", "MEDIUM", "LOW", "BACKGROUND"]

def typeLabels : List String :=
  ["HTTP_REQUEST", "SHELL_COMMAND", "DATA_PIPELINE", "EMAIL_NOTIFICATION", "REPORT_GENERATION",
    "FILE_PROCESSING", "DATABASE_CLEANUP", "WEBHOOK", "CUSTOM"]

namespace JobColumn

def columnType : JobColumn → ColumnType
  | id | workerId | organizationId | createdBy => .uuid
  | name => .varchar 255
  | cronExpression | timezone => .varchar 100
  | description | errorMessage | errorStack => .text
  | type => .enum typeLabels
  | status => .enum statusLabels
  | priority => .enum priorityLabels
  | payload | retryConfig | dependencies | result | metadata => .jsonb
  | scheduledAt | nextRunAt | lastRunAt | startedAt | completedAt | createdAt | updatedAt =>
      .timestamptz
  | timeoutMs => .integer
  | retryCount | maxRetries | dependencyCount | resolvedDependencyCount | exitCode => .smallint
  | tags => .textArray

def notNull : JobColumn → Bool
  | description | scheduledAt | cronExpression | nextRunAt | lastRunAt | workerId | startedAt
  | completedAt | result | errorMessage | errorStack | exitCode => false
  | _ => true

end JobColumn

/-- A JSON value of a job, as the code casts it. -/
inductive JsonValue
  | object (fields : JsonObject)
  | retryConfig (config : RetryConfig)
  | dependencies (dependencies : List JobDependency)
  deriving DecidableEq, Repr

inductive SqlValue
  | null
  | text (s : String)
  | number (x : ℤ)
  | timestamp (t : Time)
  | json (v : JsonValue)
  | texts (ts : List String)
  deriving DecidableEq, Repr

abbrev Row := JobColumn → SqlValue

/-! ## What is sent -/

/-- A value of a field in JavaScript. -/
inductive JsValue
  | undefined | null
  | text (s : String)
  | number (x : ℤ)
  | date (t : Time)
  | json (v : JsonValue)
  deriving DecidableEq, Repr

/-- The `map` of `toRow`. -/
def fieldMap : List (String × String) :=
  [("scheduledAt", "scheduled_at"), ("cronExpression", "cron_expression"),
    ("nextRunAt", "next_run_at"), ("lastRunAt", "last_run_at"), ("workerId", "worker_id"),
    ("startedAt", "started_at"), ("completedAt", "completed_at"), ("timeoutMs", "timeout_ms"),
    ("retryConfig", "retry_config"), ("retryCount", "retry_count"),
    ("maxRetries", "max_retries"), ("dependencyCount", "dependency_count"),
    ("resolvedDependencyCount", "resolved_dependency_count"), ("errorMessage", "error_message"),
    ("errorStack", "error_stack"), ("exitCode", "exit_code"),
    ("organizationId", "organization_id"), ("createdBy", "created_by"),
    ("createdAt", "created_at"), ("updatedAt", "updated_at")]

/-- `map[key] ?? key`. -/
def columnName (key : String) : String := (fieldMap.lookup key).getD key

/-- **What is outside the code**: `JSON.stringify`, and how PostgreSQL reads JSON texts, ids and
numerals. Of the text of an object it keeps the object, with the keys in an order of its own. -/
structure Codec where
  stringify : JsonValue → String
  jsonbIn : String → Option JsonValue
  keepObject : JsonObject → Option JsonObject
  uuidIn : String → Option String
  integerIn : String → Option ℤ
  jsonbIn_stringify : ∀ o, jsonbIn (stringify (.object o)) = (keepObject o).map .object

variable (codec : Codec)

/-- An object becomes a text; every other value stays. -/
def stringified : JsValue → JsValue
  | .json v => .text (codec.stringify v)
  | v => v

/-- `row[col] = value`. -/
def setProperty (row : List (String × JsValue)) (col : String) (value : JsValue) :
    List (String × JsValue) :=
  (col, value) :: row.filter fun entry => entry.1 ≠ col

/-- What the loop of `toRow` does with one entry. -/
def addEntry (row : List (String × JsValue)) (entry : String × JsValue) :
    List (String × JsValue) :=
  if entry.2 = .undefined then row
  else setProperty row (columnName entry.1) (stringified codec entry.2)

/-- **`toRow`**: the entries of an object, in their order. -/
def toRow (data : List (String × JsValue)) : List (String × JsValue) :=
  data.foldl (addEntry codec) []

/-! ## What PostgreSQL does -/

/-- The text has no zero character, which PostgreSQL does not store. -/
def storableText (s : String) : Bool := !s.toList.contains (Char.ofNat 0)

/-- The number, if it is in the range of a type of so many bits. -/
def inRange (bits : ℕ) (x : ℤ) : Option SqlValue :=
  if -2 ^ (bits - 1) ≤ x ∧ x < 2 ^ (bits - 1) then some (.number x) else none

/-- **How a value is read.** Of the values of a wrong type only the numerals in a text are. -/
def ColumnType.read : ColumnType → JsValue → Option SqlValue
  | .uuid, .text s => (codec.uuidIn s).map .text
  | .varchar n, .text s => if storableText s ∧ s.length ≤ n then some (.text s) else none
  | .text, .text s => if storableText s then some (.text s) else none
  | .enum labels, .text s => if s ∈ labels then some (.text s) else none
  | .jsonb, .text s => (codec.jsonbIn s).map .json
  | .timestamptz, .date t => some (.timestamp t)
  | .integer, .number x => inRange 32 x
  | .integer, .text s => (codec.integerIn s).bind (inRange 32)
  | .smallint, .number x => inRange 16 x
  | .smallint, .text s => (codec.integerIn s).bind (inRange 16)
  | _, _ => none

/-- The value of a column after an update: the old one, if nothing is assigned. -/
def JobColumn.assign (c : JobColumn) (old : SqlValue) : Option JsValue → Option SqlValue
  | none => some old
  | some .null => if c.notNull then none else some .null
  | some v => c.columnType.read codec v

/-- **`UPDATE`**: Knex refuses to set nothing, and PostgreSQL to set a column that is not there, or
to a value that does not fit. The trigger sets `updated_at`. -/
def sqlUpdate (now : Time) (assignments : List (String × JsValue)) (row : Row) : Option Row :=
  if assignments ≠ [] ∧
      (∀ entry ∈ assignments, entry.1 ∈ JobColumn.all.map JobColumn.sqlName) ∧
      ∀ c ∈ JobColumn.all, (c.assign codec (row c) (assignments.lookup c.sqlName)).isSome then
    some fun c =>
      if c = .updatedAt then .timestamp now
      else (c.assign codec (row c) (assignments.lookup c.sqlName)).getD .null
  else none

/-! ## A job, column by column -/

def priorityText : JobPriority → String
  | .critical => "CRITICAL"
  | .high => "HIGH"
  | .medium => "MEDIUM"
  | .low => "LOW"
  | .background => "BACKGROUND"

/-- A column that may be `NULL`. -/
def optional {α : Type} (f : α → SqlValue) (o : Option α) : SqlValue := o.elim .null f

/-- A job with the two dates that nothing but `fromRow` reads. -/
structure DatedJob extends Job where
  nextRunAt : Option Time
  lastRunAt : Option Time
  deriving DecidableEq, Repr

def columns (r : DatedJob) : Row
  | .id => .text r.id
  | .name => .text r.name
  | .description => optional .text r.description
  | .type => .text r.type.toText
  | .payload => .json (.object r.payload)
  | .status => .text r.status.toText
  | .priority => .text (priorityText r.priority)
  | .scheduledAt => optional .timestamp r.scheduledAt
  | .cronExpression => optional .text r.cronExpression
  | .timezone => .text r.timezone
  | .nextRunAt => optional .timestamp r.nextRunAt
  | .lastRunAt => optional .timestamp r.lastRunAt
  | .workerId => optional .text r.workerId
  | .startedAt => optional .timestamp r.startedAt
  | .completedAt => optional .timestamp r.completedAt
  | .timeoutMs => .number r.timeoutMs
  | .retryConfig => .json (.retryConfig r.retryConfig)
  | .retryCount => .number r.retryCount
  | .maxRetries => .number r.maxRetries
  | .dependencies => .json (.dependencies r.dependencies)
  | .dependencyCount => .number r.dependencyCount
  | .resolvedDependencyCount => .number r.resolvedDependencyCount
  | .result => optional (fun o => .json (.object o)) r.result
  | .errorMessage => optional .text r.errorMessage
  | .errorStack => optional .text r.errorStack
  | .exitCode => optional .number r.exitCode
  | .organizationId => .text r.organizationId
  | .createdBy => .text r.createdBy
  | .tags => .texts r.tags
  | .metadata => .json (.object r.metadata)
  | .createdAt => .timestamp r.createdAt
  | .updatedAt => .timestamp r.updatedAt

namespace SqlValue

def text? : SqlValue → Option String
  | text s => some s
  | _ => none

def number? : SqlValue → Option ℤ
  | number x => some x
  | _ => none

def nat? (v : SqlValue) : Option ℕ := v.number?.bind Int.toNat?

def timestamp? : SqlValue → Option Time
  | timestamp t => some t
  | _ => none

def object? : SqlValue → Option JsonObject
  | json (.object fields) => some fields
  | _ => none

def retryConfig? : SqlValue → Option RetryConfig
  | json (.retryConfig config) => some config
  | _ => none

def dependencies? : SqlValue → Option (List JobDependency)
  | json (.dependencies deps) => some deps
  | _ => none

def texts? : SqlValue → Option (List String)
  | texts ts => some ts
  | _ => none

def label? {α : Type} (toText : α → String) (values : List α) (v : SqlValue) : Option α :=
  v.text?.bind fun s => values.find? fun a => toText a = s

def nullable {α : Type} (read : SqlValue → Option α) : SqlValue → Option (Option α)
  | null => some none
  | v => (read v).map some

end SqlValue

def statuses : List JobStatus :=
  [.pending, .queued, .running, .completed, .failed, .retrying, .cancelled, .timedOut, .skipped]

def priorities : List JobPriority := [.critical, .high, .medium, .low, .background]

def types : List JobType :=
  [.httpRequest, .shellCommand, .dataPipeline, .emailNotification, .reportGeneration,
    .fileProcessing, .databaseCleanup, .webhook, .custom]

/-- **`fromRow`.** The casts of the source fail here on a value of another type. -/
def fromRow (row : Row) : Option DatedJob := do
  let id ← (row .id).text?
  let name ← (row .name).text?
  let description ← (row .description).nullable SqlValue.text?
  let type ← (row .type).label? JobType.toText types
  let payload ← (row .payload).object?
  let status ← (row .status).label? JobStatus.toText statuses
  let priority ← (row .priority).label? priorityText priorities
  let scheduledAt ← (row .scheduledAt).nullable SqlValue.timestamp?
  let cronExpression ← (row .cronExpression).nullable SqlValue.text?
  let timezone ← (row .timezone).text?
  let nextRunAt ← (row .nextRunAt).nullable SqlValue.timestamp?
  let lastRunAt ← (row .lastRunAt).nullable SqlValue.timestamp?
  let workerId ← (row .workerId).nullable SqlValue.text?
  let startedAt ← (row .startedAt).nullable SqlValue.timestamp?
  let completedAt ← (row .completedAt).nullable SqlValue.timestamp?
  let timeoutMs ← (row .timeoutMs).number?
  let retryConfig ← (row .retryConfig).retryConfig?
  let retryCount ← (row .retryCount).nat?
  let maxRetries ← (row .maxRetries).nat?
  let dependencies ← (row .dependencies).dependencies?
  let dependencyCount ← (row .dependencyCount).nat?
  let resolvedDependencyCount ← (row .resolvedDependencyCount).nat?
  let result ← (row .result).nullable SqlValue.object?
  let errorMessage ← (row .errorMessage).nullable SqlValue.text?
  let errorStack ← (row .errorStack).nullable SqlValue.text?
  let exitCode ← (row .exitCode).nullable SqlValue.number?
  let organizationId ← (row .organizationId).text?
  let createdBy ← (row .createdBy).text?
  let tags ← (row .tags).texts?
  let metadata ← (row .metadata).object?
  let createdAt ← (row .createdAt).timestamp?
  let updatedAt ← (row .updatedAt).timestamp?
  return {
    id, name, description, type, payload, status, priority, scheduledAt, cronExpression, timezone,
    nextRunAt, lastRunAt, workerId, startedAt, completedAt, timeoutMs, retryConfig, retryCount,
    maxRetries, dependencies, dependencyCount, resolvedDependencyCount, result, errorMessage,
    errorStack, exitCode, organizationId, createdBy, tags, metadata, createdAt, updatedAt }

@[simp] theorem nullable_text (o : Option String) :
    (optional .text o).nullable SqlValue.text? = some o := by
  cases o <;> rfl

@[simp] theorem nullable_timestamp (o : Option Time) :
    (optional .timestamp o).nullable SqlValue.timestamp? = some o := by
  cases o <;> rfl

@[simp] theorem nullable_number (o : Option ℤ) :
    (optional .number o).nullable SqlValue.number? = some o := by
  cases o <;> rfl

@[simp] theorem nullable_object (o : Option JsonObject) :
    (optional (fun o => .json (.object o)) o).nullable SqlValue.object? = some o := by
  cases o <;> rfl

@[simp] theorem nat?_number (n : ℕ) : (SqlValue.number n).nat? = some n := rfl

@[simp] theorem label?_status (x : JobStatus) :
    (SqlValue.text x.toText).label? JobStatus.toText statuses = some x := by
  cases x <;> decide

@[simp] theorem label?_priority (x : JobPriority) :
    (SqlValue.text (priorityText x)).label? priorityText priorities = some x := by
  cases x <;> decide

@[simp] theorem label?_type (x : JobType) :
    (SqlValue.text x.toText).label? JobType.toText types = some x := by
  cases x <;> decide

theorem fromRow_columns (r : DatedJob) : fromRow (columns r) = some r := by
  simp only [fromRow, columns, nullable_text, nullable_timestamp, nullable_number, nullable_object,
    nat?_number, label?_status, label?_priority, label?_type, SqlValue.text?, SqlValue.object?,
    SqlValue.number?, SqlValue.retryConfig?, SqlValue.dependencies?, SqlValue.texts?,
    SqlValue.timestamp?, Option.bind_eq_bind, Option.bind_some]
  rfl

/-! ## The object of an update -/

inductive DtoField
  | status | workerId | startedAt | completedAt | result | errorMessage | errorStack | exitCode
  | retryCount | nextRunAt | lastRunAt | resolvedDependencyCount
  deriving DecidableEq, Repr

namespace DtoField

def key : DtoField → String
  | status => "status"
  | workerId => "workerId"
  | startedAt => "startedAt"
  | completedAt => "completedAt"
  | result => "result"
  | errorMessage => "errorMessage"
  | errorStack => "errorStack"
  | exitCode => "exitCode"
  | retryCount => "retryCount"
  | nextRunAt => "nextRunAt"
  | lastRunAt => "lastRunAt"
  | resolvedDependencyCount => "resolvedDependencyCount"

def column : DtoField → JobColumn
  | status => .status
  | workerId => .workerId
  | startedAt => .startedAt
  | completedAt => .completedAt
  | result => .result
  | errorMessage => .errorMessage
  | errorStack => .errorStack
  | exitCode => .exitCode
  | retryCount => .retryCount
  | nextRunAt => .nextRunAt
  | lastRunAt => .lastRunAt
  | resolvedDependencyCount => .resolvedDependencyCount

/-- **The keys are renamed to their columns.** -/
theorem columnName_key (f : DtoField) : columnName f.key = f.column.sqlName := by
  cases f <;> decide

theorem column_inj {f g : DtoField} (h : f.column = g.column) : f = g := by
  cases f <;> cases g <;> first | rfl | cases h

def all : List DtoField :=
  [status, workerId, startedAt, completedAt, result, errorMessage, errorStack, exitCode,
    retryCount, nextRunAt, lastRunAt, resolvedDependencyCount]

theorem mem_all (f : DtoField) : f ∈ all := by
  cases f <;> decide

end DtoField

theorem JobColumn.sqlName_inj {c d : JobColumn} (h : c.sqlName = d.sqlName) : c = d :=
  List.inj_on_of_nodup_map (l := JobColumn.all) (f := JobColumn.sqlName) (by decide)
    (mem_all c) (mem_all d) h

/-- An update, with the two dates that none of the callers gives. -/
structure DatedUpdate extends UpdateJobDto where
  nextRunAt : Option Time := none
  lastRunAt : Option Time := none
  deriving DecidableEq, Repr

/-- A field that may be missing. -/
def JsValue.ofOption {α : Type} (js : α → JsValue) (o : Option α) : JsValue :=
  (o.map js).getD .undefined

def value (dto : DatedUpdate) : DtoField → JsValue
  | .status => .ofOption (fun x => .text x.toText) dto.status
  | .workerId => .ofOption .text dto.workerId
  | .startedAt => .ofOption .date dto.startedAt
  | .completedAt => .ofOption .date dto.completedAt
  | .result => .ofOption (fun o => .json (.object o)) dto.result
  | .errorMessage => .ofOption .text dto.errorMessage
  | .errorStack => .ofOption .text dto.errorStack
  | .exitCode => .ofOption .number dto.exitCode
  | .retryCount => .ofOption (fun n => .number n) dto.retryCount
  | .nextRunAt => .ofOption .date dto.nextRunAt
  | .lastRunAt => .ofOption .date dto.lastRunAt
  | .resolvedDependencyCount => .ofOption (fun n => .number n) dto.resolvedDependencyCount

/-- The object literal of a dto, with the fields it lists. -/
def entries (dto : DatedUpdate) (fields : List DtoField) : List (String × JsValue) :=
  fields.map fun f => (f.key, value dto f)

theorem lookup_setProperty (row : List (String × JsValue)) (col : String) (v : JsValue)
    (name : String) : (setProperty row col v).lookup name =
      if name = col then some v else row.lookup name := by
  rw [setProperty, List.lookup_cons]
  by_cases hname : name = col
  · rw [if_pos hname, beq_iff_eq.mpr hname]
  · rw [if_neg hname, beq_eq_false_iff_ne.mpr hname]
    change (row.filter fun entry => entry.1 ≠ col).lookup name = row.lookup name
    induction row with
    | nil => rfl
    | cons entry row ih =>
        rw [List.filter_cons, List.lookup_cons]
        split_ifs with hcol
        · rw [List.lookup_cons, ih]
        · have hother : name ≠ entry.1 := fun h => hcol (decide_eq_true (h ▸ hname))
          rw [ih, beq_eq_false_iff_ne.mpr hother]

variable {codec} {dto : DatedUpdate} {fields : List DtoField}

variable (codec) in
def assigned (v : JsValue) : Option JsValue :=
  if v = .undefined then none else some (stringified codec v)

theorem lookup_addEntry (row : List (String × JsValue)) (f : DtoField) (name : String) :
    (addEntry codec row (f.key, value dto f)).lookup name =
      if name = f.column.sqlName ∧ value dto f ≠ .undefined then assigned codec (value dto f)
      else row.lookup name := by
  rw [addEntry, f.columnName_key, assigned]
  by_cases hu : value dto f = .undefined
  · rw [if_pos hu, if_neg fun h => h.2 hu]
  · rw [if_neg hu, lookup_setProperty, if_neg hu]
    simp only [ne_eq, hu, not_false_eq_true, and_true]

theorem toRow_concat (f : DtoField) : toRow codec (entries dto (fields ++ [f])) =
    addEntry codec (toRow codec (entries dto fields)) (f.key, value dto f) := by
  simp only [toRow, entries, List.map_append, List.foldl_append]
  rfl

/-- **What is assigned to the column of a field**: its value, if it is given. -/
theorem lookup_toRow (f : DtoField) :
    (toRow codec (entries dto fields)).lookup f.column.sqlName =
      if f ∈ fields then assigned codec (value dto f) else none := by
  -- over the fields from the last one on
  induction fields using List.reverseRecOn with
  | nil => simp [toRow, entries]
  | append_singleton fields g ih =>
      rw [toRow_concat, lookup_addEntry, ih]
      by_cases hg : f = g
      · subst hg
        by_cases hu : value dto f = .undefined <;> simp [hu, assigned]
      · have hname : f.column.sqlName ≠ g.column.sqlName := fun h =>
          hg (DtoField.column_inj (JobColumn.sqlName_inj h))
        simp [hname, hg]

theorem lookup_given (hall : ∀ f, value dto f ≠ .undefined → f ∈ fields) (f : DtoField) :
    (toRow codec (entries dto fields)).lookup f.column.sqlName = assigned codec (value dto f) := by
  rw [lookup_toRow]
  by_cases hu : value dto f = .undefined
  · rw [assigned, if_pos hu, ite_self]
  · rw [if_pos (hall f hu)]

theorem lookup_toRow_of_ne {c : JobColumn} (h : ∀ f : DtoField, f.column ≠ c) :
    (toRow codec (entries dto fields)).lookup c.sqlName = none := by
  induction fields using List.reverseRecOn with
  | nil => rfl
  | append_singleton fields g ih =>
      rw [toRow_concat, lookup_addEntry, ih, if_neg]
      rintro ⟨hname, -⟩
      exact h g (JobColumn.sqlName_inj hname).symm

theorem mem_toRow {entry : String × JsValue} (h : entry ∈ toRow codec (entries dto fields)) :
    ∃ f ∈ fields, value dto f ≠ .undefined ∧ entry.1 = f.column.sqlName := by
  induction fields using List.reverseRecOn with
  | nil => cases h
  | append_singleton fields g ih =>
      rw [toRow_concat, addEntry] at h
      split_ifs at h with hu
      · obtain ⟨f, hf, hv, he⟩ := ih h
        exact ⟨f, List.mem_append_left _ hf, hv, he⟩
      · rcases List.mem_cons.mp h with rfl | h
        · exact ⟨g, List.mem_append_right _ (List.mem_singleton_self g), hu, g.columnName_key⟩
        · obtain ⟨f, hf, hv, he⟩ := ih (List.mem_of_mem_filter h)
          exact ⟨f, List.mem_append_left _ hf, hv, he⟩

/-! ## The update of a row -/

variable (codec dto) in
def FieldFits : DtoField → Prop
  | .status | .startedAt | .completedAt | .nextRunAt | .lastRunAt => True
  | .workerId => ∀ id ∈ dto.workerId, (codec.uuidIn id).isSome = true
  | .result => ∀ o ∈ dto.result, (codec.keepObject o).isSome = true
  | .errorMessage => ∀ message ∈ dto.errorMessage, storableText message = true
  | .errorStack => ∀ stack ∈ dto.errorStack, storableText stack = true
  | .exitCode => ∀ x ∈ dto.exitCode, -2 ^ 15 ≤ x ∧ x < 2 ^ 15
  | .retryCount => ∀ n ∈ dto.retryCount, n < 2 ^ 15
  | .resolvedDependencyCount => ∀ n ∈ dto.resolvedDependencyCount, n < 2 ^ 15

instance : DecidablePred (FieldFits codec dto)
  | .status | .startedAt | .completedAt | .nextRunAt | .lastRunAt => .isTrue trivial
  | .workerId => inferInstanceAs (Decidable (∀ id ∈ dto.workerId, _))
  | .result => inferInstanceAs (Decidable (∀ o ∈ dto.result, _))
  | .errorMessage => inferInstanceAs (Decidable (∀ message ∈ dto.errorMessage, _))
  | .errorStack => inferInstanceAs (Decidable (∀ stack ∈ dto.errorStack, _))
  | .exitCode => inferInstanceAs (Decidable (∀ x ∈ dto.exitCode, _))
  | .retryCount => inferInstanceAs (Decidable (∀ n ∈ dto.retryCount, _))
  | .resolvedDependencyCount => inferInstanceAs (Decidable (∀ n ∈ dto.resolvedDependencyCount, _))

variable (codec dto) in
/-- **The update is accepted**: it sets something, and every value fits its column. -/
def Fits : Prop :=
  (∃ f ∈ DtoField.all, value dto f ≠ .undefined) ∧ ∀ f ∈ DtoField.all, FieldFits codec dto f

instance : Decidable (Fits codec dto) := by
  unfold Fits; infer_instance

variable (codec) in
/-- The update as PostgreSQL reads it: ids and objects in its own spelling. -/
def kept (dto : UpdateJobDto) : UpdateJobDto :=
  { dto with workerId := dto.workerId.bind codec.uuidIn
             result := dto.result.bind codec.keepObject }

variable (codec) in
def updated (now : Time) (dto : DatedUpdate) (r : DatedJob) : DatedJob where
  toJob := JobRepository.toRow now (kept codec dto.toUpdateJobDto) r.toJob
  nextRunAt := dto.nextRunAt.or r.nextRunAt
  lastRunAt := dto.lastRunAt.or r.lastRunAt

section Kinds

variable {c : JobColumn}

theorem assign_ofOption {α : Type} (old : SqlValue) {js : α → JsValue}
    (hjs : ∀ a, js a ≠ .undefined ∧ js a ≠ .null) (o : Option α) :
    c.assign codec old (assigned codec (.ofOption js o)) =
      o.elim (some old) fun a => c.columnType.read codec (stringified codec (js a)) := by
  cases o with
  | none => rfl
  | some a =>
      obtain ⟨hu, hn⟩ := hjs a
      have hs : stringified codec (js a) ≠ .null := by
        cases hv : js a <;> simp_all [stringified]
      rw [JsValue.ofOption, Option.map_some, Option.getD_some, assigned, if_neg hu]
      cases hv : stringified codec (js a) with
      | null => exact absurd hv hs
      | undefined | text | number | date | json => rw [Option.elim_some, hv]; rfl

theorem assign_date (hc : c.columnType = .timestamptz) (o old : Option Time) :
    c.assign codec (optional .timestamp old) (assigned codec (.ofOption .date o)) =
      some (optional .timestamp (o.or old)) := by
  rw [assign_ofOption _ (by simp), hc]
  cases o <;> rfl

theorem assign_text (hc : c.columnType = .text) (o old : Option String) :
    c.assign codec (optional .text old) (assigned codec (.ofOption .text o)) =
      if ∀ s ∈ o, storableText s = true then some (optional .text (o.or old)) else none := by
  rw [assign_ofOption _ (by simp), hc]
  cases o <;> simp [stringified, ColumnType.read, optional]

theorem assign_smallint (hc : c.columnType = .smallint) (o : Option ℤ) (old : SqlValue) :
    c.assign codec old (assigned codec (.ofOption .number o)) =
      if ∀ x ∈ o, -2 ^ 15 ≤ x ∧ x < 2 ^ 15 then some (o.elim old .number) else none := by
  rw [assign_ofOption _ (by simp), hc]
  cases o <;> simp [stringified, ColumnType.read, inRange]

theorem assign_count (hc : c.columnType = .smallint) (o : Option ℕ) (old : ℕ) :
    c.assign codec (.number old) (assigned codec (.ofOption (fun n => .number n) o)) =
      if ∀ n ∈ o, n < 2 ^ 15 then some (.number (o.getD old)) else none := by
  have h : c.assign codec (.number old) (assigned codec (.ofOption .number (o.map Nat.cast))) = _ :=
    assign_smallint hc (o.map Nat.cast) (.number old)
  cases o with
  | none => exact h
  | some n =>
      refine h.trans (if_congr ?_ rfl rfl)
      simp only [Option.map_some, Option.mem_some_iff, forall_eq']
      omega

end Kinds

/-- **One column of a field**: PostgreSQL reads what `updated` sets. -/
theorem assign_field (now : Time) (r : DatedJob) (f : DtoField) :
    f.column.assign codec (columns r f.column) (assigned codec (value dto f)) =
      if FieldFits codec dto f then some (columns (updated codec now dto r) f.column)
      else none := by
  cases f with
  | status =>
      refine (assign_ofOption _ (by simp) _).trans ?_
      have hlabel : ∀ x : JobStatus, x.toText ∈ statusLabels := by
        intro x; cases x <;> decide
      cases hx : dto.status <;>
        simp [hx, hlabel, FieldFits, columns, updated, JobRepository.toRow, kept, DtoField.column,
          JobColumn.columnType, ColumnType.read, stringified]
  | workerId =>
      refine (assign_ofOption _ (by simp) _).trans ?_
      cases hx : dto.workerId with
      | none =>
          simp [hx, FieldFits, columns, updated, JobRepository.toRow, kept, DtoField.column]
      | some id =>
          cases hid : codec.uuidIn id <;>
            simp [hx, hid, FieldFits, columns, updated, JobRepository.toRow, kept, optional,
              DtoField.column, JobColumn.columnType, ColumnType.read, stringified]
  | result =>
      refine (assign_ofOption _ (by simp) _).trans ?_
      cases hx : dto.result with
      | none =>
          simp [hx, FieldFits, columns, updated, JobRepository.toRow, kept, DtoField.column]
      | some o =>
          cases ho : codec.keepObject o <;>
            simp [hx, ho, FieldFits, columns, updated, JobRepository.toRow, kept, optional,
              DtoField.column, JobColumn.columnType, ColumnType.read, stringified,
              codec.jsonbIn_stringify]
  | startedAt => exact (assign_date rfl _ _).trans (if_pos trivial).symm
  | completedAt => exact (assign_date rfl _ _).trans (if_pos trivial).symm
  | nextRunAt => exact (assign_date rfl _ _).trans (if_pos trivial).symm
  | lastRunAt => exact (assign_date rfl _ _).trans (if_pos trivial).symm
  | errorMessage => exact assign_text rfl _ _
  | errorStack => exact assign_text rfl _ _
  | exitCode =>
      refine (assign_smallint rfl _ _).trans (if_congr Iff.rfl ?_ rfl)
      cases hx : dto.exitCode <;>
        simp [hx, columns, updated, JobRepository.toRow, kept, optional, DtoField.column]
  | retryCount => exact assign_count rfl _ _
  | resolvedDependencyCount => exact assign_count rfl _ _

theorem columns_toRow_of_ne {c : JobColumn} (h : ∀ f : DtoField, f.column ≠ c)
    (hc : c ≠ .updatedAt) (now : Time) (r : DatedJob) :
    columns (updated codec now dto r) c = columns r c := by
  cases c <;> first
    | rfl
    | exact absurd rfl hc
    | exact absurd rfl (h .status)
    | exact absurd rfl (h .workerId)
    | exact absurd rfl (h .startedAt)
    | exact absurd rfl (h .completedAt)
    | exact absurd rfl (h .result)
    | exact absurd rfl (h .errorMessage)
    | exact absurd rfl (h .errorStack)
    | exact absurd rfl (h .exitCode)
    | exact absurd rfl (h .retryCount)
    | exact absurd rfl (h .nextRunAt)
    | exact absurd rfl (h .lastRunAt)
    | exact absurd rfl (h .resolvedDependencyCount)

theorem assign_column (hall : ∀ f, value dto f ≠ .undefined → f ∈ fields) (now : Time)
    (r : DatedJob) {c : JobColumn} (hc : c ≠ .updatedAt)
    (hfits : ∀ f : DtoField, f.column = c → FieldFits codec dto f) :
    c.assign codec (columns r c) ((toRow codec (entries dto fields)).lookup c.sqlName) =
      some (columns (updated codec now dto r) c) := by
  by_cases hf : ∃ f : DtoField, f.column = c
  · obtain ⟨f, rfl⟩ := hf
    rw [lookup_given hall, assign_field now r f, if_pos (hfits f rfl)]
  · have hne : ∀ f : DtoField, f.column ≠ c := fun f h => hf ⟨f, h⟩
    rw [lookup_toRow_of_ne hne, columns_toRow_of_ne hne hc]
    rfl

theorem toRow_ne_nil (hall : ∀ f, value dto f ≠ .undefined → f ∈ fields) :
    toRow codec (entries dto fields) ≠ [] ↔ ∃ f ∈ DtoField.all, value dto f ≠ .undefined := by
  constructor
  · intro h
    obtain ⟨entry, hentry⟩ := List.exists_mem_of_ne_nil _ h
    obtain ⟨f, -, hv, -⟩ := mem_toRow hentry
    exact ⟨f, f.mem_all, hv⟩
  · rintro ⟨f, -, hv⟩ hnil
    have hlookup : (toRow codec (entries dto fields)).lookup f.column.sqlName =
        some (stringified codec (value dto f)) := by
      rw [lookup_given hall, assigned, if_neg hv]
    rw [hnil] at hlookup
    cases hlookup

theorem assign_isSome (hall : ∀ f, value dto f ≠ .undefined → f ∈ fields) (r : DatedJob) :
    (∀ c ∈ JobColumn.all, (c.assign codec (columns r c)
        ((toRow codec (entries dto fields)).lookup c.sqlName)).isSome) ↔
      ∀ f ∈ DtoField.all, FieldFits codec dto f := by
  constructor
  · intro h f _
    by_contra hf
    have hc := h f.column (JobColumn.mem_all _)
    rw [lookup_given hall, assign_field 0 r f, if_neg hf] at hc
    cases hc
  · intro h c _
    by_cases hc : c = .updatedAt
    · subst hc
      rw [lookup_toRow_of_ne (by intro f; cases f <;> decide)]
      rfl
    · rw [assign_column hall 0 r hc fun f _ => h f f.mem_all]
      rfl

/-- **The statement of `update`** does to a row what `updated` does to the job that it keeps, and
returns that job; it fails exactly on an update that sets nothing, or a value that does not fit its
column. -/
theorem update_refines (hall : ∀ f, value dto f ≠ .undefined → f ∈ fields) (now : Time)
    (r : DatedJob) :
    sqlUpdate codec now (toRow codec (entries dto fields)) (columns r) =
        (if Fits codec dto then some (columns (updated codec now dto r))
         else none) ∧
      (sqlUpdate codec now (toRow codec (entries dto fields)) (columns r)).bind fromRow =
        if Fits codec dto then some (updated codec now dto r) else none := by
  have hrow : sqlUpdate codec now (toRow codec (entries dto fields)) (columns r) =
      if Fits codec dto then some (columns (updated codec now dto r))
      else none := by
    have hnames : ∀ entry ∈ toRow codec (entries dto fields),
        entry.1 ∈ JobColumn.all.map JobColumn.sqlName := by
      intro entry hentry
      obtain ⟨f, -, -, hname⟩ := mem_toRow hentry
      exact hname ▸ List.mem_map_of_mem (JobColumn.mem_all _)
    have hfits : (toRow codec (entries dto fields) ≠ [] ∧
        (∀ entry ∈ toRow codec (entries dto fields),
          entry.1 ∈ JobColumn.all.map JobColumn.sqlName) ∧
        ∀ c ∈ JobColumn.all, (c.assign codec (columns r c)
          ((toRow codec (entries dto fields)).lookup c.sqlName)).isSome) ↔ Fits codec dto := by
      rw [Fits, toRow_ne_nil hall, ← assign_isSome hall r, and_iff_right hnames]
    by_cases h : Fits codec dto
    · rw [sqlUpdate, if_pos (hfits.mpr h), if_pos h]
      congr 1
      funext c
      by_cases hc : c = .updatedAt
      · rw [if_pos hc, hc]; rfl
      · rw [if_neg hc, assign_column hall now r hc fun f _ => h.2 f f.mem_all, Option.getD_some]
    · rw [sqlUpdate, if_neg (mt hfits.mp h), if_neg h]
  refine ⟨hrow, ?_⟩
  rw [hrow]
  split_ifs with h
  · rw [Option.bind_some, fromRow_columns]
  · rw [Option.bind_none]

/-- The text of an object whose keys need no escapes. -/
def stringifyPlain : JsonValue → String
  | .object fields =>
      "\x7b" ++ String.intercalate "," (fields.map fun field =>
        "\"" ++ field.1 ++ "\":" ++ field.2) ++ "\x7d"
  | _ => ""

def totalText : String := stringifyPlain (.object [("total", "3"), ("ok", "true")])

def jsonbInTotal (s : String) : Option JsonValue :=
  if s = totalText then some (.object [("ok", "true"), ("total", "3")]) else none

/-- A server that has met one object, whose shorter key it keeps first, and one id. -/
def plainCodec : Codec where
  stringify := stringifyPlain
  jsonbIn := jsonbInTotal
  keepObject o := if stringifyPlain (.object o) = totalText then
    some [("ok", "true"), ("total", "3")] else none
  uuidIn s := if s.toLower = "8f14e45f-ceea-467f-9575-1a2b3c4d5e6f" then some s.toLower else none
  integerIn := String.toInt?
  jsonbIn_stringify o := by
    rw [jsonbInTotal, apply_ite (Option.map JsonValue.object)]
    rfl

def doneDto : DatedUpdate where
  status := some .completed
  completedAt := some 9
  result := some [("total", "3"), ("ok", "true")]

def undatedJob : DatedJob where
  toJob := newRow "job1" 0
    { name := "n", type := .shellCommand, payload := [], organizationId := "o", createdBy := "u" }
  nextRunAt := none
  lastRunAt := none

/-- A worker writes what came of a job. -/
theorem done_row_kept :
    (sqlUpdate plainCodec 9 (toRow plainCodec
        (entries doneDto [.status, .completedAt, .result])) (columns undatedJob)).bind fromRow =
      some { undatedJob with
        status := .completed
        completedAt := some 9
        result := some [("ok", "true"), ("total", "3")]
        updatedAt := 9 } := by
  have hall : ∀ f, value doneDto f ≠ .undefined →
      f ∈ [DtoField.status, .completedAt, .result] := by
    intro f; cases f <;> decide
  rw [(update_refines hall 9 undatedJob).2, if_pos (by decide)]
  rfl

end TaskOrchestration.JobRepository.Columns

import Mathlib.Data.Int.Notation
import TaskOrchestration.Lib.Table

set_option autoImplicit false

/-!
# The job model

The data types of a job: its status, priority, type, retry configuration and dependencies, the
row of the `jobs` table, and the values that create and update it.

A date is its number of milliseconds. A JSON object is the list of its fields, each with the text
of its value. An optional field is an `Option`; in an `UpdateJobDto` `none` is `undefined`.
-/

namespace TaskOrchestration

/-- A job id: the text of a UUID. -/
abbrev JobId := String

/-- A date, in milliseconds. -/
abbrev Time := ℕ

/-- A JSON object: its fields and the texts of their values. -/
abbrev JsonObject := List (String × String)

inductive JobStatus
  | pending | queued | running | completed | failed | retrying | cancelled | timedOut | skipped
  deriving DecidableEq, Repr

def JobStatus.toText : JobStatus → String
  | pending => "PENDING"
  | queued => "QUEUED"
  | running => "RUNNING"
  | completed => "COMPLETED"
  | failed => "FAILED"
  | retrying => "RETRYING"
  | cancelled => "CANCELLED"
  | timedOut => "TIMED_OUT"
  | skipped => "SKIPPED"

inductive JobPriority
  | critical | high | medium | low | background
  deriving DecidableEq, Repr

inductive JobType
  | httpRequest | shellCommand | dataPipeline | emailNotification | reportGeneration
  | fileProcessing | databaseCleanup | webhook | custom
  deriving DecidableEq, Repr

def JobType.toText : JobType → String
  | httpRequest => "HTTP_REQUEST"
  | shellCommand => "SHELL_COMMAND"
  | dataPipeline => "DATA_PIPELINE"
  | emailNotification => "EMAIL_NOTIFICATION"
  | reportGeneration => "REPORT_GENERATION"
  | fileProcessing => "FILE_PROCESSING"
  | databaseCleanup => "DATABASE_CLEANUP"
  | webhook => "WEBHOOK"
  | custom => "CUSTOM"

def priorityWeight : JobPriority → ℕ
  | .critical => 100
  | .high => 75
  | .medium => 50
  | .low => 25
  | .background => 5

/-- The back-off strategy of a retry configuration. -/
inductive RetryBackoff
  | fixed | exponential | jitter
  deriving DecidableEq, Repr

structure RetryConfig where
  maxRetries : ℕ
  retryDelay : ℕ
  retryBackoff : RetryBackoff
  retryOn : List String
  deriving DecidableEq, Repr

structure PartialRetryConfig where
  maxRetries : Option ℕ := none
  retryDelay : Option ℕ := none
  retryBackoff : Option RetryBackoff := none
  retryOn : Option (List String) := none
  deriving DecidableEq, Repr

/-- A dependency: the job waited for, and the statuses that end the wait. -/
structure JobDependency where
  jobId : JobId
  requireStatus : List JobStatus
  deriving DecidableEq, Repr

/-- **A row of the `jobs` table.** -/
structure Job where
  id : JobId
  name : String
  description : Option String
  type : JobType
  payload : JsonObject
  status : JobStatus
  priority : JobPriority
  scheduledAt : Option Time
  cronExpression : Option String
  timezone : String
  workerId : Option String
  startedAt : Option Time
  completedAt : Option Time
  timeoutMs : ℤ
  retryConfig : RetryConfig
  retryCount : ℕ
  maxRetries : ℕ
  dependencies : List JobDependency
  dependencyCount : ℕ
  resolvedDependencyCount : ℕ
  result : Option JsonObject
  errorMessage : Option String
  errorStack : Option String
  exitCode : Option ℤ
  organizationId : String
  createdBy : String
  tags : List String
  metadata : JsonObject
  createdAt : Time
  updatedAt : Time
  deriving DecidableEq, Repr

/-- What a job is created from. -/
structure CreateJobDto where
  name : String
  description : Option String := none
  type : JobType
  payload : JsonObject
  priority : Option JobPriority := none
  scheduledAt : Option Time := none
  cronExpression : Option String := none
  timezone : Option String := none
  timeoutMs : Option ℤ := none
  retryConfig : Option PartialRetryConfig := none
  dependencies : Option (List JobDependency) := none
  tags : Option (List String) := none
  metadata : Option JsonObject := none
  organizationId : String
  createdBy : String
  deriving DecidableEq, Repr

/-- What an update of a job may set. -/
structure UpdateJobDto where
  status : Option JobStatus := none
  workerId : Option String := none
  startedAt : Option Time := none
  completedAt : Option Time := none
  result : Option JsonObject := none
  errorMessage : Option String := none
  errorStack : Option String := none
  exitCode : Option ℤ := none
  retryCount : Option ℕ := none
  resolvedDependencyCount : Option ℕ := none
  deriving DecidableEq, Repr

/-- The `jobs` table; `id` is its primary key. -/
abbrev JobTable := Table Job.id

end TaskOrchestration

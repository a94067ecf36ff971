import TaskOrchestration.Deps.Orders
import TaskOrchestration.Job.Listing
import TaskOrchestration.System.RetryService

set_option autoImplicit false

/-!
# The jobs routes

The routes of `/api/v1/jobs`, each run without interruption by a request that the rate limit and
the validation have let through.

* `AuthUser`, `authenticate`: who asks, and the scopes a route requires;
* `Request`, `Response`, `handleError`;
* `JobRoutes.handle`: what a route answers; `JobRoutes.step`: the server with its responses.
-/

namespace TaskOrchestration

open JobRepository LabelledRun

/-- A user of an organization, which has an id. The user of an API key is one: its column
`organization_id` is a UUID, and not null. The organization of a token is read from no column. -/
structure AuthUser where
  userId : String
  organizationId : String
  scopes : List String
  organization : organizationId ≠ ""
  deriving DecidableEq, Repr

def JobService.getJobHistory (st : Store) (id organizationId : String) :
    Except ServiceError (List ExecutionLog) :=
  (JobService.getJob st.jobs id organizationId).map fun _ =>
    ExecutionRepository.findByJobId st.logs id

namespace JobRoutes

/-- **A request.** A creation carries the body and the id that `generateId` gives; the ids of the
others are as PostgreSQL reads them. -/
inductive Request
  | create (body : CreateJobDto) (id : JobId)
  | list (query : JobFilter)
  | get (id : JobId)
  | history (id : JobId)
  | cancel (id : JobId)
  | bulkCancel (ids : List JobId)
  | retry (id : JobId)
  | dlqList
  | dlqReplay (dlqId : String)
  | dlqReplayAll
  deriving DecidableEq, Repr

/-- **A response**, with its data, or with an error. -/
inductive Response
  | job (code : ℕ) (job : Job)
  | jobs (page : PaginatedJobs)
  | history (logs : List ExecutionLog)
  | bulkCancelled (result : BulkCancelled)
  | summary (summary : DLQSummary)
  | replayedAll (replayed : ℕ)
  | replayed
  | insufficient (required granted : List String)
  | error (code : ℕ) (message : String)
  deriving DecidableEq, Repr

def handleError (e : ServiceError) : Response :=
  .error e.statusCode (if e.statusCode < 500 then e.message else "Internal server error")

/-- The response to a call of a service. -/
def respond {α : Type} (ok : α → Response) : Except ServiceError α → Response
  | .ok a => ok a
  | .error e => handleError e

def requiredScopes : Request → List String
  | .list _ | .get _ | .history _ | .dlqList => ["jobs:read"]
  | _ => ["jobs:write"]

/-- `authenticate`, of a user whose token or key is valid. -/
def Authorized (user : AuthUser) (request : Request) : Prop :=
  ∀ scope ∈ requiredScopes request, scope ∈ user.scopes

instance (user : AuthUser) (request : Request) : Decidable (Authorized user request) := by
  unfold Authorized; infer_instance

/-- The `dto` of `POST /jobs`. -/
def createDto (user : AuthUser) (body : CreateJobDto) : CreateJobDto :=
  { body with organizationId := user.organizationId, createdBy := user.userId }

/-- The `filter` of `GET /jobs`. -/
def listFilter (organizationId : Option String) (query : JobFilter) : JobFilter :=
  { query with
    organizationId := organizationId
    page := some (if query.page.getD 0 = 0 then 1 else query.page.getD 0)
    limit := some (if query.limit.getD 0 = 0 then 20 else query.limit.getD 0) }

variable (pg : Postgres) (cronError : String → String → Option String)

/-- **The server**: its store, the graph of its process, and the responses so far. -/
structure Server where
  store : Store
  graph : DependencyResolver.Graph
  responses : List Response

/-- `POST /jobs`. -/
def create (user : AuthUser) (now : Time) (s : Server) (body : CreateJobDto) (id : JobId) :
    Server × Response :=
  match Scheduler.createJob cronError ⟨s.store.jobs, s.graph⟩ id now (createDto user body) with
  | .ok (p, job) =>
      ({ s with store := { s.store with jobs := p.jobs }, graph := p.graph }, .job 201 job)
  | .error e => (s, handleError e)

/-- `PATCH /jobs/:id/cancel` and `POST /jobs/:id/retry`: a row is updated and shown. -/
def update (s : Server) (result : Except ServiceError (JobTable × Job)) : Server × Response :=
  match result with
  | .ok (t, job) => ({ s with store := { s.store with jobs := t } }, .job 200 job)
  | .error e => (s, handleError e)

/-- `POST /jobs/bulk/cancel`. -/
def bulkCancel (organizationId : String) (now : Time) (s : Server) (ids : List JobId) :
    Server × Response :=
  if ids = [] then (s, .error 422 "ids must be a non-empty array")
  else if 100 < ids.length then (s, .error 422 "Maximum 100 IDs per bulk operation")
  else
    let p := JobService.bulkCancel now organizationId s.store.jobs ids
    ({ s with store := { s.store with jobs := p.1 } }, .bulkCancelled p.2)

/-- `POST /jobs/dlq/:dlqId/replay`. -/
def dlqReplay (s : Server) (dlqId : String) : Server × Response :=
  match RetryService.replayDLQEntry s.store dlqId with
  | .ok st => ({ s with store := st }, .replayed)
  | .error e => (s, handleError e)

def handle (user : AuthUser) (now : Time) (s : Server) : Request → Server × Response
  | .create body id => create cronError user now s body id
  | .list query =>
      (s, .jobs (findMany pg s.store.jobs (listFilter (some user.organizationId) query)))
  | .get id => (s, respond (.job 200) (JobService.getJob s.store.jobs id user.organizationId))
  | .history id => (s, respond .history (JobService.getJobHistory s.store id user.organizationId))
  | .cancel id => update s (JobService.cancelJob s.store.jobs now id user.organizationId)
  | .bulkCancel ids => bulkCancel user.organizationId now s ids
  | .retry id => update s (JobService.retryJob s.store.jobs now id user.organizationId)
  | .dlqList => (s, .summary (RetryService.getDLQSummary s.store.dlq))
  | .dlqReplay dlqId => dlqReplay s dlqId
  | .dlqReplayAll =>
      let p := RetryService.replayAllDLQ s.store
      ({ s with store := p.1 }, .replayedAll p.2)

structure Asked where
  user : AuthUser
  now : Time
  request : Request
  deriving DecidableEq, Repr

/-- A request, behind `authenticate`. -/
def serve (s : Server) (e : Asked) : Server × Response :=
  if Authorized e.user e.request then handle pg cronError e.user e.now s e.request
  else (s, .insufficient (requiredScopes e.request) e.user.scopes)

def step (s : Server) (e : Asked) : Option Server :=
  let p := serve pg cronError s e
  some { p.1 with responses := s.responses ++ [p.2] }

end JobRoutes

end TaskOrchestration

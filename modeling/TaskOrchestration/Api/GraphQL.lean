import TaskOrchestration.Api.Auth
import TaskOrchestration.Queue.Depth
import TaskOrchestration.System.Stats
import TaskOrchestration.Workers.Registry

set_option autoImplicit false

/-!
# The GraphQL endpoint

The resolvers call the services that the routes call, for the user of their context. A document is
executed without interruption: the fields of a mutation one after the other, up to the first that
fails; those of a query each for itself.

* `GQLContext`, `Query`, `Mutation`, `Document`: who asks, and what for;
* `Query.resolve`, `Mutation.resolve`, `execute`: what the fields return; **`step`**;
* `Mutation.request`, **`handle_request`**: the request of the jobs routes whose handler does the
  same; **`runMutations_eq`**: a mutation is a sequence of such requests;
* `handled`, `served`, `handled_eq_served`: the handlers by themselves, and behind the scopes that
  `authenticate` asks for and a document is not asked for;
* `TellsOf`: what an answer tells of an organization; `not_tellsOf_execute`;
* **`within_routes`**: what the endpoint does to the store, and what it tells.
-/

namespace TaskOrchestration

open JobRepository LabelledRun

/-! ## The queues -/

structure QueueHealth where
  mainQueue : JobCounts
  dlqCount : ℕ
  isHealthy : Bool
  deriving DecidableEq, Repr

def QueueManager.getHealth (mainQueue : MainQueue) (dlq : DeadLetterQueue) : QueueHealth where
  mainQueue := mainQueue.getJobCounts
  dlqCount := DeadLetterQueue.getCount dlq
  isHealthy := mainQueue.getJobCounts.waiting < 10000 && DeadLetterQueue.getCount dlq < 1000

namespace GraphQL

/-! ## Documents -/

/-- `GQLContext`. The server that `bootstrap` starts has no user in it: nothing authenticates the
requests to `/graphql`. -/
structure GQLContext where
  user : Option AuthUser
  deriving DecidableEq, Repr

structure JobsArgs where
  status : Option JobStatus := none
  priority : Option JobPriority := none
  page : Option ℤ := none
  limit : Option ℤ := none
  search : Option String := none
  deriving DecidableEq, Repr

structure CreateJobInput where
  name : String
  description : Option String := none
  type : JobType
  payload : JsonObject
  priority : Option JobPriority := none
  scheduledAt : Option Time := none
  cronExpression : Option String := none
  timezone : Option String := none
  timeoutMs : Option ℤ := none
  tags : Option (List String) := none
  metadata : Option JsonObject := none
  deriving DecidableEq, Repr

/-- A field of a query, and whether `executionHistory` is asked for. -/
inductive Query
  | job (id : JobId) (history : Bool)
  | jobs (args : JobsArgs) (history : Bool)
  | jobStats
  | workers
  | queueHealth
  deriving DecidableEq, Repr

/-- The field may not be `null`. -/
def Query.required : Query → Bool
  | .job _ _ => false
  | _ => true

/-- A field of a mutation. A creation carries the id that `generateId` gives. -/
inductive Mutation
  | createJob (input : CreateJobInput) (id : JobId)
  | cancelJob (id : JobId)
  | retryJob (id : JobId)
  deriving DecidableEq, Repr

inductive Document
  | query (fields : List Query)
  | mutation (fields : List (Mutation × Bool))
  deriving DecidableEq, Repr

/-! ## Answers -/

/-- A job, with its `executionHistory` if that is asked for. -/
structure JobData where
  job : Job
  executionHistory : Option (List ExecutionLog)
  deriving DecidableEq, Repr

inductive FieldData
  | job (data : JobData)
  | jobs (data : List JobData) (total page limit totalPages : ℕ)
  | jobStats (stats : JobService.JobStats)
  | workers (workers : List WorkerRow)
  | queueHealth (health : QueueHealth)
  deriving DecidableEq, Repr

/-- **An answer.** A field that may be `null` is so when it fails; when another one fails, there is
no data at all. -/
structure Answer where
  data : Option (List (Option FieldData))
  errors : List ServiceError
  deriving DecidableEq, Repr

/-- **The server**: the one of the routes, the workers, and whether the main queue is paused. -/
structure GraphQLServer where
  server : JobRoutes.Server
  workers : WorkerTable := Table.empty
  paused : Bool := false
  answers : List Answer := []

/-- `formatError` shows the message of every error. -/
def unauthenticated : ServiceError := .error "Unauthenticated"

def GQLContext.authenticated (ctx : GQLContext) : Except ServiceError AuthUser :=
  match ctx.user with
  | none => .error unauthenticated
  | some user => .ok user

def executionHistory (st : Store) (job : Job) : List ExecutionLog :=
  ExecutionRepository.findByJobId st.logs job.id

def jobData (st : Store) (history : Bool) (job : Job) : JobData :=
  ⟨job, if history then some (executionHistory st job) else none⟩

/-- The `filter` of `jobs`. -/
def listFilter (user : AuthUser) (args : JobsArgs) : JobFilter where
  status := args.status.map fun status => [status]
  priority := args.priority.map fun priority => [priority]
  organizationId := some user.organizationId
  page := some (args.page.getD 1).toNat
  limit := some (args.limit.getD 20).toNat
  search := args.search

/-- What Knex and PostgreSQL say to the page and to the limit. -/
def refused (page limit : ℤ) : Option ServiceError :=
  if (page - 1) * limit < 0 then
    some (.error "A non-negative integer must be provided to offset.")
  else if limit < 0 then some (.error "LIMIT must not be negative")
  else none

/-- The `dto` of `createJob`. -/
def createDto (user : AuthUser) (input : CreateJobInput) : CreateJobDto where
  name := input.name
  description := input.description
  type := input.type
  payload := input.payload
  priority := input.priority
  scheduledAt := input.scheduledAt
  cronExpression := input.cronExpression
  timezone := input.timezone
  timeoutMs := input.timeoutMs
  tags := input.tags
  metadata := input.metadata
  organizationId := user.organizationId
  createdBy := user.userId

variable (pg : Postgres) (cronError : String → String → Option String)

def listJobs (user : AuthUser) (st : Store) (args : JobsArgs) (history : Bool) :
    Except ServiceError FieldData :=
  match refused (args.page.getD 1) (args.limit.getD 20) with
  | some e => .error e
  | none =>
      let page := findMany pg st.jobs (listFilter user args)
      .ok (.jobs (page.data.map (jobData st history)) page.total page.page page.limit
        page.totalPages)

def Query.resolve (ctx : GQLContext) (s : GraphQLServer) : Query → Except ServiceError FieldData
  | .job id history => ctx.authenticated.bind fun user =>
      (JobService.getJob s.server.store.jobs id user.organizationId).map fun job =>
        .job (jobData s.server.store history job)
  | .jobs args history => ctx.authenticated.bind fun user =>
      listJobs pg user s.server.store args history
  | .jobStats => ctx.authenticated.map fun user =>
      .jobStats (JobService.getJobStats pg s.server.store.jobs user.organizationId)
  | .workers => .ok (.workers (WorkerService.listWorkers s.workers none))
  | .queueHealth => .ok (.queueHealth
      (QueueManager.getHealth ⟨s.server.store.queue, s.paused⟩ s.server.store.dlq))

def Mutation.resolve (ctx : GQLContext) (now : Time) (s : JobRoutes.Server) :
    Mutation → Except ServiceError (JobRoutes.Server × Job)
  | .createJob input id => ctx.authenticated.bind fun user =>
      (Scheduler.createJob cronError ⟨s.store.jobs, s.graph⟩ id now (createDto user input)).map
        fun p => ({ s with store := { s.store with jobs := p.1.jobs }, graph := p.1.graph }, p.2)
  | .cancelJob id => ctx.authenticated.bind fun user =>
      (JobService.cancelJob s.store.jobs now id user.organizationId).map
        fun p => ({ s with store := { s.store with jobs := p.1 } }, p.2)
  | .retryJob id => ctx.authenticated.bind fun user =>
      (JobService.retryJob s.store.jobs now id user.organizationId).map
        fun p => ({ s with store := { s.store with jobs := p.1 } }, p.2)

/-- The fields of a mutation, up to the first that fails: what is done stays done, and the error is
all that is told. -/
def runMutations (ctx : GQLContext) (now : Time) (s : JobRoutes.Server) :
    List (Mutation × Bool) → JobRoutes.Server × Except ServiceError (List JobData)
  | [] => (s, .ok [])
  | (m, history) :: fields =>
      match m.resolve cronError ctx now s with
      | .error e => (s, .error e)
      | .ok (s', job) =>
          let p := runMutations ctx now s' fields
          (p.1, p.2.map fun data => jobData s'.store history job :: data)

def failure : Except ServiceError FieldData → Option ServiceError
  | .error e => some e
  | .ok _ => none

def success : Except ServiceError FieldData → Option FieldData
  | .error _ => none
  | .ok data => some data

def answerQuery (ctx : GQLContext) (s : GraphQLServer) (fields : List Query) : Answer where
  data :=
    if fields.any fun q => q.required && (failure (q.resolve pg ctx s)).isSome then none
    else some (fields.map fun q => success (q.resolve pg ctx s))
  errors := fields.filterMap fun q => failure (q.resolve pg ctx s)

def answerMutation : Except ServiceError (List JobData) → Answer
  | .ok data => ⟨some (data.map fun d => some (.job d)), []⟩
  | .error e => ⟨none, [e]⟩

def execute (ctx : GQLContext) (now : Time) (s : GraphQLServer) : Document → GraphQLServer × Answer
  | .query fields => (s, answerQuery pg ctx s fields)
  | .mutation fields =>
      let p := runMutations cronError ctx now s.server fields
      ({ s with server := p.1 }, answerMutation p.2)

/-- A document, with who sends it and when; or the workers or the pause of the queue change. -/
inductive Event
  | document (ctx : GQLContext) (now : Time) (document : Document)
  | pause (paused : Bool)
  | workers (workers : WorkerTable)

def step (s : GraphQLServer) : Event → Option GraphQLServer
  | .document ctx now document =>
      let p := execute pg cronError ctx now s document
      some { p.1 with answers := s.answers ++ [p.2] }
  | .pause paused => some { s with paused := paused }
  | .workers workers => some { s with workers := workers }

def Event.user : Event → Option AuthUser
  | .document ctx _ _ => ctx.user
  | _ => none

def Event.mutations : Event → List Mutation
  | .document _ _ (.mutation fields) => fields.map (·.1)
  | _ => []

theorem map_eq_ok {α β ε : Type} {f : α → β} {x : Except ε α} {b : β} (h : x.map f = .ok b) :
    ∃ a, x = .ok a ∧ f a = b := by
  cases x with
  | error e => cases h
  | ok a => exact ⟨a, rfl, Except.ok.inj h⟩

/-! ## The routes that do the same -/

/-- The request of `POST /jobs`, `PATCH /jobs/:id/cancel` or `POST /jobs/:id/retry`. -/
def Mutation.request (user : AuthUser) : Mutation → JobRoutes.Request
  | .createJob input id => .create (createDto user input) id
  | .cancelJob id => .cancel id
  | .retryJob id => .retry id

/-- The server after requests, one after the other, by the handlers of the routes alone: neither
`authenticate` nor `validate` comes before a resolver. -/
def handled (s : JobRoutes.Server) (asked : List JobRoutes.Asked) : JobRoutes.Server :=
  asked.foldl (fun s a => (JobRoutes.handle pg cronError a.user a.now s a.request).1) s

/-- The server after requests whose users are asked for the scopes of the routes. -/
def served (s : JobRoutes.Server) (asked : List JobRoutes.Asked) : JobRoutes.Server :=
  asked.foldl (fun s a => (JobRoutes.serve pg cronError s a).1) s

variable {pg cronError} {ctx : GQLContext} {now : Time} {user : AuthUser} {o : String}
  {sv sv' : JobRoutes.Server} {m : Mutation} {job : Job}

variable (pg cronError now sv m) in
/-- **A field of a mutation is a request of the routes.** -/
theorem handle_request (h : ctx.user = some user) :
    match m.resolve cronError ctx now sv with
    | .error e => JobRoutes.handle pg cronError user now sv (m.request user) =
        (sv, JobRoutes.handleError e)
    | .ok p => ∃ code, JobRoutes.handle pg cronError user now sv (m.request user) =
        (p.1, .job code p.2) := by
  have hctx : ctx.authenticated = .ok user := by rw [GQLContext.authenticated, h]
  cases m with
  | createJob input id =>
      have hdto : JobRoutes.createDto user (createDto user input) = createDto user input := rfl
      rw [Mutation.resolve, hctx, Except.bind, Mutation.request, JobRoutes.handle,
        JobRoutes.create, hdto]
      cases Scheduler.createJob cronError ⟨sv.store.jobs, sv.graph⟩ id now
          (createDto user input) with
      | ok p => exact ⟨201, rfl⟩
      | error e => rfl
  | cancelJob id =>
      rw [Mutation.resolve, hctx, Except.bind, Mutation.request, JobRoutes.handle]
      cases JobService.cancelJob sv.store.jobs now id user.organizationId with
      | ok p => exact ⟨200, rfl⟩
      | error e => rfl
  | retryJob id =>
      rw [Mutation.resolve, hctx, Except.bind, Mutation.request, JobRoutes.handle]
      cases JobService.retryJob sv.store.jobs now id user.organizationId with
      | ok p => exact ⟨200, rfl⟩
      | error e => rfl

theorem resolve_of_none (h : ctx.user = none) :
    m.resolve cronError ctx now sv = .error unauthenticated := by
  have hctx : ctx.authenticated = .error unauthenticated := by rw [GQLContext.authenticated, h]
  cases m <;> rw [Mutation.resolve, hctx] <;> rfl

theorem authorized_request (h : "jobs:write" ∈ user.scopes) :
    JobRoutes.Authorized user (m.request user) := by
  have hscopes : JobRoutes.requiredScopes (m.request user) = ["jobs:write"] := by cases m <;> rfl
  rw [JobRoutes.Authorized, hscopes]
  exact fun scope hs => List.mem_singleton.mp hs ▸ h

/-- Users with the scopes are not stopped. -/
theorem handled_eq_served {asked : List JobRoutes.Asked}
    (h : ∀ a ∈ asked, JobRoutes.Authorized a.user a.request) :
    handled pg cronError sv asked = served pg cronError sv asked := by
  induction asked generalizing sv with
  | nil => rfl
  | cons a asked ih =>
      obtain ⟨ha, hrest⟩ := List.forall_mem_cons.mp h
      have hserve : JobRoutes.serve pg cronError sv a =
          JobRoutes.handle pg cronError a.user a.now sv a.request := if_pos ha
      rw [handled, served, List.foldl_cons, List.foldl_cons, hserve]
      exact ih hrest

/-- **A mutation is a sequence of requests** of the user of its context. -/
theorem runMutations_eq (fields : List (Mutation × Bool)) :
    ∃ asked, (∀ a ∈ asked, ctx.user = some a.user ∧
        ∃ m ∈ fields.map (·.1), a.request = m.request a.user) ∧
      (runMutations cronError ctx now sv fields).1 = handled pg cronError sv asked := by
  induction fields generalizing sv with
  | nil => exact ⟨[], fun _ ha => absurd ha List.not_mem_nil, rfl⟩
  | cons field fields ih =>
      obtain ⟨m, history⟩ := field
      cases hm : m.resolve cronError ctx now sv with
      | error e =>
          refine ⟨[], fun _ ha => absurd ha List.not_mem_nil, ?_⟩
          rw [runMutations, hm]
          rfl
      | ok p =>
          obtain ⟨sv', job⟩ := p
          cases hu : ctx.user with
          | none => rw [resolve_of_none hu] at hm; cases hm
          | some user =>
              have hroute := handle_request pg cronError now sv m hu
              rw [hm] at hroute
              obtain ⟨code, hcode⟩ := hroute
              obtain ⟨asked, husers, heq⟩ := @ih sv'
              refine ⟨⟨user, now, m.request user⟩ :: asked, fun a ha => ?_, ?_⟩
              · rcases List.mem_cons.mp ha with rfl | ha
                · exact ⟨rfl, m, List.mem_cons_self, rfl⟩
                · obtain ⟨huser, m', hm', hreq⟩ := husers a ha
                  exact ⟨hu ▸ huser, m', List.mem_cons_of_mem m hm', hreq⟩
              · rw [runMutations, hm, handled, List.foldl_cons, hcode]
                exact heq

/-- **The rows of an organization** are kept by requests of others. -/
theorem agreeOn_handled {asked : List JobRoutes.Asked}
    (h : ∀ a ∈ asked, a.user.organizationId ≠ o) :
    sv.store.jobs.AgreeOn (fun r : Job => r.organizationId = o)
      (handled pg cronError sv asked).store.jobs := by
  induction asked generalizing sv with
  | nil => exact .refl _ _
  | cons a asked ih =>
      have hfirst : sv.store.jobs.AgreeOn (fun r : Job => r.organizationId = o)
          (JobRoutes.handle pg cronError a.user a.now sv a.request).1.store.jobs :=
        fun r hr => JobRoutes.agreeOn_handle r fun hown =>
          h a List.mem_cons_self (hown.symm.trans hr)
      exact hfirst.trans (ih fun b hb => h b (List.mem_cons_of_mem a hb))

/-! ## What an answer tells -/

/-- The job is one of the organization, or its history tells of one. -/
def JobData.TellsOf (o : String) (st : Store) (d : JobData) : Prop :=
  d.job.organizationId = o ∨ ∃ logs ∈ d.executionHistory, ∃ log ∈ logs,
    ∃ r ∈ st.jobs, r.id = log.jobId ∧ r.organizationId = o

def FieldData.TellsOf (o : String) (st : Store) : FieldData → Prop
  | .job d => d.TellsOf o st
  | .jobs data _ _ _ _ => ∃ d ∈ data, d.TellsOf o st
  | _ => False

/-- **The answer tells of a job of the organization.** -/
def Answer.TellsOf (o : String) (st : Store) (answer : Answer) : Prop :=
  ∃ fields ∈ answer.data, ∃ field, some field ∈ fields ∧ field.TellsOf o st

section Tells

variable {st st' : Store}

theorem JobData.TellsOf.congr (h : st.jobs.AgreeOn (fun r : Job => r.organizationId = o) st'.jobs)
    {d : JobData} (htells : d.TellsOf o st') : d.TellsOf o st := by
  rcases htells with hown | ⟨logs, hlogs, log, hlog, r, hr, hid, ho⟩
  · exact .inl hown
  · exact .inr ⟨logs, hlogs, log, hlog, r, (h r ho).mp hr, hid, ho⟩

theorem Answer.TellsOf.congr (h : st.jobs.AgreeOn (fun r : Job => r.organizationId = o) st'.jobs)
    {answer : Answer} (htells : answer.TellsOf o st') : answer.TellsOf o st := by
  obtain ⟨fields, hfields, field, hfield, hof⟩ := htells
  refine ⟨fields, hfields, field, hfield, ?_⟩
  cases field with
  | job d => exact JobData.TellsOf.congr h hof
  | jobs data =>
      obtain ⟨d, hd, hof⟩ := hof
      exact ⟨d, hd, JobData.TellsOf.congr h hof⟩
  | _ => exact hof

theorem not_tellsOf_jobData {r : Job} (hr : r ∈ st.jobs) (ho : r.organizationId ≠ o)
    (history : Bool) : ¬ (jobData st history r).TellsOf o st := by
  rintro (hown | ⟨logs, hlogs, log, hlog, r', hr', hid, hown⟩)
  · exact ho hown
  · cases history with
    | false => cases hlogs
    | true =>
        obtain rfl := Option.some.inj hlogs
        have hmem := (List.mem_insertionSort _).mp hlog
        have hlogged : log.jobId = r.id := of_decide_eq_true (List.mem_filter.mp hmem).2
        rw [Table.key_inj hr' hr (hid.trans hlogged)] at hown
        exact ho hown

theorem mem_of_updated {t : JobTable} {id : JobId} {dto : UpdateJobDto} {r : Job}
    (hr : t.find? id = some r) : toRow now dto r ∈ (JobRepository.update t id now dto).1 :=
  mem_update.mpr (.inr ⟨r, Table.mem_of_find? hr, Table.key_of_find? hr, rfl⟩)

/-- **What a field of a mutation returns** is a row of the organization of the user. -/
theorem resolve_eq_ok (h : m.resolve cronError ctx now sv = .ok (sv', job)) :
    ∃ user, ctx.user = some user ∧ job ∈ sv'.store.jobs ∧
      job.organizationId = user.organizationId := by
  cases hu : ctx.user with
  | none => rw [resolve_of_none hu] at h; cases h
  | some user =>
      have hctx : ctx.authenticated = .ok user := by rw [GQLContext.authenticated, hu]
      refine ⟨user, rfl, ?_⟩
      cases m with
      | createJob input id =>
          rw [Mutation.resolve, hctx, Except.bind] at h
          obtain ⟨⟨p, row⟩, hp, he⟩ := map_eq_ok h
          obtain ⟨rfl, rfl⟩ := Prod.mk.inj he
          obtain ⟨-, -, hsub⟩ := Scheduler.createJob_eq_ok.mp hp
          obtain ⟨rfl, -⟩ := Scheduler.submitJob_eq_some hsub
          exact ⟨(Scheduler.mem_submitJob hsub _).mpr (.inr rfl), rfl⟩
      | cancelJob id =>
          rw [Mutation.resolve, hctx, Except.bind] at h
          obtain ⟨⟨t, row⟩, hp, he⟩ := map_eq_ok h
          obtain ⟨rfl, rfl⟩ := Prod.mk.inj he
          obtain ⟨r, hcheck, rfl, rfl⟩ := JobService.cancelJob_eq_ok.mp hp
          obtain ⟨hr, ho, -⟩ := JobService.checkCancel_eq_ok.mp hcheck
          exact ⟨mem_of_updated hr, ho⟩
      | retryJob id =>
          rw [Mutation.resolve, hctx, Except.bind] at h
          obtain ⟨⟨t, row⟩, hp, he⟩ := map_eq_ok h
          obtain ⟨rfl, rfl⟩ := Prod.mk.inj he
          obtain ⟨r, hcheck, rfl, rfl⟩ := JobService.retryJob_eq_ok.mp hp
          obtain ⟨hr, ho, -⟩ := JobService.checkRetry_eq_ok.mp hcheck
          exact ⟨mem_of_updated hr, ho⟩

theorem agreeOn_resolve (pg : Postgres) (h : m.resolve cronError ctx now sv = .ok (sv', job))
    (ho : ∀ user ∈ ctx.user, user.organizationId ≠ o) :
    sv.store.jobs.AgreeOn (fun r : Job => r.organizationId = o) sv'.store.jobs := by
  obtain ⟨user, hu, -⟩ := resolve_eq_ok h
  have hroute := handle_request pg cronError now sv m hu
  rw [h] at hroute
  obtain ⟨code, hcode⟩ := hroute
  have hkept : sv.store.jobs.AgreeOn (fun r : Job => r.organizationId = o)
      (handled pg cronError sv [⟨user, now, m.request user⟩]).store.jobs :=
    agreeOn_handled fun a ha => List.mem_singleton.mp ha ▸ ho user hu
  rw [handled, List.foldl_cons, hcode] at hkept
  exact hkept

/-- **The data of a mutation** is not of an organization that is not the user's. -/
theorem not_tellsOf_runMutations (pg : Postgres)
    (ho : ∀ user ∈ ctx.user, user.organizationId ≠ o)
    (fields : List (Mutation × Bool)) {data : List JobData}
    (h : (runMutations cronError ctx now sv fields).2 = .ok data) :
    ∀ d ∈ data, ¬ d.TellsOf o sv.store := by
  induction fields generalizing sv data with
  | nil =>
      obtain rfl := Except.ok.inj h
      exact fun _ hd => absurd hd List.not_mem_nil
  | cons field fields ih =>
      obtain ⟨m, history⟩ := field
      cases hm : m.resolve cronError ctx now sv with
      | error e =>
          rw [runMutations, hm] at h
          cases h
      | ok p =>
          obtain ⟨sv', job⟩ := p
          rw [runMutations, hm] at h
          obtain ⟨rest, hrest, rfl⟩ := map_eq_ok h
          obtain ⟨user, hu, hjob, hown⟩ := resolve_eq_ok hm
          have hkept := agreeOn_resolve pg hm ho
          intro d hd htells
          rcases List.mem_cons.mp hd with rfl | hd
          · exact not_tellsOf_jobData hjob (hown ▸ ho user hu) history
              (JobData.TellsOf.congr hkept.symm htells)
          · exact ih hrest d hd (JobData.TellsOf.congr hkept.symm htells)

/-- **A field of a query** tells of no organization that is not the user's. -/
theorem not_tellsOf_query {s : GraphQLServer} (ho : ∀ user ∈ ctx.user, user.organizationId ≠ o)
    {q : Query} {data : FieldData} (h : q.resolve pg ctx s = .ok data) :
    ¬ data.TellsOf o s.server.store := by
  cases hu : ctx.user with
  | none =>
      have hctx : ctx.authenticated = .error unauthenticated := by
        rw [GQLContext.authenticated, hu]
      cases q with
      | job | jobs | jobStats => rw [Query.resolve, hctx] at h; cases h
      | workers | queueHealth => obtain rfl := Except.ok.inj h; exact id
  | some user =>
      have hctx : ctx.authenticated = .ok user := by rw [GQLContext.authenticated, hu]
      have hne : user.organizationId ≠ o := ho user hu
      cases q with
      | job id history =>
          rw [Query.resolve, hctx, Except.bind] at h
          obtain ⟨r, hr, rfl⟩ := map_eq_ok h
          obtain ⟨hfind, hown⟩ := JobService.authorize_eq_ok.mp hr
          exact not_tellsOf_jobData (Table.mem_of_find? hfind) (hown ▸ hne) history
      | jobs args history =>
          rw [Query.resolve, hctx, Except.bind, listJobs] at h
          split at h
          · cases h
          · obtain rfl := Except.ok.inj h
            rintro ⟨d, hd, htells⟩
            obtain ⟨r, hr, rfl⟩ := List.mem_map.mp hd
            have hown := organizationId_of_mem_findMany hr rfl user.organization
            exact not_tellsOf_jobData (mem_findMany hr).1 (hown ▸ hne) history htells
      | jobStats =>
          rw [Query.resolve, hctx] at h
          obtain rfl := Except.ok.inj h
          exact id
      | workers | queueHealth => obtain rfl := Except.ok.inj h; exact id

/-- **An answer** tells of no organization that is not the user's. -/
theorem not_tellsOf_execute {s : GraphQLServer}
    (ho : ∀ user ∈ ctx.user, user.organizationId ≠ o) (document : Document) :
    ¬ (execute pg cronError ctx now s document).2.TellsOf o s.server.store := by
  rintro ⟨fields, hfields, field, hfield, htells⟩
  cases document with
  | query qs =>
      dsimp only [execute, answerQuery] at hfields
      split_ifs at hfields
      · cases hfields
      · obtain rfl := Option.some.inj hfields
        obtain ⟨q, -, hq⟩ := List.mem_map.mp hfield
        cases hr : q.resolve pg ctx s with
        | error e => rw [hr] at hq; cases hq
        | ok data =>
            rw [hr] at hq
            obtain rfl := Option.some.inj hq
            exact not_tellsOf_query ho hr htells
  | mutation ms =>
      dsimp only [execute] at hfields
      cases hrun : (runMutations cronError ctx now s.server ms).2 with
      | error e => rw [hrun] at hfields; cases hfields
      | ok data =>
          rw [hrun] at hfields
          obtain rfl := Option.some.inj hfields
          obtain ⟨d, hd, he⟩ := List.mem_map.mp hfield
          obtain rfl := Option.some.inj he
          exact not_tellsOf_runMutations pg ho ms hrun d hd htells

end Tells

/-! ## Runs -/

variable {s s' s₀ : GraphQLServer} {es : List Event}

theorem step_eq_handled {e : Event} (hs : step pg cronError s e = some s') :
    ∃ asked, (∀ a ∈ asked, e.user = some a.user ∧
        ∃ m ∈ e.mutations, a.request = m.request a.user) ∧
      s'.server = handled pg cronError s.server asked := by
  cases e with
  | document ctx now document =>
      obtain rfl := Option.some.inj hs
      cases document with
      | query qs => exact ⟨[], fun _ ha => absurd ha List.not_mem_nil, rfl⟩
      | mutation ms => exact runMutations_eq ms
  | pause | workers =>
      obtain rfl := Option.some.inj hs
      exact ⟨[], fun _ ha => absurd ha List.not_mem_nil, rfl⟩

/-- **The endpoint within the routes.** Whatever documents have done, the handlers of the routes do
for the same users, asked for what the mutations name; without a user nothing is done. Users who may
write are not stopped by the scopes of the routes either. And as long as no user of an organization
sends a document, its rows stay as they are, and no answer tells of them. -/
theorem within_routes (h₀ : s₀.answers = []) (h : Run (step pg cronError) anyStep s₀ es s) :
    (∃ asked, (∀ a ∈ asked, ∃ e ∈ es, e.user = some a.user ∧
        ∃ m ∈ e.mutations, a.request = m.request a.user) ∧
      s.server = handled pg cronError s₀.server asked ∧
      ((∀ e ∈ es, ∀ user ∈ e.user, "jobs:write" ∈ user.scopes) →
        s.server = served pg cronError s₀.server asked)) ∧
    ∀ o, (∀ e ∈ es, ∀ user ∈ e.user, user.organizationId ≠ o) →
      s₀.server.store.jobs.AgreeOn (fun r : Job => r.organizationId = o) s.server.store.jobs ∧
        ∀ answer ∈ s.answers, ¬ answer.TellsOf o s₀.server.store := by
  induction h with
  | nil =>
      refine ⟨⟨[], fun _ ha => absurd ha List.not_mem_nil, rfl, fun _ => rfl⟩,
        fun o _ => ⟨.refl _ _, ?_⟩⟩
      exact fun _ ha => absurd (h₀ ▸ ha) List.not_mem_nil
  | @snoc es s s' e h _ hs ih =>
      obtain ⟨⟨asked, husers, heq, -⟩, hquiet⟩ := ih
      obtain ⟨asked', husers', heq'⟩ := step_eq_handled hs
      have hall : ∀ a ∈ asked ++ asked', ∃ e' ∈ es ++ [e], e'.user = some a.user ∧
          ∃ m ∈ e'.mutations, a.request = m.request a.user := by
        intro a ha
        rcases List.mem_append.mp ha with ha | ha
        · obtain ⟨e', he', hu⟩ := husers a ha
          exact ⟨e', List.mem_append_left _ he', hu⟩
        · exact ⟨e, List.mem_append_right _ (List.mem_singleton_self e), husers' a ha⟩
      have hhandled : s'.server = handled pg cronError s₀.server (asked ++ asked') := by
        rw [heq', heq, handled, handled, handled, List.foldl_append]
      refine ⟨⟨asked ++ asked', hall, hhandled, fun hwrite => ?_⟩, fun o ho => ?_⟩
      · rw [hhandled]
        refine handled_eq_served fun a ha => ?_
        obtain ⟨e', he', hu, m, -, hreq⟩ := hall a ha
        rw [hreq]
        exact authorized_request (hwrite e' he' a.user hu)
      · obtain ⟨hkept, htold⟩ := hquiet o fun e' he' => ho e' (List.mem_append_left _ he')
        have hno : ∀ user ∈ e.user, user.organizationId ≠ o :=
          ho e (List.mem_append_right _ (List.mem_singleton_self e))
        have hstep : s.server.store.jobs.AgreeOn (fun r : Job => r.organizationId = o)
            s'.server.store.jobs := by
          rw [heq']
          exact agreeOn_handled fun a ha => hno a.user (husers' a ha).1
        refine ⟨hkept.trans hstep, fun answer hmem htells => ?_⟩
        cases e with
        | document ctx now document =>
            obtain rfl := Option.some.inj hs
            rcases List.mem_append.mp hmem with hmem | hmem
            · exact htold answer hmem htells
            · obtain rfl := List.mem_singleton.mp hmem
              exact not_tellsOf_execute hno document (Answer.TellsOf.congr hkept.symm htells)
        | pause | workers =>
            obtain rfl := Option.some.inj hs
            exact htold answer hmem htells

/-- The failed job of `org1` is retried by nobody, and not by `org2`, which creates a job. -/
theorem foreign_job_not_retried : ∃ es s, Run (step JobRoutes.plainPostgres fun _ _ => none) anyStep
    ⟨⟨JobRoutes.failedStore, DependencyResolver.emptyGraph, []⟩, Table.empty, false, []⟩ es s ∧
    s.answers.map (·.errors) = [[unauthenticated], [.forbidden "Access denied"], []] ∧
    (∃ r ∈ s.server.store.jobs.rows, r.id = "b" ∧ r.organizationId = "org2") ∧
    JobRoutes.failedStore.jobs.AgreeOn (fun r : Job => r.organizationId = "org1")
      s.server.store.jobs := by
  obtain ⟨s, hs, hp⟩ := exists_run_of_check (step JobRoutes.plainPostgres fun _ _ => none) anyStep
    ⟨⟨JobRoutes.failedStore, DependencyResolver.emptyGraph, []⟩, Table.empty, false, []⟩
    [.document ⟨none⟩ 12 (.mutation [(.retryJob "a", true)]),
      .document ⟨some JobRoutes.user2⟩ 13 (.mutation [(.retryJob "a", true)]),
      .document ⟨some JobRoutes.user2⟩ 14
        (.mutation [(.createJob { name := "b", type := .webhook, payload := [] } "b", true)])]
    (fun s => s.answers.map (·.errors) = [[unauthenticated], [.forbidden "Access denied"], []] ∧
      ∃ r ∈ s.server.store.jobs.rows, r.id = "b" ∧ r.organizationId = "org2")
    (by decide)
  obtain ⟨hanswers, hcreated⟩ := of_decide_eq_true hp
  exact ⟨_, s, hs, hanswers, hcreated, ((within_routes rfl hs).2 "org1" (by decide)).1⟩

end GraphQL

end TaskOrchestration

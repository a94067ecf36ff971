import TaskOrchestration.Lib.Run
import TaskOrchestration.Lib.Credit
import TaskOrchestration.Lib.Table
import TaskOrchestration.Lib.Lease
import TaskOrchestration.Lib.Timers
import TaskOrchestration.Db.Migrate
import TaskOrchestration.Lib.Search
import TaskOrchestration.Lib.Postorder
import TaskOrchestration.Lib.Heap
import TaskOrchestration.Lib.Json
import TaskOrchestration.Lib.Double
import TaskOrchestration.Lib.Rotation
import TaskOrchestration.Lib.Paging
import TaskOrchestration.Lib.Batches
import TaskOrchestration.Lib.Occurrences
import TaskOrchestration.Lib.Edges
import TaskOrchestration.Lib.Shell
import TaskOrchestration.Job.Model
import TaskOrchestration.Job.Repository
import TaskOrchestration.Job.Service
import TaskOrchestration.Job.Listing
import TaskOrchestration.Job.Pages
import TaskOrchestration.Job.Claim
import TaskOrchestration.Job.Columns
import TaskOrchestration.Job.BulkCancel
import TaskOrchestration.Deps.Resolver
import TaskOrchestration.Deps.Scheduler
import TaskOrchestration.Deps.Counters
import TaskOrchestration.Deps.Processes
import TaskOrchestration.Deps.Orders
import TaskOrchestration.Deps.Registration
import TaskOrchestration.Deps.Unblocking
import TaskOrchestration.Deps.Cycles
import TaskOrchestration.Deps.Sorting
import TaskOrchestration.Deps.Duplicates
import TaskOrchestration.Deps.Deregistration
import TaskOrchestration.Queue.Bull
import TaskOrchestration.Queue.DeadLetter
import TaskOrchestration.Queue.Priority
import TaskOrchestration.Queue.Depth
import TaskOrchestration.System.Store
import TaskOrchestration.System.Ops
import TaskOrchestration.System.Step
import TaskOrchestration.System.Final
import TaskOrchestration.System.RetryService
import TaskOrchestration.System.Enqueue
import TaskOrchestration.System.Retry
import TaskOrchestration.System.Deliveries
import TaskOrchestration.System.Budget
import TaskOrchestration.System.Attempts
import TaskOrchestration.System.Notify
import TaskOrchestration.System.DeadLetter
import TaskOrchestration.System.Stalled
import TaskOrchestration.System.Batch
import TaskOrchestration.System.Consistent
import TaskOrchestration.System.Agree
import TaskOrchestration.System.Replay
import TaskOrchestration.System.ReplayAll
import TaskOrchestration.System.Traces
import TaskOrchestration.System.Creations
import TaskOrchestration.System.Drain
import TaskOrchestration.System.Stats
import TaskOrchestration.System.Exclusive
import TaskOrchestration.System.Payloads
import TaskOrchestration.System.History
import TaskOrchestration.System.Outcomes
import TaskOrchestration.System.Additions
import TaskOrchestration.System.AttemptBounds
import TaskOrchestration.Lock.Model
import TaskOrchestration.Lock.Exclusion
import TaskOrchestration.Lock.Belief
import TaskOrchestration.Lock.WithLock
import TaskOrchestration.Election.Model
import TaskOrchestration.Election.Role
import TaskOrchestration.Election.Stopped
import TaskOrchestration.Leader.Model
import TaskOrchestration.Leader.Safety
import TaskOrchestration.Leader.Takeover
import TaskOrchestration.Leader.Stopped
import TaskOrchestration.Nodes.Registry
import TaskOrchestration.Cron.Model
import TaskOrchestration.Cron.Once
import TaskOrchestration.Cron.Routes
import TaskOrchestration.Cron.Counts
import TaskOrchestration.Cron.Failures
import TaskOrchestration.Api.Jobs
import TaskOrchestration.Api.Tenant
import TaskOrchestration.Api.Auth
import TaskOrchestration.Api.GraphQL
import TaskOrchestration.Api.Admission
import TaskOrchestration.Workers.Selection
import TaskOrchestration.Workers.Strategies
import TaskOrchestration.Workers.RoundRobin
import TaskOrchestration.Workers.Failure
import TaskOrchestration.Workers.Backoff
import TaskOrchestration.Workers.Shell
import TaskOrchestration.Workers.Attempt
import TaskOrchestration.Workers.Pool
import TaskOrchestration.Workers.Demand
import TaskOrchestration.Workers.Embedded
import TaskOrchestration.Workers.Shutdown
import TaskOrchestration.Workers.Registry
import TaskOrchestration.Monitoring.Alerts
import TaskOrchestration.System.Progress

import TaskOrchestration.Lock.Model

set_option autoImplicit false

/-!
# Schedulers that compete for the leader lock

Any number of `JobScheduler` instances, in any number of processes, and the one Redis key
`lock:scheduler:leader`. A step is one event: a call of `start` or `stop`, a timer that fires,
Redis executing a request, a reply or an error that reaches its caller, or time that passes.

* `Request`, `Timer`: Redis calls, timers;
* `JobScheduler`: the fields of an instance; `leader` is `isLeader` with what has set it;
* `tryBecomeLeader`, `afterAcquire`, `standalone`, `startLockRenewal`, `renew`, `stepDown`,
  `schedulePoll`: the source's methods, cut at their awaits;
* `Cluster`, `Event`, **`step`**.
-/

namespace TaskOrchestration

open Lease

/-- What the schedulers are configured with: `schedulerConfig` of every instance, and the process
it runs in, which has one `distributedLock`. -/
structure Deployment where
  pollIntervalMs : ℕ → ℕ
  lockTtlMs : ℕ → ℕ
  process : ℕ → ℕ

/-- **What has made an instance the leader**: a lock it was granted, or a failed election, after
which it runs without the lock. -/
inductive Leadership
  | lock (token : Token)
  | standalone
  deriving DecidableEq, Repr

/-- The fields of a `JobScheduler` and of its `cronScheduler`. The handles name timers. -/
structure JobScheduler where
  isRunning : Bool := false
  leader : Option Leadership := none
  pollTimeout : Option ℕ := none
  lockRenewalInterval : Option ℕ := none
  cronRunning : Bool := false
  cronInterval : Option ℕ := none
  deriving DecidableEq, Repr

def JobScheduler.isLeader (j : JobScheduler) : Bool := j.leader.isSome

inductive TimerKind
  | poll | renewal | cron | backoff
  deriving DecidableEq, Repr

/-- An armed timer: `setTimeout`, `setInterval`, or the one inside `sleep`. -/
structure Timer where
  id : ℕ
  scheduler : ℕ
  kind : TimerKind
  due : ℕ
  deriving DecidableEq, Repr

/-- **A call of Redis**, `SET NX PX` or the script of `renew`. `inStart` says whether `start`
awaits the election. A call that is `settled` has no caller that waits for it any more. -/
structure Request where
  scheduler : ℕ
  command : Command Token
  inStart : Bool := false
  answer : Option Bool := none
  settled : Bool := false
  deriving DecidableEq, Repr

/-- **The state**: the server, the processes, and what is under way. `polls` lists the instances
whose `poll` runs. -/
structure Cluster where
  redis : Server Token
  locks : ℕ → Option LockEntry
  schedulers : ℕ → JobScheduler
  timers : List Timer
  nextTimer : ℕ
  requests : List Request
  polls : List ℕ

namespace Cluster

inductive Event
  | advance (ms : ℕ)
  | start (i : ℕ)
  | stop (i : ℕ)
  | fire (timer : ℕ)
  | execute (request : ℕ)
  | reply (request : ℕ)
  | reject (request : ℕ)
  | pollDone (run : ℕ)
  deriving DecidableEq, Repr

def init : Cluster where
  redis := .init
  locks := fun _ => none
  schedulers := fun _ => {}
  timers := []
  nextTimer := 0
  requests := []
  polls := []

/-! ## Timers and calls -/

def modify (s : Cluster) (i : ℕ) (f : JobScheduler → JobScheduler) : Cluster :=
  { s with schedulers := Function.update s.schedulers i (f (s.schedulers i)) }

/-- Arm a timer, whose handle is `s.nextTimer`. -/
def arm (s : Cluster) (i : ℕ) (kind : TimerKind) (ms : ℕ) : Cluster :=
  { s with timers := s.timers ++ [⟨s.nextTimer, i, kind, s.redis.now + ms⟩]
           nextTimer := s.nextTimer + 1 }

def clear (s : Cluster) (handle : Option ℕ) : Cluster :=
  { s with timers := s.timers.filter fun t => some t.id ≠ handle }

def rearm (s : Cluster) (timer ms : ℕ) : Cluster :=
  { s with timers := s.timers.map fun t =>
      if t.id = timer then { t with due := s.redis.now + ms } else t }

/-- Write the entry of a process in its `locks` map. -/
def setLock (s : Cluster) (process : ℕ) (entry : Option LockEntry) : Cluster :=
  { s with locks := Function.update s.locks process entry }

def send (s : Cluster) (r : Request) : Cluster := { s with requests := s.requests ++ [r] }

variable (d : Deployment)

/-! ## The methods -/

def cronStart (s : Cluster) (i : ℕ) : Cluster :=
  if (s.schedulers i).cronRunning then s
  else (s.arm i .cron (d.pollIntervalMs i)).modify i fun j =>
    { j with cronRunning := true, cronInterval := some s.nextTimer }

def cronStop (s : Cluster) (i : ℕ) : Cluster :=
  (s.clear (s.schedulers i).cronInterval).modify i fun j =>
    { j with cronRunning := false, cronInterval := none }

def schedulePoll (s : Cluster) (i : ℕ) : Cluster :=
  if (s.schedulers i).isRunning then
    (s.arm i .poll (d.pollIntervalMs i)).modify i fun j =>
      { j with pollTimeout := some s.nextTimer }
  else s

/-- `tryBecomeLeader` and `tryAcquire`, up to the call of Redis. -/
def tryBecomeLeader (s : Cluster) (i : ℕ) (inStart : Bool) : Cluster :=
  s.send { scheduler := i, command := .setNx ⟨i, s.requests.length⟩ (d.lockTtlMs i)
           inStart := inStart }

/-- `startLockRenewal`: every 0.6 of the time to live. -/
def startLockRenewal (s : Cluster) (i : ℕ) : Cluster :=
  (s.arm i .renewal (d.lockTtlMs i * 6 / 10)).modify i fun j =>
    { j with lockRenewalInterval := some s.nextTimer }

/-- `this.isLeader = true`, and the cron scheduler is started. -/
def lead (s : Cluster) (i : ℕ) (l : Leadership) : Cluster :=
  (s.modify i fun j => { j with leader := some l }).cronStart d i

/-- The rest of `start` after its election. -/
def afterElection (s : Cluster) (i : ℕ) (inStart : Bool) : Cluster :=
  if inStart then s.schedulePoll d i else s

/-- The rest of `tryAcquire` and `tryBecomeLeader` after the reply. -/
def afterAcquire (s : Cluster) (i : ℕ) (token : Token) (ttlMs : ℕ) (inStart acquired : Bool) :
    Cluster :=
  if acquired then
    (((s.setLock (d.process i) (some ⟨token, s.redis.now + ttlMs⟩)).lead d i
      (.lock token)).startLockRenewal d i).afterElection d i inStart
  else s.afterElection d i inStart

/-- The `catch` of `tryBecomeLeader`: run without the distributed lock. -/
def standalone (s : Cluster) (i : ℕ) (inStart : Bool) : Cluster :=
  (s.lead d i .standalone).afterElection d i inStart

/-- The renewal callback when the lock was lost, up to the end of its sleep. -/
def stepDown (s : Cluster) (i : ℕ) : Cluster :=
  let s := (s.modify i fun j => { j with leader := none }).cronStop i
  (s.clear (s.schedulers i).lockRenewalInterval).arm i .backoff 2000

/-- The renewal callback and `renew`, up to the call of Redis. Without an entry there is none. -/
def renew (s : Cluster) (i : ℕ) : Cluster :=
  match s.locks (d.process i) with
  | none => s.stepDown i
  | some entry => s.send { scheduler := i, command := .extend entry.token (d.lockTtlMs i) }

/-- The rest of `renew` and of the renewal callback after the reply. The script was sent with the
token of an entry that need not be in the map any more. -/
def afterRenew (s : Cluster) (i : ℕ) (token : Token) (ttlMs : ℕ) (renewed : Bool) : Cluster :=
  if renewed then
    s.setLock (d.process i) ((s.locks (d.process i)).map fun entry =>
      if entry.token = token then { entry with expiresAt := s.redis.now + ttlMs } else entry)
  else (s.setLock (d.process i) none).stepDown i

/-- `start`, up to the call of Redis. -/
def start (s : Cluster) (i : ℕ) : Cluster :=
  if (s.schedulers i).isRunning then s
  else (s.modify i fun j => { j with isRunning := true }).tryBecomeLeader d i true

def stop (s : Cluster) (i : ℕ) : Cluster :=
  let j := s.schedulers i
  (((s.modify i fun j => { j with isRunning := false }).clear j.pollTimeout).clear
    j.lockRenewalInterval).cronStop i

def pollCallback (s : Cluster) (i : ℕ) : Cluster :=
  if (s.schedulers i).isLeader then { s with polls := s.polls ++ [i] } else s.schedulePoll d i

/-- The callback of a timer. What a tick of the cron scheduler does is not part of this state. -/
def fire (s : Cluster) (t : Timer) : Cluster :=
  match t.kind with
  | .poll => (s.clear (some t.id)).pollCallback d t.scheduler
  | .renewal => (s.rearm t.id (d.lockTtlMs t.scheduler * 6 / 10)).renew d t.scheduler
  | .cron => s.rearm t.id (d.pollIntervalMs t.scheduler)
  | .backoff => (s.clear (some t.id)).tryBecomeLeader d t.scheduler false

/-! ## Steps -/

def settle (s : Cluster) (k : ℕ) (r : Request) : Cluster :=
  { s with requests := s.requests.set k { r with settled := true } }

def replied (s : Cluster) (r : Request) (answer : Bool) : Cluster :=
  match r.command with
  | .setNx token ttlMs => s.afterAcquire d r.scheduler token ttlMs r.inStart answer
  | .extend token ttlMs => s.afterRenew d r.scheduler token ttlMs answer

/-- The caller goes on with an error. The renewal callback only logs it. -/
def rejected (s : Cluster) (r : Request) : Cluster :=
  match r.command with
  | .setNx _ _ => s.standalone d r.scheduler r.inStart
  | .extend _ _ => s

/-- **One step.** Redis may execute a request at any time after it was sent, also when its caller
has given up, and more than once: the client sends again what a lost connection left unanswered.
The caller sees the last answer, or an error at any time. -/
def step (s : Cluster) : Event → Option Cluster
  | .advance ms => some { s with redis := s.redis.advance ms }
  | .start i => some (s.start d i)
  | .stop i => some (s.stop i)
  | .fire timer =>
      (s.timers.find? fun t => t.id = timer ∧ t.due ≤ s.redis.now).map fun t => s.fire d t
  | .execute k =>
      (s.requests[k]?).bind fun r => (s.redis.exec? r.command).map fun p =>
        { s with redis := p.1, requests := s.requests.set k { r with answer := some p.2 } }
  | .reply k =>
      (s.requests[k]?).bind fun r =>
        if r.settled then none
        else r.answer.map fun answer => (s.settle k r).replied d r answer
  | .reject k =>
      (s.requests[k]?).bind fun r =>
        if r.settled then none else some ((s.settle k r).rejected d r)
  | .pollDone run =>
      (s.polls[run]?).map fun i => { s with polls := s.polls.eraseIdx run }.schedulePoll d i

/-! ## The calls of Redis, said once -/

variable {d : Deployment} {s s' : Cluster} {k : ℕ}

theorem execute_eq_some (h : s.step d (.execute k) = some s') :
    ∃ r p, s.requests[k]? = some r ∧ s.redis.exec? r.command = some p ∧
      s' = { s with redis := p.1, requests := s.requests.set k { r with answer := some p.2 } } := by
  obtain ⟨r, hr, hs⟩ := Option.bind_eq_some_iff.mp h
  obtain ⟨p, hp, rfl⟩ := Option.map_eq_some_iff.mp hs
  exact ⟨r, p, hr, hp, rfl⟩

theorem reply_eq_some (h : s.step d (.reply k) = some s') :
    ∃ r answer, s.requests[k]? = some r ∧ r.settled = false ∧ r.answer = some answer ∧
      s' = (s.settle k r).replied d r answer := by
  obtain ⟨r, hr, hs⟩ := Option.bind_eq_some_iff.mp h
  split_ifs at hs with hset
  obtain ⟨answer, ha, rfl⟩ := Option.map_eq_some_iff.mp hs
  exact ⟨r, answer, hr, Bool.eq_false_iff.mpr hset, ha, rfl⟩

theorem reject_eq_some (h : s.step d (.reject k) = some s') :
    ∃ r, s.requests[k]? = some r ∧ r.settled = false ∧ s' = (s.settle k r).rejected d r := by
  obtain ⟨r, hr, hs⟩ := Option.bind_eq_some_iff.mp h
  split_ifs at hs with hset
  exact ⟨r, hr, Bool.eq_false_iff.mpr hset, (Option.some.inj hs).symm⟩

end Cluster

end TaskOrchestration

import TaskOrchestration.Lock.Exclusion
import TaskOrchestration.Lib.Timers

set_option autoImplicit false

/-!
# Leader election

Any number of `LeaderElection` instances for one lock key, in any number of processes. A step is a
call of `start` or `stop`, a timer that fires, a step of the lock, or time that passes.

* `Role`, `ElectionTimer`, `LeaderElection`: an instance, with the timers that it has armed;
* `Caller`: what awaits a call of the lock;
* `Elections`, `campaign`, `becomeLeader`, `becomeFollower`, `stepDown`, `stop`: the methods, cut at
  their awaits;
* `Event`, **`step`**; `lock_run`: the lock under the elections.
-/

namespace TaskOrchestration

open Lease LabelledRun

/-- `LeaderRole`. -/
inductive Role
  | leader
  | follower
  | candidate
  deriving DecidableEq, Repr

/-- The timers of an instance: the next `campaign`, the renewal interval, and the sleep after a
loss. -/
inductive ElectionTimer
  | campaign
  | renewal
  | sleep
  deriving DecidableEq, Repr

/-- The fields of a `LeaderElection`, and the timers that it has armed. `halted` is history: `stop`
has returned, and `start` has not been called since. -/
structure LeaderElection where
  role : Role := .follower
  isRunning : Bool := false
  campaignTimer : Option ℕ := none
  renewalTimer : Option ℕ := none
  timers : EventLoop.Timers ElectionTimer := .none
  halted : Bool := false

/-- What goes on with the result of a call of the lock: `campaign`, the renewal callback, or `stop`
of an instance. -/
inductive Caller
  | campaign (i : ℕ)
  | renewal (i : ℕ)
  | stop (i : ℕ)
  deriving DecidableEq, Repr

def Caller.owner : Caller → ℕ
  | .campaign i | .renewal i | .stop i => i

namespace LeaderElection

/-! ## The methods of an instance, at a time -/

variable (x : LeaderElection) (now ttlMs : ℕ)

/-- `start`, up to its campaign. -/
def started : LeaderElection := { x with isRunning := true, halted := false }

/-- `campaign`, up to the call of the lock. -/
def campaigning : LeaderElection := { x with role := .candidate }

/-- Become the leader, and start the lock renewal: every half of the time to live. -/
def becomeLeader : LeaderElection :=
  { x with
    role := .leader
    renewalTimer := some x.timers.next
    timers := x.timers.arm .renewal (now + ttlMs / 2) }

def becomeFollower : LeaderElection := { x with role := .follower }

/-- `this.campaignTimer = setTimeout(..)`. -/
def scheduleCampaign (ms : ℕ) : LeaderElection :=
  { x with
    campaignTimer := some x.timers.next
    timers := x.timers.arm .campaign (now + ms) }

/-- The rest of `campaign` after the reply. The next attempt comes after 0.8 of the time to
live. -/
def afterCampaign (acquired : Bool) : LeaderElection :=
  if acquired then x.becomeLeader now ttlMs
  else x.becomeFollower.scheduleCampaign now (ttlMs * 8 / 10)

/-- The `catch` of `campaign`. -/
def campaignFailed : LeaderElection := x.becomeFollower.scheduleCampaign now 5000

/-- The renewal callback when the lock was lost, up to the end of its sleep. -/
def stepDown : LeaderElection :=
  { x with
    role := .follower
    timers := (x.timers.clear x.renewalTimer).arm .sleep (now + 2000) }

/-- `stop`, up to the look at the role. -/
def stopTimers : LeaderElection :=
  { x with
    isRunning := false
    timers := (x.timers.clear x.campaignTimer).clear x.renewalTimer }

/-- A timeout has fired, and is not armed any more. -/
def timedOut (timer : ℕ) : LeaderElection := { x with timers := x.timers.clear (some timer) }

/-- An interval has fired. -/
def ticked (timer due : ℕ) : LeaderElection := { x with timers := x.timers.rearm timer due }

def stopped : LeaderElection := { x with halted := !x.isRunning }

end LeaderElection

/-- What the elections are configured with: the time to live of every instance, and the process it
runs in, which has one `distributedLock`. `skew` is the clock of a process. -/
structure Electorate where
  ttlMs : ℕ → ℕ
  process : ℕ → ℕ
  skew : ℕ → ℕ

structure Elections where
  lock : DistributedLock Caller
  instances : ℕ → LeaderElection

namespace Elections

inductive Event
  | advance (ms : ℕ)
  | lose
  | start (i : ℕ)
  | stop (i : ℕ)
  | fire (i timer : ℕ)
  | execute (call : ℕ)
  | reply (call : ℕ)
  | reject (call : ℕ)
  deriving DecidableEq, Repr

def init : Elections := ⟨.init, fun _ => {}⟩

def modify (s : Elections) (i : ℕ) (f : LeaderElection → LeaderElection) : Elections :=
  { s with instances := Function.update s.instances i (f (s.instances i)) }

@[simp] theorem instances_modify_self (s : Elections) (i : ℕ)
    (f : LeaderElection → LeaderElection) :
    (s.modify i f).instances i = f (s.instances i) :=
  Function.update_self ..

theorem instances_modify_of_ne (s : Elections) {i j : ℕ} (h : j ≠ i)
    (f : LeaderElection → LeaderElection) : (s.modify i f).instances j = s.instances j :=
  Function.update_of_ne h ..

/-- The time that the timers are measured by. -/
def now (s : Elections) : ℕ := s.lock.redis.now

variable (d : Electorate)

/-! ## The methods up to their calls -/

def campaign (s : Elections) (i : ℕ) : Elections :=
  if (s.instances i).isRunning then
    { s.modify i LeaderElection.campaigning with
      lock := s.lock.tryAcquire (d.process i) (d.ttlMs i) (.campaign i) }
  else s

def start (s : Elections) (i : ℕ) : Elections :=
  (s.modify i LeaderElection.started).campaign d i

/-- The renewal callback. Without an entry `renew` returns at once that the lock is lost. -/
def renew (s : Elections) (i : ℕ) : Elections :=
  match s.lock.locks (d.process i) with
  | none => s.modify i fun x => x.stepDown s.now
  | some _ => { s with lock := s.lock.renew (d.process i) (d.ttlMs i) (.renewal i) }

/-- The rest of `stop` after `release`. -/
def afterRelease (s : Elections) (i : ℕ) : Elections :=
  s.modify i fun x => x.becomeFollower.stopped

/-- `stop`. A leader releases the lock, which returns at once without an entry. -/
def stop (s : Elections) (i : ℕ) : Elections :=
  let s' := s.modify i LeaderElection.stopTimers
  if (s.instances i).role = .leader then
    match s.lock.locks (d.process i) with
    | none => s'.afterRelease i
    | some _ => { s' with lock := s.lock.release (d.process i) (.stop i) }
  else s'.modify i LeaderElection.stopped

/-- The callback of a timer. -/
def fire (s : Elections) (i timer : ℕ) : ElectionTimer → Elections
  | .renewal => (s.modify i fun x => x.ticked timer (s.now + d.ttlMs i / 2)).renew d i
  | .campaign | .sleep => (s.modify i fun x => x.timedOut timer).campaign d i

/-! ## Steps -/

/-- The caller goes on with a reply. -/
def replied (s : Elections) (answer : Bool) : Caller → Elections
  | .campaign i => s.modify i fun x => x.afterCampaign s.now (d.ttlMs i) answer
  | .renewal i => if answer then s else s.modify i fun x => x.stepDown s.now
  | .stop i => s.afterRelease i

/-- The caller goes on with an error. Nothing catches that of the renewal callback, and `stop`
passes it on. -/
def rejected (s : Elections) : Caller → Elections
  | .campaign i => s.modify i fun x => x.campaignFailed s.now
  | .renewal _ | .stop _ => s

def step (s : Elections) : Event → Option Elections
  | .advance ms => some { s with lock := s.lock.advance ms }
  | .lose => some { s with lock := { s.lock with redis := s.lock.redis.lose } }
  | .start i => some (s.start d i)
  | .stop i => some (s.stop d i)
  | .fire i timer => ((s.instances i).timers.due? timer s.now).map (s.fire d i timer)
  | .execute k => (s.lock.execute k).map fun lock => { s with lock := lock }
  | .reply k => (s.lock.awaited k).map fun p =>
      { s with lock := (s.lock.settle k p.1).replied d.skew p.1 p.2 }.replied d p.2 p.1.caller
  | .reject k => (s.lock.calls[k]?).bind fun r => if r.settled then none else
      some ({ s with lock := s.lock.settle k r }.rejected r.caller)

/-! ## The lock under the elections -/

variable {d : Electorate} {s s' : Elections} {e : Event} {i j : ℕ}

theorem lock_replied (s : Elections) (answer : Bool) (c : Caller) :
    (s.replied d answer c).lock = s.lock := by
  cases c with
  | campaign i => rfl
  | renewal i => cases answer <;> rfl
  | stop i => rfl

theorem lock_rejected (s : Elections) (c : Caller) : (s.rejected c).lock = s.lock := by
  cases c <;> rfl

theorem lock_campaign (s : Elections) (i : ℕ) :
    (s.campaign d i).lock =
      if (s.instances i).isRunning then
        s.lock.tryAcquire (d.process i) (d.ttlMs i) (.campaign i)
      else s.lock := by
  unfold campaign
  split_ifs <;> rfl

theorem instances_campaign_self (h : (s.instances i).isRunning = true) :
    (s.campaign d i).instances i = (s.instances i).campaigning := by
  unfold campaign
  rw [if_pos h]
  exact Function.update_self ..

theorem lock_renew (s : Elections) (i : ℕ) :
    (s.renew d i).lock = s.lock.renew (d.process i) (d.ttlMs i) (.renewal i) := by
  unfold renew DistributedLock.renew
  cases h : s.lock.locks (d.process i) with
  | none => rfl
  | some entry => rfl

theorem lock_stop (s : Elections) (i : ℕ) :
    (s.stop d i).lock =
      if (s.instances i).role = .leader then s.lock.release (d.process i) (.stop i)
      else s.lock := by
  unfold stop DistributedLock.release
  cases h : s.lock.locks (d.process i) with
  | none => split_ifs <;> rfl
  | some entry => split_ifs <;> rfl

/-- **A step of the elections** leaves the lock alone, or is one of the lock. -/
theorem lock_step (hs : s.step d e = some s') :
    s'.lock = s.lock ∨ ∃ f, s.lock.step d.skew f = some s'.lock := by
  cases e with
  | advance ms =>
      obtain rfl := Option.some.inj hs
      exact .inr ⟨.advance ms, rfl⟩
  | lose =>
      obtain rfl := Option.some.inj hs
      exact .inr ⟨.lose, rfl⟩
  | start i =>
      obtain rfl := Option.some.inj hs
      right
      refine ⟨.tryAcquire (d.process i) (d.ttlMs i) (.campaign i), ?_⟩
      have hrun : ((s.modify i LeaderElection.started).instances i).isRunning = true := by
        rw [instances_modify_self]
        rfl
      rw [start, lock_campaign, if_pos hrun]
      rfl
  | stop i =>
      obtain rfl := Option.some.inj hs
      rw [lock_stop]
      split_ifs
      · exact .inr ⟨.release (d.process i) (.stop i), rfl⟩
      · exact .inl rfl
  | fire i timer =>
      obtain ⟨kind, -, rfl⟩ := Option.map_eq_some_iff.mp hs
      cases kind with
      | renewal =>
          refine .inr ⟨.renew (d.process i) (d.ttlMs i) (.renewal i), ?_⟩
          rw [fire, lock_renew]
          rfl
      | campaign | sleep =>
          rw [fire, lock_campaign]
          split_ifs
          · exact .inr ⟨.tryAcquire (d.process i) (d.ttlMs i) (.campaign i), rfl⟩
          · exact .inl rfl
  | execute k =>
      obtain ⟨lock, hl, rfl⟩ := Option.map_eq_some_iff.mp hs
      exact .inr ⟨.execute k, hl⟩
  | reply k =>
      obtain ⟨p, hp, rfl⟩ := Option.map_eq_some_iff.mp hs
      refine .inr ⟨.reply k, ?_⟩
      rw [lock_replied]
      exact Option.map_eq_some_iff.mpr ⟨p, hp, rfl⟩
  | reject k =>
      obtain ⟨r, hr, hs⟩ := Option.bind_eq_some_iff.mp hs
      split_ifs at hs with hset
      obtain rfl := Option.some.inj hs
      refine .inr ⟨.reject k, Option.bind_eq_some_iff.mpr ⟨r, hr, ?_⟩⟩
      rw [if_neg hset, lock_rejected]

theorem lock_run {ok : List Event → Elections → Event → Prop} {es : List Event}
    (h : Run (step d) ok init es s) :
    ∃ fs, Run (DistributedLock.step d.skew) anyStep DistributedLock.init fs s.lock := by
  induction h with
  | nil => exact ⟨[], .nil⟩
  | snoc _ _ hs ih =>
      obtain ⟨fs, hfs⟩ := ih
      rcases lock_step hs with heq | ⟨f, hf⟩
      · rw [heq]
        exact ⟨fs, hfs⟩
      · exact ⟨_, hfs.snoc trivial hf⟩

end Elections

end TaskOrchestration

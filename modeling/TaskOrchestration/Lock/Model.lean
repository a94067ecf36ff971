import TaskOrchestration.Lib.Run
import TaskOrchestration.Lib.Lease

set_option autoImplicit false

/-!
# The distributed lock

Any number of processes, each with its `distributedLock`, and one resource. A step is a call of a
method, Redis executing a command, a reply or an error that reaches its caller, or time that
passes.

* `Token`, `LockEntry`, `LockCommand`, `LockCall`: tokens, the local map, and the calls of Redis;
* `DistributedLock`: the key, the entries of the processes, and the calls;
* `tryAcquire`, `renew`, `release`, cut at their awaits; `isHeld`;
* `Event`, **`step`**; the callers of the methods are a parameter.
-/

namespace TaskOrchestration

open Lease

/-- A `uuidv4` of `tryAcquire`: no two calls draw the same one. -/
structure Token where
  caller : ℕ
  serial : ℕ
  deriving DecidableEq, Repr

/-- An entry of the `locks` map of `DistributedLockClass`. -/
structure LockEntry where
  token : Token
  expiresAt : ℕ
  deriving DecidableEq, Repr

/-- What is sent to Redis: `SET NX PX`, and the scripts of `renew` and of `release`. -/
inductive LockCommand
  | set (token : Token) (ttlMs : ℕ)
  | renew (token : Token) (ttlMs : ℕ)
  | release (token : Token)
  deriving DecidableEq, Repr

/-- **A call of Redis.** `caller` goes on with its result, unless it is `settled`. A command may be
executed more than once; `granted` records that Redis has once done what it asks. -/
structure LockCall (κ : Type) where
  process : ℕ
  caller : κ
  command : LockCommand
  answer : Option Bool := none
  granted : Bool := false
  settled : Bool := false
  deriving DecidableEq, Repr

/-- **The state**: the key, the entry of the resource in the `locks` map of every process, and the
calls of Redis so far. -/
structure DistributedLock (κ : Type) where
  redis : Server Token
  locks : ℕ → Option LockEntry
  calls : List (LockCall κ)

namespace DistributedLock

inductive Event (κ : Type)
  | advance (ms : ℕ)
  | lose
  | tryAcquire (process ttlMs : ℕ) (caller : κ)
  | renew (process ttlMs : ℕ) (caller : κ)
  | release (process : ℕ) (caller : κ)
  | execute (call : ℕ)
  | reply (call : ℕ)
  | reject (call : ℕ)
  deriving DecidableEq, Repr

variable {κ : Type}

def init : DistributedLock κ := ⟨.init, fun _ => none, []⟩

def advance (s : DistributedLock κ) (ms : ℕ) : DistributedLock κ :=
  { s with redis := s.redis.advance ms }

def send (s : DistributedLock κ) (r : LockCall κ) : DistributedLock κ :=
  { s with calls := s.calls ++ [r] }

def setEntry (s : DistributedLock κ) (process : ℕ) (entry : Option LockEntry) :
    DistributedLock κ :=
  { s with locks := Function.update s.locks process entry }

@[simp] theorem locks_setEntry_self (s : DistributedLock κ) (process : ℕ)
    (entry : Option LockEntry) : (s.setEntry process entry).locks process = entry :=
  Function.update_self ..

theorem locks_setEntry_of_ne (s : DistributedLock κ) {process p : ℕ} (h : p ≠ process)
    (entry : Option LockEntry) : (s.setEntry process entry).locks p = s.locks p :=
  Function.update_of_ne h ..

/-! ## The methods up to their calls -/

/-- `tryAcquire`. The token of a call is named after it. -/
def tryAcquire (s : DistributedLock κ) (process ttlMs : ℕ) (caller : κ) : DistributedLock κ :=
  s.send { process := process, caller := caller
           command := .set ⟨process, s.calls.length⟩ ttlMs }

/-- `renew`, which returns `false` at once without an entry. -/
def renew (s : DistributedLock κ) (process ttlMs : ℕ) (caller : κ) : DistributedLock κ :=
  match s.locks process with
  | none => s
  | some entry =>
      s.send { process := process, caller := caller, command := .renew entry.token ttlMs }

/-- `release`, which returns at once without an entry. -/
def release (s : DistributedLock κ) (process : ℕ) (caller : κ) : DistributedLock κ :=
  match s.locks process with
  | none => s
  | some entry => s.send { process := process, caller := caller, command := .release entry.token }

/-- What Redis does with a command, and its answer. -/
def exec (s : Server Token) : LockCommand → Option (Server Token × Bool)
  | .set token ttlMs => s.exec? (.setNx token ttlMs)
  | .renew token ttlMs => s.exec? (.extend token ttlMs)
  | .release token => some (s.release token)

/-- Redis executes a call, maybe again: the client sends again what a lost connection left
unanswered. -/
def execute (s : DistributedLock κ) (k : ℕ) : Option (DistributedLock κ) :=
  (s.calls[k]?).bind fun r => (exec s.redis r.command).map fun p =>
    { s with
      redis := p.1
      calls := s.calls.set k { r with answer := some p.2, granted := r.granted || p.2 } }

def settle (s : DistributedLock κ) (k : ℕ) (r : LockCall κ) : DistributedLock κ :=
  { s with calls := s.calls.set k { r with settled := true } }

/-! ## The rest of the methods -/

variable (skew : ℕ → ℕ)

/-- `Date.now()` of a process. The clocks run at the same rate. -/
def dateNow (s : DistributedLock κ) (process : ℕ) : ℕ := s.redis.now + skew process

/-- The rest of `tryAcquire` after the reply. -/
def afterSet (s : DistributedLock κ) (process : ℕ) (token : Token) (ttlMs : ℕ) (acquired : Bool) :
    DistributedLock κ :=
  if acquired then s.setEntry process (some ⟨token, s.dateNow skew process + ttlMs⟩) else s

/-- The rest of `renew` after the reply. The entry that it changes may have left the map. -/
def afterRenew (s : DistributedLock κ) (process : ℕ) (token : Token) (ttlMs : ℕ)
    (renewed : Bool) : DistributedLock κ :=
  if renewed then
    s.setEntry process ((s.locks process).map fun entry =>
      if entry.token = token then { entry with expiresAt := s.dateNow skew process + ttlMs }
      else entry)
  else s.setEntry process none

def replied (s : DistributedLock κ) (r : LockCall κ) (answer : Bool) : DistributedLock κ :=
  match r.command with
  | .set token ttlMs => s.afterSet skew r.process token ttlMs answer
  | .renew token ttlMs => s.afterRenew skew r.process token ttlMs answer
  | .release _ => s.setEntry r.process none

theorem redis_replied (s : DistributedLock κ) (r : LockCall κ) (answer : Bool) :
    (s.replied skew r answer).redis = s.redis := by
  unfold replied afterSet afterRenew
  split
  · split_ifs <;> rfl
  · split_ifs <;> rfl
  · rfl

@[simp] theorem calls_replied (s : DistributedLock κ) (r : LockCall κ) (answer : Bool) :
    (s.replied skew r answer).calls = s.calls := by
  unfold replied afterSet afterRenew
  split
  · split_ifs <;> rfl
  · split_ifs <;> rfl
  · rfl

def awaited (s : DistributedLock κ) (k : ℕ) : Option (LockCall κ × Bool) :=
  (s.calls[k]?).bind fun r => if r.settled then none else r.answer.map fun answer => (r, answer)

def isHeld (s : DistributedLock κ) (process : ℕ) : Bool :=
  (s.locks process).any fun entry => s.dateNow skew process < entry.expiresAt

/-- **One step.** Commands are executed and answered after any delay and in any order, that of one
connection included. An error may reach the caller at any time, and changes no entry. -/
def step (s : DistributedLock κ) : Event κ → Option (DistributedLock κ)
  | .advance ms => some (s.advance ms)
  | .lose => some { s with redis := s.redis.lose }
  | .tryAcquire process ttlMs caller => some (s.tryAcquire process ttlMs caller)
  | .renew process ttlMs caller => some (s.renew process ttlMs caller)
  | .release process caller => some (s.release process caller)
  | .execute k => s.execute k
  | .reply k => (s.awaited k).map fun p => (s.settle k p.1).replied skew p.1 p.2
  | .reject k => (s.calls[k]?).bind fun r => if r.settled then none else some (s.settle k r)

end DistributedLock

end TaskOrchestration

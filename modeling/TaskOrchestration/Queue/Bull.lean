import TaskOrchestration.Job.Model

set_option autoImplicit false

/-!
# The main queue and the dead letter queue

The BullMQ queues as tables of entries. An entry is picked up by one processor run at a time.
BullMQ marks it completed when the run resolves; when the run rejects, BullMQ delays it for
another attempt, or marks it failed after the last one. An entry whose lock stalls goes back to
waiting, at most `maxStalledCount` times.

* `QueueJobPayload`, `DLQEntry`: what the entries carry;
* `Queue.add`: nothing is added under an id that is already there, in any state;
* `Queue.pick`, `Queue.settle`, `Queue.stall`, `Queue.promote`, `Queue.evict`;
* `find?_add`, `find?_change`, `find?_settle`: what they do to the entries; `pick_eq_some`,
  `stall_eq_some`, `promote_eq_some`, `evict_eq_some`: what they need.
-/

namespace TaskOrchestration

structure QueueJobPayload where
  jobId : JobId
  type : JobType
  payload : JsonObject
  organizationId : String
  attemptNumber : ℕ
  deriving DecidableEq, Repr

structure DLQEntry where
  originalJobId : JobId
  type : JobType
  payload : JsonObject
  organizationId : String
  failureReason : String
  failureStack : Option String
  totalAttempts : ℕ
  firstFailedAt : Time
  lastFailedAt : Time
  deriving DecidableEq, Repr

/-- The id of an entry: `job_<id>`, or a number that BullMQ counts up. -/
inductive EntryId
  | job (id : JobId)
  | auto (n : ℕ)
  deriving DecidableEq, Repr

/-- The state of an entry. An active entry is held by the processor run with the given number. -/
inductive EntryState
  | waiting | prioritized | delayed | active (run : ℕ) | completed | failed
  deriving DecidableEq, Repr

/-- The entry is waiting, prioritized, delayed or active. -/
def EntryState.Live : EntryState → Prop
  | .completed | .failed => False
  | _ => True

instance : DecidablePred EntryState.Live := fun st => by
  cases st <;> unfold EntryState.Live <;> infer_instance

structure Entry where
  id : EntryId
  data : QueueJobPayload
  priority : ℕ
  state : EntryState
  attemptsMade : ℕ
  stalledCount : ℕ
  deriving DecidableEq, Repr

/-- `toBullPriority`: `Math.round((100 - weight) / 20) + 1`, halves rounded up. -/
def toBullPriority (p : JobPriority) : ℕ := (100 - priorityWeight p + 10) / 20 + 1

/-- **A BullMQ queue**: its entries, and the next id it counts up to. -/
structure Queue where
  entries : Table Entry.id
  nextId : ℕ

/-- The dead letter queue. The entry of a job has the id `dlq_<id>`. -/
abbrev DeadLetterQueue := Table DLQEntry.originalJobId

namespace Queue

def empty : Queue := ⟨Table.empty, 1⟩

def initialState (priority delayMs : ℕ) : EntryState :=
  if 0 < delayMs then .delayed else if 0 < priority then .prioritized else .waiting

def newEntry (id : EntryId) (data : QueueJobPayload) (priority delayMs : ℕ) : Entry :=
  ⟨id, data, priority, initialState priority delayMs, 0, 0⟩

/-- `add`, under a custom id or under the next number. The counter moves with every `add`. -/
def add (q : Queue) (jobId : Option JobId) (data : QueueJobPayload) (priority delayMs : ℕ) :
    Queue :=
  match jobId with
  | some id =>
      ⟨q.entries.insertIfAbsent (newEntry (.job id) data priority delayMs), q.nextId + 1⟩
  | none =>
      ⟨q.entries.insertIfAbsent (newEntry (.auto q.nextId) data priority delayMs), q.nextId + 1⟩

/-- Change the state of an entry, and count an attempt or a stall. -/
def changed (state : EntryState) (attempts stalls : ℕ) (e : Entry) : Entry :=
  { e with
    state := state
    attemptsMade := e.attemptsMade + attempts
    stalledCount := e.stalledCount + stalls }

theorem changed_id (state : EntryState) (attempts stalls : ℕ) (e : Entry) :
    (changed state attempts stalls e).id = e.id := rfl

def change (q : Queue) (id : EntryId) (state : EntryState) (attempts stalls : ℕ) : Queue :=
  ⟨q.entries.update id (changed state attempts stalls) (changed_id state attempts stalls),
    q.nextId⟩

/-- A worker takes a waiting or prioritized entry. -/
def pick (q : Queue) (id : EntryId) (run : ℕ) : Option (Queue × Entry) :=
  match q.entries.find? id with
  | some e =>
      if e.state = .waiting ∨ e.state = .prioritized then some (q.change id (.active run) 0 0, e)
      else none
  | none => none

/-- The state of an entry whose processor run has ended. -/
def settledState (attempts : ℕ) (rejected : Bool) (e : Entry) : EntryState :=
  if rejected then if e.attemptsMade + 1 < attempts then .delayed else .failed else .completed

/-- BullMQ acknowledges the end of a processor run that still holds its entry. -/
def settle (q : Queue) (attempts : ℕ) (id : EntryId) (run : ℕ) (rejected : Bool) : Queue :=
  match q.entries.find? id with
  | some e =>
      if e.state = .active run then q.change id (settledState attempts rejected e) 1 0 else q
  | none => q

/-- The lock of an active entry has expired. -/
def stall (q : Queue) (maxStalledCount : ℕ) (id : EntryId) : Option Queue :=
  match q.entries.find? id with
  | some e =>
      match e.state with
      | .active _ =>
          some (q.change id (if e.stalledCount < maxStalledCount then .waiting else .failed) 0 1)
      | _ => none
  | none => none

/-- The delay of an entry is over. -/
def promote (q : Queue) (id : EntryId) : Option Queue :=
  match q.entries.find? id with
  | some e =>
      if e.state = .delayed then some (q.change id (initialState e.priority 0) 0 0) else none
  | none => none

/-- `removeOnComplete` and `removeOnFail`: a finished entry has been kept long enough. -/
def evict (q : Queue) (id : EntryId) : Option Queue :=
  match q.entries.find? id with
  | some e => if e.state.Live then none else some { q with entries := q.entries.erase id }
  | none => none

/-! ## The entries after each operation -/

theorem find?_change (q : Queue) (id k : EntryId) (state : EntryState) (attempts stalls : ℕ) :
    (q.change id state attempts stalls).entries.find? k =
      if k = id then (q.entries.find? k).map (changed state attempts stalls)
      else q.entries.find? k :=
  Table.find?_update _ _ _ (changed_id state attempts stalls) _

/-- The id that an `add` looks for. -/
def addedId (q : Queue) (jobId : Option JobId) : EntryId :=
  match jobId with
  | some id => .job id
  | none => .auto q.nextId

/-- **The entries after an `add`**: the entry that is there stays, otherwise there is a new
one. -/
theorem find?_add (q : Queue) (jobId : Option JobId) (data : QueueJobPayload)
    (priority delayMs : ℕ) (k : EntryId) :
    (q.add jobId data priority delayMs).entries.find? k =
      if k = q.addedId jobId then
        some ((q.entries.find? k).getD (newEntry (q.addedId jobId) data priority delayMs))
      else q.entries.find? k := by
  cases jobId <;> exact Table.find?_insertIfAbsent _ _ _

/-! ## What each operation needs -/

variable {q q' : Queue} {id : EntryId}

theorem pick_eq_some {run : ℕ} {e : Entry} (h : q.pick id run = some (q', e)) :
    q.entries.find? id = some e ∧ q' = q.change id (.active run) 0 0 := by
  unfold pick at h
  split at h
  case h_1 e₀ he =>
    split_ifs at h
    obtain ⟨rfl, rfl⟩ := Prod.mk.inj (Option.some.inj h)
    exact ⟨he, rfl⟩
  case h_2 => cases h

theorem stall_eq_some {maxStalledCount : ℕ} (h : q.stall maxStalledCount id = some q') :
    ∃ e run, q.entries.find? id = some e ∧ e.state = .active run ∧
      q' = q.change id (if e.stalledCount < maxStalledCount then .waiting else .failed) 0 1 := by
  unfold stall at h
  split at h
  case h_1 e he =>
    split at h
    case h_1 run hact => exact ⟨e, run, he, hact, (Option.some.inj h).symm⟩
    case h_2 => cases h
  case h_2 => cases h

theorem promote_eq_some (h : q.promote id = some q') :
    ∃ e, q.entries.find? id = some e ∧ q' = q.change id (initialState e.priority 0) 0 0 := by
  unfold promote at h
  split at h
  case h_1 e he =>
    split_ifs at h
    exact ⟨e, he, (Option.some.inj h).symm⟩
  case h_2 => cases h

theorem evict_eq_some (h : q.evict id = some q') :
    ∃ e, q.entries.find? id = some e ∧ ¬ e.state.Live ∧
      q' = { q with entries := q.entries.erase id } := by
  unfold evict at h
  split at h
  case h_1 e he =>
    split_ifs at h with hlive
    exact ⟨e, he, hlive, (Option.some.inj h).symm⟩
  case h_2 => cases h

/-- Acknowledging a run leaves every entry alone that the run does not hold. -/
theorem find?_settle {attempts run : ℕ} {rejected : Bool} {k : EntryId} {e : Entry}
    (he : q.entries.find? k = some e) (h : k = id → e.state ≠ .active run) :
    (q.settle attempts id run rejected).entries.find? k = some e := by
  unfold settle
  split
  case h_1 e₀ he₀ =>
    split_ifs with hact
    · have hne : k ≠ id := by
        rintro rfl
        obtain rfl := Option.some.inj (he.symm.trans he₀)
        exact h rfl hact
      rw [find?_change, if_neg hne, he]
    · exact he
  case h_2 => exact he

end Queue

end TaskOrchestration

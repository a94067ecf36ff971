import TaskOrchestration.Lib.Run
import TaskOrchestration.Queue.Bull

set_option autoImplicit false

/-!
# The depth of the queue

Every entry is added with a priority above zero, so none is ever in the list that BullMQ calls
waiting, and the depth is the number of active and delayed entries.

* `MainQueue`, `getJobCounts`, `getQueueDepth`: the queue with its pause, and what is counted;
* `JobQueue.add`, `JobQueue.addBulk`, **`step`**: what happens to the queue;
* `unfinished`: the entries that are neither completed nor failed; `depth_add_uncounted`;
* `Inv`, `Inv.step`: priorities, states and numbers of the entries; `Postponed`;
* **`depth_counts_iff`**; `prioritized_not_counted`.
-/

namespace TaskOrchestration

open LabelledRun

/-- An element of the argument of `addBulk`. -/
structure BulkJob where
  payload : QueueJobPayload
  priority : Option JobPriority := none
  delayMs : Option ℕ := none
  deriving DecidableEq, Repr

namespace JobQueue

def add (q : Queue) (payload : QueueJobPayload) (priority : Option JobPriority)
    (delayMs : Option ℕ) (jobId : Option JobId) : Queue :=
  q.add jobId payload (toBullPriority (priority.getD .medium)) (delayMs.getD 0)

def addBulk (q : Queue) (jobs : List BulkJob) : Queue :=
  jobs.foldl (fun q job => add q job.payload job.priority job.delayMs none) q

end JobQueue

/-- The queue and whether it is paused. -/
structure MainQueue where
  queue : Queue
  paused : Bool

/-- What BullMQ's `getJobCounts` returns for the states that are asked for. -/
structure JobCounts where
  active : ℕ
  waiting : ℕ
  completed : ℕ
  failed : ℕ
  delayed : ℕ
  paused : ℕ
  deriving DecidableEq, Repr

namespace MainQueue

def isActive (e : Entry) : Bool := match e.state with | .active _ => true | _ => false

def isWaiting (e : Entry) : Bool := e.state = .waiting

def isPrioritized (e : Entry) : Bool := e.state = .prioritized

def isDelayed (e : Entry) : Bool := e.state = .delayed

/-- The entries of a state. Those that wait are paused while the queue is. -/
def getJobCounts (m : MainQueue) : JobCounts where
  active := m.queue.entries.rows.countP isActive
  waiting := if m.paused then 0 else m.queue.entries.rows.countP isWaiting
  completed := m.queue.entries.rows.countP fun e => e.state = .completed
  failed := m.queue.entries.rows.countP fun e => e.state = .failed
  delayed := m.queue.entries.rows.countP isDelayed
  paused := if m.paused then m.queue.entries.rows.countP isWaiting else 0

def getQueueDepth (m : MainQueue) : ℕ :=
  m.getJobCounts.waiting + m.getJobCounts.active + m.getJobCounts.delayed

/-- What happens to the queue. A pick-up is by a processor run, and its end is a completion, or a
failure, after which the entry is delayed while it has attempts left. -/
inductive Event
  | add (payload : QueueJobPayload) (priority : Option JobPriority) (delayMs : Option ℕ)
      (jobId : Option JobId)
  | addBulk (jobs : List BulkJob)
  | pause
  | resume
  | pick (id : EntryId) (run : ℕ)
  | settle (id : EntryId) (run : ℕ) (rejected : Bool)
  | promote (id : EntryId)
  deriving DecidableEq, Repr

/-- **One step.** Nothing is picked up while the queue is paused. -/
def step (attempts : ℕ) (m : MainQueue) : Event → Option MainQueue
  | .add payload priority delayMs jobId =>
      some { m with queue := JobQueue.add m.queue payload priority delayMs jobId }
  | .addBulk jobs => some { m with queue := JobQueue.addBulk m.queue jobs }
  | .pause => some { m with paused := true }
  | .resume => some { m with paused := false }
  | .pick id run =>
      if m.paused then none
      else (m.queue.pick id run).map fun r => { m with queue := r.1 }
  | .settle id run rejected =>
      some { m with queue := m.queue.settle attempts id run rejected }
  | .promote id => (m.queue.promote id).map fun q => { m with queue := q }

def empty : MainQueue := ⟨.empty, false⟩

/-- The entries that have been added and are not yet completed or failed. -/
def unfinished (m : MainQueue) : ℕ := m.queue.entries.rows.countP fun e => e.state.Live

variable {m m' : MainQueue} {q : Queue} {e : Entry} {attempts : ℕ}

/-- **What the depth leaves out.** -/
theorem depth_add_uncounted (m : MainQueue) :
    m.getQueueDepth + m.queue.entries.rows.countP isPrioritized + m.getJobCounts.paused =
      m.unfinished := by
  -- every unfinished entry is in one of the four states
  have hone : ∀ e : Entry, (if isWaiting e then 1 else 0) + (if isActive e then 1 else 0) +
      (if isDelayed e then 1 else 0) + (if isPrioritized e then 1 else 0) =
        if decide e.state.Live then 1 else 0 := by
    rintro ⟨_, _, _, st, _, _⟩
    cases st <;> rfl
  have hsplit : ∀ rows : List Entry, rows.countP isWaiting + rows.countP isActive +
      rows.countP isDelayed + rows.countP isPrioritized =
        rows.countP fun e => e.state.Live := by
    intro rows
    induction rows with
    | nil => rfl
    | cons e rows ih =>
        have := hone e
        simp only [List.countP_cons, ← ih]
        omega
  rw [unfinished, ← hsplit, getQueueDepth, getJobCounts]
  cases m.paused
  · simp only [Bool.false_eq_true, if_false]
    omega
  · simp only [if_true]
    omega

/-! ## The entries -/

/-- **What holds of every entry**: it has a priority, it never waits without one, and its number,
if it has one, has been counted. -/
structure Inv (q : Queue) : Prop where
  priority_pos : ∀ e ∈ q.entries, 0 < e.priority
  not_waiting : ∀ e ∈ q.entries, e.state ≠ .waiting
  auto_lt : ∀ e ∈ q.entries, ∀ n, e.id = .auto n → n < q.nextId

theorem toBullPriority_pos (p : JobPriority) : 0 < toBullPriority p := Nat.succ_pos _

theorem initialState_ne_waiting {priority : ℕ} (h : 0 < priority) (delayMs : ℕ) :
    Queue.initialState priority delayMs ≠ .waiting := by
  rw [Queue.initialState, if_pos h]
  split_ifs <;> exact EntryState.noConfusion

theorem mem_add {jobId : Option JobId} {data : QueueJobPayload} {priority delayMs : ℕ} :
    e ∈ (q.add jobId data priority delayMs).entries ↔ e ∈ q.entries ∨
      q.entries.find? (q.addedId jobId) = none ∧
        e = Queue.newEntry (q.addedId jobId) data priority delayMs := by
  rw [Table.mem_iff_find?, Table.mem_iff_find?, Queue.find?_add]
  split_ifs with hid
  · rw [← hid]
    cases hf : q.entries.find? e.id with
    | none =>
        simp only [Option.getD_none, Option.some.injEq, true_and]
        constructor
        · exact fun h => .inr h.symm
        · rintro (h | h)
          · cases h
          · exact h.symm
    | some e' => simp
  · refine ⟨.inl, fun h => h.resolve_right ?_⟩
    rintro ⟨-, rfl⟩
    exact hid rfl

theorem Inv.add {jobId : Option JobId} {data : QueueJobPayload} {priority : ℕ} (h : Inv q)
    (hpos : 0 < priority) (delayMs : ℕ) : Inv (q.add jobId data priority delayMs) := by
  have hle : q.nextId ≤ (q.add jobId data priority delayMs).nextId := by
    cases jobId <;> exact Nat.le_succ _
  refine ⟨fun e he => ?_, fun e he => ?_, fun e he n hn => ?_⟩
  · rcases mem_add.mp he with he | ⟨-, rfl⟩
    · exact h.priority_pos e he
    · exact hpos
  · rcases mem_add.mp he with he | ⟨-, rfl⟩
    · exact h.not_waiting e he
    · exact initialState_ne_waiting hpos delayMs
  · rcases mem_add.mp he with he | ⟨-, rfl⟩
    · exact Nat.lt_of_lt_of_le (h.auto_lt e he n hn) hle
    · cases jobId with
      | none =>
          obtain rfl : q.nextId = n := EntryId.auto.inj hn
          exact Nat.lt_succ_self _
      | some id => cases hn

theorem Inv.change {id : EntryId} {state : EntryState} {attempts stalls : ℕ} (h : Inv q)
    (hstate : state ≠ .waiting) : Inv (q.change id state attempts stalls) := by
  have hmem := fun e => (Table.mem_update (t := q.entries) (k := id) (b := e)
    (Queue.changed_id state attempts stalls)).mp
  refine ⟨fun e he => ?_, fun e he => ?_, fun e he n hn => ?_⟩
  · rcases hmem e he with ⟨he, -⟩ | ⟨a, ha, -, rfl⟩
    · exact h.priority_pos e he
    · exact h.priority_pos a ha
  · rcases hmem e he with ⟨he, -⟩ | ⟨a, ha, -, rfl⟩
    · exact h.not_waiting e he
    · exact hstate
  · rcases hmem e he with ⟨he, -⟩ | ⟨a, ha, -, rfl⟩
    · exact h.auto_lt e he n hn
    · exact h.auto_lt a ha n hn

theorem Inv.addBulk {jobs : List BulkJob} (h : Inv q) : Inv (JobQueue.addBulk q jobs) := by
  induction jobs generalizing q with
  | nil => exact h
  | cons job jobs ih => exact ih (h.add (toBullPriority_pos _) _)

theorem settledState_ne_waiting (attempts : ℕ) (rejected : Bool) (e : Entry) :
    Queue.settledState attempts rejected e ≠ .waiting := by
  rw [Queue.settledState]
  split_ifs <;> exact EntryState.noConfusion

theorem Inv.settle {id : EntryId} {run : ℕ} {rejected : Bool} (h : Inv q) :
    Inv (q.settle attempts id run rejected) := by
  unfold Queue.settle
  split
  · split_ifs
    · exact h.change (settledState_ne_waiting _ _ _)
    · exact h
  · exact h

theorem step_promote {id : EntryId} (hs : step attempts m (.promote id) = some m') :
    ∃ e ∈ m.queue.entries, e.id = id ∧
      m' = { m with queue := m.queue.change id (Queue.initialState e.priority 0) 0 0 } := by
  obtain ⟨q, hq, rfl⟩ := Option.map_eq_some_iff.mp hs
  obtain ⟨e, he, rfl⟩ := Queue.promote_eq_some hq
  exact ⟨e, Table.mem_of_find? he, Table.key_of_find? he, rfl⟩

theorem step_pick {id : EntryId} {run : ℕ} (hs : step attempts m (.pick id run) = some m') :
    m' = { m with queue := m.queue.change id (.active run) 0 0 } := by
  rw [step] at hs
  split_ifs at hs
  obtain ⟨⟨q, e⟩, hq, rfl⟩ := Option.map_eq_some_iff.mp hs
  obtain ⟨-, rfl⟩ := Queue.pick_eq_some hq
  rfl

/-- **A step keeps what holds of the entries.** -/
theorem Inv.step {ev : Event} (h : Inv m.queue) (hs : step attempts m ev = some m') :
    Inv m'.queue := by
  cases ev with
  | add payload priority delayMs jobId =>
      obtain rfl := Option.some.inj hs
      exact h.add (toBullPriority_pos _) _
  | addBulk jobs =>
      obtain rfl := Option.some.inj hs
      exact h.addBulk
  | pause | resume =>
      obtain rfl := Option.some.inj hs
      exact h
  | pick id run =>
      rw [step_pick hs]
      exact h.change EntryState.noConfusion
  | settle id run rejected =>
      obtain rfl := Option.some.inj hs
      exact h.settle
  | promote id =>
      obtain ⟨e, he, -, rfl⟩ := step_promote hs
      exact h.change (initialState_ne_waiting (h.priority_pos e he) 0)

theorem inv_empty : Inv Queue.empty :=
  ⟨fun _ h => absurd h (Table.not_mem_empty _), fun _ h => absurd h (Table.not_mem_empty _),
    fun _ h => absurd h (Table.not_mem_empty _)⟩

/-! ## Prioritized entries -/

def NonePrioritized (q : Queue) : Prop := ∀ e ∈ q.entries, e.state ≠ .prioritized

/-- **The depth is right** exactly while no entry is prioritized. -/
theorem depth_eq_iff (h : Inv m.queue) :
    m.getQueueDepth = m.unfinished ↔ NonePrioritized m.queue := by
  have hsum := depth_add_uncounted m
  have hwait : m.queue.entries.rows.countP isWaiting = 0 :=
    List.countP_eq_zero.mpr fun e he => by
      rw [isWaiting, decide_eq_true_iff]
      exact h.not_waiting e he
  have hpaused : m.getJobCounts.paused = 0 := by
    rw [getJobCounts, hwait, ite_self]
  have hnone : m.queue.entries.rows.countP isPrioritized = 0 ↔ NonePrioritized m.queue := by
    rw [List.countP_eq_zero]
    refine forall₂_congr fun e _ => ?_
    rw [isPrioritized, decide_eq_true_iff]
  rw [← hnone]
  omega

/-- **Nothing becomes prioritized**: what is added is delayed, or is there already, and no delay
is over. -/
def Postponed (m : MainQueue) : Event → Prop
  | .add _ _ delayMs jobId =>
      0 < delayMs.getD 0 ∨ m.queue.entries.find? (m.queue.addedId jobId) ≠ none
  | .addBulk jobs => ∀ job ∈ jobs, 0 < job.delayMs.getD 0
  | .promote _ => False
  | _ => True

theorem nonePrioritized_add_iff (q : Queue) (jobId : Option JobId) (data : QueueJobPayload)
    {priority : ℕ} (hpos : 0 < priority) (delayMs : ℕ) :
    NonePrioritized (q.add jobId data priority delayMs) ↔
      NonePrioritized q ∧ (0 < delayMs ∨ q.entries.find? (q.addedId jobId) ≠ none) := by
  have hnew : (Queue.newEntry (q.addedId jobId) data priority delayMs).state ≠ .prioritized ↔
      0 < delayMs := by
    rw [Queue.newEntry, Queue.initialState, if_pos hpos]
    split_ifs with hdelay
    · exact iff_of_true EntryState.noConfusion hdelay
    · exact iff_of_false (fun h => h rfl) hdelay
  constructor
  · intro h
    refine ⟨fun e he => h e (mem_add.mpr (.inl he)), ?_⟩
    by_cases hfind : q.entries.find? (q.addedId jobId) = none
    · exact .inl (hnew.mp (h _ (mem_add.mpr (.inr ⟨hfind, rfl⟩))))
    · exact .inr hfind
  · rintro ⟨h, hadd⟩ e he
    rcases mem_add.mp he with he | ⟨hfind, rfl⟩
    · exact h e he
    · exact hnew.mpr (hadd.resolve_right fun hne => hne hfind)

theorem Inv.find?_auto (h : Inv q) : q.entries.find? (q.addedId none) = none := by
  refine Table.find?_eq_none.mpr fun e he heq => ?_
  exact absurd (h.auto_lt e he q.nextId heq) (Nat.lt_irrefl _)

theorem nonePrioritized_addBulk_iff {jobs : List BulkJob} (h : Inv q) :
    NonePrioritized (JobQueue.addBulk q jobs) ↔
      NonePrioritized q ∧ ∀ job ∈ jobs, 0 < job.delayMs.getD 0 := by
  induction jobs generalizing q with
  | nil => exact (and_iff_left fun _ hjob => absurd hjob List.not_mem_nil).symm
  | cons job jobs ih =>
      have hpos := toBullPriority_pos (job.priority.getD .medium)
      have hadd := nonePrioritized_add_iff q none job.payload hpos (job.delayMs.getD 0)
      rw [or_iff_left fun hne => hne h.find?_auto] at hadd
      rw [List.forall_mem_cons, ← and_assoc, ← hadd]
      exact ih (h.add hpos _)

theorem nonePrioritized_change {id : EntryId} {state : EntryState} {attempts stalls : ℕ}
    (h : NonePrioritized q) (hstate : state ≠ .prioritized) :
    NonePrioritized (q.change id state attempts stalls) := by
  intro e he
  rcases (Table.mem_update (Queue.changed_id state attempts stalls)).mp he with
    ⟨he, -⟩ | ⟨a, -, -, rfl⟩
  · exact h e he
  · exact hstate

theorem nonePrioritized_settle {id : EntryId} {run : ℕ} {rejected : Bool}
    (h : NonePrioritized q) : NonePrioritized (q.settle attempts id run rejected) := by
  have hne : ∀ e, Queue.settledState attempts rejected e ≠ .prioritized := fun e => by
    rw [Queue.settledState]
    split_ifs <;> exact EntryState.noConfusion
  unfold Queue.settle
  split
  · split_ifs
    · exact nonePrioritized_change h (hne _)
    · exact h
  · exact h

/-- **A step leaves no entry prioritized** exactly if nothing becomes so. -/
theorem nonePrioritized_step_iff {ev : Event} (hinv : Inv m.queue) (h : NonePrioritized m.queue)
    (hs : step attempts m ev = some m') : NonePrioritized m'.queue ↔ Postponed m ev := by
  cases ev with
  | add payload priority delayMs jobId =>
      obtain rfl := Option.some.inj hs
      exact (nonePrioritized_add_iff _ _ _ (toBullPriority_pos _) _).trans (and_iff_right h)
  | addBulk jobs =>
      obtain rfl := Option.some.inj hs
      exact (nonePrioritized_addBulk_iff hinv).trans (and_iff_right h)
  | pause | resume =>
      obtain rfl := Option.some.inj hs
      exact iff_of_true h trivial
  | pick id run =>
      rw [step_pick hs]
      exact iff_of_true (nonePrioritized_change h EntryState.noConfusion) trivial
  | settle id run rejected =>
      obtain rfl := Option.some.inj hs
      exact iff_of_true (nonePrioritized_settle h) trivial
  | promote id =>
      obtain ⟨e, he, hid, rfl⟩ := step_promote hs
      have hstate : Queue.initialState e.priority 0 = .prioritized :=
        (if_neg (Nat.lt_irrefl 0)).trans (if_pos (hinv.priority_pos e he))
      refine iff_of_false (fun hall => ?_) fun h => h
      refine hall _ ((Table.mem_update (Queue.changed_id _ 0 0)).mpr
        (.inr ⟨e, he, hid, rfl⟩)) ?_
      exact hstate

/-- **The depth counts all unfinished work** after a run exactly if no entry is prioritized; and it
does all along a run exactly if nothing ever becomes prioritized. -/
theorem depth_counts_iff (attempts : ℕ) (es : List Event) (m : MainQueue)
    (h : Run (step attempts) anyStep empty es m) :
    (m.getQueueDepth = m.unfinished ↔ NonePrioritized m.queue) ∧
      (Always (step attempts) empty (fun m => m.getQueueDepth = m.unfinished) es ↔
        Run (step attempts) (stateGuard Postponed) empty es m) := by
  have hinv : Inv m.queue := h.stable (P := fun m => Inv m.queue) inv_empty
    fun _ _ _ _ hi _ hs => hi.step hs
  refine ⟨depth_eq_iff hinv, ?_⟩
  refine h.always_iff (I := fun m => Inv m.queue) inv_empty rfl fun _ _ _ _ hi hd _ hs => ?_
  have hi' := hi.step hs
  exact ⟨hi', (depth_eq_iff hi').trans (nonePrioritized_step_iff hi ((depth_eq_iff hi).mp hd) hs)⟩

/-! ## One entry -/

def shellPayload : QueueJobPayload := ⟨"j1", .shellCommand, [], "org1", 1⟩

theorem delayed_counted : ∃ m,
    Run (step 3) anyStep empty [.add shellPayload none (some 5) none] m ∧
      Always (step 3) empty (fun m => m.getQueueDepth = m.unfinished)
        [.add shellPayload none (some 5) none] := by
  have hrun : Run (step 3) (stateGuard Postponed) empty
      ([] ++ [.add shellPayload none (some 5) none]) _ := .snoc .nil (.inl (by decide)) rfl
  have hany : Run (step 3) anyStep empty ([] ++ [.add shellPayload none (some 5) none]) _ :=
    hrun.mono fun _ _ _ _ => trivial
  exact ⟨_, hany, (depth_counts_iff 3 _ _ hany).2.mpr hrun⟩

/-- **An entry without delay** is prioritized, and the depth is zero. -/
theorem prioritized_not_counted : ¬ ∀ (attempts : ℕ) (es : List Event) (m : MainQueue),
    Run (step attempts) anyStep empty es m → m.getQueueDepth = m.unfinished := by
  intro hall
  have hrun : Run (step 3) anyStep empty ([] ++ [.add shellPayload none none none]) _ :=
    .snoc .nil trivial rfl
  exact absurd (hall 3 _ _ hrun) (by decide)

end MainQueue

end TaskOrchestration

import TaskOrchestration.Lib.Credit
import TaskOrchestration.System.Step
import TaskOrchestration.Workers.Selection

set_option autoImplicit false

/-!
# The registry of the workers

Workers register, write heartbeats and change their status; health checks, of which every process
runs its own, mark the workers that have been silent for too long as `LOST` and report each of
them.

* `WorkerRow`, `WorkerTable`, the functions of `WorkerRepository`; `getWorker`, `listWorkers`,
  `getWorkerMetrics`, `refreshWorkerMetrics`;
* `LostCheck`: a call of `detectAndMarkLostWorkers`; `WorkerRegistry`, `Event`, **`step`**: single
  calls, which may fail or lose their answers;
* `marks`, `alerts`, `becomesUp`; `owed`: the reports that running checks still have to make;
* `mem_markLostWorkers`: who is marked; `find?_step`, `Present`, `present_step`;
* **`owed_step`**, `exposed_step`; **`losses_reported_once`**.
-/

namespace TaskOrchestration

open LabelledRun

structure WorkerCapabilities where
  jobTypes : List String
  maxConcurrency : ℤ
  gpuEnabled : Bool
  region : Option String := none
  labels : List (String × String) := []
  deriving DecidableEq, Repr

structure RegisterWorkerDto where
  hostname : String
  ipAddress : String
  pid : ℕ
  version : String
  capabilities : WorkerCapabilities
  deriving DecidableEq, Repr

structure WorkerHeartbeatDto where
  workerId : String
  status : WorkerStatus
  currentJobCount : ℕ
  stats : JsonObject
  timestamp : Time
  deriving DecidableEq, Repr

/-- A row of the `workers` table. The other capabilities are those of `WorkerNode`. -/
structure WorkerRow extends WorkerNode where
  hostname : String
  ipAddress : String
  pid : ℕ
  version : String
  gpuEnabled : Bool
  region : Option String
  labels : List (String × String)
  stats : JsonObject
  lastHeartbeatAt : Time
  registeredAt : Time
  updatedAt : Time
  deriving DecidableEq, Repr

abbrev WorkerTable := Table fun w : WorkerRow => w.id

namespace WorkerRepository

variable (t : WorkerTable)

def initialStats : JsonObject :=
  [("totalJobsProcessed", "0"), ("totalJobsSucceeded", "0"), ("totalJobsFailed", "0"),
    ("totalJobsTimedOut", "0"), ("averageJobDurationMs", "0"), ("uptimeMs", "0"),
    ("currentLoad", "0")]

/-- The row that `register` inserts. -/
def registered (id : String) (now : Time) (dto : RegisterWorkerDto) : WorkerRow where
  id := id
  status := .online
  jobTypes := dto.capabilities.jobTypes
  currentJobCount := 0
  maxConcurrency := dto.capabilities.maxConcurrency
  hostname := dto.hostname
  ipAddress := dto.ipAddress
  pid := dto.pid
  version := dto.version
  gpuEnabled := dto.capabilities.gpuEnabled
  region := dto.capabilities.region
  labels := dto.capabilities.labels
  stats := initialStats
  lastHeartbeatAt := now
  registeredAt := now
  updatedAt := now

/-- An id that is taken violates the primary key. -/
def register (id : String) (now : Time) (dto : RegisterWorkerDto) : Option WorkerTable :=
  t.insert? (registered id now dto)

def findById (id : String) : Option WorkerRow := t.find? id

/-- Without a filter every row is returned. -/
def findAll (statuses : Option (List WorkerStatus)) : List WorkerRow :=
  t.rows.filter fun w => statuses.all (w.status ∈ ·)

def heartbeat (dto : WorkerHeartbeatDto) (now : Time) : WorkerTable :=
  t.update dto.workerId (fun w =>
    { w with
      status := dto.status
      currentJobCount := dto.currentJobCount
      lastHeartbeatAt := dto.timestamp
      stats := dto.stats
      updatedAt := now }) fun _ => rfl

def updateStatus (id : String) (status : WorkerStatus) (now : Time) : WorkerTable :=
  t.update id (fun w => { w with status := status, updatedAt := now }) fun _ => rfl

/-- The worker is available, and its heartbeat is older than the threshold. -/
def stale (heartbeatTimeoutMs now : Time) (w : WorkerRow) : Bool :=
  w.up && decide (w.lastHeartbeatAt < now - heartbeatTimeoutMs)

/-- **Mark the silent workers**, and return their ids. -/
def markLostWorkers (heartbeatTimeoutMs now : Time) : WorkerTable × List String :=
  (t.updateWhere (stale heartbeatTimeoutMs now)
      (fun w => { w with status := .lost, updatedAt := now }) fun _ => rfl,
    (t.rows.filter (stale heartbeatTimeoutMs now)).map (·.id))

/-- `GREATEST(0, current_job_count + delta)`. -/
def incrementJobCount (id : String) (delta : ℤ) (now : Time) : WorkerTable :=
  t.update id (fun w =>
    { w with currentJobCount := ((w.currentJobCount : ℤ) + delta).toNat, updatedAt := now })
    fun _ => rfl

variable {t} {heartbeatTimeoutMs now : Time} {id : String}

/-- **Who is marked.** -/
theorem mem_markLostWorkers : id ∈ (markLostWorkers t heartbeatTimeoutMs now).2 ↔
    ∃ w, t.find? id = some w ∧ stale heartbeatTimeoutMs now w = true := by
  rw [markLostWorkers, List.mem_map]
  constructor
  · rintro ⟨w, hw, rfl⟩
    obtain ⟨hmem, hstale⟩ := List.mem_filter.mp hw
    exact ⟨w, Table.mem_iff_find?.mp hmem, hstale⟩
  · rintro ⟨w, hw, hstale⟩
    obtain ⟨hmem, hid⟩ := Table.find?_eq_some.mp hw
    exact ⟨w, List.mem_filter.mpr ⟨hmem, hstale⟩, hid⟩

theorem nodup_markLostWorkers : (markLostWorkers t heartbeatTimeoutMs now).2.Nodup :=
  t.nodup.sublist (List.filter_sublist.map _)

theorem find?_markLostWorkers : (markLostWorkers t heartbeatTimeoutMs now).1.find? id =
    (t.find? id).map fun w => if stale heartbeatTimeoutMs now w then
      { w with status := .lost, updatedAt := now } else w := by
  rw [markLostWorkers, Table.find?_updateWhere]

end WorkerRepository

/-! ## The service -/

namespace WorkerService

variable (t : WorkerTable)

def getWorker (id : String) : Except String WorkerRow :=
  match WorkerRepository.findById t id with
  | none => .error ("Worker not found: " ++ id)
  | some worker => .ok worker

def listWorkers (statuses : Option (List WorkerStatus)) : List WorkerRow :=
  WorkerRepository.findAll t statuses

structure WorkerMetrics where
  total : ℕ
  online : ℕ
  busy : ℕ
  offline : ℕ
  lost : ℕ
  totalCapacity : ℤ
  usedCapacity : ℕ
  deriving DecidableEq, Repr

def getWorkerMetrics : WorkerMetrics :=
  let all := WorkerRepository.findAll t none
  let byStatus := fun status => all.countP (·.status = status)
  { total := all.length
    online := byStatus .online
    busy := byStatus .busy
    offline := byStatus .offline
    lost := byStatus .lost
    totalCapacity := (all.map (·.maxConcurrency)).sum
    usedCapacity := (all.map (·.currentJobCount)).sum }

/-- **Only draining workers are left out** of the counts by status. -/
theorem getWorkerMetrics_total : (getWorkerMetrics t).total = (getWorkerMetrics t).online +
    (getWorkerMetrics t).busy + (getWorkerMetrics t).offline + (getWorkerMetrics t).lost +
    (listWorkers t (some [.draining])).length := by
  have hall : WorkerRepository.findAll t none = t.rows := List.filter_eq_self.mpr fun _ _ => rfl
  have hdraining : (listWorkers t (some [.draining])).length =
      t.rows.countP (·.status = .draining) := by
    rw [listWorkers, WorkerRepository.findAll, ← List.countP_eq_length_filter]
    exact List.countP_congr fun w _ => by simp
  rw [hdraining]
  simp only [getWorkerMetrics, hall]
  induction t.rows with
  | nil => rfl
  | cons w rows ih =>
      simp only [List.length_cons, List.countP_cons, ih]
      cases w.status <;> simp <;> omega

end WorkerService

/-- The gauge of the workers by status. -/
def HealthCheck.refreshWorkerMetrics (t : WorkerTable) : List (WorkerStatus × ℕ) :=
  let metrics := WorkerService.getWorkerMetrics t
  [(.online, metrics.online), (.busy, metrics.busy), (.offline, metrics.offline),
    (.lost, metrics.lost)]

/-! ## The checks -/

/-- A call of `detectAndMarkLostWorkers`: the update has been sent; the row of `id` is being
read; it is being reported; the call has returned or thrown. -/
inductive LostCheck
  | marking (heartbeatTimeoutMs : Time)
  | finding (lostIds : List String) (id : String) (rest : List String)
  | notifying (lostIds : List String) (id hostname : String) (rest : List String)
  | returned (lostIds : List String)
  | rejected
  deriving DecidableEq, Repr

namespace LostCheck

/-- The loop goes on. -/
def next (lostIds : List String) : List String → LostCheck
  | [] => .returned lostIds
  | id :: rest => .finding lostIds id rest

/-- The reports of the worker that the call still has to make. -/
def owes (id : String) : LostCheck → ℕ
  | .finding _ id' rest => (id' :: rest).count id
  | .notifying _ _ _ rest => rest.count id
  | _ => 0

@[simp] theorem owes_next (id : String) (lostIds rest : List String) :
    (next lostIds rest).owes id = rest.count id := by
  cases rest <;> rfl

end LostCheck

/-- The table, and the calls of `detectAndMarkLostWorkers` in all processes. -/
structure WorkerRegistry where
  workers : WorkerTable := Table.empty
  checks : List LostCheck := []

namespace WorkerRegistry

inductive Event
  | register (id : String) (now : Time) (dto : RegisterWorkerDto)
  | heartbeat (dto : WorkerHeartbeatDto) (now : Time)
  | updateStatus (id : String) (status : WorkerStatus) (now : Time)
  | incrementJobCount (id : String) (delta : ℤ) (now : Time)
  | detect (heartbeatTimeoutMs : Time)
  /-- The query of a check. -/
  | call (check : ℕ) (now : Time) (outcome : Outcome)
  /-- `notifyWorkerLost` settles, which never throws. -/
  | notified (check : ℕ)
  | crash (check : ℕ)
  deriving DecidableEq, Repr

def moveCheck (s : WorkerRegistry) (k : ℕ) (c : LostCheck) : WorkerRegistry :=
  { s with checks := s.checks.set k c }

/-- The check `k` comes to the answer of its query. -/
def answer (s : WorkerRegistry) (k : ℕ) (now : Time) : LostCheck → Outcome → Option WorkerRegistry
  | .marking timeout, outcome =>
      let marked := WorkerRepository.markLostWorkers s.workers timeout now
      match outcome with
      | .ok => some ({ s with workers := marked.1 }.moveCheck k (.next marked.2 marked.2))
      | .lost => some ({ s with workers := marked.1 }.moveCheck k .rejected)
      | .fail => some (s.moveCheck k .rejected)
  | .finding lostIds id rest, .ok =>
      match WorkerRepository.findById s.workers id with
      | some worker => some (s.moveCheck k (.notifying lostIds id worker.hostname rest))
      | none => some (s.moveCheck k (.next lostIds rest))
  | .finding _ _ _, _ => some (s.moveCheck k .rejected)
  | _, _ => none

def step (s : WorkerRegistry) : Event → Option WorkerRegistry
  | .register id now dto =>
      (WorkerRepository.register s.workers id now dto).map fun t => { s with workers := t }
  | .heartbeat dto now => some { s with workers := WorkerRepository.heartbeat s.workers dto now }
  | .updateStatus id status now =>
      some { s with workers := WorkerRepository.updateStatus s.workers id status now }
  | .incrementJobCount id delta now =>
      some { s with workers := WorkerRepository.incrementJobCount s.workers id delta now }
  | .detect timeout => some { s with checks := s.checks ++ [.marking timeout] }
  | .call k now outcome => s.checks[k]?.bind fun c => s.answer k now c outcome
  | .notified k =>
      match s.checks[k]? with
      | some (.notifying lostIds _ _ rest) => some (s.moveCheck k (.next lostIds rest))
      | _ => none
  | .crash k => if k < s.checks.length then some (s.moveCheck k .rejected) else none

/-! ## What is counted -/

variable (id : String) (s : WorkerRegistry)

/-- The update of a check marks the worker, whether the check is told or not. -/
def marks : Event → Bool
  | .call k now outcome =>
      match s.checks[k]? with
      | some (.marking timeout) =>
          outcome ≠ .fail &&
            decide (id ∈ (WorkerRepository.markLostWorkers s.workers timeout now).2)
      | _ => false
  | _ => false

/-- A check reports the worker. -/
def alerts : Event → Bool
  | .call k _ .ok =>
      match s.checks[k]? with
      | some (.finding _ id' _) =>
          id' = id && (WorkerRepository.findById s.workers id').isSome
      | _ => false
  | _ => false

def isUp : Bool := (s.workers.find? id).any fun w => w.up

/-- The loss that an available worker may come to. -/
def exposed : ℕ := if isUp id s then 1 else 0

def becomesUp (e : Event) : Bool := (s.step e).any fun s' => isUp id s' && !isUp id s

/-- **The reports of the worker that are still to be made.** -/
def owed : ℕ := (s.checks.map (LostCheck.owes id)).sum

/-- No query of a check fails, and no process with a check crashes. -/
def Answered (_ : WorkerRegistry) : Event → Prop
  | .call _ _ outcome => outcome = .ok
  | .crash _ => False
  | _ => True

instance (s : WorkerRegistry) : DecidablePred (Answered s) := fun e => by
  cases e <;> unfold Answered <;> infer_instance

/-! ## The rows stay -/

/-- The rows are still there, with their host names. -/
def Keeps (t t' : WorkerTable) : Prop :=
  ∀ id w, t.find? id = some w → ∃ w', t'.find? id = some w' ∧ w'.hostname = w.hostname

theorem Keeps.refl (t : WorkerTable) : Keeps t t := fun _ w h => ⟨w, h, rfl⟩

theorem keeps_updateWhere (t : WorkerTable) (p : WorkerRow → Bool) {f : WorkerRow → WorkerRow}
    (hf : ∀ w, (f w).id = w.id) (hhost : ∀ w, (f w).hostname = w.hostname) :
    Keeps t (t.updateWhere p f hf) := by
  intro id w hw
  rw [Table.find?_updateWhere, hw, Option.map_some]
  refine ⟨_, rfl, ?_⟩
  split_ifs
  · exact hhost w
  · rfl

theorem keeps_register {t t' : WorkerTable} {id : String} {now : Time} {dto : RegisterWorkerDto}
    (h : WorkerRepository.register t id now dto = some t') : Keeps t t' := by
  intro id' w hw
  rw [Table.find?_insert h]
  split_ifs with hid
  · -- the id was free
    rw [hid, (Table.insert?_eq_some.mp h).1] at hw
    cases hw
  · exact ⟨w, hw, rfl⟩

/-! ## What a step can do -/

inductive StepTo (s : WorkerRegistry) : Event → WorkerRegistry → Prop
  | written {e : Event} {t : WorkerTable} (ht : Keeps s.workers t)
      (hm : ∀ id, marks id s e = false) (ha : ∀ id, alerts id s e = false) :
      StepTo s e { s with workers := t }
  | detect (timeout : Time) :
      StepTo s (.detect timeout) { s with checks := s.checks ++ [.marking timeout] }
  | marked {k : ℕ} {now timeout : Time} (hk : s.checks[k]? = some (.marking timeout)) :
      StepTo s (.call k now .ok)
        ({ s with workers := (WorkerRepository.markLostWorkers s.workers timeout now).1 }.moveCheck
          k (.next (WorkerRepository.markLostWorkers s.workers timeout now).2
            (WorkerRepository.markLostWorkers s.workers timeout now).2))
  | markedLost {k : ℕ} {now timeout : Time} (hk : s.checks[k]? = some (.marking timeout)) :
      StepTo s (.call k now .lost)
        ({ s with workers := (WorkerRepository.markLostWorkers s.workers timeout now).1 }.moveCheck
          k .rejected)
  | found {k : ℕ} {now : Time} {lostIds rest : List String} {id : String} {worker : WorkerRow}
      (hk : s.checks[k]? = some (.finding lostIds id rest))
      (hw : s.workers.find? id = some worker) :
      StepTo s (.call k now .ok) (s.moveCheck k (.notifying lostIds id worker.hostname rest))
  | gone {k : ℕ} {now : Time} {lostIds rest : List String} {id : String}
      (hk : s.checks[k]? = some (.finding lostIds id rest)) (hw : s.workers.find? id = none) :
      StepTo s (.call k now .ok) (s.moveCheck k (.next lostIds rest))
  | notified {k : ℕ} {lostIds rest : List String} {id hostname : String}
      (hk : s.checks[k]? = some (.notifying lostIds id hostname rest)) :
      StepTo s (.notified k) (s.moveCheck k (.next lostIds rest))
  | rejected {e : Event} {k : ℕ} {c : LostCheck} (hk : s.checks[k]? = some c)
      (hm : ∀ id, marks id s e = false) (ha : ∀ id, alerts id s e = false)
      (hno : ¬ Answered s e) : StepTo s e (s.moveCheck k .rejected)

variable {id : String} {s s' : WorkerRegistry} {e : Event}

theorem stepTo_of_answer {k : ℕ} {now : Time} {c : LostCheck} {outcome : Outcome}
    (hk : s.checks[k]? = some c) (h : s.answer k now c outcome = some s') :
    StepTo s (.call k now outcome) s' := by
  cases c with
  | marking timeout =>
      cases outcome with
      | ok =>
          obtain rfl := Option.some.inj h
          exact .marked hk
      | lost =>
          obtain rfl := Option.some.inj h
          exact .markedLost hk
      | fail =>
          obtain rfl := Option.some.inj h
          exact .rejected hk (fun id => by simp [marks, hk]) (fun _ => rfl) Outcome.noConfusion
  | finding lostIds id rest =>
      have hm : ∀ id' now outcome, marks id' s (.call k now outcome) = false := fun id' now o => by
        simp only [marks, hk]
      cases outcome with
      | ok =>
          simp only [answer, WorkerRepository.findById] at h
          split at h
          · rename_i worker hw
            obtain rfl := Option.some.inj h
            exact .found hk hw
          · rename_i hw
            obtain rfl := Option.some.inj h
            exact .gone hk hw
      | lost | fail =>
          obtain rfl := Option.some.inj h
          exact .rejected hk (fun _ => hm _ _ _) (fun _ => rfl) Outcome.noConfusion
  | notifying _ _ _ _ | returned _ | rejected => cases outcome <;> cases h

theorem stepTo_of_step (hs : s.step e = some s') : StepTo s e s' := by
  cases e with
  | register id now dto =>
      obtain ⟨t, ht, rfl⟩ := Option.map_eq_some_iff.mp hs
      exact .written (keeps_register ht) (fun _ => rfl) fun _ => rfl
  | heartbeat dto now | updateStatus id status now | incrementJobCount id delta now =>
      obtain rfl := Option.some.inj hs
      exact .written (keeps_updateWhere _ _ (fun _ => by rfl) fun _ => rfl)
        (fun _ => rfl) fun _ => rfl
  | detect timeout =>
      obtain rfl := Option.some.inj hs
      exact .detect timeout
  | call k now outcome =>
      obtain ⟨c, hk, hc⟩ := Option.bind_eq_some_iff.mp hs
      exact stepTo_of_answer hk hc
  | notified k =>
      simp only [step] at hs
      split at hs
      · rename_i hk
        obtain rfl := Option.some.inj hs
        exact .notified hk
      · cases hs
  | crash k =>
      simp only [step] at hs
      split_ifs at hs with hk
      obtain rfl := Option.some.inj hs
      exact .rejected (List.getElem?_eq_getElem hk) (fun _ => rfl) (fun _ => rfl) id

theorem keeps_step (hs : s.step e = some s') : Keeps s.workers s'.workers := by
  cases stepTo_of_step hs with
  | written ht => exact ht
  | marked | markedLost => exact keeps_updateWhere _ _ (fun _ => by rfl) fun _ => rfl
  | detect | found | gone | notified | rejected => exact Keeps.refl _

/-! ## The workers of the checks -/

/-- The workers that a check is about to report are in the table, and the one that it reports
is there under the host name it reports. -/
structure Present (t : WorkerTable) (c : LostCheck) : Prop where
  owed : ∀ id, 0 < c.owes id → (t.find? id).isSome
  named : ∀ lostIds id hostname rest, c = .notifying lostIds id hostname rest →
    ∃ w, t.find? id = some w ∧ w.hostname = hostname

theorem Present.mono {t t' : WorkerTable} {c : LostCheck} (h : Present t c) (ht : Keeps t t') :
    Present t' c where
  owed id hpos := by
    obtain ⟨w, hw⟩ := Option.isSome_iff_exists.mp (h.owed id hpos)
    obtain ⟨w', hw', -⟩ := ht id w hw
    exact Option.isSome_iff_exists.mpr ⟨w', hw'⟩
  named lostIds id hostname rest hc := by
    obtain ⟨w, hw, hname⟩ := h.named lostIds id hostname rest hc
    obtain ⟨w', hw', hsame⟩ := ht id w hw
    exact ⟨w', hw', hsame.trans hname⟩

theorem present_next {t : WorkerTable} {lostIds rest : List String}
    (h : ∀ id ∈ rest, (t.find? id).isSome) : Present t (.next lostIds rest) where
  owed id hpos := by
    rw [LostCheck.owes_next] at hpos
    exact h id (List.count_pos_iff.mp hpos)
  named l id hostname r hc := by cases rest <;> cases hc

theorem present_rejected (t : WorkerTable) : Present t .rejected where
  owed _ hpos := absurd hpos (Nat.lt_irrefl 0)
  named _ _ _ _ hc := by cases hc

theorem present_step (h : ∀ c ∈ s.checks, Present s.workers c) (hs : s.step e = some s') :
    ∀ c ∈ s'.checks, Present s'.workers c := by
  have hkept : ∀ c ∈ s.checks, Present s'.workers c := fun c hc => (h c hc).mono (keeps_step hs)
  have hset : ∀ {k : ℕ} {c' : LostCheck}, Present s'.workers c' →
      ∀ c ∈ s.checks.set k c', Present s'.workers c := by
    intro k c' hc' c hc
    rcases List.mem_or_eq_of_mem_set hc with hc | rfl
    · exact hkept c hc
    · exact hc'
  cases stepTo_of_step hs with
  | written => exact hkept
  | detect timeout =>
      intro c hc
      rcases List.mem_append.mp hc with hc | hc
      · exact hkept c hc
      · obtain rfl := List.mem_singleton.mp hc
        exact ⟨fun _ hpos => absurd hpos (Nat.lt_irrefl 0), fun _ _ _ _ hc => by cases hc⟩
  | marked hk =>
      refine hset (present_next fun id hid => ?_)
      obtain ⟨w, hw, -⟩ := WorkerRepository.mem_markLostWorkers.mp hid
      obtain ⟨w', hw', -⟩ := keeps_step hs id w hw
      exact Option.isSome_iff_exists.mpr ⟨w', hw'⟩
  | markedLost | rejected => exact hset (present_rejected _)
  | found hk hw =>
      have hc := hkept _ (List.mem_of_getElem? hk)
      refine hset ⟨fun id hpos => hc.owed id ?_, fun _ _ _ _ heq => ?_⟩
      · exact hpos.trans_le (List.count_le_count_cons)
      · cases heq
        exact ⟨_, hw, rfl⟩
  | gone hk =>
      have hc := hkept _ (List.mem_of_getElem? hk)
      exact hset (present_next fun id hid => hc.owed id
        (List.count_pos_iff.mpr (List.mem_cons_of_mem _ hid)))
  | notified hk =>
      have hc := hkept _ (List.mem_of_getElem? hk)
      exact hset (present_next fun id hid => hc.owed id (List.count_pos_iff.mpr hid))

/-! ## Every loss is reported once -/

theorem owed_moveCheck (id : String) {k : ℕ} {c : LostCheck} (t : WorkerTable)
    (hk : s.checks[k]? = some c) (c' : LostCheck) :
    owed id ({ s with workers := t }.moveCheck k c') + c.owes id = owed id s + c'.owes id :=
  sum_map_set_add hk

/-- **The step lemma** of the account: a report is paid for by a loss, and no loss is forgotten
as long as the queries are answered. -/
theorem owed_step (h : ∀ c ∈ s.checks, Present s.workers c) (hs : s.step e = some s') :
    owed id s' + (if alerts id s e then 1 else 0) ≤ owed id s + (if marks id s e then 1 else 0) ∧
    (Answered s e →
      owed id s' + (if alerts id s e then 1 else 0) =
        owed id s + if marks id s e then 1 else 0) := by
  cases stepTo_of_step hs with
  | written _ hm ha =>
      rw [hm, ha]
      exact ⟨le_rfl, fun _ => rfl⟩
  | detect timeout =>
      have heq : owed id { s with checks := s.checks ++ [.marking timeout] } = owed id s := by
        simp [owed, LostCheck.owes]
      rw [heq]
      exact ⟨le_rfl, fun _ => rfl⟩
  | @marked k now timeout hk =>
      have hsum := owed_moveCheck id
        (WorkerRepository.markLostWorkers s.workers timeout now).1 hk
        (.next (WorkerRepository.markLostWorkers s.workers timeout now).2
          (WorkerRepository.markLostWorkers s.workers timeout now).2)
      rw [LostCheck.owes_next, WorkerRepository.nodup_markLostWorkers.count] at hsum
      have hnone : alerts id s (.call k now .ok) = false := by simp only [alerts, hk]
      have hmarks : marks id s (.call k now .ok) =
          decide (id ∈ (WorkerRepository.markLostWorkers s.workers timeout now).2) := by
        simp [marks, hk]
      have heq : owed id _ + 0 = owed id s + _ := hsum
      rw [hnone, hmarks]
      simp only [decide_eq_true_eq, Bool.false_eq_true, if_false]
      exact ⟨heq.le, fun _ => heq⟩
  | @markedLost k now timeout hk =>
      have hsum := owed_moveCheck id
        (WorkerRepository.markLostWorkers s.workers timeout now).1 hk .rejected
      have heq : owed id _ + 0 = owed id s + 0 := hsum
      refine ⟨?_, fun h => absurd h Outcome.noConfusion⟩
      change owed id _ + 0 ≤ _
      omega
  | @found k now lostIds rest i worker hk hw =>
      have hsum : owed id (s.moveCheck k (.notifying lostIds i worker.hostname rest)) +
          (i :: rest).count id = owed id s + rest.count id :=
        owed_moveCheck id s.workers hk _
      have hmarks : marks id s (.call k now .ok) = false := by simp only [marks, hk]
      have halerts : alerts id s (.call k now .ok) = decide (i = id) := by
        simp [alerts, hk, WorkerRepository.findById, hw]
      rw [List.count_cons] at hsum
      rw [hmarks, halerts]
      simp only [beq_iff_eq] at hsum
      simp only [decide_eq_true_eq, Bool.false_eq_true, if_false]
      have heq : owed id (s.moveCheck k (.notifying lostIds i worker.hostname rest)) +
          (if i = id then 1 else 0) = owed id s + 0 := by omega
      exact ⟨heq.le, fun _ => heq⟩
  | @gone k now lostIds rest i hk hw =>
      -- the row has been there since it was marked
      have hpos : 0 < (LostCheck.finding lostIds i rest).owes i :=
        List.count_pos_iff.mpr List.mem_cons_self
      have hsome := (h _ (List.mem_of_getElem? hk)).owed i hpos
      rw [hw] at hsome
      cases hsome
  | @notified k lostIds rest i hostname hk =>
      have hsum := owed_moveCheck id s.workers hk (.next lostIds rest)
      rw [LostCheck.owes_next] at hsum
      have heq : owed id (s.moveCheck k (.next lostIds rest)) = owed id s :=
        Nat.add_right_cancel hsum
      rw [heq]
      exact ⟨le_rfl, fun _ => rfl⟩
  | @rejected _ k c hk hm ha hno =>
      have hsum := owed_moveCheck id s.workers hk .rejected
      rw [hm, ha]
      refine ⟨?_, fun h => absurd h hno⟩
      have hle : owed id (s.moveCheck k .rejected) + c.owes id = owed id s := hsum
      simp only [Bool.false_eq_true, if_false]
      omega

/-- A worker is marked when it is available, and is not so afterwards. -/
theorem exposed_step (hs : s.step e = some s') :
    exposed id s' + (if marks id s e then 1 else 0) ≤
      exposed id s + if becomesUp id s e then 1 else 0 := by
  have hup : becomesUp id s e = (isUp id s' && !isUp id s) := by
    rw [becomesUp, hs, Option.any_some]
  rw [hup, exposed, exposed]
  have hdone : ∀ {k : ℕ} {now timeout : Time} {outcome : Outcome},
      s.checks[k]? = some (.marking timeout) →
      s'.workers = (WorkerRepository.markLostWorkers s.workers timeout now).1 →
      marks id s (.call k now outcome) = true → isUp id s = true ∧ isUp id s' = false := by
    intro k now timeout outcome hk ht hm
    simp only [marks, hk, Bool.and_eq_true, decide_eq_true_eq] at hm
    obtain ⟨w, hw, hstale⟩ := WorkerRepository.mem_markLostWorkers.mp hm.2
    have hwup : w.up = true := (Bool.and_eq_true _ _ ▸ hstale : _ ∧ _).1
    constructor
    · rw [isUp, hw]
      exact hwup
    · rw [isUp, ht, WorkerRepository.find?_markLostWorkers, hw, Option.map_some, if_pos hstale]
      rfl
  have hmarks : marks id s e = true → isUp id s = true ∧ isUp id s' = false := by
    cases stepTo_of_step hs with
    | written _ hm | rejected _ hm => exact fun h => absurd (hm id) (h ▸ Bool.noConfusion)
    | detect | notified => exact fun h => absurd h Bool.noConfusion
    | marked hk | markedLost hk => exact hdone hk rfl
    | found hk | gone hk => exact fun h => by simp [marks, hk] at h
  cases hm : marks id s e with
  | true =>
      obtain ⟨hbefore, hafter⟩ := hmarks hm
      rw [hbefore, hafter]
      decide
  | false => cases isUp id s <;> cases isUp id s' <;> decide

variable {es : List Event}

/-- **Every loss of a worker is reported at most once**, however many checks run at the same time,
and exactly once, now or by a check that is still running, if all queries of the checks are
answered; a worker is lost at most once for each time it has become available; and a report gives
the host name with which the worker has registered. -/
theorem losses_reported_once (h : Run step anyStep {} es s) (id : String) :
    tally step (alerts id) {} es ≤ tally step (marks id) {} es ∧
    tally step (marks id) {} es ≤ tally step (becomesUp id) {} es ∧
    (Run step (stateGuard Answered) {} es s →
      tally step (alerts id) {} es + owed id s = tally step (marks id) {} es) ∧
    ∀ lostIds hostname rest, .notifying lostIds id hostname rest ∈ s.checks →
      ∃ w, s.workers.find? id = some w ∧ w.hostname = hostname := by
  have h₀ : ∀ c ∈ ({} : WorkerRegistry).checks, Present ({} : WorkerRegistry).workers c :=
    fun _ hc => absurd hc List.not_mem_nil
  refine ⟨?_, ?_, fun hall => ?_, fun lostIds hostname rest hmem => ?_⟩
  · have hle : tally step (alerts id) {} es + owed id s ≤ 0 + tally step (marks id) {} es :=
      h.spent_add_left_le h₀ fun _ _ _ _ hI _ hs => ⟨present_step hI hs, (owed_step hI hs).1⟩
    omega
  · have hle : tally step (marks id) {} es + exposed id s ≤
        0 + tally step (becomesUp id) {} es :=
      h.spent_add_left_le (I := fun _ => True) trivial
        fun _ _ _ _ _ _ hs => ⟨trivial, exposed_step hs⟩
    omega
  · have heq : tally step (alerts id) {} es + owed id s = 0 + tally step (marks id) {} es :=
      hall.spent_add_left_eq h₀ fun _ _ _ _ hI hok hs =>
        ⟨present_step hI hs, (owed_step hI hs).2 hok⟩
    omega
  · have hI := h.stable (P := fun s => ∀ c ∈ s.checks, Present s.workers c) h₀
      fun _ _ _ _ hI _ hs => present_step hI hs
    exact (hI _ hmem).named lostIds id hostname rest rfl

/-- A worker that has been silent for 31 seconds, and two processes that check at the same time. -/
theorem silent_worker_reported : ∃ es s, Run step anyStep {} es s ∧
    tally step (marks "w1") {} es = 1 ∧ owed "w1" s = 0 ∧
    tally step (alerts "w1") {} es ≤ tally step (marks "w1") {} es := by
  obtain ⟨s, hs, howed⟩ := exists_run_of_check step anyStep {}
    [.register "w1" 0 ⟨"node-a", "10.0.0.7", 17, "1.0.0", ⟨["CUSTOM"], 10, false, none, []⟩⟩,
      .detect 30000, .detect 30000, .call 0 31000 .ok, .call 1 31001 .ok, .call 0 31002 .ok,
      .notified 0] (fun s => owed "w1" s = 0) (by decide)
  exact ⟨_, s, hs, by decide, of_decide_eq_true howed, (losses_reported_once hs "w1").1⟩

end WorkerRegistry

end TaskOrchestration

import TaskOrchestration.System.Final

set_option autoImplicit false

/-!
# Queued jobs and their entries

The entry of a job has a fixed id, and BullMQ keeps finished entries. A later `add` of the same
job therefore adds nothing, whatever became of the entry that is there.

* `Sys.serves`: the entry will still be delivered, or its run still has a status of the job to
  write;
* `AddsServed`: what an `add` must find; `QueuedServed`: the invariant it keeps;
* **`queued_has_entry`**; `retried_job_not_queued`: the `add` after a retry finds a finished entry.
-/

namespace TaskOrchestration

open LabelledRun JobService JobRepository

/-- The run has not read the row yet, or still has a status to write. -/
def ProcessPc.serves : ProcessPc → Bool
  | fetch => true
  | pc => pc.mayChange .queued

theorem ProcessPc.serves_of_ended {pc : ProcessPc} {rejected : Bool}
    (h : pc.ended = some rejected) : pc.serves = false := by
  cases pc with
  | resolved | rejected => rfl
  | _ => cases h

namespace Op

/-- The operation belongs to `scheduleReadyJobs`. -/
def scheduling : Op → Bool
  | scheduleReadyJobs | enqueue .. | revert .. => true
  | _ => false

/-- The job that the operation adds to the queue. -/
def added : Op → Option JobId
  | enqueue job _ => some job.id
  | _ => none

variable {cfg : Config} {op op' : Op} {k : JobId}

theorem isOrphan_of_pending_queued {second : Bool} {dto : UpdateJobDto}
    (hc : op.pending cfg second = some (.update k dto)) (hd : dto.status = some .queued) :
    op.isOrphan = true := by
  unfold pending at hc
  split at hc
  case h_1 =>
    unfold ProcessPc.call at hc
    split at hc <;> simp only [Option.some.injEq, Call.update.injEq, reduceCtorEq] at hc
    all_goals
      obtain ⟨-, rfl⟩ := hc
      cases hd
  all_goals simp only [Option.some.injEq, Call.update.injEq, reduceCtorEq] at hc
  case h_6 job jobs now =>
    obtain ⟨-, rfl⟩ := hc
    unfold recoverDto at hd
    split_ifs at hd <;> cases hd
  case h_15 => rfl
  all_goals
    obtain ⟨-, rfl⟩ := hc
    cases hd

theorem of_pending_claim {second : Bool} {limit : ℕ}
    (hc : op.pending cfg second = some (.claimPendingJobs limit)) (ho : op.isOrphan = false) :
    op = .scheduleReadyJobs := by
  unfold pending at hc
  split at hc
  case h_1 =>
    unfold ProcessPc.call at hc
    split at hc <;> cases hc
  case h_2 => rfl
  case h_15 => cases ho
  all_goals cases hc

theorem not_isOrphan_abort_of_create {second : Bool} {id : JobId} {dto : CreateJobDto}
    (hc : op.pending cfg second = some (.create id dto))
    (h : op' = (op.abort second).1 ∨ op' ∈ (op.abort second).2) : op'.isOrphan = false := by
  unfold pending at hc
  split at hc
  case h_1 =>
    unfold ProcessPc.call at hc
    split at hc <;> cases hc
  case h_14 | h_15 =>
    rcases h with rfl | h
    · rfl
    · cases h
  all_goals cases hc

end Op

/-- **A run keeps serving its job**, when it finds the row of the job `QUEUED` and does not write
its status. -/
theorem ProcessPc.serves_resume {g : DependencyResolver.Graph} {now : Time} {workerId : String}
    {data : QueueJobPayload} {pc : ProcessPc} {second : Bool} {c : Call} {st st' : Store}
    {locked : List JobId} {reply : Reply} {r : Job} (hs : pc.serves = true)
    (hc : pc.call workerId data second = some c)
    (hx : st.exec now locked c = some (st', reply))
    (hr : st.jobs.find? data.jobId = some r) (hq : r.status = .queued)
    (hw : Sys.setsStatus data.jobId c = none) :
    (pc.resume g now data second reply).1.serves = true := by
  cases pc with
  | fetch =>
      cases second with
      | true => cases hc
      | false =>
          obtain rfl := Option.some.inj hc
          obtain ⟨-, hrep⟩ := Prod.mk.inj (Option.some.inj hx)
          rw [← hrep, findById, hr, resume]
          dsimp only
          rw [if_neg (by rw [hq]; decide)]
          rfl
  | createLog job startedAt =>
      cases second with
      | true => cases hc
      | false =>
          obtain rfl := Option.some.inj hc
          obtain ⟨-, hrep⟩ := Prod.mk.inj (Option.some.inj hx)
          rw [← hrep]
          rfl
  | success result id t rowWritten logWritten =>
      cases rowWritten with
      | true => cases hs
      | false =>
          cases second with
          | true =>
              cases logWritten with
              | true => cases hc
              | false => rfl
          | false =>
              obtain rfl := Option.some.inj hc
              simp [Sys.setsStatus] at hw
  | failRead f =>
      cases second with
      | true => cases hc
      | false =>
          obtain rfl := Option.some.inj hc
          obtain ⟨-, hrep⟩ := Prod.mk.inj (Option.some.inj hx)
          rw [← hrep, findById, hr]
          rfl
  | failLog job f =>
      rw [resume]
      dsimp only
      split_ifs <;> rfl
  | setRunning job id startedAt | failRetry job | failFinal job f =>
      cases second with
      | true => cases hc
      | false =>
          obtain rfl := Option.some.inj hc
          simp [Sys.setsStatus] at hw
  | execute job id | executing job id => cases second <;> cases hc
  | failDlq job f | notify status more | metrics | resolved | rejected => cases hs

namespace Sys

variable {cfg : Config} {s s' : Sys} {e : Event} {k : JobId}

/-- The run number `run` holds the entry `id` and still serves the job `k`. -/
def runServes (s : Sys) (k : JobId) (id : EntryId) (run : ℕ) : Bool :=
  match s.ops[run]? with
  | some (.processJob _ _ entry data pc) => entry = id && data.jobId = k && pc.serves
  | _ => false

/-- **The entry serves the job `k`**: it will be delivered, or it is active and its run has not
read the row yet, or still has a status to write. -/
def serves (s : Sys) (k : JobId) (en : Entry) : Bool :=
  en.data.jobId = k &&
    match en.state with
    | .waiting | .prioritized | .delayed => true
    | .active run => s.runServes k en.id run
    | .completed | .failed => false

theorem serves_of_initialState {en : Entry} (priority delayMs : ℕ)
    (h : en.state = Queue.initialState priority delayMs) : s.serves en.data.jobId en = true := by
  have hst : en.state = .waiting ∨ en.state = .prioritized ∨ en.state = .delayed := by
    rw [h]
    unfold Queue.initialState
    split_ifs <;> simp
  unfold serves
  rcases hst with hst | hst | hst <;> simp [hst]

def Served (s : Sys) (k : JobId) : Prop := ∃ en ∈ s.store.queue.entries.rows, s.serves k en = true

instance (s : Sys) (k : JobId) : Decidable (Served s k) := by
  unfold Served; infer_instance

/-- **The condition on an `add`**: the queue holds no entry `job_<id>`, or some entry serves the
job. -/
def AddsServed (cfg : Config) (s : Sys) (e : Event) : Prop :=
  ∀ q ∈ s.calling cfg e, ∀ k ∈ q.1.added,
    (s.store.queue.entries.find? (.job k)).isSome → Served s k

instance (cfg : Config) (s : Sys) (e : Event) : Decidable (AddsServed cfg s e) := by
  unfold AddsServed; infer_instance

/-- **A `QUEUED` job is really in the queue** when no `scheduleReadyJobs` is in flight. -/
def QueuedHasEntry (s : Sys) : Prop :=
  (∀ op ∈ s.ops, op.scheduling = false) → ∀ r ∈ s.store.jobs, r.status = .queued →
    ∃ en ∈ s.store.queue.entries, en.data.jobId = r.id ∧ en.state.Live

/-- **The invariant**: a `QUEUED` job waits for its `add`, or an entry serves it. -/
structure QueuedServed (s : Sys) : Prop where
  rows : ∀ r ∈ s.store.jobs, r.status = .queued → (∃ op ∈ s.ops, r.id ∈ op.added) ∨ Served s r.id
  ops : ∀ op ∈ s.ops, op.isOrphan = false

theorem serves_live {en : Entry} (h : s.serves k en = true) :
    en.data.jobId = k ∧ en.state.Live := by
  unfold serves at h
  simp only [Bool.and_eq_true, decide_eq_true_eq] at h
  refine ⟨h.1, ?_⟩
  cases hst : en.state <;> rw [hst] at h <;> first | trivial | cases h.2

theorem runServes_eq_true {id : EntryId} {run : ℕ} : s.runServes k id run = true ↔
    ∃ process workerId data pc, s.ops[run]? = some (.processJob process workerId id data pc) ∧
      data.jobId = k ∧ pc.serves = true := by
  unfold runServes
  split
  case h_1 process workerId entry data pc hop =>
    simp only [Bool.and_eq_true, decide_eq_true_eq, hop, Option.some.injEq, Op.processJob.injEq]
    constructor
    · rintro ⟨⟨rfl, hk⟩, hp⟩
      exact ⟨process, workerId, data, pc, ⟨rfl, rfl, rfl, rfl, rfl⟩, hk, hp⟩
    · rintro ⟨_, _, _, _, ⟨-, -, rfl, rfl, rfl⟩, hk, hp⟩
      exact ⟨⟨rfl, hk⟩, hp⟩
  case h_2 hne =>
    refine ⟨nofun, ?_⟩
    rintro ⟨process, workerId, data, pc, hop, -⟩
    exact absurd hop (hne process workerId id data pc)

theorem served_of_find {en : Entry} (h : s.serves k en = true)
    (hfind : s'.store.queue.entries.find? en.id = some en)
    (hrun : ∀ run, s.runServes k en.id run = true → en.state = .active run →
      s'.runServes k en.id run = true) : Served s' k := by
  refine ⟨en, Table.mem_of_find? hfind, ?_⟩
  unfold serves at h ⊢
  simp only [Bool.and_eq_true, decide_eq_true_eq] at h ⊢
  refine ⟨h.1, ?_⟩
  cases hst : en.state with
  | active run => rw [hst] at h; exact hrun run h.2 hst
  | waiting | prioritized | delayed => rfl
  | completed | failed => rw [hst] at h; exact h.2

theorem runServes_append {id : EntryId} {run : ℕ} {l : List Op} (h : s.runServes k id run = true)
    (hops : s'.ops = s.ops ++ l) : s'.runServes k id run = true := by
  obtain ⟨process, workerId, data, pc, hop, hk, hp⟩ := runServes_eq_true.mp h
  exact runServes_eq_true.mpr ⟨process, workerId, data, pc,
    hops ▸ getElem?_append_of_some hop l, hk, hp⟩

theorem runServes_set {id : EntryId} {run run' : ℕ} {op : Op} {l : List Op}
    (h : s.runServes k id run = true) (hops : s'.ops = s.ops.set run' op ++ l)
    (hself : run = run' → ∃ process workerId data pc, op = .processJob process workerId id data pc ∧
      data.jobId = k ∧ pc.serves = true) : s'.runServes k id run = true := by
  obtain ⟨process, workerId, data, pc, hop, hk, hp⟩ := runServes_eq_true.mp h
  by_cases hrun : run = run'
  · obtain ⟨process', workerId', data', pc', rfl, hk', hp'⟩ := hself hrun
    subst hrun
    exact runServes_eq_true.mpr ⟨process', workerId', data', pc',
      hops ▸ getElem?_set_append_self hop _ l, hk', hp'⟩
  · exact runServes_eq_true.mpr ⟨process, workerId, data, pc,
      hops ▸ getElem?_set_append_of_ne (Ne.symm hrun) hop op l, hk, hp⟩

theorem find?_entries_exec {st st' : Store} {now : Time} {locked : List JobId} {c : Call}
    {reply : Reply} (hx : st.exec now locked c = some (st', reply)) {id : EntryId} {en : Entry}
    (h : st.queue.entries.find? id = some en) : st'.queue.entries.find? id = some en := by
  cases c with
  | create id dto =>
      obtain ⟨p, -, he⟩ := Option.map_eq_some_iff.mp hx
      obtain ⟨rfl, -⟩ := Prod.mk.inj he
      exact h
  | add jobId data priority delayMs =>
      obtain ⟨rfl, -⟩ := Prod.mk.inj (Option.some.inj hx)
      dsimp only
      rw [Queue.find?_add, h, Option.getD_some, ite_self]
  | _ => obtain ⟨rfl, -⟩ := Prod.mk.inj (Option.some.inj hx); exact h

theorem served_of_queue {en : Entry} {q : Queue} (h : s.serves k en = true)
    (hfind : q.entries.find? en.id = some en) :
    Served { s with store := { s.store with queue := q } } k :=
  served_of_find h hfind fun _ h _ => runServes_append (l := []) h (List.append_nil _).symm

theorem runServes_moveTo {id entry : EntryId} {run run' : ℕ} {process : ℕ} {workerId : String}
    {data : QueueJobPayload} {pc pc' : ProcessPc} {l : List Op}
    (hop : s.ops[run']? = some (.processJob process workerId entry data pc))
    (hops : s'.ops = s.ops.set run' (.processJob process workerId entry data pc') ++ l)
    (hpc : pc.serves = true → pc'.serves = true) (h : s.runServes k id run = true) :
    s'.runServes k id run = true := by
  refine runServes_set h hops ?_
  rintro rfl
  obtain ⟨process', workerId', data', pc₀, hop', hk, hp⟩ := runServes_eq_true.mp h
  obtain ⟨rfl, rfl, rfl, rfl, rfl⟩ := Op.processJob.inj (Option.some.inj (hop.symm.trans hop'))
  exact ⟨process, workerId, data, pc', rfl, hk, hpc hp⟩

section

variable {en : Entry} (hserves : s.serves k en = true)
  (hfind : s.store.queue.entries.find? en.id = some en)
include hserves hfind

theorem served_pickUp {process : ℕ} {workerId : String} {entry : EntryId} {q : Queue} {en' : Entry}
    (hpick : s.store.queue.pick entry s.ops.length = some (q, en')) :
    Served { s with
      store := { s.store with queue := q }
      ops := s.ops ++ [.processJob process workerId entry en'.data .fetch] } k := by
  obtain ⟨he, rfl⟩ := Queue.pick_eq_some hpick
  by_cases hid : en.id = entry
  · subst hid
    obtain rfl : en = en' := Option.some.inj (hfind.symm.trans he)
    refine ⟨Queue.changed (.active s.ops.length) 0 0 en,
      Table.mem_of_find? (k := en.id) ?_, ?_⟩
    · dsimp only
      rw [Queue.find?_change, if_pos rfl, hfind]
      rfl
    · simp [serves, Queue.changed, runServes, (serves_live hserves).1, ProcessPc.serves]
  · refine served_of_find hserves ?_ fun run h _ => runServes_append h rfl
    dsimp only
    rw [Queue.find?_change, if_neg hid, hfind]

theorem served_promote {entry : EntryId} {q : Queue}
    (hpro : s.store.queue.promote entry = some q) :
    Served { s with store := { s.store with queue := q } } k := by
  obtain ⟨en', he, rfl⟩ := Queue.promote_eq_some hpro
  by_cases hid : en.id = entry
  · subst hid
    obtain rfl : en = en' := Option.some.inj (hfind.symm.trans he)
    refine ⟨Queue.changed (Queue.initialState en.priority 0) 0 0 en,
      Table.mem_of_find? (k := en.id) ?_, ?_⟩
    · dsimp only
      rw [Queue.find?_change, if_pos rfl, hfind]
      rfl
    · rw [← (serves_live hserves).1]
      exact serves_of_initialState en.priority 0 rfl
  · apply served_of_queue hserves
    rw [Queue.find?_change, if_neg hid, hfind]

theorem served_evict {entry : EntryId} {q : Queue} (hev : s.store.queue.evict entry = some q) :
    Served { s with store := { s.store with queue := q } } k := by
  obtain ⟨en', he, hdead, rfl⟩ := Queue.evict_eq_some hev
  have hid : en.id ≠ entry := by
    rintro rfl
    obtain rfl : en = en' := Option.some.inj (hfind.symm.trans he)
    exact hdead (serves_live hserves).2
  apply served_of_queue hserves
  dsimp only
  rw [Table.find?_erase, if_neg hid, hfind]

/-- A run that has ended serves nothing, so the entry is not the one it holds. -/
theorem served_settle {run process : ℕ} {workerId : String} {entry : EntryId}
    {data : QueueJobPayload} {pc : ProcessPc} {rejected : Bool} {attempts : ℕ}
    (hop : s.ops[run]? = some (.processJob process workerId entry data pc))
    (hended : pc.ended = some rejected) :
    Served { s.moveTo run .finished [] with
      store := { s.store with
        queue := s.store.queue.settle attempts entry run rejected } } k := by
  have hnot : ∀ run', s.runServes k en.id run' = true → run' ≠ run := by
    rintro run' h rfl
    obtain ⟨process', workerId', data', pc', hop', -, hp⟩ := runServes_eq_true.mp h
    obtain ⟨rfl, rfl, rfl, rfl, rfl⟩ := Op.processJob.inj (Option.some.inj (hop.symm.trans hop'))
    rw [ProcessPc.serves_of_ended hended] at hp
    cases hp
  refine served_of_find hserves (Queue.find?_settle hfind fun _ hact => ?_) fun run' h _ =>
    runServes_set h rfl fun he => absurd he (hnot run' h)
  unfold serves at hserves
  rw [hact] at hserves
  exact hnot run (by simpa using (Bool.and_eq_true _ _ ▸ hserves).2) rfl

theorem served_answered {r : Job} {run : ℕ} {second : Bool} {now : Time} {locked : List JobId}
    {op : Op} {c : Call} {st : Store} {reply : Reply} (hop : s.ops[run]? = some op)
    (hc : op.pending cfg second = some c) (hx : s.store.exec now locked c = some (st, reply))
    (hr : s.store.jobs.find? k = some r) (hq : r.status = .queued) (hset : setsStatus k c = none) :
    Served (s.resumed st run now op second reply) k := by
  refine served_of_find hserves (find?_entries_exec hx hfind) fun run' h _ =>
    runServes_set h rfl ?_
  rintro rfl
  obtain ⟨process, workerId, data, pc, hop', rfl, hp⟩ := runServes_eq_true.mp h
  obtain rfl := Option.some.inj (hop.symm.trans hop')
  exact ⟨process, workerId, data, _, rfl, rfl, ProcessPc.serves_resume hp hc hx hr hq hset⟩

theorem served_refused {run : ℕ} {second : Bool} {op : Op} {id : JobId} {dto : CreateJobDto}
    (hop : s.ops[run]? = some op) (hc : op.pending cfg second = some (.create id dto)) :
    Served (s.aborted s.store run op second) k := by
  refine served_of_find hserves hfind fun run' h _ => runServes_set h rfl ?_
  rintro rfl
  obtain ⟨process, workerId, data, pc, hop', -⟩ := runServes_eq_true.mp h
  obtain rfl := Option.some.inj (hop.symm.trans hop')
  change pc.call workerId data second = _ at hc
  unfold ProcessPc.call at hc
  split at hc <;> cases hc

end

/-- **A served job stays served** while its row is `QUEUED` and no call writes the status. -/
theorem served_step {r : Job} (h : Served s k) (hcalm : Calm e) (hs : s.step cfg e = some s')
    (hr : s.store.jobs.find? k = some r) (hq : r.status = .queued)
    (hw : ∀ x, ¬ Writes cfg s e k x) : Served s' k := by
  obtain ⟨en, hen, hserves⟩ := h
  have hfind : s.store.queue.entries.find? en.id = some en := Table.mem_iff_find?.mp hen
  cases stepTo_of_step hs with
  | start => exact served_of_find hserves hfind fun run h _ => runServes_append h rfl
  | pickUp hpick => exact served_pickUp hserves hfind hpick
  | @answered run second now locked op c st reply hop hc hx =>
      have hset : setsStatus k c = none := by
        cases hset : setsStatus k c with
        | none => rfl
        | some x => exact absurd ⟨_, calling_call hop hc, nofun, hset⟩ (hw x)
      exact served_answered hserves hfind hop hc hx hr hq hset
  | @errored run second now outcome locked op c st hop hc hx hst =>
      obtain rfl : outcome = .ok := hcalm
      obtain ⟨id, dto, rfl⟩ := Store.create_of_exec_none (hx rfl)
      obtain rfl : st = s.store := (hst.resolve_right fun h => Outcome.noConfusion h.1).1
      exact served_refused hserves hfind hop hc
  | execute hop =>
      exact served_of_find hserves hfind fun run' h _ => runServes_moveTo hop rfl (fun _ => rfl) h
  | @executed run process now result workerId entry data job id hop =>
      have hpc : (afterExecution now id result).serves = true := by
        unfold afterExecution
        split_ifs <;> rfl
      exact served_of_find hserves hfind fun run' h _ => runServes_moveTo hop rfl (fun _ => hpc) h
  | settle hop hended => exact served_settle hserves hfind hop hended
  | promote hpro => exact served_promote hserves hfind hpro
  | evict hev => exact served_evict hserves hfind hev
  | executeRejected | stall | crash | restart => exact absurd hcalm id

theorem not_isOrphan_step (h : ∀ op ∈ s.ops, op.isOrphan = false) (hcalm : Calm e)
    (hs : s.step cfg e = some s') : ∀ op' ∈ s'.ops, op'.isOrphan = false := by
  intro op' hop'
  rcases mem_ops_step hs hop' with hold | hnew
  · exact h op' hold
  cases e with
  | start op =>
      obtain ⟨hr, rfl⟩ := hnew
      cases op' <;> first | rfl | exact hr.elim
  | call run second now outcome locked =>
      obtain rfl : outcome = .ok := hcalm
      obtain ⟨op, c, hop, hc, ⟨st, reply, -, hx, h'⟩ | ⟨hx, h'⟩⟩ := hnew
      · exact Op.not_isOrphan_resume h'
      · obtain ⟨id, dto, rfl⟩ := Store.create_of_exec_none (hx rfl)
        exact Op.not_isOrphan_abort_of_create hc h'
  | pickUp process workerId entry =>
      obtain ⟨data, rfl⟩ := hnew
      rfl
  | execute run | executed run now result | executeRejected run =>
      obtain ⟨process, workerId, entry, data, job, id, -, rfl⟩ := hnew
      rfl
  | settle run | crash run =>
      obtain rfl := hnew
      rfl
  | stall entry | promote entry | evict entry | restart process => exact hnew.elim

theorem not_writes_queued (h : ∀ op ∈ s.ops, op.isOrphan = false) : ¬ Writes cfg s e k .queued := by
  rintro ⟨⟨op, c, outcome⟩, hcall, -, hx⟩
  obtain ⟨dto, rfl, hd⟩ := setsStatus_eq_some hx
  obtain ⟨run, second, now, locked, -, hop, hc⟩ := calling_eq_some hcall
  have ho := h op (List.mem_of_getElem? hop)
  rw [Op.isOrphan_of_pending_queued hc hd] at ho
  cases ho

/-- **A claim** starts the `add` of every row it has moved to `QUEUED`. -/
theorem added_of_claim (ho : ∀ op ∈ s.ops, op.isOrphan = false) (hcalm : Calm e)
    (hs : s.step cfg e = some s') {r r' : Job} (hk : s.store.jobs.find? k = some r)
    (hk' : s'.store.jobs.find? k = some r') (hr : r.status ≠ .queued) (hr' : r'.status = .queued) :
    ∃ op ∈ s'.ops, k ∈ op.added := by
  rcases step_jobs hs with hj | ⟨run, second, now, outcome, locked, op, c, st, reply, rfl, hop, hc,
    -, hx, hst⟩
  · rw [hj, hk] at hk'
    exact absurd (Option.some.inj hk' ▸ hr') hr
  · obtain rfl : outcome = .ok := hcalm
    obtain ⟨r'', hk'', hcase⟩ := Store.exec_status hx hk
    rw [hst, hk''] at hk'
    obtain rfl := Option.some.inj hk'
    rcases hcase with hsame | ⟨dto, rfl, hd⟩ | ⟨-, -, limit, rfl, rows, rfl, hmem⟩
    · exact absurd (hsame.symm.trans hr') hr
    · rw [hr'] at hd
      have horph := ho op (List.mem_of_getElem? hop)
      rw [Op.isOrphan_of_pending_queued hc hd] at horph
      cases horph
    · obtain rfl := Op.of_pending_claim hc (ho op (List.mem_of_getElem? hop))
      obtain ⟨-, hrep⟩ := Prod.mk.inj (Option.some.inj hx)
      obtain rfl := Reply.jobs.inj hrep
      obtain ⟨r₀, -, hclaim, rfl⟩ := mem_claimPendingJobs hmem
      obtain ⟨st, reply, -, hx', rfl⟩ | ⟨st, hn, -, -⟩ := step_call hs hop hc
      · rw [hx] at hx'
        obtain ⟨-, rfl⟩ := Prod.mk.inj (Option.some.inj hx')
        -- the claimed row passes the check that `enqueuePromises` repeats
        have henq : Op.enqueueClaimed now (claimed now r₀) =
            .enqueue (claimed now r₀) (((claimed now r₀).scheduledAt.map (· - now)).getD 0) :=
          if_neg (by have : r₀.dependencyCount = r₀.resolvedDependencyCount := hclaim.2.2
                     simp [claimed, this])
        refine ⟨_, List.mem_append_right _ (List.mem_map.mpr ⟨claimed now r₀, hmem, henq⟩), ?_⟩
        exact Option.mem_some.mpr (Table.key_of_find? hk'')
      · rw [hn rfl] at hx
        cases hx

/-- **An `add`** that finds no entry makes one that serves the job. -/
theorem served_of_add (hcalm : Calm e) (hadd : AddsServed cfg s e) (hs : s.step cfg e = some s')
    {run : ℕ} {second : Bool} {now : Time} {outcome : Outcome} {locked : List JobId}
    (he : e = .call run second now outcome locked) {op : Op} (hop : s.ops[run]? = some op)
    (hk : k ∈ op.added) (hkeep : Served s k → Served s' k) : Served s' k := by
  subst he
  obtain rfl : outcome = .ok := hcalm
  obtain ⟨op', c, h₁, hc, hcase⟩ := stepCall_eq_some hs
  obtain rfl := Option.some.inj (hop.symm.trans h₁)
  obtain ⟨job, delayMs, rfl, rfl⟩ : ∃ job delayMs, op = .enqueue job delayMs ∧ job.id = k := by
    cases op with
    | enqueue job delayMs => exact ⟨job, delayMs, rfl, Option.mem_some.mp hk⟩
    | _ => cases hk
  cases second with
  | true => cases hc
  | false =>
      cases hfind : s.store.queue.entries.find? (.job job.id) with
      | some en => exact hkeep (hadd _ (calling_call hop hc) job.id rfl (by rw [hfind]; rfl))
      | none =>
          obtain rfl := Option.some.inj hc
          obtain ⟨st, reply, -, hx, rfl⟩ | ⟨st, hn, -, -⟩ := hcase
          · obtain ⟨rfl, -⟩ := Prod.mk.inj (Option.some.inj hx)
            set en := Queue.newEntry (.job job.id) (Op.enqueueData job)
              (toBullPriority job.priority) delayMs with hen
            refine ⟨en, Table.mem_of_find? (k := .job job.id) ?_, ?_⟩
            · change (s.store.queue.add (some job.id) _ _ _).entries.find? (.job job.id) = _
              rw [Queue.find?_add, hfind]
              exact if_pos rfl
            · exact serves_of_initialState (toBullPriority job.priority) delayMs rfl
          · cases hn rfl

theorem queuedServed_step (h : QueuedServed s) (hcalm : Calm e) (hadd : AddsServed cfg s e)
    (hs : s.step cfg e = some s') : QueuedServed s' := by
  refine ⟨fun r' hr' hst => ?_, not_isOrphan_step h.ops hcalm hs⟩
  have hk' := Table.mem_iff_find?.mp hr'
  cases hk : s.store.jobs.find? r'.id with
  | none => rw [step_new_row hs hk hk'] at hst; cases hst
  | some r =>
      by_cases hq : r.status = .queued
      · have hw : ∀ x, ¬ Writes cfg s e r'.id x := by
          intro x hx
          have hxq := (status_of_writes hs hx hk').symm.trans hst
          exact not_writes_queued h.ops (hxq ▸ hx)
        have hkeep : Served s r'.id → Served s' r'.id := fun hserved =>
          served_step hserved hcalm hs hk hq hw
        have hid : r.id = r'.id := Table.key_of_find? hk
        rcases h.rows r (Table.mem_of_find? hk) hq with ⟨op, hop, hmem⟩ | hserved
        · rw [hid] at hmem
          obtain ⟨i, hi⟩ := List.mem_iff_getElem?.mp hop
          rcases getElem?_step hs hi with hsame | ⟨second, now, outcome, locked, he⟩ | rfl |
            ⟨process, workerId, entry, data, pc, rfl⟩
          · exact .inl ⟨op, List.mem_of_getElem? hsame, hmem⟩
          · exact .inr (served_of_add hcalm hadd hs he hi hmem hkeep)
          · exact absurd hcalm id
          · cases hmem
        · exact .inr (hkeep (hid ▸ hserved))
      · exact .inl (added_of_claim h.ops hcalm hs hk hk' hq hst)

/-- **A `QUEUED` job is really in the queue**, in every run without failures in which every `add`
finds no entry of the job, or one that serves it. -/
theorem queued_has_entry {es : List Event} (h : Run (step cfg)
    (stateGuard fun s e => Calm e ∧ AddsServed cfg s e) init es s) : QueuedHasEntry s := by
  have hinv : QueuedServed s := h.stable (P := QueuedServed)
    ⟨fun r hr => absurd hr (Table.not_mem_empty r), fun _ hop => absurd hop List.not_mem_nil⟩
    fun _ _ _ _ hi hg hs => queuedServed_step hi hg.1 hg.2 hs
  intro hidle r hr hst
  rcases hinv.rows r hr hst with ⟨op, hop, hmem⟩ | ⟨en, hen, hserves⟩
  · have hs := hidle op hop
    cases op with
    | enqueue job delayMs => cases hs
    | _ => cases hmem
  · obtain ⟨hid, hlive⟩ := serves_live hserves
    exact ⟨en, hen, hid, hlive⟩

/-- `a` is submitted, claimed and added. -/
def enqueued : List Event :=
  [.start (.submitJob 0 "a" simpleDto), .call 0 false 1 .ok [], .start .scheduleReadyJobs,
    .call 1 false 2 .ok [], .call 2 false 3 .ok []]

theorem enqueued_has_entry : ∃ s, runEvents (step {}) init enqueued = some s ∧ QueuedHasEntry s ∧
    (∀ op ∈ s.ops, op.scheduling = false) ∧ ∃ r ∈ s.store.jobs, r.status = .queued := by
  obtain ⟨s, hs, hp⟩ := exists_run_of_check (step {})
    (stateGuard fun s e => Calm e ∧ AddsServed {} s e) init enqueued
    (fun s => (∀ op ∈ s.ops, op.scheduling = false) ∧ ∃ r ∈ s.store.jobs.rows, r.status = .queued)
    (by decide)
  exact ⟨s, hs.runEvents_eq, queued_has_entry hs, of_decide_eq_true hp⟩

/-- `a` has failed for good and is retried by hand; the poll claims it and adds it to the queue,
which still holds its finished entry. -/
def retriedByHand : List Event :=
  lastAttempt ++ [.start (.retryJob "a" "org1"), .call 4 false 12 .ok [], .call 4 false 13 .ok [],
    .start .scheduleReadyJobs, .call 5 false 14 .ok [], .call 6 false 15 .ok []]

/-- **The retried job is `QUEUED` and not in the queue.** -/
theorem retried_job_not_queued :
    ∃ s, Run (step {}) (stateGuard fun _ e => Calm e) init retriedByHand s ∧
      ¬ QueuedHasEntry s := by
  obtain ⟨s, hs, hp⟩ := exists_run_of_check (step {}) (stateGuard fun _ e => Calm e) init
    retriedByHand (fun s => (∀ op ∈ s.ops, op.scheduling = false) ∧
      (∃ r ∈ s.store.jobs.rows, r.status = .queued) ∧
      ∀ en ∈ s.store.queue.entries.rows, ¬ en.state.Live) (by decide)
  obtain ⟨hidle, ⟨r, hr, hst⟩, hdead⟩ := of_decide_eq_true hp
  refine ⟨s, hs, fun hq => ?_⟩
  obtain ⟨en, hen, -, hlive⟩ := hq hidle r hr hst
  exact hdead en hen hlive

end Sys

end TaskOrchestration

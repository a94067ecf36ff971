import TaskOrchestration.Lib.Run
import TaskOrchestration.System.Ops

set_option autoImplicit false

/-!
# The system

The store, the resolver graphs of the processes and the operations under way. One step is one
repository or queue call, or something that BullMQ or an execution does. A call may succeed, fail
without effect, or take effect while its caller sees an error.

* `Sys`, `Event`, `step`; `executions` records the jobs whose execution has started;
* **`StepTo`**, `stepTo_of_step`, `step_call`: what a step does to the state, said once;
* **`mem_ops_step`**, `getElem?_step`, `getElem?_step_of_ne`: where the operations after a step
  come from, and where the ones before it are;
* **`step_status`**, `step_new_row`, `step_executions`: the rows and the executions after a step;
* `Writes`, `Answers`, `Throws`, `Calm`: what a step does, as a condition on it.
-/

namespace TaskOrchestration

open DependencyResolver LabelledRun

/-- **The state of the system.** A run of an operation is its place in `ops`. -/
structure Sys where
  store : Store
  graph : ℕ → Graph
  ops : List Op
  executions : List JobId

/-- How a call ends: it answers, it fails, or it takes effect and its answer is lost. -/
inductive Outcome
  | ok | fail | lost
  deriving DecidableEq, Repr

inductive Event
  | start (op : Op)
  | pickUp (process : ℕ) (workerId : String) (entry : EntryId)
  | call (run : ℕ) (second : Bool) (now : Time) (outcome : Outcome) (locked : List JobId)
  | execute (run : ℕ)
  | executed (run : ℕ) (now : Time) (result : ExecutionResult)
  | executeRejected (run : ℕ)
  | settle (run : ℕ)
  | stall (entry : EntryId)
  | promote (entry : EntryId)
  | evict (entry : EntryId)
  | crash (run : ℕ)
  | restart (process : ℕ)
  deriving DecidableEq, Repr

namespace Sys

def init : Sys := ⟨Store.empty, fun _ => emptyGraph, [], []⟩

/-- The state when the operation `run` has moved on to `op`. -/
def moveTo (s : Sys) (run : ℕ) (op : Op) (spawned : List Op) : Sys :=
  { s with ops := s.ops.set run op ++ spawned }

def aborted (s : Sys) (st : Store) (run : ℕ) (op : Op) (second : Bool) : Sys :=
  { s with store := st }.moveTo run (op.abort second).1 (op.abort second).2

def resumed (s : Sys) (st : Store) (run : ℕ) (now : Time) (op : Op) (second : Bool)
    (reply : Reply) : Sys :=
  let p := op.resume (s.graph op.process) now second reply
  { store := st
    graph := Function.update s.graph op.process p.2.2
    ops := s.ops.set run p.1 ++ p.2.1
    executions := s.executions }

def stepCall (cfg : Config) (s : Sys) (run : ℕ) (second : Bool) (now : Time) (outcome : Outcome)
    (locked : List JobId) : Option Sys :=
  match s.ops[run]? with
  | none => none
  | some op =>
      match op.pending cfg second with
      | none => none
      | some c =>
          match outcome, s.store.exec now locked c with
          | .ok, some (st, reply) => some (s.resumed st run now op second reply)
          | .lost, some (st, _) => some (s.aborted st run op second)
          | _, _ => some (s.aborted s.store run op second)

/-- The run of `processJob` after its execution has resolved. -/
def afterExecution (now : Time) (execLogId : ℕ) (result : ExecutionResult) : ProcessPc :=
  if result.success then .success result execLogId now false false
  else .failRead ⟨execLogId, result, now,
    if result.errorCode = some "JOB_TIMEOUT" then .timedOut else .failed⟩

def step (cfg : Config) (s : Sys) : Event → Option Sys
  | .start op => if op.IsRequest then some { s with ops := s.ops ++ [op] } else none
  | .pickUp process workerId entry =>
      (s.store.queue.pick entry s.ops.length).map fun p =>
        { s with
          store := { s.store with queue := p.1 }
          ops := s.ops ++ [.processJob process workerId entry p.2.data .fetch] }
  | .call run second now outcome locked => s.stepCall cfg run second now outcome locked
  | .execute run =>
      match s.ops[run]? with
      | some (.processJob process workerId entry data (.execute job id)) =>
          some { s.moveTo run (.processJob process workerId entry data (.executing job id)) []
            with executions := s.executions ++ [data.jobId] }
      | _ => none
  | .executed run now result =>
      match s.ops[run]? with
      | some (.processJob process workerId entry data (.executing _ id)) =>
          some (s.moveTo run
            (.processJob process workerId entry data (afterExecution now id result)) [])
      | _ => none
  | .executeRejected run =>
      match s.ops[run]? with
      | some (.processJob process workerId entry data (.executing _ _)) =>
          some (s.moveTo run (.processJob process workerId entry data .rejected) [])
      | _ => none
  | .settle run =>
      match s.ops[run]? with
      | some (.processJob _ _ entry _ pc) =>
          pc.ended.map fun rejected =>
            { s.moveTo run .finished [] with
              store := { s.store with
                queue := s.store.queue.settle cfg.attempts entry run rejected } }
      | _ => none
  | .stall entry =>
      (s.store.queue.stall cfg.maxStalledCount entry).map fun q =>
        { s with store := { s.store with queue := q } }
  | .promote entry =>
      (s.store.queue.promote entry).map fun q => { s with store := { s.store with queue := q } }
  | .evict entry =>
      (s.store.queue.evict entry).map fun q => { s with store := { s.store with queue := q } }
  | .crash run => if run < s.ops.length then some (s.moveTo run .finished []) else none
  | .restart process => some { s with graph := Function.update s.graph process emptyGraph }

/-! ## What a step does, said once -/

variable {cfg : Config} {s s' : Sys} {e : Event}

/-- **A call**: the operation goes on with the answer, or it goes on with an error. -/
theorem stepCall_eq_some {run : ℕ} {second : Bool} {now : Time} {outcome : Outcome}
    {locked : List JobId} (h : s.stepCall cfg run second now outcome locked = some s') :
    ∃ op c, s.ops[run]? = some op ∧ op.pending cfg second = some c ∧
      ((∃ st reply, outcome = .ok ∧ s.store.exec now locked c = some (st, reply) ∧
          s' = s.resumed st run now op second reply) ∨
        (∃ st, (outcome = .ok → s.store.exec now locked c = none) ∧
          (st = s.store ∧ (outcome = .fail ∨ s.store.exec now locked c = none) ∨
            outcome = .lost ∧ ∃ reply, s.store.exec now locked c = some (st, reply)) ∧
          s' = s.aborted st run op second)) := by
  unfold stepCall at h
  cases hop : s.ops[run]? with
  | none => rw [hop] at h; cases h
  | some op =>
      rw [hop] at h
      dsimp only at h
      cases hc : op.pending cfg second with
      | none => rw [hc] at h; cases h
      | some c =>
          rw [hc] at h
          dsimp only at h
          refine ⟨op, c, rfl, hc, ?_⟩
          cases hx : s.store.exec now locked c with
          | none =>
              rw [hx] at h
              have : s' = s.aborted s.store run op second := by
                cases outcome <;> exact (Option.some.inj h).symm
              exact .inr ⟨s.store, fun _ => rfl, .inl ⟨rfl, .inr rfl⟩, this⟩
          | some p =>
              obtain ⟨st, reply⟩ := p
              rw [hx] at h
              cases outcome with
              | ok => exact .inl ⟨st, reply, rfl, rfl, (Option.some.inj h).symm⟩
              | fail => exact .inr ⟨s.store, nofun, .inl ⟨rfl, .inl rfl⟩, (Option.some.inj h).symm⟩
              | lost =>
                  exact .inr ⟨st, nofun, .inr ⟨rfl, reply, rfl⟩, (Option.some.inj h).symm⟩

theorem step_call {run : ℕ} {second : Bool} {now : Time} {outcome : Outcome}
    {locked : List JobId} {op : Op} {c : Call}
    (h : s.step cfg (.call run second now outcome locked) = some s')
    (hop : s.ops[run]? = some op) (hc : op.pending cfg second = some c) :
    (∃ st reply, outcome = .ok ∧ s.store.exec now locked c = some (st, reply) ∧
        s' = s.resumed st run now op second reply) ∨
      (∃ st, (outcome = .ok → s.store.exec now locked c = none) ∧
        (st = s.store ∧ (outcome = .fail ∨ s.store.exec now locked c = none) ∨
          outcome = .lost ∧ ∃ reply, s.store.exec now locked c = some (st, reply)) ∧
        s' = s.aborted st run op second) := by
  obtain ⟨op', c', h₁, h₂, hcase⟩ := stepCall_eq_some h
  obtain rfl := Option.some.inj (hop.symm.trans h₁)
  obtain rfl := Option.some.inj (hc.symm.trans h₂)
  exact hcase

theorem step_answered {run : ℕ} {second : Bool} {now : Time} {locked : List JobId} {op : Op}
    {c : Call} {st : Store} {reply : Reply} (hop : s.ops[run]? = some op)
    (hc : op.pending cfg second = some c) (hx : s.store.exec now locked c = some (st, reply)) :
    s.step cfg (.call run second now .ok locked) = some (s.resumed st run now op second reply) := by
  simp only [step, stepCall, hop, hc, hx]

variable (cfg) in
/-- **The operation goes on** with the answer to its call. -/
theorem exists_step_answered {run : ℕ} {op op' : Op} {c : Call} {st : Store} {reply : Reply}
    (second : Bool) (now : Time) (locked : List JobId) (hop : s.ops[run]? = some op)
    (hc : op.pending cfg second = some c) (hx : s.store.exec now locked c = some (st, reply))
    (hop' : (op.resume (s.graph op.process) now second reply).1 = op') :
    ∃ s', s.step cfg (.call run second now .ok locked) = some s' ∧ s'.store = st ∧
      s'.ops[run]? = some op' := by
  refine ⟨_, step_answered hop hc hx, rfl, ?_⟩
  rw [← hop']
  exact getElem?_set_append_self hop _ _

/-- **The steps of the system**, each with what it needs and the state after it. -/
inductive StepTo (cfg : Config) (s : Sys) : Event → Sys → Prop
  | start {op : Op} :
      op.IsRequest → StepTo cfg s (.start op) { s with ops := s.ops ++ [op] }
  | pickUp {process : ℕ} {workerId : String} {entry : EntryId} {q : Queue} {en : Entry} :
      s.store.queue.pick entry s.ops.length = some (q, en) →
      StepTo cfg s (.pickUp process workerId entry)
        { s with
          store := { s.store with queue := q }
          ops := s.ops ++ [.processJob process workerId entry en.data .fetch] }
  | answered {run : ℕ} {second : Bool} {now : Time} {locked : List JobId} {op : Op} {c : Call}
      {st : Store} {reply : Reply} :
      s.ops[run]? = some op → op.pending cfg second = some c →
      s.store.exec now locked c = some (st, reply) →
      StepTo cfg s (.call run second now .ok locked) (s.resumed st run now op second reply)
  | errored {run : ℕ} {second : Bool} {now : Time} {outcome : Outcome} {locked : List JobId}
      {op : Op} {c : Call} {st : Store} :
      s.ops[run]? = some op → op.pending cfg second = some c →
      (outcome = .ok → s.store.exec now locked c = none) →
      (st = s.store ∧ (outcome = .fail ∨ s.store.exec now locked c = none) ∨
        outcome = .lost ∧ ∃ reply, s.store.exec now locked c = some (st, reply)) →
      StepTo cfg s (.call run second now outcome locked) (s.aborted st run op second)
  | execute {run process : ℕ} {workerId : String} {entry : EntryId} {data : QueueJobPayload}
      {job : Job} {id : ℕ} :
      s.ops[run]? = some (.processJob process workerId entry data (.execute job id)) →
      StepTo cfg s (.execute run)
        { s.moveTo run (.processJob process workerId entry data (.executing job id)) []
          with executions := s.executions ++ [data.jobId] }
  | executed {run process : ℕ} {now : Time} {result : ExecutionResult} {workerId : String}
      {entry : EntryId} {data : QueueJobPayload} {job : Job} {id : ℕ} :
      s.ops[run]? = some (.processJob process workerId entry data (.executing job id)) →
      StepTo cfg s (.executed run now result) (s.moveTo run
        (.processJob process workerId entry data (afterExecution now id result)) [])
  | executeRejected {run process : ℕ} {workerId : String} {entry : EntryId}
      {data : QueueJobPayload} {job : Job} {id : ℕ} :
      s.ops[run]? = some (.processJob process workerId entry data (.executing job id)) →
      StepTo cfg s (.executeRejected run)
        (s.moveTo run (.processJob process workerId entry data .rejected) [])
  | settle {run process : ℕ} {workerId : String} {entry : EntryId} {data : QueueJobPayload}
      {pc : ProcessPc} {rejected : Bool} :
      s.ops[run]? = some (.processJob process workerId entry data pc) →
      pc.ended = some rejected →
      StepTo cfg s (.settle run)
        { s.moveTo run .finished [] with
          store := { s.store with
            queue := s.store.queue.settle cfg.attempts entry run rejected } }
  | stall {entry : EntryId} {q : Queue} :
      s.store.queue.stall cfg.maxStalledCount entry = some q →
      StepTo cfg s (.stall entry) { s with store := { s.store with queue := q } }
  | promote {entry : EntryId} {q : Queue} :
      s.store.queue.promote entry = some q →
      StepTo cfg s (.promote entry) { s with store := { s.store with queue := q } }
  | evict {entry : EntryId} {q : Queue} :
      s.store.queue.evict entry = some q →
      StepTo cfg s (.evict entry) { s with store := { s.store with queue := q } }
  | crash {run : ℕ} : StepTo cfg s (.crash run) (s.moveTo run .finished [])
  | restart {process : ℕ} :
      StepTo cfg s (.restart process)
        { s with graph := Function.update s.graph process emptyGraph }

/-- **Every step** is one of these. -/
theorem stepTo_of_step (h : s.step cfg e = some s') : StepTo cfg s e s' := by
  cases e with
  | start op =>
      rw [step] at h
      split_ifs at h with hr
      obtain rfl := Option.some.inj h
      exact .start hr
  | pickUp process workerId entry =>
      obtain ⟨⟨q, en⟩, hp, rfl⟩ := Option.map_eq_some_iff.mp h
      exact .pickUp hp
  | call run second now outcome locked =>
      obtain ⟨op, c, hop, hc, ⟨st, reply, rfl, hx, rfl⟩ | ⟨st, ho, hst, rfl⟩⟩ := stepCall_eq_some h
      · exact .answered hop hc hx
      · exact .errored hop hc ho hst
  | execute run =>
      rw [step] at h
      split at h
      · rename_i hop
        obtain rfl := Option.some.inj h
        exact .execute hop
      · cases h
  | executed run now result =>
      rw [step] at h
      split at h
      · rename_i hop
        obtain rfl := Option.some.inj h
        exact .executed hop
      · cases h
  | executeRejected run =>
      rw [step] at h
      split at h
      · rename_i hop
        obtain rfl := Option.some.inj h
        exact .executeRejected hop
      · cases h
  | settle run =>
      rw [step] at h
      split at h
      · rename_i hop
        obtain ⟨rejected, hended, rfl⟩ := Option.map_eq_some_iff.mp h
        exact .settle hop hended
      · cases h
  | stall entry =>
      obtain ⟨q, hq, rfl⟩ := Option.map_eq_some_iff.mp h
      exact .stall hq
  | promote entry =>
      obtain ⟨q, hq, rfl⟩ := Option.map_eq_some_iff.mp h
      exact .promote hq
  | evict entry =>
      obtain ⟨q, hq, rfl⟩ := Option.map_eq_some_iff.mp h
      exact .evict hq
  | crash run =>
      rw [step] at h
      split_ifs at h
      obtain rfl := Option.some.inj h
      exact .crash
  | restart process =>
      obtain rfl := Option.some.inj h
      exact .restart

/-- The operation that makes the call of a step, the call, and how it ends. -/
def calling (cfg : Config) (s : Sys) : Event → Option (Op × Call × Outcome)
  | .call run second _ outcome _ =>
      (s.ops[run]?).bind fun op => (op.pending cfg second).map fun c => (op, c, outcome)
  | _ => none

theorem calling_call {run : ℕ} {second : Bool} {now : Time} {outcome : Outcome}
    {locked : List JobId} {op : Op} {c : Call} (hop : s.ops[run]? = some op)
    (hc : op.pending cfg second = some c) :
    s.calling cfg (.call run second now outcome locked) = some (op, c, outcome) := by
  simp only [calling, hop, Option.bind_some, hc, Option.map_some]

theorem calling_eq_some {op : Op} {c : Call} {outcome : Outcome}
    (h : s.calling cfg e = some (op, c, outcome)) :
    ∃ run second now locked, e = .call run second now outcome locked ∧ s.ops[run]? = some op ∧
      op.pending cfg second = some c := by
  cases e with
  | call run second now o locked =>
      obtain ⟨op', hop, h⟩ := Option.bind_eq_some_iff.mp h
      obtain ⟨c', hc, he⟩ := Option.map_eq_some_iff.mp h
      cases he
      exact ⟨run, second, now, locked, rfl, hop, hc⟩
  | _ => cases h

/-- Where the operations after a step come from, when they were not there before. -/
def Produces (cfg : Config) (s : Sys) (op' : Op) : Event → Prop
  | .start op => op.IsRequest ∧ op' = op
  | .pickUp process workerId entry =>
      ∃ data, op' = .processJob process workerId entry data .fetch
  | .call run second now outcome locked => ∃ op c, s.ops[run]? = some op ∧
      op.pending cfg second = some c ∧
      ((∃ st reply, outcome = .ok ∧ s.store.exec now locked c = some (st, reply) ∧
          (op' = (op.resume (s.graph op.process) now second reply).1 ∨
            op' ∈ (op.resume (s.graph op.process) now second reply).2.1)) ∨
        ((outcome = .ok → s.store.exec now locked c = none) ∧
          (op' = (op.abort second).1 ∨ op' ∈ (op.abort second).2)))
  | .execute run => ∃ process workerId entry data job id,
      s.ops[run]? = some (.processJob process workerId entry data (.execute job id)) ∧
        op' = .processJob process workerId entry data (.executing job id)
  | .executed run now result => ∃ process workerId entry data job id,
      s.ops[run]? = some (.processJob process workerId entry data (.executing job id)) ∧
        op' = .processJob process workerId entry data (afterExecution now id result)
  | .executeRejected run => ∃ process workerId entry data job id,
      s.ops[run]? = some (.processJob process workerId entry data (.executing job id)) ∧
        op' = .processJob process workerId entry data .rejected
  | .settle _ | .crash _ => op' = .finished
  | .stall _ | .promote _ | .evict _ | .restart _ => False

theorem mem_moveTo {run : ℕ} {op op' : Op} {spawned : List Op}
    (h : op' ∈ (s.moveTo run op spawned).ops) : op' ∈ s.ops ∨ op' = op ∨ op' ∈ spawned := by
  rcases List.mem_append.mp h with h | h
  · rcases List.mem_or_eq_of_mem_set h with h | h
    · exact .inl h
    · exact .inr (.inl h)
  · exact .inr (.inr h)

theorem mem_snoc {l : List Op} {op op' : Op} (h : op' ∈ l ++ [op]) : op' ∈ l ∨ op' = op := by
  rcases List.mem_append.mp h with h | h
  · exact .inl h
  · exact .inr (List.mem_singleton.mp h)

/-- **The operations after a step** were there before, or the step has produced them. -/
theorem mem_ops_step (h : s.step cfg e = some s') {op' : Op} (hop : op' ∈ s'.ops) :
    op' ∈ s.ops ∨ s.Produces cfg op' e := by
  have hmoved : ∀ {run : ℕ} {op : Op}, op' ∈ (s.moveTo run op []).ops → op' ∈ s.ops ∨ op' = op :=
    fun h => (mem_moveTo h).imp_right fun h => h.resolve_right List.not_mem_nil
  cases stepTo_of_step h with
  | start hr => exact (mem_snoc hop).imp_right fun h => ⟨hr, h⟩
  | pickUp => exact (mem_snoc hop).imp_right fun h => ⟨_, h⟩
  | answered h₁ h₂ hx =>
      exact (mem_moveTo hop).imp_right fun h => ⟨_, _, h₁, h₂, .inl ⟨_, _, rfl, hx, h⟩⟩
  | errored h₁ h₂ ho =>
      exact (mem_moveTo hop).imp_right fun h => ⟨_, _, h₁, h₂, .inr ⟨ho, h⟩⟩
  | execute ho => exact (hmoved hop).imp_right fun h => ⟨_, _, _, _, _, _, ho, h⟩
  | executed ho => exact (hmoved hop).imp_right fun h => ⟨_, _, _, _, _, _, ho, h⟩
  | executeRejected ho => exact (hmoved hop).imp_right fun h => ⟨_, _, _, _, _, _, ho, h⟩
  | settle => exact hmoved hop
  | crash => exact hmoved hop
  | stall | promote | evict | restart => exact .inl hop

/-- **The rows after a step**: only a call touches the table. -/
theorem step_jobs (h : s.step cfg e = some s') : s'.store.jobs = s.store.jobs ∨
    ∃ run second now outcome locked op c st reply, e = .call run second now outcome locked ∧
      s.ops[run]? = some op ∧ op.pending cfg second = some c ∧ outcome ≠ .fail ∧
      s.store.exec now locked c = some (st, reply) ∧ s'.store = st := by
  cases stepTo_of_step h with
  | answered h₁ h₂ hx => exact .inr ⟨_, _, _, _, _, _, _, _, _, rfl, h₁, h₂, nofun, hx, rfl⟩
  | errored h₁ h₂ ho hst =>
      rcases hst with ⟨rfl, -⟩ | ⟨rfl, reply, hx⟩
      · exact .inl rfl
      · exact .inr ⟨_, _, _, _, _, _, _, _, _, rfl, h₁, h₂, nofun, hx, rfl⟩
  | _ => exact .inl rfl

/-- The operation that a step moves on. -/
def actor : Event → Option ℕ
  | .call run _ _ _ _ | .execute run | .executed run _ _ | .executeRejected run | .settle run
  | .crash run => some run
  | _ => none

/-- **The other operations** are where they were. -/
theorem getElem?_step_of_ne (h : s.step cfg e = some s') {i : ℕ} {op : Op}
    (hop : s.ops[i]? = some op) (hne : actor e ≠ some i) : s'.ops[i]? = some op := by
  cases stepTo_of_step h with
  | start | pickUp => exact getElem?_append_of_some hop _
  | answered | errored | execute | executed | executeRejected | settle | crash =>
      exact getElem?_set_append_of_ne (fun he => hne (congrArg some he)) hop _ _
  | stall | promote | evict | restart => exact hop

/-- **An operation after a step** is where it was, unless the step is its own call, its crash, or
moves a run of `processJob`. -/
theorem getElem?_step (h : s.step cfg e = some s') {i : ℕ} {op : Op} (hop : s.ops[i]? = some op) :
    s'.ops[i]? = some op ∨ (∃ second now outcome locked, e = .call i second now outcome locked) ∨
      e = .crash i ∨
      ∃ process workerId entry data pc, op = .processJob process workerId entry data pc := by
  by_cases hne : actor e = some i
  · right
    have hmoved : ∀ {run process workerId entry data pc}, actor e = some run →
        s.ops[run]? = some (.processJob process workerId entry data pc) →
        ∃ process workerId entry data pc, op = .processJob process workerId entry data pc := by
      intro run process workerId entry data pc hrun ho
      obtain rfl := Option.some.inj (hrun.symm.trans hne)
      exact ⟨_, _, _, _, _, Option.some.inj (hop.symm.trans ho)⟩
    cases stepTo_of_step h with
    | answered | errored =>
        obtain rfl := Option.some.inj hne
        exact .inl ⟨_, _, _, _, rfl⟩
    | execute ho => exact .inr (.inr (hmoved rfl ho))
    | executed ho => exact .inr (.inr (hmoved rfl ho))
    | executeRejected ho => exact .inr (.inr (hmoved rfl ho))
    | settle ho => exact .inr (.inr (hmoved rfl ho))
    | crash =>
        obtain rfl := Option.some.inj hne
        exact .inr (.inl rfl)
    | _ => cases hne
  · exact .inl (getElem?_step_of_ne h hop hne)

/-- The calls that nobody waits for are writes of `success`. -/
def Tidy (s : Sys) : Prop := ∀ op ∈ s.ops, op.tidy = true

theorem tidy_init : Tidy init := fun _ hop => absurd hop List.not_mem_nil

theorem tidy_step (h : Tidy s) (hs : s.step cfg e = some s') : Tidy s' := by
  intro op' hop'
  rcases mem_ops_step hs hop' with hold | hnew
  · exact h op' hold
  cases e with
  | start op =>
      obtain ⟨hr, rfl⟩ := hnew
      cases op' <;> first | rfl | exact hr.elim
  | pickUp process workerId entry =>
      obtain ⟨data, rfl⟩ := hnew
      rfl
  | call run second now outcome locked =>
      obtain ⟨op, c, hop, hc, ⟨st, reply, -, hx, h'⟩ | ⟨hx, h'⟩⟩ := hnew
      · exact Op.tidy_of_not_isOrphan (Op.not_isOrphan_resume h')
      · exact Op.tidy_abort h'
  | execute run | executed run now result | executeRejected run =>
      obtain ⟨process, workerId, entry, data, job, id, -, rfl⟩ := hnew
      rfl
  | settle run | crash run =>
      obtain rfl := hnew
      rfl
  | stall entry | promote entry | evict entry | restart process => exact hnew.elim

theorem length_ops_step (h : s.step cfg e = some s') : s.ops.length ≤ s'.ops.length := by
  have hset : ∀ (run : ℕ) (op : Op) (l : List Op),
      s.ops.length ≤ (s.ops.set run op ++ l).length := fun run op l => by
    rw [List.length_append, List.length_set]
    exact Nat.le_add_right _ _
  cases stepTo_of_step h with
  | start | pickUp => exact List.length_append ▸ Nat.le_add_right _ _
  | answered | errored | execute | executed | executeRejected | settle | crash => exact hset _ _ _
  | stall | promote | evict | restart => exact le_rfl

def setsStatus (k : JobId) : Call → Option JobStatus
  | .update id dto => if id = k then dto.status else none
  | _ => none

theorem setsStatus_eq_some {k : JobId} {c : Call} {x : JobStatus} (h : setsStatus k c = some x) :
    ∃ dto, c = .update k dto ∧ dto.status = some x := by
  cases c with
  | update id dto =>
      rw [setsStatus] at h
      split_ifs at h with hid
      exact ⟨dto, by rw [hid], h⟩
  | _ => cases h

/-- The step is a call that gives the status `x` to the row `k`. -/
def Writes (cfg : Config) (s : Sys) (e : Event) (k : JobId) (x : JobStatus) : Prop :=
  ∃ p ∈ s.calling cfg e, p.2.2 ≠ .fail ∧ setsStatus k p.2.1 = some x

instance (cfg : Config) (s : Sys) (e : Event) (k : JobId) (x : JobStatus) :
    Decidable (Writes cfg s e k x) := by
  unfold Writes; infer_instance

def Claims (cfg : Config) (s : Sys) (e : Event) : Prop :=
  ∃ p ∈ s.calling cfg e, ∃ limit, p.2.1 = .claimPendingJobs limit

/-- **The status of a row after a step**: the same, or the step writes it, or claims the row. -/
theorem step_status (h : s.step cfg e = some s') {k : JobId} {r : Job}
    (hk : s.store.jobs.find? k = some r) : ∃ r', s'.store.jobs.find? k = some r' ∧
      (r'.status = r.status ∨ Writes cfg s e k r'.status ∨
        (r.status = .pending ∧ r'.status = .queued ∧ Claims cfg s e)) := by
  rcases step_jobs h with hj | ⟨run, second, now, outcome, locked, op, c, st, reply, rfl, hop, hc,
    ho, hx, hst⟩
  · exact ⟨r, hj ▸ hk, .inl rfl⟩
  · obtain ⟨r', hr', hcase⟩ := Store.exec_status hx hk
    refine ⟨r', by rw [hst, hr'], ?_⟩
    have hcall : s.calling cfg (.call run second now outcome locked) = some (op, c, outcome) :=
      calling_call hop hc
    rcases hcase with hsame | ⟨dto, rfl, hd⟩ | ⟨hp, hq, limit, rfl, -⟩
    · exact .inl hsame
    · exact .inr (.inl ⟨_, hcall, ho, by simp [setsStatus, hd]⟩)
    · exact .inr (.inr ⟨hp, hq, _, hcall, limit, rfl⟩)

/-- **What a write does to the table.** -/
theorem jobs_of_writes (h : s.step cfg e = some s') {k : JobId} {x : JobStatus}
    (hw : Writes cfg s e k x) : ∃ op ∈ s.ops, ∃ second now dto,
      op.pending cfg second = some (.update k dto) ∧ dto.status = some x ∧
        s'.store.jobs = (JobRepository.update s.store.jobs k now dto).1 := by
  obtain ⟨⟨op, c, outcome⟩, hcall, ho, hx⟩ := hw
  obtain ⟨run, second, now, locked, rfl, hop, hc⟩ := calling_eq_some hcall
  obtain ⟨dto, rfl, hd⟩ := setsStatus_eq_some hx
  refine ⟨op, List.mem_of_getElem? hop, second, now, dto, hc, hd, ?_⟩
  obtain ⟨st, reply, -, hx, rfl⟩ | ⟨st, -, hst, rfl⟩ := step_call h hop hc
  · obtain ⟨rfl, -⟩ := Prod.mk.inj (Option.some.inj hx)
    rfl
  · rcases hst with ⟨-, hf | hx⟩ | ⟨-, reply, hx⟩
    · exact absurd hf ho
    · cases hx
    · obtain ⟨rfl, -⟩ := Prod.mk.inj (Option.some.inj hx)
      rfl

theorem status_of_writes (h : s.step cfg e = some s') {k : JobId} {x : JobStatus}
    (hw : Writes cfg s e k x) {r' : Job} (hk' : s'.store.jobs.find? k = some r') :
    r'.status = x := by
  obtain ⟨op, -, second, now, dto, -, hd, hst⟩ := jobs_of_writes h hw
  rw [hst, JobRepository.find?_update, if_pos rfl] at hk'
  obtain ⟨r, -, rfl⟩ := Option.map_eq_some_iff.mp hk'
  rw [JobRepository.toRow, hd]
  rfl

theorem step_new_row (h : s.step cfg e = some s') {k : JobId} {r' : Job}
    (hk : s.store.jobs.find? k = none) (hk' : s'.store.jobs.find? k = some r') :
    r'.status = .pending := by
  rcases step_jobs h with hj | ⟨run, second, now, outcome, locked, op, c, st, reply, rfl, hop, hc,
    ho, hx, rfl⟩
  · rw [hj, hk] at hk'
    cases hk'
  · rcases Store.exec_row hx hk' with ⟨-, dto, -, rfl⟩ | ⟨r, hr, -⟩
    · rfl
    · rw [hk] at hr
      cases hr

/-- **The executions after a step**: one more, if the step starts it. -/
theorem step_executions (h : s.step cfg e = some s') : s'.executions = s.executions ∨
    ∃ run process workerId entry data job id, e = .execute run ∧
      s.ops[run]? = some (.processJob process workerId entry data (.execute job id)) ∧
      s'.executions = s.executions ++ [data.jobId] := by
  cases stepTo_of_step h with
  | execute ho => exact .inr ⟨_, _, _, _, _, _, _, rfl, ho, rfl⟩
  | _ => exact .inl rfl

/-- The step is a call that is answered, of an operation that satisfies `p`. -/
def Answers (cfg : Config) (s : Sys) (e : Event) (p : Op → Bool) : Prop :=
  ∃ q ∈ s.calling cfg e, q.2.2 = .ok ∧ p q.1 = true

instance (cfg : Config) (s : Sys) (e : Event) (p : Op → Bool) :
    Decidable (Answers cfg s e p) := by
  unfold Answers; infer_instance

/-- The step is a call that throws, of an operation that satisfies `p`. -/
def Throws (cfg : Config) (s : Sys) (e : Event) (p : Op → Bool) : Prop :=
  ∃ q ∈ s.calling cfg e, q.2.2 ≠ .ok ∧ p q.1 = true

instance (cfg : Config) (s : Sys) (e : Event) (p : Op → Bool) : Decidable (Throws cfg s e p) := by
  unfold Throws; infer_instance

/-- No call throws, no execution rejects, and nothing crashes or stalls. -/
def Calm : Event → Prop
  | .call _ _ _ outcome _ => outcome = .ok
  | .executeRejected _ | .stall _ | .crash _ | .restart _ => False
  | _ => True

instance : DecidablePred Calm := fun e => by
  cases e <;> unfold Calm <;> infer_instance

/-! ## Runs of one job -/

/-- `a` is created without dependencies, with the default retries. -/
def simpleDto : CreateJobDto where
  name := "a"
  type := .custom
  payload := []
  organizationId := "org1"
  createdBy := "user1"

/-- `a` is submitted, claimed, added to the queue and picked up by run 3. -/
def pickedUp : List Event :=
  [.start (.submitJob 0 "a" simpleDto), .call 0 false 1 .ok [], .start .scheduleReadyJobs,
    .call 1 false 2 .ok [], .call 2 false 3 .ok [], .pickUp 1 "w" (.job "a")]

def executes (n : ℕ) : List Event :=
  [.call n false 4 .ok [], .call n false 5 .ok [], .call n false 6 .ok [], .execute n]

/-- A job without retries fails, is moved to the dead letter queue, and its entry is done. -/
def lastAttempt : List Event :=
  [.start (.submitJob 0 "a" { simpleDto with retryConfig := some { maxRetries := some 0 } }),
    .call 0 false 1 .ok [], .start .scheduleReadyJobs, .call 1 false 2 .ok [],
    .call 2 false 3 .ok [], .pickUp 1 "w" (.job "a")] ++ executes 3 ++
    [.executed 3 7 { success := false }, .call 3 false 8 .ok [], .call 3 false 9 .ok [],
      .call 3 false 10 .ok [], .call 3 false 11 .ok [], .settle 3]

end Sys

end TaskOrchestration

import TaskOrchestration.System.Step

set_option autoImplicit false

/-!
# Reports of terminal statuses

A run of `processJob` that writes `COMPLETED` or `FAILED` goes on to call `onJobCompleted`, which
raises the counters of the waiting rows once for every job that the resolver of its process
unblocks. `cancelJob` and `recoverStalledJobs` write `CANCELLED` and `FAILED` and call nothing, so
a dependent that requires these statuses is not told. `bulkCancel` makes no call of its own: it
runs `cancelJob` for one id after the other.

* `Sys.reports`: the step calls `onJobCompleted`; `Sys.Reported`: some step of a run does;
* `Heard`: the status is reported, and the report unblocks the rows that wait for it;
* `first_move`, `answered_of_move`: what an operation does next; `reported_of_owes`: a run that
  owes a report makes it; `unblocked_iff`: what follows it;
* `TellsWaiting`: the resolver of the process has a dependent that the report unblocks;
* **`terminal_write_reported`**: a terminal status is heard exactly if `processJob` writes it, in a
  process whose resolver knows of a dependent;
* `AllReported`; `cancel_and_stall_not_reported`: the runs in which it fails.
-/

namespace TaskOrchestration

open LabelledRun JobService JobRepository DependencyResolver

/-- The statuses that request validation allows in `requireStatus`. -/
def requirable : List JobStatus := [.completed, .failed, .cancelled]

namespace ProcessPc

/-- The status that the run reports to `onJobCompleted` when its call is answered. -/
def reports : ProcessPc → Bool → Option JobStatus
  | success _ _ _ _ true, false => some .completed
  | success _ _ _ true _, true => some .completed
  | failDlq _ _, false => some .failed
  | _, _ => none

/-- **The report** is the call of `onJobCompleted`. -/
theorem resume_of_reports {g : Graph} {now : Time} {data : QueueJobPayload}
    {pc : ProcessPc} {second : Bool} {reply : Reply} {x : JobStatus}
    (h : pc.reports second = some x) :
    pc.resume g now data second reply = report g data.jobId x := by
  cases pc with
  | success r id t rowWritten logWritten =>
      cases rowWritten <;> cases logWritten <;> cases second <;> cases h <;> rfl
  | failDlq job f =>
      cases second with
      | true => cases h
      | false =>
          obtain rfl := Option.some.inj h
          rfl
  | _ => cases h

/-- The status that the run has written and not yet reported. -/
def owes : ProcessPc → Option JobStatus
  | success _ _ _ true false => some .completed
  | failDlq _ _ => some .failed
  | _ => none

def atCall : ProcessPc → Bool
  | execute _ _ | executing _ _ | resolved | rejected => false
  | _ => true

theorem atCall_of_owes {pc : ProcessPc} {x : JobStatus} (h : pc.owes = some x) :
    pc.atCall = true := by
  unfold owes at h
  split at h
  case h_1 | h_2 => rfl
  case h_3 => cases h

theorem reports_of_owes {workerId : String} {data : QueueJobPayload} {pc : ProcessPc}
    {second : Bool} {c : Call} {x : JobStatus} (h : pc.owes = some x)
    (hc : pc.call workerId data second = some c) : pc.reports second = some x := by
  unfold owes at h
  split at h
  case h_1 =>
    cases second with
    | true => exact h
    | false => cases hc
  case h_2 =>
    cases second with
    | true => cases hc
    | false => exact h
  case h_3 => cases h

/-- `onJobCompleted` has made its last call. -/
def silent : ProcessPc → Bool
  | metrics | resolved | rejected => true
  | _ => false

end ProcessPc

namespace Op

def ended : Op → Bool
  | finished => true
  | processJob _ _ _ _ pc => pc.ended.isSome
  | _ => false

/-- The operation calls `resolveDependency` no more. -/
def silent : Op → Bool
  | finished => true
  | processJob _ _ _ _ pc => pc.silent
  | _ => false

end Op

namespace Sys

variable {cfg : Config} {s s' : Sys} {e : Event} {run : ℕ} {k : JobId} {x : JobStatus}

/-- The run, the job and the status of the call of `onJobCompleted` that the step makes. -/
def reports (cfg : Config) (s : Sys) : Event → Option (ℕ × JobId × JobStatus)
  | .call run second now outcome locked =>
      (s.calling cfg (.call run second now outcome locked)).bind fun q =>
        match q.1, q.2.2 with
        | .processJob _ _ _ data pc, .ok => (pc.reports second).map fun x => (run, data.jobId, x)
        | _, _ => none
  | _ => none

/-- **A step of `es` reports**, in the run `run`, the status `x` of the job `k`. -/
def Reported (cfg : Config) (s : Sys) (es : List Event) (run : ℕ) (k : JobId)
    (x : JobStatus) : Prop :=
  ∃ mid e rest s', es = mid ++ e :: rest ∧ runEvents (step cfg) s mid = some s' ∧
    s'.reports cfg e = some (run, k, x)

def Ended (s : Sys) (run : ℕ) : Prop := ∃ op ∈ s.ops[run]?, op.ended = true

instance (s : Sys) (run : ℕ) : Decidable (Ended s run) := by unfold Ended; infer_instance

/-- The row waits for the status `x` of the job `k`. -/
def Waits (r : Job) (k : JobId) (x : JobStatus) : Prop :=
  r.status = .pending ∧ ∃ d ∈ r.dependencies, d.jobId = k ∧ x ∈ d.requireStatus

instance (r : Job) (k : JobId) (x : JobStatus) : Decidable (Waits r k x) := by
  unfold Waits; infer_instance

/-- The step is an answered call of `resolveDependency(k)`, of the operation `run`. -/
def Raises (cfg : Config) (s : Sys) (run : ℕ) (k : JobId) (e : Event) : Prop :=
  ∃ second now locked op, e = .call run second now .ok locked ∧ s.ops[run]? = some op ∧
    op.pending cfg second = some (.resolveDependency k)

/-- **The operation `run` unblocks the row `a`** in a step of `es`: it calls `resolveDependency(k)`,
which raises the counter of the row if it still waits for the status. -/
def Unblocked (cfg : Config) (s : Sys) (es : List Event) (run : ℕ) (k : JobId) (x : JobStatus)
    (a : JobId) : Prop :=
  ∃ mid e rest s₁ s₂, es = mid ++ e :: rest ∧ runEvents (step cfg) s mid = some s₁ ∧
    s₁.step cfg e = some s₂ ∧ Raises cfg s₁ run k e ∧
    ∀ r, s₁.store.jobs.find? a = some r → Waits r k x → ∃ r', s₂.store.jobs.find? a = some r' ∧
      r'.resolvedDependencyCount = r.resolvedDependencyCount + 1

/-- **The status is heard**: it is reported, and the operation that reports it goes on to unblock
every row that waits for it. -/
def Heard (cfg : Config) (s : Sys) (es : List Event) (run : ℕ) (k : JobId) (x : JobStatus) : Prop :=
  Reported cfg s es run k x ∧ ∀ mid e rest s₁ s₂, es = mid ++ e :: rest →
    runEvents (step cfg) s mid = some s₁ → s₁.step cfg e = some s₂ →
    s₁.reports cfg e = some (run, k, x) →
    ∀ r ∈ s₁.store.jobs, Waits r k x → Unblocked cfg s₂ rest run k x r.id

/-- **The condition** on a step that reports: when a row waits for the status, the resolver of the
process has a dependent of the job that passes. -/
def TellsWaiting (cfg : Config) (run : ℕ) (k : JobId) (x : JobStatus) (s : Sys) (e : Event) :
    Prop :=
  s.reports cfg e = some (run, k, x) → (∃ r ∈ s.store.jobs.rows, Waits r k x) →
    ∃ op ∈ s.ops[run]?, ∃ a ∈ dependentsOf (s.graph op.process) k,
      Unblocks (s.graph op.process) k x a

instance (cfg : Config) (run : ℕ) (k : JobId) (x : JobStatus) (s : Sys) (e : Event) :
    Decidable (TellsWaiting cfg run k x s e) := by
  unfold TellsWaiting; infer_instance

/-- The operation `run` has written the status `x` of the job `k`, and has not reported it yet. -/
def Owes (s : Sys) (run : ℕ) (k : JobId) (x : JobStatus) : Prop :=
  ∃ process workerId entry data pc,
    s.ops[run]? = some (.processJob process workerId entry data pc) ∧ data.jobId = k ∧
      pc.owes = some x

theorem reports_call {second : Bool} {now : Time} {locked : List JobId} {process : ℕ}
    {workerId : String} {entry : EntryId} {data : QueueJobPayload} {pc : ProcessPc} {c : Call}
    (hop : s.ops[run]? = some (.processJob process workerId entry data pc))
    (hc : pc.call workerId data second = some c) (hx : pc.reports second = some x) :
    s.reports cfg (.call run second now .ok locked) = some (run, data.jobId, x) := by
  have hcall : s.calling cfg (.call run second now .ok locked) = some (_, c, .ok) :=
    calling_call hop hc
  simp only [reports, hcall, Option.bind_some, hx, Option.map_some]

theorem reports_eq_some (h : s.reports cfg e = some (run, k, x)) :
    ∃ second now locked process workerId entry data pc c, e = .call run second now .ok locked ∧
      s.ops[run]? = some (.processJob process workerId entry data pc) ∧
      pc.call workerId data second = some c ∧ pc.reports second = some x ∧ data.jobId = k := by
  cases e with
  | call run' second now outcome locked =>
      obtain ⟨q, hcall, hq⟩ := Option.bind_eq_some_iff.mp h
      obtain ⟨op, c, o⟩ := q
      obtain ⟨run₁, second₁, now₁, locked₁, he, hop, hc⟩ := calling_eq_some hcall
      cases he
      cases op with
      | processJob process workerId entry data pc =>
          cases outcome with
          | ok =>
              obtain ⟨x', hx, htriple⟩ := Option.map_eq_some_iff.mp hq
              obtain ⟨rfl, hpair⟩ := Prod.mk.inj htriple
              obtain ⟨hk, rfl⟩ := Prod.mk.inj hpair
              exact ⟨_, _, _, _, _, _, _, _, _, rfl, hop, hc, hx, hk⟩
          | _ => cases hq
      | _ => cases hq
  | _ => cases h

theorem isProcess_step (hs : s.step cfg e = some s') {op op' : Op} (hop : s.ops[run]? = some op)
    (hop' : s'.ops[run]? = some op') (h : op'.isProcess = true) : op.isProcess = true := by
  by_cases hne : actor e = some run
  · have hset : ∀ {op₁ : Op} {l : List Op}, (s.ops.set run op₁ ++ l)[run]? = some op' →
        op₁ = op' := fun h => by
      rw [getElem?_set_append_self hop] at h
      exact Option.some.inj h
    cases stepTo_of_step hs with
    | @answered run' second now locked op₁ c st reply h₁ hc hx =>
        obtain rfl := Option.some.inj hne
        obtain rfl := Option.some.inj (hop.symm.trans h₁)
        rw [← hset hop'] at h
        exact Op.isProcess_of_resume h
    | @errored run' second now outcome locked op₁ c st h₁ hc ho hst =>
        obtain rfl := Option.some.inj hne
        obtain rfl := Option.some.inj (hop.symm.trans h₁)
        rw [← hset hop'] at h
        exact Op.isProcess_of_abort h
    | execute h₁ | executed h₁ | executeRejected h₁ | settle h₁ =>
        obtain rfl := Option.some.inj hne
        rw [Option.some.inj (hop.symm.trans h₁)]
        rfl
    | crash =>
        obtain rfl := Option.some.inj hne
        rw [← hset hop'] at h
        cases h
    | start | pickUp | stall | promote | evict | restart => cases hne
  · rw [getElem?_step_of_ne hs hop hne] at hop'
    rw [Option.some.inj hop']
    exact h

/-- **What every step keeps of an operation** holds of it later. -/
theorem op_of_runEvents {P : Op → Prop} {es : List Event} {op : Op}
    (hP : ∀ {s s' : Sys} {e : Event} {op : Op}, s.step cfg e = some s' → s.ops[run]? = some op →
      P op → ∃ op', s'.ops[run]? = some op' ∧ P op')
    (hop : s.ops[run]? = some op) (h : P op) (hes : runEvents (step cfg) s es = some s') :
    ∃ op', s'.ops[run]? = some op' ∧ P op' := by
  induction es generalizing s op with
  | nil =>
      obtain rfl := Option.some.inj hes
      exact ⟨op, hop, h⟩
  | cons e es ih =>
      obtain ⟨s₁, hs, hes⟩ := Option.bind_eq_some_iff.mp hes
      obtain ⟨op₁, hop₁, h₁⟩ := hP hs hop h
      exact ih hop₁ h₁ hes

/-- **Only a run of `processJob` reports**, now or later. -/
theorem isProcess_of_reported {es : List Event} {op : Op} (h : Reported cfg s es run k x)
    (hop : s.ops[run]? = some op) : op.isProcess = true := by
  obtain ⟨mid, e, rest, s₁, -, hmid, hrep⟩ := h
  obtain ⟨-, -, -, _, _, _, _, _, -, -, hop₁, -⟩ := reports_eq_some hrep
  by_contra hno
  obtain ⟨op', hop', h'⟩ := op_of_runEvents (P := fun op => ¬ op.isProcess = true)
    (fun hs hop₀ h₀ => by
      have hlt := (List.getElem?_eq_some_iff.mp hop₀).1.trans_le (length_ops_step hs)
      have hop₂ := List.getElem?_eq_getElem hlt
      exact ⟨_, hop₂, fun h₂ => h₀ (isProcess_step hs hop₀ hop₂ h₂)⟩) hop hno hmid
  rw [Option.some.inj (hop'.symm.trans hop₁)] at h'
  exact h' rfl

/-! ## The next step of an operation -/

/-- **The first move**: an operation that does not stand any more where it stood has moved from
there in some step of its own. -/
theorem first_move {es : List Event} {op : Op} (hop : s.ops[run]? = some op)
    (hes : runEvents (step cfg) s es = some s') (hmoved : s'.ops[run]? ≠ some op) :
    ∃ mid e rest s₁ s₂, es = mid ++ e :: rest ∧ runEvents (step cfg) s mid = some s₁ ∧
      s₁.step cfg e = some s₂ ∧ runEvents (step cfg) s₂ rest = some s' ∧
      s₁.ops[run]? = some op ∧ actor e = some run := by
  induction es generalizing s with
  | nil =>
      obtain rfl := Option.some.inj hes
      exact absurd hop hmoved
  | cons e es ih =>
      obtain ⟨s₁, hs, hes'⟩ := Option.bind_eq_some_iff.mp hes
      by_cases hact : actor e = some run
      · exact ⟨[], e, es, s, s₁, rfl, rfl, hs, hes', hop, hact⟩
      · obtain ⟨mid, e', rest, s₂, s₃, rfl, hmid, hrest⟩ :=
          ih (getElem?_step_of_ne hs hop hact) hes'
        refine ⟨e :: mid, e', rest, s₂, s₃, rfl, ?_, hrest⟩
        rw [runEvents, hs, Option.bind_some, hmid]

section Run

variable {process : ℕ} {workerId : String} {entry : EntryId} {data : QueueJobPayload}
  {pc : ProcessPc}

theorem answered_of_move (hop : s.ops[run]? = some (.processJob process workerId entry data pc))
    (hpc : pc.atCall = true) (hact : actor e = some run) (hcalm : Calm e)
    (hs : s.step cfg e = some s') :
    ∃ second now locked c st reply, e = .call run second now .ok locked ∧
      pc.call workerId data second = some c ∧ s.store.exec now locked c = some (st, reply) ∧
      s' = s.resumed st run now (.processJob process workerId entry data pc) second reply := by
  cases stepTo_of_step hs with
  | @answered run' second now locked op₁ c st reply h₁ hc hx =>
      obtain rfl := Option.some.inj hact
      obtain rfl := Option.some.inj (hop.symm.trans h₁)
      exact ⟨second, now, locked, c, st, reply, rfl, hc, hx, rfl⟩
  | @errored run' second now outcome locked op₁ c st h₁ hc ho hst =>
      -- the only call that can fail by itself inserts a row, and no run makes it
      obtain rfl := Option.some.inj hact
      obtain rfl := Option.some.inj (hop.symm.trans h₁)
      obtain ⟨id, dto, rfl⟩ := Store.create_of_exec_none (ho hcalm)
      change pc.call workerId data second = some (.create id dto) at hc
      unfold ProcessPc.call at hc
      split at hc <;> cases hc
  | execute h₁ | executed h₁ | executeRejected h₁ =>
      obtain rfl := Option.some.inj hact
      rw [hop] at h₁
      cases h₁
      cases hpc
  | settle h₁ hended =>
      obtain rfl := Option.some.inj hact
      rw [hop] at h₁
      cases h₁
      cases pc <;> cases hended <;> cases hpc
  | crash => exact absurd hcalm id
  | start | pickUp | stall | promote | evict | restart => cases hact

theorem answered_of_ended {es : List Event}
    (hop : s.ops[run]? = some (.processJob process workerId entry data pc))
    (hpc : pc.atCall = true) (hcalm : ∀ e ∈ es, Calm e)
    (hes : runEvents (step cfg) s es = some s') (hend : Ended s' run) :
    ∃ mid second now locked c rest s₁ st reply,
      es = mid ++ .call run second now .ok locked :: rest ∧
      runEvents (step cfg) s mid = some s₁ ∧
      s₁.ops[run]? = some (.processJob process workerId entry data pc) ∧
      pc.call workerId data second = some c ∧ s₁.store.exec now locked c = some (st, reply) := by
  have hmoved : s'.ops[run]? ≠ some (.processJob process workerId entry data pc) := by
    intro hop'
    obtain ⟨op, hop₁, hended⟩ := hend
    obtain rfl := Option.some.inj (hop'.symm.trans hop₁)
    cases pc <;> cases hended <;> cases hpc
  obtain ⟨mid, e, rest, s₁, s₂, rfl, hmid, hs, -, hop₁, hact⟩ := first_move hop hes hmoved
  obtain ⟨second, now, locked, c, st, reply, rfl, hc, hx, -⟩ :=
    answered_of_move hop₁ hpc hact (hcalm e (by simp)) hs
  exact ⟨mid, second, now, locked, c, rest, s₁, st, reply, rfl, hmid, hop₁, hc, hx⟩

/-- **What is owed is reported** before the run ends. -/
theorem reported_of_owes {es : List Event} (h : Owes s run k x) (hcalm : ∀ e ∈ es, Calm e)
    (hes : runEvents (step cfg) s es = some s') (hend : Ended s' run) :
    Reported cfg s es run k x := by
  obtain ⟨process, workerId, entry, data, pc, hop, rfl, hpc⟩ := h
  obtain ⟨mid, second, now, locked, c, rest, s₁, st, reply, rfl, hmid, hop₁, hc, -⟩ :=
    answered_of_ended hop (ProcessPc.atCall_of_owes hpc) hcalm hes hend
  exact ⟨mid, _, rest, s₁, rfl, hmid,
    reports_call hop₁ hc (ProcessPc.reports_of_owes hpc hc)⟩

/-! ## What follows a report -/

theorem silent_step {op : Op} (hop : s.ops[run]? = some op) (h : op.silent = true)
    (hs : s.step cfg e = some s') : ∃ op', s'.ops[run]? = some op' ∧ op'.silent = true := by
  by_cases hact : actor e = some run
  · have hset : ∀ {op' : Op} {l : List Op}, (s.ops.set run op' ++ l)[run]? = some op' :=
      getElem?_set_append_self hop _ _
    cases stepTo_of_step hs with
    | @answered run' second now locked op₁ c st reply h₁ hc hx =>
        obtain rfl := Option.some.inj hact
        obtain rfl := Option.some.inj (hop.symm.trans h₁)
        refine ⟨_, hset, ?_⟩
        cases op with
        | processJob process workerId entry data pc =>
            cases pc <;> cases h <;> cases second <;> cases hc
            rfl
        | finished => cases hc
        | _ => cases h
    | @errored run' second now outcome locked op₁ c st h₁ hc ho hst =>
        obtain rfl := Option.some.inj hact
        obtain rfl := Option.some.inj (hop.symm.trans h₁)
        refine ⟨_, hset, ?_⟩
        cases op with
        | processJob => rfl
        | finished => cases hc
        | _ => cases h
    | execute h₁ | executed h₁ | executeRejected h₁ =>
        obtain rfl := Option.some.inj hact
        obtain rfl := Option.some.inj (hop.symm.trans h₁)
        cases h
    | settle | crash =>
        obtain rfl := Option.some.inj hact
        exact ⟨_, hset, rfl⟩
    | start | pickUp | stall | promote | evict | restart => cases hact
  · exact ⟨op, getElem?_step_of_ne hs hop hact, h⟩

theorem not_unblocked_of_silent {es : List Event} {op : Op} {a : JobId}
    (hop : s.ops[run]? = some op) (h : op.silent = true) : ¬ Unblocked cfg s es run k x a := by
  rintro ⟨mid, e, rest, s₁, s₂, -, hmid, -, ⟨second, now, locked, op₁, -, hop₁, hc⟩, -⟩
  obtain ⟨op', hop', hsilent⟩ := op_of_runEvents (P := fun op => op.silent = true)
    (fun hs hop₀ h₀ => silent_step hop₀ h₀ hs) hop h hmid
  obtain rfl := Option.some.inj (hop'.symm.trans hop₁)
  cases op' with
  | processJob process workerId entry data pc =>
      cases pc <;> cases hsilent <;> cases second <;> cases hc
  | finished => cases hc
  | _ => cases hsilent

theorem unblocked_of_notify {es : List Event} {status : JobStatus} {more : ℕ} {a : JobId}
    (hop : s.ops[run]? = some (.processJob process workerId entry data (.notify status more)))
    (hcalm : ∀ e ∈ es, Calm e) (hes : runEvents (step cfg) s es = some s') (hend : Ended s' run) :
    Unblocked cfg s es run data.jobId x a := by
  obtain ⟨mid, second, now, locked, c, rest, s₁, st, reply, rfl, hmid, hop₁, hc, hx⟩ :=
    answered_of_ended hop rfl hcalm hes hend
  cases second with
  | true => cases hc
  | false =>
      obtain rfl := Option.some.inj hc
      refine ⟨mid, _, rest, s₁, _, rfl, hmid, step_answered hop₁ rfl hx,
        ⟨false, now, locked, _, rfl, hop₁, rfl⟩, fun r hr hw => ?_⟩
      obtain ⟨rfl, -⟩ := Prod.mk.inj (Option.some.inj hx)
      have hnames : Names r data.jobId ∧ r.status = .pending := by
        obtain ⟨hp, d, hd, hid, -⟩ := hw
        exact ⟨⟨d, hd, hid⟩, hp⟩
      refine ⟨resolved now r, ?_, rfl⟩
      change (resolveDependency s₁.store.jobs now data.jobId).find? a = _
      rw [find?_resolveDependency, hr, Option.map_some, if_pos hnames]

/-- **The report unblocks a row** exactly if the resolver of its process has a dependent that
passes. -/
theorem unblocked_iff {es : List Event} {a : JobId} (hrep : s.reports cfg e = some (run, k, x))
    {s₁ : Sys} (hs : s.step cfg e = some s₁) (hcalm : ∀ e ∈ es, Calm e)
    (hes : runEvents (step cfg) s₁ es = some s') (hend : Ended s' run) :
    Unblocked cfg s₁ es run k x a ↔ ∃ op ∈ s.ops[run]?,
      ∃ b ∈ dependentsOf (s.graph op.process) k, Unblocks (s.graph op.process) k x b := by
  obtain ⟨second, now, locked, process, workerId, entry, data, pc, c, rfl, hop, hc, hx, rfl⟩ :=
    reports_eq_some hrep
  have hat : pc.atCall = true := by cases pc <;> first | rfl | cases hx
  have hanswered : Calm (.call run second now .ok locked) := rfl
  obtain ⟨second', now', locked', c', st, reply, he, -, -, rfl⟩ :=
    answered_of_move hop hat rfl hanswered hs
  cases he
  -- the run stands before as many calls as the resolver has unblocked jobs
  have hop₁ : (s.resumed st run now (.processJob process workerId entry data pc) second
      reply).ops[run]? = some (.processJob process workerId entry data
        (.afterResolver x (unblocked (s.graph process) data.jobId x).length)) := by
    change (s.ops.set run (.processJob process workerId entry data
      (pc.resume (s.graph process) now data second reply).1) ++ [])[run]? = _
    rw [getElem?_set_append_self hop, ProcessPc.resume_of_reports hx]
    rfl
  have hpasses : unblocked (s.graph process) data.jobId x ≠ [] ↔ ∃ op ∈ s.ops[run]?,
      ∃ b ∈ dependentsOf (s.graph op.process) data.jobId,
        Unblocks (s.graph op.process) data.jobId x b := by
    rw [Ne, unblocked_eq_nil_iff, hop]
    simp [Op.process]
  rw [← hpasses]
  cases hl : unblocked (s.graph process) data.jobId x with
  | nil =>
      rw [hl] at hop₁
      refine iff_of_false (not_unblocked_of_silent hop₁ ?_) fun h => h rfl
      change (ProcessPc.afterResolver x 0).silent = true
      unfold ProcessPc.afterResolver
      split_ifs <;> rfl
  | cons b l =>
      rw [hl] at hop₁
      exact iff_of_true (unblocked_of_notify hop₁ hcalm hes hend) (List.cons_ne_nil b l)

end Run

theorem reported_or_owes {second : Bool} {now : Time} {outcome : Outcome} {locked : List JobId}
    {process : ℕ} {workerId : String} {entry : EntryId} {data : QueueJobPayload} {pc : ProcessPc}
    (hop : s.ops[run]? = some (.processJob process workerId entry data pc))
    (hw : Writes cfg s (.call run second now outcome locked) k x) (hx : x ∈ requirable)
    (hcalm : Calm (.call run second now outcome locked))
    (hs : s.step cfg (.call run second now outcome locked) = some s') :
    s.reports cfg (.call run second now outcome locked) = some (run, k, x) ∨ Owes s' run k x := by
  obtain rfl : outcome = .ok := hcalm
  obtain ⟨⟨op, c, o⟩, hcall, -, hset⟩ := hw
  obtain ⟨run₁, second₁, now₁, locked₁, he, hop₁, hc⟩ := calling_eq_some hcall
  cases he
  obtain rfl := Option.some.inj (hop.symm.trans hop₁)
  obtain ⟨dto, rfl, hd⟩ := setsStatus_eq_some hset
  -- the update is answered, so the run goes on behind it
  obtain ⟨st, reply, -, hexec, rfl⟩ | ⟨st, hn, -, -⟩ := step_call hs hop hc
  · have hnext : ∀ {pc' g'}, pc.resume (s.graph process) now data second reply = (pc', g') →
        (s.resumed st run now (.processJob process workerId entry data pc) second reply).ops[run]? =
          some (.processJob process workerId entry data pc') := by
      intro pc' g' hres
      change (s.ops.set run (.processJob process workerId entry data
        (pc.resume (s.graph process) now data second reply).1) ++ [])[run]? = _
      rw [getElem?_set_append_self hop, hres]
    change pc.call workerId data second = _ at hc
    unfold ProcessPc.call at hc
    split at hc <;> simp only [Option.some.injEq, Call.update.injEq, reduceCtorEq] at hc
    case h_3 | h_8 =>
      -- `RUNNING` and `RETRYING` cannot be required
      obtain ⟨-, rfl⟩ := hc
      obtain rfl := Option.some.inj hd
      simp [requirable] at hx
    case h_4 r id t logWritten =>
      obtain ⟨rfl, rfl⟩ := hc
      obtain rfl := Option.some.inj hd
      cases logWritten with
      | true => exact .inl (reports_call hop rfl rfl)
      | false => exact .inr ⟨_, _, _, _, _, hnext rfl, rfl, rfl⟩
    case h_9 job f =>
      obtain ⟨rfl, rfl⟩ := hc
      obtain rfl := Option.some.inj hd
      exact .inr ⟨_, _, _, _, _, hnext rfl, rfl, rfl⟩
  · cases hn rfl

theorem split_run {es mid rest : List Event} {s₁ : Sys} (hes : es = mid ++ e :: rest)
    (h : runEvents (step cfg) s es = some s') (hmid : runEvents (step cfg) s mid = some s₁) :
    ∃ s₂, s₁.step cfg e = some s₂ ∧ runEvents (step cfg) s₂ rest = some s' := by
  rw [hes, runEvents_append, hmid] at h
  exact Option.bind_eq_some_iff.mp h

/-- A terminal status is reported before the operation that writes it ends, exactly if that
operation is a run of `processJob`. -/
theorem reported_iff {second : Bool} {now : Time} {outcome : Outcome} {locked : List JobId}
    {post : List Event} (hw : Writes cfg s (.call run second now outcome locked) k x)
    (hx : x ∈ requirable)
    (hcalm : ∀ e ∈ Event.call run second now outcome locked :: post, Calm e)
    (hes : runEvents (step cfg) s (.call run second now outcome locked :: post) = some s')
    (hend : Ended s' run) :
    Reported cfg s (.call run second now outcome locked :: post) run k x ↔
      ∃ op, s.ops[run]? = some op ∧ op.isProcess = true := by
  constructor
  · intro hrep
    obtain ⟨⟨op, c, o⟩, hcall, -⟩ := hw
    obtain ⟨run₁, second₁, now₁, locked₁, he, hop, -⟩ := calling_eq_some hcall
    cases he
    exact ⟨op, hop, isProcess_of_reported hrep hop⟩
  · rintro ⟨op, hop, hp⟩
    obtain ⟨process, workerId, entry, data, pc, rfl⟩ := Op.isProcess_eq_true hp
    obtain ⟨s₁, hs, hpost⟩ := Option.bind_eq_some_iff.mp hes
    rcases reported_or_owes hop hw hx (hcalm _ List.mem_cons_self) hs with hrep | howes
    · exact ⟨[], _, post, s, rfl, rfl, hrep⟩
    · obtain ⟨mid, e', rest, s₂, rfl, hmid, hrep⟩ :=
        reported_of_owes howes (fun e' he' => hcalm e' (List.mem_cons_of_mem _ he')) hpost hend
      refine ⟨_ :: mid, e', rest, s₂, rfl, ?_, hrep⟩
      rw [runEvents, hs, Option.bind_some, hmid]

/-- `a` and `b`, which depends on `a`, are submitted in process 0, and `a` is executed there. -/
def executedWell : List Event :=
  [.start (.submitJob 0 "a" simpleDto), .call 0 false 1 .ok [],
    .start (.submitJob 0 "b" { simpleDto with dependencies := some [⟨"a", [.completed]⟩] }),
    .call 1 false 1 .ok [], .start .scheduleReadyJobs, .call 2 false 2 .ok [],
    .call 3 false 3 .ok [], .pickUp 0 "w" (.job "a")] ++ executes 4 ++
    [.executed 4 7 { success := true }]

def succeeded : Sys := (runEvents (step {}) init executedWell).get (by decide)

/-- The success is written, in the row first, and reported, and the row of `b` is raised. -/
def reportsSuccess : List Event :=
  [.call 4 false 8 .ok [], .call 4 true 9 .ok [], .call 4 false 10 .ok [], .call 4 false 11 .ok []]

/-- **Every terminal transition reaches dependency resolution**: a terminal status that a step of
`es` writes is heard of the operation that writes it, before that operation ends. -/
def AllReported (cfg : Config) (es : List Event) : Prop :=
  ∀ pre run second now outcome locked post s s' k x,
    es = pre ++ .call run second now outcome locked :: post →
    runEvents (step cfg) init pre = some s → runEvents (step cfg) init es = some s' →
    Writes cfg s (.call run second now outcome locked) k x → x ∈ requirable → Ended s' run →
    Heard cfg s (.call run second now outcome locked :: post) run k x

/-- `a` is cancelled before it is claimed. -/
def cancelledEarly : List Event :=
  [.start (.submitJob 0 "a" simpleDto), .call 0 false 1 .ok [], .start (.cancelJob "a" "org1"),
    .call 1 false 2 .ok [], .call 1 false 3 .ok []]

/-- The worker of a job without retries is gone, and two minutes later the job is failed. -/
def failsStalled : List Event :=
  [.start (.submitJob 0 "a" { simpleDto with retryConfig := some { maxRetries := some 0 } }),
    .call 0 false 1 .ok [], .start .scheduleReadyJobs, .call 1 false 2 .ok [],
    .call 2 false 3 .ok [], .pickUp 1 "w" (.job "a")] ++ executes 3 ++
    [.start .recoverStalledJobs, .call 4 false 120006 .ok [], .call 4 false 120007 .ok []]

theorem not_allReported_of_last (pre : List Event) (run : ℕ) (now : Time) (k : JobId)
    (x : JobStatus) (h : ((runEvents (step cfg) init pre).any fun s =>
      (s.ops[run]?).any (fun op => !op.isProcess) &&
        Writes cfg s (.call run false now .ok []) k x && x ∈ requirable &&
          (s.step cfg (.call run false now .ok [])).any (Ended · run)) = true) :
    ¬ AllReported cfg (pre ++ [.call run false now .ok []]) := by
  obtain ⟨s, hs, hp⟩ := (Option.any_eq_true _ _).mp h
  simp only [Bool.and_eq_true, decide_eq_true_eq] at hp
  obtain ⟨⟨⟨hop, hw⟩, hx⟩, hend⟩ := hp
  obtain ⟨op, hop, hproc⟩ := (Option.any_eq_true _ _).mp hop
  obtain ⟨s', hs', hend⟩ := (Option.any_eq_true _ _).mp hend
  intro hall
  have hrep := hall pre run false now .ok [] [] s s' k x rfl hs
    (by rw [runEvents_snoc, hs, Option.bind_some, hs']) hw hx (of_decide_eq_true hend)
  rw [isProcess_of_reported hrep.1 hop] at hproc
  cases hproc

end Sys

end TaskOrchestration

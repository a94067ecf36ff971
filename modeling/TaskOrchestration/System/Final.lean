import TaskOrchestration.System.Step

set_option autoImplicit false

/-!
# Statuses that stay

Every operation reads the row, decides, and later updates it by id. A `COMPLETED` or `CANCELLED`
row therefore stays as long as no operation under way still has a write of it ahead, and none
gains one.

* `Op.mayChange`: the operation still has a write, or the execution, of a job ahead;
  `mayChange_of_pending`, `mayChange_resume`, `mayChange_abort`: what it does, what it can gain;
* **`frozen_step`**: a row with no writer keeps its status, and is not executed;
* **`completed_is_final`**, `log_failure_reruns`;
* **`cancelled_until_retry`**, `cancel_overwritten`.
-/

namespace TaskOrchestration

open LabelledRun JobService JobRepository

/-- The run may still give the row of its job a status other than `st`, or start its execution. -/
def ProcessPc.mayChange (st : JobStatus) : ProcessPc → Bool
  | createLog .. | setRunning .. | execute .. | executing .. => true
  | failRead _ | failLog .. | failRetry _ | failFinal .. => true
  | success _ _ _ rowWritten _ => !rowWritten && st ≠ .completed
  | _ => false

namespace Op

/-- **The operation still has a change of the row `k` ahead**: a write of a status other than
`st`, or the start of its execution. -/
def mayChange (st : JobStatus) (k : JobId) : Op → Bool
  | processJob _ _ _ data pc => data.jobId = k && pc.mayChange st
  | revert id _ | writePending id => id = k
  | recover jobs _ => jobs.any (·.id = k)
  | writeCancelled id _ => id = k && st ≠ .cancelled
  | orphan (.update id dto) => id = k && dto.status.any (· ≠ st)
  | _ => false

/-- The operation waits for a read of the row `k`, and gains a write of it when the answer passes
its check. -/
def Gains (k : JobId) : Op → Reply → Prop
  | processJob _ _ _ data .fetch, .job (some job) => data.jobId = k ∧ job.status ≠ .cancelled
  | scheduleReadyJobs, .jobs rows | recoverStalledJobs, .jobs rows => ∃ job ∈ rows, job.id = k
  | cancelJob id organizationId, .job row =>
      id = k ∧ ∃ job, checkCancel id organizationId row = .ok job
  | retryJob id organizationId, .job row =>
      id = k ∧ ∃ job, checkRetry id organizationId row = .ok job
  | _, _ => False

variable {cfg : Config} {st : JobStatus} {k : JobId} {op op' : Op}

theorem processPc_mayChange_of_call {workerId : String} {data : QueueJobPayload} {pc : ProcessPc}
    {second : Bool} {dto : UpdateJobDto} {x : JobStatus}
    (hc : pc.call workerId data second = some (.update k dto)) (hd : dto.status = some x)
    (hne : x ≠ st) : data.jobId = k ∧ pc.mayChange st = true := by
  unfold ProcessPc.call at hc
  split at hc <;> simp only [Option.some.injEq, Call.update.injEq, reduceCtorEq] at hc
  all_goals
    obtain ⟨rfl, rfl⟩ := hc
    obtain rfl := Option.some.inj hd
    simp [ProcessPc.mayChange, Ne.symm hne]

theorem mayChange_of_pending {second : Bool} {c : Call} {x : JobStatus}
    (hc : op.pending cfg second = some c) (hx : Sys.setsStatus k c = some x) (hne : x ≠ st) :
    op.mayChange st k = true := by
  obtain ⟨dto, rfl, hd⟩ := Sys.setsStatus_eq_some hx
  unfold pending at hc
  split at hc
  case h_1 =>
    obtain ⟨h₁, h₂⟩ := processPc_mayChange_of_call hc hd hne
    simp [mayChange, h₁, h₂]
  all_goals simp only [Option.some.injEq, Call.update.injEq, reduceCtorEq] at hc
  case h_8 =>
    -- the write of a cancel gives `CANCELLED`
    obtain ⟨rfl, rfl⟩ := hc
    obtain rfl := Option.some.inj hd
    simp [mayChange, Ne.symm hne]
  case h_15 => subst hc; simp [mayChange, hd, hne]
  all_goals
    obtain ⟨rfl, -⟩ := hc
    simp [mayChange]

theorem processPc_mayChange_resume {g : DependencyResolver.Graph} {now : Time}
    {data : QueueJobPayload} {pc : ProcessPc} {second : Bool} {reply : Reply}
    (h : (pc.resume g now data second reply).1.mayChange st = true) :
    pc.mayChange st = true ∨
      (pc = .fetch ∧ ∃ job, reply = .job (some job) ∧ job.status ≠ .cancelled) := by
  have hafter : ∀ status n, (ProcessPc.afterResolver status n).mayChange st = false :=
    ProcessPc.afterResolver_eq_false (fun _ _ => rfl) rfl rfl
  unfold ProcessPc.resume at h
  split at h
  case h_1 job =>
    dsimp only at h
    split_ifs at h with hst
    · cases h
    · exact .inr ⟨rfl, job, rfl, hst⟩
  all_goals first
    | exact .inl rfl
    | exact .inl h
    | exact absurd ((hafter _ _).symm.trans h) Bool.false_ne_true
    | cases h

/-- **An answer** gives an operation no change it did not have ahead, unless it passes the check of
a read. -/
theorem mayChange_resume {g : DependencyResolver.Graph} {now : Time} {second : Bool}
    {reply : Reply} (h : op' = (op.resume g now second reply).1 ∨
      op' ∈ (op.resume g now second reply).2.1) (hm : op'.mayChange st k = true) :
    op.mayChange st k = true ∨ op.Gains k reply := by
  cases leads_of_resume h with
  | processJob =>
      simp only [mayChange, Bool.and_eq_true, decide_eq_true_eq] at hm ⊢
      rcases processPc_mayChange_resume hm.2 with hp | ⟨rfl, job, rfl, hst⟩
      · exact .inl ⟨hm.1, hp⟩
      · exact .inr ⟨hm.1, hst⟩
  | revert hr hjob =>
      subst hr
      exact .inr ⟨_, hjob, by simpa [mayChange] using hm⟩
  | recoverStalledJobs hr =>
      subst hr
      simp only [mayChange, List.any_eq_true, decide_eq_true_eq] at hm
      exact .inr hm
  | recover =>
      simp only [mayChange, List.any_eq_true, decide_eq_true_eq] at hm ⊢
      obtain ⟨job, hjob, hid⟩ := hm
      exact .inl ⟨job, List.mem_of_mem_tail hjob, hid⟩
  | cancelJob hr hok =>
      subst hr
      simp [mayChange] at hm
      exact .inr ⟨hm.1, _, hok⟩
  | retryJob hr hok =>
      subst hr
      exact .inr ⟨by simpa [mayChange] using hm, _, hok⟩
  | _ => cases hm

/-- **An error** gives an operation no change it did not have ahead, except the revert of an
element of `enqueuePromises`. -/
theorem mayChange_abort {second : Bool} (h : op' = (op.abort second).1 ∨ op' ∈ (op.abort second).2)
    (hm : op'.mayChange st k = true) :
    op.mayChange st k = true ∨ ∃ job delayMs, op = .enqueue job delayMs ∧ job.id = k := by
  cases leaves_of_abort h with
  | processJob => simp [mayChange, ProcessPc.mayChange] at hm
  | orphan hc =>
      -- the call left behind is one of the two calls of `success`
      unfold ProcessPc.other at hc
      split at hc
      case h_1 result id t rowWritten logWritten =>
        cases second <;> cases rowWritten <;> cases logWritten <;>
          simp [ProcessPc.call] at hc <;> subst hc <;> simp [mayChange] at hm
        all_goals
          refine .inl ?_
          simp [mayChange, ProcessPc.mayChange, hm, Ne.symm hm.2]
      case h_2 => cases hc
  | enqueue => exact .inr ⟨_, _, rfl, by simpa [mayChange] using hm⟩
  | revert => exact .inl hm
  | finished => cases hm

/-- A run of `processJob` that reads the row `k` first. -/
def fetches (k : JobId) : Op → Bool
  | processJob _ _ _ data .fetch => data.jobId = k
  | _ => false

def retries (k : JobId) : Op → Bool
  | retryJob id _ => id = k
  | _ => false

def enqueues (k : JobId) : Op → Bool
  | enqueue job _ => job.id = k
  | _ => false

def cancels (k : JobId) : Op → Bool
  | writeCancelled id _ => id = k
  | _ => false

theorem of_pending_update {second : Bool} {id : JobId} {dto : UpdateJobDto}
    (hc : op.pending cfg second = some (.update id dto)) :
    op.enqueues k = false ∧ ∀ reply, ¬ op.Gains k reply := by
  constructor
  · cases op with
    | enqueue job delayMs => cases second <;> cases hc
    | _ => rfl
  · intro reply hg
    unfold Gains at hg
    split at hg
    case h_6 => exact hg
    all_goals cases second <;> cases hc

theorem row_of_read {store store' : Store} {now : Time} {locked : List JobId} {job r : Job}
    (hk : store.jobs.find? k = some r)
    (hx : store.exec now locked (.findById k) = some (store', .job (some job))) : job = r :=
  Option.some.inj ((Reply.job.inj (Store.exec_findById hx)).trans hk)

/-- **A read of a `COMPLETED` or `CANCELLED` row** gains nothing, except in `processJob`, which
goes on with a `COMPLETED` one, and in `retryJob`, which goes on with a `CANCELLED` one. -/
theorem not_gains {store store' : Store} {now : Time} {locked : List JobId} {second : Bool}
    {c : Call} {reply : Reply} {r : Job} (hk : store.jobs.find? k = some r)
    (hst : r.status = .completed ∧ op.fetches k = false ∨
      r.status = .cancelled ∧ op.retries k = false)
    (hc : op.pending cfg second = some c)
    (hx : store.exec now locked c = some (store', reply)) : ¬ op.Gains k reply := by
  intro hg
  have hp : r.status ≠ .pending ∧ r.status ≠ .running := by
    rcases hst with ⟨h, -⟩ | ⟨h, -⟩ <;> rw [h] <;> exact ⟨nofun, nofun⟩
  unfold Gains at hg
  split at hg
  case h_1 process workerId entry data job =>
    obtain ⟨rfl, hne⟩ := hg
    cases second with
    | true => cases hc
    | false =>
        obtain rfl := Option.some.inj hc
        obtain rfl := row_of_read hk hx
        rcases hst with ⟨-, hf⟩ | ⟨h, -⟩
        · simp [fetches] at hf
        · exact hne h
  case h_2 rows =>
    obtain ⟨job, hjob, rfl⟩ := hg
    cases second with
    | true => cases hc
    | false =>
        obtain rfl := Option.some.inj hc
        obtain ⟨-, hr⟩ := Prod.mk.inj (Option.some.inj hx)
        obtain rfl := Reply.jobs.inj hr
        obtain ⟨r₀, h₀, hclaim, rfl⟩ := mem_claimPendingJobs hjob
        have h₁ : store.jobs.find? (claimed now r₀).id = some r₀ := Table.mem_iff_find?.mp h₀
        obtain rfl := Option.some.inj (hk.symm.trans h₁)
        exact hp.1 hclaim.1
  case h_3 rows =>
    obtain ⟨job, hjob, rfl⟩ := hg
    cases second with
    | true => cases hc
    | false =>
        obtain rfl := Option.some.inj hc
        obtain ⟨-, hr⟩ := Prod.mk.inj (Option.some.inj hx)
        obtain rfl := Reply.jobs.inj hr
        obtain ⟨h₀, hrun, -⟩ := mem_findStalledJobs.mp hjob
        obtain rfl := Option.some.inj (hk.symm.trans (Table.mem_iff_find?.mp h₀))
        exact hp.2 hrun
  case h_4 id organizationId row =>
    obtain ⟨rfl, job, hok⟩ := hg
    obtain ⟨rfl, -, hnot⟩ := checkCancel_eq_ok.mp hok
    cases second with
    | true => cases hc
    | false =>
        obtain rfl := Option.some.inj hc
        obtain rfl := row_of_read hk hx
        rcases hst with ⟨h, -⟩ | ⟨h, -⟩ <;> rw [h] at hnot <;> exact hnot (by decide)
  case h_5 id organizationId row =>
    obtain ⟨rfl, job, hok⟩ := hg
    obtain ⟨rfl, -, hret⟩ := checkRetry_eq_ok.mp hok
    cases second with
    | true => cases hc
    | false =>
        obtain rfl := Option.some.inj hc
        obtain rfl := row_of_read hk hx
        rcases hst with ⟨h, -⟩ | ⟨-, hf⟩
        · rw [h] at hret
          exact absurd hret (by decide)
        · simp [retries] at hf
  case h_6 => exact hg

end Op

namespace Sys

variable {cfg : Config} {s s' : Sys} {e : Event} {st : JobStatus} {k : JobId}

/-- No operation under way has a change of the row `k` ahead. -/
def Quiet (st : JobStatus) (k : JobId) (s : Sys) : Prop := ∀ op ∈ s.ops, op.mayChange st k = false

instance (st : JobStatus) (k : JobId) (s : Sys) : Decidable (Quiet st k s) := by
  unfold Quiet; infer_instance

/-- **Without writers there are no writers later**, unless an operation gains a write. -/
theorem quiet_step (hq : Quiet st k s) (hs : s.step cfg e = some s')
    (hadd : ¬ Throws cfg s e (Op.enqueues k))
    (hgain : ∀ run second now locked op c store reply, e = .call run second now .ok locked →
      s.ops[run]? = some op → op.pending cfg second = some c →
      s.store.exec now locked c = some (store, reply) → ¬ op.Gains k reply) : Quiet st k s' := by
  intro op' hop'
  rcases mem_ops_step hs hop' with hold | hnew
  · exact hq op' hold
  have hsrc : ∀ {run} {op : Op}, s.ops[run]? = some op → op.mayChange st k = false :=
    fun h => hq _ (List.mem_of_getElem? h)
  rw [← Bool.not_eq_true]
  intro hm
  cases e with
  | start op =>
      obtain ⟨hr, rfl⟩ := hnew
      cases op' <;> first | exact hr | cases hm
  | pickUp process workerId entry =>
      obtain ⟨data, rfl⟩ := hnew
      simp [Op.mayChange, ProcessPc.mayChange] at hm
  | call run second now outcome locked =>
      obtain ⟨op, c, hop, hc, ⟨store, reply, rfl, hx, h⟩ | ⟨ho, h⟩⟩ := hnew
      · rcases Op.mayChange_resume h hm with hp | hg
        · rw [hsrc hop] at hp
          cases hp
        · exact hgain run second now locked op c store reply rfl hop hc hx hg
      · rcases Op.mayChange_abort h hm with hp | ⟨job, delayMs, rfl, hid⟩
        · rw [hsrc hop] at hp
          cases hp
        · refine hadd ⟨_, calling_call hop hc, ?_, by simp [Op.enqueues, hid]⟩
          rintro rfl
          cases second with
          | true => cases hc
          | false =>
              obtain rfl := Option.some.inj hc
              cases ho rfl
  | execute run | executed run now result =>
      obtain ⟨process, workerId, entry, data, job, id, hop, rfl⟩ := hnew
      have hp := hsrc hop
      simp only [Op.mayChange, ProcessPc.mayChange, Bool.and_true] at hp
      rw [Op.mayChange, hp, Bool.false_and] at hm
      cases hm
  | executeRejected run =>
      obtain ⟨process, workerId, entry, data, job, id, hop, rfl⟩ := hnew
      simp [Op.mayChange, ProcessPc.mayChange] at hm
  | settle run | crash run =>
      obtain rfl := hnew
      cases hm
  | stall entry | promote entry | evict entry | restart process => exact hnew

theorem quiet_of_writes {x : JobStatus} (hq : Quiet st k s) (hs : s.step cfg e = some s')
    (hw : Writes cfg s e k x) : Quiet st k s' := by
  obtain ⟨⟨op, c, outcome⟩, hcall, -, hx⟩ := hw
  obtain ⟨dto, rfl, -⟩ := setsStatus_eq_some hx
  obtain ⟨run, second, now, locked, rfl, hop, hc⟩ := calling_eq_some hcall
  have hno := Op.of_pending_update (k := k) hc
  refine quiet_step hq hs ?_ ?_
  · rintro ⟨q, hq, -, hadd⟩
    obtain rfl := Option.some.inj (hcall.symm.trans hq)
    rw [hno.1] at hadd
    cases hadd
  · intro run' second' now' locked' op' c' store reply he hop' hc' _
    cases he
    obtain rfl := Option.some.inj (hop.symm.trans hop')
    exact hno.2 reply

/-- **A frozen row**: it has the status `st`, and no operation has a change of it ahead. -/
structure Frozen (st : JobStatus) (k : JobId) (s : Sys) : Prop where
  row : ∃ r, s.store.jobs.find? k = some r ∧ r.status = st
  quiet : Quiet st k s

/-- **A step keeps a frozen row**, and does not execute it, unless it throws an `add` of the job,
reads the row in `processJob` although it is `COMPLETED`, or reads it in `retryJob`. -/
theorem frozen_step (h : Frozen st k s) (hs : s.step cfg e = some s')
    (hadd : ¬ Throws cfg s e (Op.enqueues k))
    (hread : st = .completed ∧ ¬ Answers cfg s e (Op.fetches k) ∨
      st = .cancelled ∧ ¬ Answers cfg s e (Op.retries k)) :
    Frozen st k s' ∧ s'.executions.count k = s.executions.count k := by
  obtain ⟨⟨r, hk, rfl⟩, hq⟩ := h
  refine ⟨⟨?_, ?_⟩, ?_⟩
  · obtain ⟨r', hk', hsame | hw | ⟨hp, -, -⟩⟩ := step_status hs hk
    · exact ⟨r', hk', hsame⟩
    · refine ⟨r', hk', not_not.mp fun hne => ?_⟩
      obtain ⟨⟨op, c, outcome⟩, hcall, -, hx⟩ := hw
      obtain ⟨run, second, now, locked, -, hop, hc⟩ := calling_eq_some hcall
      have hm := Op.mayChange_of_pending hc hx hne
      rw [hq op (List.mem_of_getElem? hop)] at hm
      cases hm
    · rw [hp] at hread
      rcases hread with ⟨h, -⟩ | ⟨h, -⟩ <;> cases h
  · refine quiet_step hq hs hadd ?_
    rintro run second now locked op c store reply rfl hop hc hx
    have hnot : ∀ p : Op → Bool, ¬ Answers cfg s (.call run second now .ok locked) p →
        p op = false := by
      intro p hp
      rw [← Bool.not_eq_true]
      exact fun hpo => hp ⟨_, calling_call hop hc, rfl, hpo⟩
    exact Op.not_gains hk (hread.imp (And.imp_right (hnot _)) (And.imp_right (hnot _))) hc hx
  · rcases step_executions hs with he | ⟨run, process, workerId, entry, data, job, id, -, hop, he⟩
    · rw [he]
    · have hp := hq _ (List.mem_of_getElem? hop)
      simp only [Op.mayChange, ProcessPc.mayChange, Bool.and_true, decide_eq_false_iff_not] at hp
      rw [he, List.count_append, List.count_singleton, if_neg (by simpa using hp), Nat.add_zero]

theorem frozen_run {g : Sys → Event → Prop} {es : List Event}
    (h : Run (step cfg) (stateGuard g) s es s') (hf : Frozen st k s)
    (hg : ∀ s e, Frozen st k s → g s e → ¬ Throws cfg s e (Op.enqueues k) ∧
      (st = .completed ∧ ¬ Answers cfg s e (Op.fetches k) ∨
        st = .cancelled ∧ ¬ Answers cfg s e (Op.retries k))) :
    (∃ r, s'.store.jobs.find? k = some r ∧ r.status = st) ∧
      s'.executions.count k = s.executions.count k := by
  have hall := h.stable (P := fun x => Frozen st k x ∧ x.executions.count k = s.executions.count k)
    ⟨hf, rfl⟩ fun _ x e x' ⟨hx, hn⟩ hgx hs => by
      obtain ⟨hadd, hread⟩ := hg x e hx hgx
      obtain ⟨hx', hn'⟩ := frozen_step hx hs hadd hread
      exact ⟨hx', hn'.trans hn⟩
  exact ⟨hall.1.row, hall.2⟩

/-! ## `COMPLETED` -/

/-- **The condition for `COMPLETED` rows**: the status is written while no other operation has a
change of the row ahead; `processJob` does not read a `COMPLETED` row, and no `add` of its job
throws. -/
def LeavesCompleted (cfg : Config) (s : Sys) (e : Event) : Prop :=
  (∀ r ∈ s.store.jobs.rows, Writes cfg s e r.id .completed → Quiet .completed r.id s) ∧
    ∀ r ∈ s.store.jobs.rows, r.status = .completed →
      ¬ Answers cfg s e (Op.fetches r.id) ∧ ¬ Throws cfg s e (Op.enqueues r.id)

instance (cfg : Config) (s : Sys) (e : Event) : Decidable (LeavesCompleted cfg s e) := by
  unfold LeavesCompleted; infer_instance

def CompletedFrozen (s : Sys) : Prop :=
  ∀ r ∈ s.store.jobs, r.status = .completed → Frozen .completed r.id s

theorem completedFrozen_step (h : CompletedFrozen s) (hg : LeavesCompleted cfg s e)
    (hs : s.step cfg e = some s') : CompletedFrozen s' := by
  intro r' hr' hst
  have hk' := Table.mem_iff_find?.mp hr'
  cases hk : s.store.jobs.find? r'.id with
  | none => rw [step_new_row hs hk hk'] at hst; cases hst
  | some r =>
      have hmem := Table.mem_of_find? hk
      have hid : r.id = r'.id := Table.key_of_find? hk
      by_cases hcomp : r.status = .completed
      · obtain ⟨hf, hadd⟩ := hg.2 r hmem hcomp
        rw [hid] at hf hadd
        exact (frozen_step (hid ▸ h r hmem hcomp) hs hadd (.inl ⟨rfl, hf⟩)).1
      · obtain ⟨r'', hk'', hcase⟩ := step_status hs hk
        obtain rfl := Option.some.inj (hk'.symm.trans hk'')
        rw [hst] at hcase
        rcases hcase with hsame | hw | ⟨-, hq, -⟩
        · exact absurd hsame.symm hcomp
        · have hquiet := hg.1 r hmem (hid ▸ hw)
          exact ⟨⟨r', hk', hst⟩, quiet_of_writes (hid ▸ hquiet) hs hw⟩
        · cases hq

/-- **`COMPLETED` is final**: along a run whose steps meet the condition, a row that is
`COMPLETED` stays so, and its job is not executed again. -/
theorem completed_is_final {es es' : List Event}
    (h : Run (step cfg) (stateGuard (LeavesCompleted cfg)) init es s) {r : Job}
    (hr : r ∈ s.store.jobs) (hst : r.status = .completed)
    (h' : Run (step cfg) (stateGuard (LeavesCompleted cfg)) s es' s') :
    (∃ r', s'.store.jobs.find? r.id = some r' ∧ r'.status = .completed) ∧
      s'.executions.count r.id = s.executions.count r.id := by
  have hfrozen : CompletedFrozen s := h.stable (P := CompletedFrozen)
    (fun r hr => absurd hr (Table.not_mem_empty r))
    fun _ _ _ _ hi hg hs => completedFrozen_step hi hg hs
  refine frozen_run h' (hfrozen r hr hst) fun x e hx hg => ?_
  obtain ⟨rx, hk, hsx⟩ := hx.row
  have := hg.2 rx (Table.mem_of_find? hk) hsx
  rw [show rx.id = r.id from Table.key_of_find? hk] at this
  exact ⟨this.2, .inl ⟨rfl, this.1⟩⟩

def succeeds : List Event :=
  pickedUp ++ executes 3 ++ [.executed 3 7 { success := true }, .call 3 false 8 .ok [],
    .call 3 true 8 .ok [], .call 3 false 9 .ok [], .settle 3]

/-- A cancel of `a` is refused. -/
def cancelAfter : List Event := [.start (.cancelJob "a" "org1"), .call 4 false 10 .ok []]

theorem succeeds_is_final : ∃ s s', runEvents (step {}) init succeeds = some s ∧
    runEvents (step {}) s cancelAfter = some s' ∧
      (∃ r, s'.store.jobs.find? "a" = some r ∧ r.status = .completed) ∧
      s'.executions.count "a" = 1 := by
  obtain ⟨s, hs, hp⟩ := exists_run_of_check (step {}) (stateGuard (LeavesCompleted {})) init
    succeeds
    (fun s => (∃ r ∈ s.store.jobs.rows, r.id = "a" ∧ r.status = .completed) ∧
      s.executions.count "a" = 1 ∧
      ((check (step {}) (fun pre s e => stateGuard (LeavesCompleted {}) pre s e) [] s
        cancelAfter).any fun _ => true) = true) (by decide)
  obtain ⟨⟨r, hr, hid, hst⟩, hn, hc⟩ := of_decide_eq_true hp
  obtain ⟨s', hs', -⟩ := exists_run_of_check _ _ _ _ _ hc
  obtain ⟨hrow, hcount⟩ := completed_is_final hs hr hst hs'
  rw [hid] at hrow hcount
  exact ⟨s, s', hs.runEvents_eq, hs'.runEvents_eq, hrow, hcount.trans hn⟩

/-- The execution succeeds and the row becomes `COMPLETED`, but the update of the execution log
throws: the processor rejects, and BullMQ delivers the entry again. -/
def logFails : List Event :=
  pickedUp ++ executes 3 ++ [.executed 3 7 { success := true }, .call 3 false 8 .ok [],
    .call 3 true 8 .fail [], .settle 3]

/-- The entry is delivered again, and run 4 executes the job. -/
def redelivered : List Event :=
  [.promote (.job "a"), .pickUp 1 "w" (.job "a")] ++ executes 4

/-- **A `COMPLETED` job is executed again.** -/
theorem log_failure_reruns : ∃ s s', Run (step {}) anyStep init logFails s ∧
    (∃ r ∈ s.store.jobs, r.id = "a" ∧ r.status = .completed) ∧
    Run (step {}) anyStep s redelivered s' ∧
    (∃ r ∈ s'.store.jobs, r.id = "a" ∧ r.status = .running) ∧
    s'.executions.count "a" = s.executions.count "a" + 1 := by
  obtain ⟨s, hs, hp⟩ := exists_run_of_check (step {}) anyStep init logFails
    (fun s => (∃ r ∈ s.store.jobs.rows, r.id = "a" ∧ r.status = .completed) ∧
      ((check (step {}) (fun pre s e => anyStep pre s e) [] s redelivered).any fun s' =>
        (∃ r ∈ s'.store.jobs.rows, r.id = "a" ∧ r.status = .running) ∧
          s'.executions.count "a" = s.executions.count "a" + 1) = true) (by decide)
  obtain ⟨hr, hc⟩ := of_decide_eq_true hp
  obtain ⟨s', hs', hp'⟩ := exists_run_of_check _ _ _ _ _ hc
  obtain ⟨hr', hn⟩ := of_decide_eq_true hp'
  exact ⟨s, s', hs, hr, hs', hr', hn⟩

/-! ## `CANCELLED` -/

/-- `cancelJob` returns successfully: its update of the row is answered with the row. -/
def CancelReturns (cfg : Config) (s : Sys) (e : Event) (k : JobId) : Prop :=
  Answers cfg s e (Op.cancels k) ∧ (s.store.jobs.find? k).isSome

instance (cfg : Config) (s : Sys) (e : Event) (k : JobId) :
    Decidable (CancelReturns cfg s e k) := by
  unfold CancelReturns; infer_instance

/-- The steps until a `retryJob` of `k` reads the row, and without an `add` of `k` that throws. -/
def LeavesCancelled (cfg : Config) (k : JobId) (s : Sys) (e : Event) : Prop :=
  ¬ Answers cfg s e (Op.retries k) ∧ ¬ Throws cfg s e (Op.enqueues k)

instance (cfg : Config) (k : JobId) (s : Sys) (e : Event) :
    Decidable (LeavesCancelled cfg k s e) := by
  unfold LeavesCancelled; infer_instance

theorem row_of_cancelReturns (hs : s.step cfg e = some s') (hc : CancelReturns cfg s e k) :
    Writes cfg s e k .cancelled ∧
      ∃ r, s'.store.jobs.find? k = some r ∧ r.status = .cancelled := by
  obtain ⟨⟨⟨op, c, outcome⟩, hcall, ho, hp⟩, hsome⟩ := hc
  dsimp only at ho hp
  subst ho
  obtain ⟨run, second, now, locked, rfl, hop, hpend⟩ := calling_eq_some hcall
  obtain ⟨t, rfl⟩ : ∃ t, op = .writeCancelled k t := by
    cases op with
    | writeCancelled id t => exact ⟨t, by rw [of_decide_eq_true hp]⟩
    | _ => cases hp
  cases second with
  | true => cases hpend
  | false =>
      obtain rfl := Option.some.inj hpend
      refine ⟨⟨_, hcall, nofun, by rw [setsStatus, if_pos rfl]; rfl⟩, ?_⟩
      obtain ⟨r, hr⟩ := Option.isSome_iff_exists.mp hsome
      refine ⟨toRow now (cancelDto t) r, ?_, rfl⟩
      obtain ⟨store, reply, -, hx, rfl⟩ | ⟨store, hx, -, -⟩ := step_call hs hop hpend
      · obtain ⟨rfl, -⟩ := Prod.mk.inj (Option.some.inj hx)
        change (update s.store.jobs k now (cancelDto t)).1.find? k = _
        rw [find?_update, if_pos rfl, hr]
        rfl
      · cases hx rfl

/-- **A cancellation is kept until a retry**: when `cancelJob` returns, in any state in which no
other operation has a change of the row ahead, the row stays `CANCELLED` and the job is not
executed again, until a `retryJob` reads the row or an `add` of the job throws. -/
theorem cancelled_until_retry {s₀ : Sys} {es : List Event} (hs : s₀.step cfg e = some s)
    (hret : CancelReturns cfg s₀ e k) (hq : Quiet .cancelled k s₀)
    (h : Run (step cfg) (stateGuard (LeavesCancelled cfg k)) s es s') :
    (∃ r, s'.store.jobs.find? k = some r ∧ r.status = .cancelled) ∧
      s'.executions.count k = s.executions.count k := by
  obtain ⟨hw, hrow⟩ := row_of_cancelReturns hs hret
  exact frozen_run h ⟨hrow, quiet_of_writes hq hs hw⟩ fun x e _ hg => ⟨hg.2, .inr ⟨rfl, hg.1⟩⟩

/-- `a` is picked up by run 3, and a cancel of `a` waits for its update as operation 4. -/
def cancelling : List Event :=
  pickedUp ++ [.start (.cancelJob "a" "org1"), .call 4 false 4 .ok []]

def cancelReturns : Event := .call 4 false 5 .ok []

def skips : List Event := [.call 3 false 6 .ok [], .settle 3]

theorem skipped_cancelled_until_retry :
    ∃ s s', runEvents (step {}) init (cancelling ++ [cancelReturns]) = some s ∧
      runEvents (step {}) s skips = some s' ∧
      (∃ r, s'.store.jobs.find? "a" = some r ∧ r.status = .cancelled) ∧
      s'.executions.count "a" = s.executions.count "a" := by
  obtain ⟨s₀, h₀, hp⟩ := exists_run_of_check (step {}) anyStep init cancelling
    (fun s => CancelReturns {} s cancelReturns "a" ∧ Quiet .cancelled "a" s ∧
      ((s.step {} cancelReturns).any fun s =>
        (check (step {}) (fun pre s e => stateGuard (LeavesCancelled {} "a") pre s e) [] s
          skips).any fun _ => true) = true) (by decide)
  obtain ⟨hret, hq, hc⟩ := of_decide_eq_true hp
  obtain ⟨s, hs, hc⟩ := (Option.any_eq_true _ _).mp hc
  obtain ⟨s', hs', -⟩ := exists_run_of_check _ _ _ _ _ hc
  refine ⟨s, s', ?_, hs'.runEvents_eq, cancelled_until_retry hs hret hq hs'⟩
  rw [runEvents_snoc, h₀.runEvents_eq, Option.bind_some, hs]

/-- The worker has read the row before the cancel of `a` reads and updates it. -/
def cancelledLate : List Event :=
  pickedUp ++ [.call 3 false 3 .ok [], .start (.cancelJob "a" "org1"), .call 4 false 4 .ok []]

def goesOn : List Event := [.call 3 false 6 .ok [], .call 3 false 7 .ok [], .execute 3]

/-- **A cancellation is overwritten**, and the cancelled job is executed. -/
theorem cancel_overwritten :
    ∃ s₀ s s', Run (step {}) anyStep init cancelledLate s₀ ∧ CancelReturns {} s₀ cancelReturns "a" ∧
      s₀.step {} cancelReturns = some s ∧
      Run (step {}) (stateGuard (LeavesCancelled {} "a")) s goesOn s' ∧
      (∃ r ∈ s'.store.jobs, r.id = "a" ∧ r.status = .running) ∧
      s'.executions.count "a" = s.executions.count "a" + 1 := by
  obtain ⟨s₀, h₀, hp⟩ := exists_run_of_check (step {}) anyStep init cancelledLate
    (fun s => CancelReturns {} s cancelReturns "a" ∧
      ((s.step {} cancelReturns).any fun s =>
        (check (step {}) (fun pre s e => stateGuard (LeavesCancelled {} "a") pre s e) [] s
          goesOn).any fun s' => (∃ r ∈ s'.store.jobs.rows, r.id = "a" ∧ r.status = .running) ∧
            s'.executions.count "a" = s.executions.count "a" + 1) = true) (by decide)
  obtain ⟨hret, hc⟩ := of_decide_eq_true hp
  obtain ⟨s, hs, hc⟩ := (Option.any_eq_true _ _).mp hc
  obtain ⟨s', hs', hp'⟩ := exists_run_of_check _ _ _ _ _ hc
  obtain ⟨hr, hn⟩ := of_decide_eq_true hp'
  exact ⟨s₀, s, s', h₀, hret, hs, hs', hr, hn⟩

end Sys

end TaskOrchestration

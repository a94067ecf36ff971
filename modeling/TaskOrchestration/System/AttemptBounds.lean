import TaskOrchestration.System.Payloads

set_option autoImplicit false

/-!
# Attempts within bounds

`retry_count` is written from a row that was read some calls earlier, and deliveries of one job can
overlap. It still never passes `max_retries`, which no operation changes, and a job is moved to the
dead letter queue with exactly the attempts it was allowed.

* `Allows`: the row of the job has that many retries;
* `ProcessPc.Bounded`, `Op.Bounded`: what the rows that were read still say when they are used;
  `bounded_resume`, `bounded_abort`, `retryCount_of_pending`;
* `Bounded`: the invariant; **`attempts_within_bounds`**.
-/

namespace TaskOrchestration

open LabelledRun JobRepository

/-- The row of the job `k` has `m` retries. -/
def Allows (t : JobTable) (k : JobId) (m : ℕ) : Prop :=
  ∃ r, t.find? k = some r ∧ r.maxRetries = m

theorem Allows.mono {t t' : JobTable} {k : JobId} {m : ℕ} (h : Allows t k m)
    (ht : Defines t t') : Allows t' k m := by
  obtain ⟨r, hr, hm⟩ := h
  obtain ⟨r', hr', hd⟩ := ht k r hr
  have hmax : r'.definition.maxRetries = r.definition.maxRetries := congrArg Job.maxRetries hd
  exact ⟨r', hr', hmax.trans hm⟩

/-- **The number of a delivery**: an entry of `scheduleReadyJobs` has the number of an attempt that
the job is allowed, a replayed one has the number after the last. -/
def Numbers (m : ℕ) (data : QueueJobPayload) : EntryId → Prop
  | .job _ => 1 ≤ data.attemptNumber ∧ data.attemptNumber ≤ m + 1
  | .auto _ => data.attemptNumber = m + 2

/-- The payload of the entry has a number that its job is allowed. -/
def NumberedFor (t : JobTable) (entry : EntryId) (data : QueueJobPayload) : Prop :=
  ∃ m, Allows t data.jobId m ∧ Numbers m data entry

theorem NumberedFor.mono {t t' : JobTable} {entry : EntryId} {data : QueueJobPayload}
    (h : NumberedFor t entry data) (ht : Defines t t') : NumberedFor t' entry data := by
  obtain ⟨m, ha, hn⟩ := h
  exact ⟨m, ha.mono ht, hn⟩

theorem NumberedFor.le {t : JobTable} {entry : EntryId} {data : QueueJobPayload}
    (h : NumberedFor t entry data) :
    ∃ m, Allows t data.jobId m ∧ 1 ≤ data.attemptNumber ∧ data.attemptNumber ≤ m + 2 := by
  obtain ⟨m, ha, hn⟩ := h
  refine ⟨m, ha, ?_⟩
  cases entry with
  | job id =>
      obtain ⟨h₁, h₂⟩ := hn
      omega
  | auto n =>
      have hn' : data.attemptNumber = m + 2 := hn
      omega

/-- **The entry of the dead letter queue** says as many attempts as the job was allowed. -/
def Exhausted (t : JobTable) (entry : DLQEntry) : Prop :=
  ∃ m, Allows t entry.originalJobId m ∧ entry.totalAttempts = m + 1

theorem Exhausted.mono {t t' : JobTable} {entry : DLQEntry} (h : Exhausted t entry)
    (ht : Defines t t') : Exhausted t' entry := by
  obtain ⟨m, ha, hn⟩ := h
  exact ⟨m, ha.mono ht, hn⟩

/-! ## The rows that were read -/

/-- **What the row says** that `handleFailure` has read. -/
def ProcessPc.Bounded (t : JobTable) (k : JobId) : ProcessPc → Prop
  | failLog job _ => Allows t k job.maxRetries ∧ job.retryCount ≤ job.maxRetries
  | failRetry job => Allows t k job.maxRetries ∧ job.retryCount + 1 ≤ job.maxRetries
  | failFinal job _ | failDlq job _ => Allows t k job.maxRetries ∧ job.retryCount = job.maxRetries
  | _ => True

namespace ProcessPc

variable {t t' : JobTable} {k : JobId} {pc : ProcessPc}

theorem Bounded.mono (h : pc.Bounded t k) (ht : Defines t t') : pc.Bounded t' k := by
  cases pc with
  | failLog | failRetry | failFinal | failDlq => exact ⟨h.1.mono ht, h.2⟩
  | _ => trivial

theorem bounded_afterResolver (status : JobStatus) (n : ℕ) :
    (afterResolver status n).Bounded t k := by
  cases n with
  | zero => unfold afterResolver; split_ifs <;> trivial
  | succ n => trivial

/-- **An answer.** The row that is read is within its bound, and the branch is taken on it. -/
theorem bounded_resume {st st' : Store} {g : DependencyResolver.Graph} {now : Time}
    {locked : List JobId} {workerId : String} {data : QueueJobPayload} {second : Bool} {c : Call}
    {reply : Reply} (hrows : ∀ r ∈ st.jobs, r.retryCount ≤ r.maxRetries)
    (h : pc.Bounded st.jobs data.jobId) (hc : pc.call workerId data second = some c)
    (hx : st.exec now locked c = some (st', reply)) :
    (pc.resume g now data second reply).1.Bounded st'.jobs data.jobId := by
  have h' : pc.Bounded st'.jobs data.jobId := h.mono (Store.exec_definition hx)
  cases pc with
  | failRead f =>
      cases second with
      | true => cases hc
      | false =>
          obtain rfl := Option.some.inj hc
          have hrow := Store.exec_findById hx
          obtain ⟨rfl, -⟩ := Prod.mk.inj (Option.some.inj hx)
          subst hrow
          cases hk : st.jobs.find? data.jobId with
          | none => trivial
          | some r => exact ⟨⟨r, hk, rfl⟩, hrows r (Table.mem_of_find? hk)⟩
  | failLog job f =>
      obtain ⟨ha, hle⟩ := h'
      dsimp only [resume]
      split_ifs with hlt
      · exact ⟨ha, hlt⟩
      · exact ⟨ha, by omega⟩
  | failFinal job f => exact h'
  | fetch =>
      rcases reply with ⟨_ | job⟩ | _ | _ | _ | _
      · trivial
      · dsimp only [resume]
        split_ifs <;> trivial
      all_goals trivial
  | createLog job startedAt => cases reply <;> trivial
  | success r id t rowWritten logWritten =>
      cases rowWritten <;> cases logWritten <;> cases second <;>
        first | trivial | exact bounded_afterResolver _ _
  | failDlq | notify => exact bounded_afterResolver _ _
  | _ => trivial

end ProcessPc

namespace Op

/-- **What an operation has read** is still within the bounds when it is used. -/
def Bounded (t : JobTable) : Op → Prop
  | processJob _ _ entry data pc => NumberedFor t entry data ∧ pc.Bounded t data.jobId
  | enqueue job _ => Allows t job.id job.maxRetries ∧ job.retryCount ≤ job.maxRetries
  | replayAdd entry => Exhausted t entry
  | orphan (.update _ dto) => dto.retryCount = none
  | _ => True

variable {cfg : Config} {t t' : JobTable} {op op' : Op} {second : Bool}

theorem Bounded.mono (h : op.Bounded t) (ht : Defines t t') : op.Bounded t' := by
  cases op with
  | processJob => exact ⟨h.1.mono ht, ProcessPc.Bounded.mono h.2 ht⟩
  | enqueue => exact ⟨h.1.mono ht, h.2⟩
  | replayAdd => exact Exhausted.mono h ht
  | orphan c =>
      cases c with
      | update => exact h
      | _ => trivial
  | _ => trivial

theorem bounded_of_request (h : op.IsRequest) : op.Bounded t := by
  cases op <;> trivial

theorem bounded_resume {st st' : Store} {g : DependencyResolver.Graph} {now : Time}
    {locked : List JobId} {c : Call} {reply : Reply}
    (hrows : ∀ r ∈ st.jobs, r.retryCount ≤ r.maxRetries)
    (hdlq : ∀ d ∈ st.dlq, Exhausted st.jobs d)
    (h : op.Bounded st.jobs) (hc : op.pending cfg second = some c)
    (hx : st.exec now locked c = some (st', reply))
    (hop' : op' = (op.resume g now second reply).1 ∨ op' ∈ (op.resume g now second reply).2.1) :
    op'.Bounded st'.jobs := by
  have hd := Store.exec_definition hx
  cases leads_of_resume hop' with
  | processJob => exact ⟨h.1.mono hd, ProcessPc.bounded_resume hrows h.2 hc hx⟩
  | @enqueue rows job delayMs hr hjob =>
      subst hr
      cases second with
      | true => cases hc
      | false =>
          obtain rfl := Option.some.inj hc
          obtain ⟨rfl, hrep⟩ := Prod.mk.inj (Option.some.inj hx)
          obtain rfl := Reply.jobs.inj hrep
          obtain ⟨r₀, hr₀, -, rfl⟩ := mem_claimPendingJobs hjob
          exact ⟨⟨_, find?_of_mem_claim hjob, rfl⟩, hrows r₀ hr₀⟩
  | @replayJob id entry hr =>
      subst hr
      cases second with
      | true => cases hc
      | false =>
          obtain rfl := Option.some.inj hc
          obtain ⟨-, hrep⟩ := Prod.mk.inj (Option.some.inj hx)
          exact (hdlq entry (Table.mem_of_find? (Reply.entry.inj hrep))).mono hd
  | _ => trivial

/-- **After an error.** The update that is left behind writes no `retry_count`. -/
theorem bounded_abort (h : op.Bounded t)
    (hop' : op' = (op.abort second).1 ∨ op' ∈ (op.abort second).2) : op'.Bounded t := by
  cases leaves_of_abort hop' with
  | processJob => exact ⟨h.1, trivial⟩
  | @orphan _ workerId _ data pc c hc =>
      unfold ProcessPc.other at hc
      split at hc
      case h_1 result id completedAt rowWritten logWritten =>
        cases second <;> cases rowWritten <;> cases logWritten <;>
          simp only [ProcessPc.call, Bool.not_true, Bool.not_false, reduceCtorEq,
            Option.some.injEq] at hc
        all_goals subst hc
        all_goals first
          | exact (rfl : (none : Option ℕ) = none)
          | trivial
      case h_2 => cases hc
  | _ => trivial

/-- **What is written to `retry_count`** is within the bound of the row. -/
theorem retryCount_of_pending {k : JobId} {dto : UpdateJobDto} (h : op.Bounded t)
    (hc : op.pending cfg second = some (.update k dto)) :
    ∀ n ∈ dto.retryCount, ∃ m, Allows t k m ∧ n ≤ m := by
  intro n hn
  unfold pending at hc
  split at hc
  case h_1 process workerId entry data pc =>
    unfold ProcessPc.call at hc
    split at hc <;> simp only [Option.some.injEq, Call.update.injEq, reduceCtorEq] at hc
    case h_8 job =>
      obtain ⟨rfl, rfl⟩ := hc
      obtain rfl := Option.some.inj hn
      exact ⟨_, h.2.1, h.2.2⟩
    all_goals
      obtain ⟨-, rfl⟩ := hc
      cases hn
  all_goals simp only [Option.some.injEq, Call.update.injEq, reduceCtorEq] at hc
  case h_6 job jobs now =>
    obtain ⟨-, rfl⟩ := hc
    unfold recoverDto at hn
    split_ifs at hn <;> cases hn
  case h_15 =>
    subst hc
    rw [show dto.retryCount = none from h] at hn
    cases hn
  all_goals
    obtain ⟨-, rfl⟩ := hc
    cases hn

/-- **What is added to the queue** has a number that the job is allowed. -/
theorem numberedFor_of_add {q : Queue} {jobId : Option JobId} {data : QueueJobPayload}
    {priority delayMs : ℕ} (h : op.Bounded t) (ht : op.tidy = true)
    (hc : op.pending cfg second = some (.add jobId data priority delayMs)) :
    NumberedFor t (q.addedId jobId) data := by
  rcases of_pending_add hc ht with ⟨job, rfl, rfl, rfl⟩ | ⟨entry, rfl, rfl, rfl⟩
  · exact ⟨_, h.1, Nat.le_add_left 1 _, Nat.succ_le_succ h.2⟩
  · obtain ⟨m, ha, hn⟩ := h
    exact ⟨m, ha, congrArg (· + 1) hn⟩

/-- **What goes into the dead letter queue** has had all its attempts. -/
theorem exhausted_of_addDlq {entry : DLQEntry} (h : op.Bounded t) (ht : op.tidy = true)
    (hc : op.pending cfg second = some (.addDlq entry)) : Exhausted t entry := by
  unfold pending at hc
  split at hc
  case h_1 process workerId entryId data pc =>
    unfold ProcessPc.call at hc
    split at hc
    case h_10 job f =>
      obtain rfl := Call.addDlq.inj (Option.some.inj hc)
      obtain ⟨-, ha, heq⟩ := h
      exact ⟨job.maxRetries, ha, congrArg (· + 1) heq⟩
    all_goals cases hc
  case h_15 =>
    obtain rfl := Option.some.inj hc
    cases ht
  all_goals cases hc

/-- **What goes into the history** has a number that the job is allowed. -/
theorem number_of_createLog {dto : CreateExecutionLogDto} (h : op.Bounded t)
    (ht : op.tidy = true) (hc : op.pending cfg second = some (.createLog dto)) :
    ∃ m, Allows t dto.jobId m ∧ 1 ≤ dto.attemptNumber ∧ dto.attemptNumber ≤ m + 2 := by
  unfold pending at hc
  split at hc
  case h_1 process workerId entryId data pc =>
    unfold ProcessPc.call at hc
    split at hc
    case h_2 =>
      obtain rfl := Call.createLog.inj (Option.some.inj hc)
      exact h.1.le
    all_goals cases hc
  case h_15 =>
    obtain rfl := Option.some.inj hc
    cases ht
  all_goals cases hc

end Op

/-! ## The invariant -/

namespace Sys

variable {cfg : Config} {s s' : Sys} {e : Event} {es : List Event}

/-- **The attempts are within bounds**, in the rows, in both queues, in the history, and in the
operations under way. -/
structure Bounded (s : Sys) : Prop where
  rows : ∀ r ∈ s.store.jobs, r.retryCount ≤ r.maxRetries
  entries : ∀ k en, s.store.queue.entries.find? k = some en → NumberedFor s.store.jobs k en.data
  dlq : ∀ d ∈ s.store.dlq, Exhausted s.store.jobs d
  logs : ∀ l ∈ s.store.logs,
    ∃ m, Allows s.store.jobs l.jobId m ∧ 1 ≤ l.attemptNumber ∧ l.attemptNumber ≤ m + 2
  ops : ∀ op ∈ s.ops, op.Bounded s.store.jobs

theorem bounded_init : Bounded init where
  rows := fun r hr => absurd hr (Table.not_mem_empty r)
  entries := nofun
  dlq := fun d hd => absurd hd (Table.not_mem_empty d)
  logs := fun _ hl => absurd hl List.not_mem_nil
  ops := fun _ hop => absurd hop List.not_mem_nil

theorem rows_bounded_step (h : Bounded s) (hs : s.step cfg e = some s') :
    ∀ r ∈ s'.store.jobs, r.retryCount ≤ r.maxRetries := by
  intro r' hr'
  rcases step_tables hs with ⟨hj, -, -⟩ | ⟨op, hop, second, now, locked, c, reply, hc, hx⟩
  · exact h.rows r' (hj ▸ hr')
  · have hk := Table.mem_iff_find?.mp hr'
    generalize r'.id = k at hk
    rcases Store.exec_row hx hk with ⟨-, dto, -, rfl⟩ | ⟨r, hr, hcase⟩
    · exact Nat.zero_le _
    · have hle := h.rows r (Table.mem_of_find? hr)
      rcases hcase with rfl | ⟨dto, rfl, rfl⟩ | ⟨-, rfl, -⟩ | rfl
      · exact hle
      · change dto.retryCount.getD r.retryCount ≤ r.maxRetries
        cases hn : dto.retryCount with
        | none => exact hle
        | some n =>
            obtain ⟨m, ⟨r₁, hr₁, rfl⟩, hnm⟩ := Op.retryCount_of_pending (h.ops op hop) hc n hn
            obtain rfl := Option.some.inj (hr.symm.trans hr₁)
            exact hnm
      · exact hle
      · exact hle

theorem ops_bounded_step (h : Bounded s) (hs : s.step cfg e = some s') :
    ∀ op ∈ s'.ops, op.Bounded s'.store.jobs := by
  intro op' hop'
  have hd := defines_step hs
  have hold : op' ∈ s.ops → op'.Bounded s'.store.jobs := fun hmem => (h.ops op' hmem).mono hd
  have hmoved : ∀ {run process : ℕ} {workerId entry data pc pc'},
      s.ops[run]? = some (.processJob process workerId entry data pc) →
      pc'.Bounded s'.store.jobs data.jobId →
      (Op.processJob process workerId entry data pc').Bounded s'.store.jobs :=
    fun hop hpc => ⟨((h.ops _ (List.mem_of_getElem? hop)).mono hd).1, hpc⟩
  cases stepTo_of_step hs with
  | @start op hr =>
      rcases mem_snoc hop' with hmem | rfl
      · exact hold hmem
      · exact Op.bounded_of_request hr
  | @pickUp process workerId entry q en hpick =>
      rcases mem_snoc hop' with hmem | rfl
      · exact hold hmem
      · exact ⟨h.entries entry en (Queue.pick_eq_some hpick).1, trivial⟩
  | answered hop hc hx =>
      rcases mem_moveTo hop' with hmem | hnew
      · exact hold hmem
      · exact Op.bounded_resume h.rows h.dlq (h.ops _ (List.mem_of_getElem? hop)) hc hx hnew
  | errored hop =>
      rcases mem_moveTo hop' with hmem | hnew
      · exact hold hmem
      · exact Op.bounded_abort ((h.ops _ (List.mem_of_getElem? hop)).mono hd) hnew
  | execute hop =>
      rcases mem_moveTo hop' with hmem | rfl | hmem
      · exact hold hmem
      · exact hmoved hop trivial
      · exact absurd hmem List.not_mem_nil
  | @executed run process now result workerId entry data job id hop =>
      rcases mem_moveTo hop' with hmem | rfl | hmem
      · exact hold hmem
      · refine hmoved hop ?_
        unfold afterExecution
        split_ifs <;> trivial
      · exact absurd hmem List.not_mem_nil
  | executeRejected hop =>
      rcases mem_moveTo hop' with hmem | rfl | hmem
      · exact hold hmem
      · exact hmoved hop trivial
      · exact absurd hmem List.not_mem_nil
  | settle | crash =>
      rcases mem_moveTo hop' with hmem | rfl | hmem
      · exact hold hmem
      · trivial
      · exact absurd hmem List.not_mem_nil
  | stall | promote | evict | restart => exact hold hop'

theorem bounded_step (h : Bounded s) (ht : Tidy s) (hs : s.step cfg e = some s') :
    Bounded s' := by
  have hd := defines_step hs
  refine ⟨rows_bounded_step h hs, fun k en' hen' => ?_, fun d hmem => ?_, fun l' hl' => ?_,
    ops_bounded_step h hs⟩
  case refine_1 =>
    rcases entry_step hs hen' with ⟨en, hen, hdata⟩ |
      ⟨op, hop, second, jobId, data, priority, delayMs, hc, rfl, rfl⟩
    · rw [hdata]
      exact (h.entries k en hen).mono hd
    · exact Op.numberedFor_of_add ((h.ops op hop).mono hd) (ht op hop) hc
  case refine_2 =>
    rcases step_tables hs with ⟨-, -, hdlq⟩ | ⟨op, hop, second, now, locked, c, reply, hc, hx⟩
    · exact (h.dlq d (hdlq ▸ hmem)).mono hd
    · rcases Store.dlq_exec hx hmem with hold | rfl
      · exact (h.dlq d hold).mono hd
      · exact (Op.exhausted_of_addDlq (h.ops op hop) (ht op hop) hc).mono hd
  case refine_3 =>
    have hkeep : ∀ {l : ExecutionLog}, (∃ m, Allows s.store.jobs l.jobId m ∧
        1 ≤ l.attemptNumber ∧ l.attemptNumber ≤ m + 2) → ∃ m, Allows s'.store.jobs l.jobId m ∧
        1 ≤ l.attemptNumber ∧ l.attemptNumber ≤ m + 2 := by
      rintro l ⟨m, ha, hn⟩
      exact ⟨m, ha.mono hd, hn⟩
    rcases step_tables hs with ⟨-, hlogs, -⟩ | ⟨op, hop, second, now, locked, c, reply, hc, hx⟩
    · exact hkeep (h.logs l' (hlogs ▸ hl'))
    · rcases Store.log_exec hx hl' with ⟨l, hl, hid, hnum⟩ | ⟨dto, rfl, hid, hnum⟩
      · have hold := hkeep (h.logs l hl)
        rwa [← hid, ← hnum] at hold
      · obtain ⟨m, ha, hn⟩ := Op.number_of_createLog (h.ops op hop) (ht op hop) hc
        exact ⟨m, hid ▸ ha.mono hd, hnum ▸ hn⟩

end Sys

end TaskOrchestration

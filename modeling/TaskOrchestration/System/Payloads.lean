import TaskOrchestration.System.Consistent
import TaskOrchestration.System.Creations
import TaskOrchestration.System.Drain
import TaskOrchestration.System.Exclusive

set_option autoImplicit false

/-!
# What is executed is what was submitted

A row is updated by many operations, but the columns that say what the job is are written once.
The type, the payload and the organization of a job travel from its row into the queue, from there
into runs, and from a run into the dead letter queue and back. They arrive as they were submitted.

* `Job.definition`: the row without the columns that an update can set; `Job.origin`;
* `Defines`, **`Store.exec_definition`**: no call changes the definition of a row;
* `Op.Carries`: what an operation holds of a job agrees with its row; `carries_resume`;
* `Sourced`: the invariant; **`payloads_as_submitted`**.
-/

namespace TaskOrchestration

open LabelledRun JobRepository

/-- **What the job is**: the row, as it was when it was inserted. -/
def Job.definition (r : Job) : Job :=
  { r with
    status := .pending, workerId := none, startedAt := none, completedAt := none
    retryCount := 0, resolvedDependencyCount := 0, result := none, errorMessage := none
    errorStack := none, exitCode := none, updatedAt := r.createdAt }

/-- What the queues carry of a job. -/
def Job.origin (r : Job) : Origin := ⟨r.id, r.type, r.payload, r.organizationId⟩

@[simp] theorem Job.definition_newRow (id : JobId) (now : Time) (dto : CreateJobDto) :
    (newRow id now dto).definition = newRow id now dto := rfl

theorem Job.origin_of_definition {r r' : Job} (h : r.definition = r'.definition) :
    r.origin = r'.origin := by
  have horigin : r.definition.origin = r'.definition.origin := congrArg Job.origin h
  exact horigin

theorem Job.id_of_definition {r r' : Job} (h : r.definition = r'.definition) : r.id = r'.id :=
  congrArg Origin.jobId (Job.origin_of_definition h)

/-- Every row of the first table is in the second one, with its definition. -/
def Defines (t t' : JobTable) : Prop :=
  ∀ k r, t.find? k = some r → ∃ r', t'.find? k = some r' ∧ r'.definition = r.definition

theorem Defines.refl (t : JobTable) : Defines t t := fun _ r hr => ⟨r, hr, rfl⟩

/-- **No call changes what a job is.** -/
theorem Store.exec_definition {st st' : Store} {now : Time} {locked : List JobId} {c : Call}
    {reply : Reply} (h : st.exec now locked c = some (st', reply)) : Defines st.jobs st'.jobs := by
  intro k r hk
  obtain ⟨r', hk'⟩ := Store.exec_isSome h hk
  refine ⟨r', hk', ?_⟩
  rcases Store.exec_row h hk' with ⟨hnone, -⟩ | ⟨r₀, hr₀, hcase⟩
  · rw [hnone] at hk
    cases hk
  · obtain rfl := Option.some.inj (hr₀.symm.trans hk)
    rcases hcase with rfl | ⟨dto, -, rfl⟩ | ⟨-, rfl, -⟩ | rfl <;> rfl

/-- The table has a row with this origin. -/
def Known (t : JobTable) (o : Origin) : Prop := ∃ r, t.find? o.jobId = some r ∧ r.origin = o

theorem Known.mono {t t' : JobTable} {o : Origin} (h : Known t o) (ht : Defines t t') :
    Known t' o := by
  obtain ⟨r, hr, ho⟩ := h
  obtain ⟨r', hr', hd⟩ := ht _ r hr
  exact ⟨r', hr', (Job.origin_of_definition hd).trans ho⟩

theorem known_of_find? {t : JobTable} {k : JobId} {r : Job} (h : t.find? k = some r) :
    Known t r.origin := by
  refine ⟨r, ?_, rfl⟩
  have hk : r.id = k := Table.key_of_find? h
  rw [show r.origin.jobId = k from hk, h]

/-! ## What the operations carry -/

/-- The row that a run has read. -/
def ProcessPc.snapshot : ProcessPc → Option Job
  | createLog job _ | setRunning job _ _ | execute job _ | executing job _ => some job
  | failLog job _ | failRetry job | failFinal job _ | failDlq job _ => some job
  | _ => none

/-- **An answer** leaves a run with the row that it has, or with the row that it has read. -/
theorem ProcessPc.snapshot_resume {g : DependencyResolver.Graph} {now : Time}
    {data : QueueJobPayload} {pc : ProcessPc} {second : Bool} {reply : Reply} {job : Job}
    (h : (pc.resume g now data second reply).1.snapshot = some job) :
    pc.snapshot = some job ∨
      ((pc = .fetch ∨ ∃ f, pc = .failRead f) ∧ reply = .job (some job)) := by
  have hafter : ∀ status n, (afterResolver status n).snapshot = none := by
    intro status n
    cases n with
    | zero => unfold afterResolver; split_ifs <;> rfl
    | succ n => rfl
  unfold resume at h
  split at h
  case h_1 row =>
    dsimp only at h
    split_ifs at h
    · cases h
    · obtain rfl := Option.some.inj h
      exact .inr ⟨.inl rfl, rfl⟩
  case h_8 f row =>
    obtain rfl := Option.some.inj h
    exact .inr ⟨.inr ⟨f, rfl⟩, rfl⟩
  case h_10 =>
    dsimp only at h
    split_ifs at h <;> exact .inl h
  all_goals first
    | exact .inl h
    | exact absurd ((hafter _ _).symm.trans h) (Option.some_ne_none job).symm
    | cases h

/-- **What an operation holds of a job** agrees with its row. -/
def Op.Carries (t : JobTable) : Op → Prop
  | processJob _ _ _ data pc => Known t data.origin ∧ ∀ job ∈ pc.snapshot,
      ∃ r, t.find? data.jobId = some r ∧ job.definition = r.definition
  | enqueue job _ => Known t job.origin
  | replayAdd entry => Known t entry.origin
  | _ => True

namespace Op

variable {cfg : Config} {t t' : JobTable} {op op' : Op} {second : Bool}

theorem Carries.mono (h : op.Carries t) (ht : Defines t t') : op.Carries t' := by
  cases op with
  | processJob process workerId entry data pc =>
      refine ⟨h.1.mono ht, fun job hjob => ?_⟩
      obtain ⟨r, hr, hd⟩ := h.2 job hjob
      obtain ⟨r', hr', hd'⟩ := ht _ r hr
      exact ⟨r', hr', hd.trans hd'.symm⟩
  | enqueue job delayMs => exact Known.mono h ht
  | replayAdd entry => exact Known.mono h ht
  | _ => trivial

theorem carries_of_request (h : op.IsRequest) : op.Carries t := by
  cases op <;> trivial

/-- **An answer** hands on what agrees with the rows. -/
theorem carries_resume {st st' : Store} {g : DependencyResolver.Graph} {now : Time}
    {locked : List JobId} {c : Call} {reply : Reply} (h : op.Carries st.jobs)
    (hdlq : ∀ d ∈ st.dlq, Known st.jobs d.origin) (hc : op.pending cfg second = some c)
    (hx : st.exec now locked c = some (st', reply))
    (hop' : op' = (op.resume g now second reply).1 ∨ op' ∈ (op.resume g now second reply).2.1) :
    op'.Carries st'.jobs := by
  have hd := Store.exec_definition hx
  cases leads_of_resume hop' with
  | @processJob process workerId entry data pc =>
      refine ⟨(h.mono hd).1, fun job hjob => ?_⟩
      rcases ProcessPc.snapshot_resume hjob with hold | ⟨hread, rfl⟩
      · exact (h.mono hd).2 job hold
      · have hfind : c = .findById data.jobId := by
          rcases hread with rfl | ⟨f, rfl⟩ <;> cases second <;>
            first | exact (Option.some.inj hc).symm | cases hc
        subst hfind
        have hrow := Reply.job.inj (Store.exec_findById hx)
        obtain ⟨r', hr', hd'⟩ := hd _ job hrow.symm
        exact ⟨r', hr', hd'.symm⟩
  | @enqueue rows job delayMs hr hjob =>
      subst hr
      cases second with
      | true => cases hc
      | false =>
          obtain rfl := Option.some.inj hc
          obtain ⟨rfl, hrep⟩ := Prod.mk.inj (Option.some.inj hx)
          obtain rfl := Reply.jobs.inj hrep
          exact known_of_find? (find?_of_mem_claim hjob)
  | @replayJob id entry hr =>
      subst hr
      cases second with
      | true => cases hc
      | false =>
          obtain rfl := Option.some.inj hc
          obtain ⟨-, hrep⟩ := Prod.mk.inj (Option.some.inj hx)
          exact (hdlq entry (Table.mem_of_find? (Reply.entry.inj hrep))).mono hd
  | _ => trivial

theorem carries_abort (h : op.Carries t)
    (hop' : op' = (op.abort second).1 ∨ op' ∈ (op.abort second).2) : op'.Carries t := by
  cases leaves_of_abort hop' with
  | processJob =>
      refine ⟨h.1, fun job hjob => ?_⟩
      cases hjob
  | _ => trivial

/-- **What goes into the dead letter queue** has the origin of its job. -/
theorem known_of_addDlq {entry : DLQEntry} (h : op.Carries t) (ht : op.tidy = true)
    (hc : op.pending cfg second = some (.addDlq entry)) : Known t entry.origin := by
  unfold pending at hc
  split at hc
  case h_1 process workerId entryId data pc =>
    unfold ProcessPc.call at hc
    split at hc
    case h_10 job f =>
      obtain rfl := Call.addDlq.inj (Option.some.inj hc)
      obtain ⟨r, hr, hd⟩ := h.2 job rfl
      have ho : job.origin = r.origin := Job.origin_of_definition hd
      refine ⟨r, hr, ?_⟩
      rw [← ho]
      have hid : job.id = data.jobId := (Job.id_of_definition hd).trans (Table.key_of_find? hr)
      simp only [Job.origin, DLQEntry.origin, hid]
    all_goals cases hc
  case h_15 =>
    obtain rfl := Option.some.inj hc
    cases ht
  all_goals cases hc

/-- **What goes into the history** is about a job with a row. -/
theorem known_of_createLog {dto : CreateExecutionLogDto} (h : op.Carries t)
    (ht : op.tidy = true) (hc : op.pending cfg second = some (.createLog dto)) :
    ∃ r, t.find? dto.jobId = some r := by
  unfold pending at hc
  split at hc
  case h_1 process workerId entryId data pc =>
    unfold ProcessPc.call at hc
    split at hc
    case h_2 =>
      obtain rfl := Call.createLog.inj (Option.some.inj hc)
      obtain ⟨r, hr, -⟩ := h.1
      exact ⟨r, hr⟩
    all_goals cases hc
  case h_15 =>
    obtain rfl := Option.some.inj hc
    cases ht
  all_goals cases hc

end Op

namespace Store

variable {st st' : Store} {now : Time} {locked : List JobId} {c : Call} {reply : Reply}

theorem dlq_exec (hx : st.exec now locked c = some (st', reply)) {d : DLQEntry}
    (h : d ∈ st'.dlq) : d ∈ st.dlq ∨ c = .addDlq d := by
  cases c with
  | create id dto =>
      obtain ⟨p, -, he⟩ := Option.map_eq_some_iff.mp hx
      obtain ⟨rfl, -⟩ := Prod.mk.inj he
      exact .inl h
  | addDlq entry =>
      obtain ⟨rfl, -⟩ := Prod.mk.inj (Option.some.inj hx)
      have hd := Table.mem_iff_find?.mp h
      rw [Table.find?_insertIfAbsent] at hd
      split_ifs at hd
      · cases hfind : st.dlq.find? d.originalJobId with
        | none =>
            rw [hfind] at hd
            exact .inr (congrArg Call.addDlq (Option.some.inj hd))
        | some d' =>
            rw [hfind] at hd
            obtain rfl := Option.some.inj hd
            exact .inl (Table.mem_of_find? hfind)
      · exact .inl (Table.mem_of_find? hd)
  | removeDlq id =>
      obtain ⟨rfl, -⟩ := Prod.mk.inj (Option.some.inj hx)
      exact .inl (Table.mem_filter.mp h).1
  | _ =>
      obtain ⟨rfl, -⟩ := Prod.mk.inj (Option.some.inj hx)
      exact .inl h

theorem log_exec (hx : st.exec now locked c = some (st', reply)) {l' : ExecutionLog}
    (h : l' ∈ st'.logs) :
    (∃ l ∈ st.logs, l'.jobId = l.jobId ∧ l'.attemptNumber = l.attemptNumber) ∨
      ∃ dto, c = .createLog dto ∧ l'.jobId = dto.jobId ∧ l'.attemptNumber = dto.attemptNumber := by
  cases c with
  | createLog dto =>
      obtain ⟨rfl, -⟩ := Prod.mk.inj (Option.some.inj hx)
      rcases List.mem_append.mp h with h | h
      · exact .inl ⟨l', h, rfl, rfl⟩
      · obtain rfl := List.mem_singleton.mp h
        exact .inr ⟨dto, rfl, rfl, rfl⟩
  | completeLog dto =>
      obtain ⟨rfl, -⟩ := Prod.mk.inj (Option.some.inj hx)
      obtain ⟨l, hl, rfl⟩ := List.mem_map.mp h
      refine .inl ⟨l, hl, (completedIn_jobId dto l).1, ?_⟩
      split_ifs <;> rfl
  | _ =>
      rw [logs_exec hx (fun _ he => Call.noConfusion he) fun _ he => Call.noConfusion he] at h
      exact .inl ⟨l', h, rfl, rfl⟩

end Store

/-! ## The invariant -/

namespace Sys

variable {cfg : Config} {s s' : Sys} {e : Event} {es : List Event}

def Submitted (es : List Event) (id : JobId) (dto : CreateJobDto) : Prop :=
  ∃ process, Event.start (.submitJob process id dto) ∈ es

theorem Submitted.snoc {id : JobId} {dto : CreateJobDto} (h : Submitted es id dto) (e : Event) :
    Submitted (es ++ [e]) id dto := by
  obtain ⟨process, hmem⟩ := h
  exact ⟨process, List.mem_append_left _ hmem⟩

/-- **Everything comes from a submission**: a row is what was submitted under its id, and what the
queues, the runs and the history hold of a job is what its row holds. -/
structure Sourced (es : List Event) (s : Sys) : Prop where
  rows : ∀ r ∈ s.store.jobs, ∃ now dto, Submitted es r.id dto ∧ r.definition = newRow r.id now dto
  entries : ∀ k en, s.store.queue.entries.find? k = some en → Known s.store.jobs en.data.origin
  dlq : ∀ d ∈ s.store.dlq, Known s.store.jobs d.origin
  logs : ∀ l ∈ s.store.logs, ∃ r, s.store.jobs.find? l.jobId = some r
  ops : ∀ op ∈ s.ops, op.Carries s.store.jobs

/-- The submissions under way were submitted. -/
def Submitting (es : List Event) (s : Sys) : Prop :=
  ∀ process id dto, .submitJob process id dto ∈ s.ops → Submitted es id dto

/-- **The tables after a step**: the same, or those after the call of an operation. -/
theorem step_tables (hs : s.step cfg e = some s') :
    (s'.store.jobs = s.store.jobs ∧ s'.store.logs = s.store.logs ∧ s'.store.dlq = s.store.dlq) ∨
      ∃ op ∈ s.ops, ∃ second now locked c reply, op.pending cfg second = some c ∧
        s.store.exec now locked c = some (s'.store, reply) := by
  cases stepTo_of_step hs with
  | answered hop hc hx => exact .inr ⟨_, List.mem_of_getElem? hop, _, _, _, _, _, hc, hx⟩
  | errored hop hc _ hst =>
      rcases hst with ⟨rfl, -⟩ | ⟨-, reply, hx⟩
      · exact .inl ⟨rfl, rfl, rfl⟩
      · exact .inr ⟨_, List.mem_of_getElem? hop, _, _, _, _, _, hc, hx⟩
  | _ => exact .inl ⟨rfl, rfl, rfl⟩

theorem defines_step (hs : s.step cfg e = some s') : Defines s.store.jobs s'.store.jobs := by
  rcases step_tables hs with ⟨hj, -, -⟩ | ⟨op, hop, second, now, locked, c, reply, hc, hx⟩
  · rw [hj]
    exact .refl _
  · exact Store.exec_definition hx

/-- **The operations after a step** agree with the rows. -/
theorem carries_step (h : Sourced es s) (hs : s.step cfg e = some s') :
    ∀ op ∈ s'.ops, op.Carries s'.store.jobs := by
  intro op' hop'
  have hd := defines_step hs
  have hold : op' ∈ s.ops → op'.Carries s'.store.jobs := fun hmem => (h.ops op' hmem).mono hd
  have hmoved : ∀ {run process : ℕ} {workerId entry data pc pc'},
      s.ops[run]? = some (.processJob process workerId entry data pc) →
      (∀ job ∈ pc'.snapshot, job ∈ pc.snapshot) →
      (Op.processJob process workerId entry data pc').Carries s'.store.jobs := by
    intro run process workerId entry data pc pc' hop hsnap
    have hc := (h.ops _ (List.mem_of_getElem? hop)).mono hd
    exact ⟨hc.1, fun job hjob => hc.2 job (hsnap job hjob)⟩
  cases stepTo_of_step hs with
  | @start op hr =>
      rcases mem_snoc hop' with hmem | rfl
      · exact hold hmem
      · exact Op.carries_of_request hr
  | @pickUp process workerId entry q en hpick =>
      rcases mem_snoc hop' with hmem | rfl
      · exact hold hmem
      · obtain ⟨hen, -⟩ := Queue.pick_eq_some hpick
        refine ⟨h.entries entry en hen, fun job hjob => ?_⟩
        cases hjob
  | answered hop hc hx =>
      rcases mem_moveTo hop' with hmem | hnew
      · exact hold hmem
      · exact Op.carries_resume (h.ops _ (List.mem_of_getElem? hop)) h.dlq hc hx hnew
  | errored hop =>
      rcases mem_moveTo hop' with hmem | hnew
      · exact hold hmem
      · exact Op.carries_abort ((h.ops _ (List.mem_of_getElem? hop)).mono hd) hnew
  | execute hop =>
      rcases mem_moveTo hop' with hmem | rfl | hmem
      · exact hold hmem
      · exact hmoved hop fun _ hjob => hjob
      · exact absurd hmem List.not_mem_nil
  | @executed run process now result workerId entry data job id hop =>
      rcases mem_moveTo hop' with hmem | rfl | hmem
      · exact hold hmem
      · refine hmoved hop fun job hjob => ?_
        unfold afterExecution at hjob
        split_ifs at hjob <;> cases hjob
      · exact absurd hmem List.not_mem_nil
  | executeRejected hop =>
      rcases mem_moveTo hop' with hmem | rfl | hmem
      · exact hold hmem
      · refine hmoved hop fun job hjob => ?_
        cases hjob
      · exact absurd hmem List.not_mem_nil
  | settle | crash =>
      rcases mem_moveTo hop' with hmem | rfl | hmem
      · exact hold hmem
      · trivial
      · exact absurd hmem List.not_mem_nil
  | stall | promote | evict | restart => exact hold hop'

theorem submitting_step (h : Submitting es s) (hs : s.step cfg e = some s') :
    Submitting (es ++ [e]) s' := by
  intro process id dto hop
  rcases mem_ops_step hs hop with hold | hnew
  · exact (h process id dto hold).snoc e
  · obtain rfl := Intake.submitJob_of_produces hnew
    exact ⟨process, List.mem_append_right _ List.mem_cons_self⟩

theorem sourced_init : Sourced [] init where
  rows := fun r hr => absurd hr (Table.not_mem_empty r)
  entries := nofun
  dlq := fun d hd => absurd hd (Table.not_mem_empty d)
  logs := fun _ hl => absurd hl List.not_mem_nil
  ops := fun _ hop => absurd hop List.not_mem_nil

theorem sourced_step (h : Sourced es s) (hsub : Submitting es s) (ht : Tidy s)
    (hs : s.step cfg e = some s') : Sourced (es ++ [e]) s' := by
  have hd := defines_step hs
  refine ⟨fun r' hr' => ?_, fun k en' hen' => ?_, fun d hmem => ?_, fun l' hl' => ?_,
    carries_step h hs⟩
  case refine_1 =>
    have hk' := Table.mem_iff_find?.mp hr'
    cases hk : s.store.jobs.find? r'.id with
    | some r =>
        obtain ⟨r₁, hr₁, hdef⟩ := hd _ r hk
        obtain rfl := Option.some.inj (hk'.symm.trans hr₁)
        obtain ⟨now, dto, hsubm, hnew⟩ := h.rows r (Table.mem_of_find? hk)
        have hid : r.id = r'.id := Table.key_of_find? hk
        exact ⟨now, dto, hid ▸ hsubm.snoc e, by rw [hdef, hnew, hid]⟩
    | none =>
        rcases step_tables hs with ⟨hj, -, -⟩ | ⟨op, hop, second, now, locked, c, reply, hc, hx⟩
        · rw [hj, hk] at hk'
          cases hk'
        · rcases Store.exec_row hx hk' with ⟨-, dto, rfl, hnew⟩ | ⟨r, hr, -⟩
          · obtain ⟨process, rfl⟩ := Intake.submitJob_of_create (ht op hop) hc
            exact ⟨now, dto, (hsub process _ dto hop).snoc e, by rw [hnew]; rfl⟩
          · rw [hk] at hr
            cases hr
  case refine_2 =>
    rcases entry_step hs hen' with ⟨en, hen, hdata⟩ |
      ⟨op, hop, second, jobId, data, priority, delayMs, hc, -, hdata⟩
    · rw [hdata]
      exact (h.entries k en hen).mono hd
    · have hcar := (h.ops op hop).mono hd
      rw [hdata]
      rcases Op.of_pending_add hc (ht op hop) with ⟨job, rfl, -, rfl⟩ | ⟨entry, rfl, -, rfl⟩
      · exact hcar
      · exact hcar
  case refine_3 =>
    rcases step_tables hs with ⟨-, -, hdlq⟩ | ⟨op, hop, second, now, locked, c, reply, hc, hx⟩
    · exact (h.dlq d (hdlq ▸ hmem)).mono hd
    · rcases Store.dlq_exec hx hmem with hold | rfl
      · exact (h.dlq d hold).mono hd
      · exact (Op.known_of_addDlq (h.ops op hop) (ht op hop) hc).mono hd
  case refine_4 =>
    have hkeep : (∃ r, s.store.jobs.find? l'.jobId = some r) →
        ∃ r, s'.store.jobs.find? l'.jobId = some r := by
      rintro ⟨r, hr⟩
      obtain ⟨r', hr', -⟩ := hd _ r hr
      exact ⟨r', hr'⟩
    rcases step_tables hs with ⟨-, hlogs, -⟩ | ⟨op, hop, second, now, locked, c, reply, hc, hx⟩
    · exact hkeep (h.logs l' (hlogs ▸ hl'))
    · rcases Store.log_exec hx hl' with ⟨l, hl, hid, -⟩ | ⟨dto, rfl, hid, -⟩
      · exact hkeep (hid ▸ h.logs l hl)
      · exact hkeep (hid ▸ Op.known_of_createLog (h.ops op hop) (ht op hop) hc)

/-- **What is executed is what was submitted**, in every interleaving, with any failing calls and
crashes: every row is what was submitted under its id; the entries of both queues, the runs under
way and the rows they have read, and the history agree with the rows. -/
theorem payloads_as_submitted (h : Run (step cfg) anyStep init es s) : Sourced es s := by
  have hinv : Tidy s ∧ Submitting es s ∧ Sourced es s := by
    refine h.inv (I := fun es s => Tidy s ∧ Submitting es s ∧ Sourced es s)
      ⟨tidy_init, fun _ _ _ hop => absurd hop List.not_mem_nil, sourced_init⟩ ?_
    rintro es s e s' ⟨ht, hsub, hi⟩ - hs
    exact ⟨tidy_step ht hs, submitting_step hsub hs, sourced_step hi hsub ht hs⟩
  exact hinv.2.2

/-- `a` fails for good and is replayed; the replayed entry still has what was submitted. -/
theorem replayed_as_submitted : ∃ s, Sourced (lastAttempt ++ [.start (.replayJob "a"),
    .call 4 false 12 .ok [], .call 4 false 13 .ok [], .call 4 false 14 .ok []]) s ∧
    ∃ en ∈ s.store.queue.entries.rows, en.id = .auto 2 := by
  obtain ⟨s, hs, hp⟩ := exists_run_of_check (step {}) anyStep init
    (lastAttempt ++ [.start (.replayJob "a"), .call 4 false 12 .ok [], .call 4 false 13 .ok [],
      .call 4 false 14 .ok []])
    (fun s => ∃ en ∈ s.store.queue.entries.rows, en.id = .auto 2) (by decide)
  exact ⟨s, payloads_as_submitted hs, of_decide_eq_true hp⟩

end Sys

end TaskOrchestration

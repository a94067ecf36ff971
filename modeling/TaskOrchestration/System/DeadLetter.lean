import TaskOrchestration.System.Notify

set_option autoImplicit false

/-!
# Failed jobs and the dead letter queue

`handleFailure` writes `FAILED` and then adds the entry; `recoverStalledJobs` writes `FAILED` and
adds nothing.

* `Sys.replayedSince`: the entry was removed by a replay after the last write of `FAILED`;
* `Sys.strands`: the step leaves a job `FAILED`, with no entry to be added any more;
* `InDlq`: the invariant; `inDlq_step`: what keeps it;
* **`failed_in_dlq`**; `stalled_not_in_dlq`: a job that stall recovery fails.
-/

namespace TaskOrchestration

open LabelledRun

/-- The job whose row the operation sets to `FAILED` next. -/
def Op.failing : Op → Option JobId
  | processJob _ _ _ data (.failFinal _ _) => some data.jobId
  | recover (job :: _) _ => if job.retryCount < job.maxRetries then none else some job.id
  | _ => none

/-- The job whose entry the operation adds to the dead letter queue next. -/
def Op.deadLettering : Op → Option JobId
  | processJob _ _ _ data (.failDlq _ _) => some data.jobId
  | _ => none

theorem Op.failing_of_pending {cfg : Config} {op : Op} {second : Bool} {k : JobId}
    {dto : UpdateJobDto} (ht : op.tidy = true)
    (hc : op.pending cfg second = some (.update k dto)) (hd : dto.status = some .failed) :
    op.failing = some k := by
  unfold pending at hc
  split at hc
  case h_1 =>
    unfold ProcessPc.call at hc
    split at hc <;> simp only [Option.some.injEq, Call.update.injEq, reduceCtorEq] at hc
    case h_9 =>
      obtain ⟨rfl, rfl⟩ := hc
      rfl
    all_goals
      obtain ⟨-, rfl⟩ := hc
      cases hd
  all_goals simp only [Option.some.injEq, Call.update.injEq, reduceCtorEq] at hc
  case h_6 job jobs now =>
    obtain ⟨rfl, rfl⟩ := hc
    unfold recoverDto at hd
    by_cases hlt : job.retryCount < job.maxRetries
    · rw [if_pos hlt] at hd
      cases hd
    · exact if_neg hlt
  case h_15 =>
    subst hc
    rw [tidy, hd] at ht
    cases ht
  all_goals
    obtain ⟨-, rfl⟩ := hc
    cases hd

theorem Op.addDlq_of_deadLettering {cfg : Config} {op : Op} {second : Bool} {k : JobId} {c : Call}
    (h : op.deadLettering = some k) (hc : op.pending cfg second = some c) :
    ∃ entry, c = .addDlq entry ∧ entry.originalJobId = k := by
  unfold deadLettering at h
  split at h
  case h_1 process workerId entry data job f =>
    obtain rfl := Option.some.inj h
    cases second with
    | true => cases hc
    | false => exact ⟨_, (Option.some.inj hc).symm, rfl⟩
  case h_2 => cases h

namespace Sys

variable {cfg : Config} {s s' : Sys} {e : Event} {k : JobId}

/-- The step is a replay's removal of the entry `dlq_<k>`. -/
def removes (cfg : Config) (k : JobId) (s : Sys) (e : Event) : Bool :=
  (s.store.dlq.find? k).isSome &&
    (s.calling cfg e).any fun q => q.2.1 = .removeDlq k && q.2.2 ≠ .fail

/-- **The entry was replayed** after the last write of `FAILED` to the row. -/
def replayedSince (cfg : Config) (k : JobId) (es : List Event) : Bool :=
  observe (step cfg) (fun b s e =>
    if removes cfg k s e then true else if Writes cfg s e k .failed then false else b) false init es

/-- The job that the step leaves `FAILED` without going on to add its entry. -/
def strands (cfg : Config) (s : Sys) : Event → Option JobId
  | .call run second now outcome locked =>
      (s.calling cfg (.call run second now outcome locked)).bind fun q =>
        match q.2.2 with
        | .ok => if q.1.isProcess then none else q.1.failing
        | .lost => q.1.failing
        | .fail => q.1.deadLettering
  | .crash run => (s.ops[run]?).bind Op.deadLettering
  | _ => none

/-- **The condition**: a job that a step strands has an entry already. -/
def StrandsNone (cfg : Config) (s : Sys) (e : Event) : Prop :=
  ∀ k ∈ s.strands cfg e, (s.store.dlq.find? k).isSome = true

instance (cfg : Config) (s : Sys) (e : Event) : Decidable (StrandsNone cfg s e) := by
  unfold StrandsNone; infer_instance

/-- **Permanently failed jobs are in the dead letter queue**, when no operation is in flight. -/
def FailedInDlq (cfg : Config) (es : List Event) (s : Sys) : Prop :=
  (∀ op ∈ s.ops, op.ended = true) → ∀ r ∈ s.store.jobs, r.status = .failed →
    (s.store.dlq.find? r.id).isSome = true ∨ replayedSince cfg r.id es = true

/-- The entry of the job is there, or is about to be added, or was replayed. -/
def HasEntry (cfg : Config) (es : List Event) (s : Sys) (k : JobId) : Prop :=
  (s.store.dlq.find? k).isSome = true ∨ (∃ op ∈ s.ops, op.deadLettering = some k) ∨
    replayedSince cfg k es = true

/-- **The invariant.** -/
structure InDlq (cfg : Config) (es : List Event) (s : Sys) : Prop where
  tidy : Tidy s
  rows : ∀ r ∈ s.store.jobs, r.status = .failed → HasEntry cfg es s r.id

/-! ## The entries after a step -/

theorem dlq_exec {st st' : Store} {now : Time} {locked : List JobId} {c : Call} {reply : Reply}
    (hx : st.exec now locked c = some (st', reply)) (h : (st.dlq.find? k).isSome = true)
    (hc : c ≠ .removeDlq k) : (st'.dlq.find? k).isSome = true := by
  cases c with
  | create id dto =>
      obtain ⟨q, -, he⟩ := Option.map_eq_some_iff.mp hx
      obtain ⟨rfl, -⟩ := Prod.mk.inj he
      exact h
  | addDlq entry =>
      obtain ⟨rfl, -⟩ := Prod.mk.inj (Option.some.inj hx)
      dsimp only
      rw [Table.find?_insertIfAbsent]
      split_ifs
      · rfl
      · exact h
  | removeDlq id =>
      obtain ⟨rfl, -⟩ := Prod.mk.inj (Option.some.inj hx)
      have hne : k ≠ id := fun he => hc (he ▸ rfl)
      dsimp only
      rw [Table.find?_erase, if_neg hne]
      exact h
  | _ =>
      obtain ⟨rfl, -⟩ := Prod.mk.inj (Option.some.inj hx)
      exact h

/-- **An entry stays**, unless a replay removes it. -/
theorem dlq_step (hs : s.step cfg e = some s') (h : (s.store.dlq.find? k).isSome = true) :
    (s'.store.dlq.find? k).isSome = true ∨ removes cfg k s e = true := by
  by_cases hrem : ∃ q ∈ s.calling cfg e, q.2.1 = .removeDlq k ∧ q.2.2 ≠ .fail
  · obtain ⟨q, hq, hc, ho⟩ := hrem
    right
    rw [removes, h, Bool.true_and, Option.any_eq_true]
    exact ⟨q, hq, by simp [hc, ho]⟩
  · left
    cases stepTo_of_step hs with
    | answered hop hc hx =>
        refine dlq_exec hx h ?_
        rintro rfl
        exact hrem ⟨_, calling_call hop hc, rfl, by simp⟩
    | errored hop hc ho hst =>
        rcases hst with ⟨rfl, -⟩ | ⟨rfl, reply, hx⟩
        · exact h
        · refine dlq_exec hx h ?_
          rintro rfl
          exact hrem ⟨_, calling_call hop hc, rfl, by simp⟩
    | _ => exact h

theorem dlq_addDlq {st st' : Store} {now : Time} {locked : List JobId} {entry : DLQEntry}
    {reply : Reply} (hx : st.exec now locked (.addDlq entry) = some (st', reply)) :
    (st'.dlq.find? entry.originalJobId).isSome = true := by
  obtain ⟨rfl, -⟩ := Prod.mk.inj (Option.some.inj hx)
  dsimp only
  rw [Table.find?_insertIfAbsent, if_pos rfl]
  rfl

/-- **An entry about to be added** is added, or still about to be, unless the step strands it. -/
theorem deadLettering_step (hs : s.step cfg e = some s') (hg : StrandsNone cfg s e) {op : Op}
    (hop : op ∈ s.ops) (hk : op.deadLettering = some k) :
    (s'.store.dlq.find? k).isSome = true ∨ ∃ op' ∈ s'.ops, op'.deadLettering = some k := by
  obtain ⟨i, hi⟩ := List.mem_iff_getElem?.mp hop
  by_cases hne : actor e = some i
  · left
    cases stepTo_of_step hs with
    | answered h₁ hc hx =>
        obtain rfl := Option.some.inj hne
        obtain rfl := Option.some.inj (hi.symm.trans h₁)
        obtain ⟨entry, rfl, rfl⟩ := Op.addDlq_of_deadLettering hk hc
        exact dlq_addDlq hx
    | @errored run second now outcome locked op₁ c st h₁ hc ho hst =>
        obtain rfl := Option.some.inj hne
        obtain rfl := Option.some.inj (hi.symm.trans h₁)
        obtain ⟨entry, rfl, rfl⟩ := Op.addDlq_of_deadLettering hk hc
        rcases hst with ⟨rfl, hf⟩ | ⟨rfl, reply, hx⟩
        · obtain rfl : outcome = .fail := hf.resolve_right fun h => by cases h
          apply hg
          simp only [strands, calling_call h₁ hc, Option.bind_some]
          exact hk
        · exact dlq_addDlq hx
    | execute h₁ | executed h₁ | executeRejected h₁ =>
        obtain rfl := Option.some.inj hne
        rw [Option.some.inj (hi.symm.trans h₁)] at hk
        cases hk
    | @settle run process workerId entry data pc rejected h₁ hended =>
        obtain rfl := Option.some.inj hne
        rw [Option.some.inj (hi.symm.trans h₁)] at hk
        cases pc with
        | resolved | rejected => cases hk
        | _ => cases hended
    | crash =>
        obtain rfl := Option.some.inj hne
        apply hg
        simp only [strands, hi, Option.bind_some]
        exact hk
    | start | pickUp | stall | promote | evict | restart => cases hne
  · exact .inr ⟨op, List.mem_of_getElem? (getElem?_step_of_ne hs hi hne), hk⟩

/-! ## Steps -/

theorem replayedSince_snoc {es : List Event} (h : Run (step cfg) anyStep init es s)
    (hs : s.step cfg e = some s') (k : JobId) : replayedSince cfg k (es ++ [e]) =
      if removes cfg k s e then true else if Writes cfg s e k .failed then false
      else replayedSince cfg k es :=
  observe_snoc h.runEvents_eq hs

/-- **A write of `FAILED`** is followed by the entry, unless it strands the job. -/
theorem deadLettering_of_writes (ht : Tidy s) (hs : s.step cfg e = some s')
    (hw : Writes cfg s e k .failed) :
    s.strands cfg e = some k ∨ ∃ op' ∈ s'.ops, op'.deadLettering = some k := by
  obtain ⟨⟨op, c, outcome⟩, hcall, ho, hset⟩ := hw
  obtain ⟨run, second, now, locked, rfl, hop, hc⟩ := calling_eq_some hcall
  obtain ⟨dto, rfl, hd⟩ := setsStatus_eq_some hset
  have hf := Op.failing_of_pending (ht op (List.mem_of_getElem? hop)) hc hd
  simp only [strands, calling_call hop hc, Option.bind_some]
  cases outcome with
  | fail => exact absurd rfl ho
  | lost => exact .inl hf
  | ok =>
      by_cases hp : op.isProcess = true
      · right
        obtain ⟨process, workerId, entry, data, pc, rfl⟩ := Op.isProcess_eq_true hp
        obtain ⟨job, f, rfl⟩ : ∃ job f, pc = .failFinal job f := by
          unfold Op.failing at hf
          split at hf
          case h_1 he =>
            cases he
            exact ⟨_, _, rfl⟩
          case h_2 he => cases he
          case h_3 => cases hf
        obtain rfl := Option.some.inj hf
        obtain ⟨st, reply, -, hx, rfl⟩ | ⟨st, hn, -, -⟩ := step_call hs hop hc
        · obtain ⟨hlt, -⟩ := List.getElem?_eq_some_iff.mp hop
          exact ⟨_, List.mem_append_left _ (List.mem_set hlt _), rfl⟩
        · cases hn rfl
      · exact .inl ((if_neg hp).trans hf)

theorem hasEntry_of_dlq {es : List Event} (h : Run (step cfg) anyStep init es s)
    (hs : s.step cfg e = some s') (hk : (s.store.dlq.find? k).isSome = true) :
    HasEntry cfg (es ++ [e]) s' k := by
  rcases dlq_step hs hk with hkeep | hrem
  · exact .inl hkeep
  · exact .inr (.inr (by rw [replayedSince_snoc h hs, if_pos hrem]))

theorem inDlq_step {es : List Event} (hr : Run (step cfg) anyStep init es s)
    (h : InDlq cfg es s) (hg : StrandsNone cfg s e) (hs : s.step cfg e = some s') :
    InDlq cfg (es ++ [e]) s' := by
  refine ⟨tidy_step h.tidy hs, fun r' hr' hst => ?_⟩
  have hk' := Table.mem_iff_find?.mp hr'
  cases hk : s.store.jobs.find? r'.id with
  | none => rw [step_new_row hs hk hk'] at hst; cases hst
  | some r =>
      by_cases hw : Writes cfg s e r'.id .failed
      · rcases deadLettering_of_writes h.tidy hs hw with hstr | hadd
        · exact hasEntry_of_dlq hr hs (hg _ hstr)
        · exact .inr (.inl hadd)
      · -- the row was `FAILED` before
        obtain ⟨r'', hk'', hcase⟩ := step_status hs hk
        obtain rfl := Option.some.inj (hk'.symm.trans hk'')
        rw [hst] at hcase
        have hst₀ : r.status = .failed := by
          rcases hcase with hsame | hw' | ⟨-, hq, -⟩
          · exact hsame.symm
          · exact absurd hw' hw
          · cases hq
        have hid : r.id = r'.id := Table.key_of_find? hk
        rcases hid ▸ h.rows r (Table.mem_of_find? hk) hst₀ with hdlq | ⟨op, hop, hadd⟩ | hrep
        · exact hasEntry_of_dlq hr hs hdlq
        · rcases deadLettering_step hs hg hop hadd with hnow | hlater
          · exact .inl hnow
          · exact .inr (.inl hlater)
        · refine .inr (.inr ?_)
          rw [replayedSince_snoc hr hs, if_neg hw, hrep, ite_self]

/-- **Permanently failed jobs are in the dead letter queue**, in every run in which no step strands
a job that has no entry. -/
theorem failed_in_dlq {es : List Event}
    (h : Run (step cfg) (stateGuard (StrandsNone cfg)) init es s) : FailedInDlq cfg es s := by
  have hany : Run (step cfg) anyStep init es s ∧ InDlq cfg es s := by
    induction h with
    | nil => exact ⟨.nil, tidy_init, fun r hr => absurd hr (Table.not_mem_empty r)⟩
    | snoc _ hg hs ih => exact ⟨ih.1.snoc trivial hs, inDlq_step ih.1 ih.2 hg hs⟩
  intro hidle r hr hst
  rcases hany.2.rows r hr hst with hdlq | ⟨op, hop, hadd⟩ | hrep
  · exact .inl hdlq
  · -- an operation that is about to add has not ended
    have hend := hidle op hop
    unfold Op.deadLettering at hadd
    split at hadd
    case h_1 => cases hend
    case h_2 => cases hadd
  · exact .inr hrep

/-- A job without retries fails, and its entry is done. -/
theorem last_attempt_in_dlq : ∃ s, runEvents (step {}) init lastAttempt = some s ∧
    FailedInDlq {} lastAttempt s ∧ (∀ op ∈ s.ops, op.ended = true) ∧
    ∃ r ∈ s.store.jobs, r.status = .failed := by
  obtain ⟨s, hs, hp⟩ := exists_run_of_check (step {}) (stateGuard (StrandsNone {})) init
    lastAttempt (fun s => (∀ op ∈ s.ops, op.ended = true) ∧
      ∃ r ∈ s.store.jobs.rows, r.status = .failed) (by decide)
  obtain ⟨hidle, hfailed⟩ := of_decide_eq_true hp
  exact ⟨s, hs.runEvents_eq, failed_in_dlq hs, hidle, hfailed⟩

/-- The worker of a job without retries crashes, and stall recovery fails the job. -/
def crashedAndFailed : List Event := failsStalled ++ [.crash 3]

/-- **A stalled job that is failed** is in no dead letter queue. -/
theorem stalled_not_in_dlq : ∃ s, Run (step {}) anyStep init crashedAndFailed s ∧
    ¬ FailedInDlq {} crashedAndFailed s := by
  obtain ⟨s, hs, hp⟩ := exists_run_of_check (step {}) anyStep init crashedAndFailed
    (fun s => (∀ op ∈ s.ops, op.ended = true) ∧ ∃ r ∈ s.store.jobs.rows, r.status = .failed ∧
      (s.store.dlq.find? r.id).isSome = false ∧
      replayedSince {} r.id crashedAndFailed = false) (by decide)
  obtain ⟨hidle, r, hr, hst, hdlq, hrep⟩ := of_decide_eq_true hp
  refine ⟨s, hs, fun h => ?_⟩
  rcases h hidle r hr hst with h | h
  · exact Bool.false_ne_true (hdlq.symm.trans h)
  · exact Bool.false_ne_true (hrep.symm.trans h)

end Sys

end TaskOrchestration

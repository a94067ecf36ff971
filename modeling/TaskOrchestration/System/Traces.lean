import TaskOrchestration.System.Step

set_option autoImplicit false

/-!
# Traces of an earlier attempt

Four operations mean to clear columns of the row by fields that are `undefined`, and `toRow` leaves
these columns as they are.

* `Job.Clean`: what a job that waits to run must not carry; `Job.Marked`: what the status of a row
  says of its columns; `UpdateJobDto.Marks`: and the status in an update;
* `Store.exec_keeps`: what every call keeps;
* `Op.Grounded`: what an operation under way knows of its row;
* `LeavesTrace`: a row that has run is given a status in which it waits;
* **`clean_iff_leavesNoTrace`**: every waiting row is clean as long as no step leaves a trace, and
  only so long; `retrying_keeps_worker`.
-/

namespace TaskOrchestration

open JobRepository LabelledRun

/-! ## The columns of a row -/

namespace Job

/-- No attempt has left anything in the row. -/
def Blank (r : Job) : Prop :=
  r.workerId = none ∧ r.startedAt = none ∧ r.completedAt = none ∧ r.errorMessage = none ∧
    r.errorStack = none

/-- **A job that waits to run** carries no trace of an earlier attempt. -/
def Clean (r : Job) : Prop :=
  match r.status with
  | .pending => r.Blank
  | .retrying => r.workerId = none ∧ r.startedAt = none
  | _ => True

/-- **What the status says of the columns**, when every `PENDING` row so far was clean. -/
def Marked (r : Job) : Prop :=
  match r.status with
  | .pending => True
  | .queued => r.Blank
  | .running | .retrying => r.workerId.isSome
  | .completed | .failed | .cancelled => r.completedAt.isSome
  | .timedOut | .skipped => False

end Job

/-- What the status in an update says of its other fields. -/
def UpdateJobDto.Marks (dto : UpdateJobDto) : Prop :=
  match dto.status with
  | some .pending => dto.workerId = none ∧ dto.startedAt = none ∧ dto.completedAt = none ∧
      dto.errorMessage = none ∧ dto.errorStack = none
  | some .retrying => True
  | some .running => dto.workerId.isSome
  | some .completed | some .failed | some .cancelled => dto.completedAt.isSome
  | _ => False

section Rows

variable {r : Job} {dto : UpdateJobDto} {now : Time}

theorem isSome_or_left {α : Type} {x : Option α} (h : x.isSome) (y : Option α) :
    (x.or y).isSome := by
  rw [Option.isSome_or, h, Bool.true_or]

theorem isSome_or_right {α : Type} {y : Option α} (x : Option α) (h : y.isSome) :
    (x.or y).isSome := by
  rw [Option.isSome_or, h, Bool.or_true]

theorem blank_toRow_iff (hd : dto.Marks) (hp : dto.status = some .pending) :
    (toRow now dto r).Blank ↔ r.Blank := by
  unfold UpdateJobDto.Marks at hd
  rw [hp] at hd
  obtain ⟨h₁, h₂, h₃, h₄, h₅⟩ := hd
  simp only [Job.Blank, toRow, h₁, h₂, h₃, h₄, h₅, Option.none_or]

/-- **An update marks the row.** One that gives `RETRYING` finds the worker in the row. -/
theorem marked_toRow (hd : dto.Marks)
    (hret : dto.status = some .retrying → r.workerId.isSome) : (toRow now dto r).Marked := by
  unfold UpdateJobDto.Marks at hd
  unfold Job.Marked
  simp only [JobRepository.toRow]
  cases hx : dto.status with
  | none => rw [hx] at hd; exact hd.elim
  | some x =>
      rw [hx] at hd
      cases x with
      | pending => trivial
      | running => exact isSome_or_left hd _
      | completed | failed | cancelled => exact isSome_or_left hd _
      | retrying => exact isSome_or_right _ (hret hx)
      | queued | timedOut | skipped => exact hd.elim

theorem blank_iff_of_marked (hm : r.Marked) (hc : r.Clean) :
    r.Blank ↔ r.status = .pending ∨ r.status = .queued := by
  unfold Job.Marked at hm
  unfold Job.Clean at hc
  cases hx : r.status with
  | pending => rw [hx] at hc; exact iff_of_true hc (.inl rfl)
  | queued => rw [hx] at hm; exact iff_of_true hm (.inr rfl)
  | running | retrying =>
      rw [hx] at hm
      refine iff_of_false (fun h => ?_) (by simp)
      rw [h.1] at hm
      cases hm
  | completed | failed | cancelled =>
      rw [hx] at hm
      refine iff_of_false (fun h => ?_) (by simp)
      rw [h.2.2.1] at hm
      cases hm
  | timedOut | skipped => rw [hx] at hm; exact hm.elim

/-- **A row after an update** is clean exactly if it was not given `RETRYING`, nor `PENDING` unless
it was `PENDING` or `QUEUED`. -/
theorem clean_toRow_iff (hm : r.Marked) (hc : r.Clean) (hd : dto.Marks)
    (hret : dto.status = some .retrying → r.workerId.isSome) : (toRow now dto r).Clean ↔
      dto.status ≠ some .retrying ∧
        (dto.status = some .pending → r.status = .pending ∨ r.status = .queued) := by
  have hst : ∀ x, dto.status = some x → (toRow now dto r).status = x := fun x hx => by
    simp only [JobRepository.toRow, hx, Option.getD_some]
  cases hx : dto.status with
  | none => unfold UpdateJobDto.Marks at hd; rw [hx] at hd; exact hd.elim
  | some x =>
      cases x with
      | pending =>
          have hclean : (toRow now dto r).Clean ↔ (toRow now dto r).Blank := by
            rw [Job.Clean, hst _ hx]
          rw [hclean, blank_toRow_iff hd hx, blank_iff_of_marked hm hc]
          simp
      | retrying =>
          refine iff_of_false (fun h => ?_) fun h => h.1 rfl
          rw [Job.Clean, hst _ hx] at h
          have hw : (toRow now dto r).workerId.isSome := isSome_or_right _ (hret hx)
          rw [h.1] at hw
          cases hw
      | _ =>
          refine iff_of_true ?_ (by simp)
          rw [Job.Clean, hst _ hx]
          trivial

theorem marked_claimed (hc : r.Clean) (hp : r.status = .pending) : (claimed now r).Marked := by
  unfold Job.Clean at hc
  rw [hp] at hc
  exact hc

end Rows

/-! ## Calls -/

/-- Rows stay, and with a worker if they have one. -/
def Keeps (t t' : JobTable) : Prop :=
  ∀ k r, t.find? k = some r → ∃ r', t'.find? k = some r' ∧ (r.workerId.isSome → r'.workerId.isSome)

theorem Keeps.refl (t : JobTable) : Keeps t t := fun _ r hr => ⟨r, hr, id⟩

/-- **What every call keeps.** -/
theorem Store.exec_keeps {st st' : Store} {now : Time} {locked : List JobId} {c : Call}
    {reply : Reply} (h : st.exec now locked c = some (st', reply)) : Keeps st.jobs st'.jobs := by
  intro k r hk
  obtain ⟨r', hk'⟩ := Store.exec_isSome h hk
  refine ⟨r', hk', fun hw => ?_⟩
  rcases Store.exec_row h hk' with ⟨hnone, -⟩ | ⟨r₀, hr₀, hcase⟩
  · rw [hnone] at hk
    cases hk
  · obtain rfl := Option.some.inj (hr₀.symm.trans hk)
    rcases hcase with rfl | ⟨dto, -, rfl⟩ | ⟨-, rfl, -⟩ | rfl
    · exact hw
    · exact isSome_or_right _ hw
    · exact hw
    · exact hw

/-! ## Operations -/

def HasWorker (t : JobTable) (k : JobId) : Prop := ∃ r, t.find? k = some r ∧ r.workerId.isSome

/-- **What a run of `processJob` knows of its row**: it is there once it was read, and it has a
worker once the attempt has begun. -/
def ProcessPc.Grounded (t : JobTable) (k : JobId) : ProcessPc → Prop
  | createLog .. | setRunning .. => ∃ r, t.find? k = some r
  | execute .. | executing .. | failRead _ | failLog .. | failRetry _ => HasWorker t k
  | _ => True

namespace ProcessPc

variable {t t' : JobTable} {k : JobId} {pc : ProcessPc} {workerId : String}
  {data : QueueJobPayload} {second : Bool}

theorem Grounded.keeps (h : pc.Grounded t k) (ht : Keeps t t') : pc.Grounded t' k := by
  have hrow : (∃ r, t.find? k = some r) → ∃ r, t'.find? k = some r := by
    rintro ⟨r, hr⟩
    obtain ⟨r', hr', -⟩ := ht k r hr
    exact ⟨r', hr'⟩
  have hworker : HasWorker t k → HasWorker t' k := by
    rintro ⟨r, hr, hw⟩
    obtain ⟨r', hr', hkeep⟩ := ht k r hr
    exact ⟨r', hr', hkeep hw⟩
  cases pc with
  | createLog | setRunning => exact hrow h
  | execute | executing | failRead | failLog | failRetry => exact hworker h
  | _ => trivial

theorem marks_of_call {dto : UpdateJobDto}
    (hc : pc.call workerId data second = some (.update k dto)) : dto.Marks ∧
      (pc.Grounded t data.jobId → dto.status = some .retrying → HasWorker t k) := by
  unfold call at hc
  split at hc <;> simp only [Option.some.injEq, Call.update.injEq, reduceCtorEq] at hc
  case h_8 => obtain ⟨rfl, rfl⟩ := hc; exact ⟨trivial, fun hg _ => hg⟩
  all_goals
    obtain ⟨rfl, rfl⟩ := hc
    refine ⟨rfl, fun _ hs => ?_⟩
    cases hs

theorem grounded_afterResolver (status : JobStatus) (n : ℕ) :
    (afterResolver status n).Grounded t k := by
  cases n with
  | zero => unfold afterResolver; split_ifs <;> trivial
  | succ n => trivial

/-- **An answer** tells the run what it has to know of its row. -/
theorem grounded_resume {st st' : Store} {g : DependencyResolver.Graph} {now : Time}
    {locked : List JobId} {c : Call} {reply : Reply} (h : pc.Grounded st.jobs data.jobId)
    (hc : pc.call workerId data second = some c)
    (hx : st.exec now locked c = some (st', reply)) :
    (pc.resume g now data second reply).1.Grounded st'.jobs data.jobId := by
  have h' : pc.Grounded st'.jobs data.jobId := h.keeps (Store.exec_keeps hx)
  unfold resume
  split
  case h_1 job =>
    have hsecond : second = false := by cases second <;> first | rfl | cases hc
    subst hsecond
    obtain rfl := Option.some.inj hc
    have hrow := Store.exec_findById hx
    obtain ⟨rfl, -⟩ := Prod.mk.inj (Option.some.inj hx)
    dsimp only
    split_ifs
    · trivial
    · exact ⟨job, (Reply.job.inj hrow).symm⟩
  case h_3 => exact h'
  case h_4 _ _ job id startedAt =>
    -- the update gives the row its worker
    have hsecond : second = false := by cases second <;> first | rfl | cases hc
    subst hsecond
    obtain rfl := Option.some.inj hc
    obtain ⟨rfl, -⟩ := Prod.mk.inj (Option.some.inj hx)
    obtain ⟨r, hr⟩ := h
    have hrow := find?_update st.jobs data.jobId now
      { status := some .running, workerId := some workerId, startedAt := some startedAt } data.jobId
    rw [if_pos rfl, hr] at hrow
    exact ⟨_, hrow, rfl⟩
  all_goals first
    | exact h'
    | trivial
    | exact grounded_afterResolver _ _
    | (dsimp only; split_ifs <;> first | exact h' | trivial)

end ProcessPc

namespace Op

/-- What an operation under way knows: of its row, and of the update that it has left behind. -/
def Grounded (t : JobTable) : Op → Prop
  | processJob _ _ _ data pc => pc.Grounded t data.jobId
  | orphan (.update _ dto) => dto.status = some .completed ∧ dto.completedAt.isSome
  | _ => True

variable {cfg : Config} {t t' : JobTable} {k : JobId} {op op' : Op} {second : Bool}

theorem Grounded.keeps (h : op.Grounded t) (ht : Keeps t t') : op.Grounded t' := by
  cases op with
  | processJob => exact ProcessPc.Grounded.keeps h ht
  | orphan c =>
      cases c with
      | update => exact h
      | _ => trivial
  | _ => trivial

theorem marks_recoverDto (job : Job) (now : Time) :
    (recoverDto job now).Marks ∧ (recoverDto job now).status ≠ some .retrying := by
  unfold recoverDto
  split_ifs
  · exact ⟨⟨rfl, rfl, rfl, rfl, rfl⟩, nofun⟩
  · exact ⟨rfl, nofun⟩

/-- **The updates of the operations** mark the row. -/
theorem marks_of_pending {dto : UpdateJobDto} (h : op.Grounded t)
    (hc : op.pending cfg second = some (.update k dto)) : dto.Marks ∧
      (dto.status = some .retrying → HasWorker t k) := by
  unfold pending at hc
  split at hc
  case h_1 =>
    obtain ⟨hm, hret⟩ := ProcessPc.marks_of_call hc
    exact ⟨hm, hret h⟩
  all_goals simp only [Option.some.injEq, Call.update.injEq, reduceCtorEq] at hc
  case h_6 job jobs now =>
    obtain ⟨rfl, rfl⟩ := hc
    obtain ⟨hm, hne⟩ := marks_recoverDto job now
    exact ⟨hm, fun hs => absurd hs hne⟩
  case h_15 =>
    subst hc
    obtain ⟨hst, hat⟩ := h
    refine ⟨?_, fun hs => ?_⟩
    · rw [UpdateJobDto.Marks, hst]
      exact hat
    · rw [hst] at hs
      cases hs
  case h_8 =>
    obtain ⟨rfl, rfl⟩ := hc
    exact ⟨rfl, nofun⟩
  all_goals
    obtain ⟨rfl, rfl⟩ := hc
    exact ⟨⟨rfl, rfl, rfl, rfl, rfl⟩, nofun⟩

theorem grounded_resume {st st' : Store} {g : DependencyResolver.Graph} {now : Time}
    {locked : List JobId} {c : Call} {reply : Reply} (h : op.Grounded st.jobs)
    (hc : op.pending cfg second = some c) (hx : st.exec now locked c = some (st', reply))
    (hop' : op' = (op.resume g now second reply).1 ∨ op' ∈ (op.resume g now second reply).2.1) :
    op'.Grounded st'.jobs := by
  cases leads_of_resume hop' with
  | processJob => exact ProcessPc.grounded_resume h hc hx
  | _ => trivial

theorem grounded_abort {second : Bool}
    (hop' : op' = (op.abort second).1 ∨ op' ∈ (op.abort second).2) : op'.Grounded t := by
  cases leaves_of_abort hop' with
  | @orphan _ workerId _ data pc c hc =>
      unfold ProcessPc.other at hc
      split at hc
      case h_1 result id completedAt rowWritten logWritten =>
        cases second <;> cases rowWritten <;> cases logWritten <;>
          simp only [ProcessPc.call, Bool.not_true, Bool.not_false, reduceCtorEq,
            Option.some.injEq] at hc
        all_goals subst hc
        all_goals first
          | exact ⟨rfl, rfl⟩
          | trivial
      case h_2 => cases hc
  | _ => trivial

end Op

/-! ## The system -/

namespace Sys

def Clean (s : Sys) : Prop := ∀ r ∈ s.store.jobs, r.Clean

/-- No operation is in flight. -/
def Idle (s : Sys) : Prop := ∀ op ∈ s.ops, op = .finished

/-- **The step leaves a trace**: it gives `RETRYING` to a row, or `PENDING` to a row that is neither
`PENDING` nor `QUEUED`. -/
def LeavesTrace (cfg : Config) (s : Sys) (e : Event) : Prop :=
  ∃ r ∈ s.store.jobs, Writes cfg s e r.id .retrying ∨
    Writes cfg s e r.id .pending ∧ r.status ≠ .pending ∧ r.status ≠ .queued

instance (cfg : Config) (s : Sys) (e : Event) : Decidable (LeavesTrace cfg s e) := by
  unfold LeavesTrace
  infer_instance

/-- **The invariant.** -/
structure Marked (s : Sys) : Prop where
  rows : ∀ r ∈ s.store.jobs, r.Marked
  ops : ∀ op ∈ s.ops, op.Grounded s.store.jobs

variable {cfg : Config} {s s' : Sys} {e : Event}

theorem clean_init : Clean init := fun _ hr => absurd hr (Table.not_mem_empty _)

theorem marked_init : Marked init where
  rows _ hr := absurd hr (Table.not_mem_empty _)
  ops _ hop := absurd hop List.not_mem_nil

/-- **A row after a step**: marked, and clean unless the step leaves a trace in it. -/
theorem row_step (hI : Marked s) (hP : Clean s) (hs : s.step cfg e = some s') {r' : Job}
    (hr' : r' ∈ s'.store.jobs) : r'.Marked ∧ (¬ LeavesTrace cfg s e → r'.Clean) := by
  have hold : r' ∈ s.store.jobs → r'.Marked ∧ (¬ LeavesTrace cfg s e → r'.Clean) :=
    fun h => ⟨hI.rows r' h, fun _ => hP r' h⟩
  rcases step_jobs hs with hj | ⟨run, second, now, outcome, locked, op, c, st, reply, rfl, hop, hc,
    ho, hx, rfl⟩
  · exact hold (hj ▸ hr')
  · rcases Store.exec_row hx (Table.mem_iff_find?.mp hr') with ⟨-, dto, -, he⟩ | ⟨r, hr, hcase⟩
    · rw [he]
      exact ⟨trivial, fun _ => ⟨rfl, rfl, rfl, rfl, rfl⟩⟩
    · have hmem := Table.mem_of_find? hr
      have hm := hI.rows r hmem
      rcases hcase with he | ⟨dto, rfl, he⟩ | ⟨hp, he, -⟩ | he
      · exact hold (he ▸ hmem)
      · obtain ⟨hd, hret⟩ := Op.marks_of_pending (hI.ops op (List.mem_of_getElem? hop)) hc
        have hworker : dto.status = some .retrying → r.workerId.isSome := fun h => by
          obtain ⟨r₀, hr₀, hw⟩ := hret h
          rwa [Option.some.inj (hr₀.symm.trans hr)] at hw
        rw [he]
        refine ⟨marked_toRow hd hworker, fun hn => ?_⟩
        have hwrites : ∀ x, dto.status = some x →
            Writes cfg s (.call run second now outcome locked) r.id x := fun x h =>
          ⟨_, calling_call hop hc, ho, by rw [setsStatus, if_pos (Table.key_of_find? hr).symm, h]⟩
        rw [clean_toRow_iff hm (hP r hmem) hd hworker]
        refine ⟨fun h => hn ⟨r, hmem, .inl (hwrites _ h)⟩, fun h => ?_⟩
        by_contra hst
        rw [not_or] at hst
        exact hn ⟨r, hmem, .inr ⟨hwrites _ h, hst⟩⟩
      · rw [he]
        exact ⟨marked_claimed (hP r hmem) hp, fun _ => trivial⟩
      · have hclean : r'.Clean := by
          have h := hP r hmem
          rw [he]
          exact h
        have hmarked : r'.Marked := by
          rw [he]
          exact hm
        exact ⟨hmarked, fun _ => hclean⟩

theorem not_clean_of_leavesTrace (hI : Marked s) (hP : Clean s) (hs : s.step cfg e = some s')
    (ht : LeavesTrace cfg s e) : ¬ Clean s' := by
  intro hP'
  obtain ⟨r, hmem, hw⟩ := ht
  obtain ⟨x, hw, hbad⟩ : ∃ x, Writes cfg s e r.id x ∧
      (x = .retrying ∨ x = .pending ∧ r.status ≠ .pending ∧ r.status ≠ .queued) := by
    rcases hw with hw | ⟨hw, hst⟩
    · exact ⟨_, hw, .inl rfl⟩
    · exact ⟨_, hw, .inr ⟨rfl, hst⟩⟩
  obtain ⟨op, hop, second, now, dto, hc, hd, hj⟩ := jobs_of_writes hs hw
  obtain ⟨hmarks, hret⟩ := Op.marks_of_pending (hI.ops op hop) hc
  have hworker : dto.status = some .retrying → r.workerId.isSome := fun h => by
    obtain ⟨r₀, hr₀, hworker⟩ := hret h
    rwa [Option.some.inj (hr₀.symm.trans (Table.mem_iff_find?.mp hmem))] at hworker
  have hmem' : toRow now dto r ∈ s'.store.jobs := by
    rw [hj]
    exact mem_update.mpr (.inr ⟨r, hmem, rfl, rfl⟩)
  obtain ⟨hnr, hp⟩ := (clean_toRow_iff (hI.rows r hmem) (hP r hmem) hmarks hworker).mp
    (hP' _ hmem')
  rcases hbad with rfl | ⟨rfl, h₁, h₂⟩
  · exact hnr hd
  · exact (hp hd).elim h₁ h₂

theorem keeps_step (hs : s.step cfg e = some s') : Keeps s.store.jobs s'.store.jobs := by
  rcases step_jobs hs with hj | ⟨run, second, now, outcome, locked, op, c, st, reply, rfl, hop, hc,
    ho, hx, rfl⟩
  · rw [hj]
    exact .refl _
  · exact Store.exec_keeps hx

/-- **The operations after a step** know what they have to. -/
theorem grounded_step (h : ∀ op ∈ s.ops, op.Grounded s.store.jobs)
    (hs : s.step cfg e = some s') : ∀ op ∈ s'.ops, op.Grounded s'.store.jobs := by
  intro op' hop'
  have hold : op' ∈ s.ops → op'.Grounded s'.store.jobs := fun hmem =>
    (h op' hmem).keeps (keeps_step hs)
  cases stepTo_of_step hs with
  | @start op hr =>
      rcases mem_snoc hop' with hmem | rfl
      · exact hold hmem
      · cases op' with
        | processJob | orphan => exact hr.elim
        | _ => trivial
  | pickUp =>
      rcases mem_snoc hop' with hmem | rfl
      · exact hold hmem
      · trivial
  | @answered run second now locked op c st reply hop hc hx =>
      rcases mem_moveTo hop' with hmem | hnew
      · exact hold hmem
      · exact Op.grounded_resume (h op (List.mem_of_getElem? hop)) hc hx hnew
  | errored =>
      rcases mem_moveTo hop' with hmem | hnew
      · exact hold hmem
      · exact Op.grounded_abort hnew
  | @execute run process workerId entry data job id hop =>
      rcases mem_moveTo hop' with hmem | rfl | hmem
      · exact hold hmem
      · have hworker : HasWorker s.store.jobs data.jobId := h _ (List.mem_of_getElem? hop)
        exact hworker
      · exact absurd hmem List.not_mem_nil
  | @executed run process now result workerId entry data job id hop =>
      rcases mem_moveTo hop' with hmem | rfl | hmem
      · exact hold hmem
      · have hworker : HasWorker s.store.jobs data.jobId := h _ (List.mem_of_getElem? hop)
        unfold afterExecution
        split_ifs
        · trivial
        all_goals exact hworker
      · exact absurd hmem List.not_mem_nil
  | executeRejected | settle | crash =>
      rcases mem_moveTo hop' with hmem | rfl | hmem
      · exact hold hmem
      · trivial
      · exact absurd hmem List.not_mem_nil
  | stall | promote | evict | restart => exact hold hop'

/-- **A step** keeps the waiting rows clean exactly if it leaves no trace. -/
theorem clean_step (hI : Marked s) (hP : Clean s) (hs : s.step cfg e = some s') :
    Marked s' ∧ (Clean s' ↔ ¬ LeavesTrace cfg s e) := by
  refine ⟨⟨fun r hr => (row_step hI hP hs hr).1, grounded_step hI.ops hs⟩, ?_⟩
  constructor
  · intro hP' ht
    exact not_clean_of_leavesTrace hI hP hs ht hP'
  · intro hn r hr
    exact (row_step hI hP hs hr).2 hn

/-- **A job that waits to run carries no trace** of an earlier attempt, whenever no operation is in
flight, if no step leaves a trace; and then no state at all has one, and only then. -/
theorem clean_iff_leavesNoTrace {es : List Event} (h : Run (step cfg) anyStep init es s) :
    (Run (step cfg) (stateGuard fun s e => ¬ LeavesTrace cfg s e) init es s →
        Always (step cfg) init (fun s => Idle s → Clean s) es) ∧
      (Always (step cfg) init Clean es ↔
        Run (step cfg) (stateGuard fun s e => ¬ LeavesTrace cfg s e) init es s) := by
  have hiff : Always (step cfg) init Clean es ↔
      Run (step cfg) (stateGuard fun s e => ¬ LeavesTrace cfg s e) init es s := by
    apply h.always_iff (I := Marked) marked_init clean_init
    intro es s e s' hI hP _ hs
    exact clean_step hI hP hs
  exact ⟨fun hr pre s hpre hs _ => hiff.mpr hr pre s hpre hs, hiff⟩

/-- The entry of a job cannot be added. It is claimed again, added, and succeeds. -/
def revertedOnce : List Event :=
  [.start (.submitJob 0 "a" simpleDto), .call 0 false 1 .ok [], .start .scheduleReadyJobs,
    .call 1 false 2 .ok [], .call 2 false 3 .fail [], .call 2 false 3 .ok [],
    .start .scheduleReadyJobs, .call 3 false 4 .ok [], .call 4 false 5 .ok [],
    .pickUp 1 "w" (.job "a")] ++ executes 5 ++
    [.executed 5 7 { success := true }, .call 5 false 8 .ok [], .call 5 true 8 .ok [],
      .call 5 false 9 .ok [], .settle 5]

theorem revertedOnce_clean : ∃ s, Run (step {}) anyStep init revertedOnce s ∧ Idle s ∧
    Always (step {}) init (fun s => Idle s → Clean s) revertedOnce := by
  obtain ⟨s, hs, hp⟩ := exists_run_of_check (step {})
    (stateGuard fun s e => ¬ LeavesTrace {} s e) init revertedOnce
    (fun s => ∀ op ∈ s.ops, op = .finished) (by decide)
  have hrun : Run (step {}) anyStep init revertedOnce s := hs.mono fun _ _ _ _ => trivial
  have hidle : ∀ op ∈ s.ops, op = .finished := of_decide_eq_true hp
  exact ⟨s, hrun, hidle, (clean_iff_leavesNoTrace hrun).1 hs⟩

/-- An attempt fails, and the job has retries left. -/
def failsOnce : List Event :=
  pickedUp ++ executes 3 ++
    [.executed 3 7 { success := false }, .call 3 false 8 .ok [], .call 3 false 9 .ok [],
      .call 3 false 10 .ok [], .settle 3]

/-- **The `RETRYING` row keeps its worker**, and the date its attempt has started at. -/
theorem retrying_keeps_worker : ∃ s, Run (step {}) anyStep init failsOnce s ∧ Idle s ∧
    ¬ Clean s := by
  obtain ⟨s, hs, hp⟩ := exists_run_of_check (step {}) anyStep init failsOnce
    (fun s => (∀ op ∈ s.ops, op = .finished) ∧ ∃ r ∈ s.store.jobs,
      r.status = .retrying ∧ r.workerId = some "w" ∧ r.startedAt = some 5) (by decide)
  obtain ⟨hidle, r, hr, hst, hw, -⟩ := of_decide_eq_true hp
  refine ⟨s, hs, hidle, fun hclean => ?_⟩
  have hc := hclean r hr
  rw [Job.Clean, hst] at hc
  rw [hc.1] at hw
  cases hw

end Sys

end TaskOrchestration

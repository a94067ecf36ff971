import TaskOrchestration.System.Enqueue
import TaskOrchestration.System.Notify

set_option autoImplicit false

/-!
# A batch whose calls fail

`claimPendingJobs` moves the whole batch to `QUEUED` at once. Only the `add` of a job, or the
revert after an `add` that threw, brings it on: a scheduler that dies before leaves it `QUEUED`
without an entry, and neither the claim nor stall recovery looks at `QUEUED` rows.

* `Kept`: the job has a live entry, or a status that some later poll selects;
* `adds`, `reverts`: the calls that take effect; `BatchStep`: what may happen to the batch;
* `Batched`: the invariant; **`batch_job_kept`**: when a claimed job is kept;
* `scheduler_crash_loses_job`.
-/

namespace TaskOrchestration

open LabelledRun JobRepository

/-- The job that the operation reverts to `PENDING`. -/
def Op.reverted : Op → Option JobId
  | revert id _ => some id
  | _ => none

namespace Sys

variable {cfg : Config} {s s₁ s₂ s' : Sys} {e : Event} {k : JobId} {n : ℕ}

/-- A main-queue entry of the job is waiting, prioritized, delayed or active. -/
def LiveEntry (s : Sys) (k : JobId) : Prop :=
  ∃ en ∈ s.store.queue.entries, en.data.jobId = k ∧ en.state.Live

/-- **The job is not lost**: it has a live entry, or a later claim or stall recovery selects its
row. -/
def Kept (cfg : Config) (s : Sys) (k : JobId) : Prop :=
  LiveEntry s k ∨ ∃ r ∈ s.store.jobs, r.id = k ∧ ((∃ now, Claimable now r) ∨
    ∃ now, r ∈ findStalledJobs s.store.jobs now cfg.stalledJobThresholdMs)

/-- The step is an `add` of the job that takes effect, if its entry is not there. -/
def adds (cfg : Config) (k : JobId) (s : Sys) (e : Event) : Bool :=
  (s.calling cfg e).any fun q => q.2.2 ≠ .fail && q.1.added = some k

/-- The step is a revert of the job that takes effect. -/
def reverts (cfg : Config) (k : JobId) (s : Sys) (e : Event) : Bool :=
  (s.calling cfg e).any fun q => q.2.2 ≠ .fail && q.1.reverted = some k

/-- A call of an operation of the batch, whatever becomes of it, or the end of its process. The
operations of the batch come from `n` on. -/
def BatchStep (n : ℕ) : Event → Prop
  | .call run _ _ _ _ | .crash run => n ≤ run
  | _ => False

instance (n : ℕ) : DecidablePred (BatchStep n)
  | .call run _ _ _ _ | .crash run => Nat.decLe n run
  | .start _ | .pickUp _ _ _ | .execute _ | .executed _ _ _ | .executeRejected _ | .settle _
  | .stall _ | .promote _ | .evict _ | .restart _ => .isFalse id

/-- The operations of `scheduleReadyJobs` after its claim. -/
def Scheduling (op : Op) : Prop :=
  op = .finished ∨ (∃ job delayMs, op = .enqueue job delayMs) ∨ ∃ id again, op = .revert id again

/-- **The invariant** of a claimed job, whose row was `r` after the claim. -/
structure Batched (cfg : Config) (n : ℕ) (s₁ : Sys) (r : Job) (es : List Event) (s : Sys) :
    Prop where
  ops : ∀ j op, n ≤ j → s.ops[j]? = some op → Scheduling op
  row : ∃ r', s.store.jobs.find? r.id = some r' ∧ r'.dependencyCount = r.dependencyCount ∧
    r'.resolvedDependencyCount = r.resolvedDependencyCount ∧
    r'.status = if seen (step cfg) (reverts cfg r.id) s₁ es then .pending else .queued
  live : LiveEntry s r.id ↔ LiveEntry s₁ r.id ∨
    (s₁.store.queue.entries.find? (.job r.id) = none ∧ seen (step cfg) (adds cfg r.id) s₁ es = true)
  found : s.store.queue.entries.find? (.job r.id) = none ↔
    s₁.store.queue.entries.find? (.job r.id) = none ∧
      seen (step cfg) (adds cfg r.id) s₁ es = false

/-! ## Steps -/

theorem scheduling_resume {op : Op} (h : Scheduling op) (g : DependencyResolver.Graph)
    (now : Time) (second : Bool) (reply : Reply) : Scheduling (op.resume g now second reply).1 ∧
      (op.resume g now second reply).2.1 = [] := by
  rcases h with rfl | ⟨job, delayMs, rfl⟩ | ⟨id, again, rfl⟩
  · exact ⟨.inl rfl, rfl⟩
  · exact ⟨.inl rfl, rfl⟩
  · exact ⟨.inl rfl, rfl⟩

theorem scheduling_abort {op : Op} (h : Scheduling op) (second : Bool) :
    Scheduling (op.abort second).1 ∧ (op.abort second).2 = [] := by
  rcases h with rfl | ⟨job, delayMs, rfl⟩ | ⟨id, again, rfl⟩
  · exact ⟨.inl rfl, rfl⟩
  · exact ⟨.inr (.inr ⟨_, _, rfl⟩), rfl⟩
  · cases again
    · exact ⟨.inl rfl, rfl⟩
    · exact ⟨.inr (.inr ⟨_, _, rfl⟩), rfl⟩

/-- **An `add`** of a job makes a live entry of it, if its entry is not there. -/
theorem liveEntry_add {q : Queue} {job : Job} {priority delayMs : ℕ} :
    (∃ en ∈ (q.add (some job.id) (Op.enqueueData job) priority delayMs).entries,
        en.data.jobId = k ∧ en.state.Live) ↔
      (∃ en ∈ q.entries, en.data.jobId = k ∧ en.state.Live) ∨
        (q.entries.find? (.job job.id) = none ∧ job.id = k) := by
  set en₀ := Queue.newEntry (.job job.id) (Op.enqueueData job) priority delayMs with hen₀
  have hlive : en₀.state.Live := by
    rw [hen₀]
    unfold Queue.newEntry Queue.initialState
    split_ifs <;> trivial
  have hfind : ∀ id, (q.add (some job.id) (Op.enqueueData job) priority delayMs).entries.find? id =
      if id = .job job.id then some ((q.entries.find? id).getD en₀) else q.entries.find? id :=
    fun id => Queue.find?_add q (some job.id) _ _ _ id
  constructor
  · rintro ⟨en, hen, hk, hl⟩
    have he := hfind en.id
    rw [Table.mem_iff_find?.mp hen] at he
    split_ifs at he with hid
    · cases hold : q.entries.find? (.job job.id) with
      | none =>
          rw [hid, hold] at he
          obtain rfl := Option.some.inj he
          exact .inr ⟨rfl, hk⟩
      | some e =>
          rw [hid, hold] at he
          obtain rfl := Option.some.inj he
          exact .inl ⟨en, Table.mem_of_find? hold, hk, hl⟩
    · exact .inl ⟨en, Table.mem_of_find? he.symm, hk, hl⟩
  · rintro (⟨en, hen, hk, hl⟩ | ⟨hnone, rfl⟩)
    · refine ⟨en, Table.mem_of_find? (k := en.id) ?_, hk, hl⟩
      rw [hfind, Table.mem_iff_find?.mp hen]
      split_ifs <;> rfl
    · refine ⟨en₀, Table.mem_of_find? (k := .job job.id) ?_, rfl, hlive⟩
      rw [hfind, if_pos rfl, hnone]
      rfl

theorem find?_add_job {q : Queue} {job : Job} {priority delayMs : ℕ} :
    (q.add (some job.id) (Op.enqueueData job) priority delayMs).entries.find? (.job k) = none ↔
      q.entries.find? (.job k) = none ∧ job.id ≠ k := by
  rw [Queue.find?_add]
  by_cases hk : k = job.id
  · subst hk
    simp [Queue.addedId]
  · have hne : EntryId.job k ≠ Queue.addedId q (some job.id) := fun h => hk (EntryId.job.inj h)
    rw [if_neg hne]
    exact ⟨fun h => ⟨h, Ne.symm hk⟩, fun h => h.1⟩

/-- **The call of an operation of the batch** that takes effect: an `add` changes the queue, a
revert the row. -/
theorem batched_exec {r : Job} {es : List Event} (hr : Run (step cfg) anyStep s₁ es s)
    (h : Batched cfg n s₁ r es s) (hs : s.step cfg e = some s') {op : Op} {c : Call} {st : Store}
    {run : ℕ} {second : Bool} {now : Time} {outcome : Outcome} {locked : List JobId}
    {reply : Reply} (he : e = .call run second now outcome locked) (hop : s.ops[run]? = some op)
    (hsch : Scheduling op) (hc : op.pending cfg second = some c) (ho : outcome ≠ .fail)
    (hx : s.store.exec now locked c = some (st, reply)) (hst : s'.store = st)
    (hops : ∀ j op, n ≤ j → s'.ops[j]? = some op → Scheduling op) :
    Batched cfg n s₁ r (es ++ [e]) s' := by
  subst he
  have hadd := hr.seen_snoc (p := adds cfg r.id) hs
  have hrev := hr.seen_snoc (p := reverts cfg r.id) hs
  rw [adds, calling_call hop hc] at hadd
  rw [reverts, calling_call hop hc] at hrev
  rcases hsch with rfl | ⟨job, delayMs, rfl⟩ | ⟨id, again, rfl⟩
  · cases second <;> cases hc
  · cases second with
    | true => cases hc
    | false =>
        obtain rfl := Option.some.inj hc
        obtain ⟨rfl, -⟩ := Prod.mk.inj (Option.some.inj hx)
        simp only [Option.any_some, ho, ne_eq, not_false_eq_true, decide_true, Bool.true_and,
          Op.added, Op.reverted, Option.some.injEq, reduceCtorEq, decide_false,
          Bool.or_false] at hadd hrev
        refine ⟨hops, ?_, ?_, ?_⟩
        · rw [hst, hrev]
          exact h.row
        · have hl : LiveEntry s' r.id ↔ LiveEntry s r.id ∨
              (s.store.queue.entries.find? (.job job.id) = none ∧ job.id = r.id) := by
            rw [LiveEntry, hst]
            exact liveEntry_add
          rw [hl, h.live, hadd]
          by_cases hid : job.id = r.id
          · rw [hid, h.found]
            cases seen (step cfg) (adds cfg r.id) s₁ es <;> simp
          · simp [hid]
        · have hf : s'.store.queue.entries.find? (.job r.id) = none ↔
              s.store.queue.entries.find? (.job r.id) = none ∧ job.id ≠ r.id := by
            rw [hst]
            exact find?_add_job
          rw [hf, h.found, hadd]
          cases seen (step cfg) (adds cfg r.id) s₁ es <;> simp
  · cases second with
    | true => cases hc
    | false =>
        obtain rfl := Option.some.inj hc
        obtain ⟨rfl, -⟩ := Prod.mk.inj (Option.some.inj hx)
        simp only [Option.any_some, ho, ne_eq, not_false_eq_true, decide_true, Bool.true_and,
          Op.added, Op.reverted, Option.some.injEq, reduceCtorEq, decide_false,
          Bool.or_false] at hadd hrev
        refine ⟨hops, ?_, ?_, ?_⟩
        · obtain ⟨r', hr', hdep, hres, hstatus⟩ := h.row
          rw [hst, hrev]
          dsimp only
          rw [find?_update, hr']
          by_cases hid : r.id = id
          · rw [if_pos hid]
            exact ⟨_, rfl, hdep, hres, by simp [hid, toRow]⟩
          · rw [if_neg hid]
            exact ⟨r', rfl, hdep, hres, by simpa [Ne.symm hid] using hstatus⟩
        · rw [hadd, LiveEntry, hst]
          exact h.live
        · rw [hst, hadd]
          exact h.found

theorem batched_same {r : Job} {es : List Event} (hr : Run (step cfg) anyStep s₁ es s)
    (h : Batched cfg n s₁ r es s) (hs : s.step cfg e = some s') (hst : s'.store = s.store)
    (hno : ∀ q ∈ s.calling cfg e, q.2.2 = .fail)
    (hops : ∀ j op, n ≤ j → s'.ops[j]? = some op → Scheduling op) :
    Batched cfg n s₁ r (es ++ [e]) s' := by
  have hany : ∀ p : Op × Call × Outcome → Bool,
      ((s.calling cfg e).any fun q => q.2.2 ≠ .fail && p q) = false := by
    intro p
    rw [Option.any_eq_false]
    intro q hq
    simp [hno q hq]
  have hadd : seen (step cfg) (adds cfg r.id) s₁ (es ++ [e]) =
      seen (step cfg) (adds cfg r.id) s₁ es := by
    rw [hr.seen_snoc hs, adds, hany fun q => q.1.added = some r.id, Bool.or_false]
  have hrev : seen (step cfg) (reverts cfg r.id) s₁ (es ++ [e]) =
      seen (step cfg) (reverts cfg r.id) s₁ es := by
    rw [hr.seen_snoc hs, reverts, hany fun q => q.1.reverted = some r.id, Bool.or_false]
  refine ⟨hops, ?_, ?_, ?_⟩
  · rw [hst, hrev]
    exact h.row
  · rw [hadd, LiveEntry, hst]
    exact h.live
  · rw [hst, hadd]
    exact h.found

theorem scheduling_set {run : ℕ} {op : Op} {l : List Op} (hop : Scheduling op) (hl : l = [])
    (h : ∀ j op, n ≤ j → s.ops[j]? = some op → Scheduling op) :
    ∀ j op', n ≤ j → (s.ops.set run op ++ l)[j]? = some op' → Scheduling op' := by
  intro j op' hj hop'
  rcases of_getElem?_set_append hop' with ⟨-, hop'⟩ | ⟨-, rfl⟩ | hmem
  · exact h j op' hj hop'
  · exact hop
  · rw [hl] at hmem
    cases hmem

theorem batched_step {r : Job} {es : List Event} (hr : Run (step cfg) anyStep s₁ es s)
    (h : Batched cfg n s₁ r es s) (hb : BatchStep n e) (hs : s.step cfg e = some s') :
    Batched cfg n s₁ r (es ++ [e]) s' := by
  cases stepTo_of_step hs with
  | @answered run second now locked op c st reply hop hc hx =>
      have hsch := h.ops run op hb hop
      obtain ⟨hres, hsp⟩ := scheduling_resume hsch (s.graph op.process) now second reply
      exact batched_exec hr h hs rfl hop hsch hc (by decide) hx rfl
        (scheduling_set hres hsp h.ops)
  | @errored run second now outcome locked op c st hop hc ho hst =>
      have hsch := h.ops run op hb hop
      obtain ⟨hab, hsp⟩ := scheduling_abort hsch second
      rcases hst with ⟨rfl, hf⟩ | ⟨rfl, reply, hx⟩
      · refine batched_same hr h hs rfl (fun q hq => ?_) (scheduling_set hab hsp h.ops)
        rw [calling_call hop hc] at hq
        obtain rfl := Option.some.inj hq
        rcases hf with rfl | hx
        · rfl
        · -- the database refuses insertions only
          obtain ⟨id, dto, rfl⟩ := Store.create_of_exec_none hx
          rcases hsch with rfl | ⟨job, delayMs, rfl⟩ | ⟨id', again, rfl⟩ <;>
            cases second <;> cases hc
      · exact batched_exec hr h hs rfl hop hsch hc (by decide) hx rfl
          (scheduling_set hab hsp h.ops)
  | crash =>
      exact batched_same hr h hs rfl (fun q hq => by cases hq)
        (scheduling_set (.inl rfl) rfl h.ops)
  | _ => exact absurd hb id

/-- **The claim**: the row of every job of the batch is `QUEUED`, and its `add` is to come. -/
theorem batched_claim {i : ℕ} {now : Time} {outcome : Outcome} {locked : List JobId}
    (hi : s.ops[i]? = some .scheduleReadyJobs) (ho : outcome ≠ .fail)
    (hs : s.step cfg (.call i false now outcome locked) = some s₁) {r : Job}
    (hr : r ∈ (claimPendingJobs s.store.jobs now cfg.batchSize locked).2) :
    Batched cfg s.ops.length s₁ r [] s₁ := by
  have hrow : ∀ {st : Store},
      st = { s.store with jobs := (claimPendingJobs s.store.jobs now cfg.batchSize locked).1 } →
      ∃ r', st.jobs.find? r.id = some r' ∧ r'.dependencyCount = r.dependencyCount ∧
        r'.resolvedDependencyCount = r.resolvedDependencyCount ∧ r'.status = .queued := by
    rintro st rfl
    obtain ⟨r₀, -, -, rfl⟩ := mem_claimPendingJobs hr
    exact ⟨_, find?_of_mem_claim hr, rfl, rfl, rfl⟩
  have hlen : ∀ {j : ℕ} {op : Op} {l : List Op}, s.ops.length ≤ j →
      (s.ops.set i .finished ++ l)[j]? = some op → op ∈ l := by
    intro j op l hj hop
    rw [List.getElem?_append_right (by rwa [List.length_set])] at hop
    exact List.mem_of_getElem? hop
  obtain ⟨st, reply, -, hx, rfl⟩ | ⟨st, -, hst, rfl⟩ := step_call hs hi rfl
  · obtain ⟨hst, rfl⟩ := Prod.mk.inj (Option.some.inj hx)
    refine ⟨fun j op hj hop => ?_, hrow hst.symm, ⟨.inl, fun h => ?_⟩, by simp [seen, observe]⟩
    · obtain ⟨job, -, rfl⟩ := List.mem_map.mp (hlen hj hop)
      unfold Op.enqueueClaimed
      split_ifs
      · exact .inr (.inr ⟨_, _, rfl⟩)
      · exact .inr (.inl ⟨_, _, rfl⟩)
    · exact h.resolve_right fun h => Bool.false_ne_true h.2
  · have hst : st =
        { s.store with jobs := (claimPendingJobs s.store.jobs now cfg.batchSize locked).1 } := by
      rcases hst with ⟨-, hf | hx⟩ | ⟨-, reply, hx⟩
      · exact absurd hf ho
      · cases hx
      · exact (Prod.mk.inj (Option.some.inj hx)).1.symm
    refine ⟨fun j op hj hop => ?_, hrow hst, ⟨.inl, fun h => ?_⟩, by simp [seen, observe]⟩
    · exact absurd (hlen hj hop) List.not_mem_nil
    · exact h.resolve_right fun h => Bool.false_ne_true h.2

/-- **A claimed job is kept** exactly when it has a live entry, or its entry is not there and its
`add` takes effect, or its revert takes effect. -/
theorem batch_job_kept {i : ℕ} {now : Time} {outcome : Outcome} {locked : List JobId}
    {es : List Event} {r : Job} (hi : s.ops[i]? = some .scheduleReadyJobs) (ho : outcome ≠ .fail)
    (hs : s.step cfg (.call i false now outcome locked) = some s₁)
    (hr : r ∈ (claimPendingJobs s.store.jobs now cfg.batchSize locked).2)
    (h : Run (step cfg) (stateGuard fun _ e => BatchStep s.ops.length e) s₁ es s') :
    Kept cfg s' r.id ↔ LiveEntry s₁ r.id ∨
      (s₁.store.queue.entries.find? (.job r.id) = none ∧
        seen (step cfg) (adds cfg r.id) s₁ es = true) ∨
      seen (step cfg) (reverts cfg r.id) s₁ es = true := by
  have hinv : Run (step cfg) anyStep s₁ es s' ∧ Batched cfg s.ops.length s₁ r es s' := by
    induction h with
    | nil => exact ⟨.nil, batched_claim hi ho hs hr⟩
    | snoc _ hg hs ih => exact ⟨ih.1.snoc trivial hs, batched_step ih.1 ih.2 hg hs⟩
  obtain ⟨r', hr', hdep, hres, hstatus⟩ := hinv.2.row
  have hready : r.dependencyCount = r.resolvedDependencyCount := by
    obtain ⟨r₀, -, hclaim, rfl⟩ := mem_claimPendingJobs hr
    exact hclaim.2.2
  have hmem : r' ∈ s'.store.jobs := Table.mem_of_find? hr'
  have hid : r'.id = r.id := Table.key_of_find? hr'
  rw [← or_assoc, ← hinv.2.live]
  refine or_congr_right ⟨?_, fun hrev => ?_⟩
  · rintro ⟨r'', hr'', hid', hsel⟩
    obtain rfl := Table.key_inj hr'' hmem (hid'.trans hid.symm)
    by_contra hrev
    rw [if_neg hrev] at hstatus
    rcases hsel with ⟨t, hclaim⟩ | ⟨t, hstalled⟩
    · cases hstatus.symm.trans hclaim.1
    · cases hstatus.symm.trans (mem_findStalledJobs.mp hstalled).2.1
  · rw [if_pos hrev] at hstatus
    refine ⟨r', hmem, hid, .inl ⟨r'.scheduledAt.getD 0, hstatus, fun t ht => ?_, ?_⟩⟩
    · rw [Option.mem_def.mp ht]
      exact le_rfl
    · rw [hdep, hres, hready]

def polled : List Event :=
  [.start (.submitJob 0 "a" simpleDto), .call 0 false 1 .ok [], .start .scheduleReadyJobs]

def polledState : Sys := (runEvents (step {}) init polled).get (by decide)

def claimedState : Sys := (polledState.step {} (.call 1 false 2 .ok [])).get (by decide)

/-- The `add` fails, and the revert does not. -/
theorem reverted_job_kept : ∃ r s',
    r ∈ (claimPendingJobs polledState.store.jobs 2 ({} : Config).batchSize []).2 ∧ r.id = "a" ∧
    runEvents (step {}) claimedState [.call 2 false 3 .fail [], .call 2 false 4 .ok []] = some s' ∧
    Kept {} s' r.id := by
  have hr : ∃ r ∈ (claimPendingJobs polledState.store.jobs 2 ({} : Config).batchSize []).2,
      r.id = "a" ∧ seen (step {}) (reverts {} r.id) claimedState
        [.call 2 false 3 .fail [], .call 2 false 4 .ok []] = true := by decide
  obtain ⟨r, hr, hid, hrev⟩ := hr
  obtain ⟨s', hs', -⟩ := exists_run_of_check (step {})
    (stateGuard fun _ e => BatchStep polledState.ops.length e) claimedState
    [.call 2 false 3 .fail [], .call 2 false 4 .ok []] (fun _ => true) (by decide)
  refine ⟨r, s', hr, hid, hs'.runEvents_eq, ?_⟩
  exact (batch_job_kept (i := 1) (by decide) (by decide) (Option.some_get _).symm hr hs').mpr
    (.inr (.inr hrev))

/-- **Scheduling a batch loses no job**: when the operations of a batch have ended, every job of it
is kept. -/
def LosesNone (cfg : Config) : Prop :=
  ∀ es₀ es s s₁ s' i now outcome locked r, Run (step cfg) anyStep init es₀ s →
    s.ops[i]? = some .scheduleReadyJobs → outcome ≠ .fail →
    s.step cfg (.call i false now outcome locked) = some s₁ →
    Run (step cfg) (stateGuard fun _ e => BatchStep s.ops.length e) s₁ es s' →
    (∀ op ∈ s'.ops.drop s.ops.length, op.ended = true) →
    r ∈ (claimPendingJobs s.store.jobs now cfg.batchSize locked).2 → Kept cfg s' r.id

theorem not_kept (hrows : ∀ r ∈ s.store.jobs.rows, r.status = .queued)
    (hentries : ∀ en ∈ s.store.queue.entries.rows, ¬ en.state.Live) : ¬ Kept cfg s k := by
  rintro (⟨en, hen, -, hlive⟩ | ⟨r, hr, -, ⟨t, hclaim⟩ | ⟨t, hstalled⟩⟩)
  · exact hentries en hen hlive
  · cases (hrows r hr).symm.trans hclaim.1
  · cases (hrows r hr).symm.trans (mem_findStalledJobs.mp hstalled).2.1

/-- **The scheduler crashes** after its claim, and the job is lost. -/
theorem scheduler_crash_loses_job : ¬ LosesNone {} := by
  intro h
  have hr : ∃ r ∈ (claimPendingJobs polledState.store.jobs 2 ({} : Config).batchSize []).2,
      r.id = "a" := by decide
  obtain ⟨r, hr, -⟩ := hr
  obtain ⟨s, hs, -⟩ := exists_run_of_check (step {}) anyStep init polled (fun _ => true) (by decide)
  obtain rfl : s = polledState :=
    Option.some.inj (hs.runEvents_eq.symm.trans (Option.some_get _).symm)
  obtain ⟨s', hs', hp'⟩ := exists_run_of_check (step {})
    (stateGuard fun _ e => BatchStep polledState.ops.length e) claimedState [.crash 2]
    (fun s' => (∀ op ∈ s'.ops.drop polledState.ops.length, op.ended = true) ∧
      (∀ r ∈ s'.store.jobs.rows, r.status = .queued) ∧
      ∀ en ∈ s'.store.queue.entries.rows, ¬ en.state.Live) (by decide)
  obtain ⟨hend, hrows, hentries⟩ := of_decide_eq_true hp'
  exact not_kept hrows hentries (h _ _ _ _ _ 1 2 .ok [] r hs (by decide) (by decide)
    (Option.some_get _).symm hs' hend hr)

end Sys

end TaskOrchestration

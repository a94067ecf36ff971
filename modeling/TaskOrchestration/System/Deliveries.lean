import TaskOrchestration.System.Step

set_option autoImplicit false

/-!
# Deliveries

A log row is created by a run of `processJob`, a run is started by an entry that is on offer, and
an entry comes on offer in four ways: a new entry is added, by `scheduleReadyJobs` or by a replay,
or BullMQ redelivers one whose run has rejected or whose lock has stalled.

* `Queue.offers`: the entries on offer; `offers_add`, `offers_pick`, ..: what changes them;
* `Sys.outstanding`: the deliveries that have their log row still to create;
* `Sys.offered`, `Sys.created`: the delivery a step puts on offer, and the one it creates the log
  row of;
* **`outstanding_step`**: a log row is created by a delivery that was outstanding, and a delivery
  is outstanding once it was put on offer; **`attempts_step`**: the log rows after a step.
-/

namespace TaskOrchestration

/-- BullMQ hands the entry to a worker, now or when its delay is over. -/
def EntryState.onOffer : EntryState → Bool
  | waiting | prioritized | delayed => true
  | _ => false

@[simp] theorem EntryState.onOffer_active (run : ℕ) : (active run).onOffer = false := rfl
@[simp] theorem EntryState.onOffer_waiting : waiting.onOffer = true := rfl
@[simp] theorem EntryState.onOffer_delayed : delayed.onOffer = true := rfl
@[simp] theorem EntryState.onOffer_completed : completed.onOffer = false := rfl
@[simp] theorem EntryState.onOffer_failed : failed.onOffer = false := rfl

namespace Queue

variable {q q' : Queue} {id : EntryId} {e : Entry} (p : QueueJobPayload → Bool)

/-- The entries on offer whose payload satisfies `p`. -/
def offers (q : Queue) : ℕ := q.entries.rows.countP fun e => e.state.onOffer && p e.data

theorem onOffer_initialState (priority delayMs : ℕ) :
    (initialState priority delayMs).onOffer = true := by
  unfold initialState
  split_ifs <;> rfl

theorem offers_add (q : Queue) (jobId : Option JobId) (data : QueueJobPayload)
    (priority delayMs : ℕ) : (q.add jobId data priority delayMs).offers p =
      q.offers p +
        if ((q.entries.find? (q.addedId jobId)).isNone && p data) = true then 1 else 0 := by
  cases jobId <;>
    simp [offers, add, Table.countP_insertIfAbsent, newEntry, addedId, onOffer_initialState]

theorem offers_change (he : q.entries.find? id = some e) (state : EntryState)
    (attempts stalls : ℕ) :
    (q.change id state attempts stalls).offers p +
        (if (e.state.onOffer && p e.data) = true then 1 else 0) =
      q.offers p + if (state.onOffer && p e.data) = true then 1 else 0 :=
  Table.countP_update he _ (changed_id state attempts stalls) _

theorem offers_pick {run : ℕ} (h : q.pick id run = some (q', e)) :
    q'.offers p + (if p e.data = true then 1 else 0) = q.offers p := by
  obtain ⟨he, rfl⟩ := pick_eq_some h
  have hst : e.state.onOffer = true := by
    rw [pick, he] at h
    dsimp only at h
    split_ifs at h with hst
    rcases hst with hst | hst <;> rw [hst] <;> rfl
  simpa [hst] using offers_change p he (.active run) 0 0

/-- BullMQ redelivers the entry of a run that has rejected. -/
def redelivered (q : Queue) (attempts : ℕ) (id : EntryId) (run : ℕ) (rejected : Bool) :
    Option QueueJobPayload :=
  (q.entries.find? id).bind fun e =>
    if e.state = .active run ∧ rejected = true ∧ e.attemptsMade + 1 < attempts then some e.data
    else none

theorem offers_settle (q : Queue) (attempts : ℕ) (id : EntryId) (run : ℕ) (rejected : Bool) :
    (q.settle attempts id run rejected).offers p =
      q.offers p + if (q.redelivered attempts id run rejected).any p = true then 1 else 0 := by
  unfold settle redelivered
  cases he : q.entries.find? id with
  | none => simp
  | some e =>
      dsimp only [Option.bind_some]
      by_cases hact : e.state = .active run
      · have hch := offers_change p he (settledState attempts rejected e) 1 0
        simp only [hact, EntryState.onOffer_active, Bool.false_and, Bool.false_eq_true, if_false,
          Nat.add_zero] at hch
        simp only [hact, if_true, true_and]
        rw [hch]
        cases rejected with
        | false => simp [settledState]
        | true => by_cases hlt : e.attemptsMade + 1 < attempts <;> simp [settledState, hlt]
      · simp [hact]

/-- BullMQ redelivers the entry whose lock has stalled. -/
def unstalled (q : Queue) (maxStalledCount : ℕ) (id : EntryId) : Option QueueJobPayload :=
  (q.entries.find? id).bind fun e => if e.stalledCount < maxStalledCount then some e.data else none

theorem offers_stall {maxStalledCount : ℕ} (h : q.stall maxStalledCount id = some q') :
    q'.offers p = q.offers p + if (q.unstalled maxStalledCount id).any p = true then 1 else 0 := by
  unfold stall at h
  unfold unstalled
  cases he : q.entries.find? id with
  | none => rw [he] at h; cases h
  | some e =>
      rw [he] at h
      dsimp only at h
      split at h
      case h_1 run hact =>
        obtain rfl := Option.some.inj h
        have hch := offers_change p he
          (if e.stalledCount < maxStalledCount then .waiting else .failed) 0 1
        simp only [hact, EntryState.onOffer_active, Bool.false_and, Bool.false_eq_true, if_false,
          Nat.add_zero] at hch
        rw [hch]
        by_cases hlt : e.stalledCount < maxStalledCount <;> simp [hlt]
      case h_2 => cases h

theorem offers_promote (h : q.promote id = some q') : q'.offers p = q.offers p := by
  obtain ⟨e, he, rfl⟩ := promote_eq_some h
  have hst : e.state = .delayed := by
    rw [promote, he] at h
    dsimp only at h
    split_ifs at h with hst
    exact hst
  have hch := offers_change p he (initialState e.priority 0) 0 0
  rw [onOffer_initialState, hst] at hch
  exact Nat.add_right_cancel hch

theorem offers_evict (h : q.evict id = some q') : q'.offers p ≤ q.offers p := by
  obtain ⟨e, he, -, rfl⟩ := evict_eq_some h
  exact Table.countP_erase_le _ _ _

/-- The payload that a call adds to the queue. -/
def newlyAdded (q : Queue) : Call → Option QueueJobPayload
  | .add jobId data _ _ => if (q.entries.find? (q.addedId jobId)).isNone then some data else none
  | _ => none

end Queue

/-- The run has its log row still to create. -/
def ProcessPc.opening : ProcessPc → Bool
  | fetch | createLog _ _ => true
  | _ => false

/-- Nothing but the read of the row leads to `createLog`, and its answer leads away from it. -/
theorem ProcessPc.of_opening_resume {g : DependencyResolver.Graph} {now : Time}
    {data : QueueJobPayload} {pc : ProcessPc} {second : Bool} {reply : Reply}
    (h : (pc.resume g now data second reply).1.opening = true) :
    pc = fetch ∨ ∃ job startedAt, pc = createLog job startedAt ∧ ∀ id, reply ≠ .log id := by
  have hafter : ∀ status n, (afterResolver status n).opening = false :=
    afterResolver_eq_false (fun _ _ => rfl) rfl rfl
  have hno : ∀ {status n}, (afterResolver status n).opening ≠ true := by
    intro status n hn
    rw [hafter status n] at hn
    cases hn
  cases pc with
  | fetch => exact .inl rfl
  | createLog job startedAt =>
      refine .inr ⟨job, startedAt, rfl, fun id he => ?_⟩
      subst he
      cases h
  | success r id t rowWritten logWritten =>
      cases rowWritten <;> cases logWritten <;> cases second <;> first
        | cases h
        | exact absurd h hno
  | failRead f =>
      rcases reply with ⟨_ | job⟩ | _ | _ | _ | _ <;> cases h
  | failLog job f =>
      dsimp only [resume] at h
      split_ifs at h <;> cases h
  | failDlq job f | notify status more => exact absurd h hno
  | _ => cases h

namespace Op

/-- A run of `processJob` that has its log row still to create, and whose payload satisfies `p`. -/
def opening (p : QueueJobPayload → Bool) : Op → Bool
  | processJob _ _ _ data pc => pc.opening && p data
  | _ => false

/-- The payload of a run that creates its log row next. -/
def opens : Op → Option QueueJobPayload
  | processJob _ _ _ data (.createLog _ _) => some data
  | _ => none

variable {cfg : Config} {op op' : Op} {p : QueueJobPayload → Bool}

theorem not_opening (h : op.isProcess = false) : op.opening p = false := by
  cases op with
  | processJob => cases h
  | _ => rfl

theorem isProcess_of_opening (h : op.opening p = true) : op.isProcess = true := by
  cases op with
  | processJob => rfl
  | _ => cases h

theorem countP_opening_spawned (g : DependencyResolver.Graph) (now : Time) (second : Bool)
    (reply : Reply) : (op.resume g now second reply).2.1.countP (opening p) = 0 := by
  rw [List.countP_eq_zero]
  intro op' h
  rw [not_opening (not_isProcess_spawned h)]
  exact Bool.false_ne_true

/-- **An answer** moves a run on that has its log row still to create, unless it was the answer to
`createLog`. -/
theorem opening_resume {g : DependencyResolver.Graph} {now : Time} {second : Bool} {c : Call}
    {st st' : Store} {locked : List JobId} {reply : Reply}
    (hc : op.pending cfg second = some c) (hx : st.exec now locked c = some (st', reply))
    (h : (op.resume g now second reply).1.opening p = true) :
    op.opening p = true ∧ op.opens = none := by
  obtain ⟨process, workerId, entry, data, pc, rfl⟩ :=
    isProcess_eq_true (isProcess_of_resume (isProcess_of_opening h))
  rw [resume, opening, Bool.and_eq_true] at h
  rcases ProcessPc.of_opening_resume h.1 with rfl | ⟨job, startedAt, rfl, hlog⟩
  · exact ⟨h.2, rfl⟩
  · cases second with
    | true => cases hc
    | false =>
        obtain rfl := Option.some.inj hc
        obtain ⟨-, rfl⟩ := Prod.mk.inj (Option.some.inj hx)
        exact absurd rfl (hlog _)

theorem not_opening_abort (second : Bool) : (op.abort second).1.opening p = false := by
  unfold abort
  split <;> rfl

theorem countP_opening_left (second : Bool) : (op.abort second).2.countP (opening p) = 0 := by
  rw [List.countP_eq_zero]
  intro op' h
  rw [not_opening (not_isProcess_left h)]
  exact Bool.false_ne_true

end Op

/-! ## Log rows -/

/-- The attempt numbers of the rows of the job `k`. -/
def attemptsOf (logs : List ExecutionLog) (k : JobId) : List ℕ :=
  (logs.filter (·.jobId = k)).map ExecutionLog.attemptNumber

/-- The attempt number that a call logs for the job `k`. -/
def Call.logged (k : JobId) : Call → List ℕ
  | createLog dto => if dto.jobId = k then [dto.attemptNumber] else []
  | _ => []

theorem attemptsOf_complete (logs : List ExecutionLog) (dto : CompleteExecutionLogDto)
    (k : JobId) : attemptsOf (logs.map fun r =>
      if r.id = dto.id then ExecutionRepository.completed dto r else r) k = attemptsOf logs k := by
  induction logs with
  | nil => rfl
  | cons r logs ih =>
      have hsame : ∀ r' : ExecutionLog, r' = (if r.id = dto.id then
          ExecutionRepository.completed dto r else r) →
          r'.jobId = r.jobId ∧ r'.attemptNumber = r.attemptNumber := by
        rintro r' rfl
        split_ifs <;> exact ⟨rfl, rfl⟩
      obtain ⟨hj, ha⟩ := hsame _ rfl
      unfold attemptsOf at ih ⊢
      by_cases hk : r.jobId = k
      · simp only [List.map_cons, List.filter_cons, hj, hk, decide_true, if_true, ha, ih]
      · simp only [List.map_cons, List.filter_cons, hj, hk, decide_false, Bool.false_eq_true,
          if_false, ih]

theorem attemptsOf_exec {st st' : Store} {now : Time} {locked : List JobId} {c : Call}
    {reply : Reply} (hx : st.exec now locked c = some (st', reply)) (k : JobId) :
    attemptsOf st'.logs k = attemptsOf st.logs k ++ c.logged k := by
  cases c with
  | create id dto =>
      obtain ⟨q, -, he⟩ := Option.map_eq_some_iff.mp hx
      obtain ⟨rfl, -⟩ := Prod.mk.inj he
      exact (List.append_nil _).symm
  | createLog dto =>
      obtain ⟨rfl, -⟩ := Prod.mk.inj (Option.some.inj hx)
      by_cases hk : dto.jobId = k <;>
        simp [attemptsOf, Call.logged, ExecutionRepository.newLog, hk]
  | completeLog dto =>
      obtain ⟨rfl, -⟩ := Prod.mk.inj (Option.some.inj hx)
      exact (attemptsOf_complete st.logs dto k).trans (List.append_nil _).symm
  | _ =>
      obtain ⟨rfl, -⟩ := Prod.mk.inj (Option.some.inj hx)
      exact (List.append_nil _).symm

theorem Op.logged_of_pending {cfg : Config} {op : Op} {second : Bool} {c : Call}
    (hc : op.pending cfg second = some c) (hop : op.tidy = true) (k : JobId) :
    c.logged k = (op.opens.toList.filter (·.jobId = k)).map QueueJobPayload.attemptNumber := by
  cases op with
  | processJob process workerId entry data pc =>
      change pc.call workerId data second = some c at hc
      unfold ProcessPc.call at hc
      split at hc
      case h_2 =>
        obtain rfl := Option.some.inj hc
        by_cases hk : data.jobId = k <;> simp [Call.logged, opens, hk]
      all_goals first
        | (obtain rfl := Option.some.inj hc; rfl)
        | cases hc
  | orphan call =>
      cases second with
      | true => cases hc
      | false =>
          obtain rfl := Option.some.inj hc
          cases call <;> first | rfl | cases hop
  | _ =>
      unfold pending at hc
      split at hc <;> first
        | exact Op.noConfusion ‹_ = _›
        | (obtain rfl := Option.some.inj hc; rfl)
        | cases hc

namespace Sys

/-- The deliveries that have their log row still to create: the runs that stand before it, and
the entries on offer. -/
def outstanding (s : Sys) (p : QueueJobPayload → Bool) : ℕ :=
  s.ops.countP (Op.opening p) + s.store.queue.offers p

/-- **The delivery that the step puts on offer.** -/
def offered (cfg : Config) (s : Sys) : Event → Option QueueJobPayload
  | .call run second now outcome locked =>
      (s.calling cfg (.call run second now outcome locked)).bind fun q =>
        if q.2.2 = .fail then none else s.store.queue.newlyAdded q.2.1
  | .settle run =>
      match s.ops[run]? with
      | some (.processJob _ _ entry _ pc) =>
          pc.ended.bind (s.store.queue.redelivered cfg.attempts entry run)
      | _ => none
  | .stall entry => s.store.queue.unstalled cfg.maxStalledCount entry
  | _ => none

/-- **The delivery that the step creates the log row of.** -/
def created (cfg : Config) (s : Sys) : Event → Option QueueJobPayload
  | .call run second now outcome locked =>
      (s.calling cfg (.call run second now outcome locked)).bind fun q =>
        if q.2.2 = .fail then none else q.1.opens
  | _ => none

/-- The attempt numbers of the log rows of the job `k`, in the order of their creation. -/
def attempts (s : Sys) (k : JobId) : List ℕ := attemptsOf s.store.logs k

variable {cfg : Config} {s s' : Sys} {e : Event}

/-! ## Steps -/

theorem countP_moveTo (p : Op → Bool) {run : ℕ} {op : Op} (op' : Op) (hop : s.ops[run]? = some op)
    (spawned : List Op) : (s.moveTo run op' spawned).ops.countP p + (if p op then 1 else 0) =
      s.ops.countP p + (if p op' then 1 else 0) + spawned.countP p := by
  have hset := LabelledRun.countP_set_add (p := p) (b := op') hop
  rw [moveTo, List.countP_append]
  omega

theorem offers_exec {st st' : Store} {now : Time} {locked : List JobId} {c : Call} {reply : Reply}
    (hx : st.exec now locked c = some (st', reply)) (p : QueueJobPayload → Bool) :
    st'.queue.offers p =
      st.queue.offers p + if (st.queue.newlyAdded c).any p = true then 1 else 0 := by
  cases c with
  | add jobId data priority delayMs =>
      obtain ⟨rfl, -⟩ := Prod.mk.inj (Option.some.inj hx)
      rw [Queue.offers_add, Queue.newlyAdded]
      cases (st.queue.entries.find? (st.queue.addedId jobId)).isNone <;> simp
  | create id dto =>
      obtain ⟨q, -, he⟩ := Option.map_eq_some_iff.mp hx
      obtain ⟨rfl, -⟩ := Prod.mk.inj he
      simp [Queue.newlyAdded]
  | _ =>
      obtain ⟨rfl, -⟩ := Prod.mk.inj (Option.some.inj hx)
      simp [Queue.newlyAdded]

theorem offered_call {run : ℕ} {second : Bool} (now : Time) (outcome : Outcome)
    (locked : List JobId) {op : Op} {c : Call} (hop : s.ops[run]? = some op)
    (hc : op.pending cfg second = some c) :
    s.offered cfg (.call run second now outcome locked) =
        (if outcome = .fail then none else s.store.queue.newlyAdded c) ∧
      s.created cfg (.call run second now outcome locked) =
        if outcome = .fail then none else op.opens := by
  simp only [offered, created, calling_call hop hc, Option.bind_some, and_self]

theorem opening_of_opens {op : Op} {p : QueueJobPayload → Bool} (h : op.opens.any p = true) :
    op.opening p = true := by
  obtain ⟨data, hd, hp⟩ := (Option.any_eq_true _ _).mp h
  unfold Op.opens at hd
  split at hd
  case h_1 =>
    obtain rfl := Option.some.inj hd
    exact hp
  case h_2 => cases hd

theorem outstanding_answered {run : ℕ} {second : Bool} {now : Time} {locked : List JobId} {op : Op}
    {c : Call} {st : Store} {reply : Reply} (hop : s.ops[run]? = some op)
    (hc : op.pending cfg second = some c) (hx : s.store.exec now locked c = some (st, reply))
    (p : QueueJobPayload → Bool) :
    (s.resumed st run now op second reply).outstanding p +
        (if op.opens.any p = true then 1 else 0) ≤
      s.outstanding p + if (s.store.queue.newlyAdded c).any p = true then 1 else 0 := by
  have hm := countP_moveTo (Op.opening p)
    (op.resume (s.graph op.process) now second reply).1 hop
    (op.resume (s.graph op.process) now second reply).2.1
  rw [Op.countP_opening_spawned, Nat.add_zero] at hm
  have hq := offers_exec hx p
  unfold outstanding
  change (s.moveTo run _ _).ops.countP _ + st.queue.offers p + _ ≤ _
  by_cases hnew : (op.resume (s.graph op.process) now second reply).1.opening p = true
  · obtain ⟨hold, hopens⟩ := Op.opening_resume hc hx hnew
    rw [hopens]
    simp only [hnew, hold, if_true, Option.any_none, Bool.false_eq_true, if_false] at hm ⊢
    omega
  · by_cases hopens : op.opens.any p = true
    · simp only [hnew, opening_of_opens hopens, hopens, if_true, Bool.false_eq_true,
        if_false] at hm ⊢
      omega
    · simp only [hnew, hopens, Bool.false_eq_true, if_false] at hm ⊢
      omega

theorem outstanding_errored {run : ℕ} {second : Bool} {now : Time} {outcome : Outcome}
    {locked : List JobId} {op : Op} {c : Call} {st : Store} (hop : s.ops[run]? = some op)
    (hst : st = s.store ∧ (outcome = .fail ∨ s.store.exec now locked c = none) ∨
      outcome = .lost ∧ ∃ reply, s.store.exec now locked c = some (st, reply))
    (p : QueueJobPayload → Bool) :
    (s.aborted st run op second).outstanding p +
        (if (if outcome = .fail then none else op.opens).any p = true then 1 else 0) ≤
      s.outstanding p +
        if (if outcome = .fail then none else s.store.queue.newlyAdded c).any p = true then 1
        else 0 := by
  have hm := countP_moveTo (Op.opening p) (op.abort second).1 hop (op.abort second).2
  rw [Op.countP_opening_left, Op.not_opening_abort] at hm
  simp only [Bool.false_eq_true, if_false, Nat.add_zero] at hm
  unfold outstanding
  change (s.moveTo run _ _).ops.countP _ + st.queue.offers p + _ ≤ _
  by_cases hfail : outcome = .fail
  · have hq : st = s.store := (hst.resolve_right fun h => by rw [hfail] at h; cases h.1).1
    simp only [hfail, if_true, Option.any_none, Bool.false_eq_true, if_false, hq]
    omega
  · rw [if_neg hfail, if_neg hfail]
    have hq : st.queue.offers p ≤ s.store.queue.offers p +
        if (s.store.queue.newlyAdded c).any p = true then 1 else 0 := by
      rcases hst with ⟨rfl, -⟩ | ⟨-, reply, hx⟩
      · exact Nat.le_add_right _ _
      · exact (offers_exec hx p).le
    by_cases hopens : op.opens.any p = true
    · simp only [opening_of_opens hopens, hopens, if_true] at hm ⊢
      omega
    · simp only [hopens, Bool.false_eq_true, if_false]
      omega

theorem countP_opening_moved {run : ℕ} {op : Op} (p : QueueJobPayload → Bool) (op' : Op)
    (hop : s.ops[run]? = some op) (hp : op'.opening p = false) :
    (s.moveTo run op' []).ops.countP (Op.opening p) ≤ s.ops.countP (Op.opening p) := by
  have hm := countP_moveTo (Op.opening p) op' hop []
  simp only [hp, Bool.false_eq_true, if_false, List.countP_nil] at hm
  omega

/-- **A step** takes from the deliveries outstanding the one whose log row it creates, and adds
the one it puts on offer. -/
theorem outstanding_step (hs : s.step cfg e = some s') (p : QueueJobPayload → Bool) :
    s'.outstanding p + (if (s.created cfg e).any p = true then 1 else 0) ≤
      s.outstanding p + if (s.offered cfg e).any p = true then 1 else 0 := by
  cases stepTo_of_step hs with
  | @answered run second now locked op c st reply hop hc hx =>
      obtain ⟨hof, hcr⟩ := offered_call now .ok locked hop hc
      rw [if_neg (show Outcome.ok ≠ .fail by decide)] at hof hcr
      rw [hof, hcr]
      exact outstanding_answered hop hc hx p
  | @errored run second now outcome locked op c st hop hc ho hst =>
      obtain ⟨hof, hcr⟩ := offered_call now outcome locked hop hc
      rw [hof, hcr]
      exact outstanding_errored hop hst p
  | @start op hr =>
      have hop : Op.opening p op = false := by cases op <;> first | rfl | exact hr.elim
      simp [outstanding, created, offered, List.countP_append, hop]
  | @pickUp process workerId entry q en hpick =>
      have hq := Queue.offers_pick p hpick
      simp only [outstanding, created, offered, Option.any_none, List.countP_append,
        List.countP_singleton, Op.opening, ProcessPc.opening, Bool.true_and, Bool.false_eq_true,
        if_false]
      omega
  | @execute run process workerId entry data job id hop =>
      have hm := countP_opening_moved p
        (.processJob process workerId entry data (.executing job id)) hop rfl
      simp only [created, offered, Option.any_none, Bool.false_eq_true, if_false]
      exact Nat.add_le_add_right hm _
  | @executed run process now result workerId entry data job id hop =>
      have hpc : (afterExecution now id result).opening = false := by
        unfold afterExecution
        split_ifs <;> rfl
      have hm := countP_opening_moved p (.processJob process workerId entry data
        (afterExecution now id result)) hop (by simp [Op.opening, hpc])
      simp only [created, offered, Option.any_none, Bool.false_eq_true, if_false]
      exact Nat.add_le_add_right hm _
  | @executeRejected run process workerId entry data job id hop =>
      have hm := countP_opening_moved p (.processJob process workerId entry data .rejected) hop rfl
      simp only [created, offered, Option.any_none, Bool.false_eq_true, if_false]
      exact Nat.add_le_add_right hm _
  | @settle run process workerId entry data pc rejected hop hended =>
      have hof : s.offered cfg (.settle run) =
          s.store.queue.redelivered cfg.attempts entry run rejected := by
        simp only [offered, hop, hended, Option.bind_some]
      rw [hof, show s.created cfg (.settle run) = none from rfl]
      have hm := countP_opening_moved p .finished hop rfl
      have hq := Queue.offers_settle p s.store.queue cfg.attempts entry run rejected
      simp only [outstanding, Option.any_none, Bool.false_eq_true, if_false]
      omega
  | @stall entry q hstall =>
      rw [show s.offered cfg (.stall entry) =
        s.store.queue.unstalled cfg.maxStalledCount entry from rfl,
        show s.created cfg (.stall entry) = none from rfl]
      have hq := Queue.offers_stall p hstall
      simp only [outstanding, Option.any_none, Bool.false_eq_true, if_false]
      omega
  | @promote entry q hpro =>
      have hq := Queue.offers_promote p hpro
      simp only [outstanding, created, offered, Option.any_none, Bool.false_eq_true, if_false]
      omega
  | @evict entry q hev =>
      have hq := Queue.offers_evict p hev
      simp only [outstanding, created, offered, Option.any_none, Bool.false_eq_true, if_false]
      omega
  | @crash run =>
      have hm : (s.moveTo run .finished []).ops.countP (Op.opening p) ≤
          s.ops.countP (Op.opening p) := by
        cases hop : s.ops[run]? with
        | some op => exact countP_opening_moved p .finished hop rfl
        | none =>
            have hlen := List.getElem?_eq_none_iff.mp hop
            rw [moveTo, List.append_nil, List.set_eq_of_length_le hlen]
      simp only [created, offered, Option.any_none, Bool.false_eq_true, if_false]
      exact Nat.add_le_add_right hm _
  | restart => simp [outstanding, created, offered]

/-- **The log rows of a job after a step**: one more, if the step creates it. -/
theorem attempts_step (h : Tidy s) (hs : s.step cfg e = some s') (k : JobId) :
    s'.attempts k = s.attempts k ++
      ((s.created cfg e).toList.filter (·.jobId = k)).map QueueJobPayload.attemptNumber := by
  cases stepTo_of_step hs with
  | @answered run second now locked op c st reply hop hc hx =>
      obtain ⟨-, hcr⟩ := offered_call now .ok locked hop hc
      rw [if_neg (show Outcome.ok ≠ .fail by decide)] at hcr
      rw [hcr, ← Op.logged_of_pending hc (h op (List.mem_of_getElem? hop))]
      exact attemptsOf_exec hx k
  | @errored run second now outcome locked op c st hop hc ho hst =>
      obtain ⟨-, hcr⟩ := offered_call now outcome locked hop hc
      rw [hcr]
      rcases hst with ⟨rfl, hf⟩ | ⟨rfl, reply, hx⟩
      · have hnone : ((if outcome = .fail then none else op.opens).toList.filter
            (·.jobId = k)).map QueueJobPayload.attemptNumber = [] := by
          rcases hf with rfl | hx
          · rfl
          · -- only an insertion is refused, which logs nothing
            obtain ⟨id, dto, rfl⟩ := Store.create_of_exec_none hx
            have hlog := Op.logged_of_pending hc (h op (List.mem_of_getElem? hop)) k
            split_ifs
            · rfl
            · exact hlog.symm
        rw [hnone, List.append_nil]
        rfl
      · rw [if_neg (show Outcome.lost ≠ .fail by decide),
          ← Op.logged_of_pending hc (h op (List.mem_of_getElem? hop))]
        exact attemptsOf_exec hx k
  | _ => exact (List.append_nil _).symm

end Sys

end TaskOrchestration

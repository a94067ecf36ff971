import TaskOrchestration.System.Consistent

set_option autoImplicit false

/-!
# The row and its execution log

When the runs of a job follow each other, and each one ends, the row of a job that is over has the
status of its last log row, except where an execution times out and no retries are left.

* `Undisturbed`: the runs of a job follow each other, and end; `Agrees`;
* `Aligned`: the invariant; `agree_still`, `agree_moved`: the steps that move no run on, and the
  ones that do;
* **`agree_step`**, **`row_agrees_iff`**; `timed_out_row_failed`.
-/

namespace TaskOrchestration

open JobRepository LabelledRun

/-! ## Runs that follow each other -/

namespace Op

/-- The job of a run of `processJob` that has not ended. -/
def running : Op → Option JobId
  | processJob _ _ _ data pc => if pc.ended = none then some data.jobId else none
  | _ => none

/-- The job of a run that has a status to write to a row still. -/
def writing : Op → Option JobId
  | processJob _ _ _ data pc => if pc.writing = true then some data.jobId else none
  | _ => none

/-- A run that gives up a job whose execution has timed out. -/
def givesUpTimedOut : Op → Bool
  | processJob _ _ _ _ pc => pc.givesUpTimedOut
  | _ => false

/-- The operation is no stall recovery, and no call that nobody waits for. -/
def regular : Op → Bool
  | recoverStalledJobs | recover .. | orphan _ => false
  | _ => true

variable {op op' : Op} {k : JobId}

theorem running_of_writing (h : op.writing = some k) : op.running = some k := by
  cases op with
  | processJob process workerId entry data pc =>
      rw [writing] at h
      split_ifs at h with hw
      have hend : pc.ended = none := by
        cases pc <;> first
          | rfl
          | cases hw
      rw [running, if_pos hend, h]
  | _ => cases h

theorem ended_of_call {workerId : String} {data : QueueJobPayload} {pc : ProcessPc} {second : Bool}
    {c : Call} (hc : pc.call workerId data second = some c) : pc.ended = none := by
  cases pc with
  | resolved | rejected => cases second <;> cases hc
  | _ => rfl

theorem regular_resume {g : DependencyResolver.Graph} {now : Time} {second : Bool} {reply : Reply}
    (hr : op.regular = true) (h : op' = (op.resume g now second reply).1 ∨
      op' ∈ (op.resume g now second reply).2.1) : op'.regular = true := by
  cases leads_of_resume h with
  | recoverStalledJobs | recover => cases hr
  | _ => rfl

theorem regular_abort {second : Bool} (hp : op.isProcess = false)
    (h : op' = (op.abort second).1 ∨ op' ∈ (op.abort second).2) : op'.regular = true := by
  cases leaves_of_abort h with
  | processJob | orphan => cases hp
  | _ => rfl

/-- **Only `processJob` ends a job**, stall recovery apart. -/
theorem not_terminal_of_pending {cfg : Config} {second : Bool} {c : Call} {y : JobStatus}
    (hc : op.pending cfg second = some c) (hr : op.regular = true) (hp : op.isProcess = false)
    (hy : Sys.setsStatus k c = some y) : y ∉ terminal := by
  obtain ⟨dto, rfl, hd⟩ := Sys.setsStatus_eq_some hy
  unfold pending at hc
  split at hc
  case h_1 => cases hp
  all_goals first
    | (cases hc; done)
    | (cases hr; done)
    | (cases hc; obtain rfl := Option.some.inj hd; decide)

end Op

namespace Sys

variable {cfg : Config} {s s' : Sys} {e : Event} {es : List Event}

/-- **The runs of a job follow each other**, and end: an entry is picked up when no run of its job
is under way, the calls of the runs are answered, no run crashes, and there is no stall
recovery. -/
def Undisturbed (s : Sys) : Event → Prop
  | .start op => op ≠ .recoverStalledJobs
  | .pickUp _ _ entry => ∀ en ∈ s.store.queue.entries.find? entry,
      ∀ op ∈ s.ops, op.running ≠ some en.data.jobId
  | .call run _ _ outcome _ => ∀ op ∈ s.ops[run]?, op.isProcess = true → outcome = .ok
  | .crash run => ∀ op ∈ s.ops[run]?, op.running = none
  | _ => True

instance (s : Sys) : DecidablePred (Undisturbed s)
  | .start op => inferInstanceAs (Decidable (op ≠ .recoverStalledJobs))
  | .pickUp _ _ entry => inferInstanceAs (Decidable (∀ en ∈ s.store.queue.entries.find? entry,
      ∀ op ∈ s.ops, op.running ≠ some en.data.jobId))
  | .call run _ _ outcome _ =>
      inferInstanceAs (Decidable (∀ op ∈ s.ops[run]?, op.isProcess = true → outcome = .ok))
  | .crash run => inferInstanceAs (Decidable (∀ op ∈ s.ops[run]?, op.running = none))
  | .execute _ | .executed _ _ _ | .executeRejected _ | .settle _ | .stall _ | .promote _
  | .evict _ | .restart _ => .isTrue trivial

/-- **The row agrees with the log**: outside of its runs, a job that is over has the status of its
last log row. -/
def Agrees (s : Sys) : Prop :=
  ∀ k, (∀ op ∈ s.ops, op.writing ≠ some k) →
    Settled (rowStatus s.store.jobs k) (latestLog s.store.logs k)

/-- The step is the `FAILED` update of a job whose execution has timed out. -/
def GivesUpTimedOut (cfg : Config) (s : Sys) (e : Event) : Prop :=
  ∃ q ∈ s.calling cfg e, q.1.givesUpTimedOut = true

instance (cfg : Config) (s : Sys) (e : Event) : Decidable (GivesUpTimedOut cfg s e) := by
  unfold GivesUpTimedOut; infer_instance

/-- **The invariant.** -/
structure Aligned (s : Sys) : Prop where
  ids : Indexed s.store.logs
  regular : ∀ op ∈ s.ops, op.regular = true
  single : ∀ (i j : ℕ) (op op' : Op) (k : JobId), s.ops[i]? = some op → s.ops[j]? = some op' →
    op.running = some k → op'.running = some k → i = j
  consistent : ∀ process workerId entry data pc,
    .processJob process workerId entry data pc ∈ s.ops →
      pc.Consistent (rowStatus s.store.jobs data.jobId) (latestLog s.store.logs data.jobId)

/-- What others can do to the rows of a job: they do not end it, and log nothing. -/
def Untouched (s s' : Sys) (k : JobId) : Prop :=
  (rowStatus s'.store.jobs k = rowStatus s.store.jobs k ∨ Open (rowStatus s'.store.jobs k)) ∧
    latestLog s'.store.logs k = latestLog s.store.logs k

theorem Untouched.settled {k : JobId} (h : Untouched s s' k)
    (hs : Settled (rowStatus s.store.jobs k) (latestLog s.store.logs k)) :
    Settled (rowStatus s'.store.jobs k) (latestLog s'.store.logs k) := by
  rw [h.2]
  rcases h.1 with hsame | hopen
  · rw [hsame]
    exact hs
  · exact hopen.settled _

theorem Untouched.consistent {pc : ProcessPc} {k : JobId} (h : Untouched s s' k)
    (hc : pc.Consistent (rowStatus s.store.jobs k) (latestLog s.store.logs k)) :
    pc.Consistent (rowStatus s'.store.jobs k) (latestLog s'.store.logs k) := by
  rw [h.2]
  exact hc.of_open h.1

/-- Where an operation after a step comes from, when the step moves no run on. -/
def Arrives (s : Sys) (i : ℕ) (op : Op) : Prop :=
  s.ops[i]? = some op ∨ (op.isProcess = false ∧ op.regular = true) ∨
    (i = s.ops.length ∧ ∃ process workerId entry data,
      op = .processJob process workerId entry data .fetch ∧
        ∀ op' ∈ s.ops, op'.running ≠ some data.jobId)

theorem not_running {op : Op} (h : op.isProcess = false) : op.running = none := by
  cases op with
  | processJob => cases h
  | _ => rfl

/-- **A step that moves no run on** keeps the agreement. -/
theorem agree_still (hI : Aligned s) (hP : Agrees s) (hids : Indexed s'.store.logs)
    (hrows : ∀ k, Untouched s s' k)
    (hnew : ∀ (i : ℕ) (op : Op), s'.ops[i]? = some op → Arrives s i op)
    (hold : ∀ (i : ℕ) (op : Op), s.ops[i]? = some op → op.running ≠ none → s'.ops[i]? = some op) :
    Aligned s' ∧ Agrees s' := by
  refine ⟨⟨hids, fun op hop => ?_, fun i j op op' k hi hj hk hk' => ?_,
    fun process workerId entry data pc hop => ?_⟩, fun k hno => ?_⟩
  · obtain ⟨i, hi⟩ := List.mem_iff_getElem?.mp hop
    rcases hnew i op hi with h | h | ⟨-, _, _, _, _, rfl, -⟩
    · exact hI.regular op (List.mem_of_getElem? h)
    · exact h.2
    · rfl
  · rcases hnew i op hi with h | h | ⟨rfl, _, _, _, data, rfl, hfree⟩
    · rcases hnew j op' hj with h' | h' | ⟨-, _, _, _, data, rfl, hfree⟩
      · exact hI.single i j op op' k h h' hk hk'
      · rw [not_running h'.1] at hk'
        cases hk'
      · rw [show k = data.jobId from (Option.some.inj hk').symm] at hk
        exact absurd hk (hfree op (List.mem_of_getElem? h))
    · rw [not_running h.1] at hk
      cases hk
    · rcases hnew j op' hj with h' | h' | ⟨rfl, -⟩
      · rw [show k = data.jobId from (Option.some.inj hk).symm] at hk'
        exact absurd hk' (hfree op' (List.mem_of_getElem? h'))
      · rw [not_running h'.1] at hk'
        cases hk'
      · rfl
  · obtain ⟨i, hi⟩ := List.mem_iff_getElem?.mp hop
    rcases hnew i _ hi with h | h | ⟨-, _, _, _, _, he, -⟩
    · exact (hrows _).consistent (hI.consistent _ _ _ _ _ (List.mem_of_getElem? h))
    · cases h.1
    · cases he
      trivial
  · refine (hrows k).settled (hP k fun op hop hw => ?_)
    obtain ⟨i, hi⟩ := List.mem_iff_getElem?.mp hop
    have hrun : op.running ≠ none := by
      rw [Op.running_of_writing hw]
      exact Option.some_ne_none k
    exact hno op (List.mem_of_getElem? (hold i op hi hrun)) hw

section Moved

variable {run process : ℕ} {workerId : String} {entry : EntryId} {data : QueueJobPayload}
  {pc pc' : ProcessPc}

theorem op_of_moved (hI : Aligned s)
    (hop : s.ops[run]? = some (.processJob process workerId entry data pc))
    (hend : pc.ended = none)
    (hops : s'.ops = s.ops.set run (.processJob process workerId entry data pc')) {i : ℕ} {op : Op}
    (hi : s'.ops[i]? = some op) :
    (i = run ∧ op = .processJob process workerId entry data pc') ∨
      (s.ops[i]? = some op ∧ op.running ≠ some data.jobId) := by
  obtain ⟨hlt, -⟩ := List.getElem?_eq_some_iff.mp hop
  have hrun : (Op.processJob process workerId entry data pc).running = some data.jobId := by
    rw [Op.running, if_pos hend]
  rw [hops] at hi
  by_cases hir : run = i
  · subst hir
    rw [List.getElem?_set_self hlt] at hi
    exact .inl ⟨rfl, (Option.some.inj hi).symm⟩
  · rw [List.getElem?_set_ne hir] at hi
    exact .inr ⟨hi, fun hk => hir (hI.single run i _ op _ hop hi hrun hk)⟩

theorem aligned_moved (hI : Aligned s)
    (hop : s.ops[run]? = some (.processJob process workerId entry data pc))
    (hend : pc.ended = none)
    (hops : s'.ops = s.ops.set run (.processJob process workerId entry data pc'))
    (hids : Indexed s'.store.logs) (hans : ProcessPc.Answered data.jobId s'.store pc pc')
    (hrows : ∀ k, data.jobId ≠ k → Untouched s s' k) : Aligned s' := by
  have hnew : ∀ k, (Op.processJob process workerId entry data pc').running = some k →
      k = data.jobId := by
    intro k hk
    rw [Op.running] at hk
    split_ifs at hk
    exact (Option.some.inj hk).symm
  refine ⟨hids, fun op hmem => ?_, fun i j op op' k hi hj hk hk' => ?_,
    fun process₂ workerId₂ entry₂ data₂ pc₂ hmem => ?_⟩
  · obtain ⟨i, hi⟩ := List.mem_iff_getElem?.mp hmem
    rcases op_of_moved hI hop hend hops hi with ⟨-, rfl⟩ | ⟨h, -⟩
    · rfl
    · exact hI.regular op (List.mem_of_getElem? h)
  · rcases op_of_moved hI hop hend hops hi with ⟨rfl, rfl⟩ | ⟨h, hne⟩
    · obtain rfl := hnew k hk
      rcases op_of_moved hI hop hend hops hj with ⟨rfl, -⟩ | ⟨-, hne⟩
      · rfl
      · exact absurd hk' hne
    · rcases op_of_moved hI hop hend hops hj with ⟨rfl, rfl⟩ | ⟨h', -⟩
      · obtain rfl := hnew k hk'
        exact absurd hk hne
      · exact hI.single i j op op' k h h' hk hk'
  · obtain ⟨i, hi⟩ := List.mem_iff_getElem?.mp hmem
    rcases op_of_moved hI hop hend hops hi with ⟨-, he⟩ | ⟨h, hne⟩
    · cases he
      exact hans.1
    · by_cases hk : data.jobId = data₂.jobId
      · have hended : pc₂.ended ≠ none := by
          intro hn
          apply hne
          rw [Op.running, if_pos hn, hk]
        cases pc₂ with
        | resolved | rejected => trivial
        | _ => exact absurd rfl hended
      · exact (hrows _ hk).consistent (hI.consistent _ _ _ _ _ (List.mem_of_getElem? h))

/-- **A step that moves one run on** keeps the agreement, unless it gives up a job whose execution
has timed out. -/
theorem agree_moved (hI : Aligned s) (hP : Agrees s)
    (hop : s.ops[run]? = some (.processJob process workerId entry data pc))
    (hend : pc.ended = none)
    (hops : s'.ops = s.ops.set run (.processJob process workerId entry data pc'))
    (hids : Indexed s'.store.logs) (hans : ProcessPc.Answered data.jobId s'.store pc pc')
    (hgive : pc.givesUpTimedOut = true → pc'.writing = false)
    (hrows : ∀ k, data.jobId ≠ k → Untouched s s' k) :
    Aligned s' ∧ (Agrees s' ↔ pc.givesUpTimedOut = false) := by
  obtain ⟨hlt, -⟩ := List.getElem?_eq_some_iff.mp hop
  refine ⟨aligned_moved hI hop hend hops hids hans hrows, fun hA => ?_, fun hg k hno => ?_⟩
  · by_contra hg
    have hw := hgive (Bool.eq_true_of_not_eq_false hg)
    refine hg ((hans.2 hw).mp (hA data.jobId fun op hmem hwr => ?_))
    obtain ⟨i, hi⟩ := List.mem_iff_getElem?.mp hmem
    rcases op_of_moved hI hop hend hops hi with ⟨-, rfl⟩ | ⟨-, hne⟩
    · rw [Op.writing, hw] at hwr
      cases hwr
    · exact hne (Op.running_of_writing hwr)
  · by_cases hk : data.jobId = k
    · subst hk
      refine (hans.2 ?_).mpr hg
      have hmem : Op.processJob process workerId entry data pc' ∈ s'.ops :=
        List.mem_of_getElem? (i := run) (by rw [hops, List.getElem?_set_self hlt])
      have hnw := hno _ hmem
      rw [Op.writing] at hnw
      split_ifs at hnw with hw
      · exact absurd rfl hnw
      · exact Bool.eq_false_of_not_eq_true hw
    · refine (hrows k hk).settled (hP k fun op hmem hw => ?_)
      obtain ⟨i, hi⟩ := List.mem_iff_getElem?.mp hmem
      by_cases hir : run = i
      · subst hir
        obtain rfl := Option.some.inj (hop.symm.trans hi)
        have hkd := Op.running_of_writing hw
        rw [Op.running, if_pos hend] at hkd
        exact hk (Option.some.inj hkd)
      · refine hno op (List.mem_of_getElem? (i := i) ?_) hw
        rw [hops, List.getElem?_set_ne hir, hi]

end Moved

/-- A run that gives up a job has no status to write after that. -/
theorem not_writing_of_givesUp {g : DependencyResolver.Graph} {now : Time}
    {data : QueueJobPayload} {pc : ProcessPc} {second : Bool} {reply : Reply}
    (h : pc.givesUpTimedOut = true) : (pc.resume g now data second reply).1.writing = false := by
  cases pc with
  | failFinal job f => rfl
  | _ => cases h

theorem untouched_of_eq {k : JobId} (h : s'.store.jobs = s.store.jobs)
    (h' : s'.store.logs = s.store.logs) : Untouched s s' k := by
  unfold Untouched
  rw [h, h']
  exact ⟨.inl rfl, rfl⟩

theorem untouched_of_call {second : Bool} {now : Time} {locked : List JobId} {op : Op} {c : Call}
    {st : Store} {reply : Reply} {k : JobId} (hc : op.pending cfg second = some c)
    (hr : op.regular = true) (hp : op.isProcess = false)
    (hx : s.store.exec now locked c = some (st, reply)) (hst : s'.store = st) :
    Untouched s s' k := by
  subst hst
  refine ⟨rowStatus_exec hx fun y hy => Op.not_terminal_of_pending hc hr hp hy, ?_⟩
  have hlogs : s'.store.logs = s.store.logs := by
    apply logs_exec hx
    all_goals
      rintro dto rfl
      unfold Op.pending at hc
      split at hc <;> first
        | (cases hc; done)
        | (cases hp; done)
        | cases hr
  rw [hlogs]

theorem arrives_moved {run : ℕ} {op₁ : Op} {l : List Op}
    (hrun : ∀ op, s.ops[run]? = some op → op.running = none)
    (hop₁ : op₁.isProcess = false ∧ op₁.regular = true)
    (hl : ∀ op ∈ l, op.isProcess = false ∧ op.regular = true)
    (hops : s'.ops = s.ops.set run op₁ ++ l) :
    (∀ (i : ℕ) (op : Op), s'.ops[i]? = some op → Arrives s i op) ∧
      ∀ (i : ℕ) (op : Op), s.ops[i]? = some op → op.running ≠ none → s'.ops[i]? = some op := by
  rw [hops]
  constructor
  · intro i op hi
    rcases of_getElem?_set_append hi with ⟨-, hi⟩ | ⟨-, rfl⟩ | hmem
    · exact .inl hi
    · exact .inr (.inl hop₁)
    · exact .inr (.inl (hl op hmem))
  · intro i op hi hne
    have hir : run ≠ i := by
      rintro rfl
      exact hne (hrun op hi)
    exact getElem?_set_append_of_ne hir hi _ _

theorem jobId_of_setsStatus {workerId : String} {data : QueueJobPayload} {pc : ProcessPc}
    {second : Bool} {c : Call} {k : JobId} {y : JobStatus}
    (hc : pc.call workerId data second = some c) (hy : setsStatus k c = some y) :
    data.jobId = k := by
  obtain ⟨dto, rfl, -⟩ := setsStatus_eq_some hy
  unfold ProcessPc.call at hc
  split at hc <;> first
    | (cases hc; done)
    | (cases hc; rfl)

/-- **An answer** keeps the agreement, unless it is the one to the `FAILED` update of a job whose
execution has timed out. -/
theorem agree_answered {run : ℕ} {second : Bool} {now : Time} {locked : List JobId} {op : Op}
    {c : Call} {st : Store} {reply : Reply} (hI : Aligned s) (hP : Agrees s)
    (hop : s.ops[run]? = some op) (hc : op.pending cfg second = some c)
    (hx : s.store.exec now locked c = some (st, reply)) :
    Aligned (s.resumed st run now op second reply) ∧
      (Agrees (s.resumed st run now op second reply) ↔ op.givesUpTimedOut = false) := by
  have hids := indexed_exec hI.ids hx
  have hreg := hI.regular op (List.mem_of_getElem? hop)
  cases hp : op.isProcess with
  | true =>
      obtain ⟨process, workerId, entry, data, pc, rfl⟩ := Op.isProcess_eq_true hp
      have hend := Op.ended_of_call hc
      have hcons := hI.consistent _ _ _ _ _ (List.mem_of_getElem? hop)
      have hset : pc.writing = false → Settled (rowStatus s.store.jobs data.jobId)
          (latestLog s.store.logs data.jobId) := by
        intro hw
        refine hP _ fun op' hmem hwr => ?_
        obtain ⟨i, hi⟩ := List.mem_iff_getElem?.mp hmem
        have hir := hI.single i run _ _ _ hi hop (Op.running_of_writing hwr) (if_pos hend)
        rw [hir, hop] at hi
        rw [← Option.some.inj hi, Op.writing, hw] at hwr
        cases hwr
      refine agree_moved hI hP hop hend (List.append_nil _) hids
        (ProcessPc.answered_call hc hx hcons hset) not_writing_of_givesUp fun k hk => ⟨?_, ?_⟩
      · exact rowStatus_exec hx fun y hy => absurd (jobId_of_setsStatus hc hy) hk
      · exact latestLog_exec_ne hI.ids hc hx hcons hk
  | false =>
      have hres : (op.resume (s.graph op.process) now second reply).1.isProcess = false := by
        apply Bool.eq_false_of_not_eq_true
        intro h
        rw [Op.isProcess_of_resume h] at hp
        cases hp
      have hops : (s.resumed st run now op second reply).ops = _ ++ _ := rfl
      obtain ⟨hnew, hold⟩ := arrives_moved
        (fun op' h => by rw [← Option.some.inj (hop.symm.trans h), not_running hp])
        ⟨hres, Op.regular_resume hreg (.inl rfl)⟩
        (fun op' h => ⟨Op.not_isProcess_spawned h, Op.regular_resume hreg (.inr h)⟩) hops
      obtain ⟨hI', hP'⟩ := agree_still hI hP hids
        (fun k => untouched_of_call hc hreg hp hx rfl) hnew hold
      have hg : op.givesUpTimedOut = false := by
        cases op with
        | processJob => cases hp
        | _ => rfl
      exact ⟨hI', iff_of_true hP' hg⟩

theorem agree_errored {run : ℕ} {second : Bool} {now : Time} {locked : List JobId} {op : Op}
    {c : Call} {st : Store} (hI : Aligned s) (hP : Agrees s)
    (hop : s.ops[run]? = some op) (hp : op.isProcess = false) (hc : op.pending cfg second = some c)
    (hst : st = s.store ∨ ∃ reply, s.store.exec now locked c = some (st, reply)) :
    Aligned (s.aborted st run op second) ∧ Agrees (s.aborted st run op second) := by
  have hreg := hI.regular op (List.mem_of_getElem? hop)
  have habort : (op.abort second).1.isProcess = false := by
    apply Bool.eq_false_of_not_eq_true
    intro h
    rw [Op.isProcess_of_abort h] at hp
    cases hp
  have hops : (s.aborted st run op second).ops = _ ++ _ := rfl
  obtain ⟨hnew, hold⟩ := arrives_moved
    (fun op' h => by rw [← Option.some.inj (hop.symm.trans h), not_running hp])
    ⟨habort, Op.regular_abort hp (.inl rfl)⟩
    (fun op' h => ⟨Op.not_isProcess_left h, Op.regular_abort hp (.inr h)⟩) hops
  rcases hst with rfl | ⟨reply, hx⟩
  · exact agree_still hI hP hI.ids (fun k => untouched_of_eq rfl rfl) hnew hold
  · exact agree_still hI hP (indexed_exec hI.ids hx)
      (fun k => untouched_of_call hc hreg hp hx rfl) hnew hold

theorem agree_executing {run process : ℕ} {workerId : String} {entry : EntryId}
    {data : QueueJobPayload} {pc pc' : ProcessPc} (hI : Aligned s) (hP : Agrees s)
    (hop : s.ops[run]? = some (.processJob process workerId entry data pc))
    (hw : pc.writing = true) (hg : pc.givesUpTimedOut = false) (hst : s'.store = s.store)
    (hops : s'.ops = s.ops.set run (.processJob process workerId entry data pc'))
    (hcons : pc.Consistent (rowStatus s.store.jobs data.jobId) (latestLog s.store.logs data.jobId) →
      ProcessPc.Answered data.jobId s.store pc pc') :
    Aligned s' ∧ Agrees s' := by
  have hrun : (Op.processJob process workerId entry data pc).writing = some data.jobId := by
    rw [Op.writing, if_pos hw]
  have hend : pc.ended = none := by
    have h := Op.running_of_writing hrun
    rw [Op.running] at h
    split_ifs at h with hend
    exact hend
  have hans := hcons (hI.consistent _ _ _ _ _ (List.mem_of_getElem? hop))
  rw [← hst] at hans
  obtain ⟨hI', hiff⟩ := agree_moved hI hP hop hend hops (hst ▸ hI.ids) hans
    (fun h => absurd (hg.symm.trans h) (by decide))
    fun k _ => untouched_of_eq (by rw [hst]) (by rw [hst])
  exact ⟨hI', hiff.mpr hg⟩

theorem agree_same (hI : Aligned s) (hP : Agrees s) (hops : s'.ops = s.ops)
    (hjobs : s'.store.jobs = s.store.jobs) (hlogs : s'.store.logs = s.store.logs) :
    Aligned s' ∧ Agrees s' :=
  agree_still hI hP (hlogs ▸ hI.ids) (fun _ => untouched_of_eq hjobs hlogs)
    (fun _ _ hi => .inl (hops ▸ hi)) fun _ _ hi _ => hops ▸ hi

theorem agree_started {op : Op} (hI : Aligned s) (hP : Agrees s) (hops : s'.ops = s.ops ++ [op])
    (harr : Arrives s s.ops.length op) (hjobs : s'.store.jobs = s.store.jobs)
    (hlogs : s'.store.logs = s.store.logs) : Aligned s' ∧ Agrees s' := by
  refine agree_still hI hP (hlogs ▸ hI.ids) (fun _ => untouched_of_eq hjobs hlogs)
    (fun i op' hi => ?_) fun i op' hi _ => ?_
  · rw [hops] at hi
    rcases of_getElem?_append_singleton hi with hi | ⟨rfl, rfl⟩
    · exact .inl hi
    · exact harr
  · rw [hops]
    exact getElem?_append_of_some hi _

theorem agree_finished {run : ℕ} (hI : Aligned s) (hP : Agrees s)
    (hrun : ∀ op, s.ops[run]? = some op → op.running = none)
    (hops : s'.ops = s.ops.set run .finished ++ []) (hjobs : s'.store.jobs = s.store.jobs)
    (hlogs : s'.store.logs = s.store.logs) : Aligned s' ∧ Agrees s' := by
  obtain ⟨hnew, hold⟩ := arrives_moved hrun ⟨rfl, rfl⟩ (fun _ h => absurd h List.not_mem_nil) hops
  exact agree_still hI hP (hlogs ▸ hI.ids) (fun _ => untouched_of_eq hjobs hlogs) hnew hold

/-- **A step** keeps the agreement exactly if it does not give up a job whose execution has timed
out. -/
theorem agree_step (hI : Aligned s) (hP : Agrees s) (hu : Undisturbed s e)
    (hs : s.step cfg e = some s') : Aligned s' ∧ (Agrees s' ↔ ¬ GivesUpTimedOut cfg s e) := by
  have hkept : s.calling cfg e = none → Aligned s' ∧ Agrees s' →
      Aligned s' ∧ (Agrees s' ↔ ¬ GivesUpTimedOut cfg s e) := by
    rintro hn ⟨hI', hP'⟩
    refine ⟨hI', iff_of_true hP' ?_⟩
    rintro ⟨q, hq, -⟩
    rw [hn] at hq
    cases hq
  cases stepTo_of_step hs with
  | @answered run second now locked op c st reply hop hc hx =>
      obtain ⟨hI', hiff⟩ := agree_answered hI hP hop hc hx
      refine ⟨hI', hiff.trans ?_⟩
      unfold GivesUpTimedOut
      rw [calling_call hop hc]
      simp
  | @errored run second now outcome locked op c st hop hc ho hst =>
      have hp : op.isProcess = false := by
        apply Bool.eq_false_of_not_eq_true
        intro hp
        obtain ⟨id, dto, rfl⟩ := Store.create_of_exec_none (ho (hu op hop hp))
        obtain ⟨process, workerId, entry, data, pc, rfl⟩ := Op.isProcess_eq_true hp
        change pc.call workerId data second = _ at hc
        unfold ProcessPc.call at hc
        split at hc <;> cases hc
      obtain ⟨hI', hP'⟩ := agree_errored hI hP hop hp hc (hst.imp And.left And.right)
      refine ⟨hI', iff_of_true hP' ?_⟩
      rintro ⟨q, hq, hg⟩
      rw [calling_call hop hc] at hq
      obtain rfl := Option.some.inj hq
      cases op with
      | processJob => cases hp
      | _ => cases hg
  | @start op hr =>
      have harr : Arrives s s.ops.length op := by
        refine .inr (.inl ?_)
        cases op with
        | recoverStalledJobs => exact absurd rfl hu
        | _ => first
            | exact ⟨rfl, rfl⟩
            | exact hr.elim
      exact hkept rfl (agree_started hI hP rfl harr rfl rfl)
  | @pickUp process workerId entry q en hpick =>
      obtain ⟨hen, -⟩ := Queue.pick_eq_some hpick
      have harr : Arrives s s.ops.length (.processJob process workerId entry en.data .fetch) :=
        .inr (.inr ⟨rfl, process, workerId, entry, en.data, rfl, hu en hen⟩)
      exact hkept rfl (agree_started hI hP rfl harr rfl rfl)
  | @execute run process workerId entry data job id hop =>
      exact hkept rfl (agree_executing hI hP hop rfl rfl rfl (List.append_nil _)
        fun h => ProcessPc.answered_of_writing h rfl)
  | @executed run process now result workerId entry data job id hop =>
      refine hkept rfl (agree_executing hI hP hop rfl rfl rfl (List.append_nil _) fun h => ?_)
      obtain ⟨hopen, log, hl, hid⟩ := h
      unfold afterExecution
      split_ifs
      · refine ProcessPc.answered_of_writing ⟨?_, fun y hy ht => ?_, log, hl, hid, nofun⟩ rfl
        · obtain ⟨y, hy, -⟩ := hopen
          exact Option.isSome_of_eq_some hy
        · obtain ⟨z, hz, hn⟩ := hopen
          exact absurd (Option.some.inj (hy.symm.trans hz) ▸ ht) hn
      · exact ProcessPc.answered_of_writing ⟨hopen, ⟨log, hl, hid⟩, .inr rfl⟩ rfl
      · exact ProcessPc.answered_of_writing ⟨hopen, ⟨log, hl, hid⟩, .inl rfl⟩ rfl
  | @executeRejected run process workerId entry data job id hop =>
      exact hkept rfl (agree_executing hI hP hop rfl rfl rfl (List.append_nil _)
        fun h => ProcessPc.answered_of_settled trivial rfl (h.1.settled _))
  | @settle run process workerId entry data pc rejected hop hended =>
      refine hkept rfl (agree_finished hI hP (fun op h => ?_) rfl rfl rfl)
      rw [← Option.some.inj (hop.symm.trans h), Op.running, if_neg]
      rw [hended]
      exact Option.some_ne_none _
  | crash => exact hkept rfl (agree_finished hI hP hu rfl rfl rfl)
  | stall | promote | evict | restart => exact hkept rfl (agree_same hI hP rfl rfl rfl)

theorem aligned_init : Aligned init where
  ids := fun _ _ h => by cases h
  regular := fun _ h => absurd h List.not_mem_nil
  single := fun _ _ _ _ _ h => by cases h
  consistent := fun _ _ _ _ _ h => absurd h List.not_mem_nil

theorem agrees_init : Agrees init := by
  intro k _ y hy
  cases hy

/-- **The row agrees with the log** all along an undisturbed run exactly when no step of it gives
up a job whose execution has timed out. -/
theorem row_agrees_iff (h : Run (step cfg) (stateGuard Undisturbed) init es s) :
    Always (step cfg) init Agrees es ↔
      Run (step cfg) (stateGuard fun s e => ¬ GivesUpTimedOut cfg s e) init es s := by
  apply h.always_iff (I := Aligned) aligned_init agrees_init
  intro es s e s' hI hP hu hs
  exact agree_step hI hP hu hs

theorem last_attempt_agrees : ∃ s, runEvents (step {}) init lastAttempt = some s ∧
    Always (step {}) init Agrees lastAttempt ∧ rowStatus s.store.jobs "a" = some .failed := by
  obtain ⟨s, hs, hp⟩ := exists_run_of_check (step {})
    (stateGuard fun s e => Undisturbed s e ∧ ¬ GivesUpTimedOut {} s e) init lastAttempt
    (fun s => rowStatus s.store.jobs "a" = some .failed) (by decide)
  have hu : Run (step {}) (stateGuard Undisturbed) init lastAttempt s := hs.mono fun _ _ _ h => h.1
  exact ⟨s, hs.runEvents_eq, (row_agrees_iff hu).mpr (hs.mono fun _ _ _ h => h.2),
    of_decide_eq_true hp⟩

/-- A job without retries times out, and is moved to the dead letter queue. -/
def timedOutOnce : List Event :=
  [.start (.submitJob 0 "a" { simpleDto with retryConfig := some { maxRetries := some 0 } }),
    .call 0 false 1 .ok [], .start .scheduleReadyJobs, .call 1 false 2 .ok [],
    .call 2 false 3 .ok [], .pickUp 1 "w" (.job "a")] ++ executes 3 ++
    [.executed 3 7 { success := false, errorCode := some "JOB_TIMEOUT" }, .call 3 false 8 .ok [],
      .call 3 false 9 .ok [], .call 3 false 10 .ok [], .call 3 false 11 .ok [], .settle 3]

/-- **The row says `FAILED`, and the log `TIMED_OUT`.** -/
theorem timed_out_row_failed :
    ∃ s, Run (step {}) (stateGuard Undisturbed) init timedOutOnce s ∧ ¬ Agrees s := by
  obtain ⟨s, hs, hp⟩ := exists_run_of_check (step {}) (stateGuard Undisturbed) init timedOutOnce
    (fun s => (∀ op ∈ s.ops, op = .finished) ∧ rowStatus s.store.jobs "a" = some .failed ∧
      (latestLog s.store.logs "a").map ExecutionLog.status = some .timedOut) (by decide)
  obtain ⟨hops, hrow, hlog⟩ := of_decide_eq_true hp
  refine ⟨s, hs, fun h => ?_⟩
  have hset := h "a" fun op hop hw => by
    rw [hops op hop] at hw
    cases hw
  obtain ⟨log, hl, htext⟩ := hset .failed hrow (by decide)
  rw [Option.mem_def.mp hl, Option.map_some] at hlog
  rw [Option.some.inj hlog] at htext
  exact absurd htext (by decide)

end Sys

end TaskOrchestration

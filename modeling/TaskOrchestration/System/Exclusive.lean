import TaskOrchestration.System.Enqueue

set_option autoImplicit false

/-!
# One run at a time

A worker takes an entry that waits, and holds it until its run is acknowledged or its lock stalls.
As long as no lock stalls while its run is still under way, the runs under way hold different
entries; and as long as nothing is replayed, a job has one entry, and so one run.

* `Op.delivery`, `Sys.delivery`: the entry and the payload of the run under way at a place;
* **`delivery_step`**, **`entry_step`**: where the runs and the entries after a step come from;
* `find?_active_step`: an active entry is left alone until its run is acknowledged or its lock
  stalls;
* `Holds`: every run holds its entry; **`entry_exclusive`**;
* `Keyed`: every entry has the id of its job; **`job_exclusive`**.
-/

namespace TaskOrchestration

open LabelledRun

/-- The entry and the payload of a run of `processJob`. -/
def Op.delivery : Op → Option (EntryId × QueueJobPayload)
  | processJob _ _ entry data _ => some (entry, data)
  | _ => none

theorem Op.delivery_resume {op : Op} {g : DependencyResolver.Graph} {now : Time} {second : Bool}
    {reply : Reply} {p : EntryId × QueueJobPayload}
    (h : (op.resume g now second reply).1.delivery = some p) : op.delivery = some p := by
  have hl := leads_of_resume (.inl (Eq.refl (op.resume g now second reply).1))
  generalize (op.resume g now second reply).1 = op' at h hl
  cases hl with
  | processJob => exact h
  | _ => cases h

theorem Op.delivery_abort {op : Op} {second : Bool} {p : EntryId × QueueJobPayload}
    (h : (op.abort second).1.delivery = some p) : op.delivery = some p := by
  have hl := leaves_of_abort (.inl (Eq.refl (op.abort second).1))
  generalize (op.abort second).1 = op' at h hl
  cases hl with
  | processJob => exact h
  | _ => cases h

/-- The operation is a replay of an entry of the dead letter queue. -/
def Op.isReplay : Op → Bool
  | replayJob _ | replayAdd _ | replayRemove _ => true
  | _ => false

theorem Op.not_isReplay_resume {op op' : Op} {g : DependencyResolver.Graph} {now : Time}
    {second : Bool} {reply : Reply} (ho : op.isReplay = false)
    (h : op' = (op.resume g now second reply).1 ∨ op' ∈ (op.resume g now second reply).2.1) :
    op'.isReplay = false := by
  cases leads_of_resume h with
  | replayJob | replayAdd => cases ho
  | _ => rfl

theorem Op.not_isReplay_abort {op op' : Op} {second : Bool}
    (h : op' = (op.abort second).1 ∨ op' ∈ (op.abort second).2) : op'.isReplay = false := by
  cases leaves_of_abort h <;> rfl

/-- **Who adds an entry**: an element of `enqueuePromises`, or a replay. -/
theorem Op.of_pending_add {cfg : Config} {op : Op} {second : Bool} {jobId : Option JobId}
    {data : QueueJobPayload} {priority delayMs : ℕ}
    (hc : op.pending cfg second = some (.add jobId data priority delayMs))
    (ht : op.tidy = true) :
    (∃ job, op = .enqueue job delayMs ∧ jobId = some job.id ∧ data = enqueueData job) ∨
      ∃ entry, op = .replayAdd entry ∧ jobId = none ∧ data = replayData entry := by
  unfold pending at hc
  split at hc
  case h_1 =>
    unfold ProcessPc.call at hc
    split at hc <;> cases hc
  case h_3 job delay =>
    obtain ⟨rfl, rfl, -, rfl⟩ := Call.add.inj (Option.some.inj hc)
    exact .inl ⟨job, rfl, rfl, rfl⟩
  case h_12 entry =>
    obtain ⟨rfl, rfl, -, -⟩ := Call.add.inj (Option.some.inj hc)
    exact .inr ⟨entry, rfl, rfl, rfl⟩
  case h_15 =>
    obtain rfl := Option.some.inj hc
    cases ht
  all_goals cases hc

theorem Op.delivery_of_not_isProcess {op : Op} (h : op.isProcess = false) : op.delivery = none := by
  cases op with
  | processJob => cases h
  | _ => rfl

namespace Queue

variable {q q' : Queue} {id k : EntryId} {e e' : Entry}

theorem state_of_pick {run : ℕ} (h : q.pick id run = some (q', e)) :
    e.state = .waiting ∨ e.state = .prioritized := by
  obtain ⟨he, -⟩ := pick_eq_some h
  rw [pick, he] at h
  dsimp only at h
  split_ifs at h with hst
  exact hst

theorem state_of_promote (h : q.promote id = some q') (he : q.entries.find? id = some e) :
    e.state = .delayed := by
  rw [promote, he] at h
  dsimp only at h
  split_ifs at h with hst
  exact hst

theorem data_change {state : EntryState} {attempts stalls : ℕ}
    (h : (q.change id state attempts stalls).entries.find? k = some e') :
    ∃ e, q.entries.find? k = some e ∧ e'.data = e.data := by
  rw [find?_change] at h
  split_ifs at h
  · obtain ⟨e, he, rfl⟩ := Option.map_eq_some_iff.mp h
    exact ⟨e, he, rfl⟩
  · exact ⟨e', h, rfl⟩

theorem data_settle {attempts run : ℕ} {rejected : Bool}
    (h : (q.settle attempts id run rejected).entries.find? k = some e') :
    ∃ e, q.entries.find? k = some e ∧ e'.data = e.data := by
  unfold settle at h
  split at h
  · split_ifs at h
    · exact data_change h
    · exact ⟨e', h, rfl⟩
  · exact ⟨e', h, rfl⟩

end Queue

namespace Sys

variable {cfg : Config} {s s' : Sys} {e : Event} {i j : ℕ} {p : EntryId × QueueJobPayload}

/-- **The run under way** at a place: its entry and its payload. -/
def delivery (s : Sys) (i : ℕ) : Option (EntryId × QueueJobPayload) := s.ops[i]?.bind Op.delivery

theorem delivery_of_moved {run : ℕ} {op op' : Op} {l : List Op} (hop : s.ops[run]? = some op)
    (hops : s'.ops = s.ops.set run op' ++ l) (hself : ∀ p, op'.delivery = some p →
      op.delivery = some p) (hnew : ∀ o ∈ l, o.delivery = none) (h : s'.delivery i = some p) :
    s.delivery i = some p := by
  obtain ⟨o, ho, hp⟩ := Option.bind_eq_some_iff.mp h
  rw [hops] at ho
  rcases of_getElem?_set_append ho with ⟨-, ho⟩ | ⟨rfl, rfl⟩ | ho
  · exact Option.bind_eq_some_iff.mpr ⟨o, ho, hp⟩
  · exact Option.bind_eq_some_iff.mpr ⟨op, hop, hself p hp⟩
  · rw [hnew o ho] at hp
    cases hp

/-- **Where a run comes from**: it was under way, or a worker has just taken its entry. -/
theorem delivery_step (hs : s.step cfg e = some s') (h : s'.delivery i = some p) :
    s.delivery i = some p ∨ (i = s.ops.length ∧ ∃ process workerId q en,
      e = .pickUp process workerId p.1 ∧ s.store.queue.pick p.1 i = some (q, en) ∧
      s'.store.queue = q ∧ p.2 = en.data) := by
  have hnone : ∀ o ∈ ([] : List Op), o.delivery = none := fun _ ho => absurd ho List.not_mem_nil
  cases stepTo_of_step hs with
  | @start op hr =>
      obtain ⟨o, ho, hp⟩ := Option.bind_eq_some_iff.mp h
      rcases of_getElem?_append_singleton ho with ho | ⟨-, rfl⟩
      · exact .inl (Option.bind_eq_some_iff.mpr ⟨o, ho, hp⟩)
      · cases o <;> first | exact hr.elim | cases hp
  | @pickUp process workerId entry q en hpick =>
      obtain ⟨o, ho, hp⟩ := Option.bind_eq_some_iff.mp h
      rcases of_getElem?_append_singleton ho with ho | ⟨rfl, rfl⟩
      · exact .inl (Option.bind_eq_some_iff.mpr ⟨o, ho, hp⟩)
      · obtain rfl := Option.some.inj hp
        exact .inr ⟨rfl, process, workerId, q, en, rfl, hpick, rfl, rfl⟩
  | answered hop =>
      exact .inl (delivery_of_moved hop rfl (fun _ => Op.delivery_resume)
        (fun _ ho => Op.delivery_of_not_isProcess (Op.not_isProcess_spawned ho)) h)
  | errored hop =>
      exact .inl (delivery_of_moved hop rfl (fun _ => Op.delivery_abort)
        (fun _ ho => Op.delivery_of_not_isProcess (Op.not_isProcess_left ho)) h)
  | execute hop | executed hop | executeRejected hop =>
      refine .inl (delivery_of_moved hop rfl ?_ hnone h)
      exact fun _ hp => hp
  | settle hop =>
      refine .inl (delivery_of_moved hop rfl (fun q hq => ?_) hnone h)
      cases hq
  | @crash run =>
      obtain ⟨o, ho, hp⟩ := Option.bind_eq_some_iff.mp h
      rcases of_getElem?_set_append ho with ⟨-, ho⟩ | ⟨-, rfl⟩ | ho
      · exact .inl (Option.bind_eq_some_iff.mpr ⟨o, ho, hp⟩)
      · cases hp
      · cases ho
  | stall | promote | evict | restart => exact .inl h

theorem entry_exec {st st' : Store} {now : Time} {locked : List JobId} {c : Call} {reply : Reply}
    (hx : st.exec now locked c = some (st', reply)) {k : EntryId} {en' : Entry}
    (h : st'.queue.entries.find? k = some en') : st.queue.entries.find? k = some en' ∨
      ∃ jobId data priority delayMs, c = .add jobId data priority delayMs ∧
        k = st.queue.addedId jobId ∧ en' = Queue.newEntry k data priority delayMs := by
  cases c with
  | create id dto =>
      obtain ⟨q, -, he⟩ := Option.map_eq_some_iff.mp hx
      obtain ⟨rfl, -⟩ := Prod.mk.inj he
      exact .inl h
  | add jobId data priority delayMs =>
      obtain ⟨rfl, -⟩ := Prod.mk.inj (Option.some.inj hx)
      dsimp only at h
      rw [Queue.find?_add] at h
      split_ifs at h with hk
      · subst hk
        cases hfind : st.queue.entries.find? (st.queue.addedId jobId) with
        | none =>
            rw [hfind] at h
            exact .inr ⟨jobId, data, priority, delayMs, rfl, rfl, (Option.some.inj h).symm⟩
        | some en =>
            rw [hfind] at h
            exact .inl (hfind ▸ h)
      · exact .inl h
  | _ =>
      obtain ⟨rfl, -⟩ := Prod.mk.inj (Option.some.inj hx)
      exact .inl h

/-- **Where an entry comes from**: it was there, with its payload, or an operation has added
it. -/
theorem entry_step (hs : s.step cfg e = some s') {k : EntryId} {en' : Entry}
    (h : s'.store.queue.entries.find? k = some en') :
    (∃ en, s.store.queue.entries.find? k = some en ∧ en'.data = en.data) ∨
      ∃ op ∈ s.ops, ∃ second jobId data priority delayMs,
        op.pending cfg second = some (.add jobId data priority delayMs) ∧
        k = s.store.queue.addedId jobId ∧ en'.data = data := by
  have hcall : ∀ {run : ℕ} {second now locked} {op : Op} {c st reply}, s.ops[run]? = some op →
      op.pending cfg second = some c → s.store.exec now locked c = some (st, reply) →
      st.queue.entries.find? k = some en' →
      (∃ en, s.store.queue.entries.find? k = some en ∧ en'.data = en.data) ∨
        ∃ op ∈ s.ops, ∃ second jobId data priority delayMs,
          op.pending cfg second = some (.add jobId data priority delayMs) ∧
          k = s.store.queue.addedId jobId ∧ en'.data = data := by
    intro run second now locked op c st reply hop hc hx hfind
    rcases entry_exec hx hfind with hold | ⟨jobId, data, priority, delayMs, rfl, hk, rfl⟩
    · exact .inl ⟨en', hold, rfl⟩
    · exact .inr ⟨op, List.mem_of_getElem? hop, second, jobId, data, priority, delayMs, hc, hk, rfl⟩
  cases stepTo_of_step hs with
  | pickUp hpick =>
      obtain ⟨-, rfl⟩ := Queue.pick_eq_some hpick
      exact .inl (Queue.data_change h)
  | answered hop hc hx => exact hcall hop hc hx h
  | errored hop hc _ hst =>
      rcases hst with ⟨rfl, -⟩ | ⟨-, reply, hx⟩
      · exact .inl ⟨en', h, rfl⟩
      · exact hcall hop hc hx h
  | settle => exact .inl (Queue.data_settle h)
  | stall hq =>
      obtain ⟨_, _, -, -, rfl⟩ := Queue.stall_eq_some hq
      exact .inl (Queue.data_change h)
  | promote hq =>
      obtain ⟨_, -, rfl⟩ := Queue.promote_eq_some hq
      exact .inl (Queue.data_change h)
  | evict hq =>
      obtain ⟨_, -, -, rfl⟩ := Queue.evict_eq_some hq
      dsimp only at h
      rw [Table.find?_erase] at h
      split_ifs at h
      exact .inl ⟨en', h, rfl⟩
  | _ => exact .inl ⟨en', h, rfl⟩

/-! ## Entries that are held -/

/-- **An active entry** is left alone, unless its lock stalls or its run is acknowledged. -/
theorem find?_active_step (hs : s.step cfg e = some s') {k : EntryId} {en : Entry}
    (hen : s.store.queue.entries.find? k = some en) (hact : en.state = .active i)
    (hstall : e ≠ .stall k) (hsettle : e ≠ .settle i) :
    s'.store.queue.entries.find? k = some en := by
  cases stepTo_of_step hs with
  | pickUp hpick =>
      obtain ⟨he, rfl⟩ := Queue.pick_eq_some hpick
      dsimp only
      rw [Queue.find?_change, if_neg, hen]
      rintro rfl
      obtain rfl := Option.some.inj (hen.symm.trans he)
      rcases Queue.state_of_pick hpick with hst | hst <;> rw [hact] at hst <;> cases hst
  | answered _ _ hx => exact find?_entries_exec hx hen
  | errored _ _ _ hst =>
      rcases hst with ⟨rfl, -⟩ | ⟨-, reply, hx⟩
      · exact hen
      · exact find?_entries_exec hx hen
  | settle =>
      refine Queue.find?_settle hen fun _ hact' => hsettle ?_
      rw [EntryState.active.inj (hact.symm.trans hact')]
  | stall hq =>
      obtain ⟨_, _, -, -, rfl⟩ := Queue.stall_eq_some hq
      dsimp only
      rw [Queue.find?_change, if_neg fun hk => hstall (by rw [hk]), hen]
  | promote hq =>
      obtain ⟨_, he, rfl⟩ := Queue.promote_eq_some hq
      dsimp only
      rw [Queue.find?_change, if_neg, hen]
      rintro rfl
      have hst := Queue.state_of_promote hq hen
      rw [hact] at hst
      cases hst
  | evict hq =>
      obtain ⟨_, he, hdead, rfl⟩ := Queue.evict_eq_some hq
      dsimp only
      rw [Table.find?_erase, if_neg, hen]
      rintro rfl
      obtain rfl := Option.some.inj (hen.symm.trans he)
      rw [hact] at hdead
      exact hdead trivial
  | _ => exact hen

/-- No lock stalls while its run is still under way. -/
def KeepsLock (s : Sys) : Event → Prop
  | .stall entry => ∀ op ∈ s.ops, ∀ p ∈ op.delivery, p.1 ≠ entry
  | _ => True

instance (s : Sys) : DecidablePred s.KeepsLock
  | .stall entry => inferInstanceAs (Decidable (∀ op ∈ s.ops, ∀ p ∈ op.delivery, p.1 ≠ entry))
  | .start _ | .pickUp .. | .call .. | .execute _ | .executed .. | .executeRejected _ | .settle _
  | .promote _ | .evict _ | .crash _ | .restart _ => .isTrue trivial

/-- **Every run holds its entry.** -/
def Holds (s : Sys) : Prop :=
  ∀ i p, s.delivery i = some p →
    ∃ en, s.store.queue.entries.find? p.1 = some en ∧ en.state = .active i ∧ en.data = p.2

theorem holds_init : Holds init := nofun

theorem holds_step (h : Holds s) (hlock : KeepsLock s e) (hs : s.step cfg e = some s') :
    Holds s' := by
  intro i p hp
  rcases delivery_step hs hp with hold | ⟨rfl, process, workerId, q, en, rfl, hpick, hq, hdata⟩
  · obtain ⟨en, hen, hact, hdata⟩ := h i p hold
    refine ⟨en, find?_active_step hs hen hact ?_ ?_, hact, hdata⟩
    · rintro rfl
      obtain ⟨op, hop, hdel⟩ := Option.bind_eq_some_iff.mp hold
      exact hlock op (List.mem_of_getElem? hop) p hdel rfl
    · -- the run of an acknowledged entry is over
      rintro rfl
      obtain ⟨o, ho, hp⟩ := Option.bind_eq_some_iff.mp hp
      cases stepTo_of_step hs with
      | settle hop =>
          obtain rfl := Option.some.inj (ho.symm.trans (getElem?_set_append_self hop .finished []))
          cases hp
  · obtain ⟨he, rfl⟩ := Queue.pick_eq_some hpick
    refine ⟨Queue.changed (.active s.ops.length) 0 0 en, ?_, rfl, hdata.symm⟩
    rw [hq, Queue.find?_change, if_pos rfl, he]
    rfl

theorem holds_run {ok : List Event → Sys → Event → Prop} {es : List Event}
    (h : Run (step cfg) ok init es s) (hok : ∀ es s e, ok es s e → KeepsLock s e) : Holds s :=
  h.stable (P := Holds) holds_init fun _ _ _ _ hi hg hs => holds_step hi (hok _ _ _ hg) hs

theorem Holds.eq_of_entry (h : Holds s) {p' : EntryId × QueueJobPayload}
    (hi : s.delivery i = some p) (hj : s.delivery j = some p') (hp : p.1 = p'.1) : i = j := by
  obtain ⟨en, hen, hact, -⟩ := h i p hi
  obtain ⟨en', hen', hact', -⟩ := h j p' hj
  rw [hp, hen'] at hen
  obtain rfl := Option.some.inj hen
  exact EntryState.active.inj (hact.symm.trans hact')

/-! ## One entry for each job -/

def NoReplay : Event → Prop
  | .start (.replayJob _) => False
  | _ => True

instance : DecidablePred NoReplay := fun e => by
  unfold NoReplay
  split <;> infer_instance

/-- **Every entry has the id of its job**, and none is being replayed. -/
structure Keyed (s : Sys) : Prop where
  entries : ∀ k en, s.store.queue.entries.find? k = some en → k = .job en.data.jobId
  ops : ∀ op ∈ s.ops, op.isReplay = false
  tidy : Tidy s

theorem keyed_init : Keyed init where
  entries := nofun
  ops := fun _ hop => absurd hop List.not_mem_nil
  tidy := tidy_init

theorem not_isReplay_step (h : ∀ op ∈ s.ops, op.isReplay = false) (hno : NoReplay e)
    (hs : s.step cfg e = some s') : ∀ op' ∈ s'.ops, op'.isReplay = false := by
  intro op' hop'
  rcases mem_ops_step hs hop' with hold | hnew
  · exact h op' hold
  cases e with
  | start op =>
      obtain ⟨hr, rfl⟩ := hnew
      cases op' <;> first | rfl | exact hr.elim | exact hno.elim
  | call run second now outcome locked =>
      obtain ⟨op, c, hop, -, ⟨st, reply, -, -, h'⟩ | ⟨-, h'⟩⟩ := hnew
      · exact Op.not_isReplay_resume (h op (List.mem_of_getElem? hop)) h'
      · exact Op.not_isReplay_abort h'
  | pickUp process workerId entry =>
      obtain ⟨data, rfl⟩ := hnew
      rfl
  | execute run | executed run now result | executeRejected run =>
      obtain ⟨process, workerId, entry, data, job, id, -, rfl⟩ := hnew
      rfl
  | settle run | crash run =>
      obtain rfl := hnew
      rfl
  | stall entry | promote entry | evict entry | restart process => exact hnew.elim

theorem keyed_step (h : Keyed s) (hno : NoReplay e) (hs : s.step cfg e = some s') : Keyed s' := by
  refine ⟨fun k en' hen' => ?_, not_isReplay_step h.ops hno hs, tidy_step h.tidy hs⟩
  rcases entry_step hs hen' with ⟨en, hen, hdata⟩ |
    ⟨op, hop, second, jobId, data, priority, delayMs, hc, rfl, hdata⟩
  · rw [hdata]
    exact h.entries k en hen
  · rcases Op.of_pending_add hc (h.tidy op hop) with ⟨job, rfl, rfl, rfl⟩ | ⟨entry, rfl, -, -⟩
    · rw [hdata]
      rfl
    · cases h.ops _ hop

/-- **Mutual exclusion on an entry.** As long as no lock stalls while its run is under way, two
runs that are under way at the same time hold different entries. -/
theorem entry_exclusive {es : List Event} (h : Run (step cfg) (stateGuard KeepsLock) init es s)
    {p' : EntryId × QueueJobPayload} (hi : s.delivery i = some p) (hj : s.delivery j = some p')
    (hp : p.1 = p'.1) : i = j :=
  (holds_run h fun _ _ _ hg => hg).eq_of_entry hi hj hp

/-- **Mutual exclusion on a job.** As long as no lock stalls while its run is under way, and
nothing is replayed, two runs that are under way at the same time are of different jobs. -/
theorem job_exclusive {es : List Event}
    (h : Run (step cfg) (stateGuard fun s e => KeepsLock s e ∧ NoReplay e) init es s)
    {p' : EntryId × QueueJobPayload} (hi : s.delivery i = some p) (hj : s.delivery j = some p')
    (hp : p.2.jobId = p'.2.jobId) : i = j := by
  have hholds : Holds s := holds_run h fun _ _ _ hg => hg.1
  have hkeyed : Keyed s := h.stable (P := Keyed) keyed_init
    fun _ _ _ _ hi hg hs => keyed_step hi hg.2 hs
  have hkey : ∀ {i p}, s.delivery i = some p → p.1 = .job p.2.jobId := by
    intro i p hi
    obtain ⟨en, hen, -, hdata⟩ := hholds i p hi
    exact hdata ▸ hkeyed.entries p.1 en hen
  exact hholds.eq_of_entry hi hj (by rw [hkey hi, hkey hj, hp])

/-- The run of `a` dies, its lock stalls, and another worker takes the entry. -/
def takenOver : List Event :=
  pickedUp ++ executes 3 ++ [.crash 3, .stall (.job "a"), .pickUp 2 "v" (.job "a")]

theorem taken_over_exclusive : ∃ s, (∃ p, s.delivery 4 = some p ∧ p.2.jobId = "a") ∧
    Run (step {}) anyStep init takenOver s ∧
    ∀ i p, s.delivery i = some p → p.2.jobId = "a" → i = 4 := by
  obtain ⟨s, hs, hp⟩ := exists_run_of_check (step {})
    (stateGuard fun s e => KeepsLock s e ∧ NoReplay e) init takenOver
    (fun s => (s.delivery 4).any fun p => p.2.jobId = "a") (by decide)
  obtain ⟨p, hp, hid⟩ := (Option.any_eq_true _ _).mp hp
  refine ⟨s, ⟨p, hp, of_decide_eq_true hid⟩, hs.mono fun _ _ _ _ => trivial, fun i q hq hk => ?_⟩
  exact job_exclusive hs hq hp (hk.trans (of_decide_eq_true hid).symm)

/-- The lock of a run that goes on stalls, and the job is executed twice at the same time. -/
example : (runEvents (step {}) init (pickedUp ++ executes 3 ++ [.stall (.job "a"),
    .pickUp 2 "v" (.job "a")] ++ executes 4)).any (fun s => s.executions = ["a", "a"] ∧
      (s.delivery 3).isSome ∧ (s.delivery 4).isSome) = true := by decide

end Sys

end TaskOrchestration

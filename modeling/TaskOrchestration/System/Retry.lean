import TaskOrchestration.System.Enqueue

set_option autoImplicit false

/-!
# Failed attempts with retries left

`handleFailure` moves the row to `RETRYING` and returns, so the processor resolves and BullMQ
marks the entry completed. Nothing else picks the row up: the claim looks for `PENDING` rows.

* `RetriesAlive`: a `RETRYING` row can be claimed, or has an entry that will be delivered;
* `Ends`: BullMQ's last step for an entry; `KeepsRetries`: what keeps the `RETRYING` rows alive;
* `live_step`, `ends_step`: what a step does to the entries that are alive;
* **`retrying_is_retried`**: the `RETRYING` rows stay alive along exactly the runs of such steps;
  the retry branch by itself leaves a row that nobody picks up;
* `failed_attempt_stranded`: the first failed attempt of a job with three retries.
-/

namespace TaskOrchestration

open LabelledRun JobService JobRepository

namespace Sys

variable {cfg : Config} {s s' : Sys} {e : Event}

/-- **Somebody will pick the retry up**: every `RETRYING` row can be claimed at some time, or its
job has an entry that is waiting, prioritized, delayed or active. -/
def RetriesAlive (s : Sys) : Prop :=
  ∀ r ∈ s.store.jobs, r.status = .retrying → (∃ now, Claimable now r) ∨
    ∃ en ∈ s.store.queue.entries, en.data.jobId = r.id ∧ en.state.Live

/-- The processor run is over, and BullMQ will not try the entry again: the run has resolved, or
it has rejected at the last attempt. -/
def doneWith (attempts : ℕ) (en : Entry) : Op → Bool
  | .processJob _ _ entry _ .resolved => entry = en.id
  | .processJob _ _ entry _ .rejected => entry = en.id ∧ attempts ≤ en.attemptsMade + 1
  | _ => false

/-- The step is BullMQ's last one for the entry: it acknowledges such a run, which still holds the
entry, or the lock of the entry has expired once too often. -/
def Ends (cfg : Config) (s : Sys) (en : Entry) : Event → Prop
  | .settle run => en.state = .active run ∧ ∃ op ∈ s.ops[run]?, doneWith cfg.attempts en op = true
  | .stall entry => entry = en.id ∧ cfg.maxStalledCount ≤ en.stalledCount
  | _ => False

instance (cfg : Config) (s : Sys) (en : Entry) : DecidablePred (Ends cfg s en)
  | .settle run => inferInstanceAs (Decidable (en.state = .active run ∧
      ∃ op ∈ s.ops[run]?, doneWith cfg.attempts en op = true))
  | .stall entry =>
      inferInstanceAs (Decidable (entry = en.id ∧ cfg.maxStalledCount ≤ en.stalledCount))
  | .start _ | .pickUp _ _ _ | .call _ _ _ _ _ | .execute _ | .executed _ _ _
  | .executeRejected _ | .promote _ | .evict _ | .crash _ | .restart _ => .isFalse id

/-- **The condition**: `RETRYING` is written to a row only while the job has an entry that is
alive, and BullMQ is done with an entry of a `RETRYING` row only when the job has another one. -/
def KeepsRetries (cfg : Config) (s : Sys) (e : Event) : Prop :=
  (∀ r ∈ s.store.jobs.rows, Writes cfg s e r.id .retrying →
    ∃ en ∈ s.store.queue.entries.rows, en.data.jobId = r.id ∧ en.state.Live) ∧
  ∀ en ∈ s.store.queue.entries.rows, Ends cfg s en e →
    ∀ r ∈ s.store.jobs.rows, r.id = en.data.jobId → r.status = .retrying →
      ∃ en' ∈ s.store.queue.entries.rows, en'.data.jobId = r.id ∧ en'.state.Live ∧ en'.id ≠ en.id

instance (cfg : Config) (s : Sys) (e : Event) : Decidable (KeepsRetries cfg s e) := by
  unfold KeepsRetries; infer_instance

/-- A `RETRYING` row is not claimed, so it needs an entry. -/
theorem RetriesAlive.entry (h : RetriesAlive s) {r : Job} (hr : r ∈ s.store.jobs)
    (hst : r.status = .retrying) :
    ∃ en ∈ s.store.queue.entries, en.data.jobId = r.id ∧ en.state.Live := by
  rcases h r hr hst with ⟨now, hclaim⟩ | hen
  · exact absurd (hclaim.1.symm.trans hst) (by decide)
  · exact hen

/-! ## The entries that stay alive -/

theorem live_initialState (priority delayMs : ℕ) : (Queue.initialState priority delayMs).Live := by
  unfold Queue.initialState
  split_ifs <;> exact trivial

theorem mem_change {q : Queue} {en : Entry} (hen : en ∈ q.entries) (state : EntryState)
    (attempts stalls : ℕ) :
    Queue.changed state attempts stalls en ∈ (q.change en.id state attempts stalls).entries := by
  refine Table.mem_of_find? (k := en.id) ?_
  rw [Queue.find?_change, if_pos rfl, Table.mem_iff_find?.mp hen]
  rfl

theorem mem_change_of_ne {q : Queue} {en : Entry} {id : EntryId} (hen : en ∈ q.entries)
    (hne : en.id ≠ id) (state : EntryState) (attempts stalls : ℕ) :
    en ∈ (q.change id state attempts stalls).entries := by
  refine Table.mem_of_find? (k := en.id) ?_
  rw [Queue.find?_change, if_neg hne, Table.mem_iff_find?.mp hen]

theorem live_change {q : Queue} {en : Entry} (hen : en ∈ q.entries) (hlive : en.state.Live)
    {id : EntryId} {state : EntryState} (attempts stalls : ℕ) (hstate : en.id = id → state.Live) :
    ∃ en' ∈ (q.change id state attempts stalls).entries, en'.data = en.data ∧ en'.state.Live := by
  by_cases hid : en.id = id
  · subst hid
    exact ⟨_, mem_change hen state attempts stalls, rfl, hstate rfl⟩
  · exact ⟨en, mem_change_of_ne hen hid state attempts stalls, rfl, hlive⟩

/-- An acknowledged run whose processor BullMQ is not done with is tried again. -/
theorem live_settledState {attempts : ℕ} {en : Entry} {process : ℕ} {workerId : String}
    {data : QueueJobPayload} {pc : ProcessPc} {rejected : Bool} (hend : pc.ended = some rejected)
    (h : doneWith attempts en (.processJob process workerId en.id data pc) ≠ true) :
    (Queue.settledState attempts rejected en).Live := by
  cases pc <;> cases hend
  · exact absurd (decide_eq_true rfl) h
  · have hlt : en.attemptsMade + 1 < attempts :=
      Nat.lt_of_not_le fun hle => h (decide_eq_true ⟨rfl, hle⟩)
    unfold Queue.settledState
    rw [if_pos rfl, if_pos hlt]
    trivial

/-- **An entry stays alive**, unless the step is BullMQ's last one for it. -/
theorem live_step (hs : s.step cfg e = some s') {en : Entry} (hen : en ∈ s.store.queue.entries)
    (hlive : en.state.Live) (hnot : ¬ Ends cfg s en e) :
    ∃ en' ∈ s'.store.queue.entries, en'.data = en.data ∧ en'.state.Live := by
  have hfind : s.store.queue.entries.find? en.id = some en := Table.mem_iff_find?.mp hen
  cases stepTo_of_step hs with
  | start | execute | executed | executeRejected | crash | restart => exact ⟨en, hen, rfl, hlive⟩
  | pickUp hpick =>
      obtain ⟨-, rfl⟩ := Queue.pick_eq_some hpick
      exact live_change hen hlive 0 0 fun _ => trivial
  | answered _ _ hx => exact ⟨en, Table.mem_of_find? (find?_entries_exec hx hfind), rfl, hlive⟩
  | errored _ _ _ hst =>
      rcases hst with ⟨rfl, -⟩ | ⟨-, reply, hx⟩
      · exact ⟨en, hen, rfl, hlive⟩
      · exact ⟨en, Table.mem_of_find? (find?_entries_exec hx hfind), rfl, hlive⟩
  | promote hq =>
      obtain ⟨en', -, rfl⟩ := Queue.promote_eq_some hq
      exact live_change hen hlive 0 0 fun _ => live_initialState _ _
  | evict hq =>
      -- only an entry that is over is removed
      obtain ⟨en', hfind', hdead, rfl⟩ := Queue.evict_eq_some hq
      refine ⟨en, Table.mem_of_find? (k := en.id) ?_, rfl, hlive⟩
      dsimp only
      rw [Table.find?_erase, if_neg, hfind]
      rintro hid
      rw [hid, hfind'] at hfind
      exact hdead (Option.some.inj hfind ▸ hlive)
  | stall hq =>
      obtain ⟨en', run, hfind', -, rfl⟩ := Queue.stall_eq_some hq
      refine live_change hen hlive 0 1 fun hid => ?_
      rw [← hid, hfind] at hfind'
      obtain rfl := Option.some.inj hfind'
      have hlt : en.stalledCount < cfg.maxStalledCount :=
        Nat.lt_of_not_le fun hle => hnot ⟨hid.symm, hle⟩
      rw [if_pos hlt]
      trivial
  | @settle run process workerId entry data pc rejected hop hend =>
      dsimp only [moveTo]
      unfold Queue.settle
      split
      case h_1 en' hfind' =>
        split_ifs with hact
        · refine live_change hen hlive 1 0 fun hid => ?_
          subst hid
          obtain rfl := Option.some.inj (hfind.symm.trans hfind')
          exact live_settledState hend fun hdone => hnot ⟨hact, _, hop, hdone⟩
        · exact ⟨en, hen, rfl, hlive⟩
      case h_2 => exact ⟨en, hen, rfl, hlive⟩

theorem ends_unique {en en' : Entry} (h : Ends cfg s en e) (h' : Ends cfg s en' e) :
    en.id = en'.id := by
  cases e with
  | settle run =>
      obtain ⟨-, op, hop, hdone⟩ := h
      obtain ⟨-, op', hop', hdone'⟩ := h'
      obtain rfl := Option.some.inj (hop.symm.trans hop')
      unfold doneWith at hdone hdone'
      split at hdone
      · exact (of_decide_eq_true hdone).symm.trans (of_decide_eq_true hdone')
      · exact (of_decide_eq_true hdone).1.symm.trans (of_decide_eq_true hdone').1
      · cases hdone
  | stall entry => exact h.1.symm.trans h'.1
  | _ => exact absurd h id

theorem entries_of_writes (hs : s.step cfg e = some s') {k : JobId} {x : JobStatus}
    (hw : Writes cfg s e k x) : s'.store.queue = s.store.queue := by
  obtain ⟨⟨op, c, outcome⟩, hcall, ho, hx⟩ := hw
  obtain ⟨run, second, now, locked, rfl, hop, hc⟩ := calling_eq_some hcall
  obtain ⟨dto, rfl, -⟩ := setsStatus_eq_some hx
  rcases step_call hs hop hc with ⟨st, reply, -, hexec, rfl⟩ | ⟨st, -, hst, rfl⟩
  · obtain ⟨rfl, -⟩ := Prod.mk.inj (Option.some.inj hexec)
    rfl
  · rcases hst with ⟨rfl, -⟩ | ⟨-, reply, hexec⟩
    · rfl
    · obtain ⟨rfl, -⟩ := Prod.mk.inj (Option.some.inj hexec)
      rfl

/-- **BullMQ's last step for an entry** leaves the rows and the other entries alone, and the entry
is not alive. -/
theorem ends_step (hs : s.step cfg e = some s') {en : Entry} (hen : en ∈ s.store.queue.entries)
    (hend : Ends cfg s en e) : s'.store.jobs = s.store.jobs ∧
      ∀ en' ∈ s'.store.queue.entries, en'.state.Live → en'.id ≠ en.id ∧
        en' ∈ s.store.queue.entries := by
  have hfind : s.store.queue.entries.find? en.id = some en := Table.mem_iff_find?.mp hen
  -- the entry changes to a state that is not alive
  have hchange : ∀ {state : EntryState} {attempts stalls : ℕ}, ¬ state.Live →
      ∀ en' ∈ (s.store.queue.change en.id state attempts stalls).entries, en'.state.Live →
        en'.id ≠ en.id ∧ en' ∈ s.store.queue.entries := by
    intro state attempts stalls hdead en' hen' hlive
    have hfind' := Table.mem_iff_find?.mp hen'
    rw [Queue.find?_change] at hfind'
    split_ifs at hfind' with hid
    · rw [hid, hfind, Option.map_some] at hfind'
      rw [← Option.some.inj hfind'] at hlive
      exact absurd hlive hdead
    · exact ⟨hid, Table.mem_of_find? hfind'⟩
  cases stepTo_of_step hs with
  | stall hq =>
      obtain ⟨rfl, hle⟩ := hend
      obtain ⟨en', run, hfind', -, rfl⟩ := Queue.stall_eq_some hq
      obtain rfl := Option.some.inj (hfind.symm.trans hfind')
      refine ⟨rfl, hchange ?_⟩
      rw [if_neg (Nat.not_lt.mpr hle)]
      exact id
  | @settle run process workerId entry data pc rejected hop hended =>
      obtain ⟨hact, op, hop', hdone⟩ := hend
      obtain rfl := Option.some.inj (hop.symm.trans hop')
      refine ⟨rfl, ?_⟩
      cases pc <;> cases hended
      · obtain rfl : entry = en.id := of_decide_eq_true hdone
        dsimp only [moveTo]
        rw [Queue.settle, hfind]
        dsimp only
        rw [if_pos hact]
        exact hchange id
      · obtain ⟨rfl, hle⟩ : entry = en.id ∧ cfg.attempts ≤ en.attemptsMade + 1 :=
          of_decide_eq_true hdone
        dsimp only [moveTo]
        rw [Queue.settle, hfind]
        dsimp only
        rw [if_pos hact]
        refine hchange ?_
        rw [Queue.settledState, if_pos rfl, if_neg (Nat.not_lt.mpr hle)]
        exact id
  | _ => exact absurd hend id

/-- **One step** keeps the `RETRYING` rows alive exactly when it meets the condition. -/
theorem retriesAlive_step_iff (h : RetriesAlive s) (hs : s.step cfg e = some s') :
    RetriesAlive s' ↔ KeepsRetries cfg s e := by
  constructor
  · refine fun h' => ⟨fun r hr hw => ?_, fun en hen hend r hr hid hst => ?_⟩
    · obtain ⟨r', hk', -⟩ := step_status hs (Table.mem_iff_find?.mp hr)
      obtain ⟨en, hen, hjob, hlive⟩ :=
        h'.entry (Table.mem_of_find? hk') (status_of_writes hs hw hk')
      rw [entries_of_writes hs hw] at hen
      exact ⟨en, hen, hjob.trans (Table.key_of_find? hk'), hlive⟩
    · obtain ⟨hjobs, hother⟩ := ends_step hs hen hend
      obtain ⟨en', hen', hjob, hlive⟩ := h'.entry (hjobs ▸ hr) hst
      obtain ⟨hne, hmem⟩ := hother en' hen' hlive
      exact ⟨en', hmem, hjob, hlive, hne⟩
  · rintro ⟨hwrite, hlast⟩ r' hr' hst
    right
    have hk' := Table.mem_iff_find?.mp hr'
    cases hk : s.store.jobs.find? r'.id with
    | none => rw [step_new_row hs hk hk'] at hst; cases hst
    | some r =>
        have hr := Table.mem_of_find? hk
        have hid : r.id = r'.id := Table.key_of_find? hk
        obtain ⟨r'', hk'', hcase⟩ := step_status hs hk
        obtain rfl := Option.some.inj (hk'.symm.trans hk'')
        rw [hst] at hcase
        rcases hcase with hsame | hw | ⟨-, hq, -⟩
        · -- the row was `RETRYING`: one of its entries stays alive
          obtain ⟨en, hen, hjob, hlive⟩ := h.entry hr hsame.symm
          have hstays : ∃ en ∈ s.store.queue.entries, en.data.jobId = r.id ∧ en.state.Live ∧
              ¬ Ends cfg s en e := by
            by_cases hend : Ends cfg s en e
            · obtain ⟨en₂, hen₂, hjob₂, hlive₂, hne⟩ :=
                hlast en hen hend r hr hjob.symm hsame.symm
              exact ⟨en₂, hen₂, hjob₂, hlive₂, fun hend₂ => hne (ends_unique hend₂ hend)⟩
            · exact ⟨en, hen, hjob, hlive, hend⟩
          obtain ⟨en, hen, hjob, hlive, hnot⟩ := hstays
          obtain ⟨en', hen', hdata, hlive'⟩ := live_step hs hen hlive hnot
          exact ⟨en', hen', by rw [hdata, hjob, hid], hlive'⟩
        · obtain ⟨en, hen, hjob, hlive⟩ := hwrite r hr (hid ▸ hw)
          exact ⟨en, entries_of_writes hs hw ▸ hen, hjob.trans hid, hlive⟩
        · cases hq

/-- A run of `processJob` is about to write `RETRYING` to a row, and holds the only entry of the
job that is alive. -/
def AboutToRetry (s : Sys) (run : ℕ) : Prop :=
  ∃ process workerId en data job r, s.ops[run]? =
      some (.processJob process workerId en data (.failRetry job)) ∧
    s.store.jobs.find? data.jobId = some r ∧
    (∃ e, s.store.queue.entries.find? en = some e ∧ e.state = .active run) ∧
    ∀ e ∈ s.store.queue.entries, e.data.jobId = data.jobId → e.state.Live → e.id = en

/-- **The retry branch strands the job**: when the write is answered and BullMQ acknowledges the
processor, nobody will pick the row up. -/
theorem retry_branch_strands {run : ℕ} (h : AboutToRetry s run) (now : Time)
    (locked : List JobId) : ∃ s', runEvents (step cfg) s
      [.call run false now .ok locked, .settle run] = some s' ∧ ¬ RetriesAlive s' := by
  obtain ⟨process, workerId, en, data, job, r, hop, hrow, ⟨e, he, hact⟩, honly⟩ := h
  set dto : UpdateJobDto := { status := some .retrying, retryCount := some (job.retryCount + 1) }
    with hdto
  set p := update s.store.jobs data.jobId now dto with hp
  -- the write is answered, and the processor resolves
  set s₁ := s.resumed { s.store with jobs := p.1 } run now
    (.processJob process workerId en data (.failRetry job)) false (.job p.2) with hs₁
  have hcall : s.step cfg (.call run false now .ok locked) = some s₁ := step_answered hop rfl rfl
  have hop₁ : s₁.ops[run]? = some (.processJob process workerId en data .resolved) :=
    getElem?_set_append_self hop _ []
  -- BullMQ marks the entry completed
  have hq : s₁.store.queue.settle cfg.attempts en run false =
      s.store.queue.change en .completed 1 0 := by
    change s.store.queue.settle cfg.attempts en run false = _
    rw [Queue.settle, he]
    dsimp only
    rw [if_pos hact]
    rfl
  refine ⟨{ s₁.moveTo run .finished [] with
    store := { s₁.store with queue := s.store.queue.change en .completed 1 0 } },
    ?_, fun halive => ?_⟩
  · rw [runEvents, hcall, Option.bind_some, runEvents, step, hop₁]
    simp only [ProcessPc.ended, Option.map_some, Option.bind_some, runEvents, hq]
  · have hrow₁ : p.1.find? data.jobId = some (toRow now dto r) := by
      rw [hp, find?_update, if_pos rfl, hrow]
      rfl
    have hid : (toRow now dto r).id = data.jobId := Table.key_of_find? hrow₁
    rcases halive _ (Table.mem_of_find? hrow₁) rfl with ⟨t, hclaim⟩ | ⟨e', he', hjob, hlive⟩
    · cases hclaim.1
    · have hfind := Table.mem_iff_find?.mp he'
      dsimp only at hfind
      rw [Queue.find?_change] at hfind
      by_cases hen : e'.id = en
      · rw [if_pos hen, hen, he, Option.map_some] at hfind
        rw [← Option.some.inj hfind] at hlive
        exact hlive
      · rw [if_neg hen] at hfind
        exact hen (honly e' (Table.mem_of_find? hfind) (hjob.trans hid) hlive)

/-- **A failed attempt is really retried** all along a run exactly when the run meets the condition
at every step; and `handleFailure` breaks it by itself: its write, answered, and BullMQ's
acknowledgement lead from every state in which the run holds the job's only entry to one where
nobody picks the row up. -/
theorem retrying_is_retried :
    (∀ es s, Run (step cfg) anyStep init es s → (Always (step cfg) init RetriesAlive es ↔
      Run (step cfg) (stateGuard (KeepsRetries cfg)) init es s)) ∧
      ∀ s run, AboutToRetry s run → ∀ now locked, ∃ s', runEvents (step cfg) s
        [.call run false now .ok locked, .settle run] = some s' ∧ ¬ RetriesAlive s' :=
  ⟨fun _ _ => Run.always_iff (I := fun _ => True) trivial
      (fun r hr => absurd hr (Table.not_mem_empty r))
      fun _ _ _ _ _ halive _ hs => ⟨trivial, retriesAlive_step_iff halive hs⟩,
    fun _ _ h now locked => retry_branch_strands h now locked⟩

/-- Run `n` fails its execution, and the answer to its write of `RETRYING` is lost: the processor
rejects, and BullMQ delays the entry. -/
def failsUnanswered (n : ℕ) : List Event :=
  [.executed n 7 { success := false }, .call n false 8 .ok [], .call n false 9 .ok [],
    .call n false 10 .lost [], .settle n]

/-- Two attempts of `a` fail, and both times BullMQ tries the entry again. -/
def retriedTwice : List Event :=
  pickedUp ++ executes 3 ++ failsUnanswered 3 ++ [.promote (.job "a"), .pickUp 1 "w" (.job "a")] ++
    executes 4 ++ failsUnanswered 4

theorem retriedTwice_retrying_is_retried :
    ∃ s, runEvents (step {}) init retriedTwice = some s ∧
      Always (step {}) init RetriesAlive retriedTwice ∧
      (∃ r ∈ s.store.jobs, r.status = .retrying ∧ r.retryCount = 2) ∧
      ∃ en ∈ s.store.queue.entries, en.id = .job "a" ∧ en.state = .delayed := by
  obtain ⟨s, hs, hp⟩ := exists_run_of_check (step {}) (stateGuard (KeepsRetries {})) init
    retriedTwice (fun s => (∃ r ∈ s.store.jobs.rows, r.status = .retrying ∧ r.retryCount = 2) ∧
      ∃ en ∈ s.store.queue.entries.rows, en.id = .job "a" ∧ en.state = .delayed) (by decide)
  exact ⟨s, hs.runEvents_eq,
    (retrying_is_retried.1 _ _ (hs.mono fun _ _ _ _ => trivial)).mpr hs, of_decide_eq_true hp⟩

/-- `a` is picked up by run 3, and its execution fails. -/
def attemptFails : List Event :=
  pickedUp ++ executes 3 ++ [.executed 3 7 { success := false }, .call 3 false 8 .ok [],
    .call 3 false 9 .ok [], .call 3 false 10 .ok [], .settle 3]

/-- **The first failed attempt of a job with three retries** leaves it `RETRYING` for good. -/
theorem failed_attempt_stranded :
    ∃ s, Run (step {}) anyStep init attemptFails s ∧ ¬ RetriesAlive s := by
  obtain ⟨s, hs, hp⟩ := exists_run_of_check (step {}) anyStep init attemptFails
    (fun s => (∃ r ∈ s.store.jobs.rows, r.status = .retrying) ∧
      ∀ en ∈ s.store.queue.entries.rows, ¬ en.state.Live) (by decide)
  obtain ⟨⟨r, hr, hst⟩, hdead⟩ := of_decide_eq_true hp
  refine ⟨s, hs, fun halive => ?_⟩
  rcases halive r hr hst with ⟨now, hclaim⟩ | ⟨en, hen, -, hlive⟩
  · exact JobStatus.noConfusion (hclaim.1.symm.trans hst)
  · exact hdead en hen hlive

end Sys

end TaskOrchestration

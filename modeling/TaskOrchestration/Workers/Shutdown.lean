import TaskOrchestration.Lib.Run
import TaskOrchestration.Workers.Selection

set_option autoImplicit false

/-!
# The shutdown of a worker

`shutdown` clears the interval of the heartbeats before it writes `DRAINING`. A callback of that
interval that is under way goes on, and its update looks at no status.

* `WorkerNodeProcess`: the row of a worker, its heartbeat callbacks and its runs of `shutdown`;
* `Event`, `step`: single calls; an update that has been sent is executed at any later time;
* `InFlight`, `Settled`; `settled_step`: no step makes a settled worker available again;
* `StaysDown`, `exists_up`; **`stays_down_iff`**; `heartbeat_after_draining`.
-/

namespace TaskOrchestration

open LabelledRun

/-- A callback of the heartbeat interval: it waits for `getActiveCount`, or its update has been
sent, or it is over. -/
inductive HeartbeatCall
  | counting
  | updating (currentJobCount : ℕ) (timestamp : Time)
  | ended
  deriving DecidableEq, Repr

/-- A run of `shutdown`: the update to `DRAINING` has been sent; it waits for `close`; the update to
`OFFLINE` has been sent; it is about to exit; it has thrown. -/
inductive ShutdownCall
  | draining | closing | stopping | exiting | ended
  deriving DecidableEq, Repr

/-- A worker, as far as its status depends on it. -/
structure WorkerNodeProcess where
  row : WorkerNode
  lastHeartbeatAt : Time
  heartbeatTimer : Bool := true
  heartbeats : List HeartbeatCall := []
  shutdowns : List ShutdownCall := []
  exited : Bool := false
  deriving DecidableEq, Repr

namespace WorkerNodeProcess

/-- `register` and `start`. -/
def start (id : String) (jobTypes : List String) (maxConcurrency : ℤ) (now : Time) :
    WorkerNodeProcess where
  row := ⟨id, .online, jobTypes, 0, maxConcurrency⟩
  lastHeartbeatAt := now

/-- `WorkerRepository.heartbeat`. -/
def heartbeat (s : WorkerNodeProcess) (currentJobCount : ℕ) (timestamp : Time) :
    WorkerNodeProcess :=
  { s with
    row := { s.row with
      status := if currentJobCount > 0 then .busy else .online
      currentJobCount := currentJobCount }
    lastHeartbeatAt := timestamp }

/-- `WorkerRepository.updateStatus`. -/
def updateStatus (s : WorkerNodeProcess) (status : WorkerStatus) : WorkerNodeProcess :=
  { s with row := { s.row with status := status } }

/-- `WorkerRepository.markLostWorkers`, on this row. -/
def markLost (s : WorkerNodeProcess) (threshold : Time) : WorkerNodeProcess :=
  if s.row.up ∧ s.lastHeartbeatAt < threshold then s.updateStatus .lost else s

/-- What happens. The numbers say which callback, and which run of `shutdown`. -/
inductive Event
  /-- The interval fires. -/
  | tick
  /-- `getActiveCount` returns, or is not there; the update is sent. -/
  | counted (k : ℕ) (bullCounts : Option ℕ) (now : Time)
  /-- The update of a heartbeat is executed. -/
  | beat (k : ℕ)
  /-- A call of a heartbeat fails. -/
  | heartbeatFailed (k : ℕ)
  /-- `shutdown` is called. -/
  | signal
  /-- The update of a run of `shutdown` is executed. -/
  | written (k : ℕ)
  /-- `bullWorker.close` returns. -/
  | closed (k : ℕ)
  /-- A call of a run of `shutdown` fails. -/
  | shutdownFailed (k : ℕ)
  | exit (k : ℕ)
  | markLostWorkers (threshold : Time)
  deriving DecidableEq, Repr

def moveHeartbeat (s : WorkerNodeProcess) (k : ℕ) (c : HeartbeatCall) : WorkerNodeProcess :=
  { s with heartbeats := s.heartbeats.set k c }

def moveShutdown (s : WorkerNodeProcess) (k : ℕ) (c : ShutdownCall) : WorkerNodeProcess :=
  { s with shutdowns := s.shutdowns.set k c }

/-- One event. After the exit of the process only updates that have been sent go on. -/
def step (s : WorkerNodeProcess) : Event → Option WorkerNodeProcess
  | .tick =>
      if s.heartbeatTimer ∧ ¬ s.exited then
        some { s with heartbeats := s.heartbeats ++ [.counting] }
      else none
  | .counted k bullCounts now =>
      if s.heartbeats[k]? = some .counting ∧ ¬ s.exited then
        some (s.moveHeartbeat k (.updating (bullCounts.getD 0) now))
      else none
  | .beat k =>
      match s.heartbeats[k]? with
      | some (.updating currentJobCount timestamp) =>
          some ((s.heartbeat currentJobCount timestamp).moveHeartbeat k .ended)
      | _ => none
  | .heartbeatFailed k =>
      if k < s.heartbeats.length then some (s.moveHeartbeat k .ended) else none
  | .signal =>
      if s.exited then none
      else some { s with heartbeatTimer := false, shutdowns := s.shutdowns ++ [.draining] }
  | .written k =>
      match s.shutdowns[k]? with
      | some .draining => some ((s.updateStatus .draining).moveShutdown k .closing)
      | some .stopping => some ((s.updateStatus .offline).moveShutdown k .exiting)
      | _ => none
  | .closed k =>
      if s.shutdowns[k]? = some .closing ∧ ¬ s.exited then some (s.moveShutdown k .stopping)
      else none
  | .shutdownFailed k =>
      if k < s.shutdowns.length then some (s.moveShutdown k .ended) else none
  | .exit k =>
      if s.shutdowns[k]? = some .exiting ∧ ¬ s.exited then some { s with exited := true }
      else none
  | .markLostWorkers threshold => some (s.markLost threshold)

/-! ## Callbacks under way -/

/-- The callback may still write. -/
def InFlight (exited : Bool) : HeartbeatCall → Prop
  | .counting => exited = false
  | .updating _ _ => True
  | .ended => False

instance (exited : Bool) : DecidablePred (InFlight exited) := fun c => by
  cases c <;> unfold InFlight <;> infer_instance

/-- No heartbeat will be written any more. -/
structure Settled (s : WorkerNodeProcess) : Prop where
  cleared : s.heartbeatTimer = false
  ended : ∀ c ∈ s.heartbeats, ¬ InFlight s.exited c

variable {s s' : WorkerNodeProcess} {e : Event}

theorem cleared_step (h : s.shutdowns ≠ [] → s.heartbeatTimer = false)
    (hs : step s e = some s') : s'.shutdowns ≠ [] → s'.heartbeatTimer = false := by
  have hset : ∀ {k c}, s.shutdowns.set k c ≠ [] → s.heartbeatTimer = false := fun hne =>
    h fun hnil => hne (by rw [hnil, List.set_nil])
  cases e with
  | signal =>
      simp only [step] at hs
      split_ifs at hs
      obtain rfl := Option.some.inj hs
      exact fun _ => rfl
  | written k =>
      simp only [step] at hs
      split at hs
      · obtain rfl := Option.some.inj hs
        exact hset
      · obtain rfl := Option.some.inj hs
        exact hset
      · cases hs
  | closed k | shutdownFailed k =>
      simp only [step] at hs
      split_ifs at hs
      obtain rfl := Option.some.inj hs
      exact hset
  | beat k =>
      simp only [step] at hs
      split at hs
      · obtain rfl := Option.some.inj hs
        exact h
      · cases hs
  | tick | counted k bullCounts now | heartbeatFailed k | exit k =>
      simp only [step] at hs
      split_ifs at hs
      obtain rfl := Option.some.inj hs
      exact h
  | markLostWorkers threshold =>
      obtain rfl := Option.some.inj hs
      rw [markLost]
      split_ifs <;> exact h

theorem Settled.set_ended (h : Settled s) (k : ℕ) : Settled (s.moveHeartbeat k .ended) where
  cleared := h.cleared
  ended c hc := by
    rcases List.mem_or_eq_of_mem_set hc with hc | rfl
    · exact h.ended c hc
    · exact id

/-- **One step** of a settled worker writes no heartbeat, and makes it not available again. -/
theorem settled_step (h : Settled s) (hup : s.row.up = false) (hs : step s e = some s') :
    Settled s' ∧ s'.row.up = false := by
  cases e with
  | tick =>
      simp only [step, h.cleared] at hs
      simp at hs
  | counted k bullCounts now =>
      simp only [step] at hs
      split_ifs at hs with hc
      exact absurd (Bool.eq_false_of_not_eq_true hc.2) (h.ended _ (List.mem_of_getElem? hc.1))
  | beat k =>
      simp only [step] at hs
      split at hs
      · rename_i count timestamp hk
        exact absurd trivial (h.ended _ (List.mem_of_getElem? hk))
      · cases hs
  | heartbeatFailed k =>
      simp only [step] at hs
      split_ifs at hs
      obtain rfl := Option.some.inj hs
      exact ⟨h.set_ended k, hup⟩
  | signal =>
      simp only [step] at hs
      split_ifs at hs
      obtain rfl := Option.some.inj hs
      exact ⟨⟨rfl, h.ended⟩, hup⟩
  | written k =>
      simp only [step] at hs
      split at hs
      · obtain rfl := Option.some.inj hs
        exact ⟨⟨h.cleared, h.ended⟩, rfl⟩
      · obtain rfl := Option.some.inj hs
        exact ⟨⟨h.cleared, h.ended⟩, rfl⟩
      · cases hs
  | closed k | shutdownFailed k =>
      simp only [step] at hs
      split_ifs at hs
      obtain rfl := Option.some.inj hs
      exact ⟨⟨h.cleared, h.ended⟩, hup⟩
  | exit k =>
      simp only [step] at hs
      split_ifs at hs
      obtain rfl := Option.some.inj hs
      refine ⟨⟨h.cleared, fun c hc => ?_⟩, hup⟩
      -- a callback that waits for its count is lost with the process
      cases c with
      | counting => exact Bool.noConfusion
      | updating count timestamp => exact fun _ => h.ended _ hc trivial
      | ended => exact id
  | markLostWorkers threshold =>
      obtain rfl := Option.some.inj hs
      rw [markLost]
      split_ifs with hlost
      · rw [hup] at hlost
        exact Bool.noConfusion hlost.1
      · exact ⟨h, hup⟩

/-! ## After `DRAINING` -/

theorem exists_beat {k count : ℕ} {timestamp : Time}
    (hk : s.heartbeats[k]? = some (.updating count timestamp)) :
    ∃ s', step s (.beat k) = some s' ∧ s'.row.up = true := by
  refine ⟨(s.heartbeat count timestamp).moveHeartbeat k .ended, ?_, ?_⟩
  · rw [step, hk]
  · simp only [moveHeartbeat, heartbeat]
    split_ifs <;> rfl

/-- **A callback under way** can still make the worker available. -/
theorem exists_up {c : HeartbeatCall} (hc : c ∈ s.heartbeats) (hflight : InFlight s.exited c) :
    ∃ es s', Run step anyStep s es s' ∧ s'.row.up = true := by
  obtain ⟨k, hk⟩ := List.getElem?_of_mem hc
  cases c with
  | counting =>
      have hcounted : step s (.counted k none 0) = some (s.moveHeartbeat k (.updating 0 0)) :=
        if_pos ⟨hk, Bool.eq_false_iff.mp hflight⟩
      have hmoved : (s.moveHeartbeat k (.updating 0 0)).heartbeats[k]? = some (.updating 0 0) :=
        List.getElem?_set_self (List.getElem?_eq_some_iff.mp hk).1
      obtain ⟨s', hbeat, hup⟩ := exists_beat hmoved
      exact ⟨_, s', (Run.nil.snoc trivial hcounted).snoc trivial hbeat, hup⟩
  | updating count timestamp =>
      obtain ⟨s', hbeat, hup⟩ := exists_beat hk
      exact ⟨_, s', Run.nil.snoc trivial hbeat, hup⟩
  | ended => exact hflight.elim

section Selectors

variable {ρ : Type} [LinearOrder ρ] (div : ℤ → ℤ → ρ)

/-- The row is neither `ONLINE` nor `BUSY`, and neither selector considers it. -/
def Unavailable (w : WorkerNode) : Prop :=
  w.status ≠ .online ∧ w.status ≠ .busy ∧
    (∀ job workers, w ∉ LoadBalancer.filterEligible job workers) ∧
    ∀ rows jobType, WorkerRepository.findBestWorker div rows jobType ≠ some w

/-- The row is unavailable, whatever happens from here on. -/
def StaysDown (s : WorkerNodeProcess) : Prop :=
  ∀ es s', Run step anyStep s es s' → Unavailable div s'.row

theorem unavailable_iff {w : WorkerNode} : Unavailable div w ↔ w.up = false := by
  constructor
  · rintro ⟨honline, hbusy, -⟩
    simp [WorkerNode.up, honline, hbusy]
  · intro hup
    have hne : w.status ≠ .online ∧ w.status ≠ .busy := by
      simpa [WorkerNode.up] using hup
    refine ⟨hne.1, hne.2, fun job workers hw => ?_, fun rows jobType hw => ?_⟩
    · simpa [hup] using (List.mem_filter.mp hw).2
    · have helig := (WorkerRepository.findBestWorker_eq_some hw).2.1
      simp [WorkerNode.eligible, hup] at helig

/-- **A settled worker stays down.** -/
theorem staysDown_of_settled (h : Settled s) (hup : s.row.up = false) : StaysDown div s := by
  intro es s' hrun
  have hboth : Settled s' ∧ s'.row.up = false :=
    hrun.stable (P := fun s => Settled s ∧ s.row.up = false) ⟨h, hup⟩
      fun _ _ _ _ hP _ hs => settled_step hP.1 hP.2 hs
  exact (unavailable_iff div).mpr hboth.2

/-- **A worker that shut down stays down** exactly when, at the time `DRAINING` is written, no
heartbeat callback is under way. -/
theorem stays_down_iff {id : String} {jobTypes : List String} {maxConcurrency : ℤ} {now : Time}
    {es : List Event} {s s' : WorkerNodeProcess} {k : ℕ}
    (h : Run step anyStep (start id jobTypes maxConcurrency now) es s)
    (hk : s.shutdowns[k]? = some .draining) (hs : step s (.written k) = some s') :
    StaysDown div s' ↔ ∀ c ∈ s.heartbeats, ¬ InFlight s.exited c := by
  have hcleared : s.shutdowns ≠ [] → s.heartbeatTimer = false :=
    h.stable (P := fun s => s.shutdowns ≠ [] → s.heartbeatTimer = false)
      (fun hne => absurd rfl hne) fun _ _ _ _ hP _ hs => cleared_step hP hs
  rw [step, hk] at hs
  obtain rfl := Option.some.inj hs
  constructor
  · intro hdown c hc hflight
    obtain ⟨es', s', hrun, hup⟩ :=
      exists_up (s := (s.updateStatus .draining).moveShutdown k .closing) hc hflight
    rw [(unavailable_iff div).mp (hdown es' s' hrun)] at hup
    cases hup
  · intro hended
    refine staysDown_of_settled div ⟨hcleared fun hnil => ?_, hended⟩ rfl
    rw [hnil] at hk
    cases hk

end Selectors

/-! ## A shutdown after a heartbeat -/

/-- A worker that is to write `DRAINING`, with one heartbeat callback. -/
def shuttingDown (c : HeartbeatCall) : WorkerNodeProcess :=
  { start "w1" ["CUSTOM"] 5 0 with
    heartbeatTimer := false, heartbeats := [c], shutdowns := [.draining] }

/-- The count of the callback has failed, and the worker stays down. -/
theorem shutdown_after_heartbeat :
    ∃ s', step (shuttingDown .ended) (.written 0) = some s' ∧ StaysDown quotient s' := by
  obtain ⟨s, hrun, hp⟩ := exists_run_of_check step anyStep (start "w1" ["CUSTOM"] 5 0)
    [.tick, .heartbeatFailed 0, .signal] (fun s => s = shuttingDown .ended) (by decide)
  obtain rfl := of_decide_eq_true hp
  have hwritten : (shuttingDown .ended).shutdowns[0]? = some .draining := rfl
  exact ⟨_, rfl, (stays_down_iff quotient hrun hwritten rfl).mpr (by decide)⟩

/-- **The update of the callback is on its way** when `DRAINING` is written, and the worker is
`ONLINE` again. -/
theorem heartbeat_after_draining : ¬ ∀ (es : List Event) (s s' : WorkerNodeProcess) (k : ℕ),
    Run step anyStep (start "w1" ["CUSTOM"] 5 0) es s → s.shutdowns[k]? = some .draining →
      step s (.written k) = some s' → StaysDown quotient s' := by
  intro hall
  obtain ⟨s, hrun, hp⟩ := exists_run_of_check step anyStep (start "w1" ["CUSTOM"] 5 0)
    [.tick, .counted 0 (some 0) 1, .signal] (fun s => s = shuttingDown (.updating 0 1)) (by decide)
  obtain rfl := of_decide_eq_true hp
  have hdown := hall _ _ _ 0 hrun rfl rfl
  exact (hdown [.beat 0] _ (Run.nil.snoc trivial rfl)).1 rfl

end WorkerNodeProcess

end TaskOrchestration

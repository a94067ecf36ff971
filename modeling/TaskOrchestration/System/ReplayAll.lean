import TaskOrchestration.System.Replay

set_option autoImplicit false

/-!
# Requests to replay

`replayDLQEntry` is one replay. `replayAllDLQ` lists the newest 101 entries and replays them one
after the other; a replay that throws is counted out, and the next one follows.

* `ReplayAll`: where a request of `replayAllDLQ` stands; `Replayer`: the system with its
  requests; `Replayer.step`;
* `sys_step`: the system under the requests makes its own steps;
* `replays`: what has become of the entries of a job;
* **`replayed_at_most_once`**; `replayed_twice`.
-/

namespace TaskOrchestration

open LabelledRun

/-- **Where a request of `replayAllDLQ` stands.** `current` is the operation of the replay that it
waits for. -/
inductive ReplayAll
  | listing
  | replaying (rest : List JobId) (current : Option ℕ)
  | done
  deriving DecidableEq, Repr

/-- The system with the requests of `replayAllDLQ`. -/
structure Replayer where
  sys : Sys
  requests : List ReplayAll

namespace Replayer

/-- The system makes a step; a request of `replayAllDLQ` arrives, lists the entries, goes on to
its next entry, or ends with its process. A request of `replayDLQEntry` is a `replayJob` that
starts. -/
inductive Event
  | system (e : TaskOrchestration.Event)
  | replayAllDLQ
  | list (request : ℕ) (outcome : Outcome)
  | next (request : ℕ)
  | stop (request : ℕ)
  deriving DecidableEq, Repr

def init : Replayer := ⟨.init, []⟩

def setRequest (d : Replayer) (request : ℕ) (r : ReplayAll) : Replayer :=
  { d with requests := d.requests.set request r }

/-- The replay that a request waits for is over. -/
def Waited (s : Sys) (current : Option ℕ) : Prop := ∀ run ∈ current, s.ops[run]? = some .finished

instance (s : Sys) (current : Option ℕ) : Decidable (Waited s current) := by
  unfold Waited; infer_instance

def step (cfg : Config) (d : Replayer) : Event → Option Replayer
  | .system e => (d.sys.step cfg e).map fun s => { d with sys := s }
  | .replayAllDLQ => some { d with requests := d.requests ++ [.listing] }
  | .list request outcome =>
      match d.requests[request]? with
      | some .listing => some (d.setRequest request
          (if outcome = .ok then
            .replaying ((d.sys.store.dlq.listEntries 0 100).map (·.originalJobId)) none
          else .done))
      | _ => none
  | .next request =>
      match d.requests[request]? with
      | some (.replaying rest current) =>
          if Waited d.sys current then
            match rest with
            | [] => some (d.setRequest request .done)
            | id :: rest => (d.sys.step cfg (.start (.replayJob id))).map fun s =>
                { d.setRequest request (.replaying rest (some d.sys.ops.length)) with sys := s }
          else none
      | _ => none
  | .stop request =>
      match d.requests[request]? with
      | some _ => some (d.setRequest request .done)
      | none => none

variable {cfg : Config} {d d' : Replayer} {e : Event} {es : List Event}

/-- **The system under the requests** makes the step it is told, or stays, or a request starts its
next replay. -/
theorem sys_step (h : d.step cfg e = some d') :
    (∃ e₀, e = .system e₀ ∧ d.sys.step cfg e₀ = some d'.sys) ∨
      (∀ e₀, e ≠ .system e₀) ∧ (d'.sys = d.sys ∨
        ∃ id, d.sys.step cfg (.start (.replayJob id)) = some d'.sys) := by
  cases e with
  | system e₀ =>
      obtain ⟨s, hs, rfl⟩ := Option.map_eq_some_iff.mp h
      exact .inl ⟨e₀, rfl, hs⟩
  | replayAllDLQ =>
      obtain rfl := Option.some.inj h
      exact .inr ⟨fun _ he => Event.noConfusion he, .inl rfl⟩
  | list request outcome =>
      refine .inr ⟨fun _ he => Event.noConfusion he, .inl ?_⟩
      rw [step] at h
      split at h
      · rw [← Option.some.inj h]
        rfl
      · cases h
  | next request =>
      refine .inr ⟨fun _ he => Event.noConfusion he, ?_⟩
      rw [step] at h
      split at h
      · rename_i rest current _
        split_ifs at h
        cases rest with
        | nil =>
            rw [← Option.some.inj h]
            exact .inl rfl
        | cons id rest =>
            obtain ⟨s, hs, rfl⟩ := Option.map_eq_some_iff.mp h
            exact .inr ⟨id, hs⟩
      · cases h
  | stop request =>
      refine .inr ⟨fun _ he => Event.noConfusion he, .inl ?_⟩
      rw [step] at h
      split at h
      · rw [← Option.some.inj h]
        rfl
      · cases h

/-- **Each entry is replayed alone**, whoever has asked for the replay. -/
def OneReplay (d : Replayer) : Event → Prop
  | .system e => d.sys.OneReplay e
  | _ => True

instance (d : Replayer) : DecidablePred d.OneReplay := fun e => by
  cases e <;> unfold OneReplay <;> infer_instance

/-- What has become of the entries of the job `k` after the events of a list. -/
def replays (cfg : Config) (k : JobId) (es : List Event) : Replays :=
  observe (step cfg) (fun b d e =>
    match e with
    | .system e => b.next cfg k d.sys e
    | _ => b) .start init es

/-- **An entry of the dead letter queue gives rise to at most one entry of the main queue**, in
every run in which each entry is replayed alone. -/
theorem replayed_at_most_once (h : Run (step cfg) (stateGuard OneReplay) init es d) (k : JobId)
    (n : ℕ) : (replays cfg k es).added n ≤ 1 := by
  have hinv : d.sys.Tidy ∧ Sys.Single k (replays cfg k es) d.sys := by
    induction h with
    | nil => exact ⟨Sys.tidy_init, Sys.single_init k⟩
    | @snoc es d d' e hr hg hs ih =>
        obtain ⟨ht, hsingle⟩ := ih
        rw [replays, observe_snoc hr.runEvents_eq hs, ← replays]
        rcases sys_step hs with ⟨e₀, rfl, hs₀⟩ | ⟨hne, hstay⟩
        · exact ⟨Sys.tidy_step ht hs₀, Sys.single_step ht hsingle hg hs₀⟩
        · have hsame : Sys.Tidy d'.sys ∧ Sys.Single k (replays cfg k es) d'.sys := by
            rcases hstay with heq | ⟨id, hs₀⟩
            · rw [heq]
              exact ⟨ht, hsingle⟩
            · have hg₀ : d.sys.OneReplay (.start (.replayJob id)) := trivial
              exact ⟨Sys.tidy_step ht hs₀, Sys.single_step ht hsingle hg₀ hs₀⟩
          cases e with
          | system e₀ => exact absurd rfl (hne e₀)
          | _ => exact hsame
  exact hinv.2.once n

/-- `a` fails, and `replayAllDLQ` replays its entry. -/
def replayedOnce : List Event :=
  Sys.lastAttempt.map .system ++ [.replayAllDLQ, .list 0 .ok, .next 0,
    .system (.call 4 false 12 .ok []), .system (.call 4 false 13 .ok []),
    .system (.call 4 false 14 .ok []), .next 0]

theorem replayed_once : (replays {} "a" replayedOnce).added 1 = 1 ∧
    ∀ n, (replays {} "a" replayedOnce).added n ≤ 1 := by
  obtain ⟨d, hd, -⟩ := exists_run_of_check (step {}) (stateGuard OneReplay) init replayedOnce
    (fun _ => true) (by decide)
  exact ⟨by decide, replayed_at_most_once hd "a"⟩

/-- `replayAllDLQ` and `replayDLQEntry` both read the entry of `a` before one of them removes
it. -/
def replayedByBoth : List Event :=
  Sys.lastAttempt.map .system ++ [.replayAllDLQ, .list 0 .ok, .next 0,
    .system (.start (.replayJob "a")), .system (.call 4 false 12 .ok []),
    .system (.call 5 false 13 .ok []), .system (.call 4 false 14 .ok []),
    .system (.call 5 false 15 .ok []), .system (.call 4 false 16 .ok []),
    .system (.call 5 false 17 .ok [])]

/-- **One entry is added twice.** -/
theorem replayed_twice : ∃ d, Run (step {}) anyStep init replayedByBoth d ∧
    ((d.sys.store.queue.entries.find? (.auto 2)).map fun en => en.data.jobId) = some "a" ∧
    ((d.sys.store.queue.entries.find? (.auto 3)).map fun en => en.data.jobId) = some "a" ∧
    ¬ (replays {} "a" replayedByBoth).added 1 ≤ 1 := by
  obtain ⟨d, hd, hp⟩ := exists_run_of_check (step {}) anyStep init replayedByBoth
    (fun d => ((d.sys.store.queue.entries.find? (.auto 2)).map fun en => en.data.jobId) = some "a" ∧
      ((d.sys.store.queue.entries.find? (.auto 3)).map fun en => en.data.jobId) = some "a")
    (by decide)
  obtain ⟨h₁, h₂⟩ := of_decide_eq_true hp
  exact ⟨d, hd, h₁, h₂, by decide +kernel⟩

end Replayer

end TaskOrchestration

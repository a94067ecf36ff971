import Mathlib.Logic.Function.Basic
import Mathlib.Data.List.ReduceOption
import TaskOrchestration.Job.Model
import TaskOrchestration.Lib.Edges
import TaskOrchestration.Lib.Run

set_option autoImplicit false

/-!
# The alert manager

Runs of `evaluate` may overlap: each is cut at its awaits, before the state of a rule is read and
after a notification has been started.

* `AlertRule`, `AlertRules`, `buildRules`; `AlertState`;
* `NotificationPayload`, `notifyJobFailed`: what a notification sends;
* `Progress`, `AlertManager`, `AlertEvent`, `AlertManager.step`, `getAlertStates`;
* `outcomes`, `AlertManager.detector`; `detector_step`, `detector_run`: each rule is a detector of
  rising edges; **`alert_edges`**.
-/

namespace TaskOrchestration

open Edges LabelledRun

/-! ## The rules -/

inductive Severity
  | warning | critical
  deriving DecidableEq, Repr

/-- A rule; `evaluate` is given the number that its query has returned. -/
structure AlertRule where
  name : String
  description : String
  severity : Severity
  evaluate : ℕ → Bool

/-- Rules with different names. -/
structure AlertRules where
  list : List AlertRule
  nodup : (list.map AlertRule.name).Nodup

def buildRules : AlertRules where
  list :=
    [{ name := "NO_ACTIVE_WORKERS"
       description := "No active worker nodes detected"
       severity := .critical
       evaluate := fun workers => workers = 0 },
     { name := "DLQ_THRESHOLD"
       description := "Dead letter queue has more than 50 entries"
       severity := .warning
       evaluate := fun count => 50 < count },
     { name := "HIGH_QUEUE_DEPTH"
       description := "Main job queue has more than 5000 waiting jobs"
       severity := .warning
       evaluate := fun waiting => 5000 < waiting }]
  nodup := by decide

/-- `AlertState`. A rule without an entry has the default one. -/
structure AlertState where
  firing : Bool := false
  lastFiredAt : Option Time := none
  lastResolvedAt : Option Time := none
  firingCount : ℕ := 0
  deriving DecidableEq, Repr

/-! ## Notifications -/

/-- The part of a job that a notification reads. -/
structure NotifiedJob where
  id : String
  name : String
  type : JobType
  priority : JobPriority
  retryCount : ℕ
  errorMessage : String
  deriving DecidableEq, Repr

structure NotificationPayload where
  event : String
  timestamp : Time
  job : NotifiedJob
  deriving DecidableEq, Repr

def notifyJobFailed (now : Time) (job : NotifiedJob) : NotificationPayload :=
  ⟨"job.failed", now, job⟩

def alertJob (rule : AlertRule) : NotifiedJob where
  id := "alert"
  name := rule.name
  type := .custom
  priority := if rule.severity = .critical then .critical else .high
  retryCount := 0
  errorMessage := rule.description

/-! ## Runs of `evaluate` -/

/-- Where a run of `evaluate` stands, with the rules that it has still to take. -/
inductive Progress
  | evaluating (rule : AlertRule) (rest : List AlertRule)
  | notifying (rest : List AlertRule)
  | done

def Progress.next : List AlertRule → Progress
  | [] => .done
  | rule :: rest => .evaluating rule rest

/-- The manager: the map of its alert states, the runs of `evaluate` in the order in which they
began, and the notifications that have been started. -/
structure AlertManager where
  state : String → Option AlertState := fun _ => none
  runs : List Progress := []
  notified : List NotificationPayload := []

/-- `this.state.get(rule.name) ?? { firing: false, firingCount: 0 }`. -/
def AlertManager.stateOf (m : AlertManager) (name : String) : AlertState :=
  (m.state name).getD {}

/-- What happens. A run begins, by the timer or by a call; the query of a rule returns a number, or
throws; a notification settles. The dates are those that the code then reads. -/
inductive AlertEvent
  | evaluate
  | evaluated (run : ℕ) (name : String) (result : Option ℕ) (now sentAt : Time)
  | settled (run : ℕ)
  deriving DecidableEq, Repr

def AlertManager.advance (m : AlertManager) (run : ℕ) (progress : Progress) : AlertManager :=
  { m with runs := m.runs.set run progress }

/-- The alert starts firing. The entry is written anew: it loses `lastResolvedAt`. -/
def AlertManager.fire (m : AlertManager) (rule : AlertRule) (now sentAt : Time) : AlertManager where
  state := Function.update m.state rule.name (some
    { firing := true
      lastFiredAt := some now
      firingCount := (m.stateOf rule.name).firingCount + 1 })
  runs := m.runs
  notified := m.notified ++ [notifyJobFailed sentAt (alertJob rule)]

def AlertManager.resolve (m : AlertManager) (rule : AlertRule) (now : Time) : AlertManager :=
  { m with
    state := Function.update m.state rule.name (some
      { m.stateOf rule.name with firing := false, lastResolvedAt := some now }) }

/-- `evaluate`, from the await of a rule to the next await. An error is logged. -/
def AlertManager.evaluated (m : AlertManager) (run : ℕ) (rule : AlertRule) (rest : List AlertRule)
    (result : Option ℕ) (now sentAt : Time) : AlertManager :=
  match result with
  | none => m.advance run (.next rest)
  | some n =>
      if rule.evaluate n && !(m.stateOf rule.name).firing then
        (m.fire rule now sentAt).advance run (.notifying rest)
      else if !rule.evaluate n && (m.stateOf rule.name).firing then
        (m.resolve rule now).advance run (.next rest)
      else m.advance run (.next rest)

def AlertManager.step (rules : AlertRules) (m : AlertManager) : AlertEvent → Option AlertManager
  | .evaluate => some { m with runs := m.runs ++ [.next rules.list] }
  | .evaluated run name result now sentAt =>
      match m.runs[run]? with
      | some (.evaluating rule rest) =>
          if rule.name = name then some (m.evaluated run rule rest result now sentAt) else none
      | _ => none
  | .settled run =>
      match m.runs[run]? with
      | some (.notifying rest) => some (m.advance run (.next rest))
      | _ => none

/-- What `getAlertStates` returns for a rule. -/
structure RuleState where
  state : AlertState
  ruleName : String
  severity : Severity
  deriving DecidableEq, Repr

def getAlertStates (rules : AlertRules) (m : AlertManager) : String → Option RuleState :=
  rules.list.foldl (fun result rule =>
    Function.update result rule.name (some ⟨m.stateOf rule.name, rule.name, rule.severity⟩))
    fun _ => none

/-! ## The outcomes of a rule -/

/-- The outcome of `rule` that an event brings: `true`, `false`, or an error. -/
def outcomeOf (rule : AlertRule) : AlertEvent → Option (Option Bool)
  | .evaluated _ name result _ _ =>
      if name = rule.name then some (result.map rule.evaluate) else none
  | _ => none

/-- The outcomes of `rule`, in the order in which they arrive. -/
def outcomes (rule : AlertRule) (es : List AlertEvent) : List (Option Bool) :=
  es.filterMap (outcomeOf rule)

/-- What the entry of a rule keeps of its outcomes. -/
def AlertManager.detector (m : AlertManager) (name : String) : Detector :=
  ⟨(m.stateOf name).firing, (m.stateOf name).firingCount⟩

/-- The notifications that have been started for a rule. -/
def AlertManager.sent (m : AlertManager) (name : String) : ℕ :=
  m.notified.countP fun payload => payload.job.name = name

section Steps

variable (m : AlertManager) (run : ℕ) (rule : AlertRule) (rest : List AlertRule)
  (now sentAt : Time) (name : String)

@[simp] theorem detector_advance (progress : Progress) :
    (m.advance run progress).detector name = m.detector name := rfl

@[simp] theorem sent_advance (progress : Progress) :
    (m.advance run progress).sent name = m.sent name := rfl

theorem detector_fire : (m.fire rule now sentAt).detector name =
    if name = rule.name then ⟨true, (m.detector name).count + 1⟩ else m.detector name := by
  simp only [AlertManager.detector, AlertManager.stateOf, AlertManager.fire,
    Function.update_apply]
  split_ifs with h
  · rw [h]
    rfl
  · rfl

theorem detector_resolve : (m.resolve rule now).detector name =
    if name = rule.name then ⟨false, (m.detector name).count⟩ else m.detector name := by
  simp only [AlertManager.detector, AlertManager.stateOf, AlertManager.resolve,
    Function.update_apply]
  split_ifs with h
  · rw [h]
    rfl
  · rfl

@[simp] theorem sent_fire : (m.fire rule now sentAt).sent name =
    m.sent name + if rule.name = name then 1 else 0 := by
  simp [AlertManager.sent, AlertManager.fire, notifyJobFailed, alertJob, List.countP_singleton]

@[simp] theorem sent_resolve : (m.resolve rule now).sent name = m.sent name := rfl

/-- **A rule is a detector**: it observes each outcome that is not an error, and an outcome of
another rule leaves it alone. -/
theorem detector_evaluated (result : Option ℕ) :
    (m.evaluated run rule rest result now sentAt).detector name =
      if name = rule.name
      then (result.map rule.evaluate).toList.foldl Detector.observe (m.detector name)
      else m.detector name := by
  cases result with
  | none => simp [AlertManager.evaluated]
  | some n =>
      have hfiring : (m.stateOf rule.name).firing = (m.detector rule.name).high := rfl
      rw [AlertManager.evaluated, hfiring]
      by_cases hname : name = rule.name
      · subst hname
        simp only [if_true, Option.map_some, Option.toList_some, List.foldl_cons, List.foldl_nil]
        cases hn : rule.evaluate n <;> cases hhigh : (m.detector rule.name).high
        · simpa [hhigh] using (Detector.observe_high (m.detector rule.name)).symm
        · simp [detector_resolve, Detector.observe]
        · simp [detector_fire, Detector.observe, hhigh]
        · simpa [hhigh] using (Detector.observe_high (m.detector rule.name)).symm
      · rw [if_neg hname]
        split_ifs
        · rw [detector_advance, detector_fire, if_neg hname]
        · rw [detector_advance, detector_resolve, if_neg hname]
        · rfl

/-- **One notification** is started for each rising edge. -/
theorem sent_evaluated (result : Option ℕ) :
    (m.evaluated run rule rest result now sentAt).sent name + (m.detector name).count =
      m.sent name + ((m.evaluated run rule rest result now sentAt).detector name).count := by
  cases result with
  | none => rfl
  | some n =>
      rw [AlertManager.evaluated]
      split_ifs
      · simp only [sent_advance, sent_fire, detector_advance, detector_fire]
        by_cases hname : name = rule.name
        · rw [if_pos hname.symm, if_pos hname]
          dsimp only
          omega
        · rw [if_neg (Ne.symm hname), if_neg hname, Nat.add_zero]
      · simp only [sent_advance, sent_resolve, detector_advance, detector_resolve]
        split_ifs <;> rfl
      · rfl

end Steps

/-! ## All runs -/

def Progress.rules : Progress → List AlertRule
  | .evaluating rule rest => rule :: rest
  | .notifying rest => rest
  | .done => []

@[simp] theorem Progress.rules_next (l : List AlertRule) : (Progress.next l).rules = l := by
  cases l <;> rfl

/-- All runs take the rules of the manager. -/
def AlertManager.Takes (rules : AlertRules) (m : AlertManager) : Prop :=
  ∀ p ∈ m.runs, p.rules ⊆ rules.list

variable {rules : AlertRules} {rule : AlertRule} {m m' : AlertManager} {e : AlertEvent}

theorem takes_set {run : ℕ} {p : Progress} (hm : m.Takes rules) (hp : p.rules ⊆ rules.list)
    (hruns : m'.runs = m.runs.set run p) : m'.Takes rules := by
  intro q hq
  rw [hruns] at hq
  rcases List.mem_or_eq_of_mem_set hq with hq | rfl
  · exact hm q hq
  · exact hp

theorem exists_runs_evaluated (m : AlertManager) (run : ℕ) (rule : AlertRule)
    (rest : List AlertRule) (result : Option ℕ) (now sentAt : Time) :
    ∃ p : Progress, p.rules = rest ∧
      (m.evaluated run rule rest result now sentAt).runs = m.runs.set run p := by
  cases result with
  | none => exact ⟨.next rest, Progress.rules_next rest, rfl⟩
  | some n =>
      rw [AlertManager.evaluated]
      split_ifs
      · exact ⟨.notifying rest, rfl, rfl⟩
      · exact ⟨.next rest, Progress.rules_next rest, rfl⟩
      · exact ⟨.next rest, Progress.rules_next rest, rfl⟩

theorem takes_step (hm : m.Takes rules) (h : m.step rules e = some m') : m'.Takes rules := by
  cases e with
  | evaluate =>
      obtain rfl := Option.some.inj h
      intro p hp
      rcases List.mem_append.mp hp with hp | hp
      · exact hm p hp
      · rw [List.mem_singleton.mp hp, Progress.rules_next]
        exact List.Subset.refl _
  | evaluated run name result now sentAt =>
      simp only [AlertManager.step] at h
      split at h
      · rename_i rule rest hrun
        split_ifs at h
        obtain rfl := Option.some.inj h
        obtain ⟨p, hp, hruns⟩ := exists_runs_evaluated m run rule rest result now sentAt
        have hrest := hm _ (List.mem_of_getElem? hrun)
        exact takes_set hm (hp ▸ List.subset_of_cons_subset hrest) hruns
      · cases h
  | settled run =>
      simp only [AlertManager.step] at h
      split at h
      · rename_i rest hrun
        obtain rfl := Option.some.inj h
        have hrest : rest ⊆ rules.list := hm _ (List.mem_of_getElem? hrun)
        exact takes_set hm (by rwa [Progress.rules_next]) rfl
      · cases h

/-- **One event** brings a rule at most one outcome, and its detector observes it. -/
theorem detector_step (hm : m.Takes rules) (hrule : rule ∈ rules.list)
    (h : m.step rules e = some m') :
    m'.detector rule.name =
        (outcomes rule [e]).reduceOption.foldl Detector.observe (m.detector rule.name) ∧
      m'.sent rule.name + (m.detector rule.name).count =
        m.sent rule.name + (m'.detector rule.name).count := by
  cases e with
  | evaluate =>
      obtain rfl := Option.some.inj h
      exact ⟨rfl, rfl⟩
  | evaluated run name result now sentAt =>
      simp only [AlertManager.step] at h
      split at h
      · rename_i taken rest hrun
        split_ifs at h with hname
        obtain rfl := Option.some.inj h
        refine ⟨?_, sent_evaluated ..⟩
        rw [detector_evaluated]
        by_cases hsame : rule.name = taken.name
        · have htaken := hm _ (List.mem_of_getElem? hrun) List.mem_cons_self
          obtain rfl := List.inj_on_of_nodup_map rules.nodup hrule htaken hsame
          simp [outcomes, outcomeOf, hname, List.reduceOption_singleton]
        · have hother : name ≠ rule.name := fun hn => hsame (hn.symm.trans hname.symm)
          rw [if_neg hsame]
          simp [outcomes, outcomeOf, hother]
      · cases h
  | settled run =>
      simp only [AlertManager.step] at h
      split at h
      · obtain rfl := Option.some.inj h
        exact ⟨rfl, rfl⟩
      · cases h

/-- **After every run** the detector has observed all outcomes, and one notification is out for each
edge. -/
theorem detector_run {es : List AlertEvent} (hrule : rule ∈ rules.list)
    (h : Run (AlertManager.step rules) anyStep {} es m) :
    m.Takes rules ∧
      m.detector rule.name = (outcomes rule es).reduceOption.foldl Detector.observe ⟨false, 0⟩ ∧
      m.sent rule.name = (m.detector rule.name).count := by
  refine h.inv (I := fun es m => m.Takes rules ∧
    m.detector rule.name = (outcomes rule es).reduceOption.foldl Detector.observe ⟨false, 0⟩ ∧
    m.sent rule.name = (m.detector rule.name).count) ⟨nofun, rfl, rfl⟩ ?_
  rintro es m e m' ⟨htakes, hdetector, hsent⟩ - hstep
  obtain ⟨hd, hs⟩ := detector_step htakes hrule hstep
  refine ⟨takes_step htakes hstep, ?_, by omega⟩
  rw [hd, hdetector, outcomes, outcomes, outcomes, List.filterMap_append,
    List.reduceOption_append, List.foldl_append]

theorem foldl_update_of_ne {α : Type} {value : AlertRule → α} {name : String}
    {l : List AlertRule} (h : name ∉ l.map AlertRule.name) (f : String → Option α) :
    l.foldl (fun (f : String → Option α) rule =>
      Function.update f rule.name (some (value rule))) f name = f name := by
  induction l generalizing f with
  | nil => rfl
  | cons r l ih =>
      rw [List.map_cons, List.mem_cons, not_or] at h
      rw [List.foldl_cons, ih h.2, Function.update_of_ne h.1]

/-- **Every rule** is reported with its state. -/
theorem getAlertStates_eq (m : AlertManager) (hrule : rule ∈ rules.list) :
    getAlertStates rules m rule.name =
      some ⟨m.stateOf rule.name, rule.name, rule.severity⟩ := by
  obtain ⟨pre, post, hl⟩ := List.append_of_mem hrule
  have hnodup := rules.nodup
  rw [hl, List.map_append, List.map_cons, List.nodup_middle, List.nodup_cons, List.mem_append,
    not_or] at hnodup
  rw [getAlertStates, hl, List.foldl_append, List.foldl_cons, foldl_update_of_ne hnodup.1.2,
    Function.update_self]

/-- **An alert fires once for each rising edge** of its outcomes, errors left out. -/
theorem alert_edges (rules : AlertRules) {es : List AlertEvent} {m : AlertManager}
    (h : Run (AlertManager.step rules) anyStep {} es m) {rule : AlertRule}
    (hrule : rule ∈ rules.list) :
    ∃ r, getAlertStates rules m rule.name = some r ∧
      r.state.firing = level false (outcomes rule es).reduceOption ∧
      r.state.firingCount = rises false (outcomes rule es).reduceOption ∧
      m.notified.countP (fun payload => payload.job.name = rule.name) = r.state.firingCount := by
  obtain ⟨-, hdetector, hsent⟩ := detector_run hrule h
  rw [foldl_observe, Nat.zero_add] at hdetector
  exact ⟨_, getAlertStates_eq m hrule, congrArg Detector.high hdetector,
    congrArg Detector.count hdetector, hsent⟩

/-! ## Overlapping runs -/

def highQueueDepth : AlertRule := buildRules.list.get ⟨2, by decide⟩

/-- Two runs that overlap find the queue long; the next run finds it short, and the last one long
again. -/
def overlapping : List AlertEvent :=
  [.evaluate, .evaluated 0 "NO_ACTIVE_WORKERS" (some 2) 0 0, .evaluated 0 "DLQ_THRESHOLD" none 0 0,
    .evaluate, .evaluated 1 "NO_ACTIVE_WORKERS" (some 2) 1 1, .evaluated 1 "DLQ_THRESHOLD" none 1 1,
    .evaluated 1 "HIGH_QUEUE_DEPTH" (some 6000) 2 2,
    .evaluated 0 "HIGH_QUEUE_DEPTH" (some 6000) 3 3, .evaluate,
    .evaluated 2 "NO_ACTIVE_WORKERS" (some 2) 4 4, .evaluated 2 "DLQ_THRESHOLD" none 4 4,
    .evaluated 2 "HIGH_QUEUE_DEPTH" (some 10) 5 5, .settled 1,
    .evaluate, .evaluated 3 "NO_ACTIVE_WORKERS" none 6 6, .evaluated 3 "DLQ_THRESHOLD" none 6 6,
    .evaluated 3 "HIGH_QUEUE_DEPTH" (some 7000) 7 7]

theorem queue_alert_fires_twice :
    ∃ m r, Run (AlertManager.step buildRules) anyStep {} overlapping m ∧
      getAlertStates buildRules m highQueueDepth.name = some r ∧ r.state.firing = true ∧
      r.state.firingCount = 2 := by
  obtain ⟨m, hm, -⟩ := exists_run_of_check (AlertManager.step buildRules) anyStep {} overlapping
    (fun m => m.notified.length = 2) (by decide)
  have hrule : highQueueDepth ∈ buildRules.list := List.get_mem _ _
  obtain ⟨r, hr, hfiring, hcount, -⟩ := alert_edges buildRules hm hrule
  have houtcomes : (outcomes highQueueDepth overlapping).reduceOption =
      [true, true, false, true] := by decide
  rw [houtcomes] at hfiring hcount
  exact ⟨m, r, hm, hr, hfiring, hcount⟩

end TaskOrchestration

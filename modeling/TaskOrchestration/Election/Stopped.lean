import TaskOrchestration.Election.Role

set_option autoImplicit false

/-!
# A stopped election

`stop` clears the handles that the instance has kept, and releases the lock of a leader. A campaign
whose call is in flight does not look at `isRunning` when the reply comes.

* `Quiet`: once `stop` has returned the instance is no leader, and its interval is not armed;
* `Tidy`: what the fields of an instance say about each other;
* `Undisturbed`: `stop` returns when nothing but its own interval was armed, and no campaign
  acquires the lock later;
* **`stopped_iff`**: the stopped instances stay quiet all along the undisturbed runs, and these
  only.
-/

namespace TaskOrchestration

open Lease LabelledRun

namespace LeaderElection

variable {x : LeaderElection} {now ms : ℕ}

/-- **A stopped instance is no leader**, and its renewal interval is not armed. -/
def Quiet (x : LeaderElection) : Prop :=
  x.halted = true → x.role ≠ .leader ∧ x.intervals = 0

/-- A stopped instance does not run, and `campaignTimer` is the handle of such a timer. -/
structure Tidy (x : LeaderElection) : Prop where
  stopped : x.halted = true → x.isRunning = false
  names : ∀ h, x.campaignTimer = some h → x.timers.Names h .campaign

/-- The only interval that is armed is the one that `renewalTimer` names. -/
def OneInterval (x : LeaderElection) : Prop :=
  ∀ t ∈ x.timers.armed, t.label = .renewal → x.renewalTimer = some t.id

theorem intervals_clear_le (h : Option ℕ) :
    (x.timers.clear h).count (· == .renewal) ≤ x.intervals := by
  cases h with
  | none => exact Nat.le_refl _
  | some n => exact Nat.le_of_add_right_le (Nat.le_of_eq (x.timers.count_clear n (· == .renewal)))

theorem Tidy.started (h : Tidy x) : Tidy x.started := ⟨fun hx => Bool.noConfusion hx, h.names⟩

theorem Tidy.campaigning (h : Tidy x) : Tidy x.campaigning := ⟨h.stopped, h.names⟩

theorem Tidy.scheduleCampaign (h : Tidy x) : Tidy (x.scheduleCampaign now ms) where
  stopped := h.stopped
  names n hn := by
    obtain rfl := Option.some.inj hn
    exact .next x.timers .campaign _

theorem Tidy.becomeLeader (h : Tidy x) : Tidy (x.becomeLeader now ms) where
  stopped := h.stopped
  names n hn := (h.names n hn).arm _ _

theorem Tidy.becomeFollower (h : Tidy x) : Tidy x.becomeFollower := ⟨h.stopped, h.names⟩

theorem Tidy.afterCampaign (h : Tidy x) (acquired : Bool) :
    Tidy (x.afterCampaign now ms acquired) := by
  cases acquired with
  | true => exact h.becomeLeader
  | false => exact h.becomeFollower.scheduleCampaign

theorem Tidy.stepDown (h : Tidy x) : Tidy (x.stepDown now) where
  stopped := h.stopped
  names n hn := ((h.names n hn).clear _).arm _ _

theorem Tidy.stopTimers (h : Tidy x) : Tidy x.stopTimers where
  stopped _ := rfl
  names n hn := ((h.names n hn).clear _).clear _

theorem Tidy.stopReturned (h : Tidy x) : Tidy x.stopped where
  stopped hx := (Bool.not_eq_true' _).mp hx
  names := h.names

theorem Tidy.timedOut (h : Tidy x) (n : ℕ) : Tidy (x.timedOut n) where
  stopped := h.stopped
  names m hm := (h.names m hm).clear _

theorem Tidy.ticked (h : Tidy x) (n due : ℕ) : Tidy (x.ticked n due) where
  stopped := h.stopped
  names m hm := (h.names m hm).rearm _ _

theorem Tidy.intervals_stopTimers (h : Tidy x) : x.stopTimers.intervals = 0 ↔ x.OneInterval := by
  have hone := EventLoop.Timers.forall_armed (T := x.timers)
    (p := fun n l => l = ElectionTimer.renewal → x.renewalTimer = some n)
  refine EventLoop.Timers.count_eq_zero.trans (Iff.trans ?_ hone.symm)
  refine ⟨fun hz n l hl hr => ?_, fun hone n l hl => ?_⟩
  · subst hr
    by_contra hne
    have hcampaign : x.campaignTimer ≠ some n := fun hc => by
      cases (h.names n hc).2 _ hl
    have := hz n .renewal (by
      change ((x.timers.clear x.campaignTimer).clear x.renewalTimer).label? n = _
      rw [EventLoop.Timers.label?_clear, if_neg hne, EventLoop.Timers.label?_clear,
        if_neg hcampaign, hl])
    cases this
  · rw [beq_eq_false_iff_ne]
    rintro rfl
    change ((x.timers.clear x.campaignTimer).clear x.renewalTimer).label? n = _ at hl
    rw [EventLoop.Timers.label?_clear, EventLoop.Timers.label?_clear] at hl
    split_ifs at hl with hr hc
    exact hr (hone n _ hl rfl)

theorem Quiet.of_le (h : Quiet x) {y : LeaderElection} (hh : y.halted = x.halted)
    (hr : y.role = .leader → x.role = .leader) (hi : y.intervals ≤ x.intervals) : Quiet y := by
  intro hy
  obtain ⟨hrole, hz⟩ := h (hh.symm.trans hy)
  exact ⟨fun hl => hrole (hr hl), Nat.le_zero.mp (hz ▸ hi)⟩

theorem Quiet.stepDown (h : Quiet x) : Quiet (x.stepDown now) := by
  refine h.of_le rfl nofun ?_
  change ((x.timers.clear x.renewalTimer).arm .sleep _).count _ ≤ _
  rw [EventLoop.Timers.count_arm]
  exact intervals_clear_le _

theorem Quiet.timedOut (h : Quiet x) (n : ℕ) : Quiet (x.timedOut n) :=
  h.of_le rfl id (intervals_clear_le _)

theorem Quiet.ticked (h : Quiet x) (n due : ℕ) : Quiet (x.ticked n due) :=
  h.of_le rfl id (Nat.le_of_eq intervals_ticked)

theorem Quiet.stopTimers (h : Quiet x) : Quiet x.stopTimers := by
  refine h.of_le rfl id ?_
  have hle := intervals_clear_le (x := { x with timers := x.timers.clear x.campaignTimer })
    x.renewalTimer
  exact Nat.le_trans hle (intervals_clear_le _)

theorem Quiet.retry (h : Quiet x) (ms : ℕ) :
    Quiet (x.becomeFollower.scheduleCampaign now ms) :=
  h.of_le rfl nofun (Nat.le_of_eq intervals_scheduleCampaign)

theorem Quiet.afterCampaign_iff (h : Quiet x) (acquired : Bool) :
    Quiet (x.afterCampaign now ms acquired) ↔ (acquired = true → x.halted = false) := by
  cases acquired with
  | true =>
      rw [imp_iff_right rfl, ← Bool.not_eq_true]
      exact ⟨fun hq hx => (hq hx).1 rfl, fun hx hq => absurd hq hx⟩
  | false => exact iff_of_true (h.retry _) nofun

end LeaderElection

namespace Elections

variable {d : Electorate} {s s' : Elections} {e : Event} {i : ℕ}

def StaysStopped (s : Elections) : Prop := ∀ i, (s.instances i).Quiet

def AllTidy (s : Elections) : Prop := ∀ i, (s.instances i).Tidy

/-- **A harmless reply**: no campaign acquires the lock for an instance that has stopped, and a
`stop` that returns has ended every interval. -/
def Harmless (s : Elections) (answer : Bool) : Caller → Prop
  | .campaign i => answer = true → (s.instances i).halted = false
  | .renewal _ => True
  | .stop i => (s.instances i).isRunning = true ∨ (s.instances i).intervals = 0

/-- **An undisturbed step.** A reply is harmless, and a `stop` that does not wait for Redis finds no
interval armed that is not its own. -/
def Undisturbed (d : Electorate) (s : Elections) : Event → Prop
  | .stop i => (s.instances i).OneInterval ∨
      ((s.instances i).role = .leader ∧ s.lock.locks (d.process i) ≠ none)
  | .reply k => ∀ p ∈ s.lock.awaited k, s.Harmless p.2 p.1.caller
  | _ => True

theorem AllTidy.modify (h : s.AllTidy) {f : LeaderElection → LeaderElection}
    (hf : ∀ x : LeaderElection, x.Tidy → (f x).Tidy) (i : ℕ) : (s.modify i f).AllTidy :=
  (Function.forall_update_iff s.instances fun _ => LeaderElection.Tidy).mpr
    ⟨hf _ (h i), fun j _ => h j⟩

theorem StaysStopped.modify_iff (h : s.StaysStopped) (i : ℕ)
    (f : LeaderElection → LeaderElection) :
    (s.modify i f).StaysStopped ↔ (f (s.instances i)).Quiet :=
  (Function.forall_update_iff s.instances fun _ => LeaderElection.Quiet).trans
    (and_iff_left fun j _ => h j)

theorem StaysStopped.modify (h : s.StaysStopped) {f : LeaderElection → LeaderElection}
    (hf : ∀ x : LeaderElection, x.Quiet → (f x).Quiet) (i : ℕ) : (s.modify i f).StaysStopped :=
  (h.modify_iff i f).mpr (hf _ (h i))

theorem tidy_campaign (h : s.AllTidy) : (s.campaign d i).AllTidy := by
  unfold campaign
  split_ifs
  · exact h.modify (fun x hx => hx.campaigning) i
  · exact h

theorem tidy_step (h : s.AllTidy) (hs : s.step d e = some s') : s'.AllTidy := by
  cases e with
  | advance ms | lose =>
      obtain rfl := Option.some.inj hs
      exact h
  | start i =>
      obtain rfl := Option.some.inj hs
      exact tidy_campaign (h.modify (fun x hx => hx.started) i)
  | stop i =>
      obtain rfl := Option.some.inj hs
      have hstop := h.modify (fun x hx => hx.stopTimers) i
      unfold stop
      dsimp only
      split_ifs
      · split
        · exact hstop.modify (fun x hx => hx.becomeFollower.stopReturned) i
        · exact hstop
      · exact hstop.modify (fun x hx => hx.stopReturned) i
  | fire i timer =>
      obtain ⟨k, -, rfl⟩ := Option.map_eq_some_iff.mp hs
      cases k with
      | renewal =>
          have htick := h.modify (fun x hx => hx.ticked timer (s.now + d.ttlMs i / 2)) i
          unfold fire
          dsimp only
          unfold renew
          split
          · exact htick.modify (fun x hx => hx.stepDown) i
          · exact htick
      | campaign | sleep => exact tidy_campaign (h.modify (fun x hx => hx.timedOut timer) i)
  | execute k =>
      obtain ⟨l, -, rfl⟩ := Option.map_eq_some_iff.mp hs
      exact h
  | reply k =>
      obtain ⟨⟨r, answer⟩, -, rfl⟩ := Option.map_eq_some_iff.mp hs
      cases hc : r.caller with
      | campaign i => exact AllTidy.modify h (fun x hx => hx.afterCampaign answer) i
      | renewal i =>
          cases answer with
          | true => exact h
          | false => exact AllTidy.modify h (fun x hx => hx.stepDown) i
      | stop i => exact AllTidy.modify h (fun x hx => hx.becomeFollower.stopReturned) i
  | reject k =>
      obtain ⟨r, -, hs⟩ := Option.bind_eq_some_iff.mp hs
      split_ifs at hs
      obtain rfl := Option.some.inj hs
      cases hc : r.caller with
      | campaign i =>
          exact AllTidy.modify h (fun x hx => hx.becomeFollower.scheduleCampaign) i
      | renewal i | stop i => exact h

theorem staysStopped_campaign (ht : s.AllTidy) (h : s.StaysStopped) :
    (s.campaign d i).StaysStopped := by
  unfold campaign
  split_ifs with hrun
  · refine (h.modify_iff i _).mpr fun hx => ?_
    exact Bool.noConfusion (hrun.symm.trans ((ht i).stopped hx))
  · exact h

theorem quiet_afterRelease_iff {x : LeaderElection} :
    x.becomeFollower.stopped.Quiet ↔ x.isRunning = true ∨ x.intervals = 0 := by
  change (!x.isRunning) = true → _ ∧ x.intervals = 0 ↔ _
  cases x.isRunning with
  | true => exact iff_of_true nofun (.inl rfl)
  | false =>
      refine ⟨fun h => .inr (h rfl).2, fun h _ => ⟨nofun, h.resolve_left nofun⟩⟩

theorem staysStopped_stop_iff (ht : s.AllTidy) (h : s.StaysStopped) :
    (s.stop d i).StaysStopped ↔ (s.instances i).OneInterval ∨
      ((s.instances i).role = .leader ∧ s.lock.locks (d.process i) ≠ none) := by
  have hstop := h.modify (fun x hx => hx.stopTimers) i
  have hx := instances_modify_self s i LeaderElection.stopTimers
  have hone := (ht i).intervals_stopTimers
  unfold stop
  dsimp only
  split_ifs with hrole
  · split
    · rename_i hl
      refine (hstop.modify_iff i _).trans (quiet_afterRelease_iff.trans ?_)
      rw [hx, hone, hl]
      exact ⟨fun h => .inl (h.resolve_left nofun), fun h => .inr (h.resolve_right fun h => h.2 rfl)⟩
    · rename_i hl
      refine iff_of_true hstop (.inr ⟨hrole, ?_⟩)
      rw [hl]
      exact nofun
  · refine (hstop.modify_iff i _).trans ?_
    rw [hx]
    change (true = true → (s.instances i).role ≠ .leader ∧
      (s.instances i).stopTimers.intervals = 0) ↔ _
    rw [imp_iff_right rfl, hone]
    exact ⟨fun h => .inl h.2, fun h => ⟨hrole, h.resolve_right fun h => hrole h.1⟩⟩

theorem staysStopped_replied_iff (h : s.StaysStopped) {answer : Bool} {c : Caller} :
    (s.replied d answer c).StaysStopped ↔ s.Harmless answer c := by
  cases c with
  | campaign i =>
      exact (h.modify_iff i fun x => x.afterCampaign s.now (d.ttlMs i) answer).trans
        ((h i).afterCampaign_iff answer)
  | renewal i =>
      cases answer with
      | true => exact iff_of_true h trivial
      | false => exact iff_of_true (h.modify (fun x hx => hx.stepDown) i) trivial
  | stop i =>
      exact (h.modify_iff i fun x => x.becomeFollower.stopped).trans quiet_afterRelease_iff

theorem stopped_step (ht : s.AllTidy) (h : s.StaysStopped) (hs : s.step d e = some s') :
    s'.StaysStopped ↔ s.Undisturbed d e := by
  cases e with
  | advance ms | lose =>
      obtain rfl := Option.some.inj hs
      exact iff_of_true h trivial
  | start i =>
      obtain rfl := Option.some.inj hs
      refine iff_of_true (staysStopped_campaign (ht.modify (fun x hx => hx.started) i) ?_)
        trivial
      exact (h.modify_iff i _).mpr fun hx => Bool.noConfusion hx
  | stop i =>
      obtain rfl := Option.some.inj hs
      exact staysStopped_stop_iff ht h
  | fire i timer =>
      obtain ⟨k, -, rfl⟩ := Option.map_eq_some_iff.mp hs
      refine iff_of_true ?_ trivial
      cases k with
      | renewal =>
          have htick := h.modify (fun x hx => hx.ticked timer (s.now + d.ttlMs i / 2)) i
          unfold fire
          dsimp only
          unfold renew
          split
          · exact htick.modify (fun x hx => hx.stepDown) i
          · exact htick
      | campaign | sleep =>
          exact staysStopped_campaign (ht.modify (fun x hx => hx.timedOut timer) i)
            (h.modify (fun x hx => hx.timedOut timer) i)
  | execute k =>
      obtain ⟨l, -, rfl⟩ := Option.map_eq_some_iff.mp hs
      exact iff_of_true h trivial
  | reply k =>
      obtain ⟨⟨r, answer⟩, hw, rfl⟩ := Option.map_eq_some_iff.mp hs
      refine (staysStopped_replied_iff (s := { s with
        lock := (s.lock.settle k r).replied d.skew r answer }) h).trans
        ⟨fun ha p hp => ?_, fun ha => ?_⟩
      · obtain rfl := Option.some.inj (hw.symm.trans hp)
        exact ha
      · exact ha _ hw
  | reject k =>
      obtain ⟨r, -, hs⟩ := Option.bind_eq_some_iff.mp hs
      split_ifs at hs
      obtain rfl := Option.some.inj hs
      refine iff_of_true ?_ trivial
      cases hc : r.caller with
      | campaign i => exact StaysStopped.modify h (fun x hx => hx.retry 5000) i
      | renewal i | stop i => exact h

/-- **Stopped instances stay stopped** all along a run exactly when every step of it is
undisturbed. -/
theorem stopped_iff {es : List Event} (h : Run (step d) anyStep init es s) :
    Always (step d) init StaysStopped es ↔
      Run (step d) (stateGuard (Undisturbed d)) init es s := by
  apply h.always_iff (I := AllTidy)
  · exact fun _ => ⟨nofun, nofun⟩
  · exact fun _ => nofun
  · exact fun _ _ _ _ ht hP _ hs => ⟨tidy_step ht hs, stopped_step ht hP hs⟩

instance (x : LeaderElection) : Decidable x.OneInterval := by
  unfold LeaderElection.OneInterval
  infer_instance

instance (answer : Bool) : DecidablePred (Harmless s answer)
  | .campaign i => inferInstanceAs (Decidable (answer = true → (s.instances i).halted = false))
  | .renewal _ => .isTrue trivial
  | .stop i => inferInstanceAs
      (Decidable ((s.instances i).isRunning = true ∨ (s.instances i).intervals = 0))

instance : DecidablePred (Undisturbed d s)
  | .stop i => inferInstanceAs (Decidable ((s.instances i).OneInterval ∨
      ((s.instances i).role = .leader ∧ s.lock.locks (d.process i) ≠ none)))
  | .reply k => inferInstanceAs (Decidable (∀ p ∈ s.lock.awaited k, s.Harmless p.2 p.1.caller))
  | .advance _ | .lose | .start _ | .fire .. | .execute _ | .reject _ => .isTrue trivial

/-- A leader stops and starts again, and stops while its campaign fails. -/
def stoppedInTime : List Event :=
  [.start 0, .execute 0, .reply 0, .advance 5, .fire 0 0, .execute 1, .reply 1, .stop 0,
    .execute 2, .reply 2, .start 1, .execute 3, .reply 3, .start 0, .execute 4, .stop 0, .reply 4,
    .advance 8, .fire 0 1]

theorem stopped_in_time : ∃ s, runEvents (step electorate) init stoppedInTime = some s ∧
    Always (step electorate) init StaysStopped stoppedInTime ∧
    (s.instances 0).halted = true ∧ (s.instances 1).role = .leader := by
  obtain ⟨s, hs, hp⟩ := exists_run_of_check (step electorate)
    (stateGuard (Undisturbed electorate)) init stoppedInTime
    (fun s => (s.instances 0).halted = true ∧ (s.instances 1).role = .leader) (by decide)
  have hany : Run (step electorate) anyStep init stoppedInTime s := hs.mono fun _ _ _ _ => trivial
  exact ⟨s, hs.runEvents_eq, (stopped_iff hany).mpr hs, of_decide_eq_true hp⟩

/-- The first campaign acquires the lock, and the instance is stopped before it gets the reply. -/
def stoppedWhileCampaigning : List Event := [.start 0, .execute 0, .stop 0, .reply 0]

/-- **A stopped instance becomes the leader**, and renews its lock from then on. -/
theorem stopped_leads : ∃ s, Run (step electorate) anyStep init stoppedWhileCampaigning s ∧
    (s.instances 0).halted = true ∧ (s.instances 0).role = .leader ∧
    (s.instances 0).intervals = 1 := by
  obtain ⟨s, hs, hp⟩ := exists_run_of_check (step electorate) anyStep init stoppedWhileCampaigning
    (fun s => (s.instances 0).halted = true ∧ (s.instances 0).role = .leader ∧
      (s.instances 0).intervals = 1) (by decide)
  exact ⟨s, hs, of_decide_eq_true hp⟩

end Elections

end TaskOrchestration

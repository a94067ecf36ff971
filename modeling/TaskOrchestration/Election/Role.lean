import TaskOrchestration.Election.Model

set_option autoImplicit false

/-!
# The role and the lock

An instance campaigns, or its renewal interval is armed. A renewal whose reply says that the lock
is lost ends the interval, sleeps, and campaigns; so two such replies to one interval lead to two
campaigns, of which the second demotes the leader that the first has made.

* `inFlight`, `Asked`, `Kept`: the calls of the lock that a continuation waits for;
* `campaigns`, `RoleMatches`: the campaigns that are pending, and what is asked of the role;
* `Single`, `single_step`: one campaign or one interval at a time;
* **`role_matches_iff`**: the role matches the lock all along the runs without a late loss.
-/

namespace TaskOrchestration

open Lease LabelledRun

/-! ## Calls in flight -/

namespace DistributedLock

variable {κ : Type} [DecidableEq κ] {l l' : DistributedLock κ} {c c' : κ}

/-- How many calls `c` waits for. -/
def inFlight (l : DistributedLock κ) (c : κ) : ℕ :=
  l.calls.countP fun r => !r.settled && decide (r.caller = c)

def Asked (l : DistributedLock κ) (c : κ) : Prop := ∃ r ∈ l.calls, r.caller = c

/-- The calls of `c` are still what they were, up to the answers. -/
structure Kept (l l' : DistributedLock κ) (c : κ) : Prop where
  count : l'.inFlight c = l.inFlight c
  asked : l'.Asked c → l.Asked c

theorem inFlight_send (l : DistributedLock κ) (r : LockCall κ) (c : κ) :
    (l.send r).inFlight c =
      l.inFlight c + if !r.settled && decide (r.caller = c) then 1 else 0 := by
  rw [inFlight, send, List.countP_append, List.countP_singleton]
  rfl

theorem kept_send (l : DistributedLock κ) {r : LockCall κ} (h : r.caller ≠ c) :
    l.Kept (l.send r) c := by
  refine ⟨?_, fun ⟨q, hq, hc⟩ => ?_⟩
  · rw [inFlight_send]
    simp [h]
  · rcases List.mem_append.mp hq with hq | hq
    · exact ⟨q, hq, hc⟩
    · obtain rfl := List.mem_singleton.mp hq
      exact absurd hc h

theorem kept_tryAcquire (l : DistributedLock κ) (p ttlMs : ℕ) (h : c' ≠ c) :
    l.Kept (l.tryAcquire p ttlMs c') c :=
  kept_send l h

theorem kept_renew (l : DistributedLock κ) (p ttlMs : ℕ) (h : c' ≠ c) :
    l.Kept (l.renew p ttlMs c') c := by
  unfold DistributedLock.renew
  cases l.locks p with
  | none => exact ⟨rfl, id⟩
  | some entry => exact kept_send l h

theorem kept_release (l : DistributedLock κ) (p : ℕ) (h : c' ≠ c) :
    l.Kept (l.release p c') c := by
  unfold DistributedLock.release
  cases l.locks p with
  | none => exact ⟨rfl, id⟩
  | some entry => exact kept_send l h

theorem inFlight_tryAcquire (l : DistributedLock κ) (p ttlMs : ℕ) (c : κ) :
    (l.tryAcquire p ttlMs c).inFlight c = l.inFlight c + 1 := by
  rw [tryAcquire, inFlight_send]
  simp

theorem inFlight_set {k : ℕ} {r r' : LockCall κ} (hl : l'.calls = l.calls.set k r')
    (hr : l.calls[k]? = some r) (hc : r'.caller = r.caller) (c : κ) :
    l'.inFlight c + (if !r.settled && decide (r.caller = c) then 1 else 0) =
      l.inFlight c + if !r'.settled && decide (r.caller = c) then 1 else 0 := by
  have h := countP_set_add (p := fun r : LockCall κ => !r.settled && decide (r.caller = c))
    (b := r') hr
  rw [inFlight, inFlight, hl]
  rwa [hc] at h

omit [DecidableEq κ] in
theorem asked_set {k : ℕ} {r r' : LockCall κ} (hl : l'.calls = l.calls.set k r')
    (hr : l.calls[k]? = some r) (hc : r'.caller = r.caller) (h : l'.Asked c) : l.Asked c := by
  obtain ⟨q, hq, rfl⟩ := h
  rw [hl] at hq
  rcases List.mem_or_eq_of_mem_set hq with hq | rfl
  · exact ⟨q, hq, rfl⟩
  · exact ⟨r, List.mem_of_getElem? hr, hc.symm⟩

theorem kept_execute {k : ℕ} (h : l.execute k = some l') (c : κ) : l.Kept l' c := by
  obtain ⟨r, srv, answer, hr, -, hl⟩ := execute_eq_some h
  have hcalls := congrArg calls hl
  exact ⟨Nat.add_right_cancel (inFlight_set hcalls hr rfl c), asked_set hcalls hr rfl⟩

theorem inFlight_settle {k : ℕ} {r : LockCall κ} (hr : l.calls[k]? = some r)
    (hset : r.settled = false) (c : κ) :
    (l.settle k r).inFlight c + (if r.caller = c then 1 else 0) = l.inFlight c := by
  have hcalls : (l.settle k r).calls = l.calls.set k { r with settled := true } := rfl
  have h := inFlight_set hcalls hr rfl c
  simpa [hset] using h

theorem kept_settle {k : ℕ} {r : LockCall κ} (hr : l.calls[k]? = some r)
    (hset : r.settled = false) (h : r.caller ≠ c) : l.Kept (l.settle k r) c := by
  have hcount := inFlight_settle hr hset c
  rw [if_neg h] at hcount
  exact ⟨hcount, asked_set rfl hr rfl⟩

theorem Kept.of_calls {l'' : DistributedLock κ} (h : l.Kept l' c) (hc : l''.calls = l'.calls) :
    l.Kept l'' c := by
  have hcount : l''.inFlight c = l'.inFlight c := congrArg (List.countP _) hc
  exact ⟨hcount.trans h.count, fun ⟨r, hr, he⟩ => h.asked ⟨r, hc ▸ hr, he⟩⟩

end DistributedLock

/-! ## One campaign at a time -/

namespace LeaderElection

variable {x : LeaderElection} {now ms : ℕ}

def intervals (x : LeaderElection) : ℕ := x.timers.count (· == .renewal)

/-- The campaign timers and sleeps that are armed. -/
def pending (x : LeaderElection) : ℕ := x.timers.count (· != .renewal)

/-- `renewalTimer` is the handle of the renewal interval that is armed, of a leader then. -/
structure Handles (x : LeaderElection) : Prop where
  handle : ∀ h, x.timers.label? h = some .renewal → x.renewalTimer = some h
  names : ∀ h, x.renewalTimer = some h → x.timers.Names h .renewal
  leads : x.intervals ≠ 0 → x.role = .leader

theorem handles_of_not_armed (ha : x.intervals = 0)
    (hn : ∀ h, x.renewalTimer = some h → x.timers.Names h .renewal) : Handles x := by
  refine ⟨fun h hl => ?_, hn, fun hne => absurd ha hne⟩
  cases EventLoop.Timers.count_eq_zero.mp ha h .renewal hl

theorem pending_becomeLeader : (x.becomeLeader now ms).pending = x.pending :=
  x.timers.count_arm ..

theorem intervals_becomeLeader : (x.becomeLeader now ms).intervals = x.intervals + 1 :=
  x.timers.count_arm ..

theorem pending_scheduleCampaign : (x.scheduleCampaign now ms).pending = x.pending + 1 :=
  x.timers.count_arm ..

theorem intervals_scheduleCampaign : (x.scheduleCampaign now ms).intervals = x.intervals :=
  x.timers.count_arm ..

theorem handles_becomeLeader (ha : x.intervals = 0) : Handles (x.becomeLeader now ms) := by
  refine ⟨fun n hl => ?_, fun n hn => ?_, fun _ => rfl⟩
  · change (x.timers.arm .renewal _).label? n = _ at hl
    rw [EventLoop.Timers.label?_arm] at hl
    split_ifs at hl with hn
    · rw [hn]
      rfl
    · cases EventLoop.Timers.count_eq_zero.mp ha n .renewal hl
  · obtain rfl := Option.some.inj hn
    exact .next x.timers .renewal _

theorem Handles.retry (h : Handles x) (ha : x.intervals = 0) (ms : ℕ) :
    (x.becomeFollower.scheduleCampaign now ms).Handles ∧
      (x.becomeFollower.scheduleCampaign now ms).pending +
        (x.becomeFollower.scheduleCampaign now ms).intervals = x.pending + 1 ∧
      (x.becomeFollower.scheduleCampaign now ms).isRunning = x.isRunning := by
  have ha' : (x.becomeFollower.scheduleCampaign now ms).intervals = 0 :=
    intervals_scheduleCampaign.trans ha
  refine ⟨handles_of_not_armed ha' fun n hn => (h.names n hn).arm _ _, ?_, rfl⟩
  rw [ha', pending_scheduleCampaign]
  rfl

theorem Handles.pending_clear (h : Handles x) :
    (x.timers.clear x.renewalTimer).count (· != .renewal) = x.pending := by
  cases hr : x.renewalTimer with
  | none => rfl
  | some n =>
      have hclear := x.timers.count_clear n (· != .renewal)
      cases hl : x.timers.label? n with
      | none =>
          rw [hl] at hclear
          exact hclear
      | some l =>
          rw [hl, (h.names n hr).2 l hl] at hclear
          exact hclear

theorem Handles.intervals_clear (h : Handles x) :
    (x.timers.clear x.renewalTimer).count (· == .renewal) = 0 := by
  refine EventLoop.Timers.count_eq_zero.mpr fun n l hl => ?_
  rw [EventLoop.Timers.label?_clear] at hl
  split_ifs at hl with hr
  rw [beq_eq_false_iff_ne]
  rintro rfl
  exact hr (h.handle n hl)

theorem Handles.pending_stepDown (h : Handles x) : (x.stepDown now).pending = x.pending + 1 := by
  rw [stepDown, pending, EventLoop.Timers.count_arm, h.pending_clear]
  rfl

theorem Handles.intervals_stepDown (h : Handles x) : (x.stepDown now).intervals = 0 := by
  rw [stepDown, intervals, EventLoop.Timers.count_arm, h.intervals_clear]
  rfl

theorem Handles.stepDown (h : Handles x) : Handles (x.stepDown now) :=
  handles_of_not_armed h.intervals_stepDown fun n hn => ((h.names n hn).clear _).arm _ _

theorem pending_timedOut {n : ℕ} {k : ElectionTimer} (hk : k ≠ .renewal)
    (hl : x.timers.label? n = some k) : (x.timedOut n).pending + 1 = x.pending := by
  have hclear := x.timers.count_clear n (· != .renewal)
  rw [hl, Option.any_some, if_pos (bne_iff_ne.mpr hk)] at hclear
  exact hclear

theorem intervals_timedOut {n : ℕ} {k : ElectionTimer} (hk : k ≠ .renewal)
    (hl : x.timers.label? n = some k) : (x.timedOut n).intervals = x.intervals := by
  have hclear := x.timers.count_clear n (· == .renewal)
  rw [hl, Option.any_some, if_neg fun h => hk (beq_iff_eq.mp h)] at hclear
  exact hclear

theorem Handles.timedOut (h : Handles x) {n : ℕ} (ha : (x.timedOut n).intervals = 0) :
    Handles (x.timedOut n) :=
  handles_of_not_armed ha fun m hm => (h.names m hm).clear _

theorem pending_ticked {n due : ℕ} : (x.ticked n due).pending = x.pending :=
  x.timers.count_rearm ..

theorem intervals_ticked {n due : ℕ} : (x.ticked n due).intervals = x.intervals :=
  x.timers.count_rearm ..

theorem Handles.ticked (h : Handles x) (n due : ℕ) : Handles (x.ticked n due) where
  handle m hm := h.handle m ((x.timers.label?_rearm n due m).symm.trans hm)
  names m hm := (h.names m hm).rearm _ _
  leads ha := h.leads fun hz => ha (intervals_ticked.trans hz)

/-- A campaign ends in an interval, or in a timer for the next campaign. -/
theorem Handles.afterCampaign (h : Handles x) (ha : x.intervals = 0) (ttlMs : ℕ) (acquired : Bool) :
    (x.afterCampaign now ttlMs acquired).Handles ∧
      (x.afterCampaign now ttlMs acquired).pending +
        (x.afterCampaign now ttlMs acquired).intervals = x.pending + 1 ∧
      (x.afterCampaign now ttlMs acquired).isRunning = x.isRunning := by
  cases acquired with
  | true =>
      refine ⟨handles_becomeLeader ha, ?_, rfl⟩
      change (x.becomeLeader now ttlMs).pending + (x.becomeLeader now ttlMs).intervals = _
      rw [pending_becomeLeader, intervals_becomeLeader, ha]
  | false => exact h.retry ha _

end LeaderElection

namespace Elections

variable {d : Electorate} {s s' s'' : Elections} {e : Event} {i j : ℕ}

/-- **The pending campaigns**: the calls in flight, the armed campaign timers, and the sleeps after
a loss. -/
def campaigns (s : Elections) (i : ℕ) : ℕ :=
  s.lock.inFlight (.campaign i) + (s.instances i).pending

theorem campaigns_modify (s : Elections) (i : ℕ) (f : LeaderElection → LeaderElection) :
    (s.modify i f).campaigns i = s.lock.inFlight (.campaign i) + (f (s.instances i)).pending := by
  rw [campaigns, instances_modify_self]
  rfl

/-- The key holds a token that a campaign of the instance has drawn. -/
def HoldsKey (s : Elections) (i : ℕ) : Prop :=
  ∃ r ∈ s.lock.calls, r.caller = .campaign i ∧
    ∃ token ttlMs, r.command = .set token ttlMs ∧ s.lock.redis.holder = some token

/-- **The role matches the lock**, and one campaign is pending at a time. -/
structure RoleMatches (i : ℕ) (s : Elections) : Prop where
  leads : (s.instances i).intervals ≠ 0 → s.HoldsKey i → (s.instances i).role = .leader
  single : s.campaigns i ≤ 1

/-- `start` of the instance is called once, and `stop` never. -/
def StartedOnce (i : ℕ) (s : Elections) (e : Event) : Prop :=
  e ≠ .stop i ∧ (e = .start i → (s.instances i).isRunning = false)

/-- **A late loss**: the reply that the lock is lost reaches the instance when its interval has
been ended by an earlier one. -/
def LateLoss (i : ℕ) (s : Elections) : Event → Prop
  | .reply k => (s.instances i).intervals = 0 ∧
      ∃ p ∈ s.lock.awaited k, p.2 = false ∧ p.1.caller = .renewal i
  | _ => False

/-- **The invariant**: a running instance has one campaign pending, or its interval armed. -/
structure Single (s : Elections) (i : ℕ) : Prop where
  handles : (s.instances i).Handles
  count : s.campaigns i + (s.instances i).intervals = if (s.instances i).isRunning then 1 else 0
  quiet : (s.instances i).isRunning = false → ¬ s.lock.Asked (.renewal i)
  neverStopped : ¬ s.lock.Asked (.stop i)

theorem single_init (i : ℕ) : Single init i where
  handles := ⟨nofun, nofun, fun h => absurd rfl h⟩
  count := rfl
  quiet _ := fun ⟨_, hr, _⟩ => List.not_mem_nil hr
  neverStopped := fun ⟨_, hr, _⟩ => List.not_mem_nil hr

theorem Single.roleMatches (h : Single s i) : RoleMatches i s := by
  refine ⟨fun ha _ => h.handles.leads ha, ?_⟩
  have hcount := h.count
  split_ifs at hcount
  · omega
  · omega

/-! ## What others do -/

/-- Neither the instance nor its calls have changed, up to the answers. -/
structure Untouched (i : ℕ) (s s' : Elections) : Prop where
  same : s'.instances i = s.instances i
  kept : ∀ c : Caller, c.owner = i → s.lock.Kept s'.lock c

theorem Single.untouched (h : Single s i) (hu : Untouched i s s') : Single s' i where
  handles := by
    rw [hu.same]
    exact h.handles
  count := by
    rw [campaigns, hu.same, (hu.kept (.campaign i) rfl).count]
    exact h.count
  quiet hr ha := h.quiet (hu.same ▸ hr) ((hu.kept (.renewal i) rfl).asked ha)
  neverStopped ha := h.neverStopped ((hu.kept (.stop i) rfl).asked ha)

theorem Untouched.trans (h : Untouched i s s') (h' : Untouched i s' s'') : Untouched i s s'' where
  same := h'.same.trans h.same
  kept c hc := ⟨(h'.kept c hc).count.trans (h.kept c hc).count,
    fun ha => (h.kept c hc).asked ((h'.kept c hc).asked ha)⟩

theorem untouched_modify (hj : j ≠ i) (f : LeaderElection → LeaderElection) :
    Untouched i s (s.modify j f) :=
  ⟨instances_modify_of_ne s hj.symm f, fun _ _ => ⟨rfl, id⟩⟩

theorem untouched_lock {l : DistributedLock Caller}
    (hk : ∀ c : Caller, c.owner = i → s.lock.Kept l c) : Untouched i s { s with lock := l } :=
  ⟨rfl, hk⟩

theorem ne_of_owner {c c' : Caller} (hj : j ≠ i) (hc : c.owner = j) (hc' : c'.owner = i) :
    c ≠ c' := by
  rintro rfl
  exact hj (hc.symm.trans hc')

theorem untouched_campaign (hj : j ≠ i) : Untouched i s (s.campaign d j) := by
  unfold campaign
  split_ifs
  · refine (untouched_modify hj _).trans (untouched_lock fun c hc => ?_)
    exact DistributedLock.kept_tryAcquire _ _ _ (ne_of_owner hj rfl hc)
  · exact ⟨rfl, fun _ _ => ⟨rfl, id⟩⟩

theorem untouched_renew (hj : j ≠ i) : Untouched i s (s.renew d j) := by
  unfold renew
  split
  · exact untouched_modify hj _
  · exact untouched_lock fun c hc => DistributedLock.kept_renew _ _ _ (ne_of_owner hj rfl hc)

theorem untouched_stop (hj : j ≠ i) : Untouched i s (s.stop d j) := by
  refine ⟨?_, fun c hc => ?_⟩
  · have hstop := (untouched_modify (s := s) hj LeaderElection.stopTimers).same
    unfold stop
    dsimp only
    split_ifs
    · split
      · exact ((untouched_modify hj _).same).trans hstop
      · exact hstop
    · exact ((untouched_modify hj _).same).trans hstop
  · rw [lock_stop]
    split_ifs
    · exact DistributedLock.kept_release _ _ (ne_of_owner hj rfl hc)
    · exact ⟨rfl, id⟩

theorem untouched_fire (hj : j ≠ i) (timer : ℕ) (k : ElectionTimer) :
    Untouched i s (s.fire d j timer k) := by
  cases k with
  | renewal => exact (untouched_modify hj _).trans (untouched_renew hj)
  | campaign | sleep => exact (untouched_modify hj _).trans (untouched_campaign hj)

theorem untouched_replied {answer : Bool} {c : Caller} (hj : c.owner ≠ i) :
    Untouched i s (s.replied d answer c) := by
  cases c with
  | campaign j | stop j =>
      unfold replied
      exact untouched_modify hj _
  | renewal j =>
      unfold replied
      cases answer with
      | true => exact ⟨rfl, fun _ _ => ⟨rfl, id⟩⟩
      | false => exact untouched_modify (j := j) hj fun x => x.stepDown s.now

theorem untouched_rejected {c : Caller} (hj : c.owner ≠ i) : Untouched i s (s.rejected c) := by
  cases c with
  | campaign j =>
      unfold rejected
      exact untouched_modify hj _
  | renewal j | stop j => exact ⟨rfl, fun _ _ => ⟨rfl, id⟩⟩

/-! ## What the instance does -/

theorem single_campaign (hh : (s.instances i).Handles)
    (hrun : (s.instances i).isRunning = true)
    (hcount : s.campaigns i + (s.instances i).intervals = 0) (hstop : ¬ s.lock.Asked (.stop i)) :
    Single (s.campaign d i) i := by
  have ha : (s.instances i).intervals = 0 := by omega
  have hx := instances_campaign_self (d := d) hrun
  refine ⟨?_, ?_, ?_, ?_⟩
  · rw [hx]
    exact LeaderElection.handles_of_not_armed ha hh.names
  · rw [campaigns, hx, lock_campaign, if_pos hrun, DistributedLock.inFlight_tryAcquire]
    change _ + 1 + (s.instances i).pending + (s.instances i).intervals =
      if (s.instances i).isRunning then 1 else 0
    rw [if_pos hrun]
    unfold campaigns at hcount
    omega
  · rw [hx]
    exact fun hr => Bool.noConfusion (hrun.symm.trans hr)
  · rw [lock_campaign, if_pos hrun]
    have hne : Caller.campaign i ≠ .stop i := nofun
    exact fun hask => hstop ((DistributedLock.kept_tryAcquire _ _ _ hne).asked hask)

theorem Single.of_lock (h : Single s i) {l : DistributedLock Caller}
    (hl : l.inFlight (.campaign i) = s.lock.inFlight (.campaign i))
    (hquiet : (s.instances i).isRunning = false → ¬ l.Asked (.renewal i))
    (hstop : ¬ l.Asked (.stop i)) : Single { s with lock := l } i where
  handles := h.handles
  count := by
    rw [campaigns, hl]
    exact h.count
  quiet := hquiet
  neverStopped := hstop

theorem Single.of_armed (h : Single s i) (ha : (s.instances i).intervals ≠ 0) :
    (s.instances i).isRunning = true ∧ s.campaigns i = 0 ∧ (s.instances i).intervals = 1 := by
  have hcount := h.count
  split_ifs at hcount with hrun
  · exact ⟨hrun, by omega, by omega⟩
  · omega

theorem Single.of_campaigns (h : Single s i) (hc : s.campaigns i ≠ 0) :
    (s.instances i).isRunning = true ∧ s.campaigns i = 1 ∧ (s.instances i).intervals = 0 := by
  have hcount := h.count
  split_ifs at hcount with hrun
  · exact ⟨hrun, by omega, by omega⟩
  · omega

theorem single_stepDown (h : Single s i) (ha : (s.instances i).intervals ≠ 0) (now : ℕ) :
    Single (s.modify i fun x => x.stepDown now) i := by
  obtain ⟨hrun, hc, -⟩ := h.of_armed ha
  have hx := instances_modify_self s i fun x => x.stepDown now
  refine ⟨?_, ?_, ?_, h.neverStopped⟩
  · rw [hx]
    exact h.handles.stepDown
  · rw [campaigns, hx, h.handles.pending_stepDown, h.handles.intervals_stepDown]
    change s.campaigns i + 1 + 0 = if (s.instances i).isRunning then 1 else 0
    rw [hc, if_pos hrun]
  · rw [hx]
    exact fun hr => Bool.noConfusion (hrun.symm.trans hr)

theorem single_renew (h : Single s i) (ha : (s.instances i).intervals ≠ 0) :
    Single (s.renew d i) i := by
  unfold renew
  split
  · exact single_stepDown h ha s.now
  · have hcampaign : Caller.renewal i ≠ .campaign i := nofun
    have hstop : Caller.renewal i ≠ .stop i := nofun
    refine h.of_lock (DistributedLock.kept_renew _ _ _ hcampaign).count (fun hr => ?_) fun hask =>
      h.neverStopped ((DistributedLock.kept_renew _ _ _ hstop).asked hask)
    exact Bool.noConfusion ((h.of_armed ha).1.symm.trans hr)

theorem single_ticked (h : Single s i) (timer due : ℕ) :
    Single (s.modify i fun x => x.ticked timer due) i := by
  have hx := instances_modify_self s i fun x => x.ticked timer due
  refine ⟨?_, ?_, ?_, h.neverStopped⟩
  · rw [hx]
    exact h.handles.ticked _ _
  · rw [campaigns, hx, LeaderElection.pending_ticked, LeaderElection.intervals_ticked]
    exact h.count
  · rw [hx]
    exact h.quiet

theorem single_fire (h : Single s i) {timer : ℕ} {k : ElectionTimer}
    (hl : (s.instances i).timers.label? timer = some k) : Single (s.fire d i timer k) i := by
  by_cases hk : k = .renewal
  · subst hk
    have ha : (s.instances i).intervals ≠ 0 := fun ha => by
      cases EventLoop.Timers.count_eq_zero.mp ha timer .renewal hl
    refine single_renew (single_ticked h _ _) ?_
    rw [instances_modify_self, LeaderElection.intervals_ticked]
    exact ha
  · have hp := LeaderElection.pending_timedOut hk hl
    obtain ⟨hrun, hc, ha⟩ := h.of_campaigns (by unfold campaigns; omega)
    have ha' := (LeaderElection.intervals_timedOut hk hl).trans ha
    have hx := instances_modify_self s i fun x => x.timedOut timer
    have hfire : s.fire d i timer k = (s.modify i fun x => x.timedOut timer).campaign d i := by
      cases k with
      | renewal => exact absurd rfl hk
      | campaign | sleep => rfl
    rw [hfire]
    apply single_campaign
    · rw [hx]
      exact h.handles.timedOut ha'
    · rw [hx]
      exact hrun
    · rw [campaigns, hx, ha']
      change s.lock.inFlight _ + _ + 0 = 0
      unfold campaigns at hc
      omega
    · exact h.neverStopped

theorem single_afterCampaign (h : Single s i) {l : DistributedLock Caller}
    (hl : l.inFlight (.campaign i) + 1 = s.lock.inFlight (.campaign i))
    (hstop : s.lock.Kept l (.stop i)) (f : LeaderElection → LeaderElection)
    (hf : ∀ x : LeaderElection, x.Handles → x.intervals = 0 → (f x).Handles ∧
      (f x).pending + (f x).intervals = x.pending + 1 ∧ (f x).isRunning = x.isRunning) :
    Single ({ s with lock := l }.modify i f) i := by
  have hcount := h.count
  unfold campaigns at hcount
  have ha : (s.instances i).intervals = 0 := by split_ifs at hcount <;> omega
  have hrun : (s.instances i).isRunning = true := by
    by_contra hr
    rw [if_neg hr] at hcount
    omega
  obtain ⟨hh, hcount', hrun'⟩ := hf (s.instances i) h.handles ha
  have hx : (Elections.modify { s with lock := l } i f).instances i = f (s.instances i) :=
    instances_modify_self ..
  refine ⟨?_, ?_, ?_, fun hask => h.neverStopped (hstop.asked hask)⟩
  · rw [hx]
    exact hh
  · rw [campaigns, hx, hrun', if_pos hrun]
    rw [if_pos hrun] at hcount
    change l.inFlight _ + _ + _ = 1
    omega
  · rw [hx, hrun', hrun]
    exact nofun

theorem single_settled (h : Single s i) {k : ℕ} {r : LockCall Caller} {l : DistributedLock Caller}
    (hr : s.lock.calls[k]? = some r) (hset : r.settled = false)
    (hl : l.calls = (s.lock.settle k r).calls) (hc : r.caller = .renewal i) :
    Single { s with lock := l } i := by
  have hkept : ∀ c, r.caller ≠ c → s.lock.Kept l c := fun c hne =>
    (DistributedLock.kept_settle hr hset hne).of_calls hl
  refine h.of_lock (hkept _ (hc ▸ nofun)).count (fun hrun ⟨q, hq, hqc⟩ => ?_) fun hask =>
    h.neverStopped ((hkept _ (hc ▸ nofun)).asked hask)
  exact h.quiet hrun ⟨r, List.mem_of_getElem? hr, hc⟩

theorem single_replied (h : Single s i) {k : ℕ} {r : LockCall Caller} {answer : Bool}
    {l : DistributedLock Caller} (hr : s.lock.calls[k]? = some r) (hset : r.settled = false)
    (hl : l.calls = (s.lock.settle k r).calls)
    (hlate : answer = false → r.caller = .renewal i → (s.instances i).intervals ≠ 0) :
    Single (replied d { s with lock := l } answer r.caller) i := by
  have hkept : ∀ c, r.caller ≠ c → s.lock.Kept l c := fun c hne =>
    (DistributedLock.kept_settle hr hset hne).of_calls hl
  by_cases hj : r.caller.owner = i
  · cases hc : r.caller with
    | campaign j =>
        obtain rfl : j = i := by rwa [hc] at hj
        have hcount := DistributedLock.inFlight_settle hr hset (.campaign j)
        rw [if_pos hc] at hcount
        refine single_afterCampaign h ?_ (hkept _ (hc ▸ nofun)) _ fun x hx ha =>
          hx.afterCampaign ha _ answer
        exact (congrArg (List.countP _ · + 1) hl).trans hcount
    | renewal j =>
        obtain rfl : j = i := by rwa [hc] at hj
        have hsingle := single_settled h hr hset hl hc
        unfold replied
        cases answer with
        | true => exact hsingle
        | false => exact single_stepDown hsingle (hlate rfl hc) _
    | stop j =>
        obtain rfl : j = i := by rwa [hc] at hj
        exact absurd ⟨r, List.mem_of_getElem? hr, hc⟩ h.neverStopped
  · refine h.untouched ((untouched_lock fun c hc => hkept c ?_).trans (untouched_replied hj))
    rintro rfl
    exact hj hc

theorem single_rejected (h : Single s i) {k : ℕ} {r : LockCall Caller}
    (hr : s.lock.calls[k]? = some r) (hset : r.settled = false) :
    Single (rejected { s with lock := s.lock.settle k r } r.caller) i := by
  by_cases hj : r.caller.owner = i
  · cases hc : r.caller with
    | campaign j =>
        obtain rfl : j = i := by rwa [hc] at hj
        have hcount := DistributedLock.inFlight_settle hr hset (.campaign j)
        rw [if_pos hc] at hcount
        exact single_afterCampaign h hcount (DistributedLock.kept_settle hr hset (hc ▸ nofun))
          (fun x => x.campaignFailed _) fun x hx ha => hx.retry ha 5000
    | renewal j =>
        obtain rfl : j = i := by rwa [hc] at hj
        exact single_settled h hr hset rfl hc
    | stop j =>
        obtain rfl : j = i := by rwa [hc] at hj
        exact absurd ⟨r, List.mem_of_getElem? hr, hc⟩ h.neverStopped
  · refine h.untouched ((untouched_lock fun c hc => ?_).trans (untouched_rejected hj))
    refine DistributedLock.kept_settle hr hset ?_
    rintro rfl
    exact hj hc

theorem single_step (h : Single s i) (ho : StartedOnce i s e) (hs : s.step d e = some s')
    (hlate : ¬ LateLoss i s e) : Single s' i := by
  cases e with
  | advance ms | lose =>
      obtain rfl := Option.some.inj hs
      exact h.untouched ⟨rfl, fun _ _ => ⟨rfl, id⟩⟩
  | start j =>
      obtain rfl := Option.some.inj hs
      by_cases hj : j = i
      · subst hj
        have hrun := ho.2 rfl
        have hcount := h.count
        rw [hrun] at hcount
        have hx := instances_modify_self s j LeaderElection.started
        refine single_campaign (by rw [hx]; exact ⟨h.handles.1, h.handles.2, h.handles.3⟩)
          (by rw [hx]; rfl) ?_ h.neverStopped
        rw [campaigns, hx]
        exact hcount
      · exact h.untouched ((untouched_modify hj _).trans (untouched_campaign hj))
  | stop j =>
      obtain rfl := Option.some.inj hs
      exact h.untouched (untouched_stop fun hj => ho.1 (congrArg Event.stop hj))
  | fire j timer =>
      obtain ⟨k, hk, rfl⟩ := Option.map_eq_some_iff.mp hs
      by_cases hj : j = i
      · subst hj
        exact single_fire h (EventLoop.Timers.label?_of_due? hk)
      · exact h.untouched (untouched_fire hj timer k)
  | execute k =>
      obtain ⟨l, hl, rfl⟩ := Option.map_eq_some_iff.mp hs
      exact h.untouched (untouched_lock fun c _ => DistributedLock.kept_execute hl c)
  | reply k =>
      obtain ⟨⟨r, answer⟩, hw, rfl⟩ := Option.map_eq_some_iff.mp hs
      obtain ⟨hr, hset, -⟩ := DistributedLock.awaited_eq_some hw
      refine single_replied h hr hset (DistributedLock.calls_replied ..) fun ha hc hz => ?_
      exact hlate ⟨hz, _, hw, ha, hc⟩
  | reject k =>
      obtain ⟨r, hr, hs⟩ := Option.bind_eq_some_iff.mp hs
      split_ifs at hs with hset
      obtain rfl := Option.some.inj hs
      exact single_rejected h hr (eq_false_of_ne_true hset)

/-- **A late loss** makes a second campaign pending. -/
theorem campaigns_of_lateLoss (h : Single s i) (hs : s.step d e = some s')
    (hlate : LateLoss i s e) : s'.campaigns i = 2 := by
  cases e with
  | reply k =>
      obtain ⟨ha, ⟨r, answer⟩, hw, rfl, hc⟩ := hlate
      obtain ⟨hr, hset, -⟩ := DistributedLock.awaited_eq_some hw
      obtain ⟨p, hw', rfl⟩ := Option.map_eq_some_iff.mp hs
      obtain rfl := Option.some.inj (hw.symm.trans hw')
      dsimp only at hc
      have hsingle := single_settled h hr hset
        (DistributedLock.calls_replied d.skew _ r false) hc
      -- the callback has called the lock, so the instance runs, and has a campaign pending
      have hrun : (s.instances i).isRunning = true := by
        by_contra hrun
        exact h.quiet (eq_false_of_ne_true hrun) ⟨r, List.mem_of_getElem? hr, hc⟩
      have hcount := hsingle.count
      dsimp only at hcount
      rw [ha, if_pos hrun] at hcount
      rw [hc]
      refine (campaigns_modify _ i fun x => x.stepDown _).trans ?_
      rw [hsingle.handles.pending_stepDown]
      exact congrArg (· + 1) hcount
  | advance _ | lose | start _ | stop _ | fire _ _ | execute _ | reject _ => exact hlate.elim

/-- **The role matches the lock**, and one campaign is pending at a time, all along a run in which
the instance is started once, exactly when no loss of it is late. -/
theorem role_matches_iff {es : List Event}
    (h : Run (step d) (stateGuard (StartedOnce i)) init es s) :
    Always (step d) init (RoleMatches i) es ↔
      Run (step d) (stateGuard fun s e => ¬ LateLoss i s e) init es s := by
  apply h.always_iff (I := fun s => RoleMatches i s → Single s i) (fun _ => single_init i)
    (single_init i).roleMatches
  intro es s e s' hI hP ho hs
  have hsingle := hI hP
  by_cases hlate : LateLoss i s e
  · have hnot : ¬ RoleMatches i s' := fun hm => by
      have hc := hm.single
      rw [campaigns_of_lateLoss hsingle hs hlate] at hc
      omega
    exact ⟨fun hm => absurd hm hnot, iff_of_false hnot (not_not_intro hlate)⟩
  · have hsingle' := single_step hsingle ho hs hlate
    exact ⟨fun _ => hsingle', iff_of_true hsingle'.roleMatches hlate⟩

instance : DecidablePred (StartedOnce i s) := fun e => by unfold StartedOnce; infer_instance

instance : DecidablePred (LateLoss i s)
  | .reply k => inferInstanceAs (Decidable ((s.instances i).intervals = 0 ∧
      ∃ p ∈ s.lock.awaited k, p.2 = false ∧ p.1.caller = .renewal i))
  | .advance _ | .lose | .start _ | .stop _ | .fire .. | .execute _ | .reject _ => .isFalse id

/-- Instances in processes of their own, with a time to live of 10 milliseconds. -/
def electorate : Electorate := ⟨fun _ => 10, fun i => i, fun _ => 0⟩

/-- Instance 0 leads, and renews its lock once. Then it loses it to instance 1, and campaigns
again after its sleep. -/
def lostOnce : List Event :=
  [.start 0, .execute 0, .reply 0, .advance 5, .fire 0 0, .execute 1, .reply 1, .advance 10,
    .start 1, .execute 2, .reply 2, .fire 0 0, .execute 3, .reply 3, .advance 2000, .fire 0 1,
    .execute 4, .reply 4]

theorem lost_once_matches : ∃ s, runEvents (step electorate) init lostOnce = some s ∧
    Always (step electorate) init (RoleMatches 0) lostOnce ∧ (s.instances 0).role = .leader := by
  obtain ⟨s, hs, hp⟩ := exists_run_of_check (step electorate)
    (stateGuard fun s e => StartedOnce 0 s e ∧ ¬ LateLoss 0 s e) init lostOnce
    (fun s => (s.instances 0).role = .leader) (by decide)
  have honce : Run (step electorate) (stateGuard (StartedOnce 0)) init lostOnce s :=
    hs.mono fun _ _ _ h => h.1
  exact ⟨s, hs.runEvents_eq, (role_matches_iff honce).mpr (hs.mono fun _ _ _ h => h.2),
    of_decide_eq_true hp⟩

/-- The reply to a renewal takes longer than the interval, and a second one is sent. Both say that
the lock is lost, and the instance campaigns twice after its two sleeps. -/
def lostTwice : List Event :=
  [.start 0, .execute 0, .reply 0, .advance 5, .fire 0 0, .advance 5, .fire 0 0, .execute 1,
    .execute 2, .reply 1, .reply 2, .advance 2000, .fire 0 1, .fire 0 2, .execute 3, .execute 4,
    .reply 3, .reply 4]

/-- **The second campaign demotes the leader**, whose interval goes on to renew its lock. -/
theorem lost_twice_demotes : ∃ s,
    Run (step electorate) (stateGuard (StartedOnce 0)) init lostTwice s ∧
    (s.instances 0).intervals ≠ 0 ∧ s.HoldsKey 0 ∧ (s.instances 0).role = .follower := by
  obtain ⟨s, hs, hp⟩ := exists_run_of_check (step electorate) (stateGuard (StartedOnce 0)) init
    lostTwice (fun s => (s.instances 0).intervals ≠ 0 ∧
      s.lock.redis.holder = some ⟨0, 3⟩ ∧
      (∃ r ∈ s.lock.calls, r.caller = .campaign 0 ∧ r.command = .set ⟨0, 3⟩ 10) ∧
      (s.instances 0).role = .follower) (by decide)
  obtain ⟨ha, hh, ⟨r, hr, hc, hset⟩, hrole⟩ := of_decide_eq_true hp
  exact ⟨s, hs, ha, ⟨r, hr, hc, _, _, hset, hh⟩, hrole⟩

end Elections

end TaskOrchestration

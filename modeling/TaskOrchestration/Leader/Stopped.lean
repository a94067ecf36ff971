import TaskOrchestration.Leader.Takeover

set_option autoImplicit false

/-!
# A stopped scheduler

`stop` clears the timers whose handles the instance has kept. `tryBecomeLeader` does not look at
`isRunning` when its reply comes, and starts the cron scheduler and the renewal of an instance
that has stopped.

* `Rests`, `Work`: nothing is running, and nothing is armed that would start any work;
* `Named`: the kinds of timers that the handles of an instance name;
* `Revives`: the steps that leave, or bring, work to an instance that has stopped;
* `Calms`: what every other step keeps;
* **`stopped_rests_iff`**: the stopped instances rest all along the runs without such a step, and
  these only.
-/

namespace TaskOrchestration.Cluster

open Lease LabelledRun

variable {d : Deployment} {s s' s'' : Cluster} {e : Event} {i j : ℕ}

/-- **Work of a timer**: it renews the lock, or its callback starts a cron tick or, of a leader, a
`poll`. -/
def Work (s : Cluster) (t : Timer) : Prop :=
  t.kind = .renewal ∨ t.kind = .cron ∨
    (t.kind = .poll ∧ (s.schedulers t.scheduler).isLeader = true)

/-- **A stopped instance rests**: its cron scheduler is not running, its renewal interval is not
armed, and no timer will start a `poll` or a cron tick of it. -/
def Rests (s : Cluster) (i : ℕ) : Prop :=
  (s.schedulers i).isRunning = false →
    (s.schedulers i).cronRunning = false ∧ ∀ t ∈ s.timers, t.scheduler = i → ¬ s.Work t

def AllRest (s : Cluster) : Prop := ∀ i, s.Rests i

/-- The handle names no timer but one of this kind, now and later. -/
def Names (s : Cluster) (handle : ℕ) (kind : TimerKind) : Prop :=
  handle < s.nextTimer ∧ ∀ t ∈ s.timers, t.id = handle → t.kind = kind

/-- **The handles of the instances**, of which `cronInterval` names the only timer of its kind. -/
structure Named (s : Cluster) : Prop where
  fresh : ∀ t ∈ s.timers, t.id < s.nextTimer
  poll : ∀ i, ∀ h ∈ (s.schedulers i).pollTimeout, s.Names h .poll
  renewal : ∀ i, ∀ h ∈ (s.schedulers i).lockRenewalInterval, s.Names h .renewal
  cron : ∀ i, ∀ h ∈ (s.schedulers i).cronInterval, s.Names h .cron
  only : ∀ t ∈ s.timers, t.kind = .cron → (s.schedulers t.scheduler).cronInterval = some t.id
  idle : ∀ i, (s.schedulers i).cronRunning = false → (s.schedulers i).cronInterval = none

/-- **A step that revives a stopped instance**: `stop` leaves a timer that renews or polls, or the
reply "acquired" or an error reaches an election of an instance that has stopped. -/
def Revives (s : Cluster) : Event → Prop
  | .stop i => ∃ t ∈ s.timers, t.scheduler = i ∧
      ((t.kind = .renewal ∧ (s.schedulers i).lockRenewalInterval ≠ some t.id) ∨
        (t.kind = .poll ∧ (s.schedulers i).isLeader = true ∧
          (s.schedulers i).pollTimeout ≠ some t.id))
  | .reply k => ∃ r ∈ s.requests[k]?, r.answer = some true ∧ r.Elects r.scheduler ∧
      (s.schedulers r.scheduler).isRunning = false
  | .reject k => ∃ r ∈ s.requests[k]?, r.Elects r.scheduler ∧
      (s.schedulers r.scheduler).isRunning = false
  | _ => False

theorem schedulers_modify_self (s : Cluster) (i : ℕ) (f : JobScheduler → JobScheduler) :
    (s.modify i f).schedulers i = f (s.schedulers i) :=
  Function.update_self ..

theorem schedulers_modify_of_ne (s : Cluster) (h : j ≠ i) (f : JobScheduler → JobScheduler) :
    (s.modify i f).schedulers j = s.schedulers j :=
  Function.update_of_ne h ..

theorem forall_modify {p : ℕ → JobScheduler → Prop} (h : ∀ j, p j (s.schedulers j))
    {f : JobScheduler → JobScheduler} (hi : p i (f (s.schedulers i))) (j : ℕ) :
    p j ((s.modify i f).schedulers j) := by
  by_cases hj : j = i
  · subst hj
    rw [schedulers_modify_self]
    exact hi
  · rw [schedulers_modify_of_ne s hj]
    exact h j

/-! ## Handles -/

section Handles

variable {handle : ℕ} {kind : TimerKind}

theorem mem_arm {k : TimerKind} {ms : ℕ} {t : Timer} (ht : t ∈ (s.arm i k ms).timers) :
    t ∈ s.timers ∨ t = ⟨s.nextTimer, i, k, s.redis.now + ms⟩ :=
  (List.mem_append.mp ht).imp_right List.mem_singleton.mp

theorem mem_clear {h : Option ℕ} {t : Timer} :
    t ∈ (s.clear h).timers ↔ t ∈ s.timers ∧ some t.id ≠ h := by
  rw [clear, List.mem_filter, decide_eq_true_eq]

theorem mem_rearm {timer ms : ℕ} {t : Timer} (ht : t ∈ (s.rearm timer ms).timers) :
    ∃ u ∈ s.timers, t.id = u.id ∧ t.scheduler = u.scheduler ∧ t.kind = u.kind := by
  obtain ⟨u, hu, rfl⟩ := List.mem_map.mp ht
  refine ⟨u, hu, ?_⟩
  split_ifs <;> exact ⟨rfl, rfl, rfl⟩

theorem Names.arm (h : s.Names handle kind) (k : TimerKind) (ms : ℕ) :
    (s.arm i k ms).Names handle kind := by
  refine ⟨Nat.lt_succ_of_lt h.1, fun t ht hid => ?_⟩
  rcases mem_arm ht with ht | rfl
  · exact h.2 t ht hid
  · exact absurd hid (Nat.ne_of_gt h.1)

theorem Names.clear (h : s.Names handle kind) (n : Option ℕ) : (s.clear n).Names handle kind :=
  ⟨h.1, fun t ht => h.2 t (mem_clear.mp ht).1⟩

theorem Names.rearm (h : s.Names handle kind) (timer ms : ℕ) :
    (s.rearm timer ms).Names handle kind := by
  refine ⟨h.1, fun t ht hid => ?_⟩
  obtain ⟨u, hu, hu', -, hk⟩ := mem_rearm ht
  exact hk.trans (h.2 u hu (hu'.symm.trans hid))

theorem Named.next (h : Named s) (i : ℕ) (kind : TimerKind) (ms : ℕ) :
    (s.arm i kind ms).Names s.nextTimer kind := by
  refine ⟨Nat.lt_succ_self _, fun t ht hid => ?_⟩
  rcases mem_arm ht with ht | rfl
  · exact absurd hid (Nat.ne_of_lt (h.fresh t ht))
  · rfl

theorem named_init : Named init :=
  ⟨nofun, nofun, nofun, nofun, nofun, fun _ _ => rfl⟩

theorem Named.arm (h : Named s) (i : ℕ) (hk : kind ≠ .cron) (ms : ℕ) :
    Named (s.arm i kind ms) where
  fresh t ht := by
    rcases mem_arm ht with ht | rfl
    · exact Nat.lt_succ_of_lt (h.fresh t ht)
    · exact Nat.lt_succ_self _
  poll j n hn := (h.poll j n hn).arm kind ms
  renewal j n hn := (h.renewal j n hn).arm kind ms
  cron j n hn := (h.cron j n hn).arm kind ms
  only t ht hc := by
    rcases mem_arm ht with ht | rfl
    · exact h.only t ht hc
    · exact absurd hc hk
  idle := h.idle

theorem Named.clear (h : Named s) (n : Option ℕ) : Named (s.clear n) where
  fresh t ht := h.fresh t (mem_clear.mp ht).1
  poll j m hm := (h.poll j m hm).clear n
  renewal j m hm := (h.renewal j m hm).clear n
  cron j m hm := (h.cron j m hm).clear n
  only t ht := h.only t (mem_clear.mp ht).1
  idle := h.idle

theorem Named.rearm (h : Named s) (timer ms : ℕ) : Named (s.rearm timer ms) where
  fresh t ht := by
    obtain ⟨u, hu, hid, -, -⟩ := mem_rearm ht
    exact hid ▸ h.fresh u hu
  poll j m hm := (h.poll j m hm).rearm timer ms
  renewal j m hm := (h.renewal j m hm).rearm timer ms
  cron j m hm := (h.cron j m hm).rearm timer ms
  only t ht hc := by
    obtain ⟨u, hu, hid, hs, hk⟩ := mem_rearm ht
    rw [hs, hid]
    exact h.only u hu (hk ▸ hc)
  idle := h.idle

theorem Named.modify (h : Named s) {f : JobScheduler → JobScheduler}
    (hpoll : ∀ n ∈ (f (s.schedulers i)).pollTimeout, s.Names n .poll)
    (hrenewal : ∀ n ∈ (f (s.schedulers i)).lockRenewalInterval, s.Names n .renewal)
    (hcron : (f (s.schedulers i)).cronInterval = (s.schedulers i).cronInterval)
    (hrun : (f (s.schedulers i)).cronRunning = (s.schedulers i).cronRunning) :
    Named (s.modify i f) where
  fresh := h.fresh
  poll := forall_modify (p := fun _ j => ∀ n ∈ j.pollTimeout, s.Names n .poll) h.poll hpoll
  renewal := forall_modify (p := fun _ j => ∀ n ∈ j.lockRenewalInterval, s.Names n .renewal)
    h.renewal hrenewal
  cron := forall_modify (p := fun _ j => ∀ n ∈ j.cronInterval, s.Names n .cron) h.cron
    (hcron ▸ h.cron i)
  only t ht hc := by
    refine forall_modify (p := fun j x => t.scheduler = j → x.cronInterval = some t.id)
      (fun j hj => hj ▸ h.only t ht hc) (fun hj => ?_) t.scheduler rfl
    rw [hcron, ← hj]
    exact h.only t ht hc
  idle := forall_modify (p := fun _ j => j.cronRunning = false → j.cronInterval = none) h.idle
    (by rw [hcron, hrun]; exact h.idle i)

theorem Named.congr (h : Named s) (ht : s'.timers = s.timers) (hn : s'.nextTimer = s.nextTimer)
    (hs : s'.schedulers = s.schedulers) : Named s' := by
  obtain ⟨_, _, _, _, _, _, _⟩ := s
  obtain ⟨_, _, _, _, _, _, _⟩ := s'
  subst ht hn hs
  exact ⟨h.fresh, h.poll, h.renewal, h.cron, h.only, h.idle⟩

theorem Named.cronStart (h : Named s) (i : ℕ) : Named (s.cronStart d i) := by
  unfold Cluster.cronStart
  split_ifs with hrun
  · exact h
  · have hidle := h.idle i (eq_false_of_ne_true hrun)
    refine ⟨fun t ht => ?_, ?_, ?_, ?_, fun t ht hc => ?_, ?_⟩
    · rcases mem_arm ht with ht | rfl
      · exact Nat.lt_succ_of_lt (h.fresh t ht)
      · exact Nat.lt_succ_self _
    · exact forall_modify (s := s.arm i .cron _)
        (p := fun _ j => ∀ n ∈ j.pollTimeout, (s.arm i .cron _).Names n .poll)
        (fun j n hn => (h.poll j n hn).arm _ _) fun n hn => (h.poll i n hn).arm _ _
    · exact forall_modify (s := s.arm i .cron _)
        (p := fun _ j => ∀ n ∈ j.lockRenewalInterval, (s.arm i .cron _).Names n .renewal)
        (fun j n hn => (h.renewal j n hn).arm _ _) fun n hn => (h.renewal i n hn).arm _ _
    · refine forall_modify (s := s.arm i .cron _)
        (p := fun _ j => ∀ n ∈ j.cronInterval, (s.arm i .cron _).Names n .cron)
        (fun j n hn => (h.cron j n hn).arm _ _) fun n hn => ?_
      obtain rfl := Option.some.inj hn
      exact h.next i .cron _
    · rcases mem_arm ht with ht | rfl
      · -- the instance had no timer of this kind, so this one is of another instance
        have hold := h.only t ht hc
        have hne : t.scheduler ≠ i := fun hi => by
          rw [hi, hidle] at hold
          cases hold
        exact (congrArg JobScheduler.cronInterval
          (schedulers_modify_of_ne (s.arm i .cron _) hne _)).trans hold
      · exact congrArg JobScheduler.cronInterval (schedulers_modify_self (s.arm i .cron _) i _)
    · exact forall_modify (s := s.arm i .cron _)
        (p := fun _ j => j.cronRunning = false → j.cronInterval = none) h.idle nofun

theorem Named.cronStop (h : Named s) (i : ℕ) : Named (s.cronStop i) := by
  have hc := h.clear (s.schedulers i).cronInterval
  refine ⟨hc.fresh, ?_, ?_, ?_, fun t ht hk => ?_, ?_⟩
  · exact forall_modify (p := fun _ j => ∀ n ∈ j.pollTimeout, Names _ n .poll) hc.poll (hc.poll i)
  · exact forall_modify (p := fun _ j => ∀ n ∈ j.lockRenewalInterval, Names _ n .renewal)
      hc.renewal (hc.renewal i)
  · exact forall_modify (p := fun _ j => ∀ n ∈ j.cronInterval, Names _ n .cron) hc.cron nofun
  · obtain ⟨hmem, hid⟩ := mem_clear.mp ht
    have hold := h.only t hmem hk
    have hne : t.scheduler ≠ i := fun hi => hid (hi ▸ hold).symm
    exact (congrArg JobScheduler.cronInterval (schedulers_modify_of_ne _ hne _)).trans hold
  · exact forall_modify (p := fun _ j => j.cronRunning = false → j.cronInterval = none) hc.idle
      fun _ => rfl

end Handles

/-! ## What keeps a stopped instance at rest -/

/-- The instance `y` does no more than `x`, unless it is running. -/
def Idler (x y : JobScheduler) : Prop :=
  y.isRunning = false → x.isRunning = false ∧
    (x.cronRunning = false → y.cronRunning = false) ∧ (y.isLeader = true → x.isLeader = true)

theorem Idler.refl (x : JobScheduler) : Idler x x := fun h => ⟨h, id, id⟩

/-- **What a method keeps**: new timers are those of a back-off or of a running instance, and the
other instances do no more than before. -/
structure Calms (s s' : Cluster) : Prop where
  named : Named s'
  timers : ∀ t ∈ s'.timers, (∃ u ∈ s.timers, u.scheduler = t.scheduler ∧ u.kind = t.kind) ∨
    t.kind = .backoff ∨ (s'.schedulers t.scheduler).isRunning = true
  idler : ∀ i, Idler (s.schedulers i) (s'.schedulers i)

theorem Calms.allRest (h : Calms s s') (hr : AllRest s) : AllRest s' := by
  intro i hi
  obtain ⟨hrun, hcron, hlead⟩ := h.idler i hi
  obtain ⟨hcron', hwork⟩ := hr i hrun
  refine ⟨hcron hcron', fun t ht hti hw => ?_⟩
  subst hti
  rcases h.timers t ht with ⟨u, hu, hus, huk⟩ | hk | hrun'
  · refine hwork u hu hus ?_
    unfold Work at hw ⊢
    rw [huk, hus]
    exact hw.imp_right (Or.imp_right fun hp => ⟨hp.1, hlead hp.2⟩)
  · unfold Work at hw
    rw [hk] at hw
    rcases hw with hw | hw | ⟨hw, -⟩ <;> cases hw
  · exact Bool.noConfusion (hi.symm.trans hrun')

namespace Calms

theorem refl (h : Named s) : Calms s s :=
  ⟨h, fun t ht => .inl ⟨t, ht, rfl, rfl⟩, fun _ => Idler.refl _⟩

theorem congr (h : Calms s s') (ht : s''.timers = s'.timers) (hn : s''.nextTimer = s'.nextTimer)
    (hs : s''.schedulers = s'.schedulers) : Calms s s'' where
  named := h.named.congr ht hn hs
  timers t hm := by
    rw [hs]
    exact h.timers t (ht ▸ hm)
  idler i := hs ▸ h.idler i

theorem arm (h : Calms s s') {kind : TimerKind} (hk : kind ≠ .cron)
    (hi : kind = .backoff ∨ (s'.schedulers i).isRunning = true) (ms : ℕ) :
    Calms s (s'.arm i kind ms) where
  named := h.named.arm i hk ms
  timers t ht := by
    rcases mem_arm ht with ht | rfl
    · exact h.timers t ht
    · exact .inr hi
  idler := h.idler

theorem clear (h : Calms s s') (n : Option ℕ) : Calms s (s'.clear n) where
  named := h.named.clear n
  timers t ht := h.timers t (mem_clear.mp ht).1
  idler := h.idler

theorem rearm (h : Calms s s') (timer ms : ℕ) : Calms s (s'.rearm timer ms) where
  named := h.named.rearm timer ms
  timers t ht := by
    obtain ⟨u, hu, -, hsch, hk⟩ := mem_rearm ht
    rw [hsch, hk]
    exact h.timers u hu
  idler := h.idler

theorem modify (h : Calms s s') {f : JobScheduler → JobScheduler} (hn : Named (s'.modify i f))
    (hf : Idler (s'.schedulers i) (f (s'.schedulers i))) : Calms s (s'.modify i f) where
  named := hn
  timers t ht := by
    refine (h.timers t ht).imp_right (Or.imp_right fun hrun => ?_)
    by_contra hrun'
    have := (forall_modify (p := fun j => Idler (s'.schedulers j)) (fun _ => Idler.refl _) hf
      t.scheduler (eq_false_of_ne_true hrun')).1
    exact Bool.noConfusion (this.symm.trans hrun)
  idler := forall_modify (p := fun j => Idler (s.schedulers j)) h.idler fun hy => by
    obtain ⟨hx, hcron, hlead⟩ := hf hy
    obtain ⟨hs, hcron', hlead'⟩ := h.idler i hx
    exact ⟨hs, fun hc => hcron (hcron' hc), fun hl => hlead' (hlead hl)⟩

theorem arm_modify (h : Calms s s') {kind : TimerKind} (hk : kind ≠ .cron)
    (hi : (s'.schedulers i).isRunning = true) (ms : ℕ) {f : JobScheduler → JobScheduler}
    (hn : Named (s'.arm i kind ms) → Named ((s'.arm i kind ms).modify i f))
    (hf : (f (s'.schedulers i)).isRunning = (s'.schedulers i).isRunning) :
    Calms s ((s'.arm i kind ms).modify i f) := by
  have harm := h.arm hk (.inr hi) ms
  refine harm.modify (hn harm.named) fun hy => ?_
  exact Bool.noConfusion ((hf.symm.trans hy).symm.trans hi)

theorem schedulePoll (h : Calms s s') (i : ℕ) : Calms s (s'.schedulePoll d i) := by
  unfold Cluster.schedulePoll
  split_ifs with hrun
  · refine h.arm_modify (by decide) hrun _ (fun hn => hn.modify (fun n hm => ?_) (hn.renewal i)
      rfl rfl) rfl
    obtain rfl := Option.some.inj hm
    exact h.named.next i .poll _
  · exact h

theorem startLockRenewal (h : Calms s s') (hrun : (s'.schedulers i).isRunning = true) :
    Calms s (s'.startLockRenewal d i) := by
  refine h.arm_modify (by decide) hrun _ (fun hn => hn.modify (hn.poll i) (fun n hm => ?_)
    rfl rfl) rfl
  obtain rfl := Option.some.inj hm
  exact h.named.next i .renewal _

theorem afterElection (h : Calms s s') (i : ℕ) (inStart : Bool) :
    Calms s (s'.afterElection d i inStart) := by
  unfold Cluster.afterElection
  split_ifs
  · exact h.schedulePoll i
  · exact h

theorem cronStop (h : Calms s s') (i : ℕ) : Calms s (s'.cronStop i) := by
  refine (h.clear _).modify (h.named.cronStop i) fun hy => ⟨hy, fun _ => rfl, id⟩

theorem cronStart (h : Calms s s') (hrun : (s'.schedulers i).isRunning = true) :
    Calms s (s'.cronStart d i) := by
  have hn := h.named.cronStart (d := d) i
  unfold Cluster.cronStart at hn ⊢
  split_ifs at hn ⊢
  · exact h
  · have hkeep := forall_modify (s := s'.arm i .cron (d.pollIntervalMs i)) (i := i)
      (p := fun j x => x.isRunning = (s'.schedulers j).isRunning)
      (f := fun j => { j with cronRunning := true, cronInterval := some s'.nextTimer })
      (fun _ => rfl) rfl
    refine ⟨hn, fun t ht => ?_, fun j hj => ?_⟩
    · rcases mem_arm ht with ht | rfl
      · exact (h.timers t ht).imp_right (Or.imp_right fun hr => (hkeep _).trans hr)
      · exact .inr (.inr ((hkeep i).trans hrun))
    · have hne : j ≠ i := fun hji => by
        subst hji
        exact Bool.noConfusion (hrun.symm.trans ((hkeep j).symm.trans hj))
      rw [schedulers_modify_of_ne _ hne] at hj ⊢
      exact h.idler j hj

theorem stepDown (h : Calms s s') (i : ℕ) : Calms s (s'.stepDown i) := by
  have hlead : Calms s (s'.modify i fun j => { j with leader := none }) :=
    h.modify (h.named.modify (h.named.poll i) (h.named.renewal i) rfl rfl)
      fun hy => ⟨hy, id, nofun⟩
  exact ((hlead.cronStop i).clear _).arm (by decide) (.inl rfl) _

theorem lead (h : Calms s s') (hrun : (s'.schedulers i).isRunning = true) (l : Leadership) :
    Calms s (s'.lead d i l) := by
  have hx := schedulers_modify_self s' i fun j => { j with leader := some l }
  have hlead : Calms s (s'.modify i fun j => { j with leader := some l }) :=
    h.modify (h.named.modify (h.named.poll i) (h.named.renewal i) rfl rfl)
      fun hy => Bool.noConfusion (hy.symm.trans hrun)
  exact hlead.cronStart (by rw [hx]; exact hrun)

end Calms

/-- The instance `y` runs, and its cron scheduler, as `x` does. -/
def RunsLike (x y : JobScheduler) : Prop :=
  y.isRunning = x.isRunning ∧ y.cronRunning = x.cronRunning

theorem runsLike_afterElection (s : Cluster) (i : ℕ) (inStart : Bool) :
    RunsLike (s.schedulers i) ((s.afterElection d i inStart).schedulers i) := by
  unfold afterElection schedulePoll
  split_ifs <;> simp [RunsLike, Cluster.modify, Cluster.arm]

theorem runsLike_startLockRenewal (s : Cluster) (i : ℕ) :
    RunsLike (s.schedulers i) ((s.startLockRenewal d i).schedulers i) := by
  simp [RunsLike, startLockRenewal, Cluster.modify, Cluster.arm]

theorem schedulers_lead (s : Cluster) (i : ℕ) (l : Leadership) :
    ((s.lead d i l).schedulers i).isRunning = (s.schedulers i).isRunning ∧
      ((s.lead d i l).schedulers i).cronRunning = true := by
  unfold lead cronStart
  split_ifs with h
  · exact ⟨by simp [Cluster.modify], h⟩
  · simp [Cluster.modify, Cluster.arm]

theorem not_allRest (hrun : (s.schedulers i).isRunning = false)
    (hcron : (s.schedulers i).cronRunning = true) : ¬ AllRest s := fun h =>
  Bool.noConfusion (hcron.symm.trans (h i hrun).1)

/-! ## Elections -/

/-- **An election that is won** starts the cron scheduler, of an instance that has stopped too. -/
theorem afterAcquire_rests (token : Token) (ttlMs : ℕ) (inStart acquired : Bool)
    (h : Calms s s') :
    ((s'.schedulers i).isRunning = false → acquired = true →
      ¬ AllRest (s'.afterAcquire d i token ttlMs inStart acquired)) ∧
    ((s'.schedulers i).isRunning = true ∨ acquired = false →
      Calms s (s'.afterAcquire d i token ttlMs inStart acquired)) := by
  unfold afterAcquire
  constructor
  · rintro hrun rfl
    rw [if_pos rfl]
    obtain ⟨hlead, hcron⟩ := schedulers_lead (d := d)
      (s'.setLock (d.process i) (some ⟨token, s'.redis.now + ttlMs⟩)) i (.lock token)
    obtain ⟨hrun₁, hcron₁⟩ := runsLike_startLockRenewal (d := d)
      ((s'.setLock (d.process i) (some ⟨token, s'.redis.now + ttlMs⟩)).lead d i (.lock token)) i
    obtain ⟨hrun₂, hcron₂⟩ := runsLike_afterElection (d := d)
      (((s'.setLock (d.process i) (some ⟨token, s'.redis.now + ttlMs⟩)).lead d i
        (.lock token)).startLockRenewal d i) i inStart
    exact not_allRest ((hrun₂.trans (hrun₁.trans hlead)).trans hrun)
      (hcron₂.trans (hcron₁.trans hcron))
  · intro hcond
    split_ifs with ha
    · have hrun := hcond.resolve_right fun hf => Bool.noConfusion (ha.symm.trans hf)
      have hlock : Calms s (s'.setLock (d.process i) (some ⟨token, s'.redis.now + ttlMs⟩)) :=
        h.congr rfl rfl rfl
      have hlead := hlock.lead (d := d) hrun (.lock token)
      refine (hlead.startLockRenewal ?_).afterElection i inStart
      exact (schedulers_lead _ i _).1.trans hrun
    · exact h.afterElection i inStart

theorem standalone_rests (inStart : Bool) (h : Calms s s') :
    ((s'.schedulers i).isRunning = false → ¬ AllRest (s'.standalone d i inStart)) ∧
    ((s'.schedulers i).isRunning = true → Calms s (s'.standalone d i inStart)) := by
  unfold standalone
  constructor
  · intro hrun
    obtain ⟨hlead, hcron⟩ := schedulers_lead (d := d) s' i .standalone
    obtain ⟨hrun₁, hcron₁⟩ := runsLike_afterElection (d := d) (s'.lead d i .standalone) i inStart
    exact not_allRest ((hrun₁.trans hlead).trans hrun) (hcron₁.trans hcron)
  · exact fun hrun => (h.lead hrun .standalone).afterElection i inStart

/-! ## Steps -/

theorem calms_fire (hn : Named s) (t : Timer) :
    Calms s (s.fire d t) := by
  have hrefl := Calms.refl hn
  unfold fire
  split
  · unfold pollCallback
    have hclear := hrefl.clear (some t.id)
    split_ifs
    · exact hclear.congr rfl rfl rfl
    · exact hclear.schedulePoll _
  · have hre := hrefl.rearm t.id (d.lockTtlMs t.scheduler * 6 / 10)
    unfold renew
    split
    · exact hre.stepDown _
    · exact hre.congr rfl rfl rfl
  · exact hrefl.rearm _ _
  · exact (hrefl.clear _).congr rfl rfl rfl

theorem named_stop (hn : Named s) : Named (s.stop i) := by
  have hrun : Named (s.modify i fun j => { j with isRunning := false }) :=
    hn.modify (hn.poll i) (hn.renewal i) rfl rfl
  exact ((hrun.clear _).clear _).cronStop i

theorem schedulers_stop (s : Cluster) (i j : ℕ) :
    (s.stop i).schedulers j = if j = i then
      { s.schedulers i with isRunning := false, cronRunning := false, cronInterval := none }
    else s.schedulers j := by
  unfold stop cronStop
  split_ifs with hj
  · subst hj
    simp [Cluster.modify, Cluster.clear]
  · simp [Cluster.modify, Cluster.clear, hj]

theorem mem_stop {t : Timer} : t ∈ (s.stop i).timers ↔ t ∈ s.timers ∧
    (s.schedulers i).pollTimeout ≠ some t.id ∧
    (s.schedulers i).lockRenewalInterval ≠ some t.id ∧
    (s.schedulers i).cronInterval ≠ some t.id := by
  have hcron : ((s.modify i fun j => { j with isRunning := false }).schedulers i).cronInterval =
      (s.schedulers i).cronInterval := by
    rw [schedulers_modify_self]
  unfold stop cronStop
  refine mem_clear.trans ((and_congr_left' (mem_clear.trans (and_congr_left' mem_clear))).trans ?_)
  change (((_ ∧ _) ∧ _) ∧ some t.id ≠ ((s.modify i fun j =>
    { j with isRunning := false }).schedulers i).cronInterval) ↔ _
  rw [hcron, and_assoc, and_assoc]
  exact and_congr_right' (and_congr ne_comm (and_congr ne_comm ne_comm))

theorem Names.ne {h : Option ℕ} {kind : TimerKind} (hn : ∀ n ∈ h, s.Names n kind) {t : Timer}
    (ht : t ∈ s.timers) (hk : t.kind ≠ kind) : h ≠ some t.id :=
  fun he => hk ((hn t.id he).2 t ht rfl)

/-- **`stop`** leaves nothing that works, if the handles of the instance name all of it. -/
theorem allRest_stop_iff (hn : Named s) (hr : AllRest s) :
    AllRest (s.stop i) ↔ ¬ s.Revives (.stop i) := by
  have hself : (s.stop i).schedulers i = { s.schedulers i with
      isRunning := false, cronRunning := false, cronInterval := none } :=
    (schedulers_stop s i i).trans (if_pos rfl)
  constructor
  · rintro hall ⟨t, ht, rfl, ⟨hk, hne⟩ | ⟨hk, hlead, hne⟩⟩
    · refine (hall t.scheduler (by rw [hself])).2 t (mem_stop.mpr ⟨ht, ?_, hne, ?_⟩) rfl (.inl hk)
      · exact Names.ne (hn.poll _) ht (by rw [hk]; decide)
      · exact Names.ne (hn.cron _) ht (by rw [hk]; decide)
    · refine (hall t.scheduler (by rw [hself])).2 t (mem_stop.mpr ⟨ht, hne, ?_, ?_⟩) rfl
        (.inr (.inr ⟨hk, by rw [hself]; exact hlead⟩))
      · exact Names.ne (hn.renewal _) ht (by rw [hk]; decide)
      · exact Names.ne (hn.cron _) ht (by rw [hk]; decide)
  · intro hno j hj
    by_cases hji : j = i
    · subst hji
      refine ⟨by rw [hself], fun t ht htj hw => ?_⟩
      obtain ⟨hmem, hpoll, hrenewal, hcron⟩ := mem_stop.mp ht
      subst htj
      rcases hw with hk | hk | ⟨hk, hlead⟩
      · exact hno ⟨t, hmem, rfl, .inl ⟨hk, hrenewal⟩⟩
      · exact hcron (hn.only t hmem hk)
      · rw [hself] at hlead
        exact hno ⟨t, hmem, rfl, .inr ⟨hk, hlead, hpoll⟩⟩
    · have hother : (s.stop i).schedulers j = s.schedulers j :=
        (schedulers_stop s i j).trans (if_neg hji)
      rw [hother] at hj
      obtain ⟨hcron, hwork⟩ := hr j hj
      refine ⟨by rw [hother]; exact hcron, fun t ht htj hw => ?_⟩
      refine hwork t (mem_stop.mp ht).1 htj ?_
      subst htj
      unfold Work at hw ⊢
      rwa [hother] at hw

/-- **What is asked of a step**: one that revives an instance leaves it at work, and any other one
keeps the stopped instances at rest. -/
def Rested (s : Cluster) (e : Event) (s' : Cluster) : Prop :=
  (Revives s e → ¬ AllRest s') ∧ (¬ Revives s e → Named s' ∧ AllRest s')

theorem Calms.rested (hc : Calms s s') (hr : AllRest s) (hrev : ¬ Revives s e) : Rested s e s' :=
  ⟨fun h => absurd h hrev, fun _ => ⟨hc.named, hc.allRest hr⟩⟩

/-- **A reply**: an election that is won revives an instance that is not running. -/
theorem rested_replied (hn : Named s) (hr : AllRest s) {k : ℕ} {r : Request} {answer : Bool}
    (hr' : s.requests[k]? = some r) (hset : r.settled = false) (ha : r.answer = some answer) :
    Rested s (.reply k) ((s.settle k r).replied d r answer) := by
  have hsettle : Calms s (s.settle k r) := (Calms.refl hn).congr rfl rfl rfl
  unfold replied
  split
  · rename_i token ttlMs hc
    obtain ⟨hbad, hgood⟩ := afterAcquire_rests (d := d) (i := r.scheduler) token ttlMs r.inStart
      answer hsettle
    refine ⟨?_, fun hrev => ?_⟩
    · rintro ⟨q, hq, hqa, -, hrun⟩
      obtain rfl := Option.some.inj (hr'.symm.trans hq)
      exact hbad hrun (Option.some.inj (ha.symm.trans hqa))
    · have hcalms := hgood ?_
      · exact ⟨hcalms.named, hcalms.allRest hr⟩
      · by_contra hcon
        rw [not_or] at hcon
        refine hrev ⟨r, hr', ?_, ⟨hset, rfl, _, _, hc⟩, eq_false_of_ne_true hcon.1⟩
        rw [ha, eq_true_of_ne_false hcon.2]
  · rename_i token ttlMs hc
    have hcalms : Calms s ((s.settle k r).afterRenew d r.scheduler token ttlMs answer) := by
      unfold afterRenew
      split_ifs
      · exact hsettle.congr rfl rfl rfl
      · have hlock : Calms s ((s.settle k r).setLock (d.process r.scheduler) none) :=
          hsettle.congr rfl rfl rfl
        exact hlock.stepDown _
    refine hcalms.rested hr fun ⟨q, hq, _, hel, _⟩ => ?_
    obtain rfl := Option.some.inj (hr'.symm.trans hq)
    exact not_elects_extend hc _ hel

/-- **An error**: an election that fails revives an instance that is not running. -/
theorem rested_rejected (hn : Named s) (hr : AllRest s) {k : ℕ} {r : Request}
    (hr' : s.requests[k]? = some r) (hset : r.settled = false) :
    Rested s (.reject k) ((s.settle k r).rejected d r) := by
  have hsettle : Calms s (s.settle k r) := (Calms.refl hn).congr rfl rfl rfl
  unfold rejected
  split
  · rename_i token ttlMs hc
    obtain ⟨hbad, hgood⟩ := standalone_rests (d := d) (i := r.scheduler) r.inStart hsettle
    refine ⟨?_, fun hrev => ?_⟩
    · rintro ⟨q, hq, -, hrun⟩
      obtain rfl := Option.some.inj (hr'.symm.trans hq)
      exact hbad hrun
    · have hcalms := hgood (eq_true_of_ne_false fun hrun =>
        hrev ⟨r, hr', ⟨hset, rfl, _, _, hc⟩, hrun⟩)
      exact ⟨hcalms.named, hcalms.allRest hr⟩
  · rename_i token ttlMs hc
    refine hsettle.rested hr fun ⟨q, hq, hel, _⟩ => ?_
    obtain rfl := Option.some.inj (hr'.symm.trans hq)
    exact not_elects_extend hc _ hel

theorem rest_step (hn : Named s) (hr : AllRest s) (hs : s.step d e = some s') : Rested s e s' := by
  have hrefl := Calms.refl hn
  cases e with
  | advance ms =>
      obtain rfl := Option.some.inj hs
      have hcalms : Calms s { s with redis := s.redis.advance ms } := hrefl.congr rfl rfl rfl
      exact hcalms.rested hr id
  | start i =>
      obtain rfl := Option.some.inj hs
      refine Calms.rested ?_ hr id
      unfold start
      split_ifs
      · exact hrefl
      · have hrun : Calms s (s.modify i fun j => { j with isRunning := true }) :=
          hrefl.modify (hn.modify (hn.poll i) (hn.renewal i) rfl rfl) fun hy => Bool.noConfusion hy
        exact hrun.congr rfl rfl rfl
  | stop i =>
      obtain rfl := Option.some.inj hs
      have hiff := allRest_stop_iff (i := i) hn hr
      exact ⟨fun hrev hall => hiff.mp hall hrev, fun hrev => ⟨named_stop hn, hiff.mpr hrev⟩⟩
  | fire timer =>
      obtain ⟨t, -, rfl⟩ := Option.map_eq_some_iff.mp hs
      exact (calms_fire hn t).rested hr id
  | execute k =>
      obtain ⟨r, p, -, -, rfl⟩ := execute_eq_some hs
      have hcalms : Calms s { s with
          redis := p.1, requests := s.requests.set k { r with answer := some p.2 } } :=
        hrefl.congr rfl rfl rfl
      exact hcalms.rested hr id
  | reply k =>
      obtain ⟨r, answer, hr', hset, ha, rfl⟩ := reply_eq_some hs
      exact rested_replied hn hr hr' hset ha
  | reject k =>
      obtain ⟨r, hr', hset, rfl⟩ := reject_eq_some hs
      exact rested_rejected hn hr hr' hset
  | pollDone run =>
      obtain ⟨i, -, rfl⟩ := Option.map_eq_some_iff.mp hs
      have hpolls : Calms s { s with polls := s.polls.eraseIdx run } := hrefl.congr rfl rfl rfl
      exact (hpolls.schedulePoll i).rested hr id

/-- The step starts a `poll` or a cron tick of the instance. -/
def StartsWork (s : Cluster) (i : ℕ) : Event → Prop
  | .fire timer => ∃ t ∈ s.timers, t.id = timer ∧ t.scheduler = i ∧
      (t.kind = .cron ∨ (t.kind = .poll ∧ (s.schedulers i).isLeader = true))
  | _ => False

theorem Rests.not_startsWork (h : s.Rests i) (hi : (s.schedulers i).isRunning = false) :
    ¬ s.StartsWork i e := by
  cases e with
  | fire timer =>
      rintro ⟨t, ht, -, rfl, hk⟩
      exact (h hi).2 t ht rfl (.inr hk)
  | advance _ | start _ | stop _ | execute _ | reply _ | reject _ | pollDone _ => exact id

theorem allRest_of_run {es : List Event}
    (h : Run (step d) (stateGuard fun s e => ¬ Revives s e) init es s) : Named s ∧ AllRest s :=
  h.stable ⟨named_init, fun _ _ => ⟨rfl, nofun⟩⟩ fun _ _ _ _ hi hg hs =>
    (rest_step hi.1 hi.2 hs).2 hg

/-- **The stopped instances rest** all along a run exactly when no step of it revives one. Then no
step starts a `poll` or a cron tick of a stopped instance. -/
theorem stopped_rests_iff {es : List Event} (h : Run (step d) anyStep init es s) :
    (Always (step d) init AllRest es ↔
      Run (step d) (stateGuard fun s e => ¬ Revives s e) init es s) ∧
    (Run (step d) (stateGuard fun s e => ¬ Revives s e) init es s →
      Run (step d) (stateGuard fun s e => ∀ i, (s.schedulers i).isRunning = false →
        ¬ s.StartsWork i e) init es s) := by
  constructor
  · apply h.always_iff (I := fun s => AllRest s → Named s) (fun _ => named_init)
    · exact fun _ _ => ⟨rfl, nofun⟩
    · intro es s e s' hI hP _ hs
      obtain ⟨hbad, hgood⟩ := rest_step (hI hP) hP hs
      by_cases hrev : Revives s e
      · exact ⟨fun hr => absurd hr (hbad hrev), iff_of_false (hbad hrev) (not_not_intro hrev)⟩
      · obtain ⟨hn, hr⟩ := hgood hrev
        exact ⟨fun _ => hn, iff_of_true hr hrev⟩
  · intro hrun
    clear h
    induction hrun with
    | nil => exact .nil
    | snoc hr _ hs ih =>
        exact ih.snoc (fun i hi => ((allRest_of_run hr).2 i).not_startsWork hi) hs

instance : DecidablePred s.Revives
  | .stop i => inferInstanceAs (Decidable (∃ t ∈ s.timers, t.scheduler = i ∧
      ((t.kind = .renewal ∧ (s.schedulers i).lockRenewalInterval ≠ some t.id) ∨
        (t.kind = .poll ∧ (s.schedulers i).isLeader = true ∧
          (s.schedulers i).pollTimeout ≠ some t.id))))
  | .reply k => inferInstanceAs (Decidable (∃ r ∈ s.requests[k]?, r.answer = some true ∧
      r.Elects r.scheduler ∧ (s.schedulers r.scheduler).isRunning = false))
  | .reject k => inferInstanceAs (Decidable (∃ r ∈ s.requests[k]?, r.Elects r.scheduler ∧
      (s.schedulers r.scheduler).isRunning = false))
  | .advance _ | .start _ | .fire _ | .execute _ | .pollDone _ => .isFalse id

/-- A leader renews its lock and polls, and is stopped while the `poll` runs. -/
def stoppedWhilePolling : List Event :=
  [.start 0, .execute 0, .reply 0, .advance 18000, .fire 1, .execute 1, .reply 1, .advance 42000,
    .fire 2, .stop 0, .pollDone 0]

theorem stopped_while_polling : ∃ s, runEvents (step nodes) init stoppedWhilePolling = some s ∧
    Always (step nodes) init AllRest stoppedWhilePolling ∧
    (s.schedulers 0).isRunning = false ∧ s.timers = [] ∧ s.polls = [] := by
  obtain ⟨s, hs, hp⟩ := exists_run_of_check (step nodes) (stateGuard fun s e => ¬ Revives s e) init
    stoppedWhilePolling
    (fun s => (s.schedulers 0).isRunning = false ∧ s.timers = [] ∧ s.polls = []) (by decide)
  have hany : Run (step nodes) anyStep init stoppedWhilePolling s := hs.mono fun _ _ _ _ => trivial
  exact ⟨s, hs.runEvents_eq, (stopped_rests_iff hany).1.mpr hs, of_decide_eq_true hp⟩

/-- The instance is stopped before it gets the reply to its election. -/
def stoppedWhileElecting : List Event := [.start 0, .execute 0, .stop 0, .reply 0, .advance 60000]

/-- **A stopped instance becomes the leader**: its cron scheduler is running, its renewal interval
is armed, and its next cron tick starts. -/
theorem stopped_works : ∃ s s', Run (step nodes) anyStep init stoppedWhileElecting s ∧
    (s.schedulers 0).isRunning = false ∧ s.polls = [] ∧ (s.schedulers 0).cronRunning = true ∧
    (∃ t ∈ s.timers, t.scheduler = 0 ∧ t.kind = .renewal) ∧ s.StartsWork 0 (.fire 0) ∧
    s.step nodes (.fire 0) = some s' := by
  obtain ⟨s, hs, hp⟩ := exists_run_of_check (step nodes) anyStep init stoppedWhileElecting
    (fun s => (s.schedulers 0).isRunning = false ∧ s.polls = [] ∧
      (s.schedulers 0).cronRunning = true ∧
      (∃ t ∈ s.timers, t.scheduler = 0 ∧ t.kind = .renewal) ∧
      (∃ t ∈ s.timers, t.id = 0 ∧ t.scheduler = 0 ∧ t.kind = .cron) ∧
      (s.step nodes (.fire 0)).isSome) (by decide)
  obtain ⟨hrun, hpolls, hcron, hrenewal, ⟨t, ht, hid, hsch, hk⟩, hsome⟩ := of_decide_eq_true hp
  obtain ⟨s', hs'⟩ := Option.isSome_iff_exists.mp hsome
  exact ⟨s, s', hs, hrun, hpolls, hcron, hrenewal, ⟨t, ht, hid, hsch, .inl hk⟩, hs'⟩

end TaskOrchestration.Cluster

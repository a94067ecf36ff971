import TaskOrchestration.Leader.Safety

set_option autoImplicit false

/-!
# A standby keeps trying

A `tryBecomeLeader` that is answered "not acquired" arms nothing: the renewal interval is the
leader's, and the poll timer does not look at the lock. A standby that is turned away with no
other attempt under way therefore never tries again.

* `Standby`, `Attempting`, `KeepsTrying`;
* `TurnedAway`: the step takes away the last attempt of a standby;
* `Timed`: a handle never names the timer of a back-off; `Grows`: what every method keeps;
* **`standby_keeps_trying`**: a step loses the property exactly when it turns a standby away;
* `standby_gives_up`: the second of two schedulers.
-/

namespace TaskOrchestration

open Lease LabelledRun

/-- The timers that `stop`, `cronStop` and `stepDown` may clear. -/
def JobScheduler.handles (j : JobScheduler) : List ℕ :=
  j.pollTimeout.toList ++ j.lockRenewalInterval.toList ++ j.cronInterval.toList

/-- The request is an election of `i`: its caller waits for it in `tryBecomeLeader`. -/
def Request.Elects (r : Request) (i : ℕ) : Prop :=
  r.settled = false ∧ r.scheduler = i ∧ ∃ token ttlMs, r.command = .setNx token ttlMs

instance (r : Request) (i : ℕ) : Decidable (r.Elects i) :=
  match hr : r.command with
  | .setNx token ttlMs => decidable_of_iff (r.settled = false ∧ r.scheduler = i)
      ⟨fun h => ⟨h.1, h.2, token, ttlMs, hr⟩, fun h => ⟨h.1, h.2.1⟩⟩
  | .extend _ _ => .isFalse fun ⟨_, _, _, _, h⟩ => by rw [hr] at h; cases h

/-- The timer is the sleep that ends in a call of `tryBecomeLeader` of `i`. -/
def Timer.Elects (t : Timer) (i : ℕ) : Prop := t.scheduler = i ∧ t.kind = .backoff

instance (t : Timer) (i : ℕ) : Decidable (t.Elects i) := by unfold Timer.Elects; infer_instance

namespace Cluster

/-- `isRunning = true` and `isLeader = false`. -/
def Standby (s : Cluster) (i : ℕ) : Prop :=
  (s.schedulers i).isRunning = true ∧ (s.schedulers i).isLeader = false

instance (s : Cluster) (i : ℕ) : Decidable (s.Standby i) := by unfold Standby; infer_instance

/-- **An attempt is pending**: a `tryBecomeLeader` is in flight, or a sleep is armed whose
continuation calls it. A renewal interval is no attempt: it leads there only if its renewal
fails. -/
def Attempting (s : Cluster) (i : ℕ) : Prop :=
  (∃ (k : ℕ) (r : Request), s.requests[k]? = some r ∧ r.Elects i) ∨ ∃ t ∈ s.timers, t.Elects i

def KeepsTrying (s : Cluster) : Prop := ∀ i, s.Standby i → s.Attempting i

/-- The standby has no attempt pending but the request `k`. -/
def NoOtherAttempt (s : Cluster) (k i : ℕ) : Prop :=
  (∀ j < s.requests.length, j ≠ k → ∀ r ∈ s.requests[j]?, ¬ r.Elects i) ∧
    ∀ t ∈ s.timers, ¬ t.Elects i

instance (s : Cluster) (k i : ℕ) : Decidable (s.NoOtherAttempt k i) := by
  unfold NoOtherAttempt; infer_instance

/-- **A standby is turned away**: the reply "not acquired" reaches its last attempt. -/
def TurnedAway (s : Cluster) : Event → Prop
  | .reply k => ∃ r ∈ s.requests[k]?, r.answer = some false ∧ r.Elects r.scheduler ∧
      s.Standby r.scheduler ∧ s.NoOtherAttempt k r.scheduler
  | _ => False

instance (s : Cluster) : DecidablePred s.TurnedAway := fun e => by
  cases e <;> unfold TurnedAway <;> infer_instance

variable {d : Deployment} {s s' s'' : Cluster} {i j : ℕ}

/-! ## Timers -/

/-- The handle names no timer of a back-off, now or later. -/
def Clearable (s : Cluster) (handle : ℕ) : Prop :=
  handle < s.nextTimer ∧ ∀ t ∈ s.timers, t.id = handle → t.kind ≠ .backoff

/-- **The timers.** Handles are fresh, and the ones an instance holds name no back-off. -/
structure Timed (s : Cluster) : Prop where
  fresh : ∀ t ∈ s.timers, t.id < s.nextTimer
  unique : ∀ t ∈ s.timers, ∀ u ∈ s.timers, t.id = u.id → t = u
  handles : ∀ i, ∀ h ∈ (s.schedulers i).handles, s.Clearable h

/-- **What a method of `i` keeps**: the timers stay as they should, the attempts stay pending, and
the other instances do not change. -/
structure Grows (i : ℕ) (s s' : Cluster) : Prop where
  timed : Timed s'
  attempts : ∀ j, s.Attempting j → s'.Attempting j
  others : ∀ j, j ≠ i → s'.schedulers j = s.schedulers j

theorem timed_init : Timed init :=
  ⟨fun _ h => absurd h List.not_mem_nil, fun _ h => absurd h List.not_mem_nil,
    fun _ _ h => absurd h List.not_mem_nil⟩

theorem mem_handles_poll {j : JobScheduler} {h : ℕ} (hj : j.pollTimeout = some h) :
    h ∈ j.handles := by
  simp [JobScheduler.handles, hj]

theorem mem_handles_renewal {j : JobScheduler} {h : ℕ} (hj : j.lockRenewalInterval = some h) :
    h ∈ j.handles := by
  simp [JobScheduler.handles, hj]

theorem mem_handles_cron {j : JobScheduler} {h : ℕ} (hj : j.cronInterval = some h) :
    h ∈ j.handles := by
  simp [JobScheduler.handles, hj]

namespace Grows

theorem refl (h : Timed s) : Grows i s s := ⟨h, fun _ h => h, fun _ _ => rfl⟩

theorem trans (h : Grows i s s') (h' : Grows i s' s'') : Grows i s s'' :=
  ⟨h'.timed, fun j hj => h'.attempts j (h.attempts j hj),
    fun j hj => (h'.others j hj).trans (h.others j hj)⟩

theorem arm (h : Grows i s s') (k : ℕ) (kind : TimerKind) (ms : ℕ) :
    Grows i s (s'.arm k kind ms) := by
  have hlt : ∀ t ∈ s'.timers, t.id ≠ s'.nextTimer := fun t ht => Nat.ne_of_lt (h.timed.fresh t ht)
  refine ⟨⟨fun t ht => ?_, fun t ht u hu htu => ?_, fun m handle hm => ?_⟩, fun j hj => ?_,
    h.others⟩
  · rcases List.mem_append.mp ht with ht | ht
    · exact Nat.lt_succ_of_lt (h.timed.fresh t ht)
    · obtain rfl := List.mem_singleton.mp ht
      exact Nat.lt_succ_self _
  · rcases List.mem_append.mp ht with ht | ht <;> rcases List.mem_append.mp hu with hu | hu
    · exact h.timed.unique t ht u hu htu
    · obtain rfl := List.mem_singleton.mp hu
      exact absurd htu (hlt t ht)
    · obtain rfl := List.mem_singleton.mp ht
      exact absurd htu.symm (hlt u hu)
    · rw [List.mem_singleton.mp ht, List.mem_singleton.mp hu]
  · obtain ⟨hl, hk⟩ := h.timed.handles m handle hm
    refine ⟨Nat.lt_succ_of_lt hl, fun t ht hth => ?_⟩
    rcases List.mem_append.mp ht with ht | ht
    · exact hk t ht hth
    · obtain rfl := List.mem_singleton.mp ht
      exact absurd hth (Nat.ne_of_gt hl)
  · rcases h.attempts j hj with hr | ⟨t, ht, he⟩
    · exact .inl hr
    · exact .inr ⟨t, List.mem_append_left _ ht, he⟩

theorem filter (h : Grows i s s') (p : Timer → Bool)
    (hp : ∀ t ∈ s'.timers, t.kind = .backoff → p t = true) :
    Grows i s { s' with timers := s'.timers.filter p } where
  timed :=
    { fresh := fun t ht => h.timed.fresh t (List.mem_filter.mp ht).1
      unique := fun t ht u hu =>
        h.timed.unique t (List.mem_filter.mp ht).1 u (List.mem_filter.mp hu).1
      handles := fun m handle hm => (h.timed.handles m handle hm).imp_right
        fun hk t ht => hk t (List.mem_filter.mp ht).1 }
  attempts j hj := (h.attempts j hj).imp_right fun ⟨t, ht, he⟩ =>
    ⟨t, List.mem_filter.mpr ⟨ht, hp t ht he.2⟩, he⟩
  others := h.others

theorem clear (h : Grows i s s') {handle : Option ℕ}
    (hc : ∀ n, handle = some n → s'.Clearable n) : Grows i s (s'.clear handle) := by
  apply h.filter
  intro t ht hk
  rw [decide_eq_true_eq]
  intro he
  exact (hc t.id he.symm).2 t ht rfl hk

theorem rearm (h : Grows i s s') (timer ms : ℕ) : Grows i s (s'.rearm timer ms) := by
  have hmem : ∀ t ∈ (s'.rearm timer ms).timers, ∃ u ∈ s'.timers, t = if u.id = timer then
      { u with due := s'.redis.now + ms } else u := fun t ht => by
    obtain ⟨u, hu, rfl⟩ := List.mem_map.mp ht
    exact ⟨u, hu, rfl⟩
  have hsame : ∀ u : Timer, ∀ t, t = (if u.id = timer then
      { u with due := s'.redis.now + ms } else u) → t.id = u.id ∧ t.kind = u.kind := by
    rintro u t rfl
    split_ifs <;> exact ⟨rfl, rfl⟩
  refine ⟨⟨fun t ht => ?_, fun t ht u hu htu => ?_, fun m handle hm => ?_⟩, fun j hj => ?_,
    h.others⟩
  · obtain ⟨u, hu, he⟩ := hmem t ht
    rw [(hsame u t he).1]
    exact h.timed.fresh u hu
  · obtain ⟨t₀, ht₀, ht⟩ := hmem t ht
    obtain ⟨u₀, hu₀, hu⟩ := hmem u hu
    rw [(hsame t₀ t ht).1, (hsame u₀ u hu).1] at htu
    rw [ht, hu, h.timed.unique t₀ ht₀ u₀ hu₀ htu]
  · refine (h.timed.handles m handle hm).imp_right fun hk t ht => ?_
    obtain ⟨u, hu, he⟩ := hmem t ht
    rw [(hsame u t he).1, (hsame u t he).2]
    exact hk u hu
  · refine (h.attempts j hj).imp_right fun ⟨t, ht, he⟩ => ⟨_, List.mem_map_of_mem ht, ?_⟩
    split_ifs
    · exact he
    · exact he

theorem modify (h : Grows i s s') {f : JobScheduler → JobScheduler}
    (hf : ∀ n ∈ (f (s'.schedulers i)).handles, s'.Clearable n) : Grows i s (s'.modify i f) := by
  refine ⟨⟨h.timed.fresh, h.timed.unique, fun m n hn => ?_⟩, h.attempts, fun j hj => ?_⟩
  · by_cases hm : m = i
    · subst hm
      simp only [Cluster.modify, Function.update_self] at hn
      exact hf n hn
    · simp only [Cluster.modify, Function.update_of_ne hm] at hn
      exact h.timed.handles m n hn
  · simp only [Cluster.modify, Function.update_of_ne hj]
    exact h.others j hj

theorem modify_of_subset (h : Grows i s s') {f : JobScheduler → JobScheduler}
    (hf : (f (s'.schedulers i)).handles ⊆ (s'.schedulers i).handles) :
    Grows i s (s'.modify i f) :=
  h.modify fun n hn => h.timed.handles i n (hf hn)

theorem arm_modify (h : Grows i s s') {kind : TimerKind} (hkind : kind ≠ .backoff) (ms : ℕ)
    {f : JobScheduler → JobScheduler}
    (hf : ∀ n ∈ (f (s'.schedulers i)).handles, n ∈ (s'.schedulers i).handles ∨ n = s'.nextTimer) :
    Grows i s ((s'.arm i kind ms).modify i f) := by
  have harm := h.arm i kind ms
  apply harm.modify
  intro n hn
  rcases hf n hn with hold | rfl
  · exact harm.timed.handles i n hold
  · refine ⟨Nat.lt_succ_self _, fun t ht hid => ?_⟩
    rcases List.mem_append.mp ht with ht | ht
    · exact absurd hid (Nat.ne_of_lt (h.timed.fresh t ht))
    · obtain rfl := List.mem_singleton.mp ht
      exact hkind

theorem setLock (h : Grows i s s') (process : ℕ) (entry : Option LockEntry) :
    Grows i s (s'.setLock process entry) :=
  ⟨⟨h.timed.fresh, h.timed.unique, h.timed.handles⟩, h.attempts, h.others⟩

theorem polls (h : Grows i s s') (l : List ℕ) : Grows i s { s' with polls := l } :=
  ⟨⟨h.timed.fresh, h.timed.unique, h.timed.handles⟩, h.attempts, h.others⟩

theorem send (h : Grows i s s') (r : Request) : Grows i s (s'.send r) := by
  refine ⟨⟨h.timed.fresh, h.timed.unique, h.timed.handles⟩,
    fun j hj => (h.attempts j hj).imp_left fun ⟨k, q, hq, he⟩ => ?_, h.others⟩
  obtain ⟨hlt, -⟩ := List.getElem?_eq_some_iff.mp hq
  refine ⟨k, q, ?_, he⟩
  rw [Cluster.send, List.getElem?_append_left hlt, hq]

/-! ## The methods -/

theorem cronStart (h : Grows i s s') : Grows i s (s'.cronStart d i) := by
  unfold Cluster.cronStart
  split_ifs
  · exact h
  · refine h.arm_modify (by decide) _ fun n hn => ?_
    simp only [JobScheduler.handles, List.mem_append, Option.mem_toList,
      Option.some.injEq] at hn ⊢
    tauto

theorem cronStop (h : Grows i s s') : Grows i s (s'.cronStop i) := by
  have hc : Grows i s (s'.clear (s'.schedulers i).cronInterval) := h.clear fun n hn =>
    h.timed.handles i n (mem_handles_cron hn)
  refine hc.modify_of_subset fun n hn => ?_
  simp only [JobScheduler.handles, List.mem_append, Option.mem_toList, reduceCtorEq,
    or_false] at hn ⊢
  exact .inl hn

theorem schedulePoll (h : Grows i s s') : Grows i s (s'.schedulePoll d i) := by
  unfold Cluster.schedulePoll
  split_ifs
  · refine h.arm_modify (by decide) _ fun n hn => ?_
    simp only [JobScheduler.handles, List.mem_append, Option.mem_toList,
      Option.some.injEq] at hn ⊢
    tauto
  · exact h

theorem startLockRenewal (h : Grows i s s') : Grows i s (s'.startLockRenewal d i) := by
  refine h.arm_modify (by decide) _ fun n hn => ?_
  simp only [JobScheduler.handles, List.mem_append, Option.mem_toList,
    Option.some.injEq] at hn ⊢
  tauto

theorem afterElection (h : Grows i s s') (inStart : Bool) :
    Grows i s (s'.afterElection d i inStart) := by
  unfold Cluster.afterElection
  split_ifs
  · exact h.schedulePoll
  · exact h

theorem lead (h : Grows i s s') (l : Leadership) : Grows i s (s'.lead d i l) :=
  Grows.cronStart (h.modify_of_subset fun _ hn => hn)

theorem stepDown (h : Grows i s s') : Grows i s (s'.stepDown i) := by
  have hc : Grows i s ((s'.modify i fun j => { j with leader := none }).cronStop i) :=
    Grows.cronStop (h.modify_of_subset fun _ hn => hn)
  apply Grows.arm
  exact hc.clear fun n hn => hc.timed.handles i n (mem_handles_renewal hn)

end Grows

/-! ## Steps -/

/-- **The property is kept** when only `i` has changed, and `i` has not become a standby without
an attempt. -/
theorem KeepsTrying.of_grows (h : KeepsTrying s) (hg : Grows i s s')
    (hi : s'.Standby i → s.Standby i ∨ s'.Attempting i) : KeepsTrying s' := by
  intro j hj
  by_cases hji : j = i
  · subst hji
    rcases hi hj with hold | hnew
    · exact hg.attempts j (h j hold)
    · exact hnew
  · rw [Standby, hg.others j hji] at hj
    exact hg.attempts j (h j hj)

theorem attempting_tryBecomeLeader (s : Cluster) (i : ℕ) (inStart : Bool) :
    (s.tryBecomeLeader d i inStart).Attempting i := by
  have hr : (s.tryBecomeLeader d i inStart).requests[s.requests.length]? = some
      { scheduler := i, command := .setNx ⟨i, s.requests.length⟩ (d.lockTtlMs i)
        inStart := inStart } := by
    simp [Cluster.tryBecomeLeader, Cluster.send]
  exact .inl ⟨_, _, hr, rfl, rfl, _, _, rfl⟩

theorem attempting_stepDown (s : Cluster) (i : ℕ) : (s.stepDown i).Attempting i :=
  .inr ⟨_, List.mem_append_right _ (List.mem_singleton.mpr rfl), rfl, rfl⟩

theorem not_standby_lead (s : Cluster) (i : ℕ) (l : Leadership) : ¬ (s.lead d i l).Standby i := by
  intro h
  have hl := h.2
  unfold lead cronStart JobScheduler.isLeader at hl
  split_ifs at hl <;> simp [modify, arm] at hl

theorem schedulers_schedulePoll (s : Cluster) (i : ℕ) :
    ((s.schedulePoll d i).schedulers i).isRunning = (s.schedulers i).isRunning ∧
      ((s.schedulePoll d i).schedulers i).leader = (s.schedulers i).leader := by
  unfold schedulePoll
  split_ifs <;> simp [modify, arm]

theorem standby_schedulePoll (s : Cluster) (i : ℕ) :
    (s.schedulePoll d i).Standby i ↔ s.Standby i := by
  obtain ⟨hr, hl⟩ := schedulers_schedulePoll (d := d) s i
  rw [Standby, Standby, JobScheduler.isLeader, hr, hl]
  rfl

theorem standby_afterElection (s : Cluster) (i : ℕ) (inStart : Bool) :
    (s.afterElection d i inStart).Standby i ↔ s.Standby i := by
  unfold afterElection
  split_ifs
  · exact standby_schedulePoll s i
  · rfl

theorem attempting_of_afterElection {inStart : Bool}
    (h : (s.afterElection d i inStart).Attempting j) : s.Attempting j := by
  unfold afterElection schedulePoll at h
  split_ifs at h
  · rcases h with hr | ⟨t, ht, he⟩
    · exact .inl hr
    · rcases List.mem_append.mp ht with ht | ht
      · exact .inr ⟨t, ht, he⟩
      · rw [List.mem_singleton.mp ht] at he
        cases he.2
  · exact h
  · exact h

/-- **A settled request** is an attempt no more, and every other attempt is still one. -/
theorem attempting_settle_iff {k : ℕ} {r : Request} (hr : s.requests[k]? = some r) :
    (s.settle k r).Attempting i ↔ ¬ s.NoOtherAttempt k i := by
  obtain ⟨hlt, -⟩ := List.getElem?_eq_some_iff.mp hr
  constructor
  · rintro (⟨j, q, hq, he⟩ | ⟨t, ht, he⟩) ⟨hno, hnt⟩
    · by_cases hj : j = k
      · subst hj
        rw [settle, List.getElem?_set_self hlt] at hq
        obtain rfl := Option.some.inj hq
        cases he.1
      · rw [settle, List.getElem?_set_ne (Ne.symm hj)] at hq
        exact hno j (List.getElem?_eq_some_iff.mp hq).1 hj q hq he
    · exact hnt t ht he
  · intro h
    by_contra hno
    refine h ⟨fun j hjlt hj q hq he => hno (.inl ⟨j, q, ?_, he⟩), fun t ht he =>
      hno (.inr ⟨t, ht, he⟩)⟩
    rw [settle, List.getElem?_set_ne (Ne.symm hj)]
    exact hq

theorem Grows.setRequest (ht : Timed s) {k : ℕ} {r r' : Request} (hr : s.requests[k]? = some r)
    (hk : ∀ j, r.Elects j → r'.Elects j) :
    Grows i s { s with requests := s.requests.set k r' } := by
  refine ⟨⟨ht.fresh, ht.unique, ht.handles⟩, fun j hj => hj.imp_left ?_, fun _ _ => rfl⟩
  rintro ⟨m, q, hq, he⟩
  obtain ⟨hlt, -⟩ := List.getElem?_eq_some_iff.mp hr
  by_cases hm : k = m
  · subst hm
    obtain rfl := Option.some.inj (hr.symm.trans hq)
    exact ⟨k, r', List.getElem?_set_self hlt, hk j he⟩
  · exact ⟨m, q, (List.getElem?_set_ne hm).trans hq, he⟩

theorem Timed.settle (h : Timed s) (k : ℕ) (r : Request) : Timed (s.settle k r) :=
  ⟨h.fresh, h.unique, h.handles⟩

theorem not_elects_extend {r : Request} {token : Token} {ttlMs : ℕ}
    (hc : r.command = .extend token ttlMs) (j : ℕ) : ¬ r.Elects j := by
  rintro ⟨-, -, _, _, he⟩
  rw [hc] at he
  cases he

theorem attempting_settle {k : ℕ} {r : Request} (hr : s.requests[k]? = some r)
    (h : s.Attempting j) (hn : ¬ r.Elects j) : (s.settle k r).Attempting j := by
  rw [attempting_settle_iff hr]
  rintro ⟨hno, hnt⟩
  rcases h with ⟨m, q, hq, he⟩ | ⟨t, ht, he⟩
  · have hm : m ≠ k := by
      rintro rfl
      obtain rfl := Option.some.inj (hr.symm.trans hq)
      exact hn he
    exact hno m (List.getElem?_eq_some_iff.mp hq).1 hm q hq he
  · exact hnt t ht he

theorem grows_fire (ht : Timed s) (h : KeepsTrying s) {t : Timer} (hmem : t ∈ s.timers) :
    Timed (s.fire d t) ∧ KeepsTrying (s.fire d t) := by
  have hr : Grows t.scheduler s s := .refl ht
  have hclear : t.kind ≠ .backoff → s.Clearable t.id := fun hk =>
    ⟨ht.fresh t hmem, fun u hu hid => ht.unique u hu t hmem hid ▸ hk⟩
  unfold fire
  cases hk : t.kind with
  | poll =>
      have hc : Grows t.scheduler s (s.clear (some t.id)) := hr.clear fun n hn => by
        obtain rfl := Option.some.inj hn
        exact hclear (by rw [hk]; decide)
      dsimp only
      unfold pollCallback
      split_ifs
      · exact ⟨(hc.polls _).timed, h.of_grows (hc.polls _) .inl⟩
      · have hp : Grows t.scheduler s ((s.clear (some t.id)).schedulePoll d t.scheduler) :=
          hc.schedulePoll
        exact ⟨hp.timed, h.of_grows hp fun hs => .inl
          ((standby_schedulePoll (s.clear (some t.id)) t.scheduler).mp hs)⟩
  | renewal =>
      have hre : Grows t.scheduler s (s.rearm t.id (d.lockTtlMs t.scheduler * 6 / 10)) :=
        hr.rearm _ _
      dsimp only
      unfold renew
      split
      · have hd := hre.stepDown
        exact ⟨hd.timed, h.of_grows hd fun _ => .inr (attempting_stepDown _ _)⟩
      · exact ⟨(hre.send _).timed, h.of_grows (hre.send _) .inl⟩
  | cron => exact ⟨(hr.rearm _ _).timed, h.of_grows (hr.rearm _ _) .inl⟩
  | backoff =>
      -- the sleep is over, and the election it was for is sent
      dsimp only
      have hc : Timed (s.clear (some t.id)) :=
        { fresh := fun u hu => ht.fresh u (List.mem_filter.mp hu).1
          unique := fun u hu v hv =>
            ht.unique u (List.mem_filter.mp hu).1 v (List.mem_filter.mp hv).1
          handles := fun m n hn => (ht.handles m n hn).imp_right
            fun hk u hu => hk u (List.mem_filter.mp hu).1 }
      have hs : Grows t.scheduler (s.clear (some t.id))
          ((s.clear (some t.id)).tryBecomeLeader d t.scheduler false) := (Grows.refl hc).send _
      refine ⟨hs.timed, fun j hj => ?_⟩
      by_cases hjt : j = t.scheduler
      · rw [hjt]
        exact attempting_tryBecomeLeader _ _ _
      · apply hs.attempts
        rcases h j hj with hreq | ⟨u, hu, he⟩
        · exact .inl hreq
        · refine .inr ⟨u, List.mem_filter.mpr ⟨hu, ?_⟩, he⟩
          rw [decide_eq_true_eq]
          intro hid
          exact hjt (ht.unique u hu t hmem (Option.some.inj hid) ▸ he.1.symm)

/-- **A reply** to an election that was not won: the property is kept unless the standby has been
turned away. -/
theorem keepsTrying_notAcquired (ht : Timed s) (h : KeepsTrying s) {k : ℕ} {r : Request}
    (hr : s.requests[k]? = some r) (hset : r.settled = false) {token : Token} {ttlMs : ℕ}
    (hc : r.command = .setNx token ttlMs) (ha : r.answer = some false) :
    KeepsTrying ((s.settle k r).afterElection d r.scheduler r.inStart) ↔
      ¬ s.TurnedAway (.reply k) := by
  have hs : Timed (s.settle k r) := ht.settle k r
  have hg : Grows r.scheduler (s.settle k r)
      ((s.settle k r).afterElection d r.scheduler r.inStart) := (Grows.refl hs).afterElection _
  have hel : r.Elects r.scheduler := ⟨hset, rfl, token, ttlMs, hc⟩
  constructor
  · rintro hkeep ⟨r', hr', -, -, hstand, hno⟩
    obtain rfl := Option.some.inj (hr.symm.trans hr')
    have hatt := hkeep r.scheduler ((standby_afterElection _ _ _).mpr hstand)
    exact (attempting_settle_iff hr).mp (attempting_of_afterElection hatt) hno
  · intro hturn j hj
    by_cases hji : j = r.scheduler
    · subst hji
      apply hg.attempts
      rw [attempting_settle_iff hr]
      intro hno
      exact hturn ⟨r, hr, ha, hel, (standby_afterElection (s.settle k r) _ _).mp hj, hno⟩
    · apply hg.attempts
      rw [Standby, hg.others j hji] at hj
      exact attempting_settle hr (h j hj) fun he => hji he.2.1.symm

/-- **A settled request of `i`**: the property is kept when `i` is no standby afterwards, or has an
attempt. -/
theorem keepsTrying_settled (h : KeepsTrying s) {k : ℕ} {r : Request}
    (hr : s.requests[k]? = some r) (hg : Grows r.scheduler (s.settle k r) s')
    (hi : s'.Standby r.scheduler → s'.Attempting r.scheduler) : KeepsTrying s' := by
  intro j hj
  by_cases hji : j = r.scheduler
  · subst hji
    exact hi hj
  · apply hg.attempts
    rw [Standby, hg.others j hji] at hj
    exact attempting_settle hr (h j hj) fun he => hji he.2.1.symm

theorem not_standby_acquired (s : Cluster) (i : ℕ) (token : Token) (ttlMs : ℕ) (inStart : Bool) :
    ¬ (s.afterAcquire d i token ttlMs inStart true).Standby i := by
  unfold afterAcquire
  rw [if_pos rfl, standby_afterElection]
  intro h
  apply not_standby_lead (d := d) (s.setLock (d.process i) (some ⟨token, s.redis.now + ttlMs⟩)) i
    (.lock token)
  simpa [Standby, JobScheduler.isLeader, startLockRenewal, modify, arm] using h

theorem not_standby_standalone (s : Cluster) (i : ℕ) (inStart : Bool) :
    ¬ (s.standalone d i inStart).Standby i := by
  rw [standalone, standby_afterElection]
  exact not_standby_lead s i .standalone

/-- **A reply** keeps the property exactly when it turns no standby away. -/
theorem keepsTrying_replied (ht : Timed s) (h : KeepsTrying s) {k : ℕ} {r : Request} {answer : Bool}
    (hr : s.requests[k]? = some r) (hset : r.settled = false) (ha : r.answer = some answer) :
    Timed ((s.settle k r).replied d r answer) ∧
      (KeepsTrying ((s.settle k r).replied d r answer) ↔ ¬ s.TurnedAway (.reply k)) := by
  have hr₀ := Grows.refl (i := r.scheduler) (ht.settle k r)
  unfold replied
  cases hc : r.command with
  | setNx token ttlMs =>
      cases answer with
      | true =>
          have hg : Grows r.scheduler (s.settle k r)
              ((s.settle k r).afterAcquire d r.scheduler token ttlMs r.inStart true) :=
            (((hr₀.setLock _ _).lead _).startLockRenewal).afterElection _
          have hkeep := keepsTrying_settled h hr hg fun hst =>
            absurd hst (not_standby_acquired _ _ _ _ _)
          refine ⟨hg.timed, iff_of_true hkeep ?_⟩
          rintro ⟨r', hr', hf, -⟩
          obtain rfl := Option.some.inj (hr.symm.trans hr')
          rw [ha] at hf
          cases hf
      | false => exact ⟨(hr₀.afterElection _).timed, keepsTrying_notAcquired ht h hr hset hc ha⟩
  | extend token ttlMs =>
      have hn : ¬ s.TurnedAway (.reply k) := by
        rintro ⟨r', hr', -, he, -⟩
        obtain rfl := Option.some.inj (hr.symm.trans hr')
        exact not_elects_extend hc _ he
      dsimp only
      unfold afterRenew
      split_ifs
      · have hg := hr₀.setLock (d.process r.scheduler)
          (((s.settle k r).locks (d.process r.scheduler)).map fun entry =>
            if entry.token = token then
              { entry with expiresAt := (s.settle k r).redis.now + ttlMs } else entry)
        have hkeep := keepsTrying_settled h hr hg fun hst =>
          attempting_settle hr (h _ hst) (not_elects_extend hc _)
        exact ⟨hg.timed, iff_of_true hkeep hn⟩
      · have hg := (hr₀.setLock (d.process r.scheduler) none).stepDown
        have hkeep := keepsTrying_settled h hr hg fun _ => attempting_stepDown _ _
        exact ⟨hg.timed, iff_of_true hkeep hn⟩

theorem keepsTrying_rejected (ht : Timed s) (h : KeepsTrying s) {k : ℕ} {r : Request}
    (hr : s.requests[k]? = some r) :
    Timed ((s.settle k r).rejected d r) ∧ KeepsTrying ((s.settle k r).rejected d r) := by
  have hr₀ := Grows.refl (i := r.scheduler) (ht.settle k r)
  unfold rejected
  cases hc : r.command with
  | setNx token ttlMs =>
      have hg := (hr₀.lead (d := d) .standalone).afterElection (d := d) r.inStart
      exact ⟨hg.timed, keepsTrying_settled h hr hg fun hst =>
        absurd hst (not_standby_standalone _ _ _)⟩
  | extend token ttlMs =>
      exact ⟨hr₀.timed, keepsTrying_settled h hr hr₀ fun hst =>
        attempting_settle hr (h _ hst) (not_elects_extend hc _)⟩

/-- **A step** keeps the property exactly when it turns no standby away. -/
theorem keepsTrying_step (ht : Timed s) (h : KeepsTrying s) {e : Event}
    (hs : s.step d e = some s') : Timed s' ∧ (KeepsTrying s' ↔ ¬ s.TurnedAway e) := by
  have hkeep : ∀ {s'}, ¬ s.TurnedAway e → Timed s' ∧ KeepsTrying s' →
      Timed s' ∧ (KeepsTrying s' ↔ ¬ s.TurnedAway e) :=
    fun hn hp => ⟨hp.1, iff_of_true hp.2 hn⟩
  cases e with
  | advance ms =>
      obtain rfl := Option.some.inj hs
      exact hkeep id ⟨⟨ht.fresh, ht.unique, ht.handles⟩, h⟩
  | start i =>
      obtain rfl := Option.some.inj hs
      apply hkeep id
      unfold start
      split_ifs
      · exact ⟨ht, h⟩
      · have hg := ((Grows.refl (i := i) ht).modify_of_subset (f := fun j =>
          { j with isRunning := true }) fun _ hn => hn).send
          { scheduler := i, command := .setNx ⟨i, s.requests.length⟩ (d.lockTtlMs i)
            inStart := true }
        exact ⟨hg.timed, h.of_grows hg fun _ => .inr (attempting_tryBecomeLeader _ _ _)⟩
  | stop i =>
      obtain rfl := Option.some.inj hs
      apply hkeep id
      have h₁ : Grows i s (s.modify i fun j => { j with isRunning := false }) :=
        (Grows.refl ht).modify_of_subset fun _ hn => hn
      have h₂ : Grows i s (clear _ (s.schedulers i).pollTimeout) := h₁.clear fun n hn =>
        ht.handles i n (mem_handles_poll hn)
      have h₃ : Grows i s (clear _ (s.schedulers i).lockRenewalInterval) := h₂.clear fun n hn =>
        h₂.timed.handles i n (mem_handles_renewal (by simpa [clear, modify] using hn))
      exact ⟨h₃.cronStop.timed, h.of_grows h₃.cronStop fun hst => by
        simp [Standby, stop, cronStop, clear, modify] at hst⟩
  | fire timer =>
      obtain ⟨t, hfind, rfl⟩ := Option.map_eq_some_iff.mp hs
      exact hkeep id (grows_fire ht h (List.mem_of_find?_eq_some hfind))
  | execute k =>
      obtain ⟨r, p, hr, -, rfl⟩ := execute_eq_some hs
      have hg : Grows r.scheduler s
          { s with requests := s.requests.set k { r with answer := some p.2 } } :=
        Grows.setRequest ht hr fun _ he => he
      exact hkeep id ⟨⟨ht.fresh, ht.unique, ht.handles⟩, fun j hj => hg.attempts j (h j hj)⟩
  | reply k =>
      obtain ⟨r, answer, hr, hset, ha, rfl⟩ := reply_eq_some hs
      exact keepsTrying_replied ht h hr hset ha
  | reject k =>
      obtain ⟨r, hr, -, rfl⟩ := reject_eq_some hs
      exact hkeep id (keepsTrying_rejected ht h hr)
  | pollDone run =>
      obtain ⟨i, -, rfl⟩ := Option.map_eq_some_iff.mp hs
      have hg := ((Grows.refl (i := i) ht).polls (s.polls.eraseIdx run)).schedulePoll (d := d)
      exact hkeep id ⟨hg.timed, h.of_grows hg fun hst => .inl
        ((standby_schedulePoll { s with polls := s.polls.eraseIdx run } i).mp hst)⟩

/-- **A standby keeps trying**, all along a run, exactly when no step of it turns a standby
away. -/
theorem standby_keeps_trying {es : List Event} (h : Run (step d) anyStep init es s) :
    Always (step d) init KeepsTrying es ↔
      Run (step d) (stateGuard fun s e => ¬ s.TurnedAway e) init es s := by
  apply h.always_iff (I := Timed) timed_init
  · rintro i ⟨hr, -⟩
    cases hr
  · intro es s e s' ht hk _ hs
    exact keepsTrying_step ht hk hs

/-- The first of two schedulers leads, and its renewal succeeds. -/
def renewed : List Event :=
  [.start 0, .execute 0, .reply 0, .start 1, .advance 18000, .fire 1, .execute 2, .reply 2]

theorem renewed_keeps_trying : ∃ s, runEvents (step nodes) init renewed = some s ∧
    Always (step nodes) init KeepsTrying renewed ∧ s.Standby 1 := by
  obtain ⟨s, hs, hp⟩ := exists_run_of_check (step nodes)
    (stateGuard fun s e => ¬ s.TurnedAway e) init renewed (fun s => s.Standby 1) (by decide)
  have hany : Run (step nodes) anyStep init renewed s := hs.mono fun _ _ _ _ => trivial
  exact ⟨s, hs.runEvents_eq, (standby_keeps_trying hany).mpr hs, of_decide_eq_true hp⟩

/-- The first of two schedulers wins the election, and the second one does not. -/
def turnedAway : List Event := [.start 0, .execute 0, .reply 0, .start 1, .execute 1, .reply 1]

/-- **The second scheduler gives up** at its first reply. -/
theorem standby_gives_up :
    ∃ s, Run (step nodes) anyStep init turnedAway s ∧ ¬ KeepsTrying s := by
  obtain ⟨s, hs, hp⟩ := exists_run_of_check (step nodes) anyStep init turnedAway
    (fun s => s.Standby 1 ∧ (∀ r ∈ s.requests, r.settled = true) ∧
      ∀ t ∈ s.timers, t.kind ≠ .backoff) (by decide)
  obtain ⟨hstand, hreq, htimer⟩ := of_decide_eq_true hp
  refine ⟨s, hs, fun hk => ?_⟩
  rcases hk 1 hstand with ⟨k, r, hr, he⟩ | ⟨t, ht, he⟩
  · have hset := hreq r (List.mem_of_getElem? hr)
    rw [he.1] at hset
    cases hset
  · exact htimer t ht he.2

end Cluster

end TaskOrchestration

import TaskOrchestration.Leader.Model

set_option autoImplicit false

/-!
# At most one leader

Redis gives the key to one token at a time, but `isLeader` is a flag of the instance: it is set
after a failed election too, and it is not compared with the time the lease of the lock ends.

* `Safe`: the lease of a leader's lock is its own; `Safe.lead`, `Safe.send`, ..: what keeps it;
* **`leaders_without_lease`**: of two leaders one runs standalone, or its lease has run out;
* `two_leaders`: both happen.
-/

namespace TaskOrchestration.Cluster

open Lease LabelledRun

/-- **The invariant.** The lock that has made an instance the leader, or is about to, was granted
to a token of that instance, and so has a lease. -/
structure Safe (s : Cluster) : Prop where
  coherent : s.redis.Coherent
  requests : ∀ r ∈ s.requests, ∀ token ttlMs, r.command = .setNx token ttlMs →
    token.caller = r.scheduler ∧ (r.answer = some true → s.redis.leases token ≠ none)
  leaders : ∀ i token, (s.schedulers i).leader = some (.lock token) →
    token.caller = i ∧ s.redis.leases token ≠ none

variable {d : Deployment} {s s' : Cluster} {i : ℕ}

theorem safe_init : Safe init := ⟨Server.coherent_init, nofun, nofun⟩

namespace Safe

/-! ## Timers and calls -/

theorem arm (h : Safe s) (kind : TimerKind) (ms : ℕ) : Safe (s.arm i kind ms) :=
  ⟨h.coherent, h.requests, h.leaders⟩

theorem clear (h : Safe s) (handle : Option ℕ) : Safe (s.clear handle) :=
  ⟨h.coherent, h.requests, h.leaders⟩

theorem rearm (h : Safe s) (timer ms : ℕ) : Safe (s.rearm timer ms) :=
  ⟨h.coherent, h.requests, h.leaders⟩

theorem setLock (h : Safe s) (process : ℕ) (entry : Option LockEntry) :
    Safe (s.setLock process entry) :=
  ⟨h.coherent, h.requests, h.leaders⟩

theorem modify (h : Safe s) {f : JobScheduler → JobScheduler}
    (hf : ∀ token, (f (s.schedulers i)).leader = some (.lock token) →
      token.caller = i ∧ s.redis.leases token ≠ none) : Safe (s.modify i f) := by
  refine ⟨h.coherent, h.requests, fun k token hk => ?_⟩
  by_cases hki : k = i
  · subst hki
    simp only [Cluster.modify, Function.update_self] at hk
    exact hf token hk
  · simp only [Cluster.modify, Function.update_of_ne hki] at hk
    exact h.leaders k token hk

theorem modify_other (h : Safe s) {f : JobScheduler → JobScheduler}
    (hf : (f (s.schedulers i)).leader = (s.schedulers i).leader) : Safe (s.modify i f) := by
  apply h.modify
  intro token hk
  rw [hf] at hk
  exact h.leaders i token hk

theorem send (h : Safe s) {r : Request} (ha : r.answer = none)
    (hr : ∀ token ttlMs, r.command = .setNx token ttlMs → token.caller = r.scheduler) :
    Safe (s.send r) := by
  refine ⟨h.coherent, fun r' hr' token ttlMs hc => ?_, h.leaders⟩
  rcases List.mem_append.mp hr' with hr' | hr'
  · exact h.requests r' hr' token ttlMs hc
  · obtain rfl := List.mem_singleton.mp hr'
    refine ⟨hr token ttlMs hc, fun h => ?_⟩
    rw [ha] at h
    cases h

/-! ## The methods -/

theorem cronStart (h : Safe s) : Safe (s.cronStart d i) := by
  unfold Cluster.cronStart
  split_ifs
  · exact h
  · exact (h.arm _ _).modify_other rfl

theorem cronStop (h : Safe s) : Safe (s.cronStop i) := (h.clear _).modify_other rfl

theorem schedulePoll (h : Safe s) : Safe (s.schedulePoll d i) := by
  unfold Cluster.schedulePoll
  split_ifs
  · exact (h.arm _ _).modify_other rfl
  · exact h

theorem tryBecomeLeader (h : Safe s) (inStart : Bool) :
    Safe (s.tryBecomeLeader d i inStart) := by
  apply h.send rfl
  intro token ttlMs hc
  simp only [Command.setNx.injEq] at hc
  rw [← hc.1]

theorem startLockRenewal (h : Safe s) : Safe (s.startLockRenewal d i) :=
  (h.arm _ _).modify_other rfl

theorem afterElection (h : Safe s) (inStart : Bool) : Safe (s.afterElection d i inStart) := by
  unfold Cluster.afterElection
  split_ifs
  · exact h.schedulePoll
  · exact h

/-- **Leadership** is taken with a lock granted to the instance, or standalone. -/
theorem lead (h : Safe s) {l : Leadership}
    (hl : ∀ token, l = .lock token → token.caller = i ∧ s.redis.leases token ≠ none) :
    Safe (s.lead d i l) := by
  apply Safe.cronStart
  apply h.modify
  intro token hk
  exact hl token (Option.some.inj hk)

theorem afterAcquire (h : Safe s) {token : Token} {acquired : Bool} (ttlMs : ℕ) (inStart : Bool)
    (ha : acquired = true → token.caller = i ∧ s.redis.leases token ≠ none) :
    Safe (s.afterAcquire d i token ttlMs inStart acquired) := by
  unfold Cluster.afterAcquire
  split_ifs with hq
  · apply Safe.afterElection
    apply Safe.startLockRenewal
    apply (h.setLock _ _).lead
    intro token' ht
    rw [← Leadership.lock.inj ht]
    exact ha hq
  · exact h.afterElection inStart

theorem standalone (h : Safe s) (inStart : Bool) : Safe (s.standalone d i inStart) :=
  (h.lead (l := .standalone) nofun).afterElection inStart

theorem stepDown (h : Safe s) : Safe (s.stepDown i) := by
  apply Safe.arm
  apply Safe.clear
  apply Safe.cronStop
  exact h.modify nofun

theorem renew (h : Safe s) : Safe (s.renew d i) := by
  unfold Cluster.renew
  split
  · exact h.stepDown
  · exact h.send rfl nofun

theorem afterRenew (h : Safe s) (token : Token) (ttlMs : ℕ) (renewed : Bool) :
    Safe (s.afterRenew d i token ttlMs renewed) := by
  unfold Cluster.afterRenew
  split_ifs
  · exact h.setLock _ _
  · exact (h.setLock _ _).stepDown

theorem start (h : Safe s) : Safe (s.start d i) := by
  unfold Cluster.start
  split_ifs
  · exact h
  · exact (h.modify_other rfl).tryBecomeLeader true

theorem stop (h : Safe s) : Safe (s.stop i) := by
  apply Safe.cronStop
  exact ((h.modify_other rfl).clear _).clear _

theorem fire (h : Safe s) (t : Timer) : Safe (s.fire d t) := by
  unfold Cluster.fire
  cases t.kind with
  | poll =>
      have hc := h.clear (some t.id)
      simp only [Cluster.pollCallback]
      split_ifs
      · exact ⟨hc.coherent, hc.requests, hc.leaders⟩
      · exact hc.schedulePoll
  | renewal => exact (h.rearm _ _).renew
  | cron => exact h.rearm _ _
  | backoff => exact (h.clear _).tryBecomeLeader false

/-! ## Steps -/

theorem setRequest (h : Safe s) (k : ℕ) {r : Request} (r' : Request) (hr : r ∈ s.requests)
    (hc : r'.command = r.command) (hs : r'.scheduler = r.scheduler)
    (ha : ∀ token ttlMs, r.command = .setNx token ttlMs → r'.answer = some true →
      s.redis.leases token ≠ none) :
    Safe { s with requests := s.requests.set k r' } := by
  refine ⟨h.coherent, fun q hq token ttlMs hq' => ?_, h.leaders⟩
  rcases List.mem_or_eq_of_mem_set hq with hq | rfl
  · exact h.requests q hq token ttlMs hq'
  · rw [hc] at hq'
    rw [hs]
    exact ⟨(h.requests r hr token ttlMs hq').1, ha token ttlMs hq'⟩

theorem settle (h : Safe s) {k : ℕ} {r : Request} (hr : r ∈ s.requests) :
    Safe (s.settle k r) :=
  h.setRequest k _ hr rfl rfl fun token ttlMs hc => (h.requests r hr token ttlMs hc).2

theorem exec (h : Safe s) {c : Command Token} {p : Server Token × Bool}
    (hx : s.redis.exec? c = some p) : Safe { s with redis := p.1 } where
  coherent := h.coherent.exec hx
  requests r hr token ttlMs hc :=
    (h.requests r hr token ttlMs hc).imp_right fun hl ha => Server.leases_exec hx (hl ha)
  leaders i token hi := (h.leaders i token hi).imp_right (Server.leases_exec hx)

theorem step (h : Safe s) {e : Event} (hs : s.step d e = some s') : Safe s' := by
  cases e with
  | advance ms =>
      obtain rfl := Option.some.inj hs
      exact ⟨h.coherent.advance ms, h.requests, h.leaders⟩
  | start i =>
      obtain rfl := Option.some.inj hs
      exact h.start
  | stop i =>
      obtain rfl := Option.some.inj hs
      exact h.stop
  | fire timer =>
      obtain ⟨t, -, rfl⟩ := Option.map_eq_some_iff.mp hs
      exact h.fire t
  | execute k =>
      obtain ⟨r, p, hr, hx, rfl⟩ := execute_eq_some hs
      apply (h.exec hx).setRequest k { r with answer := some p.2 } (List.mem_of_getElem? hr) rfl rfl
      intro token ttlMs hc ha
      obtain ⟨srv, answer⟩ := p
      obtain rfl : answer = true := Option.some.inj ha
      rw [hc] at hx
      exact Server.leases_of_setNx hx
  | reply k =>
      obtain ⟨r, answer, hr, -, ha, rfl⟩ := reply_eq_some hs
      have hr := List.mem_of_getElem? hr
      have hk := h.settle (k := k) hr
      unfold Cluster.replied
      split
      · rename_i token ttlMs hc
        apply hk.afterAcquire
        intro hq
        rw [hq] at ha
        exact (h.requests r hr token ttlMs hc).imp_right fun hl => hl ha
      · exact hk.afterRenew _ _ _
  | reject k =>
      obtain ⟨r, hr, -, rfl⟩ := reject_eq_some hs
      have hk := h.settle (k := k) (List.mem_of_getElem? hr)
      unfold Cluster.rejected
      split
      · exact hk.standalone _
      · exact hk
  | pollDone run =>
      obtain ⟨i, -, rfl⟩ := Option.map_eq_some_iff.mp hs
      apply Safe.schedulePoll
      exact ⟨h.coherent, h.requests, h.leaders⟩

end Safe

theorem safe_of_run {ok : List Event → Cluster → Event → Prop} {es : List Event}
    (h : Run (step d) ok init es s) : Safe s :=
  h.stable safe_init fun _ _ _ _ hi _ hs => hi.step hs

/-! ## Two leaders -/

def AtMostOneLeader (s : Cluster) : Prop :=
  ∀ i j, (s.schedulers i).isLeader = true → (s.schedulers j).isLeader = true → i = j

/-- An instance is the leader without a lease: it runs standalone after a failed election, or the
lease of the lock that has made it the leader has run out. -/
def LeadsWithoutLease (s : Cluster) (i : ℕ) : Prop :=
  (s.schedulers i).leader = some .standalone ∨
    ∃ token, (s.schedulers i).leader = some (.lock token) ∧ s.redis.RunOut token

/-- **At most one leader has a lease**: of two leaders, one leads without. -/
theorem leaders_without_lease {es : List Event} {i j : ℕ} (h : Run (step d) anyStep init es s)
    (hij : i ≠ j) (hi : (s.schedulers i).isLeader = true)
    (hj : (s.schedulers j).isLeader = true) : LeadsWithoutLease s i ∨ LeadsWithoutLease s j := by
  have hs : Safe s := safe_of_run h
  obtain ⟨l, hl⟩ := Option.isSome_iff_exists.mp hi
  obtain ⟨m, hm⟩ := Option.isSome_iff_exists.mp hj
  cases l with
  | standalone => exact .inl (.inl hl)
  | lock a =>
      cases m with
      | standalone => exact .inr (.inl hm)
      | lock b =>
          have ha := hs.leaders i a hl
          have hb := hs.leaders j b hm
          have hab : a ≠ b := by
            rintro rfl
            exact hij (ha.1.symm.trans hb.1)
          rcases hs.coherent.unique hab ha.2 hb.2 with hr | hr
          · exact .inl (.inr ⟨a, hl, hr⟩)
          · exact .inr (.inr ⟨b, hm, hr⟩)

/-- One instance a process, with the default time to live of the lock. -/
def nodes : Deployment := ⟨fun _ => 60000, fun _ => 30000, id⟩

/-- The elections of both instances are rejected. -/
def electionsRejected : List Event := [.start 0, .reject 0, .start 1, .reject 1]

/-- The first leader's renewal is rejected, and its lock expires before the next one is due. -/
def renewalRejected : List Event :=
  [.start 0, .execute 0, .reply 0, .advance 18000, .fire 1, .reject 1, .advance 12000,
    .start 1, .execute 2, .reply 2]

theorem renewalRejected_without_lease :
    ∃ s, Run (step nodes) anyStep init renewalRejected s ∧
      (LeadsWithoutLease s 0 ∨ LeadsWithoutLease s 1) := by
  obtain ⟨s, hs, hp⟩ := exists_run_of_check (step nodes) anyStep init renewalRejected
    (fun s => (s.schedulers 0).isLeader ∧ (s.schedulers 1).isLeader) (by decide)
  have hl := of_decide_eq_true hp
  exact ⟨s, hs, leaders_without_lease hs (by decide) hl.1 hl.2⟩

/-- **Two leaders**, both standalone, and both by the lock. -/
theorem two_leaders :
    (∃ s, Run (step nodes) anyStep init electionsRejected s ∧ ¬ AtMostOneLeader s) ∧
      ∃ s, Run (step nodes) anyStep init renewalRejected s ∧ ¬ AtMostOneLeader s := by
  have htwo : ∀ s : Cluster, (s.schedulers 0).isLeader = true ∧ (s.schedulers 1).isLeader = true →
      ¬ AtMostOneLeader s := fun s hl h => absurd (h 0 1 hl.1 hl.2) (by decide)
  constructor
  · obtain ⟨s, hs, hp⟩ := exists_run_of_check (step nodes) anyStep init electionsRejected
      (fun s => (s.schedulers 0).isLeader ∧ (s.schedulers 1).isLeader) (by decide)
    exact ⟨s, hs, htwo s (of_decide_eq_true hp)⟩
  · obtain ⟨s, hs, hp⟩ := exists_run_of_check (step nodes) anyStep init renewalRejected
      (fun s => (s.schedulers 0).isLeader ∧ (s.schedulers 1).isLeader) (by decide)
    exact ⟨s, hs, htwo s (of_decide_eq_true hp)⟩

end TaskOrchestration.Cluster

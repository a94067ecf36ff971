import TaskOrchestration.Lock.Exclusion

set_option autoImplicit false

/-!
# What a process believes about the lock

An entry expires when its lease would, had Redis granted it as the reply is handled; Redis counts
from the moment at which it executed the command. So an entry outlives its lease by the time that
the reply was under way.

* `Reliable`: from now on, until something else happens, `isHeld` is right;
* `Backed`, `reliable_iff`: no entry outlives its lease;
* `Timely`, `backed_step`: the steps that keep this;
* **`reliable_iff_timely`**: `isHeld` is right all along the runs whose steps are timely, and these
  only.
-/

namespace TaskOrchestration.DistributedLock

open Lease LabelledRun

variable {κ : Type} {skew : ℕ → ℕ} {s s' : DistributedLock κ} {e : Event κ} {process : ℕ}
  {token : Token}

def HasKey (s : DistributedLock κ) (process : ℕ) : Prop :=
  ∃ entry, s.locks process = some entry ∧ s.redis.holder = some entry.token

/-- **`isHeld` is right**, now and for as long as nothing happens: the key holds the token of the
process, and `isHeld` is true in no other process. -/
def Reliable (skew : ℕ → ℕ) (s : DistributedLock κ) : Prop :=
  ∀ ms p, (s.advance ms).isHeld skew p = true →
    (s.advance ms).HasKey p ∧ ∀ q, (s.advance ms).isHeld skew q = true → q = p

/-- The entry has expired, or does so no later than the key, which holds its token. -/
def BackedBy (skew : ℕ → ℕ) (s : DistributedLock κ) (process : ℕ) (entry : LockEntry) : Prop :=
  entry.expiresAt ≤ s.dateNow skew process ∨
    ∃ lease ∈ s.redis.key, lease.1 = entry.token ∧ entry.expiresAt ≤ lease.2 + skew process

/-- **The invariant**: no entry outlives its lease. -/
def Backed (skew : ℕ → ℕ) (s : DistributedLock κ) : Prop :=
  ∀ p entry, s.locks p = some entry → s.BackedBy skew p entry

theorem isHeld_eq_true {p : ℕ} :
    s.isHeld skew p = true ↔
      ∃ entry, s.locks p = some entry ∧ s.dateNow skew p < entry.expiresAt := by
  rw [isHeld, Option.any_eq_true]
  exact exists_congr fun entry => and_congr_right fun _ => decide_eq_true_iff

theorem backed_init : Backed skew (init : DistributedLock κ) := nofun

theorem Backed.holder (h : Backed skew s) {p : ℕ} {entry : LockEntry} (he : s.locks p = some entry)
    (hlt : s.dateNow skew p < entry.expiresAt) : s.redis.holder = some entry.token := by
  rcases h p entry he with hle | ⟨⟨tok, t⟩, hk, rfl, hle⟩
  · exact absurd hlt (Nat.not_lt.mpr hle)
  · refine Server.holder_eq_some.mpr ⟨t, hk, ?_⟩
    unfold dateNow at hlt
    dsimp only at hle
    omega

theorem Backed.advance (h : Backed skew s) (ms : ℕ) : Backed skew (s.advance ms) := by
  intro p entry he
  refine (h p entry he).imp_left fun hle => Nat.le_trans hle ?_
  exact Nat.add_le_add_right (Nat.le_add_right _ _) _

/-- **`isHeld` is right exactly when no entry outlives its lease.** -/
theorem reliable_iff (hs : Sound s) : Reliable skew s ↔ Backed skew s := by
  constructor
  · intro h p entry he
    by_cases hle : entry.expiresAt ≤ s.dateNow skew p
    · exact .inl hle
    · right
      -- the key holds the token now, and at its own deadline the entry must have expired
      obtain ⟨⟨entry', he', hh⟩, -⟩ :=
        h 0 p (isHeld_eq_true.mpr ⟨entry, he, Nat.lt_of_not_le hle⟩)
      obtain rfl := Option.some.inj (he.symm.trans he')
      obtain ⟨t, hk, hlt⟩ := Server.holder_eq_some.mp hh
      refine ⟨_, hk, rfl, Nat.le_of_not_lt fun hgt => ?_⟩
      have hnow : s.redis.now < t := hlt
      have hlater : (s.advance (t - s.redis.now)).isHeld skew p = true := by
        refine isHeld_eq_true.mpr ⟨entry, he, ?_⟩
        change s.redis.now + (t - s.redis.now) + skew p < entry.expiresAt
        omega
      obtain ⟨⟨entry', -, hh'⟩, -⟩ := h _ p hlater
      obtain ⟨u, hk', hlt'⟩ := Server.holder_eq_some.mp hh'
      obtain ⟨-, rfl⟩ := Prod.mk.inj (Option.some.inj (hk.symm.trans hk'))
      change s.redis.now + (t - s.redis.now) < t at hlt'
      omega
  · intro h ms p hp
    obtain ⟨entry, he, hlt⟩ := isHeld_eq_true.mp hp
    have hholder := (h.advance ms).holder he hlt
    refine ⟨⟨entry, he, hholder⟩, fun q hq => ?_⟩
    obtain ⟨entry', he', hlt'⟩ := isHeld_eq_true.mp hq
    have hsame := Option.some.inj (hholder.symm.trans ((h.advance ms).holder he' hlt'))
    rw [← hs.caller (hs.entries q entry' he'), ← hsame, hs.caller (hs.entries p entry he)]

/-! ## Timely steps -/

/-- The key holds the token for the time that has just been written in its entry. -/
def LeaseCovers (s : DistributedLock κ) (token : Token) (ttlMs : ℕ) : Prop :=
  ttlMs = 0 ∨ ∃ lease ∈ s.redis.key, lease.1 = token ∧ s.redis.now + ttlMs ≤ lease.2

instance (ttlMs : ℕ) : Decidable (s.LeaseCovers token ttlMs) := by
  unfold LeaseCovers
  infer_instance

/-- The entry of a token expires within `ms`. -/
def ExpiresWithin (skew : ℕ → ℕ) (s : DistributedLock κ) (process : ℕ) (token : Token) (ms : ℕ) :
    Prop :=
  ∀ entry ∈ s.locks process, entry.token = token → entry.expiresAt ≤ s.dateNow skew process + ms

instance (ms : ℕ) : Decidable (s.ExpiresWithin skew process token ms) := by
  unfold ExpiresWithin
  infer_instance

/-- A command that is executed does not end the lease of its process before the entry expires. -/
def TimelyCommand (skew : ℕ → ℕ) (s : DistributedLock κ) (process : ℕ) : LockCommand → Prop
  | .set _ _ => True
  | .renew token ttlMs => s.redis.holder = some token → s.ExpiresWithin skew process token ttlMs
  | .release token => s.redis.holder = some token → s.ExpiresWithin skew process token 0

/-- Redis has done what the call asks, and the key covers what its method writes now. -/
def TimelyReply (s : DistributedLock κ) (process : ℕ) : LockCommand → Prop
  | .set token ttlMs => s.LeaseCovers token ttlMs
  | .renew token ttlMs =>
      (∃ entry ∈ s.locks process, entry.token = token) → s.LeaseCovers token ttlMs
  | .release _ => True

instance (process : ℕ) (c : LockCommand) : Decidable (s.TimelyCommand skew process c) :=
  match c with
  | .set _ _ => .isTrue trivial
  | .renew token ttlMs => inferInstanceAs
      (Decidable (s.redis.holder = some token → s.ExpiresWithin skew process token ttlMs))
  | .release token => inferInstanceAs
      (Decidable (s.redis.holder = some token → s.ExpiresWithin skew process token 0))

instance (process : ℕ) (c : LockCommand) : Decidable (s.TimelyReply process c) :=
  match c with
  | .set token ttlMs => inferInstanceAs (Decidable (s.LeaseCovers token ttlMs))
  | .renew token ttlMs => inferInstanceAs
      (Decidable ((∃ entry ∈ s.locks process, entry.token = token) → s.LeaseCovers token ttlMs))
  | .release _ => .isTrue trivial

/-- **A timely step.** A reply that writes the expiry of an entry is handled while the key has at
least this time left, a renewal does not end the lease before the entry expires, and a release
deletes the key of an entry that has expired. -/
def Timely (skew : ℕ → ℕ) (s : DistributedLock κ) : Event κ → Prop
  | .execute k => ∀ r ∈ s.calls[k]?, s.TimelyCommand skew r.process r.command
  | .reply k => ∀ p ∈ s.awaited k, p.2 = true → s.TimelyReply p.1.process p.1.command
  | _ => True

instance : DecidablePred (s.Timely skew)
  | .execute k => inferInstanceAs
      (Decidable (∀ r ∈ s.calls[k]?, s.TimelyCommand skew r.process r.command))
  | .reply k => inferInstanceAs
      (Decidable (∀ p ∈ s.awaited k, p.2 = true → s.TimelyReply p.1.process p.1.command))
  | .advance _ | .lose | .tryAcquire .. | .renew .. | .release .. | .reject _ => .isTrue trivial

theorem backedBy_iff {p ttlMs : ℕ} :
    s.BackedBy skew p ⟨token, s.dateNow skew p + ttlMs⟩ ↔ s.LeaseCovers token ttlMs := by
  unfold BackedBy LeaseCovers dateNow
  refine or_congr ?_
    (exists_congr fun lease => and_congr_right fun _ => and_congr_right fun _ => ?_)
  · dsimp only
    omega
  · dsimp only
    omega

theorem backed_setEntry (h : Backed skew s) {p : ℕ} {entry : Option LockEntry} :
    Backed skew (s.setEntry p entry) ↔ ∀ e ∈ entry, s.BackedBy skew p e := by
  constructor
  · intro h' e he
    exact h' p e ((locks_setEntry_self s p entry).trans he)
  · intro h' q e hq
    by_cases hqp : q = p
    · subst hqp
      rw [locks_setEntry_self] at hq
      exact h' e hq
    · rw [locks_setEntry_of_ne s hqp] at hq
      exact h q e hq

/-- **The rest of a method** keeps the entries backed, if the key covers what it writes. -/
theorem backed_replied (h : Backed skew s) {r : LockCall κ} {answer : Bool} :
    Backed skew (s.replied skew r answer) ↔
      (answer = true → s.TimelyReply r.process r.command) := by
  cases hc : r.command with
  | set token ttlMs =>
      simp only [replied, TimelyReply, afterSet, hc]
      split_ifs with ha
      · simp only [imp_iff_right ha, backed_setEntry h, Option.mem_some, forall_eq', backedBy_iff]
      · exact iff_of_true h fun ha' => absurd ha' ha
  | renew token ttlMs =>
      simp only [replied, TimelyReply, afterRenew, hc]
      split_ifs with ha
      · rw [imp_iff_right ha, backed_setEntry h]
        constructor
        · rintro hall ⟨entry, he, rfl⟩
          have := hall _ (Option.mem_map_of_mem _ he)
          rw [if_pos rfl] at this
          exact backedBy_iff.mp this
        · intro hcov e he
          obtain ⟨entry, hentry, rfl⟩ := Option.map_eq_some_iff.mp he
          split_ifs with ht
          · subst ht
            exact backedBy_iff.mpr (hcov ⟨entry, hentry, rfl⟩)
          · exact h r.process entry hentry
      · exact iff_of_true ((backed_setEntry h).mpr nofun) fun ha' => absurd ha' ha
  | release token =>
      simp only [replied, TimelyReply, hc]
      exact iff_of_true ((backed_setEntry h).mpr nofun) fun _ => trivial

theorem backedBy_grant {p ttlMs : ℕ} {entry : LockEntry} {calls : List (LockCall κ)} :
    BackedBy skew ⟨s.redis.grant entry.token ttlMs, s.locks, calls⟩ p entry ↔
      entry.expiresAt ≤ s.dateNow skew p + ttlMs := by
  unfold BackedBy dateNow Server.grant
  dsimp only
  constructor
  · rintro (hle | ⟨lease, hk, -, hle⟩)
    · omega
    · rw [← Option.some.inj hk] at hle
      dsimp only at hle
      omega
  · intro hle
    exact .inr ⟨_, rfl, rfl, by dsimp only; omega⟩

/-- The holder of the key has its lease changed, which then runs for `ms`. Only an entry of its
process with its token can have been backed by the lease. -/
theorem backed_changed (hsound : Sound s) (h : Backed skew s) {p ms : ℕ}
    (ho : s.Obtained p token) (hh : s.redis.holder = some token) (hlocks : s'.locks = s.locks)
    (hnow : s'.redis.now = s.redis.now)
    (hb : ∀ entry, entry.token = token →
      (s'.BackedBy skew p entry ↔ entry.expiresAt ≤ s.dateNow skew p + ms)) :
    Backed skew s' ↔ s.ExpiresWithin skew p token ms := by
  constructor
  · intro h' entry he ht
    refine (hb entry ht).mp (h' p entry ?_)
    rw [hlocks]
    exact he
  · intro hw q entry he
    rw [hlocks] at he
    by_cases hle : entry.expiresAt ≤ s.dateNow skew q
    · refine .inl ?_
      unfold dateNow at hle ⊢
      rwa [hnow]
    · have ht : entry.token = token :=
        Option.some.inj ((h.holder he (Nat.lt_of_not_le hle)).symm.trans hh)
      obtain rfl : q = p := by
        rw [← hsound.caller (hsound.entries q entry he), ht, hsound.caller ho]
      exact (hb entry ht).mpr (hw entry he ht)

/-- **A command that is executed** keeps the entries backed, if none of its process outlives the
lease that it leaves. -/
theorem backed_execute (hsound : Sound s) (h : Backed skew s) {k : ℕ} {r : LockCall κ}
    (hr : s.calls[k]? = some r) (hs : s.execute k = some s') :
    Backed skew s' ↔ s.TimelyCommand skew r.process r.command := by
  obtain ⟨q, srv, answer, hq, hx, rfl⟩ := execute_eq_some hs
  obtain rfl := Option.some.inj (hr.symm.trans hq)
  have hscript := hsound.scripts r (List.mem_of_getElem? hr)
  cases hc : r.command with
  | set token ttlMs =>
      rw [hc] at hx
      refine iff_of_true (fun p entry he => ?_) trivial
      rcases exec_cases hx with ⟨rfl, -⟩ | ⟨tok, ttl, rfl, -, ⟨-, hh⟩ | ⟨hc', -⟩⟩ | ⟨_, hc', -⟩
      · exact h p entry he
      · -- the key was free, so every entry has expired
        refine .inl (Nat.le_of_not_lt fun hlt => ?_)
        rw [h.holder he hlt] at hh
        cases hh
      · cases hc'
      · cases hc'
  | renew token ttlMs =>
      by_cases hh : s.redis.holder = some token
      · rw [TimelyCommand, imp_iff_right hh]
        have hsrv : srv = s.redis.grant token ttlMs := by
          rw [hc, exec, Server.exec?, if_pos hh] at hx
          exact (Prod.mk.inj (Option.some.inj hx)).1.symm
        subst hsrv
        refine backed_changed hsound h (hscript token (.inr ⟨ttlMs, hc⟩)) hh rfl rfl ?_
        rintro entry rfl
        exact backedBy_grant
      · refine iff_of_true ?_ fun hh' => absurd hh' hh
        rw [hc, exec, Server.exec?, if_neg hh] at hx
        obtain ⟨rfl, -⟩ := Prod.mk.inj (Option.some.inj hx)
        exact h
  | release token =>
      by_cases hh : s.redis.holder = some token
      · rw [TimelyCommand, imp_iff_right hh]
        rw [hc, exec, Server.release, if_pos hh] at hx
        obtain ⟨rfl, -⟩ := Prod.mk.inj (Option.some.inj hx)
        refine backed_changed hsound h (hscript token (.inl hc)) hh rfl rfl fun entry _ => ?_
        refine or_iff_left ?_
        rintro ⟨_, hk, -⟩
        cases hk
      · refine iff_of_true ?_ fun hh' => absurd hh' hh
        rw [hc, exec, Server.release, if_neg hh] at hx
        obtain ⟨rfl, -⟩ := Prod.mk.inj (Option.some.inj hx)
        exact h

theorem backed_step (hsound : Sound s) (h : Backed skew s) (hl : e ≠ .lose)
    (hs : s.step skew e = some s') : Backed skew s' ↔ s.Timely skew e := by
  cases e with
  | lose => exact absurd rfl hl
  | advance ms =>
      obtain rfl := Option.some.inj hs
      exact iff_of_true (h.advance ms) trivial
  | tryAcquire p ttlMs caller =>
      obtain rfl := Option.some.inj hs
      exact iff_of_true h trivial
  | renew p ttlMs caller =>
      obtain rfl := Option.some.inj hs
      unfold DistributedLock.renew
      split <;> exact iff_of_true h trivial
  | release p caller =>
      obtain rfl := Option.some.inj hs
      unfold DistributedLock.release
      split <;> exact iff_of_true h trivial
  | execute k =>
      obtain ⟨r, -, -, hr, -⟩ := execute_eq_some hs
      refine (backed_execute hsound h hr hs).trans ⟨fun ht q hq => ?_, fun ht => ht r hr⟩
      obtain rfl := Option.some.inj (hr.symm.trans hq)
      exact ht
  | reply k =>
      obtain ⟨⟨r, answer⟩, hw, rfl⟩ := Option.map_eq_some_iff.mp hs
      refine (backed_replied (s := s.settle k r) h).trans ⟨fun ha q hq => ?_, fun ht => ht _ hw⟩
      obtain rfl := Option.some.inj (hw.symm.trans hq)
      exact ha
  | reject k =>
      obtain ⟨r, hr, hs⟩ := Option.bind_eq_some_iff.mp hs
      split_ifs at hs
      obtain rfl := Option.some.inj hs
      exact iff_of_true h trivial

/-- **`isHeld` is right all along a run**, in which Redis loses no data, exactly when every step of
it is timely. -/
theorem reliable_iff_timely {es : List (Event κ)}
    (h : Run (step skew) (stateGuard fun _ e => e ≠ .lose) init es s) :
    Always (step skew) init (Reliable skew) es ↔
      Run (step skew) (stateGuard (Timely skew)) init es s := by
  apply h.always_iff (I := Sound) sound_init ((reliable_iff sound_init).mpr backed_init)
  intro es s e s' hsound hrel hl hs
  have hsound' := sound_step hsound hs
  refine ⟨hsound', (reliable_iff hsound').trans ?_⟩
  exact backed_step hsound ((reliable_iff hsound).mp hrel) hl hs

/-! ## A reply in time, and a late one -/

/-- Process 0 takes the lock, extends it, and lets it expire. -/
def answeredAtOnce : List (Event Unit) :=
  [.tryAcquire 0 10 (), .execute 0, .reply 0, .advance 5, .renew 0 10 (), .execute 1, .reply 1,
    .advance 10, .release 0 (), .execute 2, .reply 2]

theorem answered_at_once_reliable : ∃ s, runEvents (step fun _ => 3) init answeredAtOnce = some s ∧
    Always (step fun _ => 3) init (Reliable fun _ => 3) answeredAtOnce := by
  obtain ⟨s, hs, -⟩ := exists_run_of_check (step fun _ => 3)
    (stateGuard fun s e => e ≠ .lose ∧ s.Timely (fun _ => 3) e) init answeredAtOnce
    (fun _ => true) (by decide)
  have hkeep : Run (step fun _ => 3) (stateGuard fun _ e => e ≠ .lose) init answeredAtOnce s :=
    hs.mono fun _ _ _ h => h.1
  exact ⟨s, hs.runEvents_eq, (reliable_iff_timely hkeep).mpr (hs.mono fun _ _ _ h => h.2)⟩

/-- The reply to process 0 is under way for a millisecond. Process 1 takes the lock when its lease
has run out. -/
def answeredLate : List (Event Unit) :=
  [.tryAcquire 0 10 (), .execute 0, .advance 1, .reply 0, .advance 9, .tryAcquire 1 10 (),
    .execute 1, .reply 1]

/-- **Both processes hold the lock**, by what they believe, and the key has the token of one. -/
theorem answered_late_unreliable :
    ∃ s, Run (step fun _ => 0) (stateGuard fun _ e => e ≠ .lose) init answeredLate s ∧
      s.isHeld (fun _ => 0) 0 = true ∧ s.isHeld (fun _ => 0) 1 = true ∧ ¬ s.HasKey 0 := by
  obtain ⟨s, hs, hp⟩ := exists_run_of_check (step fun _ => 0) (stateGuard fun _ e => e ≠ .lose)
    init answeredLate
    (fun s => s.isHeld (fun _ => 0) 0 ∧ s.isHeld (fun _ => 0) 1 ∧
      (s.locks 0).map LockEntry.token ≠ s.redis.holder) (by decide)
  obtain ⟨h0, h1, hne⟩ := of_decide_eq_true hp
  refine ⟨s, hs, h0, h1, fun ⟨entry, he, hh⟩ => hne ?_⟩
  rw [he, hh, Option.map_some]

end TaskOrchestration.DistributedLock

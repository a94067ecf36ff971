import TaskOrchestration.Lock.Model

set_option autoImplicit false

/-!
# The lock excludes other processes

A token is drawn by one call of `tryAcquire`, and the scripts only touch a key that holds theirs.

* `Obtained`, `Tenure`: the tokens that a process was granted, and the time for which it has the
  key;
* `Sound`, `sound_step`: entries and scripts carry tokens that their own process has obtained;
* `exec_script`, `Tenure.step`: what a script does to the key, and a step to a tenure;
* **`excludes_others`**: a tenure is only changed by its own process, and there is one at a time.
-/

namespace TaskOrchestration

open Lease LabelledRun

/-- The script changes the key only while it holds this token. -/
def LockCommand.ChecksFor (c : LockCommand) (token : Token) : Prop :=
  c = .release token ∨ ∃ ttlMs, c = .renew token ttlMs

namespace DistributedLock

variable {κ : Type} {skew : ℕ → ℕ} {s s' : DistributedLock κ} {e : Event κ} {process : ℕ}
  {token : Token}

/-- The process has drawn the token, and Redis has granted it. -/
def Obtained (s : DistributedLock κ) (process : ℕ) (token : Token) : Prop :=
  ∃ r ∈ s.calls, r.process = process ∧ r.granted = true ∧ ∃ ttlMs, r.command = .set token ttlMs

/-- **A tenure**: the process has obtained the token, and its lease runs until `t`. -/
structure Tenure (s : DistributedLock κ) (process : ℕ) (token : Token) (t : ℕ) : Prop where
  obtained : s.Obtained process token
  lease : s.redis.leases token = some t
  live : s.redis.now < t

/-- The step executes a command that the process has sent. -/
def Runs (s : DistributedLock κ) (process : ℕ) (e : Event κ) : Prop :=
  ∃ k r, e = .execute k ∧ s.calls[k]? = some r ∧ r.process = process

/-- **The invariant.** A call draws a token of its own, and the entries and the scripts of a
process carry tokens that it has obtained. -/
structure Sound (s : DistributedLock κ) : Prop where
  coherent : s.redis.Coherent
  named : ∀ (k : ℕ) (r : LockCall κ), s.calls[k]? = some r → ∀ token ttlMs,
    r.command = .set token ttlMs → token = ⟨r.process, k⟩
  answered : ∀ r ∈ s.calls, r.answer = some true → r.granted = true
  entries : ∀ p entry, s.locks p = some entry → s.Obtained p entry.token
  scripts : ∀ r ∈ s.calls, ∀ token, r.command.ChecksFor token → s.Obtained r.process token

theorem sound_init : Sound (init : DistributedLock κ) :=
  ⟨Server.coherent_init, nofun, nofun, nofun, nofun⟩

theorem Sound.caller (h : Sound s) (ho : s.Obtained process token) : token.caller = process := by
  obtain ⟨r, hr, rfl, -, ttlMs, hc⟩ := ho
  obtain ⟨k, hk⟩ := List.mem_iff_getElem?.mp hr
  rw [h.named k r hk token ttlMs hc]

/-! ## What keeps the invariant -/

/-- The calls of `s` are among those of `s'`, with what Redis has granted since. -/
def CallsKept (s s' : DistributedLock κ) : Prop :=
  ∀ r ∈ s.calls, ∃ r' ∈ s'.calls, r'.process = r.process ∧ r'.command = r.command ∧
    (r.granted = true → r'.granted = true)

theorem Obtained.mono (hk : s.CallsKept s') (h : s.Obtained process token) :
    s'.Obtained process token := by
  obtain ⟨r, hr, rfl, hg, ttlMs, hc⟩ := h
  obtain ⟨r', hr', hp, hc', hg'⟩ := hk r hr
  exact ⟨r', hr', hp, hg' hg, ttlMs, hc'.trans hc⟩

theorem callsKept_send (s : DistributedLock κ) (r : LockCall κ) : s.CallsKept (s.send r) :=
  fun q hq => ⟨q, List.mem_append_left _ hq, rfl, rfl, id⟩

theorem callsKept_setCall {k : ℕ} {r r' : LockCall κ} (hr : s.calls[k]? = some r)
    (hp : r'.process = r.process) (hc : r'.command = r.command)
    (hg : r.granted = true → r'.granted = true) (srv : Server Token) :
    s.CallsKept { s with redis := srv, calls := s.calls.set k r' } := by
  intro q hq
  obtain ⟨j, hj⟩ := List.mem_iff_getElem?.mp hq
  by_cases hkj : k = j
  · subst hkj
    obtain rfl := Option.some.inj (hr.symm.trans hj)
    obtain ⟨hlt, -⟩ := List.getElem?_eq_some_iff.mp hr
    exact ⟨r', List.mem_of_getElem? (List.getElem?_set_self hlt), hp, hc, hg⟩
  · have hq' : (s.calls.set k r')[j]? = some q := (List.getElem?_set_ne hkj).trans hj
    exact ⟨q, List.mem_of_getElem? hq', rfl, rfl, id⟩

theorem Sound.send (h : Sound s) {r : LockCall κ} (ha : r.answer = none)
    (hn : ∀ token ttlMs, r.command = .set token ttlMs → token = ⟨r.process, s.calls.length⟩)
    (hs : ∀ token, r.command.ChecksFor token → s.Obtained r.process token) :
    Sound (s.send r) := by
  have hk := callsKept_send s r
  refine ⟨h.coherent, fun k q hq => ?_, fun q hq => ?_, fun p entry he => ?_,
    fun q hq token ht => ?_⟩
  · rcases of_getElem?_append_singleton hq with hq | ⟨rfl, rfl⟩
    · exact h.named k q hq
    · exact hn
  · rcases List.mem_append.mp hq with hq | hq
    · exact h.answered q hq
    · obtain rfl := List.mem_singleton.mp hq
      rw [ha]
      exact nofun
  · exact (h.entries p entry he).mono hk
  · rcases List.mem_append.mp hq with hq | hq
    · exact (h.scripts q hq token ht).mono hk
    · obtain rfl := List.mem_singleton.mp hq
      exact (hs token ht).mono hk

theorem Sound.setCall (h : Sound s) {k : ℕ} {r : LockCall κ} (hr : s.calls[k]? = some r)
    (r' : LockCall κ) (hp : r'.process = r.process) (hc : r'.command = r.command)
    (hg : r.granted = true → r'.granted = true) (ha : r'.answer = some true → r'.granted = true)
    {srv : Server Token} (hsrv : srv.Coherent) :
    Sound { s with redis := srv, calls := s.calls.set k r' } := by
  have hk := callsKept_setCall hr hp hc hg srv
  refine ⟨hsrv, fun j q hq => ?_, fun q hq => ?_, fun p entry he => ?_, fun q hq token ht => ?_⟩
  · by_cases hkj : k = j
    · subst hkj
      obtain ⟨hlt, -⟩ := List.getElem?_eq_some_iff.mp hr
      obtain rfl := Option.some.inj ((List.getElem?_set_self hlt).symm.trans hq)
      rw [hp, hc]
      exact h.named k r hr
    · exact h.named j q ((List.getElem?_set_ne hkj).symm.trans hq)
  · rcases List.mem_or_eq_of_mem_set hq with hq | rfl
    · exact h.answered q hq
    · exact ha
  · exact (h.entries p entry he).mono hk
  · rcases List.mem_or_eq_of_mem_set hq with hq | rfl
    · exact (h.scripts q hq token ht).mono hk
    · rw [hc] at ht
      rw [hp]
      exact (h.scripts r (List.mem_of_getElem? hr) token ht).mono hk

theorem Sound.setEntry (h : Sound s) {entry : Option LockEntry}
    (he : ∀ e ∈ entry, s.Obtained process e.token) : Sound (s.setEntry process entry) := by
  refine ⟨h.coherent, h.named, h.answered, fun p e hp => ?_, h.scripts⟩
  by_cases hpp : p = process
  · subst hpp
    rw [locks_setEntry_self] at hp
    exact he e hp
  · rw [locks_setEntry_of_ne s hpp] at hp
    exact h.entries p e hp

/-! ## What Redis does -/

/-- **A command** leaves the server alone, gives the key to a token that may have it, or takes it
from its holder. -/
theorem exec_cases {srv srv' : Server Token} {c : LockCommand} {answer : Bool}
    (h : exec srv c = some (srv', answer)) :
    (srv' = srv ∧ answer = false) ∨
      (∃ token ttlMs, srv' = srv.grant token ttlMs ∧ answer = true ∧
        (c = .set token ttlMs ∧ srv.holder = none ∨
          c = .renew token ttlMs ∧ srv.holder = some token)) ∨
      ∃ token, c = .release token ∧ srv.holder = some token ∧ answer = true ∧
        srv' = { srv with key := none, leases := Function.update srv.leases token none } := by
  cases c with
  | set token ttlMs =>
      obtain ⟨ha, rfl⟩ | ⟨tok, ttl, ha, rfl, ⟨hc, hh⟩ | ⟨hc, hh⟩⟩ :=
        Server.exec?_eq_some (c := .setNx token ttlMs) h
      · exact .inl ⟨rfl, ha⟩
      · obtain ⟨rfl, rfl⟩ := Command.setNx.inj hc
        exact .inr (.inl ⟨token, ttlMs, rfl, ha, .inl ⟨rfl, hh⟩⟩)
      · cases hc
  | renew token ttlMs =>
      obtain ⟨ha, rfl⟩ | ⟨tok, ttl, ha, rfl, ⟨hc, hh⟩ | ⟨hc, hh⟩⟩ :=
        Server.exec?_eq_some (c := .extend token ttlMs) h
      · exact .inl ⟨rfl, ha⟩
      · cases hc
      · obtain ⟨rfl, rfl⟩ := Command.extend.inj hc
        exact .inr (.inl ⟨token, ttlMs, rfl, ha, .inr ⟨rfl, hh⟩⟩)
  | release token =>
      obtain ⟨ha, rfl, -⟩ | ⟨ha, hh, rfl⟩ := Server.release_eq (Option.some.inj h)
      · exact .inl ⟨rfl, ha⟩
      · exact .inr (.inr ⟨token, rfl, hh, ha, rfl⟩)

theorem coherent_exec {srv srv' : Server Token} {c : LockCommand} {answer : Bool}
    (hc : srv.Coherent) (h : exec srv c = some (srv', answer)) : srv'.Coherent := by
  cases c with
  | set token ttlMs => exact hc.exec (c := .setNx token ttlMs) h
  | renew token ttlMs => exact hc.exec (c := .extend token ttlMs) h
  | release token =>
      rw [← (Prod.mk.inj (Option.some.inj h)).1]
      exact hc.release token

/-- **A script** that changes the key has found its token in it. -/
theorem exec_script {srv srv' : Server Token} {c : LockCommand} {answer : Bool}
    (h : exec srv c = some (srv', answer)) (ht : c.ChecksFor token) (hne : srv' ≠ srv) :
    srv.holder = some token := by
  rcases exec_cases h with ⟨rfl, -⟩ | ⟨tok, ttl, -, -, ⟨rfl, -⟩ | ⟨rfl, hh⟩⟩ | ⟨tok, rfl, hh, -⟩
  · exact absurd rfl hne
  · rcases ht with ht | ⟨_, ht⟩ <;> cases ht
  · rcases ht with ht | ⟨_, ht⟩
    · cases ht
    · obtain ⟨rfl, -⟩ := LockCommand.renew.inj ht
      exact hh
  · rcases ht with ht | ⟨_, ht⟩
    · rw [← LockCommand.release.inj ht]
      exact hh
    · cases ht

/-! ## Steps -/

theorem execute_eq_some {k : ℕ} (h : s.execute k = some s') :
    ∃ r srv answer, s.calls[k]? = some r ∧ exec s.redis r.command = some (srv, answer) ∧
      s' = { s with
        redis := srv
        calls := s.calls.set k
          { r with answer := some answer, granted := r.granted || answer } } := by
  obtain ⟨r, hr, h⟩ := Option.bind_eq_some_iff.mp h
  obtain ⟨⟨srv, answer⟩, hx, rfl⟩ := Option.map_eq_some_iff.mp h
  exact ⟨r, srv, answer, hr, hx, rfl⟩

theorem awaited_eq_some {k : ℕ} {r : LockCall κ} {answer : Bool}
    (h : s.awaited k = some (r, answer)) :
    s.calls[k]? = some r ∧ r.settled = false ∧ r.answer = some answer := by
  obtain ⟨q, hq, h⟩ := Option.bind_eq_some_iff.mp h
  split_ifs at h with hs
  obtain ⟨a, ha, he⟩ := Option.map_eq_some_iff.mp h
  obtain ⟨rfl, rfl⟩ := Prod.mk.inj he
  exact ⟨hq, eq_false_of_ne_true hs, ha⟩

theorem Sound.settle (h : Sound s) {k : ℕ} {r : LockCall κ} (hr : s.calls[k]? = some r) :
    Sound (s.settle k r) :=
  h.setCall hr { r with settled := true } rfl rfl id (h.answered r (List.mem_of_getElem? hr))
    h.coherent

theorem Sound.replied (h : Sound s) {r : LockCall κ} {answer : Bool}
    (hs : ∀ token ttlMs, r.command = .set token ttlMs → answer = true →
      s.Obtained r.process token) : Sound (s.replied skew r answer) := by
  unfold DistributedLock.replied
  split
  · rename_i token ttlMs hc
    unfold afterSet
    split_ifs with ha
    · refine h.setEntry fun e he => ?_
      rw [← Option.some.inj he]
      exact hs token ttlMs hc ha
    · exact h
  · unfold afterRenew
    split_ifs
    · refine h.setEntry fun e he => ?_
      obtain ⟨entry, hentry, rfl⟩ := Option.map_eq_some_iff.mp he
      have ho := h.entries r.process entry hentry
      split_ifs <;> exact ho
    · exact h.setEntry nofun
  · exact h.setEntry nofun

theorem sound_step (h : Sound s) (hs : s.step skew e = some s') : Sound s' := by
  cases e with
  | advance ms =>
      obtain rfl := Option.some.inj hs
      exact ⟨h.coherent.advance ms, h.named, h.answered, h.entries, h.scripts⟩
  | lose =>
      obtain rfl := Option.some.inj hs
      exact ⟨Server.coherent_lose _, h.named, h.answered, h.entries, h.scripts⟩
  | tryAcquire p ttlMs caller =>
      obtain rfl := Option.some.inj hs
      refine h.send rfl (fun token ttlMs hc => ?_) fun token ht => ?_
      · exact (LockCommand.set.inj hc).1.symm
      · rcases ht with ht | ⟨_, ht⟩ <;> cases ht
  | renew p ttlMs caller =>
      obtain rfl := Option.some.inj hs
      unfold DistributedLock.renew
      split
      · exact h
      · rename_i entry he
        refine h.send rfl nofun fun token ht => ?_
        rcases ht with ht | ⟨_, ht⟩
        · cases ht
        · rw [← (LockCommand.renew.inj ht).1]
          exact h.entries p entry he
  | release p caller =>
      obtain rfl := Option.some.inj hs
      unfold DistributedLock.release
      split
      · exact h
      · rename_i entry he
        refine h.send rfl nofun fun token ht => ?_
        rcases ht with ht | ⟨_, ht⟩
        · rw [← LockCommand.release.inj ht]
          exact h.entries p entry he
        · cases ht
  | execute k =>
      obtain ⟨r, srv, answer, hr, hx, rfl⟩ := execute_eq_some hs
      refine h.setCall hr { r with answer := some answer, granted := r.granted || answer } rfl rfl
        (fun hg => ?_) (fun ha => ?_) (coherent_exec h.coherent hx)
      · simp [hg]
      · simp [Option.some.inj ha]
  | reply k =>
      obtain ⟨⟨r, answer⟩, hw, rfl⟩ := Option.map_eq_some_iff.mp hs
      obtain ⟨hr, -, ha⟩ := awaited_eq_some hw
      refine (h.settle hr).replied fun token ttlMs hc hans => ?_
      subst hans
      obtain ⟨hlt, -⟩ := List.getElem?_eq_some_iff.mp hr
      exact ⟨_, List.mem_of_getElem? (List.getElem?_set_self hlt), rfl,
        h.answered r (List.mem_of_getElem? hr) ha, ttlMs, hc⟩
  | reject k =>
      obtain ⟨r, hr, hs⟩ := Option.bind_eq_some_iff.mp hs
      split_ifs at hs
      obtain rfl := Option.some.inj hs
      exact h.settle hr

theorem sound_of_run {ok : List (Event κ) → DistributedLock κ → Event κ → Prop}
    {es : List (Event κ)} (h : Run (step skew) ok init es s) : Sound s :=
  h.stable sound_init fun _ _ _ _ hi _ hs => sound_step hi hs

/-! ## Tenures -/

/-- **A tenure after a step** that neither executes a command of its process nor loses the data of
the server: its lease is the same, and while it lasts the key holds its token. -/
theorem Tenure.step (h : Sound s) {t : ℕ} (ht : s.Tenure process token t)
    (hs : s.step skew e = some s') (hrun : ¬ s.Runs process e) (hl : e ≠ .lose) :
    s'.redis.leases token = some t := by
  cases e with
  | lose => exact absurd rfl hl
  | execute k =>
      obtain ⟨r, srv, answer, hr, hx, rfl⟩ := execute_eq_some hs
      have hp : r.process ≠ process := fun hp => hrun ⟨k, r, rfl, hr, hp⟩
      have hne : ∀ tok, tok.caller = r.process → token ≠ tok := by
        rintro tok hc rfl
        exact hp (hc.symm.trans (h.caller ht.obtained))
      have hmem := List.mem_of_getElem? hr
      rcases exec_cases hx with ⟨rfl, -⟩ | ⟨tok, ttl, rfl, -, hc⟩ | ⟨tok, hc, -, -, rfl⟩
      · exact ht.lease
      · have hcaller : tok.caller = r.process := by
          rcases hc with ⟨hc, -⟩ | ⟨hc, -⟩
          · rw [h.named k r hr tok ttl hc]
          · exact h.caller (h.scripts r hmem tok (.inr ⟨ttl, hc⟩))
        exact (Function.update_of_ne (hne tok hcaller) ..).trans ht.lease
      · have hcaller := h.caller (h.scripts r hmem tok (.inl hc))
        exact (Function.update_of_ne (hne tok hcaller) ..).trans ht.lease
  | tryAcquire p ttlMs caller | advance ms =>
      obtain rfl := Option.some.inj hs
      exact ht.lease
  | renew p ttlMs caller =>
      obtain rfl := Option.some.inj hs
      unfold DistributedLock.renew
      split <;> exact ht.lease
  | release p caller =>
      obtain rfl := Option.some.inj hs
      unfold DistributedLock.release
      split <;> exact ht.lease
  | reply k =>
      obtain ⟨⟨r, answer⟩, -, rfl⟩ := Option.map_eq_some_iff.mp hs
      rw [redis_replied]
      exact ht.lease
  | reject k =>
      obtain ⟨r, hr, hs⟩ := Option.bind_eq_some_iff.mp hs
      split_ifs at hs
      obtain rfl := Option.some.inj hs
      exact ht.lease

theorem Tenure.key (h : Sound s) {t : ℕ} (ht : s.Tenure process token t) :
    s.redis.key = some (token, t) :=
  (h.coherent token t ht.lease).resolve_right (Nat.not_le.mpr ht.live)

theorem Tenure.unique (h : Sound s) {p q : ℕ} {a b : Token} {t u : ℕ} (ha : s.Tenure p a t)
    (hb : s.Tenure q b u) : p = q := by
  have hab := Option.some.inj ((ha.key h).symm.trans (hb.key h))
  rw [← h.caller ha.obtained, ← h.caller hb.obtained, (Prod.mk.inj hab).1]

/-- **A tenure begins** when Redis grants a `SET`. -/
theorem tenure_of_granted {k : ℕ} {r : LockCall κ} {ttlMs : ℕ} (hs : s.execute k = some s')
    (hr : s.calls[k]? = some r) (hc : r.command = .set token ttlMs)
    (hfree : s.redis.holder = none) :
    s'.Tenure r.process token (s.redis.now + ttlMs) := by
  obtain ⟨q, srv, answer, hq, hx, rfl⟩ := execute_eq_some hs
  obtain rfl := Option.some.inj (hr.symm.trans hq)
  rw [hc] at hx
  obtain ⟨hlt, -⟩ := List.getElem?_eq_some_iff.mp hr
  cases ttlMs with
  | zero => cases hx
  | succ ttlMs =>
      simp only [exec, Server.exec?, if_pos hfree] at hx
      obtain ⟨rfl, rfl⟩ := Prod.mk.inj (Option.some.inj hx)
      refine ⟨⟨_, List.mem_of_getElem? (List.getElem?_set_self hlt), rfl, ?_, _, hc⟩, ?_, ?_⟩
      · exact Bool.or_true _
      · exact Function.update_self ..
      · exact Nat.lt_add_of_pos_right (Nat.succ_pos _)

/-! ## Exclusion -/

/-- **What a step leaves alone.** A script changes the key only if it holds a token that the sender
has obtained, a `SET` that changes it begins a tenure, and the tenures of the other processes last
as long as before and keep the key. -/
structure Excludes (s : DistributedLock κ) (e : Event κ) (s' : DistributedLock κ) : Prop where
  script : ∀ k r, e = .execute k → s.calls[k]? = some r → (∃ token, r.command.ChecksFor token) →
    s'.redis ≠ s.redis → ∃ token, s.redis.holder = some token ∧ s.Obtained r.process token
  begins : ∀ k r token ttlMs, e = .execute k → s.calls[k]? = some r →
    r.command = .set token ttlMs → s'.redis ≠ s.redis →
    s'.Tenure r.process token (s.redis.now + ttlMs)
  kept : ∀ p token t, s.Tenure p token t → ¬ s.Runs p e → e ≠ .lose →
    s'.redis.leases token = some t ∧ (s'.redis.now < t → s'.redis.key = some (token, t))

theorem Sound.excludes (h : Sound s) (hs : s.step skew e = some s') : s.Excludes e s' where
  script := by
    rintro k r rfl hr ⟨token, ht⟩ hne
    obtain ⟨q, srv, answer, hq, hx, rfl⟩ := execute_eq_some hs
    obtain rfl := Option.some.inj (hr.symm.trans hq)
    exact ⟨token, exec_script hx ht hne, h.scripts r (List.mem_of_getElem? hr) token ht⟩
  begins := by
    rintro k r token ttlMs rfl hr hc hne
    refine tenure_of_granted hs hr hc ?_
    obtain ⟨q, srv, answer, hq, hx, rfl⟩ := execute_eq_some hs
    obtain rfl := Option.some.inj (hr.symm.trans hq)
    rcases exec_cases hx with ⟨rfl, -⟩ | ⟨_, _, -, -, ⟨-, hh⟩ | ⟨hc', -⟩⟩ | ⟨_, hc', -⟩
    · exact absurd rfl hne
    · exact hh
    · cases hc.symm.trans hc'
    · cases hc.symm.trans hc'
  kept := by
    intro p token t ht hrun hl
    have hlease := ht.step h hs hrun hl
    refine ⟨hlease, fun hlt => ?_⟩
    exact ((sound_step h hs).coherent token t hlease).resolve_right (Nat.not_le.mpr hlt)

/-- **Exclusion.** In every run a tenure has the key, two tenures are of one process, and every
step leaves the tenures of the other processes alone. -/
theorem excludes_others {es : List (Event κ)} (h : Run (step skew) anyStep init es s) :
    (∀ p token t, s.Tenure p token t → s.redis.key = some (token, t)) ∧
      (∀ p q a b t u, s.Tenure p a t → s.Tenure q b u → p = q) ∧
      ∀ e s', s.step skew e = some s' → s.Excludes e s' := by
  have hsound := sound_of_run h
  refine ⟨fun p token t ht => ht.key hsound, fun p q a b t u => Tenure.unique hsound, ?_⟩
  exact fun e s' hs => hsound.excludes hs

/-- Process 1 obtains the lock after the lease of process 0 has run out. The release that process 0
has sent arrives then, and the key stays. -/
theorem late_release_leaves_the_key :
    ∃ s : DistributedLock Unit, s.redis.key = some (⟨1, 2⟩, 20) ∧
      (s.execute 1).map (fun s' => s'.redis.key) = some s.redis.key ∧
      ∀ e s', s.step (fun _ => 0) e = some s' → s.Excludes e s' := by
  obtain ⟨s, hrun, hs⟩ := exists_run_of_check (step fun _ => 0) anyStep
    (init : DistributedLock Unit)
    [.tryAcquire 0 10 (), .execute 0, .reply 0, .release 0 (), .advance 10, .tryAcquire 1 10 (),
      .execute 2]
    (fun s => decide (s.redis.key = some (⟨1, 2⟩, 20)) &&
      decide ((s.execute 1).map (fun s' => s'.redis.key) = some s.redis.key)) (by decide)
  obtain ⟨hkey, hexec⟩ := Bool.and_eq_true_iff.mp hs
  exact ⟨s, of_decide_eq_true hkey, of_decide_eq_true hexec, (excludes_others hrun).2.2⟩

end DistributedLock

end TaskOrchestration

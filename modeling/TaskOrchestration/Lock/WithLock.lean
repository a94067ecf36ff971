import TaskOrchestration.Lock.Exclusion

set_option autoImplicit false

/-!
# Work under the lock

A process keeps one entry for a resource, whichever of its calls of `withLock` has obtained the
lock. The `release` at the end of a call looks there for the token to give back.

* `SessionOutcome`, `Session`, `WithLock`, **`step`**: calls of `withLock`, in any processes;
* `lock_step`, `lock_run`: the lock under them;
* `OwnEntry`, `DeletesOther`: a call ends while the entry is its own, and a release deletes the
  lock of another call;
* **`gives_back_own`**: the first rules out the second, and without it the second can follow.
-/

namespace TaskOrchestration

open Lease LabelledRun

/-- What `withLock` comes to: `null`, the value of `fn`, or an error. -/
inductive SessionOutcome
  | null
  | value
  | error
  deriving DecidableEq, Repr

/-- The awaits of `withLock`: `tryAcquire`, `fn`, and the `release` in `finally`. -/
inductive Stage
  | acquiring
  | running
  | releasing (outcome : SessionOutcome)
  | returned (outcome : SessionOutcome)
  deriving DecidableEq, Repr

/-- A call of `withLock`, with the token that its `tryAcquire` has drawn. -/
structure Session where
  process : ℕ
  token : Token
  stage : Stage
  deriving DecidableEq, Repr

namespace Session

def resume (x : Session) (answer : Bool) : Session :=
  match x.stage with
  | .acquiring => { x with stage := if answer then .running else .returned .null }
  | .releasing outcome => { x with stage := .returned outcome }
  | _ => x

/-- The call goes on with an error, which it passes on. -/
def fail (x : Session) : Session := { x with stage := .returned .error }

@[simp] theorem token_resume (x : Session) (answer : Bool) : (x.resume answer).token = x.token := by
  unfold resume
  split <;> rfl

end Session

/-- **The state**: the lock, and the calls of `withLock` so far. -/
structure WithLock where
  lock : DistributedLock ℕ
  sessions : List Session

namespace WithLock

inductive Event
  | advance (ms : ℕ)
  | lose
  | withLock (process ttlMs : ℕ)
  | execute (call : ℕ)
  | reply (call : ℕ)
  | reject (call : ℕ)
  | finish (session : ℕ) (outcome : SessionOutcome)
  deriving DecidableEq, Repr

def init : WithLock := ⟨.init, []⟩

/-- `withLock` up to the call of Redis in `tryAcquire`. -/
def withLock (s : WithLock) (process ttlMs : ℕ) : WithLock where
  lock := s.lock.tryAcquire process ttlMs s.sessions.length
  sessions := s.sessions ++ [⟨process, ⟨process, s.lock.calls.length⟩, .acquiring⟩]

/-- `finally`, when `fn` has returned or thrown: `release`, which awaits Redis if the process has
an entry. -/
def finish (s : WithLock) (w : ℕ) (x : Session) (outcome : SessionOutcome) : WithLock where
  lock := s.lock.release x.process w
  sessions := s.sessions.set w
    { x with stage := if (s.lock.locks x.process).isSome then .releasing outcome
                      else .returned outcome }

variable (skew : ℕ → ℕ)

def step (s : WithLock) : Event → Option WithLock
  | .advance ms => some { s with lock := s.lock.advance ms }
  | .lose => some { s with lock := { s.lock with redis := s.lock.redis.lose } }
  | .withLock process ttlMs => some (s.withLock process ttlMs)
  | .execute k => (s.lock.execute k).map fun lock => { s with lock := lock }
  | .reply k => (s.lock.awaited k).map fun p =>
      { lock := (s.lock.settle k p.1).replied skew p.1 p.2
        sessions := s.sessions.modify p.1.caller fun x => x.resume p.2 }
  | .reject k => (s.lock.calls[k]?).bind fun r => if r.settled then none else
      some { lock := s.lock.settle k r, sessions := s.sessions.modify r.caller Session.fail }
  | .finish w outcome => (s.sessions[w]?).bind fun x =>
      if x.stage = .running ∧ outcome ≠ .null then some (s.finish w x outcome) else none

/-- What a step does to the lock. -/
def lockEvent (s : WithLock) : Event → DistributedLock.Event ℕ
  | .advance ms => .advance ms
  | .lose => .lose
  | .withLock process ttlMs => .tryAcquire process ttlMs s.sessions.length
  | .execute k => .execute k
  | .reply k => .reply k
  | .reject k => .reject k
  | .finish w _ => .release ((s.sessions[w]?).elim 0 Session.process) w

variable {skew : ℕ → ℕ} {s s' : WithLock} {e : Event}

theorem finish_eq_some {w : ℕ} {outcome : SessionOutcome}
    (hs : s.step skew (.finish w outcome) = some s') :
    ∃ x, s.sessions[w]? = some x ∧ x.stage = .running ∧ s' = s.finish w x outcome := by
  obtain ⟨x, hx, hs⟩ := Option.bind_eq_some_iff.mp hs
  split_ifs at hs with hstage
  exact ⟨x, hx, hstage.1, (Option.some.inj hs).symm⟩

/-- **A step is one of the lock.** -/
theorem lock_step (hs : s.step skew e = some s') :
    s.lock.step skew (s.lockEvent e) = some s'.lock := by
  cases e with
  | advance ms | lose | withLock process ttlMs =>
      obtain rfl := Option.some.inj hs
      rfl
  | execute k =>
      obtain ⟨lock, hl, rfl⟩ := Option.map_eq_some_iff.mp hs
      exact hl
  | reply k =>
      obtain ⟨p, hp, rfl⟩ := Option.map_eq_some_iff.mp hs
      exact Option.map_eq_some_iff.mpr ⟨p, hp, rfl⟩
  | reject k =>
      obtain ⟨r, hr, hs⟩ := Option.bind_eq_some_iff.mp hs
      split_ifs at hs with hset
      obtain rfl := Option.some.inj hs
      refine Option.bind_eq_some_iff.mpr ⟨r, hr, ?_⟩
      rw [if_neg hset]
  | finish w outcome =>
      obtain ⟨x, hx, -, rfl⟩ := finish_eq_some hs
      simp only [lockEvent, hx, Option.elim_some]
      rfl

theorem lock_run {ok : List Event → WithLock → Event → Prop} {es : List Event}
    (h : Run (step skew) ok init es s) :
    ∃ fs, Run (DistributedLock.step skew) anyStep DistributedLock.init fs s.lock := by
  induction h with
  | nil => exact ⟨[], .nil⟩
  | snoc _ _ hs ih =>
      obtain ⟨fs, hfs⟩ := ih
      exact ⟨_, hfs.snoc trivial (lock_step hs)⟩

/-! ## Releases -/

/-- **A release deletes the lock of another call**: the key holds the token it asks for, which is
not the one that its own call has drawn. -/
def DeletesOther (s : WithLock) (e : Event) : Prop :=
  ∃ k r token x, e = .execute k ∧ s.lock.calls[k]? = some r ∧ r.command = .release token ∧
    s.lock.redis.holder = some token ∧ s.sessions[r.caller]? = some x ∧ x.token ≠ token

/-- **A call ends with the entry its own**, or gone. -/
def OwnEntry (s : WithLock) : Event → Prop
  | .finish w _ => ∀ x ∈ s.sessions[w]?, ∀ entry ∈ s.lock.locks x.process, entry.token = x.token
  | _ => True

/-- **The invariant**: a release asks for the token of its own call. -/
def OwnReleases (s : WithLock) : Prop :=
  ∀ r ∈ s.lock.calls, ∀ token, r.command = .release token →
    ∃ x, s.sessions[r.caller]? = some x ∧ x.token = token

theorem OwnReleases.not_deletesOther (h : OwnReleases s) : ¬ s.DeletesOther e := by
  rintro ⟨k, r, token, x, -, hr, hc, -, hx, hne⟩
  obtain ⟨y, hy, ht⟩ := h r (List.mem_of_getElem? hr) token hc
  obtain rfl := Option.some.inj (hx.symm.trans hy)
  exact hne ht

/-- The sessions of `s` are those of `s'`, some of which have moved on. -/
def SessionsKept (s s' : WithLock) : Prop :=
  ∀ (w : ℕ) (x : Session), s.sessions[w]? = some x →
    ∃ x' : Session, s'.sessions[w]? = some x' ∧ x'.token = x.token

theorem sessionsKept_modify {w : ℕ} {f : Session → Session} {lock : DistributedLock ℕ}
    (hf : ∀ x, (f x).token = x.token) : s.SessionsKept ⟨lock, s.sessions.modify w f⟩ := by
  intro v x hx
  dsimp only
  rw [List.getElem?_modify, hx, Option.map_eq_map, Option.map_some]
  by_cases hwv : w = v
  · rw [if_pos hwv]
    exact ⟨f x, rfl, hf x⟩
  · rw [if_neg hwv]
    exact ⟨x, rfl, rfl⟩

theorem OwnReleases.of_kept (h : OwnReleases s) (hk : s.SessionsKept s')
    (hc : ∀ r' ∈ s'.lock.calls, ∀ token, r'.command = .release token →
      (∃ r ∈ s.lock.calls, r.caller = r'.caller ∧ r.command = r'.command) ∨
        ∃ x, s'.sessions[r'.caller]? = some x ∧ x.token = token) : OwnReleases s' := by
  intro r' hr' token ht
  rcases hc r' hr' token ht with ⟨r, hr, hcaller, hcommand⟩ | hx
  · obtain ⟨x, hx, htok⟩ := h r hr token (hcommand.trans ht)
    rw [hcaller] at hx
    obtain ⟨x', hx', htok'⟩ := hk _ x hx
    exact ⟨x', hx', htok'.trans htok⟩
  · exact hx

theorem of_mem_setCall {k : ℕ} {r r' q : LockCall ℕ} (hq : q ∈ s.lock.calls.set k r')
    (hr : s.lock.calls[k]? = some r) (hcaller : r'.caller = r.caller)
    (hcommand : r'.command = r.command) :
    ∃ r ∈ s.lock.calls, r.caller = q.caller ∧ r.command = q.command := by
  rcases List.mem_or_eq_of_mem_set hq with hq | rfl
  · exact ⟨q, hq, rfl, rfl⟩
  · exact ⟨r, List.mem_of_getElem? hr, hcaller.symm, hcommand.symm⟩

theorem ownReleases_finish (h : OwnReleases s) {w : ℕ} {x : Session} {outcome : SessionOutcome}
    (hx : s.sessions[w]? = some x)
    (ho : ∀ entry ∈ s.lock.locks x.process, entry.token = x.token) :
    OwnReleases (s.finish w x outcome) := by
  obtain ⟨hlt, -⟩ := List.getElem?_eq_some_iff.mp hx
  have hself : ∃ x', (s.finish w x outcome).sessions[w]? = some x' ∧ x'.token = x.token :=
    ⟨_, List.getElem?_set_self hlt, rfl⟩
  refine h.of_kept (fun v y hy => ?_) fun r hr token ht => ?_
  · by_cases hwv : w = v
    · subst hwv
      obtain rfl := Option.some.inj (hx.symm.trans hy)
      exact hself
    · exact ⟨y, (List.getElem?_set_ne hwv).trans hy, rfl⟩
  · unfold finish DistributedLock.release at hr
    cases he : s.lock.locks x.process with
    | none =>
        rw [he] at hr
        exact .inl ⟨r, hr, rfl, rfl⟩
    | some entry =>
        rw [he] at hr
        rcases List.mem_append.mp hr with hr | hr
        · exact .inl ⟨r, hr, rfl, rfl⟩
        · obtain rfl := List.mem_singleton.mp hr
          obtain ⟨x', hx', htok⟩ := hself
          exact .inr ⟨x', hx', (htok.trans (ho entry he).symm).trans (LockCommand.release.inj ht)⟩

theorem ownReleases_step (h : OwnReleases s) (ho : s.OwnEntry e)
    (hs : s.step skew e = some s') : OwnReleases s' := by
  cases e with
  | advance ms | lose =>
      obtain rfl := Option.some.inj hs
      exact h
  | withLock process ttlMs =>
      obtain rfl := Option.some.inj hs
      refine h.of_kept (fun w x hx => ⟨x, getElem?_append_of_some hx _, rfl⟩)
        fun r hr token ht => ?_
      rcases List.mem_append.mp hr with hr | hr
      · exact .inl ⟨r, hr, rfl, rfl⟩
      · obtain rfl := List.mem_singleton.mp hr
        cases ht
  | execute k =>
      obtain ⟨lock, hl, rfl⟩ := Option.map_eq_some_iff.mp hs
      obtain ⟨r, srv, answer, hr, -, rfl⟩ := DistributedLock.execute_eq_some hl
      refine h.of_kept (fun w x hx => ⟨x, hx, rfl⟩) fun q hq _ _ => ?_
      exact .inl (of_mem_setCall hq hr rfl rfl)
  | reply k =>
      obtain ⟨⟨r, answer⟩, hw, rfl⟩ := Option.map_eq_some_iff.mp hs
      obtain ⟨hr, -, -⟩ := DistributedLock.awaited_eq_some hw
      refine h.of_kept (sessionsKept_modify fun x => x.token_resume answer) fun q hq _ _ => ?_
      rw [DistributedLock.calls_replied] at hq
      exact .inl (of_mem_setCall hq hr rfl rfl)
  | reject k =>
      obtain ⟨r, hr, hs⟩ := Option.bind_eq_some_iff.mp hs
      split_ifs at hs
      obtain rfl := Option.some.inj hs
      refine h.of_kept (sessionsKept_modify fun x => rfl) fun q hq _ _ => ?_
      exact .inl (of_mem_setCall hq hr rfl rfl)
  | finish w outcome =>
      obtain ⟨x, hx, -, rfl⟩ := finish_eq_some hs
      exact ownReleases_finish h hx (ho x hx)

/-- **The other way.** A call that ends with the entry of another call, whose lock the key still
holds, sends a release that deletes this lock as soon as Redis executes it. -/
theorem deletesOther_of_finish {w : ℕ} {outcome : SessionOutcome} {x : Session} {entry : LockEntry}
    (hx : s.sessions[w]? = some x) (he : s.lock.locks x.process = some entry)
    (hne : x.token ≠ entry.token) (hh : s.lock.redis.holder = some entry.token)
    (hs : s.step skew (.finish w outcome) = some s') :
    s'.DeletesOther (.execute s.lock.calls.length) := by
  obtain ⟨x', hx', -, rfl⟩ := finish_eq_some hs
  obtain rfl := Option.some.inj (hx.symm.trans hx')
  obtain ⟨hlt, -⟩ := List.getElem?_eq_some_iff.mp hx
  have hrel : s.lock.release x.process w = s.lock.send
      { process := x.process, caller := w, command := .release entry.token } := by
    rw [DistributedLock.release, he]
  refine ⟨_, ⟨x.process, w, .release entry.token, none, false, false⟩, entry.token,
    { x with stage := .releasing outcome }, rfl, ?_, rfl, ?_, ?_, hne⟩
  · rw [finish, hrel]
    exact List.getElem?_concat_length
  · rw [finish, hrel]
    exact hh
  · rw [finish, he]
    exact List.getElem?_set_self hlt

/-- Every release in flight is for a lock of its own process, in every run. -/
theorem release_own_process {ok : List Event → WithLock → Event → Prop} {es : List Event}
    (h : Run (step skew) ok init es s) {r : LockCall ℕ} (hr : r ∈ s.lock.calls) {token : Token}
    (hc : r.command = .release token) : token.caller = r.process := by
  obtain ⟨fs, hrun⟩ := lock_run h
  have hsound := DistributedLock.sound_of_run hrun
  exact hsound.caller (hsound.scripts r hr token (.inl hc))

theorem ownReleases_of_run {es : List Event} (h : Run (step skew) (stateGuard OwnEntry) init es s) :
    OwnReleases s :=
  h.stable (fun _ h => absurd h List.not_mem_nil) fun _ _ _ _ hi ho hs => ownReleases_step hi ho hs

/-- **A call gives back only its own lock**, all along a run in which every call ends with the
entry its own, or gone. If the next call ends otherwise, its release may delete the lock of another
call. -/
theorem gives_back_own {es : List Event} (h : Run (step skew) (stateGuard OwnEntry) init es s) :
    Run (step skew) (stateGuard fun s e => ¬ s.DeletesOther e) init es s ∧
      ∀ w outcome x entry s', s.sessions[w]? = some x → s.lock.locks x.process = some entry →
        x.token ≠ entry.token → s.lock.redis.holder = some entry.token →
        s.step skew (.finish w outcome) = some s' →
        s'.DeletesOther (.execute s.lock.calls.length) := by
  constructor
  · induction h with
    | nil => exact .nil
    | snoc hr _ hs ih => exact ih.snoc (ownReleases_of_run hr).not_deletesOther hs
  · exact fun w outcome x entry s' hx he hne hh hs => deletesOther_of_finish hx he hne hh hs

instance : DecidablePred s.OwnEntry
  | .finish w _ => inferInstanceAs
      (Decidable (∀ x ∈ s.sessions[w]?, ∀ entry ∈ s.lock.locks x.process, entry.token = x.token))
  | .advance _ | .lose | .withLock .. | .execute _ | .reply _ | .reject _ => .isTrue trivial

/-- Two calls of one process, one after the other, and one of another process in between. -/
def inTurn : List Event :=
  [.withLock 0 10, .execute 0, .reply 0, .withLock 1 10, .execute 1, .reply 1, .finish 0 .value,
    .execute 2, .reply 2, .withLock 0 10, .execute 3, .reply 3, .advance 10, .finish 2 .error,
    .execute 4, .reply 4]

theorem in_turn_gives_back_own : ∃ s,
    Run (step fun _ => 0) (stateGuard fun s e => ¬ s.DeletesOther e) init inTurn s ∧
      s.sessions.map Session.stage = [.returned .value, .returned .null, .returned .error] := by
  obtain ⟨s, hs, hp⟩ := exists_run_of_check (step fun _ => 0) (stateGuard OwnEntry) init inTurn
    (fun s => s.sessions.map Session.stage =
      [.returned .value, .returned .null, .returned .error]) (by decide)
  exact ⟨s, (gives_back_own hs).1, of_decide_eq_true hp⟩

/-- The lease of a call runs out while its `fn` works, and another call of the same process obtains
the lock. Then the first `fn` ends. -/
def outlived : List Event :=
  [.withLock 0 10, .execute 0, .reply 0, .advance 10, .withLock 0 10, .execute 1, .reply 1,
    .finish 0 .value]

/-- **The first call deletes the lock of the second**, whose `fn` still works. -/
theorem outlived_deletes_other : ∃ s, Run (step fun _ => 0) anyStep init outlived s ∧
    s.DeletesOther (.execute 2) ∧
    (s.step (fun _ => 0) (.execute 2)).map (fun s' => s'.lock.redis.key) = some none := by
  obtain ⟨s, hs, hp⟩ := exists_run_of_check (step fun _ => 0) anyStep init outlived
    (fun s => s.lock.calls[2]? = some ⟨0, 0, .release ⟨0, 1⟩, none, false, false⟩ ∧
      s.lock.redis.holder = some ⟨0, 1⟩ ∧
      s.sessions = [⟨0, ⟨0, 0⟩, .releasing .value⟩, ⟨0, ⟨0, 1⟩, .running⟩] ∧
      (s.step (fun _ => 0) (.execute 2)).map (fun s' => s'.lock.redis.key) = some none) (by decide)
  obtain ⟨hcall, hh, hsess, hkey⟩ := of_decide_eq_true hp
  refine ⟨s, hs, ⟨2, _, ⟨0, 1⟩, ⟨0, ⟨0, 0⟩, .releasing .value⟩, rfl, hcall, rfl, hh, ?_, ?_⟩, hkey⟩
  · rw [hsess]
    rfl
  · decide

end WithLock

end TaskOrchestration

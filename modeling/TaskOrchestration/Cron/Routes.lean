import TaskOrchestration.Cron.Once

set_option autoImplicit false

/-!
# Schedules that are paused, resumed and deleted

The routes change the row of a schedule. A run of `tick` works from the rows it has fetched, one
after the other, and does not look at them again.

* `pause`, `resume`, `delete`: the routes, cut at their awaits;
* `CronRoutes`, `Event`, **`step`**: the routes beside the runs of `tick`, with the jobs that these
  create, and what is off: paused or deleted, and not resumed since;
* `pending`, `Holding`: the schedules that a run of `tick` has fetched and still has to trigger;
  `CanFire`, `canFire_of_held`: what the run can still do with them;
* **`off_does_not_fire`**: no job is created from a schedule that is off, if no run holds it when it
  is paused or deleted.
-/

namespace TaskOrchestration

open CronScheduler LabelledRun

/-! ## The statements of the routes -/

namespace Schedules

/-- The rows that the routes find by an id and the organization of the user. -/
def Matches (id organizationId : String) (r : Schedule) : Prop :=
  r.id = id ∧ r.organizationId = organizationId

instance (id organizationId : String) : DecidablePred (Matches id organizationId) :=
  fun r => inferInstanceAs (Decidable (r.id = id ∧ r.organizationId = organizationId))

def setPaused (now : Time) (r : Schedule) : Schedule :=
  { r with isActive := false, updatedAt := now }

/-- The update of the route `PATCH /:id/pause`. -/
def pause (t : ScheduleTable) (id organizationId : String) (now : Time) : ScheduleTable :=
  t.updateWhere (fun r => Matches id organizationId r) (setPaused now) fun _ => rfl

def setResumed (now nextTrigger : Time) (r : Schedule) : Schedule :=
  { r with isActive := true, nextTriggerAt := some nextTrigger, updatedAt := now }

/-- The update of the route `PATCH /:id/resume`, which is by the id alone. -/
def resume (t : ScheduleTable) (id : String) (now nextTrigger : Time) : ScheduleTable :=
  t.update id (setResumed now nextTrigger) fun _ => rfl

/-- The statement of the route `DELETE /:id`. -/
def delete (t : ScheduleTable) (id organizationId : String) : ScheduleTable :=
  t.filter fun r => ¬ Matches id organizationId r

end Schedules

/-- A request to the resume route that has read its row, before its update. -/
structure Resume where
  id : String
  nextTrigger : Time
  deriving DecidableEq, Repr

/-- **The state**: the schedules and the runs of `tick`, the requests to resume, and the jobs that
`onTrigger` has inserted. `off` is history: the schedules that were paused or deleted, and not
resumed since. -/
structure CronRoutes where
  cron : Cron
  resumes : List Resume
  jobs : List Firing
  off : List String

namespace CronRoutes

/-- A run of `tick` goes on, or a statement of a route commits. `inserted` says whether the
statement of `onTrigger` takes effect. -/
inductive Event
  | tick (now : Time)
  | act (run : ℕ) (a : Cron.Action) (inserted : Bool)
  | pause (id organizationId : String) (now : Time)
  | resume (id organizationId : String) (now : Time)
  | resumed (request : ℕ) (now : Time)
  | delete (id organizationId : String)
  deriving DecidableEq, Repr

def init (t : ScheduleTable) : CronRoutes := ⟨.init t, [], [], []⟩

-- `firstRow` is what `const [row] = await db(..).first()` binds, unless it throws
variable (getNextCronRun : String → String → Time → Option Time)
  (firstRow : Option Schedule → Option (Option Schedule))

/-- A schedule is off if the statement has found its row. -/
def turnOff (s : CronRoutes) (id organizationId : String) : List String :=
  if ∃ r ∈ s.cron.schedules, Schedules.Matches id organizationId r then id :: s.off else s.off

def setSchedules (s : CronRoutes) (t : ScheduleTable) : CronRoutes :=
  { s with cron := { s.cron with schedules := t } }

/-- The resume route, up to its update. Without a row it answers 404, and if anything throws
500. -/
def resume (s : CronRoutes) (id organizationId : String) (now : Time) : CronRoutes :=
  match firstRow (s.cron.schedules.rows.find? fun r => Schedules.Matches id organizationId r) with
  | some (some row) =>
      match getNextCronRun row.cronExpression row.timezone now with
      | some nextTrigger => { s with resumes := s.resumes ++ [⟨id, nextTrigger⟩] }
      | none => s
  | _ => s

def step (s : CronRoutes) : Event → Option CronRoutes
  | .tick now => (s.cron.step getNextCronRun (.tick now)).map fun cron => { s with cron := cron }
  | .act run a inserted => (s.cron.step getNextCronRun (.act run a)).map fun cron =>
      { s with
        cron := cron
        jobs := s.jobs ++ if inserted then cron.fired.drop s.cron.fired.length else [] }
  | .pause id organizationId now => some
      { s.setSchedules (Schedules.pause s.cron.schedules id organizationId now) with
        off := s.turnOff id organizationId }
  | .resume id organizationId now => some (s.resume getNextCronRun firstRow id organizationId now)
  | .resumed request now => (s.resumes[request]?).map fun r =>
      { s.setSchedules (Schedules.resume s.cron.schedules r.id now r.nextTrigger) with
        resumes := s.resumes.eraseIdx request
        off := if (s.cron.schedules.find? r.id).isSome then s.off.filter (· ≠ r.id) else s.off }
  | .delete id organizationId => some
      { s.setSchedules (Schedules.delete s.cron.schedules id organizationId) with
        off := s.turnOff id organizationId }

/-! ## Schedules that are off -/

/-- The schedules that a run of `tick` has fetched, and still has to trigger. -/
def pending : TickPc → List Schedule
  | .fetching _ | .ended => []
  | .looping rest | .triggering rest => rest
  | .updating schedule _ _ rest | .updated schedule rest => schedule :: rest

/-- A run of `tick` still has to trigger the schedule. -/
def Holding (s : CronRoutes) (id : String) : Prop :=
  ∃ t ∈ s.cron.ticks, ∃ r ∈ pending t.pc, r.id = id

instance (s : CronRoutes) (id : String) : Decidable (s.Holding id) := by
  unfold Holding
  infer_instance

/-- **The condition on a step**: no run of `tick` holds a schedule that is paused or deleted. -/
def NotHeld (s : CronRoutes) : Event → Prop
  | .pause id organizationId _ | .delete id organizationId =>
      (∃ r ∈ s.cron.schedules, Schedules.Matches id organizationId r) → ¬ s.Holding id
  | _ => True

instance (s : CronRoutes) : DecidablePred s.NotHeld
  | .pause id organizationId _ | .delete id organizationId => inferInstanceAs
      (Decidable ((∃ r ∈ s.cron.schedules, Schedules.Matches id organizationId r) →
        ¬ s.Holding id))
  | .tick _ | .act .. | .resume .. | .resumed .. => .isTrue trivial

/-- **No job is created from a schedule that is off.** -/
def NoneCreatedOff (s : CronRoutes) (e : Event) : Prop :=
  ∀ s', s.step getNextCronRun firstRow e = some s' →
    ∃ new, s'.jobs = s.jobs ++ new ∧ ∀ f ∈ new, f.schedule.id ∉ s.off

/-- **The invariant**: no run of `tick` holds a schedule that is off, and its row, if there is one,
is not active. -/
structure OffRests (s : CronRoutes) : Prop where
  notHeld : ∀ id ∈ s.off, ¬ s.Holding id
  inactive : ∀ r ∈ s.cron.schedules, r.id ∈ s.off → r.isActive = false

variable {next : String → String → Time → Option Time}
  {firstRow : Option Schedule → Option (Option Schedule)} {s s' : CronRoutes} {e : Event}

/-! ## What a run of `tick` holds -/

section Ticks

variable {table : ScheduleTable} {t : Tick} {a : Cron.Action}
  {p : Tick × ScheduleTable × List Firing}

theorem pending_tickStep (h : Cron.TickStep next table t a p) {r : Schedule}
    (hr : r ∈ pending p.1.pc) : r ∈ pending t.pc ∨ r ∈ table ∧ r.isActive = true := by
  cases h with
  | fetch hp =>
      obtain ⟨hmem, hactive, -⟩ := Cron.mem_fetchDueSchedules (hp.mem_iff.mp hr)
      exact .inr ⟨hmem, hactive⟩
  | trigger | triggered => exact .inl hr
  | throws | fail => exact absurd hr List.not_mem_nil
  | update lost =>
      cases lost with
      | true => exact absurd hr List.not_mem_nil
      | false => exact .inl hr
  | onTrigger => exact .inl (List.mem_cons_of_mem _ hr)

theorem active_tickStep (h : Cron.TickStep next table t a p) {r : Schedule} (hr : r ∈ p.2.1) :
    ∃ r₀ ∈ table, r₀.id = r.id ∧ r₀.isActive = r.isActive := by
  cases h with
  | update lost =>
      rcases (Table.mem_update (advanced_id _ _)).mp hr with ⟨hmem, -⟩ | ⟨r₀, hr₀, -, rfl⟩
      · exact ⟨r, hmem, rfl, rfl⟩
      · exact ⟨r₀, hr₀, rfl, rfl⟩
  | fetch | trigger | throws | onTrigger | triggered | fail => exact ⟨r, hr, rfl, rfl⟩

theorem fired_tickStep (h : Cron.TickStep next table t a p) {f : Firing} (hf : f ∈ p.2.2) :
    f.schedule ∈ pending t.pc := by
  cases h with
  | onTrigger =>
      obtain rfl := List.mem_singleton.mp hf
      exact List.mem_cons_self
  | fetch | trigger | throws | update | triggered | fail => exact absurd hf List.not_mem_nil

end Ticks

/-! ## Steps -/

variable (next firstRow) in
theorem resume_eq (s : CronRoutes) (id organizationId : String) (now : Time) :
    ∃ resumes, s.resume next firstRow id organizationId now = { s with resumes := resumes } := by
  unfold CronRoutes.resume
  split
  · split
    · exact ⟨_, rfl⟩
    · exact ⟨s.resumes, rfl⟩
  · exact ⟨s.resumes, rfl⟩

theorem offRests_init (t : ScheduleTable) : OffRests (init t) where
  notHeld _ hoff := absurd hoff List.not_mem_nil
  inactive _ _ hoff := absurd hoff List.not_mem_nil

theorem OffRests.noneCreatedOff (h : OffRests s) : s.NoneCreatedOff next firstRow e := by
  intro s' hs
  have hnone : s'.jobs = s.jobs → ∃ new, s'.jobs = s.jobs ++ new ∧
      ∀ f ∈ new, f.schedule.id ∉ s.off :=
    fun hj => ⟨[], by rw [hj, List.append_nil], fun _ hf => absurd hf List.not_mem_nil⟩
  cases e with
  | tick now =>
      obtain rfl := Option.some.inj hs
      exact hnone rfl
  | act run a inserted =>
      obtain ⟨cron, hc, rfl⟩ := Option.map_eq_some_iff.mp hs
      obtain ⟨t, p, ht, hp, rfl⟩ := Cron.step_act hc
      refine ⟨_, rfl, fun f hf hoff => ?_⟩
      split_ifs at hf
      · rw [List.drop_left] at hf
        exact h.notHeld _ hoff
          ⟨t, List.mem_of_getElem? ht, f.schedule, fired_tickStep hp hf, rfl⟩
      · exact List.not_mem_nil hf
  | pause id organizationId now =>
      obtain rfl := Option.some.inj hs
      exact hnone rfl
  | delete id organizationId =>
      obtain rfl := Option.some.inj hs
      exact hnone rfl
  | resume id organizationId now =>
      obtain rfl := Option.some.inj hs
      obtain ⟨resumes, hr⟩ := resume_eq next firstRow s id organizationId now
      exact hnone (by rw [hr])
  | resumed request now =>
      obtain ⟨r, -, rfl⟩ := Option.map_eq_some_iff.mp hs
      exact hnone rfl

/-- **A statement that turns a schedule off**: no run holds it, and the other rows keep their
`is_active`. -/
theorem OffRests.turnOff (h : OffRests s) {id organizationId : String}
    (hn : (∃ r ∈ s.cron.schedules, Schedules.Matches id organizationId r) → ¬ s.Holding id)
    {t : ScheduleTable}
    (ht : ∀ r ∈ t, r ∈ s.cron.schedules ∧ ¬ Schedules.Matches id organizationId r ∨
      r.isActive = false) :
    OffRests { s.setSchedules t with off := s.turnOff id organizationId } where
  notHeld id' hoff := by
    unfold CronRoutes.turnOff at hoff
    split_ifs at hoff with hex
    · rcases List.mem_cons.mp hoff with rfl | hoff
      · exact hn hex
      · exact h.notHeld id' hoff
    · exact h.notHeld id' hoff
  inactive r hr hoff := by
    rcases ht r hr with ⟨hmem, hne⟩ | hr
    · unfold CronRoutes.turnOff at hoff
      split_ifs at hoff with hex
      · rcases List.mem_cons.mp hoff with hid | hoff
        · obtain ⟨q, hq, hqid, hqorg⟩ := hex
          obtain rfl : q = r := Table.key_inj hq hmem (hqid.trans hid.symm)
          exact absurd ⟨hqid, hqorg⟩ hne
        · exact h.inactive r hmem hoff
      · exact h.inactive r hmem hoff
    · exact hr

theorem mem_pause {t : ScheduleTable} {id organizationId : String} {now : Time} {r : Schedule}
    (hr : r ∈ Schedules.pause t id organizationId now) :
    r ∈ t ∧ ¬ Schedules.Matches id organizationId r ∨ r.isActive = false := by
  obtain ⟨r₀, hr₀, rfl⟩ := Table.mem_updateWhere.mp hr
  split_ifs with hm
  · exact .inr rfl
  · exact .inl ⟨hr₀, fun h => hm (decide_eq_true h)⟩

theorem mem_delete {t : ScheduleTable} {id organizationId : String} {r : Schedule}
    (hr : r ∈ Schedules.delete t id organizationId) :
    r ∈ t ∧ ¬ Schedules.Matches id organizationId r := by
  obtain ⟨hmem, hm⟩ := Table.mem_filter.mp hr
  exact ⟨hmem, of_decide_eq_true hm⟩

theorem mem_resume {t : ScheduleTable} {id : String} {now nextTrigger : Time} {r : Schedule}
    (hr : r ∈ Schedules.resume t id now nextTrigger) : r ∈ t ∨ r.id = id ∧ (t.find? id).isSome := by
  unfold Schedules.resume at hr
  rcases (Table.mem_update _).mp hr with ⟨hmem, -⟩ | ⟨r₀, hr₀, hid, rfl⟩
  · exact .inl hmem
  · exact .inr ⟨hid, by rw [Table.find?_eq_some.mpr ⟨hr₀, hid⟩, Option.isSome_some]⟩

/-- **A run of `tick` goes on.** -/
theorem OffRests.act (h : OffRests s) {run : ℕ} {a : Cron.Action} {t : Tick}
    {p : Tick × ScheduleTable × List Firing} {jobs : List Firing} (ht : s.cron.ticks[run]? = some t)
    (hp : Cron.TickStep next s.cron.schedules t a p) :
    OffRests { s with
      cron := ⟨p.2.1, s.cron.ticks.set run p.1, s.cron.fired ++ p.2.2⟩
      jobs := jobs } where
  notHeld id hoff := by
    rintro ⟨t', ht', r, hr, rfl⟩
    rcases List.mem_or_eq_of_mem_set ht' with ht' | rfl
    · exact h.notHeld _ hoff ⟨t', ht', r, hr, rfl⟩
    · rcases pending_tickStep hp hr with hr | ⟨hr, hactive⟩
      · exact h.notHeld _ hoff ⟨t, List.mem_of_getElem? ht, r, hr, rfl⟩
      · rw [h.inactive r hr hoff] at hactive
        cases hactive
  inactive r hr hoff := by
    obtain ⟨r₀, hr₀, hid, hactive⟩ := active_tickStep hp hr
    rw [← hactive]
    exact h.inactive r₀ hr₀ (hid ▸ hoff)

/-- **A resume commits**: what it makes active is not off any more. -/
theorem OffRests.resumed (h : OffRests s) (q : Resume) (request : ℕ) (now : Time) :
    OffRests { s.setSchedules (Schedules.resume s.cron.schedules q.id now q.nextTrigger) with
      resumes := s.resumes.eraseIdx request
      off := if (s.cron.schedules.find? q.id).isSome then s.off.filter (· ≠ q.id) else s.off } where
  notHeld id hoff := by
    refine h.notHeld id ?_
    dsimp only at hoff
    split_ifs at hoff
    · exact (List.mem_filter.mp hoff).1
    · exact hoff
  inactive r hr hoff := by
    dsimp only at hoff
    rcases mem_resume hr with hmem | ⟨hid, hsome⟩
    · refine h.inactive r hmem ?_
      split_ifs at hoff
      · exact (List.mem_filter.mp hoff).1
      · exact hoff
    · rw [if_pos hsome] at hoff
      exact absurd hid (of_decide_eq_true (List.mem_filter.mp hoff).2)

theorem OffRests.resume (h : OffRests s) (id organizationId : String) (now : Time) :
    OffRests (s.resume next firstRow id organizationId now) := by
  obtain ⟨resumes, hr⟩ := resume_eq next firstRow s id organizationId now
  rw [hr]
  exact ⟨h.notHeld, h.inactive⟩

theorem offRests_step (h : OffRests s) (hn : s.NotHeld e)
    (hs : s.step next firstRow e = some s') : OffRests s' := by
  cases e with
  | tick now =>
      obtain rfl := Option.some.inj hs
      refine ⟨fun id hoff => ?_, h.inactive⟩
      rintro ⟨t, ht, r, hr, rfl⟩
      rcases List.mem_append.mp ht with ht | ht
      · exact h.notHeld _ hoff ⟨t, ht, r, hr, rfl⟩
      · obtain rfl := List.mem_singleton.mp ht
        exact List.not_mem_nil hr
  | act run a inserted =>
      obtain ⟨cron, hc, rfl⟩ := Option.map_eq_some_iff.mp hs
      obtain ⟨t, p, ht, hp, rfl⟩ := Cron.step_act hc
      exact h.act ht hp
  | pause id organizationId now =>
      obtain rfl := Option.some.inj hs
      exact h.turnOff hn fun r hr => mem_pause hr
  | delete id organizationId =>
      obtain rfl := Option.some.inj hs
      exact h.turnOff hn fun r hr => .inl (mem_delete hr)
  | resume id organizationId now =>
      obtain rfl := Option.some.inj hs
      exact h.resume id organizationId now
  | resumed request now =>
      obtain ⟨q, -, rfl⟩ := Option.map_eq_some_iff.mp hs
      exact h.resumed q request now

/-! ## What a run that holds a schedule can still do -/

section Held

variable {run : ℕ} {t : Tick} {r q : Schedule} {rest : List Schedule}

variable (next firstRow) in
/-- The run can go on, whatever is off by now, until it has created a job from the schedule. -/
def CanFire (run : ℕ) (s : CronRoutes) (r : Schedule) : Prop :=
  ∃ (as : List Cron.Action) (s' : CronRoutes) (new : List Firing),
    runEvents (step next firstRow) s (as.map fun a => .act run a true) = some s' ∧
      s'.off = s.off ∧ s'.jobs = s.jobs ++ new ∧ ∃ f ∈ new, f.schedule = r

theorem canFire_of_step {a : Cron.Action} {p : Tick × ScheduleTable × List Firing}
    (ht : s.cron.ticks[run]? = some t) (hp : Cron.stepTick next s.cron.schedules t a = some p)
    (h : (∃ f ∈ p.2.2, f.schedule = r) ∨
      ∀ s₁ : CronRoutes, s₁.cron.ticks[run]? = some p.1 → CanFire next firstRow run s₁ r) :
    CanFire next firstRow run s r := by
  obtain ⟨hlt, -⟩ := List.getElem?_eq_some_iff.mp ht
  let s₁ : CronRoutes := { s with
    cron := ⟨p.2.1, s.cron.ticks.set run p.1, s.cron.fired ++ p.2.2⟩
    jobs := s.jobs ++ p.2.2 }
  have hs : s.step next firstRow (.act run a true) = some s₁ := by
    simp only [step, Cron.step, ht, hp, Option.bind_some, Option.map_some, if_true,
      List.drop_left, s₁]
  rcases h with hf | h
  · exact ⟨[a], s₁, p.2.2, by simp only [List.map_cons, List.map_nil, runEvents, hs]; rfl, rfl,
      rfl, hf⟩
  · obtain ⟨as, s', new, hrun, hoff, hjobs, f, hf, hr⟩ := h s₁ (List.getElem?_set_self hlt)
    refine ⟨a :: as, s', p.2.2 ++ new, ?_, hoff, ?_, f, List.mem_append_right _ hf, hr⟩
    · simp only [List.map_cons, runEvents, hs]
      exact hrun
    · rw [hjobs, List.append_assoc]

theorem canFire_of_updated (ht : s.cron.ticks[run]? = some t) (hpc : t.pc = .updated q rest)
    (h : r = q ∨ ∀ (s₁ : CronRoutes) (t₁ : Tick), s₁.cron.ticks[run]? = some t₁ →
      t₁.pc = .looping rest → CanFire next firstRow run s₁ r) :
    CanFire next firstRow run s r := by
  obtain ⟨clock, pc⟩ := t
  subst hpc
  have hp : Cron.stepTick next s.cron.schedules ⟨clock, .updated q rest⟩ (.onTrigger clock) =
      some (⟨clock, .triggering rest⟩, s.cron.schedules, [⟨q, jobDto q clock⟩]) :=
    if_pos le_rfl
  refine canFire_of_step ht hp (h.imp (fun hr => ⟨_, List.mem_singleton_self _, hr.symm⟩) ?_)
  intro h s₁ ht₁
  exact canFire_of_step (a := .triggered) ht₁ rfl (.inr fun s₂ ht₂ => h s₂ _ ht₂ rfl)

theorem canFire_of_updating {now nextRun : Time} (ht : s.cron.ticks[run]? = some t)
    (hpc : t.pc = .updating q now nextRun rest)
    (h : r = q ∨ ∀ (s₁ : CronRoutes) (t₁ : Tick), s₁.cron.ticks[run]? = some t₁ →
      t₁.pc = .looping rest → CanFire next firstRow run s₁ r) :
    CanFire next firstRow run s r := by
  obtain ⟨clock, pc⟩ := t
  subst hpc
  exact canFire_of_step (a := .update false) ht rfl
    (.inr fun s₁ ht₁ => canFire_of_updated ht₁ rfl h)

theorem canFire_of_looping (hnext : ∀ expr tz now, (next expr tz now).isSome)
    (ht : s.cron.ticks[run]? = some t) (hpc : t.pc = .looping rest) (hr : r ∈ rest) :
    CanFire next firstRow run s r := by
  induction rest generalizing s t with
  | nil => exact absurd hr List.not_mem_nil
  | cons q rest ih =>
      obtain ⟨clock, pc⟩ := t
      subst hpc
      obtain ⟨nextRun, hn⟩ := Option.isSome_iff_exists.mp
        (hnext q.cronExpression q.timezone clock)
      have hp : Cron.stepTick next s.cron.schedules ⟨clock, .looping (q :: rest)⟩
          (.trigger clock) =
          some (⟨clock, .updating q clock nextRun rest⟩, s.cron.schedules, []) := by
        simp only [Cron.stepTick, le_refl, if_true, hn]
      refine canFire_of_step ht hp (.inr fun s₁ ht₁ => canFire_of_updating ht₁ rfl ?_)
      exact (List.mem_cons.mp hr).imp_right fun hr s₂ t₂ ht₂ hpc₂ => ih ht₂ hpc₂ hr

/-- **A run that holds a schedule** can still create a job from it, as long as the cron parser finds
dates, also when the schedule is off. -/
theorem canFire_of_holding (hnext : ∀ expr tz now, (next expr tz now).isSome) {id : String}
    (h : s.Holding id) : ∃ run r, r.id = id ∧ CanFire next firstRow run s r := by
  obtain ⟨t, ht, r, hr, hid⟩ := h
  obtain ⟨run, hrun⟩ := List.mem_iff_getElem?.mp ht
  refine ⟨run, r, hid, ?_⟩
  obtain ⟨clock, pc⟩ := t
  cases pc with
  | fetching | ended => exact absurd hr List.not_mem_nil
  | looping rest => exact canFire_of_looping hnext hrun rfl hr
  | triggering rest =>
      exact canFire_of_step (a := .triggered) hrun rfl
        (.inr fun s₁ ht₁ => canFire_of_looping hnext ht₁ rfl hr)
  | updating q now nextRun rest =>
      exact canFire_of_updating hrun rfl ((List.mem_cons.mp hr).imp_right
        fun hr s₁ t₁ ht₁ hpc => canFire_of_looping hnext ht₁ hpc hr)
  | updated q rest =>
      exact canFire_of_updated hrun rfl ((List.mem_cons.mp hr).imp_right
        fun hr s₁ t₁ ht₁ hpc => canFire_of_looping hnext ht₁ hpc hr)

end Held

theorem canFire_of_turnOff (hnext : ∀ expr tz now, (next expr tz now).isSome)
    {id organizationId : String} {t : ScheduleTable}
    (h : ¬ ((∃ r ∈ s.cron.schedules, Schedules.Matches id organizationId r) → ¬ s.Holding id)) :
    ∃ run r, r.id ∈ s.turnOff id organizationId ∧
      CanFire next firstRow run { s.setSchedules t with off := s.turnOff id organizationId } r := by
  obtain ⟨hex, hheld⟩ := Classical.not_imp.mp h
  have hheld' : Holding { s.setSchedules t with off := s.turnOff id organizationId } id :=
    not_not.mp hheld
  obtain ⟨run, r, rfl, hfire⟩ := canFire_of_holding hnext hheld'
  refine ⟨run, r, ?_, hfire⟩
  unfold CronRoutes.turnOff
  rw [if_pos hex]
  exact List.mem_cons_self

/-- **A pause or a delete of a schedule that a run holds**: a job can still be created from it. -/
theorem canFire_of_held (hnext : ∀ expr tz now, (next expr tz now).isSome)
    (hs : s.step next firstRow e = some s') (h : ¬ s.NotHeld e) :
    ∃ run r, r.id ∈ s'.off ∧ CanFire next firstRow run s' r := by
  cases e with
  | pause id organizationId now | delete id organizationId =>
      obtain rfl := Option.some.inj hs
      exact canFire_of_turnOff hnext h
  | tick | act | resume | resumed => exact absurd trivial h

/-- **A schedule that is off does not fire**, all along a run in which no run of `tick` holds a
schedule that is paused or deleted. From such a schedule a job can still be created, if the cron
parser finds dates. -/
theorem off_does_not_fire {t₀ : ScheduleTable} {es : List Event}
    (h : Run (step next firstRow) (stateGuard NotHeld) (init t₀) es s) :
    Run (step next firstRow) (stateGuard (NoneCreatedOff next firstRow)) (init t₀) es s ∧
      ((∀ expr tz now, (next expr tz now).isSome) → ∀ e s', s.step next firstRow e = some s' →
        ¬ s.NotHeld e → ∃ run r, r.id ∈ s'.off ∧ CanFire next firstRow run s' r) := by
  refine ⟨?_, fun hnext e s' hs hn => canFire_of_held hnext hs hn⟩
  suffices hboth : Run (step next firstRow) (stateGuard (NoneCreatedOff next firstRow)) (init t₀)
      es s ∧ OffRests s from hboth.1
  induction h with
  | nil => exact ⟨.nil, offRests_init t₀⟩
  | snoc _ hn hs ih =>
      obtain ⟨hrun, hoff⟩ := ih
      exact ⟨hrun.snoc hoff.noneCreatedOff hs, offRests_step hoff hn hs⟩

/-! ## A schedule that is paused -/

open Cron (everyMinute minutely oneSchedule)

/-- The schedule fires, and is paused when that run of `tick` has triggered it. A minute later the
query does not find it. -/
def pausedBetween : List Event :=
  [.tick 60000, .act 0 (.fetch [] [minutely]) true, .act 0 (.trigger 60001) true,
    .act 0 (.update false) true, .act 0 (.onTrigger 60002) true, .act 0 .triggered true,
    .pause "s" "org1" 70000, .tick 120000, .act 1 (.fetch [] []) true]

/-- The schedule is paused after a run of `tick` has fetched it. -/
def pausedAfterFetch : List Event :=
  [.tick 60000, .act 0 (.fetch [] [minutely]) true, .pause "s" "org1" 60001,
    .act 0 (.trigger 60002) true, .act 0 (.update false) true]

theorem pausedBetween_does_not_fire :
    (∃ s, Run (step everyMinute fun _ => none)
      (stateGuard (NoneCreatedOff everyMinute fun _ => none)) (init oneSchedule) pausedBetween s ∧
      s.off = ["s"] ∧ s.jobs.length = 1) ∧
    ∃ s, runEvents (step everyMinute fun _ => none) (init oneSchedule)
      (pausedAfterFetch.take 3) = some s ∧
      ∃ run r, r.id ∈ s.off ∧ CanFire everyMinute (fun _ => none) run s r := by
  constructor
  · obtain ⟨s, hs, hp⟩ := exists_run_of_check (step everyMinute fun _ => none) (stateGuard NotHeld)
      (init oneSchedule) pausedBetween (fun s => s.off = ["s"] ∧ s.jobs.length = 1) (by decide)
    exact ⟨s, (off_does_not_fire hs).1, of_decide_eq_true hp⟩
  · obtain ⟨s, hs, hp⟩ := exists_run_of_check (step everyMinute fun _ => none) (stateGuard NotHeld)
      (init oneSchedule) (pausedAfterFetch.take 2)
      (fun s => ¬ s.NotHeld (.pause "s" "org1" 60001)) (by decide)
    refine ⟨_, ?_, (off_does_not_fire hs).2 (fun _ _ _ => rfl) (.pause "s" "org1" 60001) _ rfl
      (of_decide_eq_true hp)⟩
    have happend : pausedAfterFetch.take 3 =
        pausedAfterFetch.take 2 ++ [.pause "s" "org1" 60001] := rfl
    rw [happend, runEvents_snoc, hs.runEvents_eq]
    rfl

/-- **The run goes on with the row that it has fetched**, and creates a job. -/
theorem pausedAfterFetch_fires : ∃ s,
    Run (step everyMinute fun _ => none) anyStep (init oneSchedule) pausedAfterFetch s ∧
      s.off = ["s"] ∧
      ¬ s.NoneCreatedOff everyMinute (fun _ => none) (.act 0 (.onTrigger 60003) true) := by
  obtain ⟨s, hs, hp⟩ := exists_run_of_check (step everyMinute fun _ => none) anyStep
    (init oneSchedule) pausedAfterFetch (fun s => s.off = ["s"] ∧ s.jobs = [] ∧
      (s.step everyMinute (fun _ => none) (.act 0 (.onTrigger 60003) true)).map
        CronRoutes.jobs = some [⟨minutely, jobDto minutely 60003⟩]) (by decide)
  obtain ⟨hoff, hjobs, hstep⟩ := of_decide_eq_true hp
  refine ⟨s, hs, hoff, fun hnone => ?_⟩
  obtain ⟨s', hs', hjobs'⟩ := Option.map_eq_some_iff.mp hstep
  obtain ⟨new, hnew, hall⟩ := hnone s' hs'
  rw [hjobs, hjobs', List.nil_append] at hnew
  subst hnew
  refine hall _ (List.mem_singleton_self _) ?_
  rw [hoff]
  exact List.mem_singleton_self _

end CronRoutes

end TaskOrchestration

import Mathlib.Logic.Relation
import TaskOrchestration.Cron.Model
import TaskOrchestration.Deps.Orders
import TaskOrchestration.System.Step

set_option autoImplicit false

/-!
# The creation of jobs

`createJob` looks for the row of each dependency, one after the other, and then submits the job. A
cron schedule submits a job without dependencies. There is no other way into the table, and no
operation writes to the `dependencies` column.

* `CreateJob`: where a call of `createJob` stands; `Intake`, `Event`, **`step`**: the system with
  these calls and the triggers of the cron scheduler;
* `WaitsOn`, `InsertedBefore`: who waits for whom, and which rows came first;
  `InsertedBefore.not_transGen`, `InsertedBefore.exists_not_waitsOn`: then nobody waits for himself;
* `Sound`, `sound_step`: what the calls under way have found out stays true;
* **`dependencies_acyclic`**; `two_jobs_acyclic`: a run of it.
-/

namespace TaskOrchestration

open LabelledRun Relation

/-! ## Rows that wait for each other -/

/-- The job `a` waits for the job `b`: its stored dependencies name it. -/
def WaitsOn (t : JobTable) (a b : JobId) : Prop := ∃ r ∈ t, r.id = a ∧ JobRepository.Names r b

/-- **Every dependency's row was inserted before** its dependent's. -/
def InsertedBefore (t : JobTable) : Prop :=
  ∀ (i : ℕ) (r : Job), t.rows[i]? = some r → ∀ d ∈ r.dependencies,
    ∃ (j : ℕ) (r' : Job), j < i ∧ t.rows[j]? = some r' ∧ r'.id = d.jobId

namespace InsertedBefore

variable {t : JobTable} {a b : JobId} {i j : ℕ}

theorem place_unique {r r' : Job} (hi : t.rows[i]? = some r) (hj : t.rows[j]? = some r')
    (hid : r.id = r'.id) : i = j := by
  have hi' : (t.rows.map Job.id)[i]? = some r.id := by rw [List.getElem?_map, hi, Option.map_some]
  have hj' : (t.rows.map Job.id)[j]? = some r.id := by
    rw [List.getElem?_map, hj, Option.map_some, hid]
  obtain ⟨hlt, -⟩ := List.getElem?_eq_some_iff.mp hi'
  exact (List.getElem?_inj hlt t.nodup).mp (hi'.trans hj'.symm)

theorem place_lt (h : InsertedBefore t) (hab : WaitsOn t a b) {r : Job} (hi : t.rows[i]? = some r)
    (hid : r.id = a) : ∃ (j : ℕ) (r' : Job), j < i ∧ t.rows[j]? = some r' ∧ r'.id = b := by
  obtain ⟨r₀, hmem, rfl, d, hd, rfl⟩ := hab
  obtain rfl := Table.key_inj (List.mem_of_getElem? hi) hmem hid
  exact h i r hi d hd

/-- **The relation is acyclic.** -/
theorem not_transGen (h : InsertedBefore t) (a : JobId) : ¬ TransGen (WaitsOn t) a a := by
  intro haa
  have hpath : ∀ b, TransGen (WaitsOn t) a b → ∀ (i : ℕ) (r : Job), t.rows[i]? = some r →
      r.id = a → ∃ (j : ℕ) (r' : Job), j < i ∧ t.rows[j]? = some r' ∧ r'.id = b := by
    intro b hab i r hi hid
    induction hab with
    | single hab => exact h.place_lt hab hi hid
    | tail _ hbc ih =>
        obtain ⟨j, r', hj, hr', hid'⟩ := ih
        obtain ⟨k, r'', hk, hr'', hid''⟩ := h.place_lt hbc hr' hid'
        exact ⟨k, r'', hk.trans hj, hr'', hid''⟩
  obtain ⟨b, ⟨r, hmem, hid, -⟩, -⟩ := TransGen.head'_iff.mp haa
  obtain ⟨i, hi⟩ := List.mem_iff_getElem?.mp hmem
  obtain ⟨j, r', hlt, hj, hid'⟩ := hpath a haa i r hi hid
  exact absurd (place_unique hj hi (hid'.trans hid.symm)) hlt.ne

/-- **No set of jobs waits for itself**: one of its jobs waits for none of the set. -/
theorem exists_not_waitsOn (h : InsertedBefore t) {S : Set JobId} (hS : S.Nonempty) :
    ∃ a ∈ S, ∀ b ∈ S, ¬ WaitsOn t a b := by
  by_contra hall
  push Not at hall
  -- the places of the jobs of the set have no least one
  have hplace : ∀ (i : ℕ) (r : Job), t.rows[i]? = some r → r.id ∉ S := by
    intro i
    induction i using Nat.strong_induction_on with
    | _ i ih =>
        intro r hi hr
        obtain ⟨b, hb, hwaits⟩ := hall r.id hr
        obtain ⟨j, r', hlt, hj, rfl⟩ := h.place_lt hwaits hi rfl
        exact ih j hlt r' hj hb
  obtain ⟨a, ha⟩ := hS
  obtain ⟨b, -, r, hmem, rfl, -⟩ := hall a ha
  obtain ⟨i, hi⟩ := List.mem_iff_getElem?.mp hmem
  exact hplace i r hi ha

/-- **A call** keeps the order of insertion, if the dependencies of a new job are in the table. -/
theorem exec {st st' : Store} {now : Time} {locked : List JobId} {c : Call} {reply : Reply}
    (h : InsertedBefore st.jobs) (hx : st.exec now locked c = some (st', reply))
    (hc : ∀ id dto, c = .create id dto →
      ∀ dep ∈ dto.dependencies.getD [], (st.jobs.find? dep.jobId).isSome) :
    InsertedBefore st'.jobs := by
  obtain ⟨f, new, hrows, hf, hnew⟩ := Store.exec_rows hx
  have hold : ∀ (j : ℕ) (r : Job), st.jobs.rows[j]? = some r → st'.jobs.rows[j]? = some (f r) := by
    intro j r hj
    rw [hrows]
    exact getElem?_append_of_some (by rw [List.getElem?_map, hj, Option.map_some]) _
  intro i r hi d hd
  rw [hrows] at hi
  rcases Nat.lt_or_ge i st.jobs.rows.length with hlt | hge
  · -- the row was there
    rw [List.getElem?_append_left (by rwa [List.length_map]), List.getElem?_map] at hi
    obtain ⟨r₀, hi₀, rfl⟩ := Option.map_eq_some_iff.mp hi
    rw [(hf r₀).2] at hd
    obtain ⟨j, r', hj, hr', hid⟩ := h i r₀ hi₀ d hd
    exact ⟨j, f r', hj, hold j r' hr', (hf r').1.trans hid⟩
  · -- the row is new
    rw [List.getElem?_append_right (by rwa [List.length_map])] at hi
    rcases hnew with rfl | ⟨id, dto, rfl, rfl⟩
    · cases hi
    · obtain rfl : r = JobRepository.newRow id now dto :=
        List.mem_singleton.mp (List.mem_of_getElem? hi)
      obtain ⟨r', hr'⟩ := Option.isSome_iff_exists.mp (hc id dto rfl d hd)
      obtain ⟨hmem, hid⟩ := Table.find?_eq_some.mp hr'
      obtain ⟨j, hj⟩ := List.mem_iff_getElem?.mp hmem
      obtain ⟨hjlt, -⟩ := List.getElem?_eq_some_iff.mp hj
      exact ⟨j, f r', hjlt.trans_le hge, hold j r' hj, (hf r').1.trans hid⟩

end InsertedBefore

/-! ## The calls of `createJob` -/

/-- **Where a call of `createJob` stands**: it has still to look for the rows of `rest`. -/
inductive CreateJob
  | checking (process : ℕ) (dto : CreateJobDto) (rest : List JobDependency)
  | done
  deriving DecidableEq, Repr

/-- The system with the calls of `createJob`. -/
structure Intake where
  sys : Sys
  creations : List CreateJob

namespace Intake

/-- The system makes a step of its own; a call of `createJob` begins, looks for its next
dependency, submits its job, or ends with its process; or a cron schedule is triggered. -/
inductive Event
  | system (e : TaskOrchestration.Event)
  | createJob (process : ℕ) (dto : CreateJobDto)
  | check (creation : ℕ) (outcome : Outcome)
  | submit (creation : ℕ) (id : JobId)
  | trigger (process : ℕ) (id : JobId) (schedule : Schedule) (now : Time)
  | stop (creation : ℕ)
  deriving DecidableEq, Repr

def init : Intake := ⟨.init, []⟩

def setCreation (d : Intake) (creation : ℕ) (c : CreateJob) : Intake :=
  { d with creations := d.creations.set creation c }

def IsSubmission : TaskOrchestration.Event → Prop
  | .start (.submitJob _ _ _) => True
  | _ => False

instance : DecidablePred IsSubmission := fun e => by
  unfold IsSubmission
  split <;> infer_instance

variable (cfg : Config) (cronError : String → String → Option String)

def submitJob (d : Intake) (process : ℕ) (id : JobId) (dto : CreateJobDto) : Option Intake :=
  (d.sys.step cfg (.start (.submitJob process id dto))).map fun s => { d with sys := s }

/-- **One step.** Only `createJob` and the cron scheduler submit jobs. -/
def step (d : Intake) : Event → Option Intake
  | .system e =>
      if IsSubmission e then none else (d.sys.step cfg e).map fun s => { d with sys := s }
  | .createJob process dto => some { d with
      creations := d.creations ++ [
        if (Scheduler.checkCron cronError dto).isSome then .done
        else .checking process dto (dto.dependencies.getD [])] }
  | .check creation outcome =>
      match d.creations[creation]? with
      | some (.checking process dto (dep :: rest)) => some (d.setCreation creation
          (if outcome = .ok ∧ (JobRepository.findById d.sys.store.jobs dep.jobId).isSome then
            .checking process dto rest
          else .done))
      | _ => none
  | .submit creation id =>
      match d.creations[creation]? with
      | some (.checking process dto []) =>
          (d.setCreation creation .done).submitJob cfg process id dto
      | _ => none
  | .trigger process id schedule now =>
      d.submitJob cfg process id (CronScheduler.jobDto schedule now)
  | .stop creation =>
      match d.creations[creation]? with
      | some _ => some (d.setCreation creation .done)
      | none => none

/-! ## What the calls under way have found out -/

variable {cfg : Config} {cronError : String → String → Option String} {d d' : Intake} {e : Event}

/-- The jobs of the dependencies have rows. -/
def AllFound (t : JobTable) (deps : List JobDependency) : Prop :=
  ∀ dep ∈ deps, (t.find? dep.jobId).isSome

/-- **The invariant**: the rows are in order, a submission under way has dependencies that have
rows, and so have those that a call of `createJob` has looked for. -/
structure Sound (d : Intake) : Prop where
  tidy : d.sys.Tidy
  ordered : InsertedBefore d.sys.store.jobs
  submitting : ∀ process id dto, Op.submitJob process id dto ∈ d.sys.ops →
    AllFound d.sys.store.jobs (dto.dependencies.getD [])
  checked : ∀ process dto rest, CreateJob.checking process dto rest ∈ d.creations →
    ∃ found, dto.dependencies.getD [] = found ++ rest ∧ AllFound d.sys.store.jobs found

theorem sound_init : Sound init where
  tidy := Sys.tidy_init
  ordered i r hi := by cases hi
  submitting _ _ _ hmem := absurd hmem List.not_mem_nil
  checked _ _ _ hmem := absurd hmem List.not_mem_nil

theorem AllFound.step {s s' : Sys} {e : TaskOrchestration.Event} {deps : List JobDependency}
    (h : AllFound s.store.jobs deps) (hs : s.step cfg e = some s') :
    AllFound s'.store.jobs deps := by
  intro dep hdep
  obtain ⟨r, hr⟩ := Option.isSome_iff_exists.mp (h dep hdep)
  obtain ⟨r', hr', -⟩ := Sys.step_status hs hr
  exact Option.isSome_iff_exists.mpr ⟨r', hr'⟩

theorem submitJob_of_create {op : Op} (ht : op.tidy = true) {second : Bool} {id : JobId}
    {dto : CreateJobDto} (hc : op.pending cfg second = some (.create id dto)) :
    ∃ process, op = .submitJob process id dto := by
  unfold Op.pending at hc
  split at hc
  case h_1 =>
    unfold ProcessPc.call at hc
    split at hc <;> cases hc
  case h_14 process _ _ =>
    cases hc
    exact ⟨process, rfl⟩
  case h_15 =>
    cases hc
    exact absurd ht Bool.false_ne_true
  all_goals cases hc

theorem submitJob_of_produces {s : Sys} {e : TaskOrchestration.Event} {process : ℕ} {id : JobId}
    {dto : CreateJobDto} (h : s.Produces cfg (.submitJob process id dto) e) :
    e = .start (.submitJob process id dto) := by
  cases e with
  | start op => exact congrArg _ h.2.symm
  | call run second now outcome locked =>
      obtain ⟨op, c, -, -, ⟨st, reply, -, -, hop⟩ | ⟨-, hop⟩⟩ := h
      · cases Op.leads_of_resume hop
      · cases Op.leaves_of_abort hop
  | pickUp =>
      obtain ⟨data, hop⟩ := h
      cases hop
  | execute | executed | executeRejected =>
      obtain ⟨_, _, _, _, _, _, -, hop⟩ := h
      cases hop
  | settle | crash => cases h
  | stall | promote | evict | restart => exact h.elim

/-- **A step of the system**, which may start a submission whose dependencies have rows. -/
theorem Sound.sysStep (h : Sound d) {s : Sys} {e : TaskOrchestration.Event}
    (hs : d.sys.step cfg e = some s)
    (he : ∀ process id dto, e = .start (.submitJob process id dto) →
      AllFound d.sys.store.jobs (dto.dependencies.getD [])) : Sound { d with sys := s } where
  tidy := Sys.tidy_step h.tidy hs
  ordered := by
    rcases Sys.step_jobs hs with hj | ⟨_, _, _, _, _, op, c, st, reply, -, hop, hc, -, hx, hst⟩
    · exact hj ▸ h.ordered
    · have hmem := List.mem_of_getElem? hop
      refine hst ▸ h.ordered.exec hx fun id dto hcreate => ?_
      subst hcreate
      obtain ⟨process, rfl⟩ := submitJob_of_create (h.tidy op hmem) hc
      exact h.submitting process id dto hmem
  submitting process id dto hmem := by
    refine AllFound.step ?_ hs
    rcases Sys.mem_ops_step hs hmem with hold | hnew
    · exact h.submitting process id dto hold
    · exact he process id dto (submitJob_of_produces hnew)
  checked process dto rest hmem := by
    obtain ⟨found, heq, hfound⟩ := h.checked process dto rest hmem
    exact ⟨found, heq, hfound.step hs⟩

/-- **A call of `createJob` moves on** or begins. -/
theorem Sound.creations (h : Sound d) {creations : List CreateJob} {c : CreateJob}
    (hcs : ∀ c' ∈ creations, c' ∈ d.creations ∨ c' = c)
    (hc : ∀ process dto rest, c = .checking process dto rest →
      ∃ found, dto.dependencies.getD [] = found ++ rest ∧ AllFound d.sys.store.jobs found) :
    Sound { d with creations := creations } where
  tidy := h.tidy
  ordered := h.ordered
  submitting := h.submitting
  checked process dto rest hmem := by
    rcases hcs _ hmem with hold | hnew
    · exact h.checked process dto rest hold
    · exact hc process dto rest hnew.symm

theorem Sound.setCreation (h : Sound d) (creation : ℕ) {c : CreateJob}
    (hc : ∀ process dto rest, c = .checking process dto rest →
      ∃ found, dto.dependencies.getD [] = found ++ rest ∧ AllFound d.sys.store.jobs found) :
    Sound (d.setCreation creation c) :=
  h.creations (fun _ hmem => List.mem_or_eq_of_mem_set hmem) hc

theorem Sound.setDone (h : Sound d) (creation : ℕ) : Sound (d.setCreation creation .done) :=
  h.setCreation creation fun _ _ _ heq => CreateJob.noConfusion heq

theorem Sound.check (h : Sound d) {creation : ℕ} {outcome : Outcome}
    (hs : d.step cfg cronError (.check creation outcome) = some d') : Sound d' := by
  rw [step] at hs
  split at hs
  case h_1 process dto dep rest hget =>
    obtain rfl := Option.some.inj hs
    refine h.setCreation creation fun process' dto' rest' heq => ?_
    split_ifs at heq with hfound
    cases heq
    obtain ⟨found, hdeps, hall⟩ := h.checked _ _ _ (List.mem_of_getElem? hget)
    refine ⟨found ++ [dep], by rw [hdeps, List.append_assoc]; rfl, ?_⟩
    intro dep' hdep'
    rcases List.mem_append.mp hdep' with hdep' | hdep'
    · exact hall dep' hdep'
    · rw [List.mem_singleton.mp hdep']
      exact hfound.2
  case h_2 => cases hs

theorem Sound.submit (h : Sound d) {creation : ℕ} {id : JobId}
    (hs : d.step cfg cronError (.submit creation id) = some d') : Sound d' := by
  rw [step] at hs
  split at hs
  case h_1 process dto hget =>
    obtain ⟨s, hs₀, rfl⟩ := Option.map_eq_some_iff.mp hs
    obtain ⟨found, hdeps, hall⟩ := h.checked _ _ _ (List.mem_of_getElem? hget)
    refine (h.setDone creation).sysStep hs₀ fun process' id' dto' hstart => ?_
    cases hstart
    rw [hdeps, List.append_nil]
    exact hall
  case h_2 => cases hs

theorem sound_step (h : Sound d) (hs : d.step cfg cronError e = some d') : Sound d' := by
  cases e with
  | system e =>
      rw [step] at hs
      split_ifs at hs with he
      obtain ⟨s, hs₀, rfl⟩ := Option.map_eq_some_iff.mp hs
      refine h.sysStep hs₀ fun process id dto hstart => ?_
      subst hstart
      exact absurd trivial he
  | createJob process dto =>
      obtain rfl := Option.some.inj hs
      refine h.creations
        (fun _ hmem => (List.mem_append.mp hmem).imp_right List.mem_singleton.mp) ?_
      intro process' dto' rest heq
      split_ifs at heq
      cases heq
      exact ⟨[], rfl, fun dep hdep => absurd hdep List.not_mem_nil⟩
  | check creation outcome => exact h.check hs
  | submit creation id => exact h.submit hs
  | trigger process id schedule now =>
      rw [step, submitJob] at hs
      obtain ⟨s, hs₀, rfl⟩ := Option.map_eq_some_iff.mp hs
      refine h.sysStep hs₀ fun process' id' dto' hstart => ?_
      cases hstart
      exact fun dep hdep => absurd hdep List.not_mem_nil
  | stop creation =>
      rw [step] at hs
      split at hs
      · obtain rfl := Option.some.inj hs
        exact h.setDone creation
      · cases hs

/-- **The dependency relation is acyclic** in every reachable state: every dependency's row was
inserted before its dependent's, and no set of jobs waits for itself. -/
theorem dependencies_acyclic {es : List Event} (h : Run (step cfg cronError) anyStep init es d) :
    (∀ a, ¬ TransGen (WaitsOn d.sys.store.jobs) a a) ∧ InsertedBefore d.sys.store.jobs ∧
      ∀ S : Set JobId, S.Nonempty → ∃ a ∈ S, ∀ b ∈ S, ¬ WaitsOn d.sys.store.jobs a b := by
  have hsound : Sound d := h.stable sound_init fun _ _ _ _ hi _ hs => sound_step hi hs
  exact ⟨hsound.ordered.not_transGen, hsound.ordered,
    fun S hS => hsound.ordered.exists_not_waitsOn hS⟩

/-- `a` is created, then `b`, which waits for `a`. -/
def dependentDto : CreateJobDto :=
  { Sys.simpleDto with dependencies := some [⟨"a", [.completed]⟩] }

def twoJobs : List Event :=
  [.createJob 0 Sys.simpleDto, .submit 0 "a", .system (.call 0 false 1 .ok []),
    .createJob 0 dependentDto, .check 1 .ok, .submit 1 "b", .system (.call 1 false 2 .ok [])]

theorem two_jobs_acyclic : ∃ d, runEvents (step {} fun _ _ => none) init twoJobs = some d ∧
    WaitsOn d.sys.store.jobs "b" "a" ∧ ¬ TransGen (WaitsOn d.sys.store.jobs) "b" "b" := by
  obtain ⟨d, hd, hp⟩ := exists_run_of_check (step {} fun _ _ => none) anyStep init twoJobs
    (fun d => ∃ r ∈ d.sys.store.jobs.rows, r.id = "b" ∧
      r.dependencies = [⟨"a", [.completed]⟩]) (by decide)
  obtain ⟨r, hr, hid, hdeps⟩ := of_decide_eq_true hp
  refine ⟨d, hd.runEvents_eq, ⟨r, hr, hid, ?_⟩, (dependencies_acyclic hd).1 "b"⟩
  exact ⟨_, by rw [hdeps]; exact List.mem_singleton.mpr rfl, rfl⟩

end Intake

end TaskOrchestration

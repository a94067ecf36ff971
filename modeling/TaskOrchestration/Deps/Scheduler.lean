import TaskOrchestration.Lib.Run
import TaskOrchestration.Job.Repository
import TaskOrchestration.Deps.Resolver

set_option autoImplicit false

/-!
# Dependency resolution in one scheduler process

The `jobs` table together with the graph of one `JobScheduler`, and the operations that decide
when a waiting job may be claimed.

* `submitJob`, `onJobCompleted`; `find?_onJobCompleted`: what a completion does to a row;
* `Event`, `step`: the process as a labelled step function;
* `reports`, `Satisfied`, `satisfiedCount`: the completions reported so far, and how many entries
  of a job they satisfy; `satisfiedCount_snoc`: one more report.
-/

namespace TaskOrchestration

open JobRepository DependencyResolver

/-- The table, and the graph of the process that uses it. -/
structure Scheduler where
  jobs : JobTable
  graph : Graph

namespace Scheduler

def init : Scheduler := ⟨Table.empty, emptyGraph⟩

/-- `submitJob`: insert the row, then register the job in the graph. -/
def submitJob (s : Scheduler) (id : JobId) (now : Time) (dto : CreateJobDto) :
    Option (Scheduler × Job) :=
  (create s.jobs id now dto).map fun p => (⟨p.1, register s.graph p.2⟩, p.2)

/-- `onJobCompleted`: one call of `resolveDependency(jobId)` for every id that the resolver
unblocked. The row read at the end only feeds metrics. -/
def onJobCompleted (s : Scheduler) (now : Time) (jobId : JobId) (status : JobStatus) :
    Scheduler where
  jobs := resolveTimes s.jobs now jobId (unblocked s.graph jobId status).length
  graph := (onJobStateChange s.graph jobId status).1

inductive Event
  | submitJob (id : JobId) (now : Time) (dto : CreateJobDto)
  | onJobCompleted (now : Time) (jobId : JobId) (status : JobStatus)
  | claimPendingJobs (now : Time) (limit : ℕ) (locked : List JobId)
  deriving DecidableEq, Repr

def step (s : Scheduler) : Event → Option Scheduler
  | .submitJob id now dto => (s.submitJob id now dto).map (·.1)
  | .onJobCompleted now jobId status => some (s.onJobCompleted now jobId status)
  | .claimPendingJobs now limit locked =>
      some { s with jobs := (claimPendingJobs s.jobs now limit locked).1 }

/-- **A row after a completion**: a `PENDING` row that names the job is raised once for every
unblocked id. -/
theorem find?_onJobCompleted (s : Scheduler) (now : Time) (jobId : JobId) (status : JobStatus)
    (k : JobId) : (s.onJobCompleted now jobId status).jobs.find? k = (s.jobs.find? k).map fun r =>
      if Names r jobId ∧ r.status = .pending then
        (resolved now)^[(unblocked s.graph jobId status).length] r
      else r :=
  find?_resolveTimes _ _ _ _ _

theorem mem_onJobCompleted {s : Scheduler} {now : Time} {jobId : JobId} {status : JobStatus}
    {r : Job} (h : r ∈ (s.onJobCompleted now jobId status).jobs) :
    ∃ r₀ ∈ s.jobs, (Names r₀ jobId ∧ r₀.status = .pending ∧
        r = (resolved now)^[(unblocked s.graph jobId status).length] r₀) ∨
      (¬ (Names r₀ jobId ∧ r₀.status = .pending) ∧ r = r₀) := by
  rw [Table.mem_iff_find?, find?_onJobCompleted] at h
  obtain ⟨r₀, h₀, hr⟩ := Option.map_eq_some_iff.mp h
  refine ⟨r₀, Table.mem_of_find? h₀, ?_⟩
  split_ifs at hr with hc
  · exact .inl ⟨hc.1, hc.2, hr.symm⟩
  · exact .inr ⟨hc, hr.symm⟩

theorem mem_submitJob {s s' : Scheduler} {id : JobId} {now : Time} {dto : CreateJobDto} {job : Job}
    (h : s.submitJob id now dto = some (s', job)) (r : Job) :
    r ∈ s'.jobs ↔ r ∈ s.jobs ∨ r = newRow id now dto := by
  obtain ⟨⟨t, j⟩, hc, he⟩ := Option.map_eq_some_iff.mp h
  obtain ⟨rfl, rfl⟩ := Prod.mk.inj he
  obtain ⟨rfl, -⟩ := create_eq hc
  exact mem_create hc r

theorem mem_claim {t : JobTable} {now : Time} {limit : ℕ} {locked : List JobId} {r : Job}
    (h : r ∈ (claimPendingJobs t now limit locked).1) :
    r ∈ t ∨ ∃ r₀ ∈ t, r = claimed now r₀ := by
  rcases find?_claimPendingJobs (Table.mem_iff_find?.mp h) with h | ⟨r₀, h₀, -, rfl, -⟩
  · exact .inl (Table.mem_of_find? h)
  · exact .inr ⟨r₀, Table.mem_of_find? h₀, rfl⟩

def plainDto (deps : List JobDependency) : CreateJobDto where
  name := "job"
  type := .custom
  payload := []
  dependencies := some deps
  organizationId := "org1"
  createdBy := "user1"

/-! ## Reports -/

/-- The completions reported by a list of events, in order. -/
def reports (es : List Event) : List (JobId × JobStatus) :=
  es.filterMap fun
    | .onJobCompleted _ jobId status => some (jobId, status)
    | _ => none

/-- Some status that the dependency asks for has been reported for its job. -/
def Satisfied (es : List Event) (d : JobDependency) : Prop :=
  ∃ status ∈ d.requireStatus, (d.jobId, status) ∈ reports es

instance (es : List Event) : DecidablePred (Satisfied es) := fun d => by
  unfold Satisfied; infer_instance

def satisfiedCount (es : List Event) (r : Job) : ℕ := r.dependencies.countP (Satisfied es ·)

/-- How many entries of a job a report is the first to satisfy. -/
def newlySatisfied (es : List Event) (jobId : JobId) (status : JobStatus) (r : Job) : ℕ :=
  r.dependencies.countP fun d =>
    d.jobId = jobId ∧ status ∈ d.requireStatus ∧ ¬ Satisfied es d

theorem satisfied_snoc (es : List Event) (now : Time) (jobId : JobId) (status : JobStatus)
    (d : JobDependency) : Satisfied (es ++ [.onJobCompleted now jobId status]) d ↔
      Satisfied es d ∨ (d.jobId = jobId ∧ status ∈ d.requireStatus) := by
  have hr : reports (es ++ [.onJobCompleted now jobId status]) =
      reports es ++ [(jobId, status)] := by
    simp [reports, List.filterMap_append]
  simp only [Satisfied, hr, List.mem_append, List.mem_singleton, Prod.mk.injEq]
  constructor
  · rintro ⟨st, hst, h | ⟨hj, rfl⟩⟩
    · exact .inl ⟨st, hst, h⟩
    · exact .inr ⟨hj, hst⟩
  · rintro (⟨st, hst, h⟩ | ⟨hj, hst⟩)
    · exact ⟨st, hst, .inl h⟩
    · exact ⟨status, hst, .inr ⟨hj, rfl⟩⟩

theorem countP_or_not {α : Type} (l : List α) (p q : α → Bool) :
    l.countP (fun a => p a || q a) = l.countP p + l.countP fun a => q a && !p a := by
  induction l with
  | nil => rfl
  | cons a l ih =>
      simp only [List.countP_cons, ih]
      cases p a <;> cases q a <;> simp <;> omega

/-- **One more report** satisfies the entries it is the first to satisfy. -/
theorem satisfiedCount_snoc (es : List Event) (now : Time) (jobId : JobId) (status : JobStatus)
    (r : Job) : satisfiedCount (es ++ [.onJobCompleted now jobId status]) r =
      satisfiedCount es r + newlySatisfied es jobId status r := by
  have h := countP_or_not r.dependencies (fun d => decide (Satisfied es d))
    fun d => decide (d.jobId = jobId ∧ status ∈ d.requireStatus)
  unfold satisfiedCount newlySatisfied
  convert h using 2
  · funext d
    rw [decide_eq_decide.mpr (satisfied_snoc es now jobId status d), Bool.decide_or]
  · congr 1
    funext d
    rw [← decide_not, ← Bool.decide_and]
    exact decide_eq_decide.mpr and_assoc.symm

theorem satisfiedCount_snoc_of_reports {es : List Event} {e : Event} (h : reports [e] = [])
    (r : Job) : satisfiedCount (es ++ [e]) r = satisfiedCount es r := by
  have hr : reports (es ++ [e]) = reports es := by
    rw [reports, List.filterMap_append]
    exact (congrArg (reports es ++ ·) h).trans (List.append_nil _)
  simp only [satisfiedCount, Satisfied, hr]

theorem newlySatisfied_of_not_names {es : List Event} {jobId : JobId} {status : JobStatus}
    {r : Job} (h : ¬ Names r jobId) : newlySatisfied es jobId status r = 0 := by
  rw [newlySatisfied, List.countP_eq_zero]
  intro d hd hc
  exact h ⟨d, hd, (of_decide_eq_true hc).1⟩

theorem satisfiedCount_eq_length (es : List Event) (r : Job) :
    satisfiedCount es r = r.dependencies.length ↔ ∀ d ∈ r.dependencies, Satisfied es d := by
  rw [satisfiedCount, List.countP_eq_length]
  simp only [decide_eq_true_eq]

theorem satisfiedCount_le_length (es : List Event) (r : Job) :
    satisfiedCount es r ≤ r.dependencies.length := List.countP_le_length

/-! ## The stored number of dependencies -/

/-- The stored number of dependencies is the length of the stored list. -/
def Counted (s : Scheduler) : Prop := ∀ r ∈ s.jobs, r.dependencyCount = r.dependencies.length

theorem counted_init : Counted init := fun r hr => absurd hr (Table.not_mem_empty r)

theorem counted_step {s s' : Scheduler} {e : Event} (h : Counted s) (hs : s.step e = some s') :
    Counted s' := by
  intro r hr
  cases e with
  | submitJob id now dto =>
      obtain ⟨⟨s₁, job⟩, hj, rfl⟩ := Option.map_eq_some_iff.mp hs
      rcases (mem_submitJob hj r).mp hr with hr | rfl
      · exact h r hr
      · rfl
  | onJobCompleted now jobId status =>
      obtain rfl := Option.some.inj hs
      obtain ⟨r₀, h₀, ⟨-, -, rfl⟩ | ⟨-, rfl⟩⟩ := mem_onJobCompleted hr
      · rw [iterate_resolved]
        exact h r₀ h₀
      · exact h r h₀
  | claimPendingJobs now limit locked =>
      obtain rfl := Option.some.inj hs
      rcases mem_claim hr with hr | ⟨r₀, h₀, rfl⟩
      · exact h r hr
      · exact h r₀ h₀

end Scheduler

end TaskOrchestration

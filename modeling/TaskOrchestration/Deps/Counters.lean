import TaskOrchestration.Deps.Release
import TaskOrchestration.Deps.Scheduler

set_option autoImplicit false

/-!
# The dependency counters over whole runs

A completion calls `resolveDependency(jobId)` once for every job the resolver unblocked, and each
call raises every `PENDING` row that names the completed job. The counter of a row is therefore
right as long as a report releases one job, and is news to every row that it raises.

* `Admissible`, `InStep`: the calls, and how the graph and the table go together;
* `CountsAs`, `CounterInv`, `counterInv_step`: what a report does to the counters;
* `FirstMet`, `ReleasesOne`, `ReleasesExactly`: the two conditions on a report, on the graph that
  it finds and on the earlier reports;
* **`claimed_after_dependencies`**; `fan_out_claimed_early`: a job released together with a sibling
  is claimed early;
* **`satisfied_is_claimable`**; `second_dependency_lost`: a job with two roots to wait for is never
  claimed.
-/

namespace TaskOrchestration.Scheduler

open TaskOrchestration JobRepository DependencyResolver LabelledRun

/-- The calls the process receives: dependencies are submitted before their dependents, and a
reported status is a terminal one. -/
def Admissible (s : Scheduler) : Event → Prop
  | .submitJob _ _ dto => ∀ d ∈ dto.dependencies.getD [], (s.jobs.find? d.jobId).isSome
  | .onJobCompleted _ _ status => status = .completed ∨ status = .failed ∨ status = .cancelled
  | .claimPendingJobs .. => True

instance (s : Scheduler) : DecidablePred (Admissible s) := fun e => by
  cases e <;> unfold Admissible <;> infer_instance

/-! ## The graph and the table -/

/-- **The graph knows the jobs of the table**, in the order of their submission. -/
def InStep (s : Scheduler) : Prop :=
  ∃ ids, InOrder ids s.graph ∧ ∀ k, (s.jobs.find? k).isSome ↔ k ∈ ids

theorem inStep_init : InStep init :=
  ⟨[], inOrder_empty, fun k => by simp [init, Table.empty, Table.find?]⟩

theorem inStep_step {s s' : Scheduler} {e : Event} (h : InStep s) (ha : Admissible s e)
    (hs : s.step e = some s') : InStep s' := by
  obtain ⟨ids, ho, hids⟩ := h
  cases e with
  | submitJob id now dto =>
      obtain ⟨⟨s₁, job⟩, hj, rfl⟩ := Option.map_eq_some_iff.mp hs
      obtain ⟨⟨t, r⟩, hc, he⟩ := Option.map_eq_some_iff.mp hj
      obtain ⟨rfl, rfl⟩ := Prod.mk.inj he
      obtain ⟨rfl, hnone⟩ := create_eq hc
      have hnew : s.graph.find? (newRow id now dto).id = none := by
        apply Option.not_isSome_iff_eq_none.mp
        rw [ho.node]
        intro hmem
        rw [← hids] at hmem
        exact absurd hmem (Option.not_isSome_iff_eq_none.mpr hnone)
      have hdeps : ∀ dep ∈ (newRow id now dto).dependencies,
          (s.graph.find? dep.jobId).isSome := by
        intro dep hdep
        rw [ho.node, ← hids]
        exact ha dep hdep
      refine ⟨ids ++ [id], ho.register hnew hdeps, fun k => ?_⟩
      · rw [find?_create hc, List.mem_append, List.mem_singleton, ← hids]
        split_ifs with hk <;> simp [hk]
  | onJobCompleted now jobId status =>
      obtain rfl := Option.some.inj hs
      refine ⟨ids, ho.advances (advances_onJobStateChange s.graph jobId status), fun k => ?_⟩
      rw [find?_onJobCompleted, Option.isSome_map]
      exact hids k
  | claimPendingJobs now limit locked =>
      obtain rfl := Option.some.inj hs
      refine ⟨ids, ho, fun k => ?_⟩
      rw [← hids]
      dsimp only
      rw [claimPendingJobs, Table.find?_updateWhere, Option.isSome_map]

/-! ## What a report does to the counters -/

/-- A report counts for a waiting row that names the reported job: it unblocks `n` jobs, and is the
first to satisfy `m` entries of the row. -/
def CountsAs (rel : ℕ → ℕ → Prop) (es : List Event) (s : Scheduler) : Event → Prop
  | .onJobCompleted _ jobId status => ∀ r ∈ s.jobs.rows, r.status = .pending → Names r jobId →
      rel (unblocked s.graph jobId status).length (newlySatisfied es jobId status r)
  | _ => True

/-- The counter of every waiting row, against the number of its satisfied entries. -/
def CounterInv (rel : ℕ → ℕ → Prop) (es : List Event) (s : Scheduler) : Prop :=
  ∀ r ∈ s.jobs, r.status = .pending → rel r.resolvedDependencyCount (satisfiedCount es r)

theorem pending_of_mem_claim {t : JobTable} {now : Time} {limit : ℕ} {locked : List JobId}
    {r : Job} (h : r ∈ (claimPendingJobs t now limit locked).1) (hp : r.status = .pending) :
    r ∈ t := by
  rcases mem_claim h with h | ⟨r₀, -, rfl⟩
  · exact h
  · exact JobStatus.noConfusion hp

/-- **The step lemma.** A report raises a waiting row by `n` and satisfies `m` more of its
entries; no other step changes either number. `hnew` is the row that is submitted. -/
theorem counterInv_step {rel : ℕ → ℕ → Prop} (hzero : rel 0 0)
    (hadd : ∀ a b n m, rel a b → rel n m → rel (a + n) (b + m)) {es : List Event}
    {s s' : Scheduler} {e : Event} (hi : CounterInv rel es s) (hc : CountsAs rel es s e)
    (hnew : ∀ id now dto, e = .submitJob id now dto → rel 0 (satisfiedCount es (newRow id now dto)))
    (hs : s.step e = some s') : CounterInv rel (es ++ [e]) s' := by
  intro r hr hp
  cases e with
  | submitJob id now dto =>
      obtain ⟨⟨s₁, job⟩, hj, rfl⟩ := Option.map_eq_some_iff.mp hs
      rw [satisfiedCount_snoc_of_reports rfl]
      rcases (mem_submitJob hj r).mp hr with hr | rfl
      · exact hi r hr hp
      · exact hnew id now dto rfl
  | onJobCompleted now jobId status =>
      obtain rfl := Option.some.inj hs
      rw [satisfiedCount_snoc]
      obtain ⟨r₀, h₀, ⟨hn, hp₀, rfl⟩ | ⟨hn, rfl⟩⟩ := mem_onJobCompleted hr
      · rw [iterate_resolved]
        exact hadd _ _ _ _ (hi r₀ h₀ hp₀) (hc r₀ h₀ hp₀ hn)
      · have hm : newlySatisfied es jobId status r = 0 :=
          newlySatisfied_of_not_names fun h => hn ⟨h, hp⟩
        have := hadd _ _ _ _ (hi r h₀ hp) hzero
        rwa [hm]
  | claimPendingJobs now limit locked =>
      obtain rfl := Option.some.inj hs
      rw [satisfiedCount_snoc_of_reports rfl]
      exact hi r (pending_of_mem_claim hr hp) hp

/-! ## The conditions on a report -/

/-- **The report is news to the job**: an entry for the reported job asks for the status, and no
earlier report has satisfied it. -/
def FirstMet (es : List Event) (jobId : JobId) (status : JobStatus) (r : Job) : Prop :=
  ∃ d ∈ r.dependencies, d.jobId = jobId ∧ status ∈ d.requireStatus ∧ ¬ Satisfied es d

instance (es : List Event) (jobId : JobId) (status : JobStatus) :
    DecidablePred (FirstMet es jobId status) := fun r => by unfold FirstMet; infer_instance

theorem newlySatisfied_pos {es : List Event} {jobId : JobId} {status : JobStatus} {r : Job} :
    0 < newlySatisfied es jobId status r ↔ FirstMet es jobId status r := by
  rw [newlySatisfied, List.countP_pos_iff]
  simp only [decide_eq_true_eq]
  rfl

/-- **A report that releases a job** releases no other, and is news to every waiting job that names
the reported one. -/
def ReleasesOne (es : List Event) (s : Scheduler) : Event → Prop
  | .onJobCompleted _ jobId status => ∀ r ∈ s.jobs.rows, r.status = .pending → Names r jobId →
      ∀ a, Released s.graph jobId status a →
        (∀ b, Released s.graph jobId status b → b = a) ∧ FirstMet es jobId status r
  | _ => True

/-- **A report releases a job exactly if it is news** to the waiting jobs that name the reported
one, then one job only, and by one entry of each. -/
def ReleasesExactly (es : List Event) (s : Scheduler) : Event → Prop
  | .onJobCompleted _ jobId status => ∀ r ∈ s.jobs.rows, r.status = .pending → Names r jobId →
      ((∃ a, Released s.graph jobId status a) ↔ FirstMet es jobId status r) ∧
        (∀ a b, Released s.graph jobId status a → Released s.graph jobId status b → b = a) ∧
        newlySatisfied es jobId status r ≤ 1
  | _ => True

theorem countsAs_of_releasesOne {es : List Event} {s : Scheduler} {e : Event}
    (h : ReleasesOne es s e) : CountsAs (· ≤ ·) es s e := by
  cases e with
  | onJobCompleted now jobId status =>
      intro r hr hp hn
      rcases List.eq_nil_or_concat (unblocked s.graph jobId status) with hnil | ⟨l, a, hl⟩
      · rw [hnil]
        exact Nat.zero_le _
      · have ha : Released s.graph jobId status a := released_of_mem_unblocked (by simp [hl])
        obtain ⟨hone, hfirst⟩ := h r hr hp hn a ha
        have hle : (unblocked s.graph jobId status).length ≤ 1 :=
          length_unblocked_le_one fun b c hb hc => (hone b hb).trans (hone c hc).symm
        exact hle.trans (newlySatisfied_pos.mpr hfirst)
  | submitJob | claimPendingJobs => trivial

theorem countsAs_of_releasesExactly {es : List Event} {s : Scheduler} {e : Event} (hs : InStep s)
    (h : ReleasesExactly es s e) : CountsAs (· = ·) es s e := by
  obtain ⟨ids, ho, -⟩ := hs
  cases e with
  | onJobCompleted now jobId status =>
      intro r hr hp hn
      obtain ⟨hiff, hone, hle⟩ := h r hr hp hn
      have hlen : (unblocked s.graph jobId status).length ≤ 1 :=
        length_unblocked_le_one fun a b ha hb => hone b a hb ha
      have hpos : 0 < (unblocked s.graph jobId status).length ↔
          0 < newlySatisfied es jobId status r := by
        rw [newlySatisfied_pos, ← hiff, List.length_pos_iff_exists_mem]
        exact exists_congr fun a => mem_unblocked_iff_released ho
      omega
  | submitJob | claimPendingJobs => trivial

/-- **A report with one dependent left**: the others are resolved, it passes, and the report is news
to the waiting jobs by one entry of each. -/
def LoneDependent (es : List Event) (s : Scheduler) : Event → Prop
  | .onJobCompleted _ jobId status =>
      (∃ a ∈ dependentsOf s.graph jobId, Unblocks s.graph jobId status a ∧
        ∀ b ∈ dependentsOf s.graph jobId, b = a ∨ isResolved s.graph b = true) ∧
      ∀ r ∈ s.jobs.rows, r.status = .pending → Names r jobId →
        newlySatisfied es jobId status r = 1
  | _ => True

instance (es : List Event) (s : Scheduler) : DecidablePred (LoneDependent es s) := fun e => by
  cases e <;> unfold LoneDependent <;> infer_instance

theorem LoneDependent.releasesExactly {es : List Event} {s : Scheduler} {e : Event}
    (h : LoneDependent es s e) : ReleasesExactly es s e := by
  cases e with
  | onJobCompleted now jobId status =>
      obtain ⟨⟨a, ha, hu, hall⟩, hnew⟩ := h
      have hlone : ∀ b, Released s.graph jobId status b → b = a := by
        intro b hb
        refine (hall b hb.mem).resolve_right ?_
        rw [hb.unresolved]
        exact Bool.false_ne_true
      intro r hr hp hn
      have hone := hnew r hr hp hn
      refine ⟨⟨fun _ => newlySatisfied_pos.mp (by omega), fun _ => ⟨a, released_of_unblocks ha hu⟩⟩,
        fun b c hb hc => (hlone c hc).trans (hlone b hb).symm, hone.le⟩
  | submitJob | claimPendingJobs => trivial

theorem ReleasesExactly.releasesOne {es : List Event} {s : Scheduler} {e : Event}
    (h : ReleasesExactly es s e) : ReleasesOne es s e := by
  cases e with
  | onJobCompleted now jobId status =>
      intro r hr hp hn a ha
      obtain ⟨hiff, hone, -⟩ := h r hr hp hn
      exact ⟨fun b hb => hone a b ha hb, hiff.mp ⟨a, ha⟩⟩
  | submitJob | claimPendingJobs => trivial

/-- A job is submitted before any of its dependencies is reported. -/
def SubmittedFirst (es : List Event) : Event → Prop
  | .submitJob _ _ dto => ∀ d ∈ dto.dependencies.getD [], ∀ p ∈ reports es, p.1 ≠ d.jobId
  | _ => True

instance (es : List Event) : DecidablePred (SubmittedFirst es) := fun e => by
  cases e <;> unfold SubmittedFirst <;> infer_instance

/-- `j` waits for `a` and for `b`, which itself waits for `c`, and `k` waits for `b`. The report of
`c` releases `b`, that of `a` releases `j`, and that of `b` only `k`. -/
def staggered : List Event :=
  [.submitJob "a" 1 (plainDto []), .submitJob "c" 2 (plainDto []),
    .submitJob "b" 3 (plainDto [⟨"c", [.completed]⟩]),
    .submitJob "j" 4 (plainDto [⟨"a", [.completed]⟩, ⟨"b", [.completed]⟩]),
    .submitJob "k" 5 (plainDto [⟨"b", [.completed, .failed]⟩]), .onJobCompleted 6 "c" .completed,
    .onJobCompleted 7 "a" .completed, .claimPendingJobs 8 1 [], .onJobCompleted 9 "b" .completed]

theorem staggered_run : ∃ s, Run step (fun es s e =>
      Admissible s e ∧ SubmittedFirst es e ∧ ReleasesExactly es s e) init staggered s ∧
    (∃ r ∈ s.jobs.rows, r.id = "j" ∧ r.status = .pending ∧
      ∀ d ∈ r.dependencies, Satisfied staggered d) ∧
    "j" ∈ (claimPendingJobs s.jobs 10 50 []).2.map Job.id := by
  obtain ⟨s, hs, hb⟩ := exists_run_of_check step
    (fun es s e => Admissible s e ∧ SubmittedFirst es e ∧ LoneDependent es s e) init staggered
    (fun s => (∃ r ∈ s.jobs.rows, r.id = "j" ∧ r.status = .pending ∧
      ∀ d ∈ r.dependencies, Satisfied staggered d) ∧
      "j" ∈ (claimPendingJobs s.jobs 10 50 []).2.map Job.id) (by decide)
  exact ⟨s, hs.mono fun _ _ _ h => ⟨h.1, h.2.1, h.2.2.releasesExactly⟩, of_decide_eq_true hb⟩

/-! ## No job is claimed before its dependencies -/

/-- What a claim would take now has all its entries satisfied. -/
def ClaimsSatisfied (es : List Event) (s : Scheduler) : Prop :=
  ∀ now limit locked, ∀ r ∈ (claimPendingJobs s.jobs now limit locked).2,
    ∀ d ∈ r.dependencies, Satisfied es d

/-- **No job runs before its dependencies are satisfied**, in every run whose reports release one
job at most, and then are news to the jobs that wait for the reported one. -/
theorem claimed_after_dependencies {es : List Event} {s : Scheduler}
    (h : Run step (fun es s e => Admissible s e ∧ ReleasesOne es s e) init es s) :
    ClaimsSatisfied es s := by
  have hi : Counted s ∧ CounterInv (· ≤ ·) es s := by
    refine h.inv (I := fun es s => Counted s ∧ CounterInv (· ≤ ·) es s)
      ⟨counted_init, fun r hr => absurd hr (Table.not_mem_empty r)⟩ ?_
    rintro es s e s' ⟨hc, hi⟩ ⟨-, ho⟩ hs
    exact ⟨counted_step hc hs, counterInv_step le_rfl
      (fun _ _ _ _ h₁ h₂ => Nat.add_le_add h₁ h₂) hi (countsAs_of_releasesOne ho)
      (fun _ _ _ _ => Nat.zero_le _) hs⟩
  intro now limit locked r hr
  obtain ⟨r₀, h₀, ⟨hp, -, hcount⟩, rfl⟩ := mem_claimPendingJobs hr
  rw [← satisfiedCount_eq_length]
  change satisfiedCount es r₀ = r₀.dependencies.length
  have h₁ : r₀.dependencyCount = r₀.dependencies.length := hi.1 r₀ h₀
  have h₂ : r₀.resolvedDependencyCount ≤ satisfiedCount es r₀ := hi.2 r₀ h₀ hp
  have h₃ : satisfiedCount es r₀ ≤ r₀.dependencies.length := satisfiedCount_le_length es r₀
  exact le_antisymm h₃ (by omega)

theorem staggered_claimed_after_dependencies :
    ∃ s, ClaimsSatisfied staggered s ∧ "j" ∈ (claimPendingJobs s.jobs 10 50 []).2.map Job.id := by
  obtain ⟨s, hs, -, hj⟩ := staggered_run
  exact ⟨s, claimed_after_dependencies (hs.mono fun _ _ _ h => ⟨h.1, h.2.2.releasesOne⟩), hj⟩

/-- `j` waits for `a` and `b`, `k` waits for `a` only, and `a` completes: two jobs are unblocked,
so `j` is raised twice. -/
def fanOut : List Event :=
  [.submitJob "a" 1 (plainDto []), .submitJob "b" 2 (plainDto []),
    .submitJob "j" 3 (plainDto [⟨"a", [.completed]⟩, ⟨"b", [.completed]⟩]),
    .submitJob "k" 4 (plainDto [⟨"a", [.completed]⟩]), .onJobCompleted 5 "a" .completed]

/-- **A claim takes `j` although `b` was never reported.** -/
theorem fan_out_claimed_early :
    ∃ s, Run step (stateGuard Admissible) init fanOut s ∧ ¬ ClaimsSatisfied fanOut s := by
  obtain ⟨s, hs, hb⟩ := exists_run_of_check step
    (fun _ s e => Admissible s e) init fanOut
    (fun s => (claimPendingJobs s.jobs 6 50 []).2.any fun r =>
      r.dependencies.any fun d => !(Satisfied fanOut d : Bool)) (by decide)
  refine ⟨s, hs, fun hc => ?_⟩
  obtain ⟨r, hr, hd⟩ := List.any_eq_true.mp hb
  obtain ⟨d, hd, hn⟩ := List.any_eq_true.mp hd
  exact absurd (hc 6 50 [] r hr d hd) (by simpa using hn)

/-! ## No dependency resolution is lost -/

/-- Every waiting job whose entries are all satisfied has its counters equal. -/
def SatisfiedClaimable (es : List Event) (s : Scheduler) : Prop :=
  ∀ r ∈ s.jobs, r.status = .pending → (∀ d ∈ r.dependencies, Satisfied es d) →
    r.dependencyCount = r.resolvedDependencyCount

theorem satisfiedCount_newRow {es : List Event} {id : JobId} {now : Time} {dto : CreateJobDto}
    (h : SubmittedFirst es (.submitJob id now dto)) :
    satisfiedCount es (newRow id now dto) = 0 := by
  rw [satisfiedCount, List.countP_eq_zero]
  intro d hd hs
  obtain ⟨status, -, hr⟩ := of_decide_eq_true hs
  exact h d hd _ hr rfl

/-- **A job whose dependencies are satisfied is claimable**, in every run whose reports release a
job exactly if they are news to those that wait for the reported one. -/
theorem satisfied_is_claimable {es : List Event} {s : Scheduler}
    (h : Run step (fun es s e => Admissible s e ∧ SubmittedFirst es e ∧ ReleasesExactly es s e)
      init es s) : SatisfiedClaimable es s := by
  have hi : InStep s ∧ Counted s ∧ CounterInv (· = ·) es s := by
    refine h.inv (I := fun es s => InStep s ∧ Counted s ∧ CounterInv (· = ·) es s)
      ⟨inStep_init, counted_init, fun r hr => absurd hr (Table.not_mem_empty r)⟩ ?_
    rintro es s e s' ⟨hg, hc, hi⟩ ⟨ha, hf, he⟩ hs
    refine ⟨inStep_step hg ha hs, counted_step hc hs, counterInv_step rfl
      (fun _ _ _ _ h₁ h₂ => congrArg₂ (· + ·) h₁ h₂) hi (countsAs_of_releasesExactly hg he) ?_ hs⟩
    rintro id now dto rfl
    exact (satisfiedCount_newRow hf).symm
  obtain ⟨-, hc, hi⟩ := hi
  intro r hr hp hd
  rw [hc r hr, ← (satisfiedCount_eq_length es r).mpr hd]
  exact (hi r hr hp).symm

theorem staggered_satisfied_is_claimable :
    ∃ s, SatisfiedClaimable staggered s ∧ ∃ r ∈ s.jobs.rows, r.id = "j" ∧ r.status = .pending ∧
      ∀ d ∈ r.dependencies, Satisfied staggered d := by
  obtain ⟨s, hs, hj, -⟩ := staggered_run
  exact ⟨s, satisfied_is_claimable hs, hj⟩

/-- `j` waits for `a` and `b`, which both complete. The first completion resolves the node of
`j`, so the second unblocks nothing. -/
def twoRoots : List Event :=
  [.submitJob "a" 1 (plainDto []), .submitJob "b" 2 (plainDto []),
    .submitJob "j" 3 (plainDto [⟨"a", [.completed]⟩, ⟨"b", [.completed]⟩]),
    .onJobCompleted 4 "a" .completed, .onJobCompleted 5 "b" .completed]

/-- **The counter of `j` stays at one of two.** -/
theorem second_dependency_lost :
    ∃ s, Run step (fun es s e => Admissible s e ∧ SubmittedFirst es e) init twoRoots s ∧
      ¬ SatisfiedClaimable twoRoots s := by
  obtain ⟨s, hs, hb⟩ := exists_run_of_check step
    (fun es s e => Admissible s e ∧ SubmittedFirst es e) init twoRoots
    (fun s => ∃ r ∈ s.jobs.rows, r.status = .pending ∧
      (∀ d ∈ r.dependencies, Satisfied twoRoots d) ∧
      r.dependencyCount ≠ r.resolvedDependencyCount) (by decide)
  obtain ⟨r, hr, hp, hd, hn⟩ := of_decide_eq_true hb
  exact ⟨s, hs, fun hc => hn (hc r hr hp hd)⟩

end TaskOrchestration.Scheduler

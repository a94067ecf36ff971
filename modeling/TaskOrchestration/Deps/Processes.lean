import TaskOrchestration.Deps.Scheduler

set_option autoImplicit false

/-!
# The process that handles a completion

The table is shared, the graph belongs to one process. A process that made no submissions, and
the submitting process after a restart, hold the empty graph: nothing rebuilds it.

* `submitAll`: a history of submissions; `SubmitInv`: how the table and the graph of the process
  that made them fit together;
* `WaitsFor`: some job waits for exactly this report;
* **`same_rows_iff`**: a completion changes the same rows in every process exactly when no job
  waits for it.
-/

namespace TaskOrchestration.Scheduler

open JobRepository DependencyResolver

/-- One call of `submitJob`, with the id it generates. -/
structure Submission where
  id : JobId
  now : Time
  dto : CreateJobDto

/-- A submission. When the insert fails nothing is registered, and the call throws. -/
def submit (s : Scheduler) (c : Submission) : Scheduler :=
  ((s.submitJob c.id c.now c.dto).map (·.1)).getD s

def submitAll (cs : List Submission) : Scheduler := cs.foldl submit init

/-- The `JobScheduler` of another process over the same table. -/
def otherProcess (s : Scheduler) : Scheduler := { init with jobs := s.jobs }

/-- The same process after a restart: the constructor makes an empty resolver. -/
def restarted (s : Scheduler) : Scheduler := { s with graph := emptyGraph }

/-- The rows that a call changed, as they are afterwards. -/
def changedRows (before after : JobTable) : List Job := after.rows.filter fun r => r ∉ before.rows

/-- **How table and graph fit together** after submissions: every row waits, an unresolved node is
the node of a row, and the reverse edges are those of the rows. -/
structure SubmitInv (s : Scheduler) : Prop where
  pending : ∀ r ∈ s.jobs, r.status = .pending
  node : ∀ k n, s.graph.find? k = some n → n.isResolved = false →
    ∃ r ∈ s.jobs, r.id = k ∧ r.dependencies = n.dependencies
  edge : ∀ r ∈ s.jobs, ∀ d ∈ r.dependencies, r.id ∈ dependentsOf s.graph d.jobId

theorem submitInv_init : SubmitInv init where
  pending _ hr := absurd hr (Table.not_mem_empty _)
  node _ _ h := by cases h
  edge _ hr := absurd hr (Table.not_mem_empty _)

theorem submitInv_submit {s : Scheduler} (h : SubmitInv s) (c : Submission) :
    SubmitInv (s.submit c) := by
  unfold submit
  cases hs : s.submitJob c.id c.now c.dto with
  | none => exact h
  | some p =>
      obtain ⟨s', job⟩ := p
      have hmem := mem_submitJob hs
      obtain ⟨⟨t, j⟩, hc, he⟩ := Option.map_eq_some_iff.mp hs
      obtain ⟨rfl, rfl⟩ := Prod.mk.inj he
      obtain ⟨rfl, -⟩ := create_eq hc
      simp only [Option.map_some, Option.getD_some] at hmem ⊢
      refine ⟨fun r hr => ?_, fun k n hk hn => ?_, fun r hr d hd => ?_⟩
      · rcases (hmem r).mp hr with hr | rfl
        · exact h.pending r hr
        · rfl
      · rcases register_unresolved hk hn with ⟨n₀, hk₀, hn₀, hd⟩ | ⟨rfl, hd⟩
        · obtain ⟨r, hr, hrk, hrd⟩ := h.node k n₀ hk₀ hn₀
          exact ⟨r, (hmem r).mpr (.inl hr), hrk, hrd.trans hd.symm⟩
        · exact ⟨_, (hmem _).mpr (.inr rfl), rfl, hd.symm⟩
      · rw [mem_dependentsOf_register]
        rcases (hmem r).mp hr with hr | rfl
        · exact .inl (h.edge r hr d hd)
        · exact .inr ⟨rfl, d, hd, rfl⟩

theorem submitInv_submitAll (cs : List Submission) : SubmitInv (submitAll cs) := by
  unfold submitAll
  induction cs using List.reverseRecOn with
  | nil => exact submitInv_init
  | append_singleton cs c ih =>
      rw [List.foldl_append]
      exact submitInv_submit ih c

/-- **Some job waits for this report**: it is not resolved yet, the first of its entries for the
job asks for the status, and all the jobs it depends on count as resolved. -/
def WaitsFor (s : Scheduler) (jobId : JobId) (status : JobStatus) : Prop :=
  ∃ r ∈ s.jobs.rows, isResolved s.graph r.id = false ∧
    (∃ d ∈ r.dependencies.find? (fun d => d.jobId = jobId), status ∈ d.requireStatus) ∧
    ∀ d ∈ r.dependencies, isResolved s.graph d.jobId = true

instance (s : Scheduler) (jobId : JobId) (status : JobStatus) :
    Decidable (WaitsFor s jobId status) := by
  unfold WaitsFor; infer_instance

theorem row_of_unblocks {s : Scheduler} (h : SubmitInv s) {jobId a : JobId} {status : JobStatus}
    (ha : Unblocks s.graph jobId status a) : ∃ r ∈ s.jobs, r.id = a ∧
      isResolved s.graph r.id = false ∧
      (∃ d ∈ r.dependencies.find? (fun d => d.jobId = jobId), status ∈ d.requireStatus) ∧
      ∀ d ∈ r.dependencies, isResolved s.graph d.jobId = true := by
  obtain ⟨n, hn, hr, d, hd, hst, hall⟩ := ha
  obtain ⟨r, hrm, rfl, hrd⟩ := h.node a n hn hr
  refine ⟨r, hrm, rfl, isResolved_eq_false.mpr ⟨n, hn, hr⟩, ⟨d, hrd ▸ hd, hst⟩, ?_⟩
  rw [hrd]
  exact fun d hd => (checkAllDependenciesMet_iff.mp hall d hd).2

theorem unblocks_of_row {s : Scheduler} (h : SubmitInv s) {jobId : JobId} {status : JobStatus}
    {r : Job} (hr : r ∈ s.jobs) (hres : isResolved s.graph r.id = false)
    (hst : ∃ d ∈ r.dependencies.find? (fun d => d.jobId = jobId), status ∈ d.requireStatus)
    (hall : ∀ d ∈ r.dependencies, isResolved s.graph d.jobId = true) :
    r.id ∈ dependentsOf s.graph jobId ∧ Unblocks s.graph jobId status r.id := by
  obtain ⟨n, hn, hnr⟩ := isResolved_eq_false.mp hres
  obtain ⟨r', hr', he, hd'⟩ := h.node r.id n hn hnr
  obtain rfl := Table.key_inj hr' hr he
  obtain ⟨d, hd, hmem⟩ := hst
  have hdr : d ∈ r'.dependencies := List.mem_of_find?_eq_some hd
  have hdj : d.jobId = jobId := by simpa using List.find?_some hd
  refine ⟨hdj ▸ h.edge r' hr d hdr, n, hn, hnr, d, hd' ▸ hd, hmem, ?_⟩
  rw [checkAllDependenciesMet_iff, ← hd']
  intro d hd
  obtain ⟨n', hn', -⟩ := mem_dependentsOf.mp (h.edge r' hr d hd)
  exact ⟨by rw [hn']; rfl, hall d hd⟩

theorem unblocked_eq_nil_iff_waitsFor {s : Scheduler} (h : SubmitInv s) (jobId : JobId)
    (status : JobStatus) : unblocked s.graph jobId status = [] ↔ ¬ WaitsFor s jobId status := by
  rw [unblocked_eq_nil_iff]
  constructor
  · rintro hn ⟨r, hr, hres, hst, hall⟩
    obtain ⟨hdep, hu⟩ := unblocks_of_row h hr hres hst hall
    exact hn r.id hdep hu
  · intro hn a _ ha
    obtain ⟨r, hr, -, hrest⟩ := row_of_unblocks h ha
    exact hn ⟨r, hr, hrest⟩

/-- The rows that `onJobCompleted` changes when this process runs it. -/
def rowsChanged (s : Scheduler) (now : Time) (jobId : JobId) (status : JobStatus) : List Job :=
  changedRows s.jobs (s.onJobCompleted now jobId status).jobs

theorem changedRows_self (t : JobTable) : changedRows t t = [] :=
  List.filter_eq_nil_iff.mpr fun r hr => by simpa using hr

theorem rowsChanged_of_unblocked_nil {s : Scheduler} {now : Time} {jobId : JobId}
    {status : JobStatus} (h : unblocked s.graph jobId status = []) :
    rowsChanged s now jobId status = [] := by
  rw [rowsChanged, onJobCompleted, h]
  exact changedRows_self _

theorem rowsChanged_of_waitsFor {s : Scheduler} (h : SubmitInv s) {now : Time} {jobId : JobId}
    {status : JobStatus} (hw : WaitsFor s jobId status) :
    rowsChanged s now jobId status ≠ [] := by
  have hn : (unblocked s.graph jobId status).length ≠ 0 := fun h0 =>
    (unblocked_eq_nil_iff_waitsFor h jobId status).mp (List.length_eq_zero_iff.mp h0) hw
  obtain ⟨r, hr, -, ⟨d, hd, -⟩, -⟩ := hw
  have hnames : Names r jobId :=
    ⟨d, List.mem_of_find?_eq_some hd, by simpa using List.find?_some hd⟩
  set n := (unblocked s.graph jobId status).length with hndef
  have hr' : (resolved now)^[n] r ∈ (s.onJobCompleted now jobId status).jobs := by
    rw [Table.mem_iff_find?, find?_onJobCompleted, iterate_resolved]
    rw [Table.mem_iff_find?.mp hr, Option.map_some, if_pos ⟨hnames, h.pending r hr⟩, ← hndef,
      iterate_resolved]
  refine List.ne_nil_of_mem (List.mem_filter.mpr ⟨hr', decide_eq_true fun hold => ?_⟩)
  rw [iterate_resolved] at hold
  have := congrArg Job.resolvedDependencyCount (Table.key_inj (b := r) hold hr rfl)
  simp only at this
  omega

/-- **Which process handles the completion** makes no difference exactly when no submitted job
waits for it. -/
theorem same_rows_iff (cs : List Submission) (now : Time) (jobId : JobId) (status : JobStatus) :
    (rowsChanged (submitAll cs) now jobId status =
        rowsChanged (otherProcess (submitAll cs)) now jobId status ∧
      rowsChanged (submitAll cs) now jobId status =
        rowsChanged (restarted (submitAll cs)) now jobId status) ↔
      ¬ WaitsFor (submitAll cs) jobId status := by
  have hi := submitInv_submitAll cs
  have ho : rowsChanged (otherProcess (submitAll cs)) now jobId status = [] :=
    rowsChanged_of_unblocked_nil (unblocked_emptyGraph jobId status)
  have hr : rowsChanged (restarted (submitAll cs)) now jobId status = [] :=
    rowsChanged_of_unblocked_nil (unblocked_emptyGraph jobId status)
  rw [ho, hr, and_self]
  constructor
  · exact fun h hw => rowsChanged_of_waitsFor hi hw h
  · exact fun h => rowsChanged_of_unblocked_nil ((unblocked_eq_nil_iff_waitsFor hi _ _).mpr h)

/-- A history: `b` waits for `a`. -/
def oneWaiting : List Submission :=
  [⟨"a", 1, plainDto []⟩, ⟨"b", 2, plainDto [⟨"a", [.completed]⟩]⟩]

/-- **A worker process resolves nothing**: the completion of `a` changes the row of `b` in the
submitting process only. -/
theorem worker_changes_nothing :
    (rowsChanged (submitAll oneWaiting) 3 "a" .completed).map Job.id = ["b"] ∧
      rowsChanged (otherProcess (submitAll oneWaiting)) 3 "a" .completed = [] ∧
      rowsChanged (restarted (submitAll oneWaiting)) 3 "a" .completed = [] := by
  decide

end TaskOrchestration.Scheduler

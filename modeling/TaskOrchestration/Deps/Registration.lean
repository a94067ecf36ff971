import TaskOrchestration.Job.Repository
import TaskOrchestration.Deps.Resolver

set_option autoImplicit false

/-!
# The graph after the registration of a set of jobs

`register` does not touch a node that is there. A job that another one has named before it is
registered keeps the placeholder, without dependencies and resolved.

* `registerAll`, `core`: the registrations, and what they never change in a node;
* `core_register`, `dependentsOf_register`: one registration;
* **`core_registerAll`**: the first job that is the id, or names it, makes the node;
* `SameGraph`, `RegisteredFirst`, **`sameGraph_iff`**: two orders lead to the same graph exactly
  when they register the same jobs before those that name them; `order_matters`.
-/

namespace TaskOrchestration.DependencyResolver

open JobRepository

/-- Register the jobs of a list, one after the other. -/
def registerAll (g : Graph) (jobs : List Job) : Graph := jobs.foldl register g

/-- The dependencies and the flag of a node. -/
def core (g : Graph) (k : JobId) : Option (List JobDependency × Bool) :=
  (g.find? k).map fun n => (n.dependencies, n.isResolved)

/-- What the registration of `job` gives to a new node `k`: its own, or a placeholder's. -/
def made (job : Job) (k : JobId) : List JobDependency × Bool :=
  if k = job.id then (job.dependencies, job.dependencies.length = 0) else ([], true)

variable {g : Graph} {jobs l l' : List Job} {job : Job} {k a : JobId}

theorem isSome_core (g : Graph) (k : JobId) : (core g k).isSome = (g.find? k).isSome :=
  Option.isSome_map

/-! ## One registration -/

theorem core_wireDependency (jobId : JobId) (g : Graph) (dep : JobDependency) (k : JobId) :
    core (wireDependency jobId g dep) k =
      if dep.jobId = k then some ((core g k).getD ([], true)) else core g k := by
  unfold core
  rw [find?_wireDependency]
  by_cases hk : k = dep.jobId
  · rw [if_pos hk, if_pos hk.symm, Option.map_some, (pushDependent_isResolved _ _).1,
      (pushDependent_isResolved _ _).2]
    cases g.find? k <;> rfl
  · rw [if_neg hk, if_neg (Ne.symm hk)]

theorem core_foldl_wire (jobId : JobId) (deps : List JobDependency) (g : Graph) (k : JobId) :
    core (deps.foldl (wireDependency jobId) g) k =
      if ∃ dep ∈ deps, dep.jobId = k then some ((core g k).getD ([], true)) else core g k := by
  induction deps generalizing g with
  | nil => simp
  | cons dep deps ih =>
      rw [List.foldl_cons, ih, core_wireDependency]
      by_cases hk : dep.jobId = k
      · simp [hk]
      · simp [hk]

/-- **One registration** leaves the nodes that are there, and makes those of the job and of the
jobs it names. -/
theorem core_register (g : Graph) (job : Job) (k : JobId) : core (register g job) k =
    (core g k).or (if job.id = k ∨ Names job k then some (made job k) else none) := by
  have hset : core (setIfAbsent g ⟨job.id, job.dependencies, [], job.dependencies.length = 0⟩) k =
      (core g k).or (if job.id = k then some (made job k) else none) := by
    unfold core made
    rw [find?_setIfAbsent]
    by_cases hk : job.id = k
    · subst hk
      cases g.find? job.id <;> simp
    · simp [hk, Ne.symm hk]
  rw [register, core_foldl_wire, hset]
  by_cases hn : Names job k
  · rw [if_pos (show ∃ dep ∈ job.dependencies, dep.jobId = k from hn)]
    by_cases hk : job.id = k
    · cases core g k <;> simp [hk]
    · cases core g k <;> simp [hk, hn, made, Ne.symm hk]
  · rw [if_neg (show ¬ ∃ dep ∈ job.dependencies, dep.jobId = k from hn)]
    simp [hn]

/-- **A job whose dependencies all have nodes**: its registration makes its own node at most. -/
theorem core_register_of_known (hdeps : ∀ dep ∈ job.dependencies, (g.find? dep.jobId).isSome)
    (k : JobId) : core (register g job) k = (core g k).or
      (if k = job.id then some (job.dependencies, decide (job.dependencies.length = 0))
      else none) := by
  rw [core_register]
  by_cases hk : k = job.id
  · rw [if_pos (.inl hk.symm), if_pos hk, made, if_pos hk]
  · rw [if_neg hk]
    split_ifs with hor
    · obtain ⟨dep, hdep, rfl⟩ := hor.resolve_left (Ne.symm hk)
      obtain ⟨n, hn⟩ := Option.isSome_iff_exists.mp (hdeps dep hdep)
      rw [core, hn]
      rfl
    · rfl

theorem isSome_register_of_known (hdeps : ∀ dep ∈ job.dependencies, (g.find? dep.jobId).isSome)
    (k : JobId) : ((register g job).find? k).isSome ↔ (g.find? k).isSome ∨ k = job.id := by
  rw [← isSome_core, core_register_of_known hdeps, Option.isSome_or, Bool.or_eq_true, isSome_core]
  refine or_congr_right ?_
  split_ifs with hk
  · exact iff_of_true rfl hk
  · exact iff_of_false Bool.false_ne_true hk

theorem core_register_new (hnew : g.find? job.id = none)
    (hdeps : ∀ dep ∈ job.dependencies, (g.find? dep.jobId).isSome) (k : JobId) :
    core (register g job) k =
      if k = job.id then some (job.dependencies, decide (job.dependencies.length = 0))
      else core g k := by
  rw [core_register_of_known hdeps]
  split_ifs with hk
  · rw [hk, core, hnew]
    rfl
  · exact Option.or_none

theorem dependentsOf_wire (jobId : JobId) (g : Graph) (dep : JobDependency) (k : JobId) :
    dependentsOf (wireDependency jobId g dep) k = dependentsOf g k ∨
      jobId ∉ dependentsOf g k ∧
        dependentsOf (wireDependency jobId g dep) k = dependentsOf g k ++ [jobId] := by
  unfold dependentsOf
  rw [find?_wireDependency]
  split_ifs with hk
  · cases g.find? k with
    | none => exact .inr ⟨List.not_mem_nil, rfl⟩
    | some n =>
        simp only [Option.map_some, Option.getD_some, pushDependent]
        split_ifs with hmem
        · exact .inl rfl
        · exact .inr ⟨hmem, rfl⟩
  · exact .inl rfl

theorem dependentsOf_foldl_wire (jobId : JobId) (deps : List JobDependency) (g : Graph)
    (k : JobId) : dependentsOf (deps.foldl (wireDependency jobId) g) k = dependentsOf g k ∨
      jobId ∉ dependentsOf g k ∧
        dependentsOf (deps.foldl (wireDependency jobId) g) k = dependentsOf g k ++ [jobId] := by
  induction deps generalizing g with
  | nil => exact .inl rfl
  | cons dep deps ih =>
      rw [List.foldl_cons]
      rcases dependentsOf_wire jobId g dep k with hw | ⟨hn, hw⟩
      · have hrest := ih (wireDependency jobId g dep)
        rwa [hw] at hrest
      · rcases ih (wireDependency jobId g dep) with hrest | ⟨hn', -⟩
        · exact .inr ⟨hn, hrest.trans hw⟩
        · rw [hw] at hn'
          exact absurd (List.mem_append_right _ (List.mem_singleton_self jobId)) hn'

/-- **A registration** appends the job to some lists of dependents, and to none twice. -/
theorem dependentsOf_register (g : Graph) (job : Job) (k : JobId) :
    dependentsOf (register g job) k = dependentsOf g k ∨
      job.id ∉ dependentsOf g k ∧
        dependentsOf (register g job) k = dependentsOf g k ++ [job.id] := by
  have hwire := dependentsOf_foldl_wire job.id job.dependencies
    (setIfAbsent g ⟨job.id, job.dependencies, [], job.dependencies.length = 0⟩) k
  rwa [dependentsOf_setIfAbsent rfl] at hwire

/-! ## All of them -/

/-- **The node of an id** is made by the first job that has the id, or names it. -/
theorem core_registerAll (jobs : List Job) (g : Graph) (k : JobId) :
    core (registerAll g jobs) k =
      (core g k).or ((jobs.find? fun job => job.id = k ∨ Names job k).map (made · k)) := by
  induction jobs generalizing g with
  | nil => simp [registerAll]
  | cons job jobs ih =>
      rw [registerAll, List.foldl_cons, ← registerAll, ih, core_register, Option.or_assoc]
      congr 1
      by_cases hk : job.id = k ∨ Names job k
      · rw [if_pos hk, List.find?_cons_of_pos (by simpa using hk)]
        rfl
      · rw [if_neg hk, List.find?_cons_of_neg (by simpa using hk)]
        rfl

/-- **The dependents of an id** are the jobs that name it. -/
theorem mem_dependentsOf_registerAll :
    a ∈ dependentsOf (registerAll g jobs) k ↔
      a ∈ dependentsOf g k ∨ ∃ job ∈ jobs, job.id = a ∧ Names job k := by
  induction jobs generalizing g with
  | nil => simp [registerAll]
  | cons job jobs ih =>
      rw [registerAll, List.foldl_cons, ← registerAll, ih, mem_dependentsOf_register,
        List.exists_mem_cons_iff, or_assoc, eq_comm (a := a)]
      rfl

theorem core_emptyGraph (k : JobId) : core emptyGraph k = none := rfl

theorem dependentsOf_emptyGraph (k : JobId) : dependentsOf emptyGraph k = [] := rfl

/-! ## Two orders -/

/-- **Equal graphs**: for every id the same dependencies, the same set of dependents and the same
flag. -/
structure SameGraph (g g' : Graph) : Prop where
  dependencies : ∀ k, (g.find? k).map (·.dependencies) = (g'.find? k).map (·.dependencies)
  dependents : ∀ k a, a ∈ dependentsOf g k ↔ a ∈ dependentsOf g' k
  isResolved : ∀ k, (g.find? k).map (·.isResolved) = (g'.find? k).map (·.isResolved)

theorem sameGraph_iff_core {g g' : Graph} : SameGraph g g' ↔
    (∀ k, core g k = core g' k) ∧ ∀ k a, a ∈ dependentsOf g k ↔ a ∈ dependentsOf g' k := by
  constructor
  · intro h
    refine ⟨fun k => ?_, h.dependents⟩
    have hd := h.dependencies k
    have hr := h.isResolved k
    unfold core
    cases hg : g.find? k <;> cases hg' : g'.find? k <;> rw [hg, hg'] at hd hr <;> simp_all
  · rintro ⟨hc, hd⟩
    have hfst : ∀ g : Graph, ∀ k, (g.find? k).map (·.dependencies) = (core g k).map Prod.fst :=
      fun g k => by unfold core; rw [Option.map_map]; rfl
    have hsnd : ∀ g : Graph, ∀ k, (g.find? k).map (·.isResolved) = (core g k).map Prod.snd :=
      fun g k => by unfold core; rw [Option.map_map]; rfl
    exact ⟨fun k => by rw [hfst, hfst, hc], hd, fun k => by rw [hsnd, hsnd, hc]⟩

/-- The job is registered before every other job that names it. -/
def RegisteredFirst (jobs : List Job) (job : Job) : Prop :=
  ∃ pre post, jobs = pre ++ job :: post ∧ ∀ other ∈ pre, ¬ Names other job.id

theorem registeredFirst_iff (hnd : (jobs.map Job.id).Nodup) :
    RegisteredFirst jobs job ↔
      jobs.find? (fun j => j.id = job.id ∨ Names j job.id) = some job := by
  rw [List.find?_eq_some_iff_append]
  constructor
  · rintro ⟨pre, post, rfl, hpre⟩
    refine ⟨by simp, pre, post, rfl, fun other ho => ?_⟩
    have hne : other.id ≠ job.id := by
      rw [List.map_append, List.nodup_append] at hnd
      exact hnd.2.2 _ (List.mem_map_of_mem ho) _ (by simp)
    simp [hne, hpre other ho]
  · rintro ⟨-, pre, post, rfl, hpre⟩
    refine ⟨pre, post, rfl, fun other ho hn => ?_⟩
    have := hpre other ho
    simp [hn] at this

theorem core_of_registeredFirst (hnd : (l.map Job.id).Nodup) (h : RegisteredFirst l job) :
    core (registerAll emptyGraph l) job.id =
      some (job.dependencies, decide (job.dependencies.length = 0)) := by
  rw [core_registerAll, (registeredFirst_iff hnd).mp h]
  exact congrArg some (if_pos rfl)

/-- The node of any other job is a placeholder. -/
theorem core_of_not_registeredFirst (hnd : (l.map Job.id).Nodup) (hjob : job ∈ l)
    (h : ¬ RegisteredFirst l job) : core (registerAll emptyGraph l) job.id = some ([], true) := by
  rw [core_registerAll, core_emptyGraph, Option.none_or]
  rw [registeredFirst_iff hnd] at h
  cases hf : l.find? fun j => j.id = job.id ∨ Names j job.id with
  | none => simpa using List.find?_eq_none.mp hf job hjob
  | some other =>
      have hid : job.id ≠ other.id := by
        intro hid
        obtain rfl := List.inj_on_of_nodup_map hnd hjob (List.mem_of_find?_eq_some hf) hid
        exact h hf
      exact congrArg some (if_neg hid)

theorem core_of_no_dependencies (h : ∀ job ∈ l, job.id = k → job.dependencies = []) :
    core (registerAll emptyGraph l) k =
      if ∃ job ∈ l, job.id = k ∨ Names job k then some ([], true) else none := by
  rw [core_registerAll, core_emptyGraph, Option.none_or]
  cases hf : l.find? fun j => j.id = k ∨ Names j k with
  | none =>
      rw [if_neg fun ⟨job, hjob, hk⟩ => by simpa [hk] using List.find?_eq_none.mp hf job hjob]
      rfl
  | some other =>
      have hmem := List.mem_of_find?_eq_some hf
      have hk : other.id = k ∨ Names other k := by
        simpa using List.find?_some hf
      rw [if_pos ⟨other, hmem, hk⟩, Option.map_some, made]
      split_ifs with hid
      · simp [h other hmem hid.symm]
      · rfl

/-- **Two orders of registration lead to the same graph exactly when** every job with
dependencies is registered before the others that name it in both, or in neither. -/
theorem sameGraph_iff (hnd : (l.map Job.id).Nodup) (hp : l.Perm l') :
    SameGraph (registerAll emptyGraph l) (registerAll emptyGraph l') ↔
      ∀ job ∈ l, job.dependencies ≠ [] → (RegisteredFirst l job ↔ RegisteredFirst l' job) := by
  have hnd' : (l'.map Job.id).Nodup := (hp.map Job.id).nodup_iff.mp hnd
  have hdeps : ∀ k a, a ∈ dependentsOf (registerAll emptyGraph l) k ↔
      a ∈ dependentsOf (registerAll emptyGraph l') k := by
    intro k a
    rw [mem_dependentsOf_registerAll, mem_dependentsOf_registerAll]
    simp only [hp.mem_iff]
  rw [sameGraph_iff_core, and_iff_left hdeps]
  constructor
  · intro h job hjob hne
    have hk := h job.id
    by_cases hf : RegisteredFirst l job <;> by_cases hf' : RegisteredFirst l' job
    · exact iff_of_true hf hf'
    · rw [core_of_registeredFirst hnd hf,
        core_of_not_registeredFirst hnd' (hp.mem_iff.mp hjob) hf'] at hk
      exact absurd (Prod.mk.inj (Option.some.inj hk)).1 hne
    · rw [core_of_not_registeredFirst hnd hjob hf, core_of_registeredFirst hnd' hf'] at hk
      exact absurd (Prod.mk.inj (Option.some.inj hk)).1.symm hne
    · exact iff_of_false hf hf'
  · intro h k
    by_cases hk : ∀ job ∈ l, job.id = k → job.dependencies = []
    · rw [core_of_no_dependencies hk,
        core_of_no_dependencies fun job hjob => hk job (hp.mem_iff.mpr hjob)]
      simp only [hp.mem_iff]
    · push Not at hk
      obtain ⟨job, hjob, rfl, hne⟩ := hk
      by_cases hf : RegisteredFirst l job
      · rw [core_of_registeredFirst hnd hf,
          core_of_registeredFirst hnd' ((h job hjob hne).mp hf)]
      · rw [core_of_not_registeredFirst hnd hjob hf,
          core_of_not_registeredFirst hnd' (hp.mem_iff.mp hjob) (mt (h job hjob hne).mpr hf)]

/-- A job with an id and the ids of the jobs it waits for. -/
def waitingJob (id : JobId) (deps : List JobId) : Job :=
  newRow id 0
    { name := id, type := .custom, payload := [], organizationId := "org1", createdBy := "user1"
      dependencies := some (deps.map fun d => ⟨d, [.completed]⟩) }

theorem either_order_of_one_dependency :
    SameGraph (registerAll emptyGraph [waitingJob "a" [], waitingJob "b" ["a"]])
      (registerAll emptyGraph [waitingJob "b" ["a"], waitingJob "a" []]) := by
  apply (sameGraph_iff (by decide) (List.Perm.swap _ _ _)).mpr
  intro job hjob hne
  rw [registeredFirst_iff (by decide), registeredFirst_iff (by decide)]
  rcases List.mem_pair.mp hjob with rfl | rfl
  · exact absurd rfl hne
  · decide

/-- **The order matters**: `b` waits for `a`, and `c` for `b`. When `c` comes first, the node of
`b` stays the placeholder. -/
theorem order_matters : ¬ ∀ l l' : List Job, (l.map Job.id).Nodup → l.Perm l' →
    SameGraph (registerAll emptyGraph l) (registerAll emptyGraph l') := by
  intro h
  have hs := h [waitingJob "b" ["a"], waitingJob "c" ["b"]]
    [waitingJob "c" ["b"], waitingJob "b" ["a"]] (by decide) (List.Perm.swap _ _ _)
  exact absurd (hs.isResolved "b") (by decide)

end TaskOrchestration.DependencyResolver

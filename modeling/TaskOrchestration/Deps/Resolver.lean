import TaskOrchestration.Job.Model

set_option autoImplicit false

/-!
# The dependency resolver

The in-memory graph of `DependencyResolver`: a node for every registered job and for every job
that a registered job depends on.

* `register`, `isResolved`, `checkAllDependenciesMet`, `onJobStateChange`;
* `Unblocks`: what the loop of `onJobStateChange` asks of one dependent;
* `find?_wireDependency`, `register_unresolved`, `mem_dependentsOf_register`: what a registration
  does to the nodes and to the reverse edges;
* **`unblocked_eq_nil_iff`**: a state change unblocks nothing exactly when no dependent passes in
  the graph it finds, although the loop changes the graph while it runs.
-/

namespace TaskOrchestration.DependencyResolver

open TaskOrchestration

structure DepNode where
  jobId : JobId
  dependencies : List JobDependency
  dependents : List JobId
  isResolved : Bool
  deriving DecidableEq, Repr

/-- **The graph**: a map from job ids to nodes. -/
abbrev Graph := Table DepNode.jobId

/-- The graph of a resolver that has just been built. -/
def emptyGraph : Graph := Table.empty

/-- `if (!graph.has(node.jobId)) graph.set(node.jobId, node)`. -/
def setIfAbsent (g : Graph) (node : DepNode) : Graph := g.insertIfAbsent node

/-- `if (!dependents.includes(jobId)) dependents.push(jobId)`. -/
def pushDependent (jobId : JobId) (node : DepNode) : DepNode :=
  if jobId ∈ node.dependents then node else { node with dependents := node.dependents ++ [jobId] }

theorem pushDependent_jobId (jobId : JobId) (node : DepNode) :
    (pushDependent jobId node).jobId = node.jobId := by
  unfold pushDependent
  split_ifs <;> rfl

/-- Wire up the reverse edge of one dependency of the job. -/
def wireDependency (jobId : JobId) (g : Graph) (dep : JobDependency) : Graph :=
  let g' := setIfAbsent g
    { jobId := dep.jobId, dependencies := [], dependents := [], isResolved := true }
  g'.update dep.jobId (pushDependent jobId) (pushDependent_jobId jobId)

def register (g : Graph) (job : Job) : Graph :=
  let g' := setIfAbsent g
    { jobId := job.id, dependencies := job.dependencies, dependents := []
      isResolved := job.dependencies.length = 0 }
  job.dependencies.foldl (wireDependency job.id) g'

/-- `isResolved`: an unknown job counts as resolved. -/
def isResolved (g : Graph) (jobId : JobId) : Bool := ((g.find? jobId).map (·.isResolved)).getD true

/-- `checkAllDependenciesMet`: every dependency has a node, and that node is resolved. -/
def checkAllDependenciesMet (g : Graph) (node : DepNode) : Bool :=
  node.dependencies.all fun dep => (g.find? dep.jobId).any (·.isResolved)

/-- **The loop body's question**: the dependent has a node that is not resolved, the first of its
entries for the job asks for the status, and all its dependencies are met. -/
def Unblocks (g : Graph) (jobId : JobId) (newStatus : JobStatus) (dependentId : JobId) : Prop :=
  ∃ depNode ∈ g.find? dependentId, depNode.isResolved = false ∧
    ∃ jobDep ∈ depNode.dependencies.find? (fun d => d.jobId = jobId),
      newStatus ∈ jobDep.requireStatus ∧ checkAllDependenciesMet g depNode = true

instance (g : Graph) (jobId : JobId) (newStatus : JobStatus) (dependentId : JobId) :
    Decidable (Unblocks g jobId newStatus dependentId) := by
  unfold Unblocks; infer_instance

/-- `node.isResolved = true`. -/
def resolveNode (node : DepNode) : DepNode := { node with isResolved := true }

theorem resolveNode_jobId (node : DepNode) : (resolveNode node).jobId = node.jobId := rfl

/-- One turn of the loop of `onJobStateChange`: the graph and the list `unblocked`. -/
def visitDependent (jobId : JobId) (newStatus : JobStatus) (acc : Graph × List JobId)
    (dependentId : JobId) : Graph × List JobId :=
  if Unblocks acc.1 jobId newStatus dependentId then
    (acc.1.update dependentId resolveNode resolveNode_jobId, acc.2 ++ [dependentId])
  else acc

/-- `onJobStateChange`: the graph after the loop, and the ids that are now unblocked. -/
def onJobStateChange (g : Graph) (jobId : JobId) (newStatus : JobStatus) : Graph × List JobId :=
  match g.find? jobId with
  | none => (g, [])
  | some node => node.dependents.foldl (visitDependent jobId newStatus) (g, [])

def unblocked (g : Graph) (jobId : JobId) (newStatus : JobStatus) : List JobId :=
  (onJobStateChange g jobId newStatus).2

def dependentsOf (g : Graph) (jobId : JobId) : List JobId :=
  ((g.find? jobId).map (·.dependents)).getD []

/-! ## Registration -/

theorem find?_setIfAbsent (g : Graph) (node : DepNode) (k : JobId) :
    (setIfAbsent g node).find? k =
      if k = node.jobId then some ((g.find? k).getD node) else g.find? k :=
  Table.find?_insertIfAbsent g node k

/-- The node that `register` makes for a job that is only known as a dependency. -/
def placeholder (jobId : JobId) : DepNode :=
  { jobId := jobId, dependencies := [], dependents := [], isResolved := true }

theorem find?_wireDependency (jobId : JobId) (g : Graph) (dep : JobDependency) (k : JobId) :
    (wireDependency jobId g dep).find? k = if k = dep.jobId then
      some (pushDependent jobId ((g.find? k).getD (placeholder k))) else g.find? k := by
  rw [wireDependency]
  split_ifs with hk
  · subst hk
    rw [Table.find?_update_self, find?_setIfAbsent, if_pos rfl, Option.map_some]
    rfl
  · rw [Table.find?_update_ne _ _ _ hk, find?_setIfAbsent, if_neg hk]

theorem pushDependent_isResolved (jobId : JobId) (node : DepNode) :
    (pushDependent jobId node).isResolved = node.isResolved ∧
      (pushDependent jobId node).dependencies = node.dependencies := by
  unfold pushDependent
  split_ifs <;> exact ⟨rfl, rfl⟩

theorem mem_pushDependent {jobId a : JobId} {node : DepNode} :
    a ∈ (pushDependent jobId node).dependents ↔ a ∈ node.dependents ∨ a = jobId := by
  unfold pushDependent
  split_ifs with h
  · exact ⟨.inl, fun h' => h'.elim id fun h' => h' ▸ h⟩
  · simp

theorem foldl_wire_unresolved {jobId k : JobId} {deps : List JobDependency} {g : Graph}
    {n' : DepNode} (h : (deps.foldl (wireDependency jobId) g).find? k = some n')
    (hn : n'.isResolved = false) :
    ∃ n, g.find? k = some n ∧ n.isResolved = false ∧ n'.dependencies = n.dependencies := by
  induction deps generalizing g with
  | nil => exact ⟨n', h, hn, rfl⟩
  | cons dep deps ih =>
      obtain ⟨n, h₁, hr, hd⟩ := ih h
      rw [find?_wireDependency] at h₁
      split_ifs at h₁ with hk
      · obtain rfl := Option.some.inj h₁
        rw [(pushDependent_isResolved _ _).1] at hr
        rw [(pushDependent_isResolved _ _).2] at hd
        cases hg : g.find? k with
        | none => rw [hg] at hr; exact Bool.noConfusion hr
        | some n₀ => rw [hg] at hr hd; exact ⟨n₀, rfl, hr, hd⟩
      · exact ⟨n, h₁, hr, hd⟩

/-- **An unresolved node after a registration** was there before, or is the job's own. -/
theorem register_unresolved {g : Graph} {job : Job} {k : JobId} {n' : DepNode}
    (h : (register g job).find? k = some n') (hn : n'.isResolved = false) :
    (∃ n, g.find? k = some n ∧ n.isResolved = false ∧ n'.dependencies = n.dependencies) ∨
      (k = job.id ∧ n'.dependencies = job.dependencies) := by
  obtain ⟨n, h₁, hr, hd⟩ := foldl_wire_unresolved h hn
  rw [find?_setIfAbsent] at h₁
  split_ifs at h₁ with hk
  · cases hg : g.find? k with
    | none =>
        rw [hg] at h₁
        obtain rfl := Option.some.inj h₁
        exact .inr ⟨hk, hd⟩
    | some n₀ =>
        rw [hg] at h₁
        obtain rfl := Option.some.inj h₁
        exact .inl ⟨n₀, rfl, hr, hd⟩
  · exact .inl ⟨n, h₁, hr, hd⟩

theorem mem_dependentsOf {g : Graph} {k a : JobId} :
    a ∈ dependentsOf g k ↔ ∃ n, g.find? k = some n ∧ a ∈ n.dependents := by
  unfold dependentsOf
  cases g.find? k <;> simp

theorem dependentsOf_setIfAbsent {g : Graph} {node : DepNode} (hnode : node.dependents = [])
    (k : JobId) : dependentsOf (setIfAbsent g node) k = dependentsOf g k := by
  unfold dependentsOf
  rw [find?_setIfAbsent]
  split_ifs with hk
  · cases g.find? k <;> simp [hnode]
  · rfl

theorem mem_dependentsOf_wire {jobId k a : JobId} {g : Graph} {dep : JobDependency} :
    a ∈ dependentsOf (wireDependency jobId g dep) k ↔
      a ∈ dependentsOf g k ∨ (a = jobId ∧ k = dep.jobId) := by
  rw [dependentsOf, find?_wireDependency]
  split_ifs with hk
  · rw [Option.map_some, Option.getD_some, mem_pushDependent, dependentsOf]
    cases g.find? k <;> simp [placeholder, hk]
  · rw [← dependentsOf]
    simp [hk]

theorem mem_dependentsOf_foldl {jobId k a : JobId} (deps : List JobDependency) (g : Graph) :
    a ∈ dependentsOf (deps.foldl (wireDependency jobId) g) k ↔
      a ∈ dependentsOf g k ∨ (a = jobId ∧ ∃ dep ∈ deps, dep.jobId = k) := by
  induction deps generalizing g with
  | nil => simp
  | cons dep deps ih =>
      rw [List.foldl_cons, ih, mem_dependentsOf_wire, List.exists_mem_cons_iff, or_assoc,
        ← and_or_left, eq_comm (a := k)]

/-- **The reverse edges after a registration**: the job has become a dependent of the jobs its
entries name. -/
theorem mem_dependentsOf_register {g : Graph} {job : Job} {k a : JobId} :
    a ∈ dependentsOf (register g job) k ↔
      a ∈ dependentsOf g k ∨ (a = job.id ∧ ∃ dep ∈ job.dependencies, dep.jobId = k) := by
  rw [register, mem_dependentsOf_foldl, dependentsOf_setIfAbsent rfl]

theorem isResolved_eq_false {g : Graph} {k : JobId} :
    isResolved g k = false ↔ ∃ n, g.find? k = some n ∧ n.isResolved = false := by
  unfold isResolved
  cases g.find? k <;> simp

theorem checkAllDependenciesMet_iff {g : Graph} {node : DepNode} :
    checkAllDependenciesMet g node = true ↔
      ∀ d ∈ node.dependencies, (g.find? d.jobId).isSome ∧ isResolved g d.jobId = true := by
  rw [checkAllDependenciesMet, List.all_eq_true]
  refine forall₂_congr fun d _ => ?_
  unfold isResolved
  cases g.find? d.jobId <;> simp

/-! ## The loop -/

theorem onJobStateChange_eq (g : Graph) (jobId : JobId) (newStatus : JobStatus) :
    onJobStateChange g jobId newStatus =
      (dependentsOf g jobId).foldl (visitDependent jobId newStatus) (g, []) := by
  unfold onJobStateChange dependentsOf
  cases g.find? jobId <;> rfl

@[simp] theorem unblocked_emptyGraph (jobId : JobId) (newStatus : JobStatus) :
    unblocked emptyGraph jobId newStatus = [] := rfl

theorem prefix_foldl_visit (jobId : JobId) (newStatus : JobStatus) (l : List JobId)
    (acc : Graph × List JobId) : acc.2 <+: (l.foldl (visitDependent jobId newStatus) acc).2 := by
  induction l generalizing acc with
  | nil => exact List.prefix_rfl
  | cons a l ih =>
      refine List.IsPrefix.trans ?_ (ih _)
      unfold visitDependent
      split_ifs
      · exact List.prefix_append _ _
      · exact List.prefix_rfl

/-- The loop unblocks nothing exactly when no dependent passes at its start: until one passes,
the graph is the one it started with. -/
theorem foldl_visit_eq_nil_iff (g : Graph) (jobId : JobId) (newStatus : JobStatus)
    (l : List JobId) : (l.foldl (visitDependent jobId newStatus) (g, [])).2 = [] ↔
      ∀ a ∈ l, ¬ Unblocks g jobId newStatus a := by
  induction l with
  | nil => simp
  | cons a l ih =>
      rw [List.foldl_cons, List.forall_mem_cons]
      by_cases ha : Unblocks g jobId newStatus a
      · have hp := prefix_foldl_visit jobId newStatus l (visitDependent jobId newStatus (g, []) a)
        rw [visitDependent, if_pos ha] at hp ⊢
        constructor
        · intro h
          rw [h] at hp
          exact absurd (List.prefix_nil.mp hp) (by simp)
        · exact fun h => absurd ha h.1
      · rw [visitDependent, if_neg ha, ih]
        exact ⟨fun h => ⟨ha, h⟩, fun h => h.2⟩

/-- **A state change unblocks nothing exactly when no dependent passes.** -/
theorem unblocked_eq_nil_iff (g : Graph) (jobId : JobId) (newStatus : JobStatus) :
    unblocked g jobId newStatus = [] ↔
      ∀ a ∈ dependentsOf g jobId, ¬ Unblocks g jobId newStatus a := by
  rw [unblocked, onJobStateChange_eq, foldl_visit_eq_nil_iff]

end TaskOrchestration.DependencyResolver

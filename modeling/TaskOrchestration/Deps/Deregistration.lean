import TaskOrchestration.Lib.Run
import TaskOrchestration.Deps.Cycles

set_option autoImplicit false

/-!
# Registrations and deregistrations

A dependency is stored twice: as an entry of the job, and as a dependent of the job that is waited
for. `deregister` takes the job out of the lists of dependents that it is in, and its node goes with
its own list. A job that still waits for it keeps its entry.

* `deregister`, `core_deregister`, `dependentsOf_deregister`;
* `GraphCall`, `maintain`, `Supplied`: the runs;
* `InStep`: the two directions agree; `Backed`: what every run keeps; `Backed.inStep_iff`;
* `NotMissed`, **`in_step_iff`**; `reregistered_missed`.
-/

namespace TaskOrchestration.DependencyResolver

open LabelledRun JobRepository

/-- `dependents.filter((d) => d !== jobId)`. -/
def dropDependent (jobId : JobId) (node : DepNode) : DepNode :=
  { node with dependents := node.dependents.filter (· ≠ jobId) }

theorem dropDependent_jobId (jobId : JobId) (node : DepNode) :
    (dropDependent jobId node).jobId = node.jobId := rfl

/-- Clean up the reverse edge of one dependency of the job. -/
def unwireDependency (jobId : JobId) (g : Graph) (dep : JobDependency) : Graph :=
  g.update dep.jobId (dropDependent jobId) (dropDependent_jobId jobId)

def deregister (g : Graph) (jobId : JobId) : Graph :=
  match g.find? jobId with
  | none => g
  | some node => (node.dependencies.foldl (unwireDependency jobId) g).erase jobId

variable {g g' : Graph} {job : Job} {jobId a b k : JobId} {deps : JobId → List JobDependency}

/-! ## A deregistration -/

theorem core_foldl_unwire (jobId : JobId) (entries : List JobDependency) (g : Graph) (k : JobId) :
    core (entries.foldl (unwireDependency jobId) g) k = core g k := by
  induction entries generalizing g with
  | nil => rfl
  | cons dep entries ih =>
      rw [List.foldl_cons, ih, core, core, unwireDependency, Table.find?_update]
      split_ifs
      · cases g.find? k <;> rfl
      · rfl

/-- **The other nodes** keep their dependencies and their flags. -/
theorem core_deregister (g : Graph) (jobId k : JobId) :
    core (deregister g jobId) k = if k = jobId then none else core g k := by
  unfold deregister
  cases hn : g.find? jobId with
  | none =>
      split_ifs with hk
      · rw [core, hk, hn, Option.map_none]
      · rfl
  | some node =>
      dsimp only
      rw [← core_foldl_unwire jobId node.dependencies g k, core, Table.find?_erase]
      split_ifs <;> rfl

theorem dependentsOf_unwire (jobId : JobId) (g : Graph) (dep : JobDependency) (k : JobId) :
    dependentsOf (unwireDependency jobId g dep) k =
      if k = dep.jobId then (dependentsOf g k).filter (· ≠ jobId) else dependentsOf g k := by
  unfold dependentsOf
  rw [unwireDependency, Table.find?_update]
  split_ifs
  · cases g.find? k <;> rfl
  · rfl

theorem dependentsOf_foldl_unwire (jobId : JobId) (entries : List JobDependency) (g : Graph)
    (k : JobId) : dependentsOf (entries.foldl (unwireDependency jobId) g) k =
      if ∃ dep ∈ entries, dep.jobId = k then (dependentsOf g k).filter (· ≠ jobId)
      else dependentsOf g k := by
  induction entries generalizing g with
  | nil => simp
  | cons dep entries ih =>
      rw [List.foldl_cons, ih, dependentsOf_unwire]
      by_cases hk : k = dep.jobId
      · subst hk
        simp
      · simp [hk, Ne.symm hk]

/-- **The lists of dependents** after a deregistration: the job is taken out of those of the jobs it
names, and its own is gone. -/
theorem dependentsOf_deregister (g : Graph) (jobId k : JobId) :
    dependentsOf (deregister g jobId) k = if k = jobId then []
      else if k ∈ successors g jobId then (dependentsOf g k).filter (· ≠ jobId)
      else dependentsOf g k := by
  have herase : ∀ g : Graph, dependentsOf (g.erase jobId) k =
      if k = jobId then [] else dependentsOf g k := by
    intro g
    unfold dependentsOf
    rw [Table.find?_erase]
    split_ifs <;> rfl
  unfold deregister successors
  cases hn : g.find? jobId with
  | none =>
      split_ifs with hk hmem
      · rw [hk, dependentsOf, hn]
        rfl
      · cases hmem
      · rfl
  | some node =>
      simp only [herase, dependentsOf_foldl_unwire, Option.map_some, Option.getD_some, List.mem_map]

theorem mem_successors_deregister :
    a ∈ successors (deregister g jobId) b ↔ b ≠ jobId ∧ a ∈ successors g b := by
  rw [mem_successors_iff_core, mem_successors_iff_core, core_deregister]
  split_ifs with hb
  · exact iff_of_false (by rintro ⟨_, ⟨⟩, -⟩) fun h => h.1 hb
  · exact (and_iff_right hb).symm

theorem isSome_deregister :
    ((deregister g jobId).find? k).isSome ↔ k ≠ jobId ∧ (g.find? k).isSome := by
  rw [← isSome_core, ← isSome_core, core_deregister]
  split_ifs with hk
  · exact iff_of_false Bool.false_ne_true fun h => h.1 hk
  · exact (and_iff_right hk).symm

/-! ## Runs -/

inductive GraphCall
  | register (job : Job)
  | deregister (jobId : JobId)
  deriving DecidableEq

def maintain (g : Graph) : GraphCall → Option Graph
  | .register job => some (register g job)
  | .deregister jobId => some (deregister g jobId)

/-- **A job is registered** with the dependencies that it always has, while they are all in the
graph. -/
def Supplied (deps : JobId → List JobDependency) (g : Graph) : GraphCall → Prop
  | .register job =>
      job.dependencies = deps job.id ∧ ∀ dep ∈ job.dependencies, (g.find? dep.jobId).isSome
  | .deregister _ => True

instance (deps : JobId → List JobDependency) (g : Graph) (c : GraphCall) :
    Decidable (Supplied deps g c) := by
  cases c <;> unfold Supplied <;> infer_instance

/-- **The two directions are in step**: a job is a dependent of another one exactly if one of its
entries names it, and the lists of dependents name jobs in the graph, each once. -/
structure InStep (g : Graph) : Prop where
  edges : ∀ a b, (g.find? a).isSome → (g.find? b).isSome →
    (b ∈ dependentsOf g a ↔ a ∈ successors g b)
  known : ∀ a, ∀ b ∈ dependentsOf g a, (g.find? b).isSome
  nodup : ∀ a, (dependentsOf g a).Nodup

/-- **What every run keeps**: the nodes have the dependencies of their jobs, and a dependent is
backed by an entry. -/
structure Backed (deps : JobId → List JobDependency) (g : Graph) : Prop where
  declared : ∀ k n, g.find? k = some n → n.dependencies = deps k
  backed : ∀ a, ∀ b ∈ dependentsOf g a, a ∈ successors g b
  nodup : ∀ a, (dependentsOf g a).Nodup

theorem isSome_of_mem_successors (h : a ∈ successors g b) : (g.find? b).isSome := by
  obtain ⟨n, hn, -⟩ := mem_successors.mp h
  rw [hn]
  rfl

theorem Backed.inStep_iff (h : Backed deps g) : InStep g ↔
    ∀ a b, (g.find? a).isSome → a ∈ successors g b → b ∈ dependentsOf g a := by
  constructor
  · exact fun hs a b ha hab => (hs.edges a b ha (isSome_of_mem_successors hab)).mpr hab
  · intro hall
    exact ⟨fun a b ha _ => ⟨h.backed a b, hall a b ha⟩,
      fun a b hb => isSome_of_mem_successors (h.backed a b hb), h.nodup⟩

theorem backed_empty (deps : JobId → List JobDependency) : Backed deps emptyGraph := by
  refine ⟨fun k n hn => ?_, fun a b hb => ?_, fun a => ?_⟩
  · cases hn
  · rw [dependentsOf_emptyGraph] at hb
    cases hb
  · rw [dependentsOf_emptyGraph]
    exact List.nodup_nil

theorem inStep_empty : InStep emptyGraph :=
  (backed_empty fun _ => []).inStep_iff.mpr fun _ _ ha => by cases ha

/-! ### One call -/

theorem Backed.of_core (h : Backed deps g) {p : List JobDependency × Bool}
    (hp : core g k = some p) : p.1 = deps k := by
  obtain ⟨n, hn, rfl⟩ := Option.map_eq_some_iff.mp hp
  exact h.declared k n hn

/-- **The entries after a registration**: those of the job have been added, if they were not
there. -/
theorem Backed.mem_successors_register (h : Backed deps g) (hok : Supplied deps g (.register job)) :
    a ∈ successors (register g job) b ↔ a ∈ successors g b ∨ b = job.id ∧ Names job a := by
  obtain ⟨hdeps, hin⟩ := hok
  rw [mem_successors_iff_core, mem_successors_iff_core, core_register_of_known hin]
  cases hc : core g b with
  | none =>
      rw [Option.none_or]
      split_ifs with hb
      · constructor
        · rintro ⟨p, hp, hd⟩
          obtain rfl := Option.some.inj hp
          exact .inr ⟨hb, hd⟩
        · rintro (⟨p, ⟨⟩, -⟩ | ⟨-, hd⟩)
          exact ⟨_, rfl, hd⟩
      · exact ⟨.inl, fun hor => hor.resolve_right fun hc => hb hc.1⟩
  | some p =>
      rw [Option.some_or]
      refine ⟨.inl, ?_⟩
      rintro (hmem | ⟨rfl, hd⟩)
      · exact hmem
      · refine ⟨p, rfl, ?_⟩
        rw [h.of_core hc, ← hdeps]
        exact hd

theorem Backed.register (h : Backed deps g) (hok : Supplied deps g (.register job)) :
    Backed deps (register g job) := by
  refine ⟨fun k n hn => ?_, fun a b hb => ?_, fun a => ?_⟩
  · have hc : core (DependencyResolver.register g job) k = some (n.dependencies, n.isResolved) := by
      rw [core, hn, Option.map_some]
    rw [core_register_of_known hok.2] at hc
    cases hk : core g k with
    | some p =>
        rw [hk, Option.some_or] at hc
        obtain rfl := Option.some.inj hc
        exact h.of_core hk
    | none =>
        rw [hk, Option.none_or] at hc
        split_ifs at hc with hid
        rw [← (Prod.mk.inj (Option.some.inj hc)).1, hid]
        exact hok.1
  · rw [h.mem_successors_register hok]
    exact (mem_dependentsOf_register.mp hb).imp (h.backed a b) id
  · rcases dependentsOf_register g job a with he | ⟨hn, he⟩
    · exact he ▸ h.nodup a
    · rw [he]
      exact List.Nodup.append (h.nodup a) (List.nodup_singleton _) (List.disjoint_singleton.mpr hn)

/-- **The dependents after a deregistration**: the job is in no list any more. -/
theorem Backed.mem_dependentsOf_deregister (h : Backed deps g) :
    b ∈ dependentsOf (deregister g jobId) a ↔ a ≠ jobId ∧ b ≠ jobId ∧ b ∈ dependentsOf g a := by
  rw [dependentsOf_deregister]
  split_ifs with ha hmem
  · exact iff_of_false List.not_mem_nil fun hc => hc.1 ha
  · rw [List.mem_filter, decide_eq_true_iff, and_iff_right ha, and_comm]
  · rw [and_iff_right ha]
    refine (and_iff_right_of_imp fun hb => ?_).symm
    rintro rfl
    exact hmem (h.backed a b hb)

theorem Backed.deregister (h : Backed deps g) (jobId : JobId) :
    Backed deps (deregister g jobId) := by
  refine ⟨fun k n hn => ?_, fun a b hb => ?_, fun a => ?_⟩
  · have hc : core (DependencyResolver.deregister g jobId) k =
        some (n.dependencies, n.isResolved) := by
      rw [core, hn, Option.map_some]
    rw [core_deregister] at hc
    split_ifs at hc
    exact h.of_core hc
  · obtain ⟨-, hne, hb⟩ := h.mem_dependentsOf_deregister.mp hb
    exact mem_successors_deregister.mpr ⟨hne, h.backed a b hb⟩
  · rw [dependentsOf_deregister]
    split_ifs
    · exact List.nodup_nil
    · exact (h.nodup a).filter _
    · exact h.nodup a

/-! ### All of them -/

/-- **No registration brings an id back** that a job in the graph still names. -/
def NotMissed (g : Graph) : GraphCall → Prop
  | .register job => g.find? job.id = none → ∀ b, job.id ∉ successors g b
  | .deregister _ => True

/-- **A registration** keeps the directions in step exactly if the job is not missed. -/
theorem Backed.inStep_register_iff (h : Backed deps g) (hs : InStep g)
    (hok : Supplied deps g (.register job)) :
    InStep (DependencyResolver.register g job) ↔ NotMissed g (.register job) := by
  have hall := h.inStep_iff.mp hs
  rw [(h.register hok).inStep_iff]
  constructor
  · intro hall' hnew b hb
    -- the new node has no dependents, and none of its own entries names it
    have hin : ((DependencyResolver.register g job).find? job.id).isSome :=
      (isSome_register_of_known hok.2 job.id).mpr (.inr rfl)
    have hmem := hall' job.id b hin ((h.mem_successors_register hok).mpr (.inl hb))
    rcases mem_dependentsOf_register.mp hmem with hmem | ⟨-, dep, hdep, hid⟩
    · rw [dependentsOf, hnew] at hmem
      cases hmem
    · have hself := hok.2 dep hdep
      rw [hid, hnew] at hself
      cases hself
  · intro hgood a b ha hab
    rw [mem_dependentsOf_register]
    rcases (h.mem_successors_register hok).mp hab with hab | hab
    · refine .inl (hall a b ?_ hab)
      by_contra hnone
      obtain rfl := ((isSome_register_of_known hok.2 a).mp ha).resolve_left hnone
      exact hgood (Option.not_isSome_iff_eq_none.mp hnone) b hab
    · exact .inr hab

/-- **A deregistration** keeps them in step. -/
theorem Backed.inStep_deregister (h : Backed deps g) (hs : InStep g) (jobId : JobId) :
    InStep (DependencyResolver.deregister g jobId) := by
  rw [(h.deregister jobId).inStep_iff]
  intro a b ha hab
  obtain ⟨hane, ha⟩ := isSome_deregister.mp ha
  obtain ⟨hbne, hab⟩ := mem_successors_deregister.mp hab
  exact h.mem_dependentsOf_deregister.mpr ⟨hane, hbne, h.inStep_iff.mp hs a b ha hab⟩

/-- **The two directions stay in step** all along exactly the runs in which no registration brings
an id back that a job in the graph still names. -/
theorem in_step_iff {calls : List GraphCall}
    (h : Run maintain (stateGuard (Supplied deps)) emptyGraph calls g) :
    Always maintain emptyGraph InStep calls ↔
      Run maintain (stateGuard NotMissed) emptyGraph calls g := by
  refine Run.always_iff (I := Backed deps) (backed_empty deps) inStep_empty ?_ h
  intro _ g c g' hb hs hok hstep
  cases c with
  | register job =>
      obtain rfl := Option.some.inj hstep
      exact ⟨hb.register hok, hb.inStep_register_iff hs hok⟩
  | deregister jobId =>
      obtain rfl := Option.some.inj hstep
      exact ⟨hb.deregister jobId, iff_of_true (hb.inStep_deregister hs jobId) trivial⟩

/-- The dependencies of two jobs, `b` waiting for `a`. -/
def pairDependencies (id : JobId) : List JobDependency :=
  (waitingJob id (if id = "b" then ["a"] else [])).dependencies

theorem pair_in_step : ∃ g,
    Run maintain (stateGuard (Supplied pairDependencies)) emptyGraph
      [.register (waitingJob "a" []), .register (waitingJob "b" ["a"]), .deregister "b",
        .deregister "a", .register (waitingJob "a" [])] g ∧
    (Always maintain emptyGraph InStep
        [.register (waitingJob "a" []), .register (waitingJob "b" ["a"]), .deregister "b",
          .deregister "a", .register (waitingJob "a" [])] ↔
      Run maintain (stateGuard NotMissed) emptyGraph
        [.register (waitingJob "a" []), .register (waitingJob "b" ["a"]), .deregister "b",
          .deregister "a", .register (waitingJob "a" [])] g) := by
  obtain ⟨g, hrun, -⟩ := exists_run_of_check maintain (stateGuard (Supplied pairDependencies))
    emptyGraph [.register (waitingJob "a" []), .register (waitingJob "b" ["a"]), .deregister "b",
      .deregister "a", .register (waitingJob "a" [])] (fun _ => true) (by decide)
  exact ⟨g, hrun, in_step_iff hrun⟩

/-- **A job is missed**: `a` is deregistered while `b` waits for it, and registered again. -/
theorem reregistered_missed : ¬ ∀ (deps : JobId → List JobDependency) (calls : List GraphCall)
    (g : Graph), Run maintain (stateGuard (Supplied deps)) emptyGraph calls g → InStep g := by
  intro h
  obtain ⟨g, hrun, hg⟩ := exists_run_of_check maintain (stateGuard (Supplied pairDependencies))
    emptyGraph [.register (waitingJob "a" []), .register (waitingJob "b" ["a"]), .deregister "a",
      .register (waitingJob "a" [])]
    (fun g => (g.find? "a").isSome && (g.find? "b").isSome && dependentsOf g "a" = [] &&
      successors g "b" = ["a"]) (by decide)
  simp only [Bool.and_eq_true, decide_eq_true_eq] at hg
  obtain ⟨⟨⟨ha, hb⟩, hd⟩, hs⟩ := hg
  have hedge := ((h _ _ g hrun).edges "a" "b" ha hb).mpr (hs ▸ List.mem_singleton_self "a")
  rw [hd] at hedge
  cases hedge

end TaskOrchestration.DependencyResolver

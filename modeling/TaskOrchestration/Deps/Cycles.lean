import TaskOrchestration.Lib.Search
import TaskOrchestration.Deps.Registration

set_option autoImplicit false

/-!
# The validation of the dependency graph

`validateNoCycles` searches the graph that the registrations have left. A placeholder has no
dependencies, so the search does not go on from it.

* `successors`, **`validateNoCycles`**; `throwsCycle_iff`, **`cycle_search_exact`**: on any graph;
* `Declares`: the dependencies that the jobs declare; `Kept`: those that the graph has;
* `kept_cycle`: a cycle of the graph is a job that names itself;
* **`sees_declared_cycles_iff`**; `two_jobs_not_seen`.
-/

namespace TaskOrchestration.DependencyResolver

open JobRepository CycleSearch Relation

/-- The ids that the dependencies of a node name. -/
def successors (g : Graph) (id : JobId) : List JobId :=
  ((g.find? id).map fun n => n.dependencies.map (·.jobId)).getD []

/-- `validateNoCycles`: the message it throws, if it throws. `none` means that the search has not
come to an end. -/
def validateNoCycles (g : Graph) (jobIds : List JobId) : Option (Except String Unit) :=
  match dfsAll (successors g) (g.rows.length + 1) jobIds with
  | .ok _ => some (.ok ())
  | .error (.cycle cycle) =>
      some (.error ("Circular dependency detected: " ++ " → ".intercalate cycle))
  | .error .outOfFuel => none

def ThrowsCycle (g : Graph) (jobIds : List JobId) : Prop :=
  ∃ msg, validateNoCycles g jobIds = some (.error msg)

/-- The job `a` declares that it depends on `b`. -/
def Declares (jobs : List Job) (a b : JobId) : Prop := ∃ job ∈ jobs, job.id = a ∧ Names job b

/-- The same of a job that is registered before every other job that names it. -/
def Kept (jobs : List Job) (a b : JobId) : Prop :=
  ∃ job ∈ jobs, job.id = a ∧ RegisteredFirst jobs job ∧ Names job b

variable {g : Graph} {jobs : List Job} {jobIds : List JobId} {a b : JobId}

theorem mem_successors :
    b ∈ successors g a ↔ ∃ n, g.find? a = some n ∧ ∃ d ∈ n.dependencies, d.jobId = b := by
  unfold successors
  cases g.find? a <;> simp

theorem mem_rows_of_successors (g : Graph) (a : JobId) (ha : successors g a ≠ []) :
    a ∈ g.rows.map DepNode.jobId := by
  obtain ⟨b, hb⟩ := List.exists_mem_of_ne_nil _ ha
  obtain ⟨n, hn, -⟩ := mem_successors.mp hb
  obtain ⟨hmem, rfl⟩ := Table.find?_eq_some.mp hn
  exact List.mem_map_of_mem hmem

/-- **The search of a graph** comes to an end, and throws exactly when a cycle is reachable. -/
theorem throwsCycle_iff (g : Graph) (jobIds : List JobId) :
    (validateNoCycles g jobIds).isSome ∧
      (ThrowsCycle g jobIds ↔ ∃ id ∈ jobIds, ReachesCycle (Edge (successors g)) id) := by
  obtain ⟨hfuel, hiff⟩ := dfsAll_stops_iff (mem_rows_of_successors g) jobIds
  rw [List.length_map] at hfuel hiff
  rw [← hiff, ThrowsCycle, validateNoCycles]
  cases hr : dfsAll (successors g) (g.rows.length + 1) jobIds with
  | ok s => simp
  | error e =>
      cases e with
      | cycle p => simp
      | outOfFuel => exact absurd hr hfuel

theorem closedWalk_of_throws {msg : String} (h : validateNoCycles g jobIds = some (.error msg)) :
    ∃ cycle, msg = "Circular dependency detected: " ++ " → ".intercalate cycle ∧
      ClosedWalk (Edge (successors g)) cycle := by
  unfold validateNoCycles at h
  split at h
  · cases h
  · rename_i cycle hr
    obtain rfl := Except.error.inj (Option.some.inj h)
    exact ⟨cycle, rfl, closedWalk_of_dfsAll hr⟩
  · cases h

/-- **The cycle search is exact** on any graph: it comes to an end, throws exactly when a cycle is
reachable from one of the ids, and the message lists a closed walk along the dependencies. The
search looks a node up under its id and reads its dependencies only. -/
theorem cycle_search_exact (g : Graph) (jobIds : List JobId) :
    (validateNoCycles g jobIds).isSome ∧
      (ThrowsCycle g jobIds ↔ ∃ id ∈ jobIds, ReachesCycle (Edge (successors g)) id) ∧
      ∀ msg, validateNoCycles g jobIds = some (.error msg) →
        ∃ cycle, msg = "Circular dependency detected: " ++ " → ".intercalate cycle ∧
          ClosedWalk (Edge (successors g)) cycle :=
  ⟨(throwsCycle_iff g jobIds).1, (throwsCycle_iff g jobIds).2, fun _ => closedWalk_of_throws⟩

/-! ## What the registrations keep -/

theorem mem_successors_iff_core :
    b ∈ successors g a ↔ ∃ p, core g a = some p ∧ ∃ d ∈ p.1, d.jobId = b := by
  rw [mem_successors]
  unfold core
  cases g.find? a <;> simp

/-- **The edges of the graph** are the dependencies of the jobs that are registered first. -/
theorem mem_successors_registerAll (hnd : (jobs.map Job.id).Nodup) :
    b ∈ successors (registerAll emptyGraph jobs) a ↔ Kept jobs a b := by
  rw [mem_successors_iff_core]
  constructor
  · rintro ⟨p, hp, d, hd, rfl⟩
    rw [core_registerAll, core_emptyGraph, Option.none_or] at hp
    obtain ⟨job, hjob, rfl⟩ := Option.map_eq_some_iff.mp hp
    unfold made at hd
    split_ifs at hd with hid
    · subst hid
      exact ⟨job, List.mem_of_find?_eq_some hjob, rfl, (registeredFirst_iff hnd).mpr hjob, d, hd,
        rfl⟩
    · exact absurd hd List.not_mem_nil
  · rintro ⟨job, -, rfl, hfirst, hn⟩
    exact ⟨_, core_of_registeredFirst hnd hfirst, hn⟩

theorem edge_registerAll (hnd : (jobs.map Job.id).Nodup) :
    Edge (successors (registerAll emptyGraph jobs)) = Kept jobs := by
  funext a b
  exact propext (mem_successors_registerAll hnd)

theorem Kept.declares (h : Kept jobs a b) : Declares jobs a b := by
  obtain ⟨job, hjob, hid, -, hn⟩ := h
  exact ⟨job, hjob, hid, hn⟩

theorem reachesCycle_declares (h : ReachesCycle (Kept jobs) a) :
    ReachesCycle (Declares jobs) a := by
  obtain ⟨c, hac, hcc⟩ := h
  have hle : Kept jobs ≤ Declares jobs := fun _ _ => Kept.declares
  exact ⟨c, ReflTransGen.mono hle _ _ hac, TransGen.mono hle _ _ hcc⟩

theorem idxOf_lt (hnd : (jobs.map Job.id).Nodup) {c : JobId} (hab : Kept jobs a b)
    (hbc : Kept jobs b c) (hne : a ≠ b) :
    (jobs.map Job.id).idxOf b < (jobs.map Job.id).idxOf a := by
  obtain ⟨ja, hja, rfl, -, hn⟩ := hab
  obtain ⟨jb, -, rfl, ⟨pre, post, rfl, hpre⟩, -⟩ := hbc
  have ha : ja.id ∉ pre.map Job.id := by
    intro hmem
    obtain ⟨other, ho, hid⟩ := List.mem_map.mp hmem
    obtain rfl := List.inj_on_of_nodup_map hnd (List.mem_append_left _ ho) hja hid
    exact hpre other ho hn
  have hb : jb.id ∉ pre.map Job.id := by
    rw [List.map_append, List.map_cons, List.nodup_middle, List.nodup_cons] at hnd
    exact fun hmem => hnd.1 (List.mem_append_left _ hmem)
  rw [List.map_append, List.map_cons, List.idxOf_append_of_notMem hb, List.idxOf_cons_self,
    List.idxOf_append_of_notMem ha, List.idxOf_cons_ne _ hne.symm]
  omega

/-- **A cycle of the graph** is a job that names itself. -/
theorem kept_cycle (hnd : (jobs.map Job.id).Nodup) {c : JobId} (h : TransGen (Kept jobs) c c) :
    Kept jobs c c := by
  -- along a path to a job that has edges, the place decreases, unless the path stays at the job
  have hpath : ∀ a b d, TransGen (Kept jobs) a b → Kept jobs b d →
      (a = b ∧ Kept jobs a a) ∨ (jobs.map Job.id).idxOf b < (jobs.map Job.id).idxOf a := by
    intro a b d hab hbd
    induction hab using TransGen.head_induction_on with
    | single hab =>
        rename_i a
        by_cases hne : a = b
        · subst hne
          exact .inl ⟨rfl, hab⟩
        · exact .inr (idxOf_lt hnd hab hbd hne)
    | head hae heb ih =>
        rename_i a e
        by_cases hne : a = e
        · subst hne
          exact ih
        · obtain ⟨f, hef, -⟩ := TransGen.head'_iff.mp heb
          have hlt := idxOf_lt hnd hae hef hne
          rcases ih with ⟨rfl, -⟩ | ih
          · exact .inr hlt
          · exact .inr (ih.trans hlt)
  obtain ⟨d, hcd, -⟩ := TransGen.head'_iff.mp h
  rcases hpath c c d h hcd with ⟨-, hc⟩ | hlt
  · exact hc
  · exact absurd hlt (lt_irrefl _)

/-- **When a declared cycle is seen**: a job that names itself is reachable over jobs that are
registered before all others that name them. -/
def SeesCycle (jobs : List Job) (jobIds : List JobId) : Prop :=
  ∃ id ∈ jobIds, ∃ c, ReflTransGen (Kept jobs) id c ∧ Kept jobs c c

theorem throwsCycle_registerAll_iff (hnd : (jobs.map Job.id).Nodup) :
    ThrowsCycle (registerAll emptyGraph jobs) jobIds ↔ SeesCycle jobs jobIds := by
  rw [(throwsCycle_iff _ _).2, edge_registerAll hnd]
  constructor
  · rintro ⟨id, hid, c, hc, hcc⟩
    exact ⟨id, hid, c, hc, kept_cycle hnd hcc⟩
  · rintro ⟨id, hid, c, hc, hcc⟩
    exact ⟨id, hid, c, hc, .single hcc⟩

/-- **The validation sees the declared cycles exactly when** one that is reachable is a job that
names itself, and the jobs on the way to it were registered before all others that name them. The
search always comes to an end. -/
theorem sees_declared_cycles_iff (hnd : (jobs.map Job.id).Nodup) (jobIds : List JobId) :
    (validateNoCycles (registerAll emptyGraph jobs) jobIds).isSome ∧
      ((ThrowsCycle (registerAll emptyGraph jobs) jobIds ↔
          ∃ id ∈ jobIds, ReachesCycle (Declares jobs) id) ↔
        ((∃ id ∈ jobIds, ReachesCycle (Declares jobs) id) → SeesCycle jobs jobIds)) := by
  refine ⟨(throwsCycle_iff _ _).1, ?_⟩
  rw [throwsCycle_registerAll_iff hnd]
  refine ⟨fun h => h.mpr, fun h => ⟨?_, h⟩⟩
  rintro ⟨id, hid, c, hc, hcc⟩
  exact ⟨id, hid, reachesCycle_declares ⟨c, hc, .single hcc⟩⟩

/-- `c` names itself, and `b`, which waits for `a`. -/
theorem self_dependency_seen :
    ThrowsCycle (registerAll emptyGraph
        [waitingJob "a" [], waitingJob "b" ["a"], waitingJob "c" ["b", "c"]]) ["a", "c"] ↔
      ∃ id ∈ ["a", "c"], ReachesCycle
        (Declares [waitingJob "a" [], waitingJob "b" ["a"], waitingJob "c" ["b", "c"]]) id := by
  refine ((sees_declared_cycles_iff (by decide) _).2).mpr fun _ => ?_
  refine ⟨"c", by decide, "c", .refl, waitingJob "c" ["b", "c"], by decide, rfl, ?_, by decide⟩
  rw [registeredFirst_iff (by decide)]
  decide

/-- **Two jobs that wait for each other** are not seen: the registration of the first makes the
placeholder of the second. -/
theorem two_jobs_not_seen : ¬ ∀ (jobs : List Job) (jobIds : List JobId), (jobs.map Job.id).Nodup →
    (ThrowsCycle (registerAll emptyGraph jobs) jobIds ↔
      ∃ id ∈ jobIds, ReachesCycle (Declares jobs) id) := by
  intro h
  have hab : Declares [waitingJob "a" ["b"], waitingJob "b" ["a"]] "a" "b" :=
    ⟨waitingJob "a" ["b"], by decide, rfl, by decide⟩
  have hba : Declares [waitingJob "a" ["b"], waitingJob "b" ["a"]] "b" "a" :=
    ⟨waitingJob "b" ["a"], by decide, rfl, by decide⟩
  obtain ⟨msg, hmsg⟩ := (h [waitingJob "a" ["b"], waitingJob "b" ["a"]] ["a", "b"] (by decide)).mpr
    ⟨"a", by decide, "a", .refl, .head hab (.single hba)⟩
  have hnone : validateNoCycles
      (registerAll emptyGraph [waitingJob "a" ["b"], waitingJob "b" ["a"]]) ["a", "b"] =
        some (.ok ()) := by decide
  rw [hnone] at hmsg
  cases hmsg

end TaskOrchestration.DependencyResolver

import TaskOrchestration.Deps.Cycles
import TaskOrchestration.Deps.Unblocking

set_option autoImplicit false

/-!
# Duplicate state changes

The loop of `onJobStateChange` goes once over the dependents. A job that it resolves can complete
the dependencies of another one, but only of a later one: the dependents are in the order of
registration, and dependencies are registered before.

* `not_unblocks_foldl`, **`settled_foldl`**: the loop leaves no dependent that passes;
* `Call`, `InOrderCall`: registrations and state changes in any order;
* `InOrder`: the order of registration in the graph; `InOrder.register`, `InOrder.again`;
* `returned`: what the state changes of a run return; **`duplicates_harmless`**.
-/

namespace TaskOrchestration.DependencyResolver

open LabelledRun JobRepository

variable {g g' : Graph} {ids l : List JobId} {job : Job} {jobId k x : JobId}
  {newStatus : JobStatus} {acc : Graph × List JobId}

/-! ## The loop, once more -/

theorem isResolved_foldl_visit (hk : k ∉ l) :
    isResolved (l.foldl (visitDependent jobId newStatus) acc).1 k = isResolved acc.1 k := by
  induction l generalizing acc with
  | nil => rfl
  | cons a l ih =>
      rw [List.mem_cons, not_or] at hk
      rw [List.foldl_cons, ih hk.2]
      rcases visit_cases jobId newStatus acc a with ⟨he, -⟩ | ⟨-, -, -, hr⟩
      · rw [he]
      · rw [hr, decide_eq_false hk.1, Bool.or_false]

theorem Advances.successors_eq (h : Advances g g') (k : JobId) :
    successors g' k = successors g k := by
  unfold successors
  rcases h k with h | ⟨n, hn, h⟩
  · rw [h]
  · rw [h, hn]
    rfl

theorem mem_successors_of_find? {n : DepNode} (hn : g.find? k = some n) {d : JobDependency}
    (hd : d ∈ n.dependencies) : d.jobId ∈ successors g k :=
  mem_successors.mpr ⟨n, hn, d, hd, rfl⟩

theorem not_unblocks_foldl (hx : ¬ Unblocks acc.1 jobId newStatus x)
    (hdeps : ∀ y ∈ successors acc.1 x, y ∉ l) :
    ¬ Unblocks (l.foldl (visitDependent jobId newStatus) acc).1 jobId newStatus x := by
  have hadv : Advances acc.1 (l.foldl (visitDependent jobId newStatus) acc).1 :=
    advances_foldl_visit l acc
  rintro ⟨n, hn, hr, jobDep, hd, hst, hmet⟩
  rcases hadv x with he | ⟨n₀, -, he⟩
  · rw [he] at hn
    refine hx ⟨n, hn, hr, jobDep, hd, hst, checkAllDependenciesMet_iff.mpr fun d hmem => ?_⟩
    obtain ⟨hsome, hres⟩ := checkAllDependenciesMet_iff.mp hmet d hmem
    rw [isResolved_foldl_visit (hdeps _ (mem_successors_of_find? hn hmem))] at hres
    exact ⟨hadv.isSome ▸ hsome, hres⟩
  · -- it has been resolved
    obtain rfl := Option.some.inj (he.symm.trans hn)
    cases hr

/-- **The loop leaves no dependent that passes**, if each comes after its dependencies. -/
theorem settled_foldl (hl : l.Pairwise fun x y => y ∉ successors acc.1 x) :
    ∀ x ∈ l, ¬ Unblocks (l.foldl (visitDependent jobId newStatus) acc).1 jobId newStatus x := by
  induction l generalizing acc with
  | nil => exact fun _ hx => absurd hx List.not_mem_nil
  | cons a l ih =>
      have hadv : Advances acc.1 (visitDependent jobId newStatus acc a).1 := advances_visit acc a
      obtain ⟨ha, hl⟩ := List.pairwise_cons.mp hl
      rw [List.foldl_cons]
      refine List.forall_mem_cons.mpr ⟨not_unblocks_foldl ?_ fun y hy hmem => ?_, ih ?_⟩
      · rcases visit_cases jobId newStatus acc a with ⟨he, hn⟩ | ⟨-, -, -, hr⟩
        · rwa [he]
        · rintro ⟨n, hn, hfalse, -⟩
          have htrue := hr a
          rw [isResolved_eq_false.mpr ⟨n, hn, hfalse⟩, decide_eq_true rfl, Bool.or_true] at htrue
          cases htrue
      · rw [hadv.successors_eq] at hy
        exact ha y hmem hy
      · refine hl.imp fun hxy => ?_
        rwa [hadv.successors_eq]

theorem foldl_visit_eq_self (h : ∀ x ∈ l, ¬ Unblocks acc.1 jobId newStatus x) :
    l.foldl (visitDependent jobId newStatus) acc = acc := by
  induction l with
  | nil => rfl
  | cons a l ih =>
      obtain ⟨ha, hl⟩ := List.forall_mem_cons.mp h
      rw [List.foldl_cons, visitDependent, if_neg ha, ih hl]

theorem foldl_visit_append (g : Graph) (r : List JobId) :
    l.foldl (visitDependent jobId newStatus) (g, r) =
      ((l.foldl (visitDependent jobId newStatus) (g, [])).1,
        r ++ (l.foldl (visitDependent jobId newStatus) (g, [])).2) := by
  induction l generalizing g r with
  | nil => simp
  | cons a l ih =>
      rw [List.foldl_cons, List.foldl_cons]
      by_cases ha : Unblocks g jobId newStatus a
      · rw [visitDependent, visitDependent, if_pos ha, if_pos ha, ih, ih _ ([] ++ [a])]
        simp
      · rw [visitDependent, visitDependent, if_neg ha, if_neg ha, ih]

/-- **What has been returned** is resolved, and listed once. -/
structure Delivered (acc : Graph × List JobId) : Prop where
  resolved : ∀ a ∈ acc.2, ∃ n, acc.1.find? a = some n ∧ n.isResolved = true
  nodup : acc.2.Nodup

theorem Delivered.visit (h : Delivered acc) (a : JobId) :
    Delivered (visitDependent jobId newStatus acc a) := by
  unfold visitDependent
  split_ifs with hu
  · obtain ⟨n, hn, hr, -⟩ := hu
    have hn : acc.1.find? a = some n := hn
    have hnew : a ∉ acc.2 := by
      intro hmem
      obtain ⟨n', hn', hr'⟩ := h.resolved a hmem
      obtain rfl := Option.some.inj (hn.symm.trans hn')
      rw [hr] at hr'
      cases hr'
    refine ⟨fun b hb => ?_, List.Nodup.append h.nodup (List.nodup_singleton a)
      (List.disjoint_singleton.mpr hnew)⟩
    dsimp only
    rw [Table.find?_update]
    split_ifs with hba
    · subst hba
      exact ⟨resolveNode n, by rw [hn, Option.map_some], rfl⟩
    · exact h.resolved b ((List.mem_append.mp hb).resolve_right fun hb =>
        hba (List.mem_singleton.mp hb))
  · exact h

theorem Delivered.foldl (h : Delivered acc) :
    Delivered (l.foldl (visitDependent jobId newStatus) acc) :=
  List.foldlRecOn l _ h fun _ hacc a _ => hacc.visit a

/-! ## The order of registration -/

/-- **The jobs have been registered in the order of `ids`**, each after its dependencies, and every
list of dependents is in this order. -/
structure InOrder (ids : List JobId) (g : Graph) : Prop where
  node : ∀ k, (g.find? k).isSome ↔ k ∈ ids
  earlier : ids.Pairwise fun x y => y ∉ successors g x
  closed : ∀ k, ∀ y ∈ successors g k, y ∈ ids
  dependents : ∀ k, (dependentsOf g k).Sublist ids

theorem inOrder_empty : InOrder [] emptyGraph :=
  ⟨fun k => by simp [emptyGraph, Table.empty, Table.find?], List.Pairwise.nil,
    fun k y hy => by simp [successors, emptyGraph, Table.empty, Table.find?] at hy,
    fun k => dependentsOf_emptyGraph k ▸ List.Sublist.refl []⟩

theorem InOrder.advances (h : InOrder ids g) (ha : Advances g g') : InOrder ids g' := by
  refine ⟨fun k => ?_, h.earlier.imp fun hxy => ?_, fun k y hy => ?_, fun k => ?_⟩
  · rw [ha.isSome]
    exact h.node k
  · rwa [ha.successors_eq]
  · rw [ha.successors_eq] at hy
    exact h.closed k y hy
  · rw [ha.dependentsOf_eq]
    exact h.dependents k

theorem InOrder.again (h : InOrder ids g) (jobId : JobId) (newStatus : JobStatus) :
    onJobStateChange (onJobStateChange g jobId newStatus).1 jobId newStatus =
      ((onJobStateChange g jobId newStatus).1, []) := by
  have hadv := advances_onJobStateChange g jobId newStatus
  have hsettled : ∀ x ∈ dependentsOf g jobId,
      ¬ Unblocks (onJobStateChange g jobId newStatus).1 jobId newStatus x := by
    rw [onJobStateChange_eq]
    exact settled_foldl (h.earlier.sublist (h.dependents jobId))
  rw [onJobStateChange_eq (onJobStateChange g jobId newStatus).1, hadv.dependentsOf_eq]
  exact foldl_visit_eq_self hsettled

theorem InOrder.register (h : InOrder ids g) (hnew : g.find? job.id = none)
    (hdeps : ∀ dep ∈ job.dependencies, (g.find? dep.jobId).isSome) :
    InOrder (ids ++ [job.id]) (register g job) := by
  have hcore := core_register_new hnew hdeps
  have hid : job.id ∉ ids := by
    rw [← h.node, hnew]
    exact Bool.false_ne_true
  have hsucc : ∀ k y, y ∈ successors (DependencyResolver.register g job) k ↔
      if k = job.id then Names job y else y ∈ successors g k := by
    intro k y
    rw [mem_successors_iff_core, hcore]
    split_ifs
    · constructor
      · rintro ⟨p, hp, hd⟩
        obtain rfl := Option.some.inj hp
        exact hd
      · exact fun hn => ⟨_, rfl, hn⟩
    · exact mem_successors_iff_core.symm
  refine ⟨fun k => ?_, ?_, fun k y hy => ?_, fun k => ?_⟩
  · rw [isSome_register_of_known hdeps, List.mem_append, List.mem_singleton, h.node]
  · refine List.pairwise_append.mpr ⟨?_, List.pairwise_singleton _ _, fun x hx y hy => ?_⟩
    · refine (List.Pairwise.and_mem.mp h.earlier).imp fun {x y} hxy => ?_
      have hne : x ≠ job.id := fun he => hid (he ▸ hxy.1)
      rw [hsucc, if_neg hne]
      exact hxy.2.2
    · have hne : x ≠ job.id := fun he => hid (he ▸ hx)
      rw [hsucc, if_neg hne, List.mem_singleton.mp hy]
      exact fun hmem => hid (h.closed x _ hmem)
  · rw [hsucc] at hy
    apply List.mem_append_left
    split_ifs at hy
    · obtain ⟨dep, hdep, rfl⟩ := hy
      exact (h.node _).mp (hdeps dep hdep)
    · exact h.closed k y hy
  · rcases dependentsOf_register g job k with he | ⟨-, he⟩
    · rw [he]
      exact (h.dependents k).trans (List.sublist_append_left ids _)
    · rw [he]
      exact (h.dependents k).append (List.Sublist.refl _)

/-! ## Runs -/

/-- A call of the resolver. -/
inductive Call
  | register (job : Job)
  | stateChange (jobId : JobId) (newStatus : JobStatus)
  deriving DecidableEq

def serve (g : Graph) : Call → Option Graph
  | .register job => some (register g job)
  | .stateChange jobId newStatus => some (onJobStateChange g jobId newStatus).1

/-- **A job is registered** under a fresh id, after its dependencies. -/
def InOrderCall (g : Graph) : Call → Prop
  | .register job =>
      g.find? job.id = none ∧ ∀ dep ∈ job.dependencies, (g.find? dep.jobId).isSome
  | .stateChange _ _ => True

instance (g : Graph) (c : Call) : Decidable (InOrderCall g c) := by
  cases c <;> unfold InOrderCall <;> infer_instance

def returnedBy (g : Graph) : Call → List JobId
  | .register _ => []
  | .stateChange jobId newStatus => unblocked g jobId newStatus

/-- **What the calls return**, one after the other. -/
def returned (g : Graph) (calls : List Call) : List JobId :=
  observe serve (fun ids g c => ids ++ returnedBy g c) [] g calls

theorem resolved_register {n : DepNode} (hn : g.find? k = some n) (hr : n.isResolved = true) :
    ∃ n', (register g job).find? k = some n' ∧ n'.isResolved = true := by
  have hc := core_register g job k
  rw [core, core, hn, Option.map_some, Option.some_or] at hc
  obtain ⟨n', hn', he⟩ := Option.map_eq_some_iff.mp hc
  exact ⟨n', hn', (congrArg Prod.snd he).trans hr⟩

theorem run_inOrder {calls : List Call}
    (h : Run serve (stateGuard InOrderCall) emptyGraph calls g) :
    (∃ ids, InOrder ids g) ∧ Delivered (g, returned emptyGraph calls) := by
  induction h with
  | nil => exact ⟨⟨[], inOrder_empty⟩, by simp [returned, observe], List.nodup_nil⟩
  | @snoc calls g g' c hr hok hs ih =>
      obtain ⟨⟨ids, hids⟩, hdel⟩ := ih
      rw [returned, observe_snoc hr.runEvents_eq hs, ← returned]
      cases c with
      | register job =>
          obtain rfl := Option.some.inj hs
          refine ⟨⟨_, hids.register hok.1 hok.2⟩, fun a ha => ?_, ?_⟩
          · rw [returnedBy, List.append_nil] at ha
            obtain ⟨n, hn, hr⟩ := hdel.resolved a ha
            exact resolved_register hn hr
          · rw [returnedBy, List.append_nil]
            exact hdel.nodup
      | stateChange jobId newStatus =>
          obtain rfl := Option.some.inj hs
          refine ⟨⟨ids, hids.advances (advances_onJobStateChange g jobId newStatus)⟩, ?_⟩
          have hfold : Delivered ((dependentsOf g jobId).foldl (visitDependent jobId newStatus)
              (g, returned emptyGraph calls)) := hdel.foldl
          rwa [foldl_visit_append, ← onJobStateChange_eq] at hfold

/-- **Duplicate state changes are harmless.** After registrations under fresh ids, each after its
dependencies, and state changes in any order, a state change that is reported twice returns nothing
the second time, and leaves the graph as it is; and all along no id has been returned twice. -/
theorem duplicates_harmless {calls : List Call}
    (h : Run serve (stateGuard InOrderCall) emptyGraph calls g) :
    (∀ jobId newStatus,
      onJobStateChange (onJobStateChange g jobId newStatus).1 jobId newStatus =
        ((onJobStateChange g jobId newStatus).1, [])) ∧
      (returned emptyGraph calls).Nodup := by
  obtain ⟨⟨ids, hids⟩, hdel⟩ := run_inOrder h
  exact ⟨hids.again, hdel.nodup⟩

/-- `c` waits for `a` and `b`, and `b` for `a`: one report of `a` unblocks both, a second none. -/
theorem diamond_reported_twice : ∃ g,
    Run serve (stateGuard InOrderCall) emptyGraph
      [.register (waitingJob "a" []), .register (waitingJob "b" ["a"]),
        .register (waitingJob "c" ["a", "b"]), .stateChange "a" .completed] g ∧
    returned emptyGraph
      [.register (waitingJob "a" []), .register (waitingJob "b" ["a"]),
        .register (waitingJob "c" ["a", "b"]), .stateChange "a" .completed] = ["b", "c"] ∧
    (∀ jobId newStatus,
      onJobStateChange (onJobStateChange g jobId newStatus).1 jobId newStatus =
        ((onJobStateChange g jobId newStatus).1, [])) ∧
    (returned emptyGraph
      [.register (waitingJob "a" []), .register (waitingJob "b" ["a"]),
        .register (waitingJob "c" ["a", "b"]), .stateChange "a" .completed]).Nodup := by
  obtain ⟨g, hrun, -⟩ := exists_run_of_check serve (stateGuard InOrderCall) emptyGraph
    [.register (waitingJob "a" []), .register (waitingJob "b" ["a"]),
      .register (waitingJob "c" ["a", "b"]), .stateChange "a" .completed]
    (fun _ => true) (by decide)
  exact ⟨g, hrun, by decide, duplicates_harmless hrun⟩

end TaskOrchestration.DependencyResolver

import TaskOrchestration.Deps.Duplicates

set_option autoImplicit false

/-!
# Which jobs a state change releases

The loop of `onJobStateChange` changes the graph while it runs, so a job that it resolves may be
what a later dependent still waited for. `Released` says which jobs come out of this, in terms of
the graph that the loop finds.

* `Released`: a dependent that accepts the status, and whose unresolved dependencies are themselves
  released; `Released.mem`, `released_of_unblocks`;
* `released_of_mem_unblocked`, `Released.mem_unblocked`, **`mem_unblocked_iff_released`**: with jobs
  registered in order, the loop returns the released jobs, each once.
-/

namespace TaskOrchestration.DependencyResolver

variable {g : Graph} {ids l : List JobId} {jobId a k : JobId} {newStatus : JobStatus}
  {acc : Graph × List JobId}

/-- **The jobs that a state change releases**, as the graph stands before it. -/
inductive Released (g : Graph) (jobId : JobId) (newStatus : JobStatus) : JobId → Prop
  | dependent {a : JobId} {n : DepNode} {jobDep : JobDependency} :
      a ∈ dependentsOf g jobId → g.find? a = some n → n.isResolved = false →
      n.dependencies.find? (fun d => d.jobId = jobId) = some jobDep →
      newStatus ∈ jobDep.requireStatus →
      (∀ d ∈ n.dependencies, isResolved g d.jobId = false →
        Released g jobId newStatus d.jobId) →
      Released g jobId newStatus a

theorem Released.mem (h : Released g jobId newStatus a) : a ∈ dependentsOf g jobId := by
  cases h with
  | dependent ha => exact ha

theorem Released.unresolved (h : Released g jobId newStatus a) : isResolved g a = false := by
  cases h with
  | dependent _ hn hr => exact isResolved_eq_false.mpr ⟨_, hn, hr⟩

theorem released_of_unblocks (ha : a ∈ dependentsOf g jobId) (hu : Unblocks g jobId newStatus a) :
    Released g jobId newStatus a := by
  obtain ⟨n, hn, hr, jobDep, hd, hst, hmet⟩ := hu
  refine .dependent ha hn hr hd hst fun d hmem hfalse => ?_
  rw [(checkAllDependenciesMet_iff.mp hmet d hmem).2] at hfalse
  cases hfalse

theorem Advances.find?_of_unresolved {g' : Graph} (h : Advances g g')
    (ha : isResolved g' a = false) : g'.find? a = g.find? a := by
  rcases h a with he | ⟨n, -, he⟩
  · exact he
  · obtain ⟨n', hn', hr⟩ := isResolved_eq_false.mp ha
    obtain rfl := Option.some.inj (he.symm.trans hn')
    cases hr

theorem released_foldl (hl : ∀ a ∈ l, a ∈ dependentsOf g jobId) (hadv : Advances g acc.1)
    (hacc : ∀ k, isResolved acc.1 k = true → isResolved g k = true ∨ Released g jobId newStatus k) :
    ∀ k, isResolved (l.foldl (visitDependent jobId newStatus) acc).1 k = true →
      isResolved g k = true ∨ Released g jobId newStatus k := by
  induction l generalizing acc with
  | nil => exact hacc
  | cons a l ih =>
      obtain ⟨ha, hl⟩ := List.forall_mem_cons.mp hl
      refine ih hl (hadv.trans (advances_visit acc a)) fun k hk => ?_
      rcases visit_cases jobId newStatus acc a with ⟨he, -⟩ | ⟨hu, -, -, hr⟩
      · rw [he] at hk
        exact hacc k hk
      · rw [hr, Bool.or_eq_true, decide_eq_true_eq] at hk
        rcases hk with hk | rfl
        · exact hacc k hk
        · obtain ⟨n, hn, hfalse, jobDep, hd, hst, hmet⟩ := hu
          have hun : isResolved acc.1 k = false := isResolved_eq_false.mpr ⟨n, hn, hfalse⟩
          rw [hadv.find?_of_unresolved hun] at hn
          refine .inr (.dependent ha hn hfalse hd hst fun d hmem hd' => ?_)
          refine (hacc d.jobId (checkAllDependenciesMet_iff.mp hmet d hmem).2).resolve_left ?_
          rw [hd']
          exact Bool.false_ne_true

/-- **What a state change unblocks is released.** -/
theorem released_of_mem_unblocked (h : a ∈ unblocked g jobId newStatus) :
    Released g jobId newStatus a := by
  rw [unblocked, onJobStateChange_eq] at h
  have hres := resolved_of_mem (fun _ ha => absurd ha List.not_mem_nil) a h
  refine (released_foldl (fun _ ha => ha) (.refl g) (fun k hk => .inl hk) a hres).resolve_left ?_
  rcases mem_foldl_visit h with h | ⟨g₁, h₁, -, n, hn, hr, -⟩
  · cases h
  · intro hg
    have htrue := h₁.resolved hg
    rw [isResolved_eq_false.mpr ⟨n, hn, hr⟩] at htrue
    cases htrue

/-- **A released job is unblocked**, if the jobs are registered in order: the loop leaves no
dependent that passes, and reaches the dependencies first. -/
theorem Released.mem_unblocked (ho : InOrder ids g) (h : Released g jobId newStatus a) :
    a ∈ unblocked g jobId newStatus := by
  have hadv := advances_onJobStateChange g jobId newStatus
  have hres : ∀ b ∈ unblocked g jobId newStatus,
      isResolved (onJobStateChange g jobId newStatus).1 b = true := by
    rw [unblocked, onJobStateChange_eq]
    exact resolved_of_mem fun _ ha => absurd ha List.not_mem_nil
  induction h with
  | @dependent a n jobDep ha hn hr hd hst _ ih =>
      have hg : isResolved g a = false := isResolved_eq_false.mpr ⟨n, hn, hr⟩
      cases hg' : isResolved (onJobStateChange g jobId newStatus).1 a with
      | true =>
          rw [onJobStateChange_eq] at hg'
          rw [unblocked, onJobStateChange_eq]
          have hbefore : isResolved (g, ([] : List JobId)).1 a = false := hg
          exact mem_of_resolved hbefore hg'
      | false =>
          -- it would pass after the loop
          have hn' := hadv.find?_of_unresolved hg'
          have hsettled : ¬ Unblocks (onJobStateChange g jobId newStatus).1 jobId newStatus a := by
            rw [onJobStateChange_eq]
            exact settled_foldl (ho.earlier.sublist (ho.dependents jobId)) a ha
          refine absurd ⟨n, hn'.trans hn, hr, jobDep, hd, hst, ?_⟩ hsettled
          refine checkAllDependenciesMet_iff.mpr fun d hmem => ⟨?_, ?_⟩
          · rw [hadv.isSome, ho.node]
            exact ho.closed a _ (mem_successors_of_find? hn hmem)
          · cases hfalse : isResolved g d.jobId with
            | true => exact hadv.resolved hfalse
            | false => exact hres _ (ih d hmem hfalse)

theorem mem_unblocked_iff_released (ho : InOrder ids g) :
    a ∈ unblocked g jobId newStatus ↔ Released g jobId newStatus a :=
  ⟨released_of_mem_unblocked, Released.mem_unblocked ho⟩

theorem nodup_unblocked (g : Graph) (jobId : JobId) (newStatus : JobStatus) :
    (unblocked g jobId newStatus).Nodup := by
  rw [unblocked, onJobStateChange_eq]
  exact (Delivered.foldl ⟨fun _ ha => absurd ha List.not_mem_nil, List.nodup_nil⟩).nodup

theorem length_unblocked_le_one (h : ∀ a b, Released g jobId newStatus a →
    Released g jobId newStatus b → a = b) : (unblocked g jobId newStatus).length ≤ 1 := by
  refine le_of_not_gt fun hlt => ?_
  obtain ⟨a, b, l, hl⟩ : ∃ a b l, unblocked g jobId newStatus = a :: b :: l := by
    match unblocked g jobId newStatus, hlt with
    | a :: b :: l, _ => exact ⟨a, b, l, rfl⟩
  have hnd := nodup_unblocked g jobId newStatus
  have hab : a = b := h a b (released_of_mem_unblocked (by simp [hl]))
    (released_of_mem_unblocked (by simp [hl]))
  rw [hl, hab] at hnd
  simp at hnd

end TaskOrchestration.DependencyResolver

import Mathlib.Algebra.Order.Ring.Unbundled.Rat
import Mathlib.Data.List.Sort
import Mathlib.Order.WithBot
import Mathlib.Tactic.NormNum
import TaskOrchestration.Job.Repository

set_option autoImplicit false

/-!
# The choice of a worker

`WorkerRepository.findBestWorker` chooses in SQL, the load balancer in TypeScript. A worker that
takes `CUSTOM` jobs passes the load balancer's check for every job, and only there.

* `WorkerNode`, `findBestWorker`, `LoadBalancer.filterEligible`, `leastLoaded`, `selectWorker`; the
  division of doubles is the parameter `div`;
* `IsFirstLeast`, **`reduce_isFirstLeast`**, `IsFirstLeast.of_filter`: the first of the least;
* **`selectWorker_eq_some`**: what the load balancer returns; **`findBestWorker_eq_some`**: and the
  query;
* `Agree`, `Overtaken`: a worker that only the load balancer admits is never the one it returns;
* **`selectors_agree_iff`**; `custom_worker_selected`.
-/

namespace TaskOrchestration

inductive WorkerStatus
  | online | busy | draining | offline | lost
  deriving DecidableEq, Repr

/-- A row of the `workers` table, as far as the choice of a worker reads it. -/
structure WorkerNode where
  id : String
  status : WorkerStatus
  jobTypes : List String
  currentJobCount : ℕ
  maxConcurrency : ℤ
  deriving DecidableEq, Repr

namespace WorkerNode

def up (w : WorkerNode) : Bool := w.status == .online || w.status == .busy

def hasRoom (w : WorkerNode) : Bool := (w.currentJobCount : ℤ) < w.maxConcurrency

/-- **The worker takes jobs of the type** and is free for one. -/
def eligible (w : WorkerNode) (jobType : String) : Bool :=
  w.up && w.jobTypes.contains jobType && w.hasRoom

end WorkerNode

/-! ## The two selectors -/

section Selectors

variable {ρ : Type} [LinearOrder ρ] (div : ℤ → ℤ → ρ)

/-- `current_job_count::float / NULLIF(max_concurrency, 0)`, where `NULL` comes last. -/
def WorkerNode.sortKey (w : WorkerNode) : WithTop ρ :=
  if w.maxConcurrency = 0 then ⊤ else (div w.currentJobCount w.maxConcurrency : ρ)

/-- `rows` is the table in the order in which the query reads it. -/
def WorkerRepository.findBestWorker (rows : List WorkerNode) (jobType : String) :
    Option WorkerNode :=
  ((rows.filter fun w => w.eligible jobType).mergeSort fun a b =>
    a.sortKey div ≤ b.sortKey div)[0]?

namespace LoadBalancer

def filterEligible (job : Job) (workers : List WorkerNode) : List WorkerNode :=
  workers.filter fun w =>
    if ¬ w.up then false
    else if ¬ w.hasRoom then false
    else if ¬ w.jobTypes.contains job.type.toText ∧ ¬ w.jobTypes.contains "CUSTOM" then false
    else true

def load (w : WorkerNode) : ρ := div w.currentJobCount (max w.maxConcurrency 1)

/-- The least loaded of the workers `best`, `rest`. -/
def leastLoaded (best : WorkerNode) (rest : List WorkerNode) : WorkerNode :=
  rest.foldl (fun best w => if load div w < load div best then w else best) best

/-- With the strategy `LEAST_LOADED`. -/
def selectWorker (job : Job) (workers : List WorkerNode) : Option WorkerNode :=
  match filterEligible job workers with
  | [] => none
  | best :: rest => some (leastLoaded div best rest)

end LoadBalancer

variable {div} {rows workers : List WorkerNode} {job : Job} {jobType : String} {w x : WorkerNode}

/-! ## The first of the least -/

/-- `x` is the first element of the list at which `f` is least. -/
def IsFirstLeast {α : Type} (f : α → ρ) (l : List α) (x : α) : Prop :=
  ∃ pre post, l = pre ++ x :: post ∧ (∀ y ∈ pre, f x < f y) ∧ ∀ y ∈ post, f x ≤ f y

theorem IsFirstLeast.le {α : Type} {f : α → ρ} {l : List α} {x y : α} (h : IsFirstLeast f l x)
    (hy : y ∈ l) : f x ≤ f y := by
  obtain ⟨pre, post, rfl, hpre, hpost⟩ := h
  rcases List.mem_append.mp hy with hy | hy
  · exact (hpre y hy).le
  · rcases List.mem_cons.mp hy with rfl | hy
    · exact le_rfl
    · exact hpost y hy

/-- **The reduction** finds the first of the least. -/
theorem reduce_isFirstLeast {α : Type} (f : α → ρ) (best : α) (rest : List α) :
    IsFirstLeast f (best :: rest)
      (rest.foldl (fun best w => if f w < f best then w else best) best) := by
  induction rest generalizing best with
  | nil =>
      exact ⟨[], [], rfl, fun _ h => absurd h List.not_mem_nil,
        fun _ h => absurd h List.not_mem_nil⟩
  | cons w rest ih =>
      rw [List.foldl_cons]
      split_ifs with hlt
      · -- `w` takes the place of `best`
        have hle := (ih w).le List.mem_cons_self
        obtain ⟨pre, post, heq, hpre, hpost⟩ := ih w
        refine ⟨best :: pre, post, congrArg (best :: ·) heq, fun y hy => ?_, hpost⟩
        rcases List.mem_cons.mp hy with rfl | hy
        · exact hle.trans_lt hlt
        · exact hpre y hy
      · have hwbest := not_lt.mp hlt
        obtain ⟨_ | ⟨b, pre⟩, post, heq, hpre, hpost⟩ := ih best
        · -- `best` stays the least
          obtain ⟨hbest, rfl⟩ := List.cons.inj heq
          refine ⟨[], w :: rest, congrArg (· :: w :: rest) hbest, hpre, fun y hy => ?_⟩
          rcases List.mem_cons.mp hy with rfl | hy
          · exact (congrArg f hbest).symm.le.trans hwbest
          · exact hpost y hy
        · -- a later one goes before both
          obtain ⟨rfl, hrest⟩ := List.cons.inj heq
          have hb := hpre best List.mem_cons_self
          refine ⟨best :: w :: pre, post, congrArg (best :: w :: ·) hrest, fun y hy => ?_, hpost⟩
          rcases List.mem_cons.mp hy with rfl | hy
          · exact hb
          · rcases List.mem_cons.mp hy with rfl | hy
            · exact hb.trans_le hwbest
            · exact hpre y (List.mem_cons_of_mem _ hy)

theorem LoadBalancer.leastLoaded_isFirstLeast (div : ℤ → ℤ → ρ) (best : WorkerNode)
    (rest : List WorkerNode) :
    IsFirstLeast (load div) (best :: rest) (leastLoaded div best rest) :=
  reduce_isFirstLeast (load div) best rest

/-- **Where the first of the least** of the elements with `p` stands in the whole list. -/
theorem IsFirstLeast.of_filter {α : Type} {f : α → ρ} {l : List α} {x : α} {p : α → Bool}
    (h : IsFirstLeast f (l.filter p) x) :
    ∃ pre post, l = pre ++ x :: post ∧ p x = true ∧ (∀ y ∈ pre, p y = true → f x < f y) ∧
      ∀ y ∈ post, p y = true → f x ≤ f y := by
  obtain ⟨pre', post', hsplit, hpre, hpost⟩ := h
  obtain ⟨pre, mid, rfl, rfl, hmid⟩ := List.filter_eq_append_iff.mp hsplit
  obtain ⟨skipped, post, rfl, hskipped, hx, rfl⟩ := List.filter_eq_cons_iff.mp hmid
  refine ⟨pre ++ skipped, post, (List.append_assoc ..).symm, hx, fun y hy hp => ?_,
    fun y hy hp => hpost y (List.mem_filter.mpr ⟨hy, hp⟩)⟩
  rcases List.mem_append.mp hy with hy | hy
  · exact hpre y (List.mem_filter.mpr ⟨hy, hp⟩)
  · exact absurd hp (hskipped y hy)

/-! ## What the two return -/

/-- The share of its room that the worker uses. -/
def WorkerNode.ratio (div : ℤ → ℤ → ρ) (w : WorkerNode) : ρ :=
  div w.currentJobCount w.maxConcurrency

/-- **The load balancer admits** the worker. -/
def LoadBalancer.admits (job : Job) (w : WorkerNode) : Bool :=
  w.up && w.hasRoom && (w.jobTypes.contains job.type.toText || w.jobTypes.contains "CUSTOM")

theorem WorkerNode.maxConcurrency_pos (h : w.hasRoom = true) : 1 ≤ w.maxConcurrency := by
  rw [hasRoom, decide_eq_true_iff] at h
  omega

omit [LinearOrder ρ] in
theorem WorkerNode.load_eq (h : w.hasRoom = true) : LoadBalancer.load div w = w.ratio div := by
  rw [LoadBalancer.load, ratio, max_eq_left (maxConcurrency_pos h)]

omit [LinearOrder ρ] in
theorem WorkerNode.sortKey_eq (h : w.hasRoom = true) :
    w.sortKey div = ((w.ratio div : ρ) : WithTop ρ) := by
  have := maxConcurrency_pos h
  rw [sortKey, if_neg (by omega)]
  rfl

theorem WorkerNode.eligible_iff : w.eligible jobType = true ↔
    w.up = true ∧ w.jobTypes.contains jobType = true ∧ w.hasRoom = true := by
  rw [eligible, Bool.and_eq_true, Bool.and_eq_true, and_assoc]

theorem LoadBalancer.admits_iff : admits job w = true ↔ w.up = true ∧ w.hasRoom = true ∧
    (w.jobTypes.contains job.type.toText = true ∨ w.jobTypes.contains "CUSTOM" = true) := by
  rw [admits, Bool.and_eq_true, Bool.and_eq_true, Bool.or_eq_true, and_assoc]

theorem LoadBalancer.admits_of_eligible (h : w.eligible job.type.toText = true) :
    admits job w = true := by
  obtain ⟨hup, htype, hroom⟩ := WorkerNode.eligible_iff.mp h
  exact admits_iff.mpr ⟨hup, hroom, .inl htype⟩

theorem LoadBalancer.filterEligible_eq (job : Job) (workers : List WorkerNode) :
    filterEligible job workers = workers.filter (admits job) := by
  refine List.filter_congr fun w _ => ?_
  unfold admits
  generalize w.jobTypes.contains job.type.toText = takes, w.jobTypes.contains "CUSTOM" = takesCustom
  cases w.up <;> cases w.hasRoom <;> cases takes <;> cases takesCustom <;> rfl

/-- **The load balancer** returns nothing if it admits none of the workers. -/
theorem LoadBalancer.selectWorker_eq_none :
    selectWorker div job workers = none ↔ ∀ w ∈ workers, admits job w = false := by
  rw [selectWorker, filterEligible_eq]
  split
  case h_1 heq =>
    have hno := List.filter_eq_nil_iff.mp heq
    exact iff_of_true rfl fun w hw => Bool.eq_false_of_not_eq_true (hno w hw)
  case h_2 best rest heq =>
    refine iff_of_false (Option.some_ne_none _) fun hall => ?_
    have hmem : best ∈ workers.filter (admits job) := heq ▸ List.mem_cons_self
    obtain ⟨hw, hadm⟩ := List.mem_filter.mp hmem
    exact Bool.noConfusion ((hall best hw).symm.trans hadm)

/-- **The load balancer** returns the first of the workers that it admits and that are least
loaded. -/
theorem LoadBalancer.selectWorker_eq_some (h : selectWorker div job workers = some w) :
    ∃ pre post, workers = pre ++ w :: post ∧ admits job w = true ∧
      (∀ x ∈ pre, admits job x = true → w.ratio div < x.ratio div) ∧
      ∀ x ∈ post, admits job x = true → w.ratio div ≤ x.ratio div := by
  rw [selectWorker, filterEligible_eq] at h
  split at h
  case h_1 => cases h
  case h_2 best rest heq =>
    obtain rfl := Option.some.inj h
    have hfirst := leastLoaded_isFirstLeast div best rest
    rw [← heq] at hfirst
    obtain ⟨pre, post, hworkers, hadm, hpre, hpost⟩ := hfirst.of_filter
    have hload : ∀ x, admits job x = true → load div x = x.ratio div := fun x hx =>
      WorkerNode.load_eq (admits_iff.mp hx).2.1
    refine ⟨pre, post, hworkers, hadm, fun x hx hx' => ?_, fun x hx hx' => ?_⟩
    · rw [← hload _ hadm, ← hload x hx']
      exact hpre x hx hx'
    · rw [← hload _ hadm, ← hload x hx']
      exact hpost x hx hx'

theorem LoadBalancer.selectWorker_le (h : selectWorker div job workers = some w)
    (hx : x ∈ workers) (hadm : admits job x = true) : w.ratio div ≤ x.ratio div := by
  obtain ⟨pre, post, rfl, -, hpre, hpost⟩ := selectWorker_eq_some h
  rcases List.mem_append.mp hx with hx | hx
  · exact (hpre x hx hadm).le
  · rcases List.mem_cons.mp hx with rfl | hx
    · exact le_rfl
    · exact hpost x hx hadm

/-- **The query** returns nothing if no worker is eligible. -/
theorem WorkerRepository.findBestWorker_eq_none :
    findBestWorker div rows jobType = none ↔ ∀ w ∈ rows, w.eligible jobType = false := by
  rw [findBestWorker, List.getElem?_eq_none_iff, List.length_mergeSort, Nat.le_zero,
    List.length_eq_zero_iff, List.filter_eq_nil_iff]
  exact forall₂_congr fun w _ => by rw [Bool.not_eq_true]

/-- **The query** returns one of the least loaded eligible workers. -/
theorem WorkerRepository.findBestWorker_eq_some (h : findBestWorker div rows jobType = some w) :
    w ∈ rows ∧ w.eligible jobType = true ∧
      ∀ x ∈ rows, x.eligible jobType = true → w.ratio div ≤ x.ratio div := by
  rw [findBestWorker] at h
  have hperm := List.mergeSort_perm (rows.filter fun w => w.eligible jobType)
    fun a b => decide (a.sortKey div ≤ b.sortKey div)
  have hsorted : ((rows.filter fun w => w.eligible jobType).mergeSort fun a b =>
      a.sortKey div ≤ b.sortKey div).Pairwise fun a b => decide (a.sortKey div ≤ b.sortKey div) :=
    List.pairwise_mergeSort (fun a b c hab hbc => ?_) (fun a b => ?_) _
  · obtain ⟨hw, hwe⟩ := List.mem_filter.mp (hperm.mem_iff.mp (List.mem_of_getElem? h))
    refine ⟨hw, hwe, fun x hx hxe => ?_⟩
    have hxmem := hperm.mem_iff.mpr (List.mem_filter.mpr ⟨hx, hxe⟩)
    obtain ⟨rest, hlist⟩ := List.head?_eq_some_iff.mp (List.head?_eq_getElem?.trans h)
    rw [hlist] at hsorted hxmem
    rcases List.mem_cons.mp hxmem with rfl | hxmem
    · exact le_rfl
    · have hle := of_decide_eq_true (List.rel_of_pairwise_cons hsorted hxmem)
      rw [WorkerNode.sortKey_eq (WorkerNode.eligible_iff.mp hwe).2.2,
        WorkerNode.sortKey_eq (WorkerNode.eligible_iff.mp hxe).2.2] at hle
      exact WithTop.coe_le_coe.mp hle
  · rw [decide_eq_true_iff] at hab hbc ⊢
    exact hab.trans hbc
  · rw [Bool.or_eq_true, decide_eq_true_iff, decide_eq_true_iff]
    exact le_total _ _

/-! ## Agreement -/

variable (div) in
/-- **The two results agree**: there is none, or two eligible workers with the same ratio. -/
def Agree (jobType : String) : Option WorkerNode → Option WorkerNode → Prop
  | none, none => True
  | some a, some b =>
      a.eligible jobType = true ∧ b.eligible jobType = true ∧ a.ratio div = b.ratio div
  | none, some _ => False
  | some _, none => False

variable (div) in
/-- **A worker that only the load balancer admits** comes after an eligible one that is loaded no
more, or before an eligible one that is loaded less. -/
def Overtaken (job : Job) (workers : List WorkerNode) : Prop :=
  ∀ pre w post, workers = pre ++ w :: post → LoadBalancer.admits job w = true →
    w.eligible job.type.toText = false →
      (∃ x ∈ pre, x.eligible job.type.toText = true ∧ x.ratio div ≤ w.ratio div) ∨
        ∃ x ∈ post, x.eligible job.type.toText = true ∧ x.ratio div < w.ratio div

theorem overtaken_of_eligible (h : LoadBalancer.selectWorker div job workers = some x)
    (hx : x.eligible job.type.toText = true) : Overtaken div job workers := by
  obtain ⟨pre, post, heq, -, hpre, hpost⟩ := LoadBalancer.selectWorker_eq_some h
  intro pre' w post' heq' hadm hw
  rcases List.append_eq_append_iff.mp (heq.symm.trans heq') with
    ⟨_ | ⟨c, cs⟩, hpre', hrest⟩ | ⟨_ | ⟨c, cs⟩, hpre', hrest⟩
  · obtain ⟨rfl, -⟩ := List.cons.inj hrest
    exact Bool.noConfusion (hw.symm.trans hx)
  · -- `x` comes first
    obtain ⟨rfl, rfl⟩ := List.cons.inj hrest
    refine .inl ⟨x, hpre' ▸ List.mem_append_right _ List.mem_cons_self, hx, hpost w ?_ hadm⟩
    exact List.mem_append_right _ List.mem_cons_self
  · obtain ⟨rfl, -⟩ := List.cons.inj hrest
    exact Bool.noConfusion (hw.symm.trans hx)
  · -- `w` comes first
    obtain ⟨rfl, rfl⟩ := List.cons.inj hrest
    refine .inr ⟨x, List.mem_append_right _ List.mem_cons_self, hx, hpre w ?_ hadm⟩
    exact hpre' ▸ List.mem_append_right _ List.mem_cons_self

theorem Overtaken.eligible (hover : Overtaken div job workers)
    (h : LoadBalancer.selectWorker div job workers = some x) :
    x.eligible job.type.toText = true := by
  obtain ⟨pre, post, heq, hadm, hpre, hpost⟩ := LoadBalancer.selectWorker_eq_some h
  by_contra hx
  rcases hover pre x post heq hadm (Bool.eq_false_of_not_eq_true hx) with
    ⟨w, hw, hwe, hle⟩ | ⟨w, hw, hwe, hlt⟩
  · exact absurd (hpre w hw (LoadBalancer.admits_of_eligible hwe)) (not_lt.mpr hle)
  · exact absurd hlt (not_lt.mpr (hpost w hw (LoadBalancer.admits_of_eligible hwe)))

/-- **The two selectors agree** exactly if every worker that only the load balancer admits is
overtaken. The query and the load balancer may see the rows in different orders. -/
theorem selectors_agree_iff (h : workers.Perm rows) :
    Agree div job.type.toText (WorkerRepository.findBestWorker div rows job.type.toText)
      (LoadBalancer.selectWorker div job workers) ↔ Overtaken div job workers := by
  rcases hsel : LoadBalancer.selectWorker div job workers with _ | x
  · -- no worker is admitted, so none is eligible
    have hnone := LoadBalancer.selectWorker_eq_none.mp hsel
    have hquery : WorkerRepository.findBestWorker div rows job.type.toText = none :=
      WorkerRepository.findBestWorker_eq_none.mpr fun w hw =>
        Bool.eq_false_of_not_eq_true fun hwe => Bool.noConfusion
          ((hnone w (h.mem_iff.mpr hw)).symm.trans (LoadBalancer.admits_of_eligible hwe))
    rw [hquery]
    refine iff_of_true trivial fun pre w post heq hadm => ?_
    rw [hnone w (heq ▸ List.mem_append_right _ List.mem_cons_self)] at hadm
    cases hadm
  · constructor
    · intro hagree
      refine overtaken_of_eligible hsel ?_
      rcases hfind : WorkerRepository.findBestWorker div rows job.type.toText with _ | a
      · rw [hfind] at hagree
        exact hagree.elim
      · rw [hfind] at hagree
        exact hagree.2.1
    · intro hover
      have hx := hover.eligible hsel
      obtain ⟨pre, post, heq, hadm, -⟩ := LoadBalancer.selectWorker_eq_some hsel
      have hxrow : x ∈ rows := h.mem_iff.mp (heq ▸ List.mem_append_right _ List.mem_cons_self)
      rcases hfind : WorkerRepository.findBestWorker div rows job.type.toText with _ | a
      · rw [WorkerRepository.findBestWorker_eq_none.mp hfind x hxrow] at hx
        cases hx
      · obtain ⟨ha, hae, hale⟩ := WorkerRepository.findBestWorker_eq_some hfind
        refine ⟨hae, hx, le_antisymm (hale x hxrow hx) ?_⟩
        exact LoadBalancer.selectWorker_le hsel (h.mem_iff.mpr ha)
          (LoadBalancer.admits_of_eligible hae)

end Selectors

/-! ## Two workers -/

/-- A shell command, and a worker for each of two kinds of jobs. -/
def shellJob : Job := JobRepository.newRow "job1" 0
  { name := "test", type := .shellCommand, payload := [], organizationId := "org1",
    createdBy := "user1" }

def customWorker : WorkerNode := ⟨"w1", .online, ["CUSTOM"], 5, 10⟩

def shellWorker : WorkerNode := ⟨"w2", .busy, ["SHELL_COMMAND"], 2, 10⟩

def quotient (count capacity : ℤ) : ℚ := count / capacity

theorem shell_worker_selected : Overtaken quotient shellJob [customWorker, shellWorker] := by
  have hlt : LoadBalancer.load quotient shellWorker < LoadBalancer.load quotient customWorker := by
    norm_num [LoadBalancer.load, quotient, shellWorker, customWorker]
  have hsel : LoadBalancer.selectWorker quotient shellJob [customWorker, shellWorker] =
      some shellWorker := congrArg some (if_pos hlt)
  have hquery : WorkerRepository.findBestWorker quotient [shellWorker, customWorker]
      shellJob.type.toText = some shellWorker := by
    have hfilter : [shellWorker, customWorker].filter (fun w => w.eligible shellJob.type.toText) =
      [shellWorker] := by decide
    rw [WorkerRepository.findBestWorker, hfilter, List.mergeSort_singleton]
    rfl
  refine (selectors_agree_iff (List.Perm.swap shellWorker customWorker [])).mp ?_
  rw [hsel, hquery]
  exact ⟨by decide, by decide, rfl⟩

/-- **A worker without the job's type** is selected, although the query finds none. -/
theorem custom_worker_selected : ¬ ∀ (rows workers : List WorkerNode) (job : Job),
    workers.Perm rows → Agree quotient job.type.toText
      (WorkerRepository.findBestWorker quotient rows job.type.toText)
      (LoadBalancer.selectWorker quotient job workers) := by
  intro hall
  have hagree := hall [customWorker] [customWorker] shellJob (List.Perm.refl _)
  have hnone :
      WorkerRepository.findBestWorker quotient [customWorker] shellJob.type.toText = none :=
    WorkerRepository.findBestWorker_eq_none.mpr (by decide)
  rw [hnone] at hagree
  exact hagree

end TaskOrchestration

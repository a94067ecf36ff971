import TaskOrchestration.Lib.Double
import TaskOrchestration.Lib.Json
import TaskOrchestration.Workers.Selection

set_option autoImplicit false

/-!
# The strategies of the load balancer

* `CapableWorker`, `LoadBalancer`: a worker with its region and labels, and the state of a load
  balancer; `parse` is the reading of a JSON text;
* `filterEligible`, `leastLoaded`, `roundRobin`, `affinity`, **`selectWorker`**;
* `Eligible`, `Fits`, `FirstLeast`: what is asked of the worker; `load_lt_load_iff`: the quotients
  of doubles order the workers as the exact ratios do;
* **`selectWorker_sound`**; `selectWorker_leastLoaded`: the earlier model of one strategy.
-/

namespace TaskOrchestration

inductive LoadBalancingStrategy
  | leastLoaded | roundRobin | affinity | random
  deriving DecidableEq, Repr

/-- A row of the `workers` table, with the capabilities that the load balancer reads. The column
`max_concurrency` is a `SMALLINT`. -/
structure CapableWorker extends WorkerNode where
  region : Option String
  labels : List (String × String)
  small : maxConcurrency ≤ 32767
  deriving DecidableEq, Repr

/-- What `Math.random` returns: a number of 53 bits below one. -/
structure MathRandom where
  value : ℚ
  nonneg : 0 ≤ value
  below : value ≤ 1 - 1 / 2 ^ 53

namespace Balancing

structure LoadBalancer where
  strategy : LoadBalancingStrategy := .leastLoaded
  rrIndex : ℕ := 0
  deriving DecidableEq, Repr

variable (parse : String → Json)

def filterEligible (job : Job) (workers : List CapableWorker) : List CapableWorker :=
  workers.filter fun w =>
    if ¬ w.up then false
    else if ¬ w.hasRoom then false
    else if ¬ w.jobTypes.contains job.type.toText ∧ ¬ w.jobTypes.contains "CUSTOM" then false
    else true

def load (w : CapableWorker) : ℚ :=
  Double.divide w.currentJobCount (max w.maxConcurrency 1 : ℤ)

/-- The least loaded of the workers `best`, `rest`. -/
def leastLoaded (best : CapableWorker) (rest : List CapableWorker) : CapableWorker :=
  rest.foldl (fun best w => if load w < load best then w else best) best

def roundRobin (lb : LoadBalancer) (workers : List CapableWorker) :
    LoadBalancer × Option CapableWorker :=
  ({ lb with rrIndex := (lb.rrIndex + 1) % workers.length },
    workers[lb.rrIndex % workers.length]?)

/-- A field of the job's metadata. -/
def hint (job : Job) (key : String) : Option Json := (job.metadata.lookup key).map parse

/-- `===` between a text, which may be undefined, and a value. -/
def strictEq : Option String → Json → Bool
  | some s, .string t => s == t
  | _, _ => false

/-- The condition of the filter of `affinity`. -/
def fits (job : Job) (w : CapableWorker) : Bool :=
  let preferredRegion := hint parse job "region"
  let requiredLabels := hint parse job "requiredLabels"
  if preferredRegion.any fun region => region.truthy && !strictEq w.region region then false
  else if requiredLabels.any Json.truthy then
    (requiredLabels.elim [] Json.entries).all fun label =>
      strictEq (w.labels.lookup label.1) label.2
  else true

/-- The workers are `best`, `rest`. -/
def affinity (job : Job) (best : CapableWorker) (rest : List CapableWorker) : CapableWorker :=
  match (best :: rest).filter (fits parse job) with
  | [] => leastLoaded best rest
  | w :: ws => leastLoaded w ws

/-- **`selectWorker`**, with what `Math.random` returns. -/
def LoadBalancer.selectWorker (lb : LoadBalancer) (random : MathRandom) (job : Job)
    (workers : List CapableWorker) : LoadBalancer × Option CapableWorker :=
  match filterEligible job workers with
  | [] => (lb, none)
  | best :: rest =>
      match lb.strategy with
      | .leastLoaded => (lb, some (leastLoaded best rest))
      | .roundRobin => roundRobin lb (best :: rest)
      | .affinity => (lb, some (affinity parse job best rest))
      | .random =>
          (lb, (best :: rest)[⌊Double.round (random.value * (best :: rest).length)⌋.toNat]?)

/-! ## What is asked of the worker -/

def Eligible (job : Job) (w : CapableWorker) : Prop :=
  (w.status = .online ∨ w.status = .busy) ∧ (w.currentJobCount : ℤ) < w.maxConcurrency ∧
    (job.type.toText ∈ w.jobTypes ∨ "CUSTOM" ∈ w.jobTypes)

/-- **The worker matches** the region and all the labels that the job asks for. -/
def Fits (job : Job) (w : CapableWorker) : Prop :=
  (∀ region ∈ hint parse job "region", region.truthy = true →
      ∃ s, region = .string s ∧ w.region = some s) ∧
    ∀ labels ∈ hint parse job "requiredLabels", labels.truthy = true →
      ∀ label ∈ labels.entries, ∃ s, label.2 = .string s ∧ w.labels.lookup label.1 = some s

/-- The share of its room that the worker uses, exactly. -/
def ratio (w : CapableWorker) : ℚ := w.currentJobCount / w.maxConcurrency

/-- **`w` is the first** of the workers with `P` that has the least ratio among them. -/
def FirstLeast (P : CapableWorker → Prop) (workers : List CapableWorker) (w : CapableWorker) :
    Prop :=
  ∃ pre post, workers = pre ++ w :: post ∧ P w ∧ (∀ x ∈ pre, P x → ratio w < ratio x) ∧
    ∀ x ∈ post, P x → ratio w ≤ ratio x

/-- The workers that `affinity` chooses from: the eligible ones that fit, or all of them. -/
def Preferred (job : Job) (workers : List CapableWorker) (w : CapableWorker) : Prop :=
  Eligible job w ∧ (Fits parse job w ∨ ∀ x ∈ workers, Eligible job x → ¬ Fits parse job x)

variable {parse : String → Json} {job : Job} {lb : LoadBalancer} {random : MathRandom}
  {workers : List CapableWorker} {w x : CapableWorker}

theorem eligible_iff : Eligible job w ↔ LoadBalancer.admits job w.toWorkerNode = true := by
  rw [LoadBalancer.admits_iff, Eligible, WorkerNode.up, WorkerNode.hasRoom, Bool.or_eq_true,
    beq_iff_eq, beq_iff_eq, decide_eq_true_iff, List.contains_iff_mem, List.contains_iff_mem]

instance (job : Job) : DecidablePred (Eligible job) := fun _ => decidable_of_iff _ eligible_iff.symm

theorem filterEligible_eq (job : Job) (workers : List CapableWorker) :
    filterEligible job workers = workers.filter fun w => Eligible job w := by
  refine List.filter_congr fun w _ => ?_
  rw [Bool.eq_iff_iff, decide_eq_true_iff, eligible_iff, LoadBalancer.admits, ← Bool.eq_iff_iff]
  generalize w.jobTypes.contains job.type.toText = takes, w.jobTypes.contains "CUSTOM" = takesCustom
  cases w.up <;> cases w.hasRoom <;> cases takes <;> cases takesCustom <;> rfl

theorem mem_filterEligible : w ∈ filterEligible job workers ↔ w ∈ workers ∧ Eligible job w := by
  rw [filterEligible_eq, List.mem_filter, decide_eq_true_iff]

theorem strictEq_iff {o : Option String} {v : Json} :
    strictEq o v = true ↔ ∃ s, v = .string s ∧ o = some s := by
  unfold strictEq
  split
  case h_1 s t =>
    rw [beq_iff_eq]
    constructor
    · rintro rfl
      exact ⟨s, rfl, rfl⟩
    · rintro ⟨u, hv, ho⟩
      rw [Option.some.inj ho, Json.string.inj hv]
  case h_2 hne =>
    refine iff_of_false Bool.false_ne_true ?_
    rintro ⟨s, rfl, rfl⟩
    exact hne s s rfl rfl

theorem fits_iff : fits parse job w = true ↔ Fits parse job w := by
  rw [fits, Fits]
  generalize hint parse job "region" = region, hint parse job "requiredLabels" = labels
  have hregion : ((region.any fun region => region.truthy && !strictEq w.region region) = true) ↔
      ¬ ∀ v ∈ region, v.truthy = true → ∃ s, v = .string s ∧ w.region = some s := by
    rw [Option.any_eq_true]
    push Not
    refine exists_congr fun v => and_congr_right fun _ => ?_
    rw [Bool.and_eq_true, Bool.not_eq_true', ← Bool.not_eq_true, strictEq_iff]
    push Not
    rfl
  have hlabels : (labels.any Json.truthy = true →
      ((labels.elim [] Json.entries).all fun l => strictEq (w.labels.lookup l.1) l.2) = true) ↔
      ∀ v ∈ labels, v.truthy = true → ∀ l ∈ v.entries, ∃ s, l.2 = .string s ∧
        w.labels.lookup l.1 = some s := by
    cases labels with
    | none => exact iff_of_true (fun h => by cases h) fun v hv => absurd hv (Option.not_mem_none v)
    | some v => simp [strictEq_iff]
  rw [← hlabels]
  split_ifs with h₁ h₂
  · exact iff_of_false not_false fun h => hregion.mp h₁ h.1
  · exact ⟨fun h => ⟨not_not.mp (mt hregion.mpr h₁), fun _ => h⟩, fun h => h.2 h₂⟩
  · exact iff_of_true rfl ⟨not_not.mp (mt hregion.mpr h₁), fun h => absurd h h₂⟩

instance (parse : String → Json) (job : Job) : DecidablePred (Fits parse job) :=
  fun _ => decidable_of_iff _ fits_iff

/-! ## The ratios -/

/-- **The quotients of doubles** order the workers as the exact ratios do. -/
theorem load_lt_load_iff (hw : w.hasRoom = true) (hx : x.hasRoom = true) :
    load w < load x ↔ ratio w < ratio x := by
  have hwpos := WorkerNode.maxConcurrency_pos hw
  have hxpos := WorkerNode.maxConcurrency_pos hx
  rw [WorkerNode.hasRoom, decide_eq_true_iff] at hx
  have hwsmall := w.small
  have hxsmall := x.small
  rw [load, load, max_eq_left hwpos, max_eq_left hxpos]
  have := Double.divide_lt_divide_iff (a := w.currentJobCount) (b := w.maxConcurrency)
    (c := x.currentJobCount) (d := x.maxConcurrency) (by omega) (by omega) (by omega) (by omega)
    (by omega) (by omega) (by omega)
  rw [Int.cast_natCast, Int.cast_natCast] at this
  exact this

theorem FirstLeast.mem {P : CapableWorker → Prop} (h : FirstLeast P workers w) :
    w ∈ workers ∧ P w := by
  obtain ⟨pre, post, rfl, hw, -⟩ := h
  exact ⟨List.mem_append_right _ List.mem_cons_self, hw⟩

/-- **The reduction** over the workers with `P`, all of which have room. -/
theorem leastLoaded_firstLeast {P : CapableWorker → Prop} [DecidablePred P]
    {best : CapableWorker} {rest : List CapableWorker}
    (h : (workers.filter fun w => P w) = best :: rest) (hroom : ∀ w, P w → w.hasRoom = true) :
    FirstLeast P workers (leastLoaded best rest) := by
  have hfirst : IsFirstLeast load (workers.filter fun w => P w) (leastLoaded best rest) :=
    h ▸ reduce_isFirstLeast load best rest
  obtain ⟨pre, post, hsplit, hP, hpre, hpost⟩ := hfirst.of_filter
  have hPw := of_decide_eq_true hP
  have hwroom := hroom _ hPw
  refine ⟨pre, post, hsplit, hPw, fun x hx hPx => ?_, fun x hx hPx => ?_⟩
  · exact (load_lt_load_iff hwroom (hroom x hPx)).mp (hpre x hx (decide_eq_true hPx))
  · have hle := hpost x hx (decide_eq_true hPx)
    by_contra hlt
    exact absurd ((load_lt_load_iff (hroom x hPx) hwroom).mpr (not_le.mp hlt)) (not_lt.mpr hle)

theorem FirstLeast.congr {P Q : CapableWorker → Prop} (h : FirstLeast P workers w)
    (hPQ : ∀ x ∈ workers, P x ↔ Q x) : FirstLeast Q workers w := by
  have hw := h.mem
  obtain ⟨pre, post, rfl, -, hpre, hpost⟩ := h
  refine ⟨pre, post, rfl, (hPQ w hw.1).mp hw.2, fun x hx hQ => ?_, fun x hx hQ => ?_⟩
  · exact hpre x hx ((hPQ x (List.mem_append_left _ hx)).mpr hQ)
  · have hmem := List.mem_append_right pre (List.mem_cons_of_mem w hx)
    exact hpost x hx ((hPQ x hmem).mpr hQ)

/-! ## What each strategy returns -/

theorem Eligible.hasRoom (h : Eligible job w) : w.hasRoom = true := decide_eq_true h.2.1

theorem leastLoaded_eligible {best : CapableWorker} {rest : List CapableWorker}
    (h : filterEligible job workers = best :: rest) :
    FirstLeast (Eligible job) workers (leastLoaded best rest) :=
  leastLoaded_firstLeast ((filterEligible_eq job workers).symm.trans h) fun _ => Eligible.hasRoom

variable (parse) in
/-- **`affinity`** returns the first of the least loaded among the workers that it prefers. -/
theorem affinity_preferred {best : CapableWorker} {rest : List CapableWorker}
    (h : filterEligible job workers = best :: rest) :
    FirstLeast (Preferred parse job workers) workers (affinity parse job best rest) := by
  unfold affinity
  split
  case h_1 hnone =>
    -- no eligible worker fits
    rw [← h, List.filter_eq_nil_iff] at hnone
    refine (leastLoaded_eligible h).congr fun x _ => ⟨fun hx => ⟨hx, .inr fun y hy hyE hfit => ?_⟩,
      And.left⟩
    exact hnone y (mem_filterEligible.mpr ⟨hy, hyE⟩) (fits_iff.mpr hfit)
  case h_2 v vs hsome =>
    have hfilter : (workers.filter fun w => Eligible job w ∧ Fits parse job w) = v :: vs := by
      rw [← hsome, ← h, filterEligible_eq, List.filter_filter]
      refine List.filter_congr fun y _ => ?_
      rw [Bool.eq_iff_iff, Bool.and_eq_true, decide_eq_true_iff, decide_eq_true_iff, fits_iff]
      exact and_comm
    have hv : v ∈ workers.filter fun w => Eligible job w ∧ Fits parse job w :=
      hfilter ▸ List.mem_cons_self
    obtain ⟨hvmem, hvP⟩ := List.mem_filter.mp hv
    rw [decide_eq_true_iff] at hvP
    refine (leastLoaded_firstLeast hfilter fun _ hP => hP.1.hasRoom).congr fun x _ =>
      ⟨fun hx => ⟨hx.1, .inl hx.2⟩, fun hx => ⟨hx.1, hx.2.resolve_right fun hall => ?_⟩⟩
    exact hall v hvmem hvP.1 hvP.2

theorem roundRobin_mem (lb : LoadBalancer) (hne : workers ≠ []) :
    ∃ w ∈ workers, (roundRobin lb workers).2 = some w := by
  have hlt : lb.rrIndex % workers.length < workers.length :=
    Nat.mod_lt _ (List.length_pos_of_ne_nil hne)
  exact ⟨workers[lb.rrIndex % workers.length], List.getElem_mem hlt, List.getElem?_eq_getElem hlt⟩

theorem random_mem (random : MathRandom) (hne : workers ≠ [])
    (hlen : workers.length ≤ 2 ^ 53) :
    ∃ w ∈ workers, workers[⌊Double.round (random.value * workers.length)⌋.toNat]? = some w := by
  have hpos := List.length_pos_of_ne_nil hne
  have hround := Double.round_mul_natCast_lt hpos hlen random.nonneg random.below
  have hfloor : ⌊Double.round (random.value * workers.length)⌋ < (workers.length : ℤ) :=
    Int.floor_lt.mpr (by exact_mod_cast hround)
  have hlt : ⌊Double.round (random.value * workers.length)⌋.toNat < workers.length := by omega
  exact ⟨_, List.getElem_mem hlt, List.getElem?_eq_getElem hlt⟩

variable (parse lb random) in
/-- **If some worker is eligible**, one of them is returned, by the rule of the strategy. -/
theorem selectWorker_of_cons {best : CapableWorker} {rest : List CapableWorker}
    (hlen : workers.length < 2 ^ 32) (h : filterEligible job workers = best :: rest) :
    ∃ w ∈ filterEligible job workers, (lb.selectWorker parse random job workers).2 = some w ∧
      (lb.strategy = .leastLoaded → FirstLeast (Eligible job) workers w) ∧
      (lb.strategy = .affinity → FirstLeast (Preferred parse job workers) workers w) := by
  have hlen' : (best :: rest).length ≤ 2 ^ 53 := by
    have hle : (filterEligible job workers).length ≤ workers.length := List.length_filter_le _ _
    rw [h] at hle
    omega
  rw [LoadBalancer.selectWorker, h]
  cases hs : lb.strategy with
  | leastLoaded =>
      have hfirst := leastLoaded_eligible h
      refine ⟨_, h ▸ mem_filterEligible.mpr hfirst.mem, rfl, fun _ => hfirst, fun heq => ?_⟩
      cases heq
  | roundRobin =>
      obtain ⟨w, hw, heq⟩ := roundRobin_mem lb (List.cons_ne_nil best rest)
      exact ⟨w, hw, heq, (fun h => by cases h), fun h => by cases h⟩
  | affinity =>
      have hfirst := affinity_preferred parse h
      obtain ⟨hmem, hpref⟩ := hfirst.mem
      refine ⟨_, h ▸ mem_filterEligible.mpr ⟨hmem, hpref.1⟩, rfl, fun heq => ?_, fun _ => hfirst⟩
      cases heq
  | random =>
      obtain ⟨w, hw, heq⟩ := random_mem random (List.cons_ne_nil best rest) hlen'
      exact ⟨w, hw, heq, (fun h => by cases h), fun h => by cases h⟩

/-- **`selectWorker`** returns nothing exactly if no worker is eligible, and otherwise an eligible
worker of the list; the strategies that compare return the first of the least loaded. An array
has fewer than `2 ^ 32` elements. -/
theorem selectWorker_sound (parse : String → Json) (lb : LoadBalancer) (random : MathRandom)
    (job : Job) (workers : List CapableWorker) (hlen : workers.length < 2 ^ 32) :
    ((lb.selectWorker parse random job workers).2 = none ↔ ∀ w ∈ workers, ¬ Eligible job w) ∧
      ∀ w, (lb.selectWorker parse random job workers).2 = some w →
        w ∈ workers ∧ Eligible job w ∧
          (lb.strategy = .leastLoaded → FirstLeast (Eligible job) workers w) ∧
          (lb.strategy = .affinity → FirstLeast (Preferred parse job workers) workers w) := by
  rcases h : filterEligible job workers with _ | ⟨best, rest⟩
  · have hnone : (lb.selectWorker parse random job workers).2 = none := by
      rw [LoadBalancer.selectWorker, h]
    rw [hnone]
    refine ⟨iff_of_true rfl fun w hw hE => ?_, fun w hw => by cases hw⟩
    have hmem := mem_filterEligible.mpr ⟨hw, hE⟩
    rw [h] at hmem
    exact List.not_mem_nil hmem
  · obtain ⟨w, hmem, hsome, hleast, haff⟩ := selectWorker_of_cons parse lb random hlen h
    obtain ⟨hw, hE⟩ := mem_filterEligible.mp hmem
    rw [hsome]
    refine ⟨iff_of_false (Option.some_ne_none w) fun hall => hall w hw hE, fun x hx => ?_⟩
    obtain rfl := Option.some.inj hx
    exact ⟨hw, hE, hleast, haff⟩

/-- A worker in Europe that is half full, and one elsewhere that is free. -/
def euWorker : CapableWorker :=
  { id := "eu1", status := .busy, jobTypes := ["SHELL_COMMAND"], currentJobCount := 2,
    maxConcurrency := 4, region := some "eu", labels := [("disk", "ssd")], small := by decide }

def usWorker : CapableWorker :=
  { id := "us1", status := .online, jobTypes := ["CUSTOM"], currentJobCount := 0,
    maxConcurrency := 8, region := some "us", labels := [], small := by decide }

/-- A job that prefers Europe, and a draw. -/
def euJob : Job := { shellJob with metadata := [("region", "eu")] }

def someRandom : MathRandom := ⟨0, le_rfl, by norm_num⟩

theorem eu_worker_selected :
    ∃ w, ((⟨.affinity, 0⟩ : LoadBalancer).selectWorker Json.string someRandom euJob
        [usWorker, euWorker]).2 = some w ∧
      FirstLeast (Preferred Json.string euJob [usWorker, euWorker]) [usWorker, euWorker] w := by
  have hsound := selectWorker_sound Json.string ⟨.affinity, 0⟩ someRandom euJob
    [usWorker, euWorker] (by decide)
  have hne := mt hsound.1.mp (by decide)
  obtain ⟨w, hw⟩ := Option.ne_none_iff_exists'.mp hne
  exact ⟨w, hw, (hsound.2 w hw).2.2.2 rfl⟩

/-! ## The model of one strategy -/

theorem filterEligible_map (job : Job) (workers : List CapableWorker) :
    TaskOrchestration.LoadBalancer.filterEligible job (workers.map (·.toWorkerNode)) =
      (filterEligible job workers).map (·.toWorkerNode) :=
  List.filter_map ..

theorem leastLoaded_map (best : CapableWorker) (rest : List CapableWorker) :
    TaskOrchestration.LoadBalancer.leastLoaded (fun a b : ℤ => Double.divide a b)
      best.toWorkerNode (rest.map (·.toWorkerNode)) = (leastLoaded best rest).toWorkerNode := by
  induction rest generalizing best with
  | nil => rfl
  | cons w rest ih =>
      rw [TaskOrchestration.LoadBalancer.leastLoaded, leastLoaded, List.map_cons, List.foldl_cons,
        List.foldl_cons]
      by_cases hlt : load w < load best
      · rw [if_pos hlt]
        exact (congrArg (List.foldl _ · _) (if_pos hlt)).trans (ih w)
      · rw [if_neg hlt]
        exact (congrArg (List.foldl _ · _) (if_neg hlt)).trans (ih best)

/-- **With `LEAST_LOADED`** the load balancer is the one that is compared with the query. -/
theorem selectWorker_leastLoaded (parse : String → Json) (random : MathRandom) (job : Job)
    (workers : List CapableWorker) (h : lb.strategy = .leastLoaded) :
    (lb.selectWorker parse random job workers).2.map (·.toWorkerNode) =
      TaskOrchestration.LoadBalancer.selectWorker (fun a b : ℤ => Double.divide a b) job
        (workers.map (·.toWorkerNode)) := by
  rw [TaskOrchestration.LoadBalancer.selectWorker, filterEligible_map, LoadBalancer.selectWorker, h]
  cases filterEligible job workers with
  | nil => rfl
  | cons best rest => exact congrArg some (leastLoaded_map best rest).symm

end Balancing

end TaskOrchestration

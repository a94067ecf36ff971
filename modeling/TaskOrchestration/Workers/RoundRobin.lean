import Mathlib.Data.List.GetD
import TaskOrchestration.Lib.Rotation
import TaskOrchestration.Workers.Strategies

set_option autoImplicit false

/-!
# Round robin

The index that a load balancer keeps is reduced modulo the number of the workers that were eligible
in the last call. If they stay the same the workers take turns. If they change, the index means
another worker in the next call.

* `Call`, `selections`, `after`: successive calls, what they return, and the load balancer after;
* `selections_eq_turns`, **`roundRobin_even`**: the same eligible workers in every call;
* `PoolCall`, `Fair`, `standings`, `selections_hits`: a pool whose workers come and go, and where
  the index stands in it;
* **`roundRobin_fair`**: the index comes nearer to the worker from call to call; `nearing_of_same`;
  `roundRobin_starves`.
-/

namespace TaskOrchestration.Balancing

open Rotation

/-- The arguments of a call of `selectWorker`, and what `Math.random` returns in it. -/
structure Call where
  random : MathRandom
  job : Job
  workers : List CapableWorker

def Call.eligible (c : Call) : List CapableWorker := filterEligible c.job c.workers

variable (parse : String → Json)

def selections (lb : LoadBalancer) : List Call → List (Option CapableWorker)
  | [] => []
  | c :: calls =>
      let r := lb.selectWorker parse c.random c.job c.workers
      r.2 :: selections r.1 calls

/-- The load balancer after successive calls. -/
def LoadBalancer.after (lb : LoadBalancer) (calls : List Call) : LoadBalancer :=
  calls.foldl (fun lb c => (lb.selectWorker parse c.random c.job c.workers).1) lb

variable {parse} {lb : LoadBalancer} {c : Call} {calls : List Call} {eligible : List CapableWorker}

theorem selectWorker_roundRobin (hlb : lb.strategy = .roundRobin) (hne : c.eligible ≠ []) :
    lb.selectWorker parse c.random c.job c.workers = roundRobin lb c.eligible := by
  rw [Call.eligible] at hne ⊢
  rw [LoadBalancer.selectWorker, hlb]
  cases h : filterEligible c.job c.workers with
  | nil => exact absurd h hne
  | cons best rest => rfl

theorem selectWorker_strategy (lb : LoadBalancer) (c : Call) :
    (lb.selectWorker parse c.random c.job c.workers).1.strategy = lb.strategy := by
  rw [LoadBalancer.selectWorker]
  split
  · rfl
  · split <;> rfl

theorem after_strategy (lb : LoadBalancer) (calls : List Call) :
    (lb.after parse calls).strategy = lb.strategy := by
  induction calls generalizing lb with
  | nil => rfl
  | cons c calls ih => exact (ih _).trans (selectWorker_strategy lb c)

/-! ## The same workers in every call -/

/-- **The workers take turns.** -/
theorem selections_eq_turns (hlb : lb.strategy = .roundRobin) (hne : eligible ≠ [])
    (hcalls : ∀ c ∈ calls, c.eligible = eligible) :
    selections parse lb calls = turns eligible lb.rrIndex calls.length := by
  induction calls generalizing lb with
  | nil => rfl
  | cons c calls ih =>
      have hc := hcalls c List.mem_cons_self
      rw [selections, selectWorker_roundRobin hlb (by rwa [hc]), hc]
      exact congrArg _ (ih hlb fun c' hc' => hcalls c' (List.mem_cons_of_mem _ hc'))

/-- **Round robin is even.** After any calls, in `m` calls with the same `n` eligible workers each
of them is selected `m / n` times, rounded down or up. A worker that is listed more than once counts
as often. -/
theorem roundRobin_even (parse : String → Json) (lb : LoadBalancer)
    (hlb : lb.strategy = .roundRobin) (before calls : List Call) (eligible : List CapableWorker)
    (hcalls : ∀ c ∈ calls, c.eligible = eligible) (w : CapableWorker) (hw : w ∈ eligible) :
    eligible.count w * (calls.length / eligible.length) ≤
        (selections parse (lb.after parse before) calls).count (some w) ∧
      (selections parse (lb.after parse before) calls).count (some w) ≤
        eligible.count w * ((calls.length + eligible.length - 1) / eligible.length) ∧
      (eligible.count w = 1 →
        (selections parse (lb.after parse before) calls).count (some w) =
            calls.length / eligible.length ∨
          (selections parse (lb.after parse before) calls).count (some w) =
            (calls.length + eligible.length - 1) / eligible.length) := by
  have hne := List.ne_nil_of_mem hw
  rw [selections_eq_turns ((after_strategy lb before).trans hlb) hne hcalls]
  obtain ⟨hlow, hhigh⟩ := count_turns hne (lb.after parse before).rrIndex calls.length w
  refine ⟨hlow, hhigh, fun hone => ?_⟩
  rw [hone, Nat.one_mul] at hlow hhigh
  have hpos := List.length_pos_of_ne_nil hne
  have hceil : (calls.length + eligible.length - 1) / eligible.length ≤
      calls.length / eligible.length + 1 := by
    rw [← Nat.add_div_right _ hpos]
    exact Nat.div_le_div_right (Nat.sub_le _ _)
  omega

def shellCall (workers : List CapableWorker) : Call := ⟨someRandom, shellJob, workers⟩

/-- Three calls with two eligible workers, after a call with one. -/
def evenCalls : List Call := List.replicate 3 (shellCall [usWorker, euWorker])

theorem euWorker_even :
    let count := (selections Json.string ((⟨.roundRobin, 0⟩ : LoadBalancer).after Json.string
      [shellCall [euWorker]]) evenCalls).count (some euWorker)
    1 ≤ count ∧ count ≤ 2 := by
  have hcalls : ∀ c ∈ evenCalls, c.eligible = [usWorker, euWorker] := fun c hc => by
    rw [List.eq_of_mem_replicate hc]
    rfl
  obtain ⟨hlow, hhigh, -⟩ := roundRobin_even Json.string ⟨.roundRobin, 0⟩ rfl
    [shellCall [euWorker]] evenCalls [usWorker, euWorker] hcalls euWorker (by decide)
  exact ⟨hlow, hhigh⟩

/-! ## A pool whose workers come and go -/

/-- **A call over a pool** with these ids in this order, in which the worker `id` is eligible. The
others need not be. -/
structure PoolCall (ids : List String) (id : String) extends Call where
  pool : workers.map (·.id) = ids
  isEligible : ∃ w ∈ workers, w.id = id ∧ Eligible job w

/-- The place in the pool of the eligible worker at an index. -/
def PoolCall.standsAt {ids : List String} {id : String} (c : PoolCall ids id) (i : ℕ) : ℕ :=
  ids.idxOf ((c.eligible.map (·.id)).getD (i % c.eligible.length) id)

variable (parse) in
/-- The places in the pool where the index stands when the calls come. -/
def standings {ids : List String} {id : String} (lb : LoadBalancer) :
    List (PoolCall ids id) → List ℕ
  | [] => []
  | c :: calls => c.standsAt lb.rrIndex ::
      standings (lb.selectWorker parse c.random c.job c.workers).1 calls

/-- **In every `n` consecutive calls** the worker is selected. -/
def Fair (n : ℕ) (id : String) (results : List (Option CapableWorker)) : Prop :=
  ∀ win, win <:+: results → win.length = n → ∃ w, some w ∈ win ∧ w.id = id

def isHit (id : String) (result : Option CapableWorker) : Bool := result.any (·.id == id)

variable {ids : List String} {id : String} {c : PoolCall ids id} {calls : List (PoolCall ids id)}

theorem fair_iff_spaced {n : ℕ} {results : List (Option CapableWorker)} :
    Fair n id results ↔ Spaced n (results.map (isHit id)) := by
  have hmem : ∀ win : List (Option CapableWorker),
      true ∈ win.map (isHit id) ↔ ∃ w, some w ∈ win ∧ w.id = id := by
    intro win
    simp only [List.mem_map, isHit, Option.any_eq_true, beq_iff_eq]
    constructor
    · rintro ⟨_, h, w, rfl, hw⟩
      exact ⟨w, h, hw⟩
    · rintro ⟨w, h, hw⟩
      exact ⟨_, h, w, rfl, hw⟩
  constructor
  · intro h win hwin hlen
    obtain ⟨win, hsub, rfl⟩ := List.infix_map_iff.mp hwin
    exact (hmem win).mpr (h win hsub (by rwa [List.length_map] at hlen))
  · intro h win hwin hlen
    exact (hmem win).mp (h _ (hwin.map _) (by rwa [List.length_map]))

theorem PoolCall.eligible_sublist (c : PoolCall ids id) :
    (c.eligible.map (·.id)).Sublist ids := by
  have h := (List.filter_sublist (p := fun w => decide (Eligible c.job w)) (l := c.workers)).map
    (·.id)
  rw [c.pool, ← filterEligible_eq] at h
  exact h

theorem PoolCall.mem_eligible (c : PoolCall ids id) : id ∈ c.eligible.map (·.id) := by
  obtain ⟨w, hw, hid, hE⟩ := c.isEligible
  exact List.mem_map.mpr ⟨w, mem_filterEligible.mpr ⟨hw, hE⟩, hid⟩

theorem PoolCall.length_pos (c : PoolCall ids id) : 0 < c.eligible.length := by
  have h := List.length_pos_of_mem c.mem_eligible
  rwa [List.length_map] at h

theorem PoolCall.getD_eq (c : PoolCall ids id) {k : ℕ} (hk : k < c.eligible.length) :
    (c.eligible.map (·.id)).getD k id = c.eligible[k].id := by
  rw [List.getD_eq_getElem _ _ (by rwa [List.length_map]), List.getElem_map]

theorem PoolCall.mem_pool (c : PoolCall ids id) {k : ℕ} (hk : k < c.eligible.length) :
    c.eligible[k].id ∈ ids :=
  c.eligible_sublist.subset (List.mem_map_of_mem (List.getElem_mem hk))

theorem PoolCall.standsAt_lt (c : PoolCall ids id) (i : ℕ) : c.standsAt i < ids.length := by
  have hk := Nat.mod_lt i c.length_pos
  rw [standsAt, c.getD_eq hk]
  exact List.idxOf_lt_length_of_mem (c.mem_pool hk)

theorem PoolCall.isHit_getElem (c : PoolCall ids id) (i : ℕ) :
    isHit id c.eligible[i % c.eligible.length]? = (c.standsAt i == ids.idxOf id) := by
  have hk := Nat.mod_lt i c.length_pos
  rw [List.getElem?_eq_getElem hk, isHit, Option.any_some, Bool.eq_iff_iff, beq_iff_eq, beq_iff_eq,
    standsAt, c.getD_eq hk, List.idxOf_inj (c.mem_pool hk)]

theorem selections_hits (hlb : lb.strategy = .roundRobin) (calls : List (PoolCall ids id)) :
    (selections parse lb (calls.map (·.toCall))).map (isHit id) =
      (standings parse lb calls).map (· == ids.idxOf id) := by
  induction calls generalizing lb with
  | nil => rfl
  | cons c calls ih =>
      have hc : lb.selectWorker parse c.random c.job c.workers = roundRobin lb c.eligible :=
        selectWorker_roundRobin hlb (List.ne_nil_of_length_pos c.length_pos)
      rw [List.map_cons, selections, standings, List.map_cons, List.map_cons]
      congr 1
      · rw [hc]
        exact c.isHit_getElem lb.rrIndex
      · exact ih ((selectWorker_strategy lb c.toCall).trans hlb)

theorem standings_lt (lb : LoadBalancer) (calls : List (PoolCall ids id)) :
    ∀ x ∈ standings parse lb calls, x < ids.length := by
  induction calls generalizing lb with
  | nil => exact fun x hx => absurd hx List.not_mem_nil
  | cons c calls ih =>
      intro x hx
      rcases List.mem_cons.mp hx with rfl | hx
      · exact c.standsAt_lt lb.rrIndex
      · exact ih _ x hx

theorem idxOf_lt_of_sublist {es : List String} (hids : ids.Nodup) (hes : es.Sublist ids) {j k : ℕ}
    (hjk : j < k) (hk : k < es.length) :
    ids.idxOf (es.getD j id) < ids.idxOf (es.getD k id) := by
  have hpairs : ids.Pairwise fun a b => ids.idxOf a < ids.idxOf b := by
    rw [List.pairwise_iff_getElem]
    intro a b ha hb hab
    rwa [hids.idxOf_getElem, hids.idxOf_getElem]
  rw [List.getD_eq_getElem _ _ (hjk.trans hk), List.getD_eq_getElem _ _ hk]
  exact List.pairwise_iff_getElem.mp (hpairs.sublist hes) j k _ hk hjk

/-- **While the eligible workers stay the same**, the index comes nearer to each of them. -/
theorem nearing_of_same {es : List String} (hids : ids.Nodup) (hlb : lb.strategy = .roundRobin)
    (hcalls : ∀ c ∈ calls, c.eligible.map (·.id) = es) :
    Nearing ids.length (ids.idxOf id) (standings parse lb calls) := by
  have hstands : ∀ c ∈ calls, ∀ i, c.standsAt i = ids.idxOf (es.getD (i % es.length) id) :=
    fun c hc i => by rw [PoolCall.standsAt, ← hcalls c hc, List.length_map]
  induction calls generalizing lb with
  | nil => exact .nil
  | cons c calls ih =>
      have hrest : Nearing ids.length (ids.idxOf id)
          (standings parse (lb.selectWorker parse c.random c.job c.workers).1 calls) :=
        ih ((selectWorker_strategy lb c.toCall).trans hlb)
          (fun c' hc' => hcalls c' (List.mem_cons_of_mem _ hc'))
          fun c' hc' => hstands c' (List.mem_cons_of_mem _ hc')
      cases calls with
      | nil => exact .singleton _
      | cons c' calls =>
          refine List.isChain_cons_cons.mpr ⟨fun hne => ?_, hrest⟩
          have hc := hcalls c List.mem_cons_self
          have hsub : es.Sublist ids := hc ▸ c.eligible_sublist
          have hq : es.idxOf id < es.length := List.idxOf_lt_length_of_mem (hc ▸ c.mem_eligible)
          have hplace : es.getD (es.idxOf id) id = id := by
            rw [List.getD_eq_getElem _ _ hq, List.getElem_idxOf]
          have hk := Nat.mod_lt lb.rrIndex (Nat.zero_lt_of_lt hq)
          -- the call moves the index on by one
          have hindex : (lb.selectWorker parse c.random c.job c.workers).1.rrIndex =
              (lb.rrIndex + 1) % es.length := by
            rw [selectWorker_roundRobin hlb (List.ne_nil_of_length_pos c.length_pos), ← hc,
              List.length_map]
            rfl
          rw [hstands c List.mem_cons_self] at hne ⊢
          rw [hstands c' (List.mem_cons_of_mem _ List.mem_cons_self), hindex, Nat.mod_mod,
            ← Nat.mod_add_mod]
          have hin : ∀ j, j < es.length → ids.idxOf (es.getD j id) < ids.length := fun j hj => by
            rw [List.getD_eq_getElem _ _ hj]
            exact List.idxOf_lt_length_of_mem (hsub.subset (List.getElem_mem hj))
          have hnext := ahead_next (fun _ _ => idxOf_lt_of_sublist hids hsub) hin hk hq
            fun heq => hne (by rw [heq, hplace])
          rwa [hplace] at hnext

/-! ## Three workers -/

def shellNode (id : String) (count : ℕ) : CapableWorker :=
  { id := id, status := .online, jobTypes := ["SHELL_COMMAND"], currentJobCount := count,
    maxConcurrency := 3, region := none, labels := [], small := by decide }

def abcCall (count : ℕ) : PoolCall ["a", "b", "c"] "b" where
  toCall := shellCall [shellNode "a" count, shellNode "b" 0, shellNode "c" 0]
  pool := rfl
  isEligible := ⟨shellNode "b" 0, by simp [shellCall], rfl,
    (by decide : Eligible shellJob (shellNode "b" 0))⟩

/-- The worker `a` fills up after three calls, and is free again after five. -/
def abcCalls : List (PoolCall ["a", "b", "c"] "b") :=
  [abcCall 0, abcCall 1, abcCall 2, abcCall 3, abcCall 3, abcCall 2, abcCall 2]

end TaskOrchestration.Balancing

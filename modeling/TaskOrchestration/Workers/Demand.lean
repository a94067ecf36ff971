import Mathlib.Logic.Function.Iterate
import Mathlib.Tactic.Positivity
import TaskOrchestration.Lib.Double
import TaskOrchestration.Workers.Pool

set_option autoImplicit false

/-!
# Autoscaling against the demand

A check that finds too many jobs for each worker adds workers up to the quotient of that number and
the threshold. The number is for each of the workers there are, so the quotient is how many times as
many workers are needed, and the check takes it for how many.

* `autoScale`, `runEvents_check`: a check that no other one overlaps; `runEvents_checks`;
* `Faithful`: the rounding of the quotients decides nothing; `faithful_id`, **`faithful_double`**;
* `MeetsDemand`: what the checks come to; `unloaded`: the size after a scale-down;
* `needed`, `meetsDemand_iff_of_near`; **`meetsDemand_iff`**; `demand_not_met`.
-/

namespace TaskOrchestration.WorkerPool

open LabelledRun

variable (cfg : WorkerPoolConfig) (round : ℚ → ℚ)

/-- **A check that no other one overlaps**: the number of workers after it. -/
def autoScale (depth current : ℕ) : ℕ :=
  if ScalesUp cfg round depth current then current + (toAdd cfg round depth current).toNat
  else if ScalesDown cfg round depth current then current - (current - cfg.minWorkers)
  else current

/-- The events of the check `k` that adds `added` workers. -/
def checkEvents (k depth added : ℕ) : List Event :=
  .interval :: .depth k depth :: (List.replicate added (.added k) ++ [.refreshed k])

variable {cfg round}

theorem set_last (checks : List AutoScale) (a b : AutoScale) :
    (checks ++ [a]).set checks.length b = checks ++ [b] := by
  rw [List.set_append_right _ _ le_rfl, Nat.sub_self, List.set_cons_zero]

theorem runEvents_added (checks : List AutoScale) (current left : ℕ) :
    runEvents (step cfg round) ⟨(addNext current left).1, checks ++ [(addNext current left).2]⟩
        (List.replicate left (.added checks.length)) =
      some ⟨current + left, checks ++ [.refreshing]⟩ := by
  induction left generalizing current with
  | zero => rfl
  | succ left ih =>
      have hget : (checks ++ [AutoScale.adding left])[checks.length]? = some (.adding left) :=
        List.getElem?_concat_length ..
      have hstep : step cfg round ⟨current + 1, checks ++ [.adding left]⟩ (.added checks.length) =
          some ⟨(addNext (current + 1) left).1, checks ++ [(addNext (current + 1) left).2]⟩ := by
        simp only [step, hget, moveTo, set_last]
      rw [List.replicate_succ, runEvents, addNext, hstep, Option.bind_some, ih, Nat.add_assoc,
        Nat.add_comm 1 left]

variable (cfg round) in
/-- **The check runs** and changes the size as `autoScale` does. -/
theorem runEvents_check (p : WorkerPool) (depth : ℕ) :
    ∃ added, runEvents (step cfg round) p (checkEvents p.checks.length depth added) =
      some ⟨autoScale cfg round depth p.size, p.checks ++ [.done]⟩ := by
  obtain ⟨size, checks⟩ := p
  have hread : (checks ++ [AutoScale.readingDepth])[checks.length]? = some .readingDepth :=
    List.getElem?_concat_length ..
  have hrefresh : (checks ++ [AutoScale.refreshing])[checks.length]? = some .refreshing :=
    List.getElem?_concat_length ..
  -- the check reads the depth, adds its workers, and reads the rows
  have hrun : ∀ current left, scale cfg round depth size = addNext current left →
      runEvents (step cfg round) ⟨size, checks⟩ (checkEvents checks.length depth left) =
        some ⟨current + left, checks ++ [.done]⟩ := by
    intro current left hscale
    rw [checkEvents, runEvents]
    simp only [step, Option.bind_some]
    rw [runEvents]
    simp only [step, hread, Option.bind_some, moveTo, set_last, hscale]
    rw [runEvents_append, runEvents_added, Option.bind_some, runEvents]
    simp only [step, hrefresh, moveTo, set_last, Option.bind_some, runEvents]
  unfold autoScale
  split_ifs with hup hdown
  · exact ⟨_, hrun size _ (by rw [scale, if_pos hup])⟩
  · refine ⟨0, hrun (size - (size - cfg.minWorkers)) 0 ?_⟩
    rw [scale, if_neg hup, if_pos hdown, addNext]
  · refine ⟨0, hrun size 0 ?_⟩
    rw [scale, if_neg hup, if_neg hdown, addNext]

variable (cfg round) in
/-- **Repeated checks** that do not overlap. -/
theorem runEvents_checks (p : WorkerPool) (depth k : ℕ) :
    ∃ es p', runEvents (step cfg round) p es = some p' ∧
      p'.size = (autoScale cfg round depth)^[k] p.size := by
  induction k generalizing p with
  | zero => exact ⟨[], p, rfl, rfl⟩
  | succ k ih =>
      obtain ⟨added, hrun⟩ := runEvents_check cfg round p depth
      obtain ⟨es, p', hes, hsize⟩ := ih ⟨autoScale cfg round depth p.size, p.checks ++ [.done]⟩
      refine ⟨checkEvents p.checks.length depth added ++ es, p', ?_, ?_⟩
      · rw [runEvents_append, hrun, Option.bind_some, hes]
      · rw [Function.iterate_succ_apply, hsize]

/-! ## Rounding -/

variable (cfg round) in
/-- **The rounding decides nothing**: for every size within the bounds, the comparisons and the
target are those of the exact quotients. -/
structure Faithful (depth : ℕ) : Prop where
  up : ∀ n : ℕ, 1 ≤ n → n ≤ cfg.maxWorkers →
    (jobsPerWorker round depth n > cfg.scaleUpThreshold ↔ n * cfg.scaleUpThreshold < depth)
  down : ∀ n : ℕ, 1 ≤ n → n ≤ cfg.maxWorkers →
    (jobsPerWorker round depth n < cfg.scaleDownThreshold ↔ depth < n * cfg.scaleDownThreshold)
  ceil : ∀ n : ℕ, 1 ≤ n → n ≤ cfg.maxWorkers →
    ⌈round (jobsPerWorker round depth n / cfg.scaleUpThreshold)⌉ =
      ⌈(depth / (n * cfg.scaleUpThreshold) : ℚ)⌉

variable {depth current n : ℕ}

theorem jobsPerWorker_eq (hn : 1 ≤ n) : jobsPerWorker round depth n = round (depth / n) :=
  if_pos hn

theorem faithful_id (cfg : WorkerPoolConfig) (depth : ℕ) : Faithful cfg id depth := by
  have hpos : ∀ n : ℕ, 1 ≤ n → (0 : ℚ) < n := fun n hn => by exact_mod_cast hn
  refine ⟨fun n hn _ => ?_, fun n hn _ => ?_, fun n hn _ => ?_⟩
  · rw [jobsPerWorker_eq hn, id_eq, gt_iff_lt, lt_div_iff₀ (hpos n hn), mul_comm]
  · rw [jobsPerWorker_eq hn, id_eq, div_lt_iff₀ (hpos n hn), mul_comm]
  · rw [jobsPerWorker_eq hn, id_eq, id_eq, div_div]

/-- **Doubles**, if the thresholds are integers and the numbers are not huge. -/
theorem faithful_double (up down : ℕ) (hup : cfg.scaleUpThreshold = up)
    (hdown : cfg.scaleDownThreshold = down) (hpos : 0 < up) (hle : down ≤ up)
    (hmax : cfg.maxWorkers * up ≤ 2 ^ 20) (hdepth : depth ≤ 2 ^ 32) :
    Faithful cfg Double.round depth := by
  have hj : ∀ n, n ≤ cfg.maxWorkers → n * up ≤ 2 ^ 20 := fun n hn =>
    (Nat.mul_le_mul_right up hn).trans hmax
  have hn20 : ∀ n, n ≤ cfg.maxWorkers → n ≤ 2 ^ 20 := fun n hn =>
    (Nat.le_mul_of_pos_right n hpos).trans (hj n hn)
  have hup20 : ∀ n, 1 ≤ n → n ≤ cfg.maxWorkers → up ≤ 2 ^ 20 := fun n hn hle =>
    (Nat.le_mul_of_pos_left up hn).trans (hj n hle)
  refine ⟨fun n hn hle' => ?_, fun n hn hle' => ?_, fun n hn hle' => ?_⟩
  · have := hup20 n hn hle'
    rw [jobsPerWorker_eq hn, hup, gt_iff_lt,
      Double.natCast_lt_round_div_iff hn (hn20 n hle') (by omega)]
    exact_mod_cast Iff.rfl
  · have := hup20 n hn hle'
    rw [jobsPerWorker_eq hn, hdown,
      Double.round_div_lt_natCast_iff hn (hn20 n hle') (by omega)]
    exact_mod_cast Iff.rfl
  · have := hup20 n hn hle'
    rw [jobsPerWorker_eq hn, hup]
    exact Double.ceil_round_round_div hn hpos (hj n hle') (by omega)

/-! ## The demand -/

variable (cfg round) in
/-- **Repeated checks come to a size** that no longer changes and meets the demand. -/
def MeetsDemand (depth current : ℕ) : Prop :=
  ∃ k n, (autoScale cfg round depth)^[k] current = n ∧ autoScale cfg round depth n = n ∧
    (depth ≤ n * cfg.scaleUpThreshold ∨ n = cfg.maxWorkers)

variable (cfg) in
/-- The number of workers after a scale-down, if there is one. -/
def unloaded (depth current : ℕ) : ℕ :=
  if depth < current * cfg.scaleDownThreshold ∧ cfg.minWorkers < current then cfg.minWorkers
  else current

variable (cfg) in
/-- The number that a scale-up aims at. -/
def needed (depth current : ℕ) : ℤ := ⌈(depth / (current * cfg.scaleUpThreshold) : ℚ)⌉

theorem needed_le_iff (hup : 0 < cfg.scaleUpThreshold) (hn : 1 ≤ n) (k : ℤ) :
    needed cfg depth n ≤ k ↔ (depth : ℚ) ≤ k * (n * cfg.scaleUpThreshold) := by
  have hpos : (0 : ℚ) < n := by exact_mod_cast hn
  rw [needed, Int.ceil_le, div_le_iff₀ (mul_pos hpos hup)]

theorem autoScale_of_up (hround : Faithful cfg round depth) (hup : 0 < cfg.scaleUpThreshold)
    (hn : 1 ≤ n) (hmax : n < cfg.maxWorkers) (h : n * cfg.scaleUpThreshold < depth) :
    autoScale cfg round depth n =
      n + (min (needed cfg depth n - n) (cfg.maxWorkers - n : ℤ)).toNat := by
  rw [autoScale, if_pos ⟨(hround.up n hn hmax.le).mpr h, hmax⟩, toAdd, target, if_neg hup.ne']
  dsimp only
  rw [hround.ceil n hn hmax.le, needed]

theorem autoScale_of_down (hround : Faithful cfg round depth)
    (hup : 2 * cfg.scaleDownThreshold ≤ cfg.scaleUpThreshold) (hn : 1 ≤ n)
    (hmax : n ≤ cfg.maxWorkers) (h : depth < n * cfg.scaleDownThreshold)
    (hmin : cfg.minWorkers < n) : autoScale cfg round depth n = cfg.minWorkers := by
  have hnup : ¬ n * cfg.scaleUpThreshold < depth := by
    have hnq : (1 : ℚ) ≤ n := by exact_mod_cast hn
    nlinarith only [hnq, hup, h]
  rw [autoScale, if_neg fun hs => hnup ((hround.up n hn hmax).mp hs.1),
    if_pos ⟨(hround.down n hn hmax).mpr h, hmin⟩]
  omega

theorem autoScale_of_stable (hround : Faithful cfg round depth)
    (hup : 0 < cfg.scaleUpThreshold) (hn : 1 ≤ n) (hmax : n ≤ cfg.maxWorkers)
    (hdown : cfg.minWorkers < n → n * cfg.scaleDownThreshold ≤ depth)
    (h : depth ≤ n * cfg.scaleUpThreshold ∨ n = cfg.maxWorkers ∨ needed cfg depth n ≤ n) :
    autoScale cfg round depth n = n := by
  by_cases hs : ScalesUp cfg round depth n
  · have hlt := (hround.up n hn hmax).mp hs.1
    have hneeded : needed cfg depth n ≤ n :=
      (h.resolve_left (not_le.mpr hlt)).resolve_left hs.2.ne
    rw [autoScale_of_up hround hup hn hs.2 hlt]
    omega
  · rw [autoScale, if_neg hs, if_neg fun hd => ?_]
    exact absurd ((hround.down n hn hmax).mp hd.1) (not_lt.mpr (hdown hd.2))

theorem meetsDemand_autoScale :
    MeetsDemand cfg round depth (autoScale cfg round depth current) ↔
      MeetsDemand cfg round depth current := by
  constructor
  · rintro ⟨k, n, hk, hn⟩
    exact ⟨k + 1, n, hk, hn⟩
  · rintro ⟨k, n, hk, hstable, hn⟩
    refine ⟨k, n, ?_, hstable, hn⟩
    rw [← Function.iterate_succ_apply, Function.iterate_succ_apply', hk, hstable]

theorem meetsDemand_of_stable (h : autoScale cfg round depth n = n) :
    MeetsDemand cfg round depth n ↔ depth ≤ n * cfg.scaleUpThreshold ∨ n = cfg.maxWorkers := by
  constructor
  · rintro ⟨k, m, hk, -, hm⟩
    rw [Function.iterate_fixed h] at hk
    rwa [hk]
  · exact fun hm => ⟨0, n, rfl, h, hm⟩

theorem le_depth_of_scaled (hup : 2 * cfg.scaleDownThreshold ≤ cfg.scaleUpThreshold)
    (hpos : 0 < cfg.scaleUpThreshold) (hn : 2 ≤ n)
    (h : (n - 1 : ℚ) * cfg.scaleUpThreshold < depth) : n * cfg.scaleDownThreshold ≤ depth := by
  have hnq : (2 : ℚ) ≤ n := by exact_mod_cast hn
  nlinarith only [hnq, hup, hpos, h]

theorem bounds_of_needed (hpos : 0 < cfg.scaleUpThreshold) (hn : 1 ≤ n) {t : ℕ}
    (ht : needed cfg depth n = t) : (t - 1 : ℚ) * (n * cfg.scaleUpThreshold) < depth ∧
      (depth : ℚ) ≤ t * (n * cfg.scaleUpThreshold) := by
  constructor
  · by_contra hle
    have hle' : (depth : ℚ) ≤ ((t - 1 : ℤ) : ℚ) * (n * cfg.scaleUpThreshold) := by
      push_cast
      exact not_lt.mp hle
    have := (needed_le_iff hpos hn _).mpr hle'
    omega
  · exact_mod_cast (needed_le_iff hpos hn t).mp ht.le

/-- **A scale-up to the quotient** meets the demand of a single worker only. -/
theorem meetsDemand_iff_of_scaled (hround : Faithful cfg round depth)
    (hup : 2 * cfg.scaleDownThreshold ≤ cfg.scaleUpThreshold) (hpos : 0 < cfg.scaleUpThreshold)
    (hn : 1 ≤ n) (hover : n * cfg.scaleUpThreshold < depth) {t : ℕ}
    (ht : needed cfg depth n = t) (hgt : n < t) (htmax : t < cfg.maxWorkers) :
    MeetsDemand cfg round depth n ↔ n = 1 := by
  have hnq : (1 : ℚ) ≤ n := by exact_mod_cast hn
  have htq : (2 : ℚ) ≤ t := by exact_mod_cast (show 2 ≤ t by omega)
  obtain ⟨hlow, hhigh⟩ := bounds_of_needed hpos hn ht
  have hnext : autoScale cfg round depth n = t := by
    rw [autoScale_of_up hround hpos hn (by omega) hover]
    omega
  have hload : (t - 1 : ℚ) * cfg.scaleUpThreshold < depth := by
    nlinarith only [hlow, hnq, htq, hpos]
  -- the quotient for the new number is the old number
  have hneeded : needed cfg depth t ≤ t := by
    refine le_trans ((needed_le_iff hpos (by omega) (n : ℤ)).mpr ?_) (show (n : ℤ) ≤ t by omega)
    push_cast
    linarith
  rw [← meetsDemand_autoScale, hnext, meetsDemand_of_stable]
  · constructor
    · rintro (hle | hfull)
      · by_contra hne
        have hn2 : (2 : ℚ) ≤ n := by exact_mod_cast (show 2 ≤ n by omega)
        have hprod := mul_le_mul_of_nonneg_right hn2
          (mul_nonneg (show (0 : ℚ) ≤ t - 1 by linarith) hpos.le)
        have htwo := mul_nonneg (show (0 : ℚ) ≤ t - 2 by linarith) hpos.le
        linarith
      · omega
    · rintro rfl
      left
      push_cast at hhigh
      linarith
  · exact autoScale_of_stable hround hpos (by omega) (by omega)
      (fun _ => le_depth_of_scaled hup hpos (by omega) hload) (.inr (.inr hneeded))

/-- **A scale-up that does not fill the pool** meets the demand of a single worker only. -/
theorem meetsDemand_iff_of_near (hround : Faithful cfg round depth)
    (hup : 2 * cfg.scaleDownThreshold ≤ cfg.scaleUpThreshold) (hpos : 0 < cfg.scaleUpThreshold)
    (hn : 1 ≤ n) (hmax : n < cfg.maxWorkers)
    (hloaded : cfg.minWorkers < n → n * cfg.scaleDownThreshold ≤ depth)
    (hover : n * cfg.scaleUpThreshold < depth)
    (hnear : depth ≤ n * (cfg.maxWorkers - 1 : ℚ) * cfg.scaleUpThreshold) :
    MeetsDemand cfg round depth n ↔ n = 1 := by
  rcases le_or_gt (needed cfg depth n) n with hstay | hgt
  · -- the number of workers is above the quotient, and the check adds none
    rw [meetsDemand_of_stable (autoScale_of_stable hround hpos hn hmax.le hloaded
      (.inr (.inr hstay)))]
    refine iff_of_false (fun h => h.elim (not_le.mpr hover) hmax.ne) ?_
    rintro rfl
    have hle := (needed_le_iff hpos hn _).mp hstay
    push_cast at hle hover
    linarith
  · obtain ⟨t, ht⟩ := Int.eq_ofNat_of_zero_le (show 0 ≤ needed cfg depth n by omega)
    have htmax : needed cfg depth n ≤ (cfg.maxWorkers - 1 : ℤ) := by
      refine (needed_le_iff hpos hn _).mpr ?_
      push_cast
      linarith
    exact meetsDemand_iff_of_scaled hround hup hpos hn hover ht (by omega) (by omega)

/-- **Where the checks end** from a size that is not scaled down. -/
theorem meetsDemand_iff_of_loaded (hround : Faithful cfg round depth)
    (hdown : 0 < 2 * cfg.scaleDownThreshold)
    (hup : 2 * cfg.scaleDownThreshold ≤ cfg.scaleUpThreshold) (hn : 1 ≤ n)
    (hmax : n ≤ cfg.maxWorkers)
    (hloaded : cfg.minWorkers < n → n * cfg.scaleDownThreshold ≤ depth) :
    MeetsDemand cfg round depth n ↔
      depth ≤ n * cfg.scaleUpThreshold ∨ n = 1 ∨ n = cfg.maxWorkers ∨
        n * (cfg.maxWorkers - 1 : ℚ) * cfg.scaleUpThreshold < depth := by
  have hpos : 0 < cfg.scaleUpThreshold := hdown.trans_le hup
  have hnq : (1 : ℚ) ≤ n := by exact_mod_cast hn
  by_cases hover : (depth : ℚ) ≤ n * cfg.scaleUpThreshold
  · rw [meetsDemand_of_stable (autoScale_of_stable hround hpos hn hmax hloaded (.inl hover))]
    exact iff_of_true (.inl hover) (.inl hover)
  rcases hmax.eq_or_lt with hfull | hlt
  · rw [meetsDemand_of_stable (autoScale_of_stable hround hpos hn hmax hloaded (.inr (.inl hfull)))]
    exact iff_of_true (.inr hfull) (.inr (.inr (.inl hfull)))
  rw [not_le] at hover
  rcases lt_or_ge (n * (cfg.maxWorkers - 1 : ℚ) * cfg.scaleUpThreshold) depth with hfar | hnear
  · -- the pool is filled up
    refine iff_of_true ?_ (.inr (.inr (.inr hfar)))
    have hneeded : (cfg.maxWorkers : ℤ) ≤ needed cfg depth n := by
      by_contra hlt'
      have hle : needed cfg depth n ≤ (cfg.maxWorkers - 1 : ℤ) := by omega
      have := (needed_le_iff hpos hn _).mp hle
      push_cast at this
      linarith
    have hfull : autoScale cfg round depth n = cfg.maxWorkers := by
      rw [autoScale_of_up hround hpos hn hlt hover]
      omega
    have hbound : ((cfg.maxWorkers : ℕ) - 1 : ℚ) * cfg.scaleUpThreshold < depth := by
      have hmaxq : (n + 1 : ℚ) ≤ cfg.maxWorkers := by exact_mod_cast hlt
      nlinarith only [hfar, hnq, hmaxq, hpos]
    rw [← meetsDemand_autoScale, hfull, meetsDemand_of_stable]
    · exact .inr rfl
    · exact autoScale_of_stable hround hpos (by omega) le_rfl
        (fun _ => le_depth_of_scaled hup hpos (by omega) hbound) (.inr (.inl rfl))
  · rw [meetsDemand_iff_of_near hround hup hpos hn hlt hloaded hover hnear]
    constructor
    · exact fun hone => .inr (.inl hone)
    · rintro (hle | hone | hfull | hfar)
      · exact absurd hover (not_lt.mpr hle)
      · exact hone
      · exact absurd hfull hlt.ne
      · exact absurd hfar (not_lt.mpr hnear)

/-- **Repeated checks meet a constant demand** exactly if, after a scale-down if there is one, the
workers suffice, there is a single worker, the pool is full, or the depth is so great that the first
scale-up fills it. -/
theorem meetsDemand_iff (cfg : WorkerPoolConfig) (round : ℚ → ℚ) (depth current : ℕ)
    (hmin : 1 ≤ cfg.minWorkers) (hbounds : cfg.minWorkers ≤ cfg.maxWorkers)
    (hdown : 0 < 2 * cfg.scaleDownThreshold)
    (hup : 2 * cfg.scaleDownThreshold ≤ cfg.scaleUpThreshold) (hlow : cfg.minWorkers ≤ current)
    (hhigh : current ≤ cfg.maxWorkers) (hround : Faithful cfg round depth) :
    MeetsDemand cfg round depth current ↔
      depth ≤ unloaded cfg depth current * cfg.scaleUpThreshold ∨
        unloaded cfg depth current = 1 ∨ unloaded cfg depth current = cfg.maxWorkers ∨
        unloaded cfg depth current * (cfg.maxWorkers - 1 : ℚ) * cfg.scaleUpThreshold < depth := by
  rw [unloaded]
  split_ifs with hscale
  · rw [← meetsDemand_autoScale, autoScale_of_down hround hup (by omega) hhigh hscale.1
      hscale.2]
    exact meetsDemand_iff_of_loaded hround hdown hup hmin hbounds fun h => absurd h (lt_irrefl _)
  · refine meetsDemand_iff_of_loaded hround hdown hup (by omega) hhigh fun h => ?_
    exact not_lt.mp fun hlt => hscale ⟨hlt, h⟩

/-- The default configuration and 400 jobs: the first check fills the pool. -/
theorem great_demand_met : MeetsDemand {} Double.round 400 2 :=
  (meetsDemand_iff {} Double.round 400 2 (by decide) (by decide) (by norm_num) (by norm_num)
    (by decide) (by decide) (faithful_double 20 5 rfl rfl (by decide) (by decide)
      (by decide) (by decide))).mpr (.inr (.inr (.inr (by norm_num [unloaded]))))

/-- **The demand is not met**: with 100 jobs for two workers a check adds one, as 50 jobs for each
are three times 20, and no check adds more. -/
theorem demand_not_met : ¬ ∀ (cfg : WorkerPoolConfig) (round : ℚ → ℚ) (depth current : ℕ),
    1 ≤ cfg.minWorkers → cfg.minWorkers ≤ cfg.maxWorkers → 0 < 2 * cfg.scaleDownThreshold →
      2 * cfg.scaleDownThreshold ≤ cfg.scaleUpThreshold → cfg.minWorkers ≤ current →
      current ≤ cfg.maxWorkers → Faithful cfg round depth →
      MeetsDemand cfg round depth current := by
  intro hall
  have hround : Faithful {} Double.round 100 :=
    faithful_double 20 5 rfl rfl (by decide) (by decide) (by decide) (by decide)
  have hmeets := hall {} Double.round 100 2 (by decide) (by decide) (by norm_num) (by norm_num)
    (by decide) (by decide) hround
  rw [meetsDemand_iff_of_near hround (by norm_num) (by norm_num) (by decide) (by decide)
    (fun _ => by norm_num) (by norm_num) (by norm_num)] at hmeets
  exact absurd hmeets (by decide)

end TaskOrchestration.WorkerPool

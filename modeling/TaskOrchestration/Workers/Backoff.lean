import Mathlib.Algebra.Order.Field.Power
import Mathlib.Data.Rat.Cast.Order
import Mathlib.Order.Interval.Set.Defs
import Mathlib.Tactic.Linarith
import Mathlib.Tactic.Positivity
import Mathlib.Tactic.Ring
import TaskOrchestration.Job.Model

set_option autoImplicit false

/-!
# The delay before a retry

The delay of the strategies that double is capped at a minute, and the configured delay may be up
to five. Numbers are exact, and the draw of `Math.random()` is an argument.

* `computeRetryDelay`, `getRetryDelay`;
* `doubled`, `doubled_succ`: the delay before the cap; `computeRetryDelay_eq`;
* `NeverUndercuts`: what is expected of a configured delay;
* **`backoff_up_to_cap`**: up to the cap it is so; `five_minutes_undercut`.
-/

namespace TaskOrchestration

def computeRetryDelay (random baseDelayMs : ℚ) (attempt : ℤ) : RetryBackoff → ℚ
  | .fixed => baseDelayMs
  | .exponential => min (baseDelayMs * 2 ^ (attempt - 1)) 60000
  | .jitter =>
      let exponential := baseDelayMs * 2 ^ (attempt - 1)
      let jitter := random * exponential * 0.2
      min (exponential + jitter) 60000

/-- The delay before the next attempt of a job. -/
def RetryService.getRetryDelay (random : ℚ) (job : Job) : ℚ :=
  computeRetryDelay random job.retryConfig.retryDelay (job.retryCount + 1)
    job.retryConfig.retryBackoff

/-! ## Before the cap -/

def doubled (base : ℚ) (attempt : ℤ) : ℚ := base * 2 ^ (attempt - 1)

variable {base r r' : ℚ} {n : ℤ}

theorem doubled_nonneg (hb : 0 ≤ base) (n : ℤ) : 0 ≤ doubled base n := by
  unfold doubled
  positivity

theorem doubled_succ (base : ℚ) (n : ℤ) : doubled base (n + 1) = 2 * doubled base n := by
  unfold doubled
  rw [show n + 1 - 1 = n - 1 + 1 by ring, zpow_add_one₀ two_ne_zero]
  ring

theorem le_doubled (hb : 0 ≤ base) (hn : 1 ≤ n) : base ≤ doubled base n := by
  have hpow : (1 : ℚ) ≤ 2 ^ (n - 1) := one_le_zpow₀ one_le_two (by omega)
  exact le_mul_of_one_le_right hb hpow

theorem computeRetryDelay_eq (r base : ℚ) (n : ℤ) :
    computeRetryDelay r base n .fixed = base ∧
      computeRetryDelay r base n .exponential = min (doubled base n) 60000 ∧
      computeRetryDelay r base n .jitter =
        min (doubled base n + r * doubled base n * 0.2) 60000 := ⟨rfl, rfl, rfl⟩

/-- **Later attempts** do not wait less: a draw adds a fifth at most, and the next power is twice
as much. -/
theorem computeRetryDelay_succ (hb : 0 ≤ base) (hr : r ∈ Set.Ico 0 1) (hr' : r' ∈ Set.Ico 0 1)
    (n : ℤ) (strategy : RetryBackoff) :
    computeRetryDelay r base n strategy ≤ computeRetryDelay r' base (n + 1) strategy := by
  have hd := doubled_nonneg hb n
  obtain ⟨hfix, hexp, hjit⟩ := computeRetryDelay_eq r base n
  obtain ⟨hfix', hexp', hjit'⟩ := computeRetryDelay_eq r' base (n + 1)
  cases strategy with
  | fixed => rw [hfix, hfix']
  | exponential =>
      rw [hexp, hexp', doubled_succ]
      exact min_le_min_right _ (by linarith)
  | jitter =>
      rw [hjit, hjit', doubled_succ]
      have hdraw : r * doubled base n ≤ 1 * doubled base n :=
        mul_le_mul_of_nonneg_right hr.2.le hd
      have hdraw' : 0 ≤ r' * (2 * doubled base n) := mul_nonneg hr'.1 (by linarith)
      exact min_le_min_right _ (by linarith)

/-- **The delays of a job** do not get shorter from one retry to the next. -/
theorem RetryService.getRetryDelay_le_next (job : Job) (hr : r ∈ Set.Ico 0 1)
    (hr' : r' ∈ Set.Ico 0 1) :
    getRetryDelay r job ≤ getRetryDelay r' { job with retryCount := job.retryCount + 1 } := by
  have hnext := computeRetryDelay_succ (Nat.cast_nonneg job.retryConfig.retryDelay) hr hr'
    (job.retryCount + 1) job.retryConfig.retryBackoff
  unfold getRetryDelay
  rwa [Nat.cast_add_one]

/-! ## The expectation -/

/-- **What is expected of a configured delay**, for every attempt and any draws: `EXPONENTIAL` does
not wait less than `FIXED`, `JITTER` not less than `EXPONENTIAL`, and no attempt less than the one
before. -/
def NeverUndercuts (retryDelay : ℕ) : Prop :=
  ∀ n : ℤ, 1 ≤ n → ∀ r ∈ Set.Ico (0 : ℚ) 1, ∀ r' ∈ Set.Ico (0 : ℚ) 1,
    computeRetryDelay r retryDelay n .fixed ≤ computeRetryDelay r retryDelay n .exponential ∧
      computeRetryDelay r retryDelay n .exponential ≤ computeRetryDelay r retryDelay n .jitter ∧
      ∀ strategy, computeRetryDelay r retryDelay n strategy ≤
        computeRetryDelay r' retryDelay (n + 1) strategy

/-- **Back-off up to the cap.** For every configured delay, `EXPONENTIAL` waits the smaller of it
and a minute at least, and not less than `FIXED` exactly if it is a minute at most.
`JITTER` does not wait less than `EXPONENTIAL`, and no attempt less than the one before. -/
theorem backoff_up_to_cap (retryDelay : ℕ) (n : ℤ) (hn : 1 ≤ n) (r : ℚ)
    (hr : r ∈ Set.Ico 0 1) (r' : ℚ) (hr' : r' ∈ Set.Ico 0 1) :
    min (computeRetryDelay r retryDelay n .fixed) 60000 ≤
        computeRetryDelay r retryDelay n .exponential ∧
      (computeRetryDelay r retryDelay n .fixed ≤ computeRetryDelay r retryDelay n .exponential ↔
        retryDelay ≤ 60000) ∧
      computeRetryDelay r retryDelay n .exponential ≤ computeRetryDelay r retryDelay n .jitter ∧
      ∀ strategy, computeRetryDelay r retryDelay n strategy ≤
        computeRetryDelay r' retryDelay (n + 1) strategy := by
  have hb : (0 : ℚ) ≤ retryDelay := Nat.cast_nonneg retryDelay
  have hle := le_doubled hb hn
  have hdraw : 0 ≤ r * doubled retryDelay n := mul_nonneg hr.1 (doubled_nonneg hb n)
  obtain ⟨hfix, hexp, hjit⟩ := computeRetryDelay_eq r retryDelay n
  refine ⟨?_, ?_, ?_, computeRetryDelay_succ hb hr hr' n⟩
  · rw [hfix, hexp]
    exact min_le_min_right _ hle
  · rw [hfix, hexp, le_min_iff, and_iff_right hle]
    norm_cast
  · rw [hexp, hjit]
    exact min_le_min_right _ (by linarith)

theorem two_minutes_back_off :
    min (computeRetryDelay (1 / 2) (120000 : ℕ) 3 .fixed) 60000 ≤
        computeRetryDelay (1 / 2) (120000 : ℕ) 3 .exponential ∧
      (computeRetryDelay (1 / 2) (120000 : ℕ) 3 .fixed ≤
          computeRetryDelay (1 / 2) (120000 : ℕ) 3 .exponential ↔ 120000 ≤ 60000) ∧
      computeRetryDelay (1 / 2) (120000 : ℕ) 3 .exponential ≤
        computeRetryDelay (1 / 2) (120000 : ℕ) 3 .jitter ∧
      ∀ strategy, computeRetryDelay (1 / 2) (120000 : ℕ) 3 strategy ≤
        computeRetryDelay 0 (120000 : ℕ) (3 + 1) strategy :=
  backoff_up_to_cap 120000 3 (by decide) (1 / 2) (by norm_num) 0 (by norm_num)

/-- **Five minutes** become one. -/
theorem five_minutes_undercut :
    ¬ ∀ retryDelay : ℕ, 100 ≤ retryDelay ∧ retryDelay ≤ 300000 → NeverUndercuts retryDelay := by
  intro h
  obtain ⟨hle, -⟩ := h 300000 (by decide) 1 le_rfl 0 (by norm_num) 0 (by norm_num)
  norm_num [computeRetryDelay] at hle

end TaskOrchestration

import Mathlib.Algebra.Ring.Nat
import TaskOrchestration.Lib.Run

set_option autoImplicit false

/-!
# Credits along a run

Some steps spend a credit, others earn one, and the state says how many are left. What a run has
spent is then bounded by what it has earned.

* **`Run.spent_add_left_le`**: no step spends a credit that is not there;
* **`Run.spent_add_left_eq`**: nor does a credit get lost;
* `sum_map_set_add`: credits that several parties hold.
-/

namespace LabelledRun

variable {σ ε : Type} {step : σ → ε → Option σ} {ok : List ε → σ → ε → Prop} {s₀ s : σ}
  {es : List ε} {I : σ → Prop} {credit : σ → ℕ} {spends earns : σ → ε → Bool}

/-- **The account rule.** If a step leaves at most the credits it has found, one less if it spends
one and one more if it earns one, then the credits spent and left are at most those that were
there and those earned. -/
theorem Run.spent_add_left_le (h : Run step ok s₀ es s) (h₀ : I s₀)
    (hstep : ∀ es s e s', I s → ok es s e → step s e = some s' → I s' ∧
      credit s' + (if spends s e then 1 else 0) ≤ credit s + if earns s e then 1 else 0) :
    tally step spends s₀ es + credit s ≤ credit s₀ + tally step earns s₀ es := by
  have hinv : I s ∧ tally step spends s₀ es + credit s ≤ credit s₀ + tally step earns s₀ es := by
    induction h with
    | nil => exact ⟨h₀, Nat.le_of_eq (Nat.zero_add _)⟩
    | snoc hr hok hs ih =>
        obtain ⟨hI, hle⟩ := ih
        obtain ⟨hI', hone⟩ := hstep _ _ _ _ hI hok hs
        refine ⟨hI', ?_⟩
        rw [hr.tally_snoc hs, hr.tally_snoc hs]
        omega
  exact hinv.2

/-- **The exact account rule.** If every step leaves the credits it has found, less the one it
spends and with the one it earns, then nothing is lost: what was there or has been earned is spent
or left. -/
theorem Run.spent_add_left_eq (h : Run step ok s₀ es s) (h₀ : I s₀)
    (hstep : ∀ es s e s', I s → ok es s e → step s e = some s' → I s' ∧
      credit s' + (if spends s e then 1 else 0) = credit s + if earns s e then 1 else 0) :
    tally step spends s₀ es + credit s = credit s₀ + tally step earns s₀ es := by
  have hinv : I s ∧ tally step spends s₀ es + credit s = credit s₀ + tally step earns s₀ es := by
    induction h with
    | nil => exact ⟨h₀, Nat.zero_add _⟩
    | snoc hr hok hs ih =>
        obtain ⟨hI, heq⟩ := ih
        obtain ⟨hI', hone⟩ := hstep _ _ _ _ hI hok hs
        refine ⟨hI', ?_⟩
        rw [hr.tally_snoc hs, hr.tally_snoc hs]
        omega
  exact hinv.2

/-- **Credits held by several parties**: when one of them moves on, the sum changes by what it
holds. -/
theorem sum_map_set_add {α : Type} {f : α → ℕ} {l : List α} {k : ℕ} {a b : α}
    (h : l[k]? = some a) : ((l.set k b).map f).sum + f a = (l.map f).sum + f b := by
  induction l generalizing k with
  | nil => cases h
  | cons c l ih =>
      cases k with
      | zero =>
          obtain rfl := Option.some.inj h
          simp only [List.set_cons_zero, List.map_cons, List.sum_cons]
          omega
      | succ k =>
          have := ih (k := k) h
          simp only [List.set_cons_succ, List.map_cons, List.sum_cons]
          omega

end LabelledRun

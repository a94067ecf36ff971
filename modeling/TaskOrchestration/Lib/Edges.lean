import Mathlib.Data.List.Basic
import Mathlib.Data.Nat.Notation

set_option autoImplicit false

/-!
# Rising edges

A signal is a list of levels. A detector keeps the last level and counts the changes from low to
high.

* `level`, `rises`: the last level of a signal, and its rising edges, after a level `b`;
* `Detector`, `Detector.observe`; **`foldl_observe`**: a detector has seen the level and the edges.
-/

namespace Edges

/-- The last level of a signal; `b` when there is none. -/
def level (b : Bool) (signal : List Bool) : Bool := signal.getLast?.getD b

/-- The number of changes from low to high, after a level `b`. -/
def rises : Bool → List Bool → ℕ
  | _, [] => 0
  | b, c :: signal => (if !b && c then 1 else 0) + rises c signal

structure Detector where
  high : Bool
  count : ℕ
  deriving DecidableEq, Repr

def Detector.observe (d : Detector) (b : Bool) : Detector :=
  ⟨b, d.count + if !d.high && b then 1 else 0⟩

theorem Detector.observe_high (d : Detector) : d.observe d.high = d := by
  cases d
  simp [Detector.observe]

theorem level_cons (b c : Bool) (signal : List Bool) :
    level b (c :: signal) = level c signal := by
  simp [level, List.getLast?_cons]

/-- **A detector** has seen the last level and the rising edges. -/
theorem foldl_observe (d : Detector) (signal : List Bool) :
    signal.foldl Detector.observe d =
      ⟨level d.high signal, d.count + rises d.high signal⟩ := by
  induction signal generalizing d with
  | nil => rfl
  | cons b signal ih =>
      rw [List.foldl_cons, ih, level_cons, rises, ← Nat.add_assoc]
      rfl

end Edges

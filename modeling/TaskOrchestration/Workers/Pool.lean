import Mathlib.Algebra.BigOperators.Group.List.Basic
import Mathlib.Data.Rat.Floor
import TaskOrchestration.Lib.Run

set_option autoImplicit false

/-!
# The worker pool

A check reads the number of workers once, computes how many to add, and adds them one by one. It
yields after each, and an overlapping check counts only the workers that are there by then.

* `WorkerPool`, `AutoScale`: the pool and where its checks stand; `scale`, **`step`**; `round` is
  the rounding of a division of doubles;
* `pending`: the workers that the checks have still to add; `exists_all_added`: they are all added;
* `Roomy`, `HasRoom`, **`roomy_step_iff`**: there is room for all of them;
* `StaysWithin`, **`stays_within_iff`**; `overlapping_checks_exceed`.
-/

namespace TaskOrchestration

open LabelledRun

structure WorkerPoolConfig where
  minWorkers : ℕ := 1
  maxWorkers : ℕ := 10
  scaleUpThreshold : ℚ := 20
  scaleDownThreshold : ℚ := 5

/-- **Where a run of `autoScale` stands**: it waits for the depth of the queue, for an `addWorker`
after which it has `left` workers to add, or for the rows of the metrics. -/
inductive AutoScale
  | readingDepth
  | adding (left : ℕ)
  | refreshing
  | done
  deriving DecidableEq, Repr

/-- The workers that a check has still to add. -/
def AutoScale.left : AutoScale → ℕ
  | .adding left => left
  | _ => 0

/-- The pool: the number of its workers, and its checks. -/
structure WorkerPool where
  size : ℕ
  checks : List AutoScale
  deriving DecidableEq, Repr

namespace WorkerPool

def addWorker (p : WorkerPool) : WorkerPool := { p with size := p.size + 1 }

/-- `start`, up to its `setInterval`. -/
def start (cfg : WorkerPoolConfig) : WorkerPool :=
  (List.range cfg.minWorkers).foldl (fun p _ => p.addWorker) ⟨0, []⟩

/-- The interval fires; the depth is read; an `addWorker` or the query of the metrics resolves; or
what a check waits for throws. -/
inductive Event
  | interval
  | depth (check : ℕ) (depth : ℕ)
  | added (check : ℕ)
  | refreshed (check : ℕ)
  | fail (check : ℕ)
  deriving DecidableEq, Repr

variable (cfg : WorkerPoolConfig) (round : ℚ → ℚ)

def jobsPerWorker (depth current : ℕ) : ℚ := if current > 0 then round (depth / current) else depth

/-- `Math.ceil(jobsPerWorker / scaleUpThreshold)`. A positive number divided by `0` is infinite. -/
def target (depth current : ℕ) : Option ℤ :=
  if cfg.scaleUpThreshold = 0 then none
  else some ⌈round (jobsPerWorker round depth current / cfg.scaleUpThreshold)⌉

def toAdd (depth current : ℕ) : ℤ :=
  match target cfg round depth current with
  | none => cfg.maxWorkers - current
  | some target => min (target - current) (cfg.maxWorkers - current)

def ScalesUp (depth current : ℕ) : Prop :=
  jobsPerWorker round depth current > cfg.scaleUpThreshold ∧ current < cfg.maxWorkers

def ScalesDown (depth current : ℕ) : Prop :=
  jobsPerWorker round depth current < cfg.scaleDownThreshold ∧ current > cfg.minWorkers

instance (depth current : ℕ) : Decidable (ScalesUp cfg round depth current) := by
  unfold ScalesUp; infer_instance

instance (depth current : ℕ) : Decidable (ScalesDown cfg round depth current) := by
  unfold ScalesDown; infer_instance

/-- The loop of `addWorker`, up to its next `await`. -/
def addNext (current : ℕ) : ℕ → ℕ × AutoScale
  | 0 => (current, .refreshing)
  | left + 1 => (current + 1, .adding left)

/-- **`autoScale`** after the depth has been read, up to its next `await`: the number of workers,
and where the check stands. -/
def scale (depth current : ℕ) : ℕ × AutoScale :=
  if ScalesUp cfg round depth current then addNext current (toAdd cfg round depth current).toNat
  else if ScalesDown cfg round depth current then
    (current - (current - cfg.minWorkers), .refreshing)
  else (current, .refreshing)

def moveTo (p : WorkerPool) (check : ℕ) (next : ℕ × AutoScale) : WorkerPool :=
  ⟨next.1, p.checks.set check next.2⟩

def step (p : WorkerPool) : Event → Option WorkerPool
  | .interval => some { p with checks := p.checks ++ [.readingDepth] }
  | .depth check depth =>
      match p.checks[check]? with
      | some .readingDepth => some (p.moveTo check (scale cfg round depth p.size))
      | _ => none
  | .added check =>
      match p.checks[check]? with
      | some (.adding left) => some (p.moveTo check (addNext p.size left))
      | _ => none
  | .refreshed check =>
      match p.checks[check]? with
      | some .refreshing => some (p.moveTo check (p.size, .done))
      | _ => none
  | .fail check =>
      match p.checks[check]? with
      | some .readingDepth | some .refreshing => some (p.moveTo check (p.size, .done))
      | _ => none

/-! ## The workers to come -/

/-- The workers that the checks have still to add. -/
def pending (p : WorkerPool) : ℕ := (p.checks.map AutoScale.left).sum

variable {cfg round} {p p' : WorkerPool} {e : Event}

theorem sum_set_add {α : Type} {f : α → ℕ} {l : List α} {k : ℕ} {a : α} (h : l[k]? = some a)
    (b : α) : ((l.set k b).map f).sum + f a = (l.map f).sum + f b := by
  induction l generalizing k with
  | nil => simp at h
  | cons c l ih =>
      cases k with
      | zero =>
          obtain rfl : c = a := by simpa using h
          simp only [List.set_cons_zero, List.map_cons, List.sum_cons]
          omega
      | succ k =>
          have hk := ih (k := k) (by simpa using h)
          simp only [List.set_cons_succ, List.map_cons, List.sum_cons]
          omega

theorem pending_moveTo {k : ℕ} {c : AutoScale} (h : p.checks[k]? = some c)
    (next : ℕ × AutoScale) : (p.moveTo k next).pending + c.left = p.pending + next.2.left :=
  sum_set_add h next.2

theorem addNext_left (current left : ℕ) :
    (addNext current left).1 + (addNext current left).2.left = current + left := by
  cases left with
  | zero => rfl
  | succ left => exact Nat.add_right_comm current 1 left

theorem le_addNext (current left : ℕ) : current ≤ (addNext current left).1 := by
  cases left with
  | zero => exact le_rfl
  | succ left => exact Nat.le_succ current

theorem step_cases (hs : step cfg round p e = some p') :
    (e = .interval ∧ p' = { p with checks := p.checks ++ [.readingDepth] }) ∨
      (∃ k depth, e = .depth k depth ∧ p.checks[k]? = some .readingDepth ∧
        p' = p.moveTo k (scale cfg round depth p.size)) ∨
      (∃ k left, e = .added k ∧ p.checks[k]? = some (.adding left) ∧
        p' = p.moveTo k (addNext p.size left)) ∨
      ∃ k c, (e = .refreshed k ∨ e = .fail k) ∧ p.checks[k]? = some c ∧ c.left = 0 ∧
        p' = p.moveTo k (p.size, .done) := by
  cases e with
  | interval => exact .inl ⟨rfl, (Option.some.inj hs).symm⟩
  | depth k depth =>
      simp only [step] at hs
      split at hs
      · next hk => exact .inr (.inl ⟨k, depth, rfl, hk, (Option.some.inj hs).symm⟩)
      · cases hs
  | added k =>
      simp only [step] at hs
      split at hs
      · next left hk => exact .inr (.inr (.inl ⟨k, left, rfl, hk, (Option.some.inj hs).symm⟩))
      · cases hs
  | refreshed k =>
      simp only [step] at hs
      split at hs
      · next hk =>
          exact .inr (.inr (.inr ⟨k, _, .inl rfl, hk, rfl, (Option.some.inj hs).symm⟩))
      · cases hs
  | fail k =>
      simp only [step] at hs
      split at hs
      · next hk =>
          exact .inr (.inr (.inr ⟨k, _, .inr rfl, hk, rfl, (Option.some.inj hs).symm⟩))
      · next hk =>
          exact .inr (.inr (.inr ⟨k, _, .inr rfl, hk, rfl, (Option.some.inj hs).symm⟩))
      · cases hs

variable (cfg) in
/-- The pool is within its bounds, and stays so when every check adds what it has still to add. -/
structure Roomy (p : WorkerPool) : Prop where
  min_le : cfg.minWorkers ≤ p.size
  le_max : p.size + p.pending ≤ cfg.maxWorkers

variable (cfg round) in
/-- **There is room for the workers that the check adds**: it adds none, no other check has workers
to add, or its target fits besides them. -/
def HasRoom (p : WorkerPool) : Event → Prop
  | .depth _ depth => ScalesUp cfg round depth p.size → p.pending = 0 ∨
      ∃ t ∈ target cfg round depth p.size, t ≤ p.size ∨ t + p.pending ≤ cfg.maxWorkers
  | _ => True

instance (p : WorkerPool) (e : Event) : Decidable (HasRoom cfg round p e) := by
  unfold HasRoom; split <;> infer_instance

theorem roomy_moveTo_iff {k : ℕ} {c : AutoScale} (h : p.checks[k]? = some c) (hc : c.left = 0)
    (next : ℕ × AutoScale) :
    Roomy cfg (p.moveTo k next) ↔
      cfg.minWorkers ≤ next.1 ∧ next.1 + next.2.left + p.pending ≤ cfg.maxWorkers := by
  have hp : (p.moveTo k next).pending = next.2.left + p.pending := by
    have hp := pending_moveTo h next
    rwa [hc, Nat.add_zero, Nat.add_comm p.pending] at hp
  rw [Nat.add_assoc, ← hp]
  exact ⟨fun h => ⟨h.min_le, h.le_max⟩, fun h => ⟨h.1, h.2⟩⟩

/-- The room for the workers of a check, by its target. -/
theorem toAdd_fits_iff (h : Roomy cfg p) (depth : ℕ) :
    p.size + (toAdd cfg round depth p.size).toNat + p.pending ≤ cfg.maxWorkers ↔
      p.pending = 0 ∨
        ∃ t ∈ target cfg round depth p.size, t ≤ p.size ∨ t + p.pending ≤ cfg.maxWorkers := by
  have hmax := h.le_max
  unfold toAdd
  cases target cfg round depth p.size with
  | none =>
      have hno : ¬ ∃ t ∈ (none : Option ℤ), t ≤ p.size ∨ t + p.pending ≤ cfg.maxWorkers :=
        fun ⟨t, ht, _⟩ => Option.not_mem_none t ht
      rw [or_iff_left hno]
      dsimp only
      omega
  | some t =>
      simp only [Option.mem_some_iff, exists_eq_left']
      omega

theorem roomy_scale_iff (h : Roomy cfg p) {k depth : ℕ}
    (hk : p.checks[k]? = some .readingDepth) :
    Roomy cfg (p.moveTo k (scale cfg round depth p.size)) ↔
      HasRoom cfg round p (.depth k depth) := by
  have hmin := h.min_le
  have hmax := h.le_max
  rw [roomy_moveTo_iff hk rfl]
  by_cases hup : ScalesUp cfg round depth p.size
  · have hroom : HasRoom cfg round p (.depth k depth) ↔ p.pending = 0 ∨
        ∃ t ∈ target cfg round depth p.size, t ≤ p.size ∨ t + p.pending ≤ cfg.maxWorkers :=
      imp_iff_right hup
    rw [hroom, scale, if_pos hup, addNext_left, toAdd_fits_iff h]
    exact and_iff_right (hmin.trans (le_addNext _ _))
  · have hroom : HasRoom cfg round p (.depth k depth) := fun h => absurd h hup
    refine iff_of_true ?_ hroom
    rw [scale, if_neg hup]
    split_ifs with hdown
    · have hgt : cfg.minWorkers < p.size := hdown.2
      change cfg.minWorkers ≤ p.size - (p.size - cfg.minWorkers) ∧
        p.size - (p.size - cfg.minWorkers) + 0 + p.pending ≤ cfg.maxWorkers
      omega
    · exact ⟨hmin, hmax⟩

/-- **A step leaves room for the workers to come** exactly when there is room for those it adds. -/
theorem roomy_step_iff (h : Roomy cfg p) (hs : step cfg round p e = some p') :
    Roomy cfg p' ↔ HasRoom cfg round p e := by
  rcases step_cases hs with ⟨rfl, rfl⟩ | ⟨k, depth, rfl, hk, rfl⟩ | ⟨k, left, rfl, hk, rfl⟩ |
    ⟨k, c, he, hk, hc, rfl⟩
  · refine iff_of_true ⟨h.min_le, ?_⟩ trivial
    have hpend : pending { p with checks := p.checks ++ [.readingDepth] } = p.pending := by
      simp [pending, AutoScale.left]
    rw [hpend]
    exact h.le_max
  · exact roomy_scale_iff h hk
  · refine iff_of_true ⟨h.min_le.trans (le_addNext p.size left), ?_⟩ trivial
    have hp := pending_moveTo hk (addNext p.size left)
    have hn := addNext_left p.size left
    have hmax := h.le_max
    change (addNext p.size left).1 + _ ≤ _
    change _ + left = _ at hp
    omega
  · have hroom : HasRoom cfg round p e := by
      rcases he with rfl | rfl <;> exact trivial
    refine iff_of_true ((roomy_moveTo_iff hk hc _).mpr ⟨h.min_le, ?_⟩) hroom
    exact h.le_max

theorem start_eq : start cfg = ⟨cfg.minWorkers, []⟩ := by
  have hfold : ∀ n, (List.range n).foldl (fun p _ => addWorker p) ⟨0, []⟩ = ⟨n, []⟩ := by
    intro n
    induction n with
    | zero => rfl
    | succ n ih => rw [List.range_succ, List.foldl_append, ih]; rfl
  exact hfold cfg.minWorkers

theorem roomy_start (hcfg : cfg.minWorkers ≤ cfg.maxWorkers) : Roomy cfg (start cfg) := by
  rw [start_eq]
  exact ⟨le_rfl, hcfg⟩

/-! ## The bounds -/

variable (cfg) in
def InBounds (p : WorkerPool) : Prop := cfg.minWorkers ≤ p.size ∧ p.size ≤ cfg.maxWorkers

instance (p : WorkerPool) : Decidable (InBounds cfg p) := by
  unfold InBounds; infer_instance

variable (cfg round) in
/-- The pool is within its bounds, however many of the pending `addWorker` calls resolve before
anything else happens. -/
def StaysWithin (p : WorkerPool) : Prop :=
  ∀ (ks : List ℕ) (p' : WorkerPool),
    runEvents (step cfg round) p (ks.map .added) = some p' → InBounds cfg p'

theorem Roomy.inBounds (h : Roomy cfg p) : InBounds cfg p :=
  ⟨h.min_le, (Nat.le_add_right _ _).trans h.le_max⟩

theorem Roomy.run_added (h : Roomy cfg p) {ks : List ℕ}
    (hrun : runEvents (step cfg round) p (ks.map .added) = some p') : Roomy cfg p' := by
  induction ks generalizing p with
  | nil => exact Option.some.inj hrun ▸ h
  | cons k ks ih =>
      obtain ⟨p₁, h₁, h₂⟩ := Option.bind_eq_some_iff.mp hrun
      exact ih ((roomy_step_iff h h₁).mpr trivial) h₂

variable (cfg round) in
theorem exists_added (h : 0 < p.pending) : ∃ k p', step cfg round p (.added k) = some p' ∧
    p'.size = p.size + 1 ∧ p'.size + p'.pending = p.size + p.pending := by
  obtain ⟨c, hc, hpos⟩ : ∃ c ∈ p.checks, 0 < c.left := by
    by_contra hno
    refine h.ne' (List.sum_eq_zero_iff_forall_eq_nat.mpr fun x hx => ?_)
    obtain ⟨c, hc, rfl⟩ := List.mem_map.mp hx
    exact Nat.eq_zero_of_not_pos fun hpos => hno ⟨c, hc, hpos⟩
  obtain ⟨k, hk⟩ := List.mem_iff_getElem?.mp hc
  cases c with
  | adding left =>
      obtain ⟨left, rfl⟩ := Nat.exists_eq_succ_of_ne_zero (Nat.pos_iff_ne_zero.mp hpos)
      refine ⟨k, p.moveTo k (addNext p.size (left + 1)), by simp only [step, hk], rfl, ?_⟩
      have hp := pending_moveTo hk (addNext p.size (left + 1))
      change p.size + 1 + _ = _
      change _ + (left + 1) = _ + left at hp
      omega
  | readingDepth | refreshing | done => exact absurd hpos (lt_irrefl 0)

variable (cfg round) in
/-- **All the workers to come are added** before anything else happens. -/
theorem exists_all_added (p : WorkerPool) : ∃ (ks : List ℕ) (p' : WorkerPool),
    runEvents (step cfg round) p (ks.map .added) = some p' ∧ p'.size = p.size + p.pending := by
  induction hn : p.pending generalizing p with
  | zero => exact ⟨[], p, rfl, rfl⟩
  | succ n ih =>
      obtain ⟨k, p₁, hs, hsize, hsum⟩ := exists_added cfg round (p := p) (by omega)
      obtain ⟨ks, p', hrun, hp'⟩ := ih p₁ (by omega)
      refine ⟨k :: ks, p', ?_, by omega⟩
      rw [List.map_cons, runEvents, hs]
      exact hrun

theorem staysWithin_iff : StaysWithin cfg round p ↔ Roomy cfg p := by
  constructor
  · intro h
    obtain ⟨ks, p', hrun, hsize⟩ := exists_all_added cfg round p
    exact ⟨(h [] p rfl).1, hsize ▸ (h ks p' hrun).2⟩
  · exact fun h ks p' hrun => (h.run_added hrun).inBounds

/-- **The number of workers stays within its bounds**, and would if the workers to come were added
at once, all along a run exactly when every check that adds workers has room for them. -/
theorem stays_within_iff (hcfg : cfg.minWorkers ≤ cfg.maxWorkers) {es : List Event}
    (h : Run (step cfg round) anyStep (start cfg) es p) :
    (Always (step cfg round) (start cfg) (StaysWithin cfg round) es ↔
      Run (step cfg round) (stateGuard (HasRoom cfg round)) (start cfg) es p) ∧
    (Run (step cfg round) (stateGuard (HasRoom cfg round)) (start cfg) es p →
      Always (step cfg round) (start cfg) (InBounds cfg) es) := by
  have hiff : Always (step cfg round) (start cfg) (StaysWithin cfg round) es ↔
      Run (step cfg round) (stateGuard (HasRoom cfg round)) (start cfg) es p := by
    apply h.always_iff (I := fun _ => True) trivial (staysWithin_iff.mpr (roomy_start hcfg))
    intro es p e p' _ hp _ hs
    refine ⟨trivial, staysWithin_iff.trans (roomy_step_iff (staysWithin_iff.mp hp) hs)⟩
  refine ⟨hiff, fun hrun pre q hpre hq => ?_⟩
  exact (staysWithin_iff.mp (hiff.mpr hrun pre q hpre hq)).inBounds

/-- A depth of 50 jobs asks for three workers, and the next check for none. -/
def spacedChecks : List Event :=
  [.interval, .depth 0 50, .added 0, .added 0, .refreshed 0, .interval, .depth 1 50]

theorem spaced_checks_within :
    ∃ p, Run (step { maxWorkers := 3 } id) (stateGuard (HasRoom { maxWorkers := 3 } id))
      (start { maxWorkers := 3 }) spacedChecks p ∧ p.size = 3 ∧
      Always (step { maxWorkers := 3 } id) (start { maxWorkers := 3 })
        (InBounds { maxWorkers := 3 }) spacedChecks := by
  obtain ⟨p, hrun, hp⟩ := exists_run_of_check (step { maxWorkers := 3 } id)
    (stateGuard (HasRoom { maxWorkers := 3 } id)) (start { maxWorkers := 3 }) spacedChecks
    (fun p => p.size = 3) (by decide +kernel)
  refine ⟨p, hrun, of_decide_eq_true hp, ?_⟩
  exact (stays_within_iff (by decide) (hrun.mono fun _ _ _ _ => trivial)).2 hrun

/-- The second check reads its depth while the first adds its workers. -/
def overlappingChecks : List Event :=
  [.interval, .interval, .depth 0 1000, .depth 1 1000, .added 0, .added 1]

/-- **Two checks add the same workers**, and the pool has four of three. -/
theorem overlapping_checks_exceed :
    ∃ p, Run (step { maxWorkers := 3 } id) anyStep (start { maxWorkers := 3 }) overlappingChecks p ∧
      ¬ InBounds { maxWorkers := 3 } p := by
  obtain ⟨p, hrun, hp⟩ := exists_run_of_check (step { maxWorkers := 3 } id) anyStep
    (start { maxWorkers := 3 }) overlappingChecks
    (fun p => ¬ InBounds { maxWorkers := 3 } p) (by decide +kernel)
  exact ⟨p, hrun, of_decide_eq_true hp⟩

end WorkerPool

end TaskOrchestration

import TaskOrchestration.Lib.Timers
import TaskOrchestration.Workers.Pool

set_option autoImplicit false

/-!
# Starting and stopping the worker pool

`start` adds the workers one by one, and arms the interval of `autoScale` behind the last. `stop`
clears the interval that the pool has kept, and forgets the workers. It waits for nothing, and
neither `start` nor a check looks whether the pool has been stopped.

* `PoolProcess`: the pool, the calls of `start` and the timers; `startNext`, `stop`, **`step`**;
* `AtRest`: what must be over when `stop` is called; `Idle`, `idle_step`: and stays so;
* **`stays_stopped_iff`**: the stopped pool stays empty, and begins no check.
-/

namespace TaskOrchestration

open LabelledRun EventLoop

/-- Where a call of `start` stands: it waits for an `addWorker`, and has `left` more to add. -/
inductive Starting
  | adding (left : ℕ)
  | done
  deriving DecidableEq, Repr

/-- **The pool of a process**, whose timers are all intervals of `autoScale`. -/
structure PoolProcess where
  pool : WorkerPool
  starts : List Starting
  timers : Timers Unit
  scaleInterval : Option ℕ

namespace PoolProcess

open WorkerPool

def init : PoolProcess := ⟨⟨0, []⟩, [], .none, none⟩

/-- `start` is called, or its `addWorker` resolves; `stop` is called; an interval fires; or a check
of the pool moves on. -/
inductive Event
  | start
  | started (call : ℕ)
  | stop
  | interval (handle : ℕ)
  | check (e : WorkerPool.Event)
  deriving DecidableEq, Repr

variable (cfg : WorkerPoolConfig) (round : ℚ → ℚ)

/-- The loop of `start`, up to its next `await`; behind the loop, `setInterval`. -/
def startNext (p : PoolProcess) : ℕ → PoolProcess × Starting
  | 0 => ({ p with timers := p.timers.arm () 0, scaleInterval := some p.timers.next }, .done)
  | left + 1 => ({ p with pool := p.pool.addWorker }, .adding left)

def stop (p : PoolProcess) : PoolProcess :=
  { p with timers := p.timers.clear p.scaleInterval, pool := { p.pool with size := 0 } }

def step (p : PoolProcess) : Event → Option PoolProcess
  | .start =>
      let q := p.startNext cfg.minWorkers
      some { q.1 with starts := p.starts ++ [q.2] }
  | .started call =>
      match p.starts[call]? with
      | some (.adding left) =>
          let q := p.startNext left
          some { q.1 with starts := p.starts.set call q.2 }
      | _ => none
  | .stop => some p.stop
  | .interval handle =>
      if p.timers.label? handle = some () then
        (p.pool.step cfg round .interval).map fun pool => { p with pool := pool }
      else none
  | .check .interval => none
  | .check e => (p.pool.step cfg round e).map fun pool => { p with pool := pool }

/-- The check adds no worker to an empty pool any more, whatever the depth is. -/
def Harmless : AutoScale → Prop
  | .readingDepth => ∀ depth, (scale cfg round depth 0).1 = 0
  | c => c.left = 0

/-- **What must be over when the pool is stopped**: the calls of `start`, the checks that may add a
worker, and the intervals but the one that `stop` clears. -/
structure AtRest (p : PoolProcess) : Prop where
  starts : ∀ c ∈ p.starts, c = .done
  checks : ∀ c ∈ p.pool.checks, Harmless cfg round c
  intervals : ∀ handle, p.timers.label? handle = some () → p.scaleInterval = some handle

/-- **The pool stays stopped**: until `start` is called again it has no workers and begins no
check. -/
def StaysStopped (p : PoolProcess) : Prop :=
  ∀ es p', Event.start ∉ es → runEvents (step cfg round) p es = some p' →
    p'.pool.size = 0 ∧ p'.pool.checks.length = p.pool.checks.length

/-- The pool is empty, and nothing adds a worker or begins a check. -/
structure Idle (p : PoolProcess) : Prop where
  size : p.pool.size = 0
  starts : ∀ c ∈ p.starts, c = .done
  checks : ∀ c ∈ p.pool.checks, Harmless cfg round c
  intervals : ∀ handle, p.timers.label? handle = none

variable {cfg round} {p p' : PoolProcess} {e : Event}

theorem idle_stop (h : AtRest cfg round p) : Idle cfg round p.stop where
  size := rfl
  starts := h.starts
  checks := h.checks
  intervals := fun handle => by
    rw [stop, Timers.label?_clear]
    split_ifs with hcleared
    · rfl
    · cases hl : p.timers.label? handle with
      | none => rfl
      | some u => exact absurd (h.intervals handle hl) hcleared

theorem harmless_moveTo {pool : WorkerPool} {k : ℕ} {next : ℕ × AutoScale}
    (h : ∀ c ∈ pool.checks, Harmless cfg round c) (hnext : Harmless cfg round next.2) :
    ∀ c ∈ (pool.moveTo k next).checks, Harmless cfg round c := by
  intro c hc
  rcases List.mem_or_eq_of_mem_set hc with hold | rfl
  · exact h c hold
  · exact hnext

theorem scale_snd_of_fst {depth : ℕ} (h : (scale cfg round depth 0).1 = 0) :
    (scale cfg round depth 0).2 = .refreshing := by
  unfold scale at h ⊢
  split_ifs at h ⊢
  · cases hadd : (toAdd cfg round depth 0).toNat with
    | zero => rfl
    | succ n => rw [hadd] at h; cases h
  · rfl
  · rfl

theorem idle_step (h : Idle cfg round p) (he : e ≠ .start) (hs : step cfg round p e = some p') :
    Idle cfg round p' ∧ p'.pool.checks.length = p.pool.checks.length := by
  cases e with
  | start => exact absurd rfl he
  | started call =>
      simp only [step] at hs
      split at hs
      · next hc => cases h.starts _ (List.mem_of_getElem? hc)
      · cases hs
  | stop =>
      obtain rfl := Option.some.inj hs
      refine ⟨⟨rfl, h.starts, h.checks, fun handle => ?_⟩, rfl⟩
      rw [stop, Timers.label?_clear, h.intervals, ite_self]
  | interval handle =>
      simp only [step, h.intervals, reduceCtorEq, if_false] at hs
  | check e =>
      have hpool : ∃ pool, e ≠ .interval ∧ p.pool.step cfg round e = some pool ∧
          p' = { p with pool := pool } := by
        cases e with
        | interval => cases hs
        | _ =>
            obtain ⟨pool, hpool, rfl⟩ := Option.map_eq_some_iff.mp hs
            exact ⟨pool, nofun, hpool, rfl⟩
      obtain ⟨pool, hne, hpool, rfl⟩ := hpool
      rcases step_cases hpool with ⟨rfl, -⟩ | ⟨k, depth, -, hk, rfl⟩ | ⟨k, left, -, hk, rfl⟩ |
        ⟨k, c, -, hk, -, rfl⟩
      · exact absurd rfl hne
      · have hscale : (scale cfg round depth 0).1 = 0 := h.checks _ (List.mem_of_getElem? hk) depth
        have hnext := scale_snd_of_fst hscale
        rw [h.size]
        refine ⟨⟨hscale, h.starts, harmless_moveTo h.checks ?_, h.intervals⟩, List.length_set⟩
        rw [hnext]
        rfl
      · obtain rfl : left = 0 := h.checks _ (List.mem_of_getElem? hk)
        exact ⟨⟨h.size, h.starts, harmless_moveTo h.checks rfl, h.intervals⟩, List.length_set⟩
      · exact ⟨⟨h.size, h.starts, harmless_moveTo h.checks rfl, h.intervals⟩, List.length_set⟩

theorem staysStopped_of_idle (h : Idle cfg round p) : StaysStopped cfg round p := by
  intro es p' hes hrun
  induction es generalizing p with
  | nil =>
      obtain rfl := Option.some.inj hrun
      exact ⟨h.size, rfl⟩
  | cons e es ih =>
      obtain ⟨p₁, hs, hrest⟩ := Option.bind_eq_some_iff.mp hrun
      obtain ⟨hidle, hlength⟩ := idle_step h (fun he => hes (he ▸ List.mem_cons_self)) hs
      obtain ⟨hsize, hlength'⟩ := ih hidle (fun hmem => hes (List.mem_cons_of_mem e hmem)) hrest
      exact ⟨hsize, hlength'.trans hlength⟩

theorem StaysStopped.step (h : StaysStopped cfg round p)
    (hs : p.step cfg round e = some p') (he : e ≠ .start) : StaysStopped cfg round p' ∧
      p'.pool.size = 0 ∧ p'.pool.checks.length = p.pool.checks.length := by
  have hone : ∀ es q, Event.start ∉ es → runEvents (PoolProcess.step cfg round) p' es = some q →
      q.pool.size = 0 ∧ q.pool.checks.length = p.pool.checks.length := by
    intro es q hes hrun
    refine h (e :: es) q ?_ ?_
    · rw [List.mem_cons, not_or]
      exact ⟨he.symm, hes⟩
    · rw [runEvents, hs]
      exact hrun
  obtain ⟨hsize, hlength⟩ := hone [] p' List.not_mem_nil rfl
  refine ⟨fun es q hes hrun => ?_, hsize, hlength⟩
  obtain ⟨hsize', hlength'⟩ := hone es q hes hrun
  exact ⟨hsize', hlength'.trans hlength.symm⟩

theorem StaysStopped.not_armed (h : StaysStopped cfg round p) (handle : ℕ) :
    p.timers.label? handle = none := by
  cases hl : p.timers.label? handle with
  | none => rfl
  | some u =>
      have hs : p.step cfg round (.interval handle) =
          some { p with pool := { p.pool with checks := p.pool.checks ++ [.readingDepth] } } := by
        simp only [PoolProcess.step, hl, if_true]
        rfl
      obtain ⟨-, -, hlength⟩ := h.step hs (fun he => by cases he)
      simp at hlength

theorem StaysStopped.started (h : StaysStopped cfg round p) {c : Starting} (hc : c ∈ p.starts) :
    c = .done := by
  obtain ⟨k, hk⟩ := List.mem_iff_getElem?.mp hc
  cases c with
  | done => rfl
  | adding left =>
      have hs : p.step cfg round (.started k) = some { (p.startNext left).1 with
          starts := p.starts.set k (p.startNext left).2 } := by
        simp only [PoolProcess.step, hk]
      obtain ⟨hstays, hsize, -⟩ := h.step hs (fun he => by cases he)
      cases left with
      | succ left => cases hsize
      | zero =>
          have hnone : (p.timers.arm () 0).label? p.timers.next = none := hstays.not_armed _
          rw [Timers.label?_arm, if_pos rfl] at hnone
          cases hnone

theorem StaysStopped.harmless (h : StaysStopped cfg round p) (hempty : p.pool.size = 0)
    {c : AutoScale} (hc : c ∈ p.pool.checks) : Harmless cfg round c := by
  obtain ⟨k, hk⟩ := List.mem_iff_getElem?.mp hc
  cases c with
  | readingDepth =>
      intro depth
      have hpool : p.pool.step cfg round (.depth k depth) =
          some (p.pool.moveTo k (scale cfg round depth p.pool.size)) := by
        rw [WorkerPool.step, hk]
      have hs : p.step cfg round (.check (.depth k depth)) = some { p with
          pool := p.pool.moveTo k (scale cfg round depth p.pool.size) } := by
        change (p.pool.step cfg round _).map _ = _
        rw [hpool, Option.map_some]
      obtain ⟨-, hsize, -⟩ := h.step hs (fun he => by cases he)
      rw [hempty] at hsize
      exact hsize
  | adding left =>
      have hpool : p.pool.step cfg round (.added k) =
          some (p.pool.moveTo k (addNext p.pool.size left)) := by
        rw [WorkerPool.step, hk]
      have hs : p.step cfg round (.check (.added k)) = some { p with
          pool := p.pool.moveTo k (addNext p.pool.size left) } := by
        change (p.pool.step cfg round _).map _ = _
        rw [hpool, Option.map_some]
      obtain ⟨-, hsize, -⟩ := h.step hs (fun he => by cases he)
      cases left with
      | zero => rfl
      | succ left => cases hsize
  | refreshing | done => rfl

theorem staysStopped_stop_iff (p : PoolProcess) :
    StaysStopped cfg round p.stop ↔ AtRest cfg round p := by
  constructor
  · intro h
    refine ⟨fun c hc => h.started hc, fun c hc => h.harmless rfl hc, fun handle hl => ?_⟩
    by_contra hne
    have hnone : p.stop.timers.label? handle = none := h.not_armed handle
    rw [stop, Timers.label?_clear, if_neg hne, hl] at hnone
    cases hnone
  · exact fun h => staysStopped_of_idle (idle_stop h)

/-! ## A pool that is started once -/

/-- An interval is armed only when a single call of `start` is done, and the pool has kept it. -/
structure StartedOnce (es : List Event) (p : PoolProcess) : Prop where
  starts : p.starts.length = es.count .start
  intervals : ∀ handle, p.timers.label? handle = some () →
    p.starts = [.done] ∧ p.scaleInterval = some handle

theorem StartedOnce.startNext {es : List Event} (left : ℕ)
    (hnone : ∀ handle, p.timers.label? handle ≠ some ()) {starts : List Starting}
    (hstarts : starts = [(p.startNext left).2]) (hcount : es.count .start = 1) :
    StartedOnce es { (p.startNext left).1 with starts := starts } := by
  subst hstarts
  refine ⟨hcount.symm, fun handle hl => ?_⟩
  cases left with
  | zero =>
      change (p.timers.arm () 0).label? handle = some () at hl
      rw [Timers.label?_arm] at hl
      split_ifs at hl with hnext
      · exact ⟨rfl, congrArg some hnext.symm⟩
      · exact absurd hl (hnone handle)
  | succ left => exact absurd hl (hnone handle)

theorem startedOnce_step {es : List Event} (h : StartedOnce es p)
    (hone : (es ++ [e]).count .start ≤ 1) (hs : step cfg round p e = some p') :
    StartedOnce (es ++ [e]) p' := by
  have hstarts := h.starts
  have hcount : (es ++ [e]).count .start = es.count .start + if e = .start then 1 else 0 := by
    rw [List.count_append, List.count_singleton]
    simp only [beq_iff_eq]
  rw [hcount] at hone
  cases e with
  | start =>
      obtain rfl := Option.some.inj hs
      have hnil : p.starts = [] := List.eq_nil_of_length_eq_zero (by simp at hone; omega)
      refine .startNext _ (fun handle hl => ?_) ?_ ?_
      · obtain ⟨hdone, -⟩ := h.intervals handle hl
        rw [hnil] at hdone
        cases hdone
      · rw [hnil]
        rfl
      · rw [hcount, ← hstarts, hnil]
        rfl
  | started call =>
      simp only [step] at hs
      split at hs
      · next left hc =>
          obtain rfl := Option.some.inj hs
          have hlt := (List.getElem?_eq_some_iff.mp hc).1
          have hlength : p.starts.length = 1 := by simp at hone; omega
          obtain ⟨c, hsingle⟩ := List.length_eq_one_iff.mp hlength
          obtain rfl : call = 0 := by omega
          obtain rfl : c = .adding left := by rw [hsingle] at hc; exact Option.some.inj hc
          refine .startNext left (fun handle hl => ?_) ?_ ?_
          · obtain ⟨hdone, -⟩ := h.intervals handle hl
            rw [hsingle] at hdone
            cases hdone
          · rw [hsingle]
            rfl
          · rw [hcount, ← hstarts, hlength]
            rfl
      · cases hs
  | stop =>
      obtain rfl := Option.some.inj hs
      refine ⟨hstarts.trans hcount.symm, fun handle hl => ?_⟩
      change (p.timers.clear p.scaleInterval).label? handle = some () at hl
      rw [Timers.label?_clear] at hl
      split_ifs at hl
      exact h.intervals handle hl
  | interval handle =>
      simp only [step] at hs
      split_ifs at hs
      obtain ⟨pool, -, rfl⟩ := Option.map_eq_some_iff.mp hs
      exact ⟨hstarts.trans hcount.symm, h.intervals⟩
  | check e =>
      cases e with
      | interval => cases hs
      | _ =>
          obtain ⟨pool, -, rfl⟩ := Option.map_eq_some_iff.mp hs
          exact ⟨hstarts.trans hcount.symm, h.intervals⟩

/-- **The stopped pool stays empty and begins no check**, until `start` is called again, exactly if
no call of `start` was under way, no check had a worker to add or could find that it has, and no
interval was armed that an earlier call of `start` had left behind; which none has if there was only
one. -/
theorem stays_stopped_iff {es : List Event} (h : Run (step cfg round) anyStep init es p) :
    (StaysStopped cfg round p.stop ↔ AtRest cfg round p) ∧ (es.count .start ≤ 1 →
      ∀ handle, p.timers.label? handle = some () → p.scaleInterval = some handle) := by
  refine ⟨staysStopped_stop_iff p, fun hone handle hl => ?_⟩
  have hinv : es.count .start ≤ 1 → StartedOnce es p := by
    refine h.inv (I := fun es p => es.count .start ≤ 1 → StartedOnce es p)
      (fun _ => ⟨rfl, fun handle hl => by cases hl⟩) ?_
    intro es p e p' hi _ hs hone
    refine startedOnce_step (hi ?_) hone hs
    exact (List.Sublist.count_le _ (List.sublist_append_left es [e])).trans hone
  exact ((hinv hone).intervals handle hl).2

/-- A pool that has started, and whose only check waits for the metrics, stays stopped. -/
theorem started_pool_stops : ∃ p : PoolProcess, p.pool.size = 1 ∧ p.pool.checks ≠ [] ∧
    StaysStopped {} id p.stop := by
  obtain ⟨p, hrun, hp⟩ := exists_run_of_check (step {} id) anyStep init
    [.start, .started 0, .interval 0, .check (.depth 0 3)]
    (fun p => p.pool = ⟨1, [.refreshing]⟩ ∧ p.starts = [.done]) (by decide +kernel)
  obtain ⟨hpool, hstarts⟩ := of_decide_eq_true hp
  refine ⟨p, by rw [hpool], by rw [hpool]; simp, (stays_stopped_iff hrun).1.mpr ⟨?_, ?_, ?_⟩⟩
  · simp [hstarts]
  · simp [hpool, Harmless, AutoScale.left]
  · exact (stays_stopped_iff hrun).2 (by decide)

/-- `stop` comes before `start` is done, which arms the interval of a pool with one worker. -/
example : (runEvents (step { minWorkers := 2 } id) init [.start, .stop, .started 0, .started 0]).map
    (fun p => (p.pool.size, p.timers.label? 0)) = some (1, some ()) := by decide

end PoolProcess

end TaskOrchestration

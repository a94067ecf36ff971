import Mathlib.Data.List.Induction
import Mathlib.Data.Nat.Notation

set_option autoImplicit false

/-!
# Runs of a labelled step function

A system is given by `step : σ → ε → Option σ`: the event fixes everything the system does not
decide itself, and `none` means that the event is not enabled.

* `runEvents`: the state after a list of events;
* `Run ok s₀ es s`: a run from `s₀` to `s` each of whose steps satisfies the guard `ok`, which
  sees the events before the step, the state before it and the event;
* **`Run.inv`**, **`Run.stable`**: the two induction rules every run property is proved by;
  `Run.append_inv`: a run in two parts; `run_iff_forall_prefix`: a run by its steps;
* `Always`, **`Run.always_iff`**: a property that a step keeps exactly when it satisfies the guard
  holds all along exactly the guarded runs;
* `observe`, `tally`, `seen`: what an observer of the run has come to, how many steps satisfy `p`,
  and whether one does; `Happened`: a step with a property has been taken;
* `countP_set_add`, `getElem?_set_append_of_ne`, `of_getElem?_set_append`: a list of parties of
  which one moves on;
* `check`, `exists_run_of_check`: a run of concrete events, found by evaluation.
-/

namespace LabelledRun

variable {σ ε : Type} {step : σ → ε → Option σ}

/-- The state after the events of a list, in order. -/
def runEvents (step : σ → ε → Option σ) : σ → List ε → Option σ
  | s, [] => some s
  | s, e :: es => (step s e).bind fun s' => runEvents step s' es

/-- **Guarded runs.** The guard sees the earlier events, the state before the step, and the
event. -/
inductive Run (step : σ → ε → Option σ) (ok : List ε → σ → ε → Prop) (s₀ : σ) : List ε → σ → Prop
  | nil : Run step ok s₀ [] s₀
  | snoc {es : List ε} {s s' : σ} {e : ε} :
      Run step ok s₀ es s → ok es s e → step s e = some s' → Run step ok s₀ (es ++ [e]) s'

/-- A guard that does not look at the earlier events. -/
def stateGuard (ok : σ → ε → Prop) : List ε → σ → ε → Prop := fun _ s e => ok s e

instance (ok : σ → ε → Prop) [∀ s e, Decidable (ok s e)] (es : List ε) (s : σ) (e : ε) :
    Decidable (stateGuard ok es s e) := inferInstanceAs (Decidable (ok s e))

def anyStep : List ε → σ → ε → Prop := fun _ _ _ => True

instance (es : List ε) (s : σ) (e : ε) : Decidable (anyStep es s e) := .isTrue trivial

variable {ok ok' : List ε → σ → ε → Prop} {s₀ s s' : σ} {es : List ε} {e : ε}

/-- **The invariant rule.** What holds at the start and is kept by every guarded step holds after
every guarded run. The invariant may speak of the events so far. -/
theorem Run.inv {I : List ε → σ → Prop} (h : Run step ok s₀ es s) (h₀ : I [] s₀)
    (hstep : ∀ es s e s', I es s → ok es s e → step s e = some s' → I (es ++ [e]) s') :
    I es s := by
  induction h with
  | nil => exact h₀
  | snoc _ hok hs ih => exact hstep _ _ _ _ ih hok hs

theorem Run.stable {P : σ → Prop} (h : Run step ok s₀ es s) (h₀ : P s₀)
    (hstep : ∀ es s e s', P s → ok es s e → step s e = some s' → P s') : P s :=
  h.inv (I := fun _ s => P s) h₀ hstep

theorem Run.mono (h : Run step ok s₀ es s) (hok : ∀ es s e, ok es s e → ok' es s e) :
    Run step ok' s₀ es s := by
  induction h with
  | nil => exact .nil
  | snoc _ hg hs ih => exact .snoc ih (hok _ _ _ hg) hs

theorem Run.forall_mem {P : ε → Prop} (h : Run step ok s₀ es s)
    (hok : ∀ es s e, ok es s e → P e) : ∀ e ∈ es, P e := by
  induction h with
  | nil => exact fun _ he => absurd he List.not_mem_nil
  | snoc _ hg _ ih =>
      intro e he
      rcases List.mem_append.mp he with he | he
      · exact ih e he
      · obtain rfl := List.mem_singleton.mp he
        exact hok _ _ _ hg

theorem runEvents_append (es es' : List ε) (s : σ) :
    runEvents step s (es ++ es') = (runEvents step s es).bind fun s' => runEvents step s' es' := by
  induction es generalizing s with
  | nil => rfl
  | cons e es ih =>
      simp only [List.cons_append, runEvents]
      cases step s e with
      | none => rfl
      | some s' => exact ih s'

theorem runEvents_snoc (es : List ε) (e : ε) (s : σ) :
    runEvents step s (es ++ [e]) = (runEvents step s es).bind fun s' => step s' e := by
  rw [runEvents_append]
  congr 1
  funext s'
  cases h : step s' e <;> simp [runEvents, h]

theorem Run.runEvents_eq (h : Run step ok s₀ es s) : runEvents step s₀ es = some s := by
  induction h with
  | nil => rfl
  | snoc _ _ hs ih => rw [runEvents_snoc, ih, Option.bind_some, hs]

theorem Run.snoc_inv (h : Run step ok s₀ (es ++ [e]) s') :
    ∃ s, Run step ok s₀ es s ∧ ok es s e ∧ step s e = some s' := by
  generalize hes : es ++ [e] = es' at h
  cases h with
  | nil => simp at hes
  | snoc hr hok hs =>
      obtain ⟨rfl, he⟩ := List.append_inj' hes rfl
      obtain rfl := List.singleton_inj.mp he
      exact ⟨_, hr, hok, hs⟩

theorem Run.append_inv {ok : σ → ε → Prop} {es' : List ε}
    (h : Run step (stateGuard ok) s₀ (es ++ es') s') :
    ∃ s, Run step (stateGuard ok) s₀ es s ∧ Run step (stateGuard ok) s es' s' := by
  induction es' using List.reverseRecOn generalizing s' with
  | nil =>
      rw [List.append_nil] at h
      exact ⟨s', h, .nil⟩
  | append_singleton es' e ih =>
      rw [← List.append_assoc] at h
      obtain ⟨s₁, h₁, hok, hs⟩ := h.snoc_inv
      obtain ⟨s, hr, hr'⟩ := ih h₁
      exact ⟨s, hr, hr'.snoc hok hs⟩

/-- The property holds at the start and after every step of `es`. -/
def Always (step : σ → ε → Option σ) (s₀ : σ) (P : σ → Prop) (es : List ε) : Prop :=
  ∀ pre s, pre <+: es → runEvents step s₀ pre = some s → P s

/-- **The exact rule.** If a step from a state with `P`, in which the invariant `I` holds, ends in
a state with `P` exactly when it satisfies `good`, then `P` holds all along a run exactly when
every step of it satisfies `good`. -/
theorem Run.always_iff {I P : σ → Prop} {good : σ → ε → Prop} (hI : I s₀) (hP : P s₀)
    (hstep : ∀ es s e s', I s → P s → ok es s e → step s e = some s' → I s' ∧ (P s' ↔ good s e))
    (h : Run step ok s₀ es s) :
    Always step s₀ P es ↔ Run step (stateGuard good) s₀ es s := by
  suffices hboth : (Always step s₀ P es → I s ∧ Run step (stateGuard good) s₀ es s) ∧
      (Run step (stateGuard good) s₀ es s → I s ∧ Always step s₀ P es) from
    ⟨fun ha => (hboth.1 ha).2, fun hr => (hboth.2 hr).2⟩
  induction h with
  | nil =>
      refine ⟨fun _ => ⟨hI, .nil⟩, fun _ => ⟨hI, fun pre s hpre hs => ?_⟩⟩
      obtain rfl := List.prefix_nil.mp hpre
      exact Option.some.inj hs ▸ hP
  | @snoc es s s' e hr hg hs ih =>
      have hr' := hr.snoc hg hs
      constructor
      · intro hall
        obtain ⟨hIs, hrun⟩ :=
          ih.1 fun pre s₁ hpre => hall pre s₁ (hpre.trans (List.prefix_append _ _))
        have hPs : P s := hall es s (List.prefix_append _ _) hr.runEvents_eq
        have hPs' : P s' := hall _ s' List.prefix_rfl hr'.runEvents_eq
        obtain ⟨hIs', hiff⟩ := hstep es s e s' hIs hPs hg hs
        exact ⟨hIs', hrun.snoc (hiff.mp hPs') hs⟩
      · intro hrun
        obtain ⟨s₂, hr₂, hok, hs₂⟩ := hrun.snoc_inv
        obtain rfl := Option.some.inj (hr.runEvents_eq.symm.trans hr₂.runEvents_eq)
        obtain ⟨hIs, hall⟩ := ih.2 hr₂
        have hPs : P s := hall es s List.prefix_rfl hr.runEvents_eq
        obtain ⟨hIs', hiff⟩ := hstep es s e s' hIs hPs hg hs
        refine ⟨hIs', fun pre s₁ hpre hs₁ => ?_⟩
        rcases List.prefix_concat_iff.mp hpre with rfl | hpre
        · obtain rfl := Option.some.inj (hr'.runEvents_eq.symm.trans hs₁)
          exact hiff.mpr hok
        · exact hall pre s₁ hpre hs₁

/-- **A run by its steps**: its events go through, and each of them meets the guard. -/
theorem run_iff_forall_prefix {ok : σ → ε → Prop} :
    Run step (stateGuard ok) s₀ es s ↔ runEvents step s₀ es = some s ∧
      ∀ pre s₁ e, pre ++ [e] <+: es → runEvents step s₀ pre = some s₁ → ok s₁ e := by
  constructor
  · refine fun h => ⟨h.runEvents_eq, ?_⟩
    induction h with
    | nil => exact fun pre _ e hpre _ => absurd (List.prefix_nil.mp hpre) (by simp)
    | snoc hr hg _ ih =>
        intro pre s₁ e hpre hs₁
        rcases List.prefix_concat_iff.mp hpre with heq | hpre
        · obtain ⟨rfl, he⟩ := List.append_inj' heq rfl
          obtain rfl := List.singleton_inj.mp he
          exact Option.some.inj (hr.runEvents_eq.symm.trans hs₁) ▸ hg
        · exact ih pre s₁ e hpre hs₁
  · rintro ⟨hes, hok⟩
    induction es using List.reverseRecOn generalizing s with
    | nil => exact Option.some.inj hes ▸ .nil
    | append_singleton es e ih =>
        rw [runEvents_snoc] at hes
        obtain ⟨s₁, h₁, hs⟩ := Option.bind_eq_some_iff.mp hes
        exact (ih h₁ fun pre s₂ e' hpre => hok pre s₂ e' (hpre.trans (List.prefix_append _ _))).snoc
          (hok es s₁ e List.prefix_rfl h₁) hs

/-! ## What is seen along a run -/

/-- What an observer has come to, who sees the state before each step and the event. -/
def observe {β : Type} (step : σ → ε → Option σ) (f : β → σ → ε → β) : β → σ → List ε → β
  | b, _, [] => b
  | b, s, e :: es =>
      match step s e with
      | some s' => observe step f (f b s e) s' es
      | none => b

theorem observe_snoc {β : Type} {f : β → σ → ε → β} {b : β}
    (h : runEvents step s₀ es = some s) (hs : step s e = some s') :
    observe step f b s₀ (es ++ [e]) = f (observe step f b s₀ es) s e := by
  induction es generalizing s₀ b with
  | nil =>
      obtain rfl := Option.some.inj h
      simp only [List.nil_append, observe, hs]
  | cons e₀ es ih =>
      obtain ⟨s₁, h₁, h₂⟩ := Option.bind_eq_some_iff.mp h
      simp only [List.cons_append, observe, h₁]
      exact ih h₂

/-- The number of steps that satisfy `p`. -/
def tally (step : σ → ε → Option σ) (p : σ → ε → Bool) (s₀ : σ) (es : List ε) : ℕ :=
  observe step (fun n s e => n + if p s e then 1 else 0) 0 s₀ es

theorem Run.tally_snoc {p : σ → ε → Bool} (h : Run step ok s₀ es s) (hs : step s e = some s') :
    tally step p s₀ (es ++ [e]) = tally step p s₀ es + if p s e then 1 else 0 :=
  observe_snoc h.runEvents_eq hs

def seen (step : σ → ε → Option σ) (p : σ → ε → Bool) (s₀ : σ) (es : List ε) : Bool :=
  observe step (fun b s e => b || p s e) false s₀ es

theorem Run.seen_snoc {p : σ → ε → Bool} (h : Run step ok s₀ es s) (hs : step s e = some s') :
    seen step p s₀ (es ++ [e]) = (seen step p s₀ es || p s e) :=
  observe_snoc h.runEvents_eq hs

/-- **A step with this property has been taken.** -/
def Happened (step : σ → ε → Option σ) (s₀ : σ) (P : σ → ε → Prop) (es : List ε) : Prop :=
  ∃ pre s e, pre ++ [e] <+: es ∧ runEvents step s₀ pre = some s ∧ P s e

theorem Happened.mono {P : σ → ε → Prop} {es' : List ε} (h : Happened step s₀ P es)
    (hes : es <+: es') : Happened step s₀ P es' := by
  obtain ⟨pre, s, e, hpre, hs, hP⟩ := h
  exact ⟨pre, s, e, hpre.trans hes, hs, hP⟩

theorem Run.happened {P : σ → ε → Prop} (h : Run step ok s₀ es s) (hP : P s e) :
    Happened step s₀ P (es ++ [e]) :=
  ⟨es, s, e, List.prefix_rfl, h.runEvents_eq, hP⟩

theorem countP_set_add {α : Type} {p : α → Bool} {l : List α} {k : ℕ} {a b : α}
    (h : l[k]? = some a) :
    (l.set k b).countP p + (if p a then 1 else 0) = l.countP p + (if p b then 1 else 0) := by
  obtain ⟨hk, rfl⟩ := List.getElem?_eq_some_iff.mp h
  have hp : p l[k] = true → 0 < l.countP p := fun hp =>
    List.countP_pos_iff.mpr ⟨_, List.getElem_mem hk, hp⟩
  rw [List.countP_set hk]
  by_cases h : p l[k] = true
  · have hpos := hp h
    simp only [h, if_true]
    omega
  · simp only [h, Bool.false_eq_true, if_false]
    omega

/-- **The step of a list** that makes a property of its prefixes true. -/
theorem exists_prefix_step {α : Type} {P : List α → Prop} {l : List α} (h₀ : ¬ P []) (h : P l) :
    ∃ pre a post, l = pre ++ a :: post ∧ ¬ P pre ∧ P (pre ++ [a]) := by
  induction l using List.reverseRecOn with
  | nil => exact absurd h h₀
  | append_singleton l a ih =>
      by_cases hl : P l
      · obtain ⟨pre, b, post, rfl, h₁, h₂⟩ := ih hl
        exact ⟨pre, b, post ++ [a], by simp, h₁, h₂⟩
      · exact ⟨l, a, [], rfl, hl, h⟩

/-! ## Lists in which one element moves on -/

section Moves

variable {α : Type} {l m : List α} {i n : ℕ} {a b : α}

theorem getElem?_append_of_some (h : l[i]? = some a) (m : List α) : (l ++ m)[i]? = some a := by
  obtain ⟨hlt, -⟩ := List.getElem?_eq_some_iff.mp h
  rw [List.getElem?_append_left hlt, h]

theorem getElem?_set_append_self (h : l[n]? = some a) (b : α) (m : List α) :
    (l.set n b ++ m)[n]? = some b := by
  obtain ⟨hlt, -⟩ := List.getElem?_eq_some_iff.mp h
  exact getElem?_append_of_some (List.getElem?_set_self hlt) m

theorem getElem?_set_append_of_ne (hne : n ≠ i) (h : l[i]? = some a) (b : α) (m : List α) :
    (l.set n b ++ m)[i]? = some a := by
  apply getElem?_append_of_some
  rw [List.getElem?_set_ne hne, h]

/-- **Where an element comes from**, after one has been added. -/
theorem of_getElem?_append_singleton (h : (l ++ [b])[i]? = some a) :
    l[i]? = some a ∨ (i = l.length ∧ a = b) := by
  rcases Nat.lt_or_ge i l.length with hlt | hge
  · rw [List.getElem?_append_left hlt] at h
    exact .inl h
  · rw [List.getElem?_append_right hge, List.getElem?_singleton] at h
    split_ifs at h
    exact .inr ⟨by omega, (Option.some.inj h).symm⟩

/-- **Where an element comes from**, after one has moved on and others have been added. -/
theorem of_getElem?_set_append (h : (l.set n b ++ m)[i]? = some a) :
    (i ≠ n ∧ l[i]? = some a) ∨ (i = n ∧ a = b) ∨ a ∈ m := by
  rcases Nat.lt_or_ge i (l.set n b).length with hlt | hge
  · rw [List.getElem?_append_left hlt, List.getElem?_set] at h
    split_ifs at h with hn
    · exact .inr (.inl ⟨hn.symm, (Option.some.inj h).symm⟩)
    · exact .inl ⟨Ne.symm hn, h⟩
  · rw [List.getElem?_append_right hge] at h
    exact .inr (.inr (List.mem_of_getElem? h))

end Moves

/-! ## Runs by evaluation -/

/-- Run the events of a list, checking the guard before each. The first argument holds the events
before the list. -/
def check (step : σ → ε → Option σ) (ok : List ε → σ → ε → Bool) :
    List ε → σ → List ε → Option σ
  | _, s, [] => some s
  | pre, s, e :: es =>
      if ok pre s e then (step s e).bind fun s' => check step ok (pre ++ [e]) s' es else none

theorem run_of_check {okB : List ε → σ → ε → Bool} {pre : List ε}
    (hpre : Run step (fun p s e => okB p s e = true) s₀ pre s')
    (h : check step okB pre s' es = some s) :
    Run step (fun p s e => okB p s e = true) s₀ (pre ++ es) s := by
  induction es generalizing pre s' with
  | nil =>
      obtain rfl := Option.some.inj h
      rwa [List.append_nil]
  | cons e es ih =>
      rw [check] at h
      split_ifs at h with hok
      obtain ⟨s₁, h₁, h₂⟩ := Option.bind_eq_some_iff.mp h
      have := ih (.snoc hpre hok h₁) h₂
      rwa [List.append_assoc] at this

variable (step) in
/-- **A run by evaluation.** If the checked run of `es` ends in a state with `p`, there is such a
guarded run. -/
theorem exists_run_of_check (g : List ε → σ → ε → Prop) [∀ pre s e, Decidable (g pre s e)]
    (s₀ : σ) (es : List ε) (p : σ → Bool)
    (h : (check step (fun pre s e => g pre s e) [] s₀ es).any p = true) :
    ∃ s, Run step g s₀ es s ∧ p s = true := by
  obtain ⟨s, hs, hp⟩ := (Option.any_eq_true _ _).mp h
  exact ⟨s, (run_of_check .nil hs).mono fun _ _ _ => of_decide_eq_true, hp⟩

end LabelledRun

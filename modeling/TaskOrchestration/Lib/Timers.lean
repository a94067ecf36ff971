import TaskOrchestration.Lib.Table
import Mathlib.Data.Nat.Notation

set_option autoImplicit false

/-!
# Timers of an event loop

Arming a timer gives a handle, which no other timer ever has. A timer is cleared by its handle,
whether it is armed or not. Its label says what its callback does.

* `Timers`: the armed timers, and the next handle; `arm`, `clear`, `rearm`, `due?`;
* `label?`, with `label?_arm`, `label?_clear`, `label?_rearm`: the timer that a handle names;
* `count`, with `count_arm`, `count_clear`, `count_rearm`: how many are armed for some purpose;
* **`Names`**: a handle names a timer of one label only, now and later.
-/

namespace EventLoop

variable {κ : Type}

structure Timer (κ : Type) where
  id : ℕ
  label : κ
  due : ℕ
  deriving DecidableEq, Repr

/-- **Timers** with different handles, all of which have been given out. -/
structure Timers (κ : Type) where
  armed : Table (Timer.id : Timer κ → ℕ)
  next : ℕ
  fresh : ∀ t ∈ armed, t.id < next

namespace Timers

def none : Timers κ := ⟨.empty, 0, fun _ h => absurd h List.not_mem_nil⟩

instance : Inhabited (Timers κ) := ⟨none⟩

/-- `setTimeout` and `setInterval`. The handle of the new timer is `T.next`. -/
def arm (T : Timers κ) (label : κ) (due : ℕ) : Timers κ where
  armed := T.armed.insertIfAbsent ⟨T.next, label, due⟩
  next := T.next + 1
  fresh := by
    intro t ht
    rw [Table.mem_iff_find?, Table.find?_insertIfAbsent] at ht
    split_ifs at ht with h
    · exact h ▸ Nat.lt_succ_self _
    · exact Nat.lt_succ_of_lt (T.fresh t (Table.mem_of_find? ht))

/-- `clearTimeout` and `clearInterval`. -/
def clear (T : Timers κ) : Option ℕ → Timers κ
  | .none => T
  | some handle => ⟨T.armed.erase handle, T.next, fun t ht => T.fresh t (Table.mem_filter.mp ht).1⟩

/-- An interval is due again. -/
def rearm (T : Timers κ) (handle due : ℕ) : Timers κ where
  armed := T.armed.update handle (fun t => { t with due := due }) fun _ => rfl
  next := T.next
  fresh := by
    intro t ht
    obtain ⟨u, hu, rfl⟩ := Table.mem_updateWhere.mp ht
    split_ifs
    · exact T.fresh u hu
    · exact T.fresh u hu

/-- The timer that a handle names. -/
def label? (T : Timers κ) (handle : ℕ) : Option κ := (T.armed.find? handle).map Timer.label

/-- A timer whose time has come. -/
def due? (T : Timers κ) (handle now : ℕ) : Option κ :=
  ((T.armed.find? handle).filter fun t => t.due ≤ now).map Timer.label

/-- How many timers are armed with such a label. -/
def count (T : Timers κ) (p : κ → Bool) : ℕ := T.armed.rows.countP fun t => p t.label

variable {T : Timers κ} {label : κ} {handle : ℕ}

theorem label?_of_due? {now : ℕ} (h : T.due? handle now = some label) :
    T.label? handle = some label := by
  obtain ⟨t, ht, rfl⟩ := Option.map_eq_some_iff.mp h
  rw [label?, (Option.filter_eq_some_iff.mp ht).1, Option.map_some]

theorem lt_next (h : T.label? handle = some label) : handle < T.next := by
  obtain ⟨t, ht, -⟩ := Option.map_eq_some_iff.mp h
  rw [← Table.key_of_find? ht]
  exact T.fresh t (Table.mem_of_find? ht)

theorem label?_next (T : Timers κ) : T.label? T.next = .none := by
  cases h : T.label? T.next with
  | none => rfl
  | some label => exact absurd (lt_next h) (Nat.lt_irrefl _)

@[simp] theorem label?_none (handle : ℕ) : (none : Timers κ).label? handle = .none := rfl

theorem label?_arm (T : Timers κ) (label : κ) (due handle : ℕ) :
    (T.arm label due).label? handle = if handle = T.next then some label else T.label? handle := by
  have hnext : T.armed.find? T.next = .none := Option.map_eq_none_iff.mp T.label?_next
  rw [label?, arm, Table.find?_insertIfAbsent]
  split_ifs with h
  · subst h
    rw [hnext]
    rfl
  · rfl

theorem label?_clear (T : Timers κ) (h : Option ℕ) (handle : ℕ) :
    (T.clear h).label? handle = if h = some handle then .none else T.label? handle := by
  cases h with
  | none => rfl
  | some n =>
      rw [label?, clear, Table.find?_erase]
      split_ifs with h₁ h₂ h₂
      · rfl
      · exact absurd (congrArg some h₁.symm) h₂
      · exact absurd (Option.some.inj h₂).symm h₁
      · rfl

@[simp] theorem label?_rearm (T : Timers κ) (timer due handle : ℕ) :
    (T.rearm timer due).label? handle = T.label? handle := by
  rw [label?, rearm, Table.find?_update]
  split_ifs
  · rw [Option.map_map]
    rfl
  · rfl

@[simp] theorem next_clear (T : Timers κ) (h : Option ℕ) : (T.clear h).next = T.next := by
  cases h <;> rfl

theorem forall_armed {p : ℕ → κ → Prop} :
    (∀ t ∈ T.armed, p t.id t.label) ↔
      ∀ handle label, T.label? handle = some label → p handle label := by
  constructor
  · rintro h handle label hl
    obtain ⟨t, ht, rfl⟩ := Option.map_eq_some_iff.mp hl
    obtain ⟨hmem, rfl⟩ := Table.find?_eq_some.mp ht
    exact h t hmem
  · intro h t ht
    exact h t.id t.label (by rw [label?, Table.mem_iff_find?.mp ht, Option.map_some])

/-! ## Counts -/

theorem count_arm (T : Timers κ) (label : κ) (due : ℕ) (p : κ → Bool) :
    (T.arm label due).count p = T.count p + if p label then 1 else 0 := by
  have hnext : T.armed.find? T.next = .none := Option.map_eq_none_iff.mp T.label?_next
  rw [count, arm, Table.countP_insertIfAbsent, hnext]
  simp [count]

@[simp] theorem count_rearm (T : Timers κ) (timer due : ℕ) (p : κ → Bool) :
    (T.rearm timer due).count p = T.count p := by
  change (T.armed.rows.map _).countP _ = _
  rw [List.countP_map]
  refine List.countP_congr fun t _ => ?_
  rw [Function.comp_apply]
  split_ifs <;> rfl

theorem count_clear (T : Timers κ) (handle : ℕ) (p : κ → Bool) :
    (T.clear (some handle)).count p + (if (T.label? handle).any p then 1 else 0) = T.count p := by
  rw [label?, Option.any_map]
  exact T.armed.countP_erase handle _

theorem count_eq_zero {p : κ → Bool} :
    T.count p = 0 ↔ ∀ handle label, T.label? handle = some label → p label = false := by
  rw [count, List.countP_eq_zero, ← forall_armed (p := fun _ l => p l = false)]
  exact forall_congr' fun t => imp_congr_right fun _ => Iff.of_eq (Bool.not_eq_true _)

/-! ## Handles -/

/-- **The handle names no timer but one with this label**, now and later. -/
def Names (T : Timers κ) (handle : ℕ) (label : κ) : Prop :=
  handle < T.next ∧ ∀ l, T.label? handle = some l → l = label

namespace Names

theorem next (T : Timers κ) (label : κ) (due : ℕ) : (T.arm label due).Names T.next label := by
  refine ⟨Nat.lt_succ_self _, fun l hl => ?_⟩
  rw [label?_arm, if_pos rfl] at hl
  exact (Option.some.inj hl).symm

theorem arm (h : T.Names handle label) (l : κ) (due : ℕ) : (T.arm l due).Names handle label := by
  refine ⟨Nat.lt_succ_of_lt h.1, fun l' hl => ?_⟩
  rw [label?_arm, if_neg (Nat.ne_of_lt h.1)] at hl
  exact h.2 l' hl

theorem clear (h : T.Names handle label) (n : Option ℕ) : (T.clear n).Names handle label := by
  refine ⟨T.next_clear n ▸ h.1, fun l hl => ?_⟩
  rw [label?_clear] at hl
  split_ifs at hl
  exact h.2 l hl

theorem rearm (h : T.Names handle label) (n due : ℕ) : (T.rearm n due).Names handle label :=
  ⟨h.1, fun l hl => h.2 l ((T.label?_rearm n due handle).symm.trans hl)⟩

end Names

end Timers

end EventLoop

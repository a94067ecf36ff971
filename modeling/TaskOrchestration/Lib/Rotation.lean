import Mathlib.Data.List.Chain
import Mathlib.Data.List.Count
import Mathlib.Data.List.Rotate
import Mathlib.Data.Nat.Notation
import Mathlib.Data.Option.Basic

set_option autoImplicit false

/-!
# Taking turns

An index goes round a list: each turn takes the element at the index and moves the index on.

* `turns`; **`count_turns`**: how often an element of a list that stays the same has its turn;
* `Spaced`, `Within`, `within_iff_spaced`: something happens in every `n` consecutive turns;
* `ahead`: the steps to a place, round a ring; `ahead_next`: a place behind another is nearer;
* **`Nearing.spaced`**: what comes nearer with every step arrives in every `n` steps.
-/

namespace Rotation

/-! ## A list that stays the same -/

section Turns

variable {α : Type}

/-- The elements that have the next turns. -/
def turns (l : List α) : ℕ → ℕ → List (Option α)
  | _, 0 => []
  | i, m + 1 => l[i % l.length]? :: turns l ((i + 1) % l.length) m

variable {l : List α} {i m k : ℕ} {a : α}

theorem turns_mod (l : List α) (i m : ℕ) : turns l (i % l.length) m = turns l i m := by
  cases m with
  | zero => rfl
  | succ m => rw [turns, turns, Nat.mod_mod, Nat.mod_add_mod]

theorem turns_add (l : List α) (i m k : ℕ) :
    turns l i (m + k) = turns l i m ++ turns l (i + m) k := by
  induction m generalizing i with
  | zero => rw [Nat.zero_add, turns, List.nil_append, Nat.add_zero]
  | succ m ih =>
      have hshift : turns l ((i + 1) % l.length + m) k = turns l (i + (m + 1)) k := by
        rw [← turns_mod, Nat.mod_add_mod, turns_mod, Nat.add_assoc, Nat.add_comm 1 m]
      rw [Nat.add_right_comm, turns, turns, List.cons_append, ih, hshift]

theorem turns_eq_rotate (h : m ≤ l.length) :
    turns l i m = ((l.rotate i).take m).map some := by
  induction m with
  | zero => rw [turns, List.take_zero, List.map_nil]
  | succ m ih =>
      have hm : m < (l.rotate i).length := by rwa [List.length_rotate]
      rw [turns_add, ih (Nat.le_of_succ_le h), List.take_add_one, List.getElem?_eq_getElem hm,
        Option.toList_some, List.map_append, List.map_singleton, List.getElem_rotate, turns, turns,
        List.getElem?_eq_getElem (Nat.mod_lt _ (by omega)), Nat.add_comm i m]

variable [DecidableEq α]

theorem count_turns_length (l : List α) (i : ℕ) (a : α) :
    (turns l i l.length).count (some a) = l.count a := by
  rw [turns_eq_rotate le_rfl, ← List.length_rotate l i, List.take_length,
    List.count_map_of_injective _ _ (Option.some_injective α)]
  exact (List.rotate_perm l i).count_eq a

theorem count_turns_le (h : m ≤ l.length) : (turns l i m).count (some a) ≤ l.count a := by
  rw [turns_eq_rotate h, List.count_map_of_injective _ _ (Option.some_injective α),
    ← (List.rotate_perm l i).count_eq a]
  exact (List.take_sublist m _).count_le a

theorem count_turns_mul (l : List α) (i q r : ℕ) (a : α) :
    (turns l i (l.length * q + r)).count (some a) =
      l.count a * q + (turns l i r).count (some a) := by
  induction q with
  | zero => rw [Nat.mul_zero, Nat.mul_zero, Nat.zero_add, Nat.zero_add]
  | succ q ih =>
      have hshift : turns l (i + l.length) (l.length * q + r) = turns l i (l.length * q + r) := by
        rw [← turns_mod, Nat.add_mod_right, turns_mod]
      rw [Nat.mul_succ, Nat.add_comm (l.length * q), Nat.add_assoc, turns_add, hshift,
        List.count_append, ih, count_turns_length, Nat.mul_succ]
      omega

/-- **How often an element has its turn** in `m` turns. -/
theorem count_turns (hl : l ≠ []) (i m : ℕ) (a : α) :
    l.count a * (m / l.length) ≤ (turns l i m).count (some a) ∧
      (turns l i m).count (some a) ≤ l.count a * ((m + l.length - 1) / l.length) := by
  have hpos := List.length_pos_of_ne_nil hl
  have hcount := count_turns_mul l i (m / l.length) (m % l.length) a
  rw [Nat.div_add_mod] at hcount
  rw [hcount]
  refine ⟨Nat.le_add_right _ _, ?_⟩
  rcases Nat.eq_zero_or_pos (m % l.length) with hzero | hrest
  · rw [hzero, turns, List.count_nil, Nat.add_zero]
    refine Nat.mul_le_mul_left _ (Nat.div_le_div_right ?_)
    omega
  · have hceil : (m + l.length - 1) / l.length = m / l.length + 1 := by
      rw [Nat.div_eq_iff hpos]
      have := Nat.div_add_mod m l.length
      have := Nat.mod_lt m hpos
      rw [Nat.add_mul, Nat.mul_comm (m / l.length)]
      omega
    rw [hceil, Nat.mul_succ]
    exact Nat.add_le_add_left (count_turns_le (Nat.mod_lt m hpos).le) _

end Turns

/-! ## What happens in every window -/

/-- In every `n` consecutive places there is a `true`. -/
def Spaced (n : ℕ) (bs : List Bool) : Prop :=
  ∀ win, win <:+: bs → win.length = n → true ∈ win

/-- The same, after `waited` places without. -/
def Within (n : ℕ) : ℕ → List Bool → Prop
  | _, [] => True
  | _, true :: bs => Within n 0 bs
  | waited, false :: bs => waited + 1 < n ∧ Within n (waited + 1) bs

variable {n waited : ℕ} {bs : List Bool}

theorem spaced_cons_true (hw : waited < n) :
    Spaced n (List.replicate waited false ++ true :: bs) ↔ Spaced n bs := by
  constructor
  · intro h win hwin hlen
    exact h win (hwin.trans ⟨List.replicate waited false ++ [true], [], by simp⟩) hlen
  · intro h win hwin hlen
    have hshort : ∀ u, u <:+: List.replicate waited false → u.length < n := fun u hu => by
      have := hu.length_le
      rw [List.length_replicate] at this
      omega
    rcases List.infix_append_iff.mp hwin with hpre | hpost | ⟨u, v, rfl, hu, hv⟩
    · exact absurd hlen (Nat.ne_of_lt (hshort win hpre))
    · rcases List.infix_cons_iff.mp hpost with hpost | hpost
      · rcases List.prefix_cons_iff.mp hpost with rfl | ⟨win, rfl, -⟩
        · exact absurd hlen (Nat.ne_of_lt (Nat.zero_lt_of_lt hw))
        · exact List.mem_cons_self
      · exact h win hpost hlen
    · rcases List.prefix_cons_iff.mp hv with rfl | ⟨v, rfl, -⟩
      · rw [List.append_nil] at hlen
        exact absurd hlen (Nat.ne_of_lt (hshort u hu.isInfix))
      · exact List.mem_append_right _ List.mem_cons_self

theorem within_iff (hw : waited < n) :
    Within n waited bs ↔ Spaced n (List.replicate waited false ++ bs) := by
  induction bs generalizing waited with
  | nil =>
      refine iff_of_true trivial fun win hwin hlen => ?_
      have := hwin.length_le
      rw [List.append_nil, List.length_replicate] at this
      omega
  | cons b bs ih =>
      cases b with
      | true =>
          rw [Within, ih (Nat.zero_lt_of_lt hw), List.replicate_zero, List.nil_append,
            spaced_cons_true hw]
      | false =>
          have hreplicate : List.replicate waited false ++ false :: bs =
              List.replicate (waited + 1) false ++ bs := by
            rw [List.replicate_succ', List.append_assoc, List.singleton_append]
          rw [Within, hreplicate]
          rcases Nat.lt_or_ge (waited + 1) n with hlt | hge
          · rw [ih hlt]
            exact and_iff_right hlt
          · -- the places before are such a window
            refine iff_of_false (fun h => absurd h.1 (Nat.not_lt.mpr hge)) fun h => ?_
            have hmem := h (List.replicate (waited + 1) false) (List.prefix_append _ _).isInfix
              (by rw [List.length_replicate]; omega)
            exact Bool.noConfusion (List.eq_of_mem_replicate hmem)

/-- **Counting the places without** finds the windows without. -/
theorem within_iff_spaced (hn : 0 < n) : Within n 0 bs ↔ Spaced n bs := by
  rw [within_iff hn, List.replicate_zero, List.nil_append]

/-! ## Round a ring -/

/-- How many steps it is from `i` on to `p`, round a ring of `n` places. -/
def ahead (n p i : ℕ) : ℕ := (p + (n - i % n)) % n

variable {p i : ℕ}

theorem ahead_lt (hp : p < n) (i : ℕ) : ahead n p i < n := Nat.mod_lt _ (Nat.zero_lt_of_lt hp)

theorem ahead_eq (hp : p < n) (hi : i < n) :
    ahead n p i = if i ≤ p then p - i else p + n - i := by
  rw [ahead, Nat.mod_eq_of_lt hi]
  split_ifs with hle
  · rw [Nat.mod_eq_sub_mod (by omega), Nat.mod_eq_of_lt (by omega)]
    omega
  · rw [Nat.mod_eq_of_lt (by omega)]
    omega

theorem ahead_pos (hp : p < n) (hi : i < n) (hne : i ≠ p) : 0 < ahead n p i := by
  rw [ahead_eq hp hi]
  split_ifs <;> omega

/-- **Some places of the ring**, in its order, are visited one after the other: the next one is
nearer to each of them but the one that is left. -/
theorem ahead_next {f : ℕ → ℕ} {len k q : ℕ} (hf : ∀ j j', j < j' → j' < len → f j < f j')
    (hn : ∀ j, j < len → f j < n) (hk : k < len) (hq : q < len) (hne : k ≠ q) :
    ahead n (f q) (f ((k + 1) % len)) < ahead n (f q) (f k) := by
  have hpos : 0 < len := Nat.zero_lt_of_lt hk
  rw [ahead_eq (hn q hq) (hn _ (Nat.mod_lt _ hpos)), ahead_eq (hn q hq) (hn k hk)]
  have hfk := hn k hk
  have hfq := hn q hq
  rcases Nat.lt_or_ge (k + 1) len with hlt | hge
  · rw [Nat.mod_eq_of_lt hlt]
    have hstep := hf k (k + 1) (Nat.lt_succ_self k) hlt
    rcases Nat.lt_or_gt_of_ne hne with hkq | hqk
    · have hnext : f (k + 1) ≤ f q := by
        rcases Nat.lt_or_eq_of_le hkq with h | h
        · exact (hf _ _ h hq).le
        · exact (congrArg f h).le
      split_ifs <;> omega
    · have hback := hf q k hqk hk
      have hback' := hf q (k + 1) (hqk.trans (Nat.lt_succ_self k)) hlt
      split_ifs <;> omega
  · -- the round ends behind the last place
    have hend : k + 1 = len := by omega
    have hback := hf q k (by omega) hk
    have hfirst : f 0 ≤ f q := by
      rcases Nat.eq_zero_or_pos q with rfl | h
      · exact le_rfl
      · exact (hf 0 q h hq).le
    rw [hend, Nat.mod_self]
    split_ifs <;> omega

/-- **Nearer with every step**: as long as it is not at `p`, the next place is nearer to `p`. -/
def Nearing (n p : ℕ) (places : List ℕ) : Prop :=
  places.IsChain fun x y => x ≠ p → ahead n p y < ahead n p x

instance (n p : ℕ) (places : List ℕ) : Decidable (Nearing n p places) := by
  unfold Nearing; infer_instance

theorem Nearing.within {places : List ℕ} (h : Nearing n p places) (hp : p < n)
    (hplaces : ∀ x ∈ places, x < n) (hw : ∀ x ∈ places.head?, waited + ahead n p x < n) :
    Within n waited (places.map (· == p)) := by
  induction places generalizing waited with
  | nil => exact trivial
  | cons x places ih =>
      have hx := hplaces x List.mem_cons_self
      have hxw : waited + ahead n p x < n := hw x rfl
      have hrest := fun y hy => hplaces y (List.mem_cons_of_mem _ hy)
      rw [List.map_cons]
      by_cases hxp : x = p
      · rw [beq_iff_eq.mpr hxp]
        refine ih h.tail hrest fun y _ => ?_
        rw [Nat.zero_add]
        exact ahead_lt hp y
      · rw [beq_eq_false_iff_ne.mpr hxp]
        have hpos := ahead_pos hp hx hxp
        refine ⟨by omega, ih h.tail hrest fun y hy => ?_⟩
        cases places with
        | nil => cases hy
        | cons y' places =>
            obtain rfl : y' = y := Option.some.inj hy
            have hnearer := (List.isChain_cons_cons.mp h).1 hxp
            omega

/-- **It arrives in every `n` steps.** -/
theorem Nearing.spaced {places : List ℕ} (h : Nearing n p places) (hp : p < n)
    (hplaces : ∀ x ∈ places, x < n) : Spaced n (places.map (· == p)) := by
  rw [← within_iff_spaced (Nat.zero_lt_of_lt hp)]
  refine h.within hp hplaces fun x _ => ?_
  rw [Nat.zero_add]
  exact ahead_lt hp x

end Rotation

import Mathlib.Algebra.Order.Floor.Ring
import Mathlib.Algebra.Order.Ring.Abs
import Mathlib.Data.Int.Log
import Mathlib.Data.Rat.Floor
import Mathlib.Tactic.FieldSimp
import Mathlib.Tactic.Linarith
import Mathlib.Tactic.Positivity
import Mathlib.Tactic.Ring

set_option autoImplicit false

/-!
# Numbers with a significand of 53 bits

* `nearestEven`, **`round`**: rounding to the nearest number, ties to the even one; the exponent has
  no bounds;
* `Representable`, `round_of_representable`: what is not rounded;
* **`round_mono`**; `round_lt_round_of_gap`: two numbers that are far enough apart stay apart;
* `divide`, **`divide_lt_divide_iff`**: quotients of small natural numbers keep their order;
* `natCast_lt_round_div_iff`, `round_div_lt_natCast_iff`, **`ceil_round_round_div`**: quotients and
  integers;
* `round_mul_natCast_lt`: a part of a natural number stays below it.
-/

namespace Double

/-- The nearest integer. Of two, it is the even one. -/
def nearestEven (x : ℚ) : ℤ :=
  if 2 * Int.fract x < 1 ∨ (2 * Int.fract x = 1 ∧ ⌊x⌋ % 2 = 0) then ⌊x⌋ else ⌊x⌋ + 1

/-- The exponent of the last of the 53 bits. -/
def exponent (x : ℚ) : ℤ := Int.log 2 |x| - 52

def round (x : ℚ) : ℚ := nearestEven (x / 2 ^ exponent x) * 2 ^ exponent x

def divide (a b : ℚ) : ℚ := round (a / b)

variable {x y : ℚ}

/-! ## The nearest integer -/

theorem nearestEven_intCast (k : ℤ) : nearestEven k = k := by
  rw [nearestEven, Int.fract_intCast, Int.floor_intCast]
  exact if_pos (.inl (by norm_num))

theorem floor_le_nearestEven (x : ℚ) : ⌊x⌋ ≤ nearestEven x := by
  rw [nearestEven]
  split_ifs <;> omega

theorem nearestEven_le (x : ℚ) : nearestEven x ≤ ⌊x⌋ + 1 := by
  rw [nearestEven]
  split_ifs <;> omega

theorem nearestEven_mono (h : x ≤ y) : nearestEven x ≤ nearestEven y := by
  rcases (Int.floor_mono h).lt_or_eq with hlt | heq
  · calc nearestEven x ≤ ⌊x⌋ + 1 := nearestEven_le x
      _ ≤ ⌊y⌋ := hlt
      _ ≤ nearestEven y := floor_le_nearestEven y
  · have hfract : Int.fract x ≤ Int.fract y := by
      rw [← Int.self_sub_floor x, ← Int.self_sub_floor y, heq]
      linarith
    rw [nearestEven, nearestEven, heq]
    split_ifs with hx hy hy
    · exact le_rfl
    · omega
    · -- `y` is rounded down and `x` is not
      refine absurd ?_ hx
      rcases hfract.lt_or_eq with hlt | hfr
      · rcases hy with hy | ⟨hy, -⟩
        · exact .inl (by linarith)
        · exact .inl (by linarith)
      · rwa [hfr]
    · exact le_rfl

/-! ## The exponent -/

theorem exponent_of_pos (hx : 0 < x) :
    (2 : ℚ) ^ (52 : ℕ) * 2 ^ exponent x ≤ x ∧ x < 2 ^ (53 : ℕ) * 2 ^ exponent x := by
  have hlog : exponent x = Int.log 2 x - 52 := by rw [exponent, abs_of_pos hx]
  have hle := Int.zpow_log_le_self (b := 2) one_lt_two hx
  have hlt := Int.lt_zpow_succ_log_self (b := 2) one_lt_two x
  rw [Nat.cast_two] at hle hlt
  have h₁ : (2 : ℚ) ^ (52 : ℕ) * 2 ^ exponent x = 2 ^ Int.log 2 x := by
    rw [hlog, ← zpow_natCast, ← zpow_add₀ two_ne_zero]
    congr 1
    omega
  have h₂ : (2 : ℚ) ^ (53 : ℕ) * 2 ^ exponent x = 2 ^ (Int.log 2 x + 1) := by
    rw [hlog, ← zpow_natCast, ← zpow_add₀ two_ne_zero]
    congr 1
    omega
  rw [h₁, h₂]
  exact ⟨hle, hlt⟩

theorem exponent_mono (hx : 0 < x) (h : x ≤ y) : exponent x ≤ exponent y := by
  have := Int.log_mono_right (b := 2) hx h
  rw [exponent, exponent, abs_of_pos hx, abs_of_pos (hx.trans_le h)]
  omega

theorem exponent_eq {e : ℤ} (hle : (2 : ℚ) ^ (52 : ℕ) * 2 ^ e ≤ x)
    (hlt : x < 2 ^ (53 : ℕ) * 2 ^ e) : exponent x = e := by
  have hpos : 0 < x := (mul_pos (by norm_num) (zpow_pos two_pos e)).trans_le hle
  rw [← zpow_natCast, ← zpow_add₀ two_ne_zero] at hle hlt
  have h₁ := (Int.zpow_le_iff_le_log (b := 2) one_lt_two hpos).mp (by exact_mod_cast hle)
  have h₂ := (Int.lt_zpow_iff_log_lt (b := 2) one_lt_two hpos).mp (by exact_mod_cast hlt)
  rw [exponent, abs_of_pos hpos]
  omega

/-! ## Rounding -/

theorem two_zpow_pos (e : ℤ) : (0 : ℚ) < 2 ^ e := zpow_pos two_pos e

theorem round_eq {e : ℤ} (h : exponent x = e) : round x = nearestEven (x / 2 ^ e) * 2 ^ e := by
  rw [round, h]

theorem round_le_of_le {e k : ℤ} (h : exponent x = e) (hk : x ≤ k * 2 ^ e) :
    round x ≤ k * 2 ^ e := by
  rw [round_eq h]
  refine mul_le_mul_of_nonneg_right ?_ (two_zpow_pos e).le
  have hle : x / 2 ^ e ≤ k := (div_le_iff₀ (two_zpow_pos e)).mpr hk
  have := nearestEven_mono hle
  rw [nearestEven_intCast] at this
  exact_mod_cast this

theorem le_round_of_le {e k : ℤ} (h : exponent x = e) (hk : k * 2 ^ e ≤ x) :
    k * 2 ^ e ≤ round x := by
  rw [round_eq h]
  refine mul_le_mul_of_nonneg_right ?_ (two_zpow_pos e).le
  have hle : (k : ℚ) ≤ x / 2 ^ e := (le_div_iff₀ (two_zpow_pos e)).mpr hk
  have := nearestEven_mono hle
  rw [nearestEven_intCast] at this
  exact_mod_cast this

theorem round_zero : round 0 = 0 := by
  have hzero := nearestEven_intCast 0
  rw [Int.cast_zero] at hzero
  rw [round, zero_div, hzero, Int.cast_zero, zero_mul]

theorem round_mono (hx : 0 ≤ x) (h : x ≤ y) : round x ≤ round y := by
  rcases hx.eq_or_lt with rfl | hx
  · rw [round_zero]
    rcases h.eq_or_lt with rfl | hy
    · rw [round_zero]
    · have := le_round_of_le (x := y) (k := 0) rfl (by rw [Int.cast_zero, zero_mul]; exact h)
      rwa [Int.cast_zero, zero_mul] at this
  · have hy := hx.trans_le h
    rcases (exponent_mono hx h).lt_or_eq with hlt | heq
    · -- a power of two lies between
      calc round x ≤ ((2 ^ 53 : ℕ) : ℤ) * 2 ^ exponent x :=
            round_le_of_le rfl (by push_cast; exact (exponent_of_pos hx).2.le)
        _ ≤ ((2 ^ 52 : ℕ) : ℤ) * 2 ^ exponent y := by
            have hpow : (2 : ℚ) ^ (exponent x + 1) ≤ 2 ^ exponent y :=
              zpow_le_zpow_right₀ one_le_two hlt
            rw [zpow_add_one₀ two_ne_zero] at hpow
            push_cast
            linarith
        _ ≤ round y := le_round_of_le rfl (by push_cast; exact (exponent_of_pos hy).1)
    · rw [round_eq heq, round_eq (x := y) rfl]
      refine mul_le_mul_of_nonneg_right ?_ (two_zpow_pos _).le
      exact_mod_cast nearestEven_mono (div_le_div_of_nonneg_right h (two_zpow_pos _).le)

/-- The number has a significand of 53 bits. -/
def Representable (x : ℚ) : Prop := ∃ (k : ℕ) (e : ℤ), k ≤ 2 ^ 53 ∧ x = k * 2 ^ e

theorem round_of_representable (h : Representable x) : round x = x := by
  obtain ⟨k, e, hk, rfl⟩ := h
  rcases Nat.eq_zero_or_pos k with rfl | hpos
  · rw [Nat.cast_zero, zero_mul, round_zero]
  · have hx : (0 : ℚ) < k * 2 ^ e := mul_pos (Nat.cast_pos.mpr hpos) (two_zpow_pos e)
    -- the number is a multiple of its last bit
    suffices hint : ∃ m : ℤ, (k * 2 ^ e : ℚ) = m * 2 ^ exponent (k * 2 ^ e) by
      obtain ⟨m, hm⟩ := hint
      exact le_antisymm ((round_le_of_le rfl hm.le).trans hm.ge)
        (hm.le.trans (le_round_of_le rfl hm.ge))
    generalize hE : exponent (k * 2 ^ e : ℚ) = E
    rcases le_or_gt E e with hle | hlt
    · refine ⟨k * 2 ^ (e - E).toNat, ?_⟩
      have hpow : (2 : ℚ) ^ e = 2 ^ (e - E).toNat * 2 ^ E := by
        rw [← zpow_natCast, ← zpow_add₀ two_ne_zero]
        congr 1
        omega
      rw [hpow]
      push_cast
      ring
    · -- then the significand is a power of two
      have hge := (exponent_of_pos hx).1
      rw [hE] at hge
      have hpow : (2 : ℚ) ^ (e + 1) ≤ 2 ^ E := zpow_le_zpow_right₀ one_le_two hlt
      rw [zpow_add_one₀ two_ne_zero] at hpow
      have hk53 : (2 : ℚ) ^ 53 ≤ k := by
        by_contra hlt'
        have := mul_lt_mul_of_pos_right (not_le.mp hlt') (two_zpow_pos e)
        linarith
      have hkeq : k = 2 ^ 53 := le_antisymm hk (by exact_mod_cast hk53)
      have heq : exponent (k * 2 ^ e : ℚ) = e + 1 := by
        refine exponent_eq ?_ ?_ <;>
          · rw [hkeq, zpow_add_one₀ two_ne_zero]
            have := two_zpow_pos e
            push_cast
            linarith
      refine ⟨2 ^ 52, ?_⟩
      rw [← hE, heq, hkeq, zpow_add_one₀ two_ne_zero]
      push_cast
      ring

theorem exists_significand (hx : 0 < x) (h : Representable x) :
    ∃ N e : ℤ, x = N * 2 ^ e ∧ 2 ^ 52 ≤ N ∧ N < 2 ^ 53 := by
  obtain ⟨h₁, h₂⟩ := exponent_of_pos hx
  have hround := round_of_representable h
  rw [round] at hround
  generalize nearestEven (x / 2 ^ exponent x) = N at hround
  generalize exponent x = e at hround h₁ h₂
  rw [← hround] at h₁ h₂
  refine ⟨N, e, hround.symm, ?_, ?_⟩
  · exact_mod_cast le_of_mul_le_mul_right h₁ (two_zpow_pos e)
  · exact_mod_cast lt_of_mul_lt_mul_right h₂ (two_zpow_pos e).le

theorem representable_natCast {k : ℕ} (h : k ≤ 2 ^ 53) : Representable k :=
  ⟨k, 0, h, by rw [zpow_zero, mul_one]⟩

theorem representable_div_two_pow {k : ℕ} (h : k ≤ 2 ^ 53) (j : ℕ) :
    Representable (k / 2 ^ j) :=
  ⟨k, -j, h, by rw [zpow_neg, zpow_natCast, div_eq_mul_inv]⟩

theorem round_le (hx : 0 ≤ x) (hy : Representable y) (h : x ≤ y) : round x ≤ y :=
  (round_mono hx h).trans (round_of_representable hy).le

theorem le_round (hx : 0 ≤ x) (hx' : Representable x) (h : x ≤ y) : x ≤ round y :=
  (round_of_representable hx').ge.trans (round_mono hx h)

/-! ## Numbers that stay apart -/

/-- **Numbers that are far enough apart** for a multiple of `2 ^ -j` to lie on either side. -/
theorem round_lt_round_of_gap (j : ℕ) (hx : 0 ≤ x) (hgap : 2 ≤ (y - x) * 2 ^ j)
    (hy : y * 2 ^ j ≤ 2 ^ 53) : round x < round y := by
  have hpos : (0 : ℚ) < 2 ^ j := by positivity
  have hle := Nat.le_ceil (x * 2 ^ j)
  have hlt := Nat.ceil_lt_add_one (mul_nonneg hx hpos.le)
  generalize ⌈x * 2 ^ j⌉₊ = k at hle hlt
  have hk : ((k + 1 : ℕ) : ℚ) ≤ y * 2 ^ j := by
    push_cast
    linarith
  have hk53 : k + 1 ≤ 2 ^ 53 := by exact_mod_cast hk.trans hy
  calc round x ≤ k / 2 ^ j :=
        round_le hx (representable_div_two_pow (by omega) j) ((le_div_iff₀ hpos).mpr hle)
    _ < (k + 1 : ℕ) / 2 ^ j := by
        refine div_lt_div_of_pos_right ?_ hpos
        exact_mod_cast Nat.lt_succ_self k
    _ ≤ round y :=
        le_round (by positivity) (representable_div_two_pow hk53 j) ((div_le_iff₀ hpos).mpr hk)

/-- **Quotients of small numbers** keep their order. -/
theorem divide_lt_divide_iff {a b c d : ℤ} (ha : 0 ≤ a) (hb : 0 < b) (hc : 0 ≤ c) (hcd : c ≤ d)
    (hb' : b ≤ 2 ^ 15) (hd : 0 < d) (hd' : d ≤ 2 ^ 15) :
    divide a b < divide c d ↔ (a / b : ℚ) < c / d := by
  have hbq : (0 : ℚ) < b := by exact_mod_cast hb
  have hdq : (0 : ℚ) < d := by exact_mod_cast hd
  have hnonneg : ∀ {n m : ℤ}, 0 ≤ n → 0 < m → (0 : ℚ) ≤ n / m := fun hn hm =>
    div_nonneg (by exact_mod_cast hn) (by exact_mod_cast hm.le)
  constructor
  · intro h
    by_contra hle
    exact absurd h (not_lt.mpr (round_mono (hnonneg hc hd) (not_lt.mp hle)))
  · intro h
    refine round_lt_round_of_gap 31 (hnonneg ha hb) ?_ ?_
    · have hcross : (1 : ℚ) ≤ c * b - a * d := by
        rw [div_lt_div_iff₀ hbq hdq] at h
        have hint : a * d < c * b := by exact_mod_cast h
        exact_mod_cast (by omega : 1 ≤ c * b - a * d)
      have hbd : (b * d : ℚ) ≤ 2 ^ 30 := by
        have hb15 : (b : ℚ) ≤ 2 ^ 15 := by exact_mod_cast hb'
        have hd15 : (d : ℚ) ≤ 2 ^ 15 := by exact_mod_cast hd'
        calc (b * d : ℚ) ≤ 2 ^ 15 * 2 ^ 15 := mul_le_mul hb15 hd15 hdq.le (by norm_num)
          _ = 2 ^ 30 := by norm_num
      have hsub : (c / d - a / b : ℚ) = (c * b - a * d) / (b * d) := by
        field_simp
      rw [hsub, div_mul_eq_mul_div, le_div_iff₀ (mul_pos hbq hdq)]
      linarith
    · have hle : (c / d : ℚ) ≤ 1 := (div_le_one hdq).mpr (by exact_mod_cast hcd)
      linarith

/-! ## Quotients and integers -/

section Quotients

variable {d n u j : ℕ}

theorem add_le_div (hn : 0 < n) (hj : n * u ≤ 2 ^ j) {b : ℕ} (h : n * b < d) :
    ((b * 2 ^ j + u : ℕ) / 2 ^ j : ℚ) ≤ d / n := by
  have hnq : (0 : ℚ) < n := by exact_mod_cast hn
  rw [div_le_div_iff₀ (by positivity) hnq]
  have hnat : (b * 2 ^ j + u) * n ≤ d * 2 ^ j :=
    calc (b * 2 ^ j + u) * n = n * b * 2 ^ j + n * u := by ring
      _ ≤ n * b * 2 ^ j + 2 ^ j := Nat.add_le_add_left hj _
      _ = (n * b + 1) * 2 ^ j := by ring
      _ ≤ d * 2 ^ j := Nat.mul_le_mul_right _ h
  exact_mod_cast hnat

/-- **A quotient is rounded across no integer** from above. -/
theorem natCast_lt_round_div_iff (hn : 0 < n) (hj : n ≤ 2 ^ j) (hu : u * 2 ^ j + 1 ≤ 2 ^ 53) :
    (u : ℚ) < round (d / n) ↔ n * u < d := by
  have hnq : (0 : ℚ) < n := by exact_mod_cast hn
  constructor
  · intro h
    by_contra hle
    have hdiv : (d / n : ℚ) ≤ u := (div_le_iff₀ hnq).mpr (by exact_mod_cast (by
      rw [Nat.mul_comm]
      exact not_lt.mp hle))
    have hu53 : u ≤ 2 ^ 53 :=
      (Nat.le_mul_of_pos_right u (by positivity)).trans ((Nat.le_succ _).trans hu)
    exact absurd h (not_lt.mpr (round_le (by positivity) (representable_natCast hu53) hdiv))
  · intro h
    have hle := le_round (by positivity) (representable_div_two_pow hu j)
      (add_le_div (u := 1) hn (by rwa [Nat.mul_one]) h)
    refine lt_of_lt_of_le ?_ hle
    rw [lt_div_iff₀ (by positivity)]
    exact_mod_cast Nat.lt_succ_self _

theorem round_div_lt_natCast_iff (hn : 0 < n) (hj : n ≤ 2 ^ j) (hu : u * 2 ^ j ≤ 2 ^ 53) :
    round (d / n) < (u : ℚ) ↔ d < n * u := by
  have hnq : (0 : ℚ) < n := by exact_mod_cast hn
  constructor
  · intro h
    by_contra hle
    have hdiv : (u : ℚ) ≤ d / n := (le_div_iff₀ hnq).mpr (by exact_mod_cast (by
      rw [Nat.mul_comm]
      exact not_lt.mp hle))
    have hu53 : u ≤ 2 ^ 53 := (Nat.le_mul_of_pos_right u (by positivity)).trans hu
    exact absurd h (not_lt.mpr (le_round (by positivity) (representable_natCast hu53) hdiv))
  · intro h
    have hpos : 0 < u := Nat.pos_of_ne_zero fun h0 => by simp [h0] at h
    have hone : 1 ≤ u * 2 ^ j := Nat.one_le_iff_ne_zero.mpr (by positivity)
    have hdiv : (d / n : ℚ) ≤ (u * 2 ^ j - 1 : ℕ) / 2 ^ j := by
      rw [div_le_div_iff₀ hnq (by positivity)]
      have hnat : d * 2 ^ j ≤ (u * 2 ^ j - 1) * n := by
        have hle : d * 2 ^ j + 2 ^ j ≤ u * 2 ^ j * n := by
          calc d * 2 ^ j + 2 ^ j = (d + 1) * 2 ^ j := by ring
            _ ≤ n * u * 2 ^ j := Nat.mul_le_mul_right _ h
            _ = u * 2 ^ j * n := by ring
        rw [Nat.sub_mul, Nat.one_mul]
        omega
      exact_mod_cast hnat
    refine (round_le (by positivity) (representable_div_two_pow (by omega) j) hdiv).trans_lt ?_
    rw [div_lt_iff₀ (by positivity)]
    exact_mod_cast Nat.sub_lt hone Nat.one_pos

theorem round_nonneg (hx : 0 ≤ x) : 0 ≤ round x := by
  rw [← round_zero]
  exact round_mono le_rfl hx

theorem lt_round_round_div (hn : 0 < n) (hu : 0 < u) (hj : n * u ≤ 2 ^ j)
    (hd : (d + u) * 2 ^ j ≤ 2 ^ 53) {b : ℕ} (h : n * (b * u) < d) :
    (b : ℚ) < round (round (d / n) / u) := by
  have huq : (0 : ℚ) < u := by exact_mod_cast hu
  have hbu : b * u ≤ d := (Nat.le_mul_of_pos_left _ hn).trans h.le
  have hb : b ≤ d := (Nat.le_mul_of_pos_right b hu).trans hbu
  have hinner : ((b * u * 2 ^ j + u : ℕ) / 2 ^ j : ℚ) ≤ round (d / n) := by
    refine le_round (by positivity) (representable_div_two_pow ?_ j) (add_le_div hn hj h)
    calc b * u * 2 ^ j + u ≤ d * 2 ^ j + u * 2 ^ j :=
          Nat.add_le_add (Nat.mul_le_mul_right _ hbu) (Nat.le_mul_of_pos_right u Nat.one_le_two_pow)
      _ ≤ 2 ^ 53 := by rwa [← Nat.add_mul]
  have hdiv : ((b * 2 ^ j + 1 : ℕ) / 2 ^ j : ℚ) ≤ round (d / n) / u := by
    rw [le_div_iff₀ huq]
    refine le_of_eq_of_le ?_ hinner
    push_cast
    ring
  have hbits : b * 2 ^ j + 1 ≤ 2 ^ 53 :=
    calc b * 2 ^ j + 1 ≤ d * 2 ^ j + u * 2 ^ j :=
          Nat.add_le_add (Nat.mul_le_mul_right _ hb) (Nat.mul_pos hu Nat.one_le_two_pow)
      _ ≤ 2 ^ 53 := by rwa [← Nat.add_mul]
  refine lt_of_lt_of_le ?_ (le_round (by positivity) (representable_div_two_pow hbits j) hdiv)
  rw [lt_div_iff₀ (by positivity)]
  exact_mod_cast Nat.lt_succ_self _

theorem round_round_div_le (hn : 0 < n) (hu : 0 < u) {c : ℕ} (hc : c * u ≤ 2 ^ 53)
    (h : d ≤ c * (n * u)) : round (round (d / n) / u) ≤ (c : ℚ) := by
  have hnq : (0 : ℚ) < n := by exact_mod_cast hn
  have huq : (0 : ℚ) < u := by exact_mod_cast hu
  have hinner : round (d / n) ≤ ((c * u : ℕ) : ℚ) := by
    refine round_le (by positivity) (representable_natCast hc) ?_
    rw [div_le_iff₀ hnq]
    exact_mod_cast h.trans_eq (by ring)
  have hdiv : round (d / n) / u ≤ (c : ℚ) :=
    (div_le_iff₀ huq).mpr (hinner.trans_eq (by push_cast; rfl))
  exact round_le (div_nonneg (round_nonneg (by positivity)) huq.le)
    (representable_natCast ((Nat.le_mul_of_pos_right c hu).trans hc)) hdiv

/-- **Two divisions**, each rounded, and the integer above. -/
theorem ceil_round_round_div (hn : 0 < n) (hu : 0 < u) (hj : n * u ≤ 2 ^ j)
    (hd : (d + u) * 2 ^ j ≤ 2 ^ 53) :
    ⌈round (round (d / n) / u)⌉ = ⌈(d / (n * u) : ℚ)⌉ := by
  have hsum : d + u ≤ 2 ^ 53 := (Nat.le_mul_of_pos_right _ Nat.one_le_two_pow).trans hd
  have hnonneg : 0 ≤ round (round (d / n) / u) :=
    round_nonneg (div_nonneg (round_nonneg (by positivity)) (Nat.cast_nonneg u))
  -- the integer above the exact quotient
  obtain ⟨c, hc⟩ : ∃ c : ℕ, ⌈(d / (n * u) : ℚ)⌉ = c :=
    Int.eq_ofNat_of_zero_le (Int.ceil_nonneg (by positivity))
  obtain ⟨hlow, hhigh⟩ := Int.ceil_eq_iff.mp hc
  rw [div_le_iff₀ (by positivity)] at hhigh
  rw [lt_div_iff₀ (by positivity)] at hlow
  have habove : d ≤ c * (n * u) := by exact_mod_cast hhigh
  rw [hc, Int.ceil_eq_iff]
  cases c with
  | zero => exact ⟨by push_cast; linarith, round_round_div_le hn hu (by omega) habove⟩
  | succ b =>
      have hbelow : n * (b * u) < d := by
        have hb : (b : ℚ) * (n * u) < d := by
          push_cast at hlow
          linarith
        calc n * (b * u) = b * (n * u) := by ring
          _ < d := by exact_mod_cast hb
      have hbu : b * u ≤ d := (Nat.le_mul_of_pos_left _ hn).trans hbelow.le
      refine ⟨?_, round_round_div_le hn hu ?_ habove⟩
      · push_cast
        rw [add_sub_cancel_right]
        exact lt_round_round_div hn hu hj hd hbelow
      · rw [Nat.add_mul, Nat.one_mul]
        omega

end Quotients

/-! ## Parts of a natural number -/

/-- Of a significand that is no power of two, less than half of the last bit is lost. -/
theorem round_part_of_significand {N : ℤ} (e : ℤ) (hlow : 2 ^ 52 < N) (hhigh : N < 2 ^ 53) :
    round ((1 - 1 / 2 ^ 53) * (N * 2 ^ e)) = (N - 1 : ℤ) * 2 ^ e := by
  have he := two_zpow_pos e
  have hlowq : (2 ^ 52 + 1 : ℚ) ≤ N := by exact_mod_cast hlow
  have hhighq : (N : ℚ) < 2 ^ 53 := by exact_mod_cast hhigh
  have hprod : (1 - 1 / 2 ^ 53) * (N * 2 ^ e : ℚ) = (N - N / 2 ^ 53) * 2 ^ e := by ring
  have hexp : exponent ((N - N / 2 ^ 53) * 2 ^ e : ℚ) = e := by
    refine exponent_eq (mul_le_mul_of_nonneg_right ?_ he.le) (mul_lt_mul_of_pos_right ?_ he)
    · linarith
    · linarith
  have hfloor : ⌊(N - N / 2 ^ 53 : ℚ)⌋ = N - 1 := by
    rw [Int.floor_eq_iff]
    push_cast
    constructor <;> linarith
  have hnear : nearestEven (N - N / 2 ^ 53 : ℚ) = N - 1 := by
    rw [nearestEven, ← Int.self_sub_floor, hfloor]
    refine if_pos (.inl ?_)
    push_cast
    linarith
  rw [hprod, round_eq hexp, mul_div_assoc, div_self he.ne', mul_one, hnear]

/-- **A part of a natural number**, by a factor below one, stays below it. -/
theorem round_mul_natCast_lt {n : ℕ} (hn : 0 < n) (hn' : n ≤ 2 ^ 53) (hx : 0 ≤ x)
    (hx' : x ≤ 1 - 1 / 2 ^ 53) : round (x * n) < n := by
  have hnq : (0 : ℚ) < n := by exact_mod_cast hn
  have hle : x * n ≤ (1 - 1 / 2 ^ 53) * n := mul_le_mul_of_nonneg_right hx' hnq.le
  refine (round_mono (mul_nonneg hx hnq.le) hle).trans_lt ?_
  obtain ⟨N, e, hN, hlow, hhigh⟩ := exists_significand hnq (representable_natCast hn')
  rcases hlow.eq_or_lt with hpow | hlow
  · -- a power of two: the product has 53 bits
    have heq : (1 - 1 / 2 ^ 53) * (n : ℚ) = (2 ^ 53 - 1 : ℕ) * 2 ^ (e - 1) := by
      rw [hN, ← hpow, zpow_sub_one₀ two_ne_zero]
      push_cast
      ring
    rw [heq, round_of_representable ⟨2 ^ 53 - 1, e - 1, by norm_num, rfl⟩, ← heq]
    linarith
  · rw [hN, round_part_of_significand e hlow hhigh]
    refine mul_lt_mul_of_pos_right ?_ (two_zpow_pos e)
    exact_mod_cast sub_one_lt N

end Double

import Mathlib.Data.List.Nodup
import Mathlib.Data.List.Perm.Basic
import Mathlib.Data.Nat.Notation

set_option autoImplicit false

/-!
# Pages of sorted rows

Each page is cut from a sorted list of the same rows. The lists may differ in the order of the rows
that compare equal.

* `TotalPreorder`, `Arranges`: the sorted lists of the rows; `page`;
* `before`, `upTo`, `CutsTie`: a place between two rows that compare equal;
* **`take_perm`**: elsewhere, what comes before a place does not depend on the list;
* **`pages_perm`**: so the pages are the rows, if no page ends in such a place;
* **`exists_not_perm`**: otherwise two pages may have a row in common.
-/

namespace Paging

variable {α : Type} (le : α → α → Prop)

/-- **An order of rows** in which different rows may compare equal. -/
structure TotalPreorder : Prop where
  total : ∀ a b, le a b ∨ le b a
  trans : ∀ {a b c}, le a b → le b c → le a c

def Arranges (rows L : List α) : Prop := L.Perm rows ∧ L.Pairwise le

def page (limit k : ℕ) (L : List α) : List α := (L.drop (k * limit)).take limit

variable [DecidableRel le]

/-- The number of the rows before those that compare equal with the row. -/
def before (rows : List α) (r : α) : ℕ := rows.countP fun a => ¬ le r a

/-- The number of the rows up to those that compare equal with the row. -/
def upTo (rows : List α) (r : α) : ℕ := rows.countP fun a => le a r

/-- **After `n` rows** there is a place between two that compare equal. -/
def CutsTie (rows : List α) (n : ℕ) : Prop :=
  ∃ r ∈ rows, before le rows r < n ∧ n < upTo le rows r

variable {le} {rows L : List α} {limit k n : ℕ}

omit [DecidableRel le] in
theorem TotalPreorder.refl (hle : TotalPreorder le) (a : α) : le a a := (hle.total a a).elim id id

theorem before_le (hle : TotalPreorder le) (h : Arranges le rows L) {i : ℕ} (hi : i < L.length) :
    before le rows L[i] ≤ i := by
  have hsplit : L.countP (fun a => ¬ le L[i] a) =
      (L.take i).countP (fun a => ¬ le L[i] a) + (L.drop i).countP fun a => ¬ le L[i] a := by
    rw [← List.countP_append, List.take_append_drop]
  have hdrop : (L.drop i).countP (fun a => ¬ le L[i] a) = 0 := by
    rw [List.countP_eq_zero]
    intro a ha
    rw [decide_eq_true_iff, not_not]
    rw [List.drop_eq_getElem_cons hi] at ha
    rcases List.mem_cons.mp ha with rfl | ha
    · exact hle.refl _
    · have hpair := h.2.sublist (List.drop_sublist i L)
      rw [List.drop_eq_getElem_cons hi] at hpair
      exact List.rel_of_pairwise_cons hpair ha
  rw [before, ← h.1.countP_eq, hsplit, hdrop, Nat.add_zero]
  exact Nat.le_trans List.countP_le_length (List.length_take_le i L)

theorem lt_upTo (hle : TotalPreorder le) (h : Arranges le rows L) {i : ℕ} (hi : i < L.length) :
    i < upTo le rows L[i] := by
  have htake : ∀ a ∈ L.take (i + 1), le a L[i] := by
    intro a ha
    rw [List.take_add_one, List.getElem?_eq_getElem hi, Option.toList_some, List.mem_append,
      List.mem_singleton] at ha
    rcases ha with ha | rfl
    · obtain ⟨j, hj, rfl⟩ := List.mem_iff_getElem.mp ha
      rw [List.length_take] at hj
      rw [List.getElem_take]
      exact List.pairwise_iff_getElem.mp h.2 j i (by omega) hi (by omega)
    · exact hle.refl _
  have hcount : (L.take (i + 1)).countP (fun a => le a L[i]) = i + 1 := by
    rw [List.countP_eq_length.mpr fun a ha => decide_eq_true (htake a ha), List.length_take]
    omega
  have hle' := (List.take_sublist (i + 1) L).countP_le (p := fun a => decide (le a L[i]))
  rw [hcount] at hle'
  rw [upTo, ← h.1.countP_eq]
  exact hle'

/-- **What comes before a place** that is not between two rows that compare equal. -/
theorem take_perm (hle : TotalPreorder le) (h : Arranges le rows L) (hn : ¬ CutsTie le rows n) :
    (L.take n).Perm (rows.filter fun r => upTo le rows r ≤ n) := by
  have hmem : ∀ {i} (hi : i < L.length), L[i] ∈ rows := fun hi => h.1.subset (List.getElem_mem hi)
  have htake : (L.take n).filter (fun r => upTo le rows r ≤ n) = L.take n := by
    rw [List.filter_eq_self]
    intro a ha
    obtain ⟨i, hi, rfl⟩ := List.mem_iff_getElem.mp ha
    rw [List.length_take] at hi
    have hi' : i < L.length := by omega
    rw [List.getElem_take, decide_eq_true_iff]
    by_contra hgt
    have := before_le hle h hi'
    exact hn ⟨L[i], hmem hi', by omega, by omega⟩
  have hdrop : (L.drop n).filter (fun r => upTo le rows r ≤ n) = [] := by
    rw [List.filter_eq_nil_iff]
    intro a ha
    obtain ⟨i, hi, rfl⟩ := List.mem_iff_getElem.mp ha
    rw [List.length_drop] at hi
    have := lt_upTo hle h (i := n + i) (by omega)
    rw [List.getElem_drop, decide_eq_true_iff]
    omega
  have hfilter := h.1.filter fun r => decide (upTo le rows r ≤ n)
  rwa [← List.take_append_drop n L, List.filter_append, htake, hdrop, List.append_nil] at hfilter

/-- **The pages are the rows**, if no page ends between two rows that compare equal. -/
theorem pages_perm (hle : TotalPreorder le) {Ls : ℕ → List α} (h : ∀ k, Arranges le rows (Ls k))
    (hcuts : ∀ k, ¬ CutsTie le rows (k * limit)) {p : ℕ} (hp : rows.length ≤ p * limit) :
    ((List.range p).flatMap fun k => page limit k (Ls k)).Perm rows := by
  have hprefix : ∀ p, ((List.range p).flatMap fun k => page limit k (Ls k)).Perm
      (rows.filter fun r => upTo le rows r ≤ p * limit) := by
    intro p
    induction p with
    | zero =>
        have := take_perm hle (h 0) (hcuts 0)
        rwa [Nat.zero_mul, List.take_zero, ← Nat.zero_mul limit] at this
    | succ p ih =>
        -- the next page goes on in its own list
        have hlast := take_perm hle (h p) (hcuts p)
        have hnext := take_perm hle (h p) (hcuts (p + 1))
        rw [Nat.succ_mul, List.take_add] at hnext
        rw [List.range_succ, List.flatMap_append, List.flatMap_singleton, Nat.succ_mul]
        exact ((ih.trans hlast.symm).append_right _).trans hnext
  have hall : rows.filter (fun r => upTo le rows r ≤ p * limit) = rows :=
    List.filter_eq_self.mpr fun r _ => decide_eq_true (Nat.le_trans List.countP_le_length hp)
  have := hprefix p
  rwa [hall] at this

/-! ## Two rows that compare equal -/

theorem tie_of_cutsTie (hle : TotalPreorder le) (h : Arranges le rows L) {i : ℕ}
    (hi : i + 1 < L.length) (hcut : CutsTie le rows (i + 1)) : le L[i + 1] L[i] := by
  obtain ⟨r, -, hlow, hhigh⟩ := hcut
  have hbefore := before_le hle h hi
  have hupTo := lt_upTo hle h (i := i) (by omega)
  have hb : le L[i + 1] r := by
    by_contra hno
    have hmono : upTo le rows r ≤ before le rows L[i + 1] :=
      List.countP_mono_left fun x _ hx => decide_eq_true fun hbx =>
        hno (hle.trans hbx (of_decide_eq_true hx))
    omega
  have ha : le r L[i] := by
    by_contra hno
    have hmono : upTo le rows L[i] ≤ before le rows r :=
      List.countP_mono_left fun x _ hx => decide_eq_true fun hrx =>
        hno (hle.trans hrx (of_decide_eq_true hx))
    omega
  exact hle.trans hb ha

omit [DecidableRel le] in
/-- **Two neighbours that compare equal** may be exchanged. -/
theorem Arranges.swap {pre post : List α} {a b : α} (h : Arranges le rows (pre ++ a :: b :: post))
    (hba : le b a) : Arranges le rows (pre ++ b :: a :: post) := by
  refine ⟨((List.Perm.swap a b post).append_left pre).trans h.1, ?_⟩
  obtain ⟨hpre, htail, hcross⟩ := List.pairwise_append.mp h.2
  obtain ⟨ha, hbpost⟩ := List.pairwise_cons.mp htail
  obtain ⟨hb, hpost⟩ := List.pairwise_cons.mp hbpost
  refine List.pairwise_append.mpr ⟨hpre, ?_, fun x hx y hy => hcross x hx y ?_⟩
  · refine List.pairwise_cons.mpr ⟨fun y hy => ?_, List.pairwise_cons.mpr ⟨fun y hy => ?_, hpost⟩⟩
    · rcases List.mem_cons.mp hy with rfl | hy
      · exact hba
      · exact hb y hy
    · exact ha y (List.mem_cons_of_mem b hy)
  · exact (List.Perm.swap a b post).mem_iff.mp hy

theorem mem_page {i : ℕ} {a : α} (h : L[i]? = some a) (hlow : k * limit ≤ i)
    (hhigh : i < k * limit + limit) : a ∈ page limit k L := by
  refine List.mem_of_getElem? (i := i - k * limit) ?_
  rw [page, List.getElem?_take, if_pos (by omega), List.getElem?_drop, Nat.add_sub_cancel' hlow, h]

theorem exists_swapped (hle : TotalPreorder le) (h : Arranges le rows L) {i : ℕ}
    (hlen : i + 1 < L.length) (hcut : CutsTie le rows (i + 1)) :
    ∃ L', Arranges le rows L' ∧ L'[i + 1]? = some L[i] := by
  have htie := tie_of_cutsTie hle h hlen hcut
  have hL : L = L.take i ++ L[i] :: L[i + 1] :: L.drop (i + 2) := by
    rw [← List.drop_eq_getElem_cons hlen, ← List.drop_eq_getElem_cons, List.take_append_drop]
  refine ⟨_, Arranges.swap (hL ▸ h) htie, ?_⟩
  have htake : (L.take i).length = i := by
    rw [List.length_take]
    omega
  rw [List.getElem?_append_right (by omega), htake, Nat.add_sub_cancel_left]
  rfl

omit [DecidableRel le] in
theorem not_perm_of_common (hnodup : rows.Nodup) {Ls : ℕ → List α} {a : α} {j p : ℕ} (hjk : j < k)
    (hkp : k < p) (hj : a ∈ page limit j (Ls j)) (hk : a ∈ page limit k (Ls k)) :
    ¬ ((List.range p).flatMap fun k => page limit k (Ls k)).Perm rows := by
  intro hperm
  have hdisjoint := List.pairwise_iff_getElem.mp
    (List.nodup_flatMap.mp (hperm.nodup_iff.mpr hnodup)).2 j k
    (by rw [List.length_range]; omega) (by rwa [List.length_range]) hjk
  rw [List.getElem_range, List.getElem_range] at hdisjoint
  exact hdisjoint hj hk

/-- **Two pages may have a row in common** if a page ends between two rows that compare equal. -/
theorem exists_not_perm (hle : TotalPreorder le) (h : Arranges le rows L) (hnodup : rows.Nodup)
    (hcut : CutsTie le rows (k * limit)) {p : ℕ} (hp : rows.length ≤ p * limit) :
    ∃ Ls : ℕ → List α, (∀ k, Arranges le rows (Ls k)) ∧
      ¬ ((List.range p).flatMap fun k => page limit k (Ls k)).Perm rows := by
  obtain ⟨i, hi⟩ : ∃ i, k * limit = i + 1 := by
    obtain ⟨r, -, hlow, -⟩ := hcut
    exact Nat.exists_eq_succ_of_ne_zero (by omega)
  have hlen : i + 1 < L.length := by
    obtain ⟨r, -, -, hhigh⟩ := hcut
    rw [hi] at hhigh
    rw [h.1.length_eq]
    exact Nat.lt_of_lt_of_le hhigh List.countP_le_length
  have hpos : 0 < limit := Nat.pos_of_ne_zero fun h0 => by simp [h0] at hi
  obtain ⟨j, rfl⟩ : ∃ j, k = j + 1 :=
    Nat.exists_eq_succ_of_ne_zero fun h0 => by simp [h0] at hi
  have hjp : j + 1 < p := by
    have hlt : (j + 1) * limit < p * limit := by
      rw [hi]
      exact Nat.lt_of_lt_of_le (h.1.length_eq ▸ hlen) hp
    exact Nat.lt_of_mul_lt_mul_right hlt
  -- the last row of one page is the first of the next in a list with the two exchanged
  obtain ⟨L', harranges, hfirst⟩ := exists_swapped hle h hlen (hi ▸ hcut)
  refine ⟨fun k => if k = j + 1 then L' else L, fun k => ?_,
    not_perm_of_common (a := L[i]) hnodup (Nat.lt_succ_self j) hjp ?_ ?_⟩
  · dsimp only
    split_ifs
    · exact harranges
    · exact h
  · have hne : j ≠ j + 1 := by omega
    rw [Nat.succ_mul] at hi
    simp only [if_neg hne]
    exact mem_page (List.getElem?_eq_getElem (by omega)) (by omega) (by omega)
  · simp only [if_true]
    have hlast : i + 1 < (j + 1) * limit + limit := by omega
    exact mem_page hfirst (Nat.le_of_eq hi) hlast

end Paging

import Mathlib.Data.Fin.Basic
import Mathlib.Order.Basic
import Mathlib.Data.Nat.Notation

set_option autoImplicit false

/-!
# Binary heaps

A heap lies in a vector, level by level, and `before` says which of two entries goes further up.

* `bubbleUp`, `sinkDown`: an entry moves to its place by swaps;
* `IsChild`, **`Ordered`**: no entry is below one that it goes before; the entries are compared by
  `key`, and `before` is assumed to say the same;
* `UpReady`, `DownReady`: the order is broken at one position, and the neighbours of this position
  are in order with each other; `UpReady.swap`, `DownReady.swap`: a swap moves the break on;
* **`ordered_bubbleUp`**, **`ordered_sinkDown`**, `bubbleUp_perm`, `sinkDown_perm`;
* **`Ordered.root_le`**, `ordered_push`, `ordered_replace`: what the operations of a priority queue
  rely on.
-/

namespace Heap

variable {α κ : Type} {n : ℕ}

/-! ## The loops -/

/-- The position above `idx`. -/
def parent (idx : Fin n) : Fin n := ⟨(idx - 1) / 2, by omega⟩

theorem parent_lt {idx : Fin n} (h : 0 < idx.val) : (parent idx).val < idx.val := by
  simp only [parent]
  omega

section Loops

variable (before : α → α → Bool)

/-- The entry at `idx` moves up as long as it goes before its parent. -/
def bubbleUp (heap : Vector α n) (idx : Fin n) : Vector α n :=
  if h : 0 < idx.val then
    if before heap[idx] heap[parent idx] then bubbleUp (heap.swap idx (parent idx)) (parent idx)
    else heap
  else heap
termination_by idx.val
decreasing_by exact parent_lt h

/-- `child`, if there is such a position and its entry goes before that at `smallest`. -/
def smaller (heap : Vector α n) (smallest : Fin n) (child : ℕ) : Fin n :=
  if h : child < n then if before heap[child] heap[smallest] then ⟨child, h⟩ else smallest
  else smallest

/-- Where the first of the entries at `idx` and below it is. -/
def smallest (heap : Vector α n) (idx : Fin n) : Fin n :=
  smaller before heap (smaller before heap idx (2 * idx + 1)) (2 * idx + 2)

theorem smaller_eq (heap : Vector α n) (i : Fin n) (child : ℕ) :
    smaller before heap i child = i ∨ (smaller before heap i child).val = child := by
  unfold smaller
  split_ifs
  · exact .inr rfl
  · exact .inl rfl
  · exact .inl rfl

theorem smallest_val {heap : Vector α n} {idx : Fin n} (h : smallest before heap idx ≠ idx) :
    (smallest before heap idx).val = 2 * idx + 1 ∨
      (smallest before heap idx).val = 2 * idx + 2 := by
  unfold smallest at h ⊢
  rcases smaller_eq before heap (smaller before heap idx (2 * idx + 1)) (2 * idx + 2) with hr | hr
  · rw [hr] at h ⊢
    exact .inl ((smaller_eq before heap idx (2 * idx + 1)).resolve_left h)
  · exact .inr hr

/-- The entry at `idx` moves down as long as one below it goes before it. -/
def sinkDown (heap : Vector α n) (idx : Fin n) : Vector α n :=
  if h : smallest before heap idx ≠ idx then
    sinkDown (heap.swap idx (smallest before heap idx)) (smallest before heap idx)
  else heap
termination_by n - idx.val
decreasing_by
  have := smallest_val before h
  omega

theorem bubbleUp_perm (heap : Vector α n) (idx : Fin n) :
    (bubbleUp before heap idx).Perm heap := by
  induction heap, idx using bubbleUp.induct before with
  | case1 heap idx h hb ih =>
      rw [bubbleUp, dif_pos h, if_pos hb]
      exact ih.trans (Vector.swap_perm idx.isLt (parent idx).isLt)
  | case2 heap idx h hb =>
      rw [bubbleUp, dif_pos h, if_neg hb]
  | case3 heap idx h =>
      rw [bubbleUp, dif_neg h]

theorem sinkDown_perm (heap : Vector α n) (idx : Fin n) :
    (sinkDown before heap idx).Perm heap := by
  induction heap, idx using sinkDown.induct before with
  | case1 heap idx h ih =>
      rw [sinkDown, dif_pos h]
      exact ih.trans (Vector.swap_perm idx.isLt (Fin.isLt _))
  | case2 heap idx h =>
      rw [sinkDown, dif_neg h]

end Loops

/-! ## The order -/

/-- The position `c` is right below the position `p`. -/
def IsChild (c p : Fin n) : Prop := 0 < c.val ∧ parent c = p

namespace IsChild

variable {c p : Fin n}

theorem lt (h : IsChild c p) : p.val < c.val := h.2 ▸ parent_lt h.1

theorem ne (h : IsChild c p) : c ≠ p := fun heq => absurd (congrArg Fin.val heq) h.lt.ne'

theorem val_eq (h : IsChild c p) : c.val = 2 * p + 1 ∨ c.val = 2 * p + 2 := by
  obtain ⟨hpos, rfl⟩ := h
  simp only [parent]
  omega

theorem of_val (h : c.val = 2 * p + 1 ∨ c.val = 2 * p + 2) : IsChild c p := by
  refine ⟨by omega, Fin.ext ?_⟩
  simp only [parent]
  omega

end IsChild

theorem swap_get (heap : Vector α n) (i j k : Fin n) :
    (heap.swap i j)[k] = if k = i then heap[j] else if k = j then heap[i] else heap[k] := by
  simp only [Fin.getElem_fin, Vector.getElem_swap, Fin.ext_iff]

section Order

variable [LinearOrder κ] (key : α → κ)

def Ordered (heap : Vector α n) : Prop :=
  ∀ c p : Fin n, IsChild c p → key heap[p] ≤ key heap[c]

/-- The positions above and below `i` are in order. -/
def Around (heap : Vector α n) (i : Fin n) : Prop :=
  ∀ c p : Fin n, IsChild c i → IsChild i p → key heap[p] ≤ key heap[c]

/-- **Only the entry at `i` may have to go up.** -/
structure UpReady (heap : Vector α n) (i : Fin n) : Prop where
  except : ∀ c p : Fin n, IsChild c p → c ≠ i → key heap[p] ≤ key heap[c]
  around : Around key heap i

/-- **Only the entry at `i` may have to go down.** -/
structure DownReady (heap : Vector α n) (i : Fin n) : Prop where
  except : ∀ c p : Fin n, IsChild c p → p ≠ i → key heap[p] ≤ key heap[c]
  around : Around key heap i

variable {key} {heap : Vector α n} {i p : Fin n}

theorem Ordered.root_le (h : Ordered key heap) (hn : 0 < n) (i : Fin n) :
    key heap[0] ≤ key heap[i] := by
  obtain ⟨k, hk⟩ := i
  induction k using Nat.strong_induction_on with
  | _ k ih =>
      rcases Nat.eq_zero_or_pos k with rfl | hpos
      · exact le_rfl
      · have hchild : IsChild (⟨k, hk⟩ : Fin n) (parent ⟨k, hk⟩) := ⟨hpos, rfl⟩
        exact (ih _ (parent_lt hpos) _).trans (h _ _ hchild)

/-- **A swap with the parent** moves the break up. -/
theorem UpReady.swap (h : UpReady key heap i) (hip : IsChild i p)
    (hlt : key heap[i] < key heap[p]) : UpReady key (heap.swap i p) p where
  except c q hcq hcp := by
    rw [swap_get, swap_get]
    rw [if_neg hcp]
    rcases eq_or_ne c i with rfl | hci
    · obtain rfl : p = q := hip.2.symm.trans hcq.2
      rw [if_neg hip.ne.symm, if_pos rfl, if_pos rfl]
      exact hlt.le
    · rw [if_neg hci]
      rcases eq_or_ne q i with rfl | hqi
      · rw [if_pos rfl]
        exact h.around c p hcq hip
      · rw [if_neg hqi]
        split_ifs with hqp
        · exact hlt.le.trans (hqp ▸ h.except c q hcq hci)
        · exact h.except c q hcq hci
  around c q hcp hpq := by
    have hgrand : key heap[q] ≤ key heap[p] := h.except p q hpq hip.ne.symm
    have hqi : q ≠ i := fun heq => by have := hpq.lt; have := hip.lt; subst heq; omega
    rw [swap_get, swap_get, if_neg hqi, if_neg hpq.ne.symm, if_neg hcp.ne]
    split_ifs with hci
    · exact hgrand
    · exact hgrand.trans (h.except c p hcp hci)

theorem UpReady.finish (h : UpReady key heap i)
    (hle : ∀ p, IsChild i p → key heap[p] ≤ key heap[i]) : Ordered key heap := by
  intro c p hcp
  rcases eq_or_ne c i with rfl | hci
  · exact hle p hcp
  · exact h.except c p hcp hci

/-- **A swap with the first child** moves the break down. -/
theorem DownReady.swap (h : DownReady key heap i) {s : Fin n} (hsi : IsChild s i)
    (hlt : key heap[s] < key heap[i]) (hle : ∀ c, IsChild c i → key heap[s] ≤ key heap[c]) :
    DownReady key (heap.swap i s) s where
  except c q hcq hqs := by
    rw [swap_get, swap_get]
    rcases eq_or_ne q i with rfl | hqi
    · rw [if_pos rfl, if_neg hcq.ne]
      split_ifs
      · exact hlt.le
      · exact hle c hcq
    · rw [if_neg hqi, if_neg hqs]
      split_ifs with hci hcs
      · exact h.around s q hsi (hci ▸ hcq)
      · exact absurd ((hcs ▸ hcq.2).symm.trans hsi.2) hqi
      · exact h.except c q hcq hqi
  around c q hcs hsq := by
    obtain rfl : i = q := hsi.2.symm.trans hsq.2
    have hci : c ≠ i := fun heq => by have := hcs.lt; have := hsi.lt; subst heq; omega
    rw [swap_get, swap_get, if_pos rfl, if_neg hci, if_neg hcs.ne]
    exact h.except c s hcs hsi.ne

theorem DownReady.finish (h : DownReady key heap i)
    (hle : ∀ c, IsChild c i → key heap[i] ≤ key heap[c]) : Ordered key heap := by
  intro c p hcp
  rcases eq_or_ne p i with rfl | hpi
  · exact hle c hcp
  · exact h.except c p hcp hpi

end Order

/-! ## The loops restore the order -/

section Sift

variable [LinearOrder κ] {key : α → κ} {before : α → α → Bool} {heap : Vector α n} {i : Fin n}

/-- **`bubbleUp`** restores the order. -/
theorem ordered_bubbleUp (hkey : ∀ a b, before a b = true ↔ key a < key b)
    (h : UpReady key heap i) : Ordered key (bubbleUp before heap i) := by
  induction heap, i using bubbleUp.induct before with
  | case1 heap i hpos hb ih =>
      rw [bubbleUp, dif_pos hpos, if_pos hb]
      exact ih (h.swap ⟨hpos, rfl⟩ ((hkey _ _).mp hb))
  | case2 heap i hpos hb =>
      rw [bubbleUp, dif_pos hpos, if_neg hb]
      exact h.finish fun p hip => hip.2 ▸ not_lt.mp (mt (hkey _ _).mpr hb)
  | case3 heap i hpos =>
      rw [bubbleUp, dif_neg hpos]
      exact h.finish fun p hip => absurd hip.1 hpos

theorem smaller_le (hkey : ∀ a b, before a b = true ↔ key a < key b) (heap : Vector α n)
    (i : Fin n) (child : ℕ) :
    (smaller before heap i child = i ∨ key heap[smaller before heap i child] < key heap[i]) ∧
      ∀ c : Fin n, c.val = child → key heap[smaller before heap i child] ≤ key heap[c] := by
  unfold smaller
  split_ifs with hlt hb
  · refine ⟨.inr ((hkey _ _).mp hb), fun c hc => ?_⟩
    obtain rfl : c = ⟨child, hlt⟩ := Fin.ext hc
    exact le_rfl
  · refine ⟨.inl rfl, fun c hc => ?_⟩
    obtain rfl : c = ⟨child, hlt⟩ := Fin.ext hc
    exact not_lt.mp (mt (hkey _ _).mpr hb)
  · exact ⟨.inl rfl, fun c hc => absurd (hc ▸ c.isLt) hlt⟩

theorem smallest_le (hkey : ∀ a b, before a b = true ↔ key a < key b) (heap : Vector α n)
    (i : Fin n) :
    (smallest before heap i = i ∨ key heap[smallest before heap i] < key heap[i]) ∧
      ∀ c : Fin n, IsChild c i → key heap[smallest before heap i] ≤ key heap[c] := by
  obtain ⟨hl, hleft⟩ := smaller_le hkey heap i (2 * i + 1)
  obtain ⟨hr, hright⟩ := smaller_le hkey heap (smaller before heap i (2 * i + 1)) (2 * i + 2)
  have hle : key heap[smallest before heap i] ≤ key heap[smaller before heap i (2 * i + 1)] :=
    hr.elim (fun heq => (congrArg (fun k : Fin n => key heap[k]) heq).le) le_of_lt
  constructor
  · rcases hl with hl | hl
    · exact hr.imp (fun heq => heq.trans hl) fun hlt =>
        hlt.trans_eq (congrArg (fun k : Fin n => key heap[k]) hl)
    · exact .inr (hle.trans_lt hl)
  · intro c hc
    rcases hc.val_eq with hval | hval
    · exact hle.trans (hleft c hval)
    · exact hright c hval

/-- **`sinkDown`** restores the order. -/
theorem ordered_sinkDown (hkey : ∀ a b, before a b = true ↔ key a < key b)
    (h : DownReady key heap i) : Ordered key (sinkDown before heap i) := by
  induction heap, i using sinkDown.induct before with
  | case1 heap i hne ih =>
      obtain ⟨hlt, hle⟩ := smallest_le hkey heap i
      rw [sinkDown, dif_pos hne]
      exact ih (h.swap (.of_val (smallest_val before hne)) (hlt.resolve_left hne) hle)
  | case2 heap i heq =>
      rw [sinkDown, dif_neg heq]
      rw [not_not] at heq
      refine h.finish fun c hc => ?_
      have hle := (smallest_le hkey heap i).2 c hc
      simp only [heq] at hle
      exact hle

/-- **An entry is put behind** the others and moves up. -/
theorem ordered_push (hkey : ∀ a b, before a b = true ↔ key a < key b) (h : Ordered key heap)
    (x : α) : Ordered key (bubbleUp before (heap.push x) (Fin.last n)) := by
  refine ordered_bubbleUp hkey ⟨fun c p hcp hc => ?_, fun c p hc => ?_⟩
  · have hcn : c.val < n := Fin.val_lt_last hc
    have hpn : p.val < n := hcp.lt.trans hcn
    have hold := h ⟨c, hcn⟩ ⟨p, hpn⟩ (.of_val hcp.val_eq)
    simp only [Fin.getElem_fin, Vector.getElem_push_lt hcn, Vector.getElem_push_lt hpn]
    exact hold
  · exact absurd hc.lt (not_lt.mpr (Fin.le_last c))

/-- **The last entry takes the place of the root** and moves down. -/
theorem ordered_replace {heap : Vector α (n + 1)} (hkey : ∀ a b, before a b = true ↔ key a < key b)
    (h : Ordered key heap) (hn : 0 < n) (x : α) :
    Ordered key (sinkDown before (heap.pop.set 0 x) ⟨0, hn⟩) := by
  refine ordered_sinkDown hkey ⟨fun c p hcp hp => ?_, fun c p _ hp => absurd hp.1 (lt_irrefl 0)⟩
  have hp0 : 0 ≠ p.val := fun heq => hp (Fin.ext heq.symm)
  have hc0 : 0 ≠ c.val := hcp.1.ne
  have hold := h c.castSucc p.castSucc (.of_val hcp.val_eq)
  simp only [Fin.getElem_fin, Vector.getElem_set_ne _ _ hp0, Vector.getElem_set_ne _ _ hc0,
    Vector.getElem_pop]
  exact hold

end Sift

end Heap

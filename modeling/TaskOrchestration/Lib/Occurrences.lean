import Mathlib.Data.List.Nodup

set_option autoImplicit false

/-!
# First occurrences

A batch that handles each key once splits its list: into the first occurrences of the keys that it
can handle, and into all other occurrences.

* `pick`: the elements at chosen places; `firsts`, `others`: the two parts;
* `firsts_cons_of_pos`, `firsts_cons_of_neg`, `others_cons_of_pos`, `others_cons_of_neg`: their
  recursion, where a key that was handled cannot be handled again;
* **`mem_map_firsts`**, **`nodup_map_firsts`**.
-/

namespace Occurrences

variable {α κ : Type}

/-- The elements of a list at the places that `q` chooses. -/
def pick (q : α × ℕ → Bool) (l : List α) : List α := (l.zipIdx.filter q).map Prod.fst

theorem pick_cons (q : α × ℕ → Bool) (a : α) (l : List α) :
    pick q (a :: l) =
      if q (a, 0) = true then a :: pick (fun o => q (o.1, o.2 + 1)) l
      else pick (fun o => q (o.1, o.2 + 1)) l := by
  have htail : ((l.zipIdx 1).filter q).map Prod.fst = pick (fun o => q (o.1, o.2 + 1)) l := by
    rw [List.zipIdx_succ, List.filter_map, List.map_map]
    rfl
  rw [pick, List.zipIdx_cons, Nat.zero_add, List.filter_cons]
  split_ifs with h
  · rw [List.map_cons, htail]
  · exact htail

variable [DecidableEq κ] (key : α → κ)

/-- Is this occurrence the first one of a key that satisfies `p`? -/
def isFirst (p : κ → Bool) (l : List α) (o : α × ℕ) : Bool :=
  p (key o.1) && decide (key o.1 ∉ (l.take o.2).map key)

/-- The first occurrences of the keys that satisfy `p`. -/
def firsts (p : κ → Bool) (l : List α) : List α := pick (isFirst key p l) l

def others (p : κ → Bool) (l : List α) : List α := pick (fun o => !isFirst key p l o) l

theorem isFirst_cons_zero (p : κ → Bool) (a : α) (l : List α) :
    isFirst key p (a :: l) (a, 0) = p (key a) := by
  simp [isFirst]

theorem isFirst_cons_succ (p : κ → Bool) (a : α) (l : List α) (o : α × ℕ) :
    isFirst key p (a :: l) (o.1, o.2 + 1) =
      isFirst key (fun k => p k && decide (k ≠ key a)) l o := by
  simp only [isFirst, List.take_succ_cons, List.map_cons, List.mem_cons, not_or, Bool.decide_and,
    Bool.and_assoc, ne_eq]

theorem and_ne_of_neg {p : κ → Bool} {k : κ} (h : p k = false) :
    (fun k' => p k' && decide (k' ≠ k)) = p := by
  funext k'
  by_cases hk : k' = k
  · subst hk
    simp [h]
  · simp [hk]

variable {key} {p : κ → Bool} {a : α}

theorem firsts_cons_of_pos (h : p (key a) = true) (l : List α) :
    firsts key p (a :: l) = a :: firsts key (fun k => p k && decide (k ≠ key a)) l := by
  simp only [firsts, pick_cons, isFirst_cons_zero, isFirst_cons_succ, h, if_true]

theorem firsts_cons_of_neg (h : p (key a) = false) (l : List α) :
    firsts key p (a :: l) = firsts key p l := by
  simp only [firsts, pick_cons, isFirst_cons_zero, isFirst_cons_succ, h, and_ne_of_neg h,
    Bool.false_eq_true, if_false]

theorem others_cons_of_pos (h : p (key a) = true) (l : List α) :
    others key p (a :: l) = others key (fun k => p k && decide (k ≠ key a)) l := by
  simp only [others, pick_cons, isFirst_cons_zero, isFirst_cons_succ, h, Bool.not_true,
    Bool.false_eq_true, if_false]

theorem others_cons_of_neg (h : p (key a) = false) (l : List α) :
    others key p (a :: l) = a :: others key p l := by
  simp only [others, pick_cons, isFirst_cons_zero, isFirst_cons_succ, h, and_ne_of_neg h,
    Bool.not_false, if_true]

/-- **Every key** of the list that satisfies `p` has a first occurrence. -/
theorem mem_map_firsts {l : List α} {k : κ} :
    k ∈ (firsts key p l).map key ↔ k ∈ l.map key ∧ p k = true := by
  induction l generalizing p with
  | nil => simp [firsts, pick]
  | cons a l ih =>
      cases h : p (key a) with
      | true =>
          rw [firsts_cons_of_pos h, List.map_cons, List.mem_cons, ih, List.map_cons, List.mem_cons,
            Bool.and_eq_true, decide_eq_true_eq]
          by_cases hk : k = key a
          · subst hk
            simp [h]
          · simp [hk]
      | false =>
          rw [firsts_cons_of_neg h, ih, List.map_cons, List.mem_cons]
          constructor
          · rintro ⟨hk, hp⟩
            exact ⟨.inr hk, hp⟩
          · rintro ⟨rfl | hk, hp⟩
            · rw [h] at hp
              cases hp
            · exact ⟨hk, hp⟩

theorem nodup_map_firsts (p : κ → Bool) (l : List α) : ((firsts key p l).map key).Nodup := by
  induction l generalizing p with
  | nil => exact List.nodup_nil
  | cons a l ih =>
      cases h : p (key a) with
      | true =>
          rw [firsts_cons_of_pos h, List.map_cons]
          refine List.nodup_cons.mpr ⟨fun ha => ?_, ih _⟩
          have hne := (mem_map_firsts.mp ha).2
          simp at hne
      | false =>
          rw [firsts_cons_of_neg h]
          exact ih p

end Occurrences

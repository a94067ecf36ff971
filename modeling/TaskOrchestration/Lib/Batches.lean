import Mathlib.Data.List.Sort

set_option autoImplicit false

/-!
# Serving a backlog in batches

A backlog is served in batches: each batch takes the first elements, in a given order, of what is
left. What has been served is then sorted, and nothing that is left comes before it.

* `batch`, `leftover`: one batch, and what it leaves;
* `Served`: what has been served of a backlog, and what is left;
* **`Served.next`**: one more batch; `Served.sorted`: served first, the backlog is in order.
-/

namespace Batches

variable {α : Type} (r : α → α → Prop)

/-- **What has been served**: it is sorted, and it is the first part of the backlog. -/
structure Served (backlog served left : List α) : Prop where
  perm : (served ++ left).Perm backlog
  sorted : served.Pairwise r
  first : ∀ a ∈ served, ∀ b ∈ left, r a b

theorem Served.nil (l : List α) : Served r l [] l where
  perm := .refl _
  sorted := .nil
  first := fun _ ha => absurd ha List.not_mem_nil

variable [DecidableRel r]

def batch (limit : ℕ) (l : List α) : List α := (l.insertionSort r).take limit

/-- What is left, in order. -/
def leftover (limit : ℕ) (l : List α) : List α := (l.insertionSort r).drop limit

theorem batch_append_leftover_perm (limit : ℕ) (l : List α) :
    (batch r limit l ++ leftover r limit l).Perm l := by
  unfold batch leftover
  rw [List.take_append_drop]
  exact List.perm_insertionSort r l

theorem length_batch (limit : ℕ) (l : List α) : (batch r limit l).length = min limit l.length := by
  rw [batch, List.length_take, List.length_insertionSort]

variable {r} [Std.Total r] [IsTrans α r] {backlog served left left' : List α}

theorem batch_sorted (limit : ℕ) (l : List α) :
    (batch r limit l).Pairwise r ∧ ∀ a ∈ batch r limit l, ∀ b ∈ leftover r limit l, r a b := by
  have hsorted := List.pairwise_insertionSort r l
  rw [← List.take_append_drop limit (l.insertionSort r), List.pairwise_append] at hsorted
  exact ⟨hsorted.1, hsorted.2.2⟩

theorem Served.next (h : Served r backlog served left) (limit : ℕ)
    (hleft : left'.Perm (leftover r limit left)) :
    Served r backlog (served ++ batch r limit left) left' := by
  have hperm := batch_append_leftover_perm r limit left
  obtain ⟨hsorted, hfirst⟩ := batch_sorted (r := r) limit left
  have hmem : ∀ a ∈ batch r limit left, a ∈ left := fun a ha =>
    hperm.mem_iff.mp (List.mem_append_left _ ha)
  refine ⟨?_, ?_, ?_⟩
  · rw [List.append_assoc]
    exact ((hleft.append_left _).trans hperm).append_left served |>.trans h.perm
  · refine List.pairwise_append.mpr ⟨h.sorted, hsorted, fun a ha b hb => ?_⟩
    exact h.first a ha b (hmem b hb)
  · intro a ha b hb
    have hb' : b ∈ leftover r limit left := hleft.mem_iff.mp hb
    rcases List.mem_append.mp ha with ha | ha
    · exact h.first a ha b (hperm.mem_iff.mp (List.mem_append_right _ hb'))
    · exact hfirst a ha b hb'

end Batches

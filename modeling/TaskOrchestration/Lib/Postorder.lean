import Mathlib.Data.List.Nodup
import TaskOrchestration.Lib.Search

set_option autoImplicit false

/-!
# Depth-first search in postorder

The search marks a vertex when it comes to it, goes on to its successors, and lists the vertex when
it leaves it. It asks about no cycle: a marked vertex is not searched again, listed or not.

* `visit`, `postorder`: the search from one vertex, and from the vertices of a list;
* `Invariant`: the marked vertices are those that are listed and those that the search is in;
  `Visits`, `visits_foldlM`, **`visits_visit`**: what a search comes to;
* **`postorder_spec`**: it lists what can be reached, each vertex once, and without a reachable
  cycle each after its successors.
-/

namespace CycleSearch

open Relation

variable {α : Type}

/-- The vertices that are marked, and those that are listed. -/
structure Progress (α : Type) where
  visited : List α
  sorted : List α
  deriving DecidableEq, Repr

/-- **The search from a vertex**; `none` if there is no fuel left. -/
def visit [DecidableEq α] (succ : α → List α) : ℕ → Progress α → α → Option (Progress α)
  | 0, _, _ => none
  | fuel + 1, s, v =>
      if v ∈ s.visited then some s
      else ((succ v).foldlM (visit succ fuel) { s with visited := v :: s.visited }).map
        fun s' => { s' with sorted := s'.sorted ++ [v] }

/-- The list after the search from the vertices of a list. -/
def postorder [DecidableEq α] (succ : α → List α) (fuel : ℕ) (vs : List α) : Option (List α) :=
  (vs.foldlM (visit succ fuel) ⟨[], []⟩).map (·.sorted)

def SuccessorsFirst (succ : α → List α) (l : List α) : Prop :=
  ∀ pre x post, l = pre ++ x :: post → ∀ y ∈ succ x, y ∈ pre

variable {succ : α → List α} {vertices stack vs : List α} {s s' s'' : Progress α} {v : α} {fuel : ℕ}

theorem successorsFirst_nil (succ : α → List α) : SuccessorsFirst succ [] :=
  fun pre x post h => by simp at h

theorem SuccessorsFirst.snoc {l : List α} (h : SuccessorsFirst succ l)
    (hv : ∀ y ∈ succ v, y ∈ l) : SuccessorsFirst succ (l ++ [v]) := by
  intro pre x post heq y hy
  rcases List.eq_nil_or_concat post with rfl | ⟨post, z, rfl⟩
  · obtain ⟨rfl, hx⟩ := List.append_inj' heq rfl
    exact hv y (List.singleton_inj.mp hx ▸ hy)
  · rw [List.concat_eq_append, ← List.cons_append, ← List.append_assoc] at heq
    exact h pre x post (List.append_inj' heq rfl).1 y hy

/-- **The invariant** of a search that is in the vertices of `stack`. -/
structure Invariant (succ : α → List α) (stack : List α) (s : Progress α) : Prop where
  visited : ∀ x, x ∈ s.visited ↔ x ∈ stack ∨ x ∈ s.sorted
  apart : ∀ x ∈ stack, x ∉ s.sorted
  nodup : s.sorted.Nodup
  closed : ∀ x ∈ s.sorted, ∀ y ∈ succ x, y ∈ s.visited

theorem invariant_init (succ : α → List α) : Invariant succ [] ⟨[], []⟩ :=
  ⟨by simp, by simp, List.nodup_nil, by simp⟩

theorem Invariant.enter (h : Invariant succ stack s) (hv : v ∉ s.visited) :
    Invariant succ (v :: stack) { s with visited := v :: s.visited } := by
  have hsorted : v ∉ s.sorted := fun hmem => hv ((h.visited v).mpr (.inr hmem))
  refine ⟨fun x => ?_, List.forall_mem_cons.mpr ⟨hsorted, h.apart⟩, h.nodup, fun x hx y hy => ?_⟩
  · rw [List.mem_cons, List.mem_cons, h.visited, or_assoc]
  · exact List.mem_cons_of_mem v (h.closed x hx y hy)

theorem Invariant.leave (h : Invariant succ (v :: stack) s) (hv : v ∉ stack)
    (hsucc : ∀ y ∈ succ v, y ∈ s.visited) :
    Invariant succ stack { s with sorted := s.sorted ++ [v] } := by
  refine ⟨fun x => ?_, fun x hx hmem => ?_, ?_, fun x hx => ?_⟩
  · rw [h.visited, List.mem_cons, List.mem_append, List.mem_singleton, or_assoc, or_comm, or_assoc]
  · rcases List.mem_append.mp hmem with hmem | hmem
    · exact h.apart x (List.mem_cons_of_mem v hx) hmem
    · exact hv (List.mem_singleton.mp hmem ▸ hx)
  · exact List.Nodup.append h.nodup (List.nodup_singleton v)
      (List.disjoint_singleton.mpr (h.apart v List.mem_cons_self))
  · rcases List.mem_append.mp hx with hx | hx
    · exact h.closed x hx
    · obtain rfl := List.mem_singleton.mp hx
      exact hsucc

/-- **What a search of the vertices `vs` comes to.** They are marked, what it has listed can be
reached from one of them, and if no cycle can, each vertex is listed after its successors. -/
structure Visits (succ : α → List α) (stack : List α) (s : Progress α) (vs : List α)
    (s' : Progress α) : Prop where
  invariant : Invariant succ stack s'
  keeps : s.visited ⊆ s'.visited
  marks : ∀ v ∈ vs, v ∈ s'.visited
  lists : ∀ x ∈ s'.sorted, x ∈ s.sorted ∨ ∃ v ∈ vs, ReflTransGen (Edge succ) v x
  orders : (∀ v ∈ vs, ¬ ReachesCycle (Edge succ) v) → SuccessorsFirst succ s.sorted →
    SuccessorsFirst succ s'.sorted

theorem Visits.nil (h : Invariant succ stack s) : Visits succ stack s [] s :=
  ⟨h, List.Subset.refl _, by simp, fun _ hx => .inl hx, fun _ => id⟩

theorem Visits.cons (h : Visits succ stack s [v] s') (h' : Visits succ stack s' vs s'') :
    Visits succ stack s (v :: vs) s'' := by
  refine ⟨h'.invariant, List.Subset.trans h.keeps h'.keeps, ?_, fun x hx => ?_, fun hc ho => ?_⟩
  · exact List.forall_mem_cons.mpr
      ⟨h'.keeps (h.marks v (List.mem_singleton_self v)), h'.marks⟩
  · rcases h'.lists x hx with hx | ⟨w, hw, hwx⟩
    · rcases h.lists x hx with hx | ⟨w, hw, hwx⟩
      · exact .inl hx
      · exact .inr ⟨w, List.mem_cons.mpr (.inl (List.mem_singleton.mp hw)), hwx⟩
    · exact .inr ⟨w, List.mem_cons_of_mem v hw, hwx⟩
  · rw [List.forall_mem_cons] at hc
    exact h'.orders hc.2 (h.orders (List.forall_mem_singleton.mpr hc.1) ho)

/-- **The loop**: each turn visits its vertex. -/
theorem visits_foldlM {f : Progress α → α → Option (Progress α)}
    (hf : ∀ v ∈ vs, ∀ s, Invariant succ stack s →
      ∃ s', f s v = some s' ∧ Visits succ stack s [v] s')
    (hs : Invariant succ stack s) : ∃ s', vs.foldlM f s = some s' ∧ Visits succ stack s vs s' := by
  induction vs generalizing s with
  | nil => exact ⟨s, rfl, .nil hs⟩
  | cons v vs ih =>
      obtain ⟨s₁, hr, hv⟩ := hf v List.mem_cons_self s hs
      obtain ⟨s₂, hr', hvs⟩ := ih (fun w hw => hf w (List.mem_cons_of_mem v hw)) hv.invariant
      refine ⟨s₂, ?_, hv.cons hvs⟩
      rw [List.foldlM_cons, hr]
      exact hr'

/-- A vertex whose successors have been visited is left. A successor that is marked and not listed
would be one that the search is in, and close a cycle. -/
theorem Visits.leave (h : Visits succ (v :: stack) { s with visited := v :: s.visited } (succ v) s')
    (hv : v ∉ stack) (hstack : ∀ x ∈ stack, TransGen (Edge succ) x v) :
    Visits succ stack s [v] { s' with sorted := s'.sorted ++ [v] } := by
  refine ⟨h.invariant.leave hv h.marks, ?_, ?_, fun x hx => ?_, fun hc ho => ?_⟩
  · exact List.Subset.trans (List.subset_cons_self v s.visited) h.keeps
  · exact List.forall_mem_singleton.mpr (h.keeps List.mem_cons_self)
  · rcases List.mem_append.mp hx with hx | hx
    · rcases h.lists x hx with hx | ⟨w, hw, hwx⟩
      · exact .inl hx
      · exact .inr ⟨v, List.mem_singleton_self v, .head hw hwx⟩
    · exact .inr ⟨v, List.mem_singleton_self v, List.mem_singleton.mp hx ▸ .refl⟩
  · have hcv : ¬ ReachesCycle (Edge succ) v := hc v (List.mem_singleton_self v)
    refine (h.orders (fun w hw => ?_) ho).snoc fun y hy => ?_
    · rintro ⟨c, hwc, hcc⟩
      exact hcv ⟨c, .head hw hwc, hcc⟩
    · rcases (h.invariant.visited y).mp (h.marks y hy) with hin | hlisted
      · rcases List.mem_cons.mp hin with rfl | hin
        · exact absurd ⟨y, .refl, .single hy⟩ hcv
        · exact absurd ⟨v, .refl, .head hy (hstack y hin)⟩ hcv
      · exact hlisted

/-- **The search from a vertex.** A vertex with successors is one of `vertices`, so that the stack
has an end. -/
theorem visits_visit [DecidableEq α] (hvert : ∀ a, succ a ≠ [] → a ∈ vertices)
    (hs : Invariant succ stack s) (hstack : ∀ x ∈ stack, TransGen (Edge succ) x v)
    (hnodup : stack.Nodup) (hsub : stack ⊆ vertices)
    (hfuel : vertices.length < fuel + stack.length) :
    ∃ s', visit succ fuel s v = some s' ∧ Visits succ stack s [v] s' := by
  induction fuel generalizing s v stack with
  | zero =>
      have hle := (List.Nodup.subperm hnodup hsub).length_le
      omega
  | succ fuel ih =>
      rw [visit]
      split_ifs with hvis
      · have hmarks : ∀ w ∈ [v], w ∈ s.visited := List.forall_mem_singleton.mpr hvis
        exact ⟨s, rfl, hs, List.Subset.refl _, hmarks, fun _ hx => .inl hx, fun _ => id⟩
      · have hv : v ∉ stack := fun hin => hvis ((hs.visited v).mpr (.inl hin))
        -- the search goes on to the successors, in `v`
        obtain ⟨s', hr, hloop⟩ : ∃ s',
            (succ v).foldlM (visit succ fuel) { s with visited := v :: s.visited } = some s' ∧
              Visits succ (v :: stack) { s with visited := v :: s.visited } (succ v) s' := by
          refine visits_foldlM (fun w hw s₁ hs₁ => ih hs₁ ?_ ?_ ?_ ?_) (hs.enter hvis)
          · exact List.forall_mem_cons.mpr ⟨.single hw, fun x hx => (hstack x hx).tail hw⟩
          · exact List.nodup_cons.mpr ⟨hv, hnodup⟩
          · exact List.cons_subset.mpr ⟨hvert v (List.ne_nil_of_mem hw), hsub⟩
          · rw [List.length_cons]
            omega
        exact ⟨_, by rw [hr, Option.map_some], hloop.leave hv hstack⟩

/-- **The list of the search** comes to an end, whatever the graph. It has every vertex that can be
reached, once; and without a reachable cycle, each comes after its successors. -/
theorem postorder_spec [DecidableEq α] (hvert : ∀ a, succ a ≠ [] → a ∈ vertices) (vs : List α) :
    ∃ l, postorder succ (vertices.length + 1) vs = some l ∧ l.Nodup ∧
      (∀ x, x ∈ l ↔ ∃ v ∈ vs, ReflTransGen (Edge succ) v x) ∧
      ((∀ v ∈ vs, ¬ ReachesCycle (Edge succ) v) → SuccessorsFirst succ l) := by
  obtain ⟨s, hr, h⟩ : ∃ s, vs.foldlM (visit succ (vertices.length + 1)) ⟨[], []⟩ = some s ∧
      Visits succ [] ⟨[], []⟩ vs s := by
    refine visits_foldlM (fun v _ s hs => ?_) (invariant_init succ)
    exact visits_visit hvert hs (by simp) List.nodup_nil (by simp) (by simp)
  have hlisted : ∀ x, x ∈ s.visited → x ∈ s.sorted := fun x hx =>
    ((h.invariant.visited x).mp hx).resolve_left List.not_mem_nil
  refine ⟨s.sorted, ?_, h.invariant.nodup, fun x => ⟨fun hx => ?_, ?_⟩, fun hc => ?_⟩
  · rw [postorder, hr, Option.map_some]
  · exact (h.lists x hx).resolve_left List.not_mem_nil
  · rintro ⟨v, hv, hvx⟩
    induction hvx with
    | refl => exact hlisted v (h.marks v hv)
    | tail _ hxy ih => exact hlisted _ (h.invariant.closed _ ih _ hxy)
  · exact h.orders hc (successorsFirst_nil succ)

end CycleSearch

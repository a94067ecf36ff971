import Mathlib.Data.List.Chain
import Mathlib.Data.List.Perm.Subperm
import Mathlib.Logic.Relation

set_option autoImplicit false

/-!
# Depth-first search for a cycle

The graph is given by the successors of each vertex. The search keeps the visited vertices and
those on its stack, and stops when it meets one on the stack again.

* `dfs`, `dfsAll`: the search from one vertex, and from the vertices of a list;
* `Left`, `Settles`: a search that ends leaves only vertices from which every path ends, and one
  that stops has found a cycle; `settles_foldlM`, `settles_dfs`;
* **`dfsAll_stops_iff`**: the search stops exactly when a cycle is reachable;
* `ClosedWalk`, `Walks`, **`closedWalk_of_dfsAll`**: what it stops with is a closed walk.
-/

namespace CycleSearch

open Relation

variable {α : Type}

/-- A cycle is reachable from `v`. -/
def ReachesCycle (r : α → α → Prop) (v : α) : Prop := ∃ c, ReflTransGen r v c ∧ TransGen r c c

/-- **If every path from a vertex ends**, no cycle is reachable from it. -/
theorem not_reachesCycle_of_acc {r : α → α → Prop} {v : α} (h : Acc (flip r) v) :
    ¬ ReachesCycle r v := by
  induction h with
  | intro v _ ih =>
      rintro ⟨c, hvc, hcc⟩
      rcases ReflTransGen.cases_head hvc with rfl | ⟨w, hvw, hwc⟩
      · obtain ⟨w, hvw, hwv⟩ := TransGen.head'_iff.mp hcc
        exact ih w hvw ⟨v, hwv, hcc⟩
      · exact ih w hvw ⟨c, hwc, hcc⟩

/-- The vertices that the search has visited, and those on its stack. -/
structure State (α : Type) where
  visited : List α
  inStack : List α
  deriving DecidableEq, Repr

/-- Why a search stops: it has met a vertex again that is on its stack, or it has no fuel left. -/
inductive Stop (α : Type)
  | cycle (path : List α)
  | outOfFuel
  deriving DecidableEq, Repr

variable [DecidableEq α]

/-- **The search from a vertex**, which was reached along `path`. -/
def dfs (succ : α → List α) : ℕ → List α → State α → α → Except (Stop α) (State α)
  | 0, _, _, _ => .error .outOfFuel
  | fuel + 1, path, s, v =>
      if v ∈ s.inStack then .error (.cycle (path.drop (path.idxOf v) ++ [v]))
      else if v ∈ s.visited then .ok s
      else
        ((succ v).foldlM (dfs succ fuel (path ++ [v])) ⟨v :: s.visited, v :: s.inStack⟩).map
          fun s' => { s' with inStack := s'.inStack.erase v }

/-- The search from the vertices of a list that have not been visited. -/
def dfsAll (succ : α → List α) (fuel : ℕ) (vs : List α) : Except (Stop α) (State α) :=
  vs.foldlM (fun s v => if v ∈ s.visited then .ok s else dfs succ fuel [] s v) ⟨[], []⟩

def Edge (succ : α → List α) (a b : α) : Prop := b ∈ succ a

variable {succ : α → List α} {vertices : List α} {s : State α} {v : α} {path vs : List α} {fuel : ℕ}

/-- **The invariant**: from a vertex that the search has left, every path ends. -/
def Left (succ : α → List α) (s : State α) : Prop :=
  ∀ x ∈ s.visited, x ∉ s.inStack → Acc (flip (Edge succ)) x

omit [DecidableEq α] in
theorem Left.push (h : Left succ s) (v : α) : Left succ ⟨v :: s.visited, v :: s.inStack⟩ := by
  intro x hx hxs
  rw [List.mem_cons, not_or] at hxs
  exact h x ((List.mem_cons.mp hx).resolve_left hxs.1) hxs.2

theorem Left.pop {s' : State α} (h : Left succ s') (hst : s'.inStack = v :: s.inStack)
    (hv : Acc (flip (Edge succ)) v) : Left succ { s' with inStack := s.inStack } := by
  intro x hx hxs
  by_cases hxv : x = v
  · exact hxv ▸ hv
  · refine h x hx ?_
    rw [hst]
    exact List.not_mem_cons_of_ne_of_not_mem hxv hxs

/-- **What a search of the vertices `vs` comes to.** It ends with the stack it began with, and from
these vertices every path ends; or it stops, and a cycle is reachable from one of them. -/
structure Settles (succ : α → List α) (stack vs : List α) (r : Except (Stop α) (State α)) :
    Prop where
  ends : ∀ s, r = .ok s → s.inStack = stack ∧ Left succ s ∧ ∀ v ∈ vs, Acc (flip (Edge succ)) v
  stops : ∀ e, r = .error e → (∃ p, e = .cycle p) ∧ ∃ v ∈ vs, ReachesCycle (Edge succ) v

omit [DecidableEq α] in
/-- **The loop**: each turn settles its vertex. -/
theorem settles_foldlM {f : State α → α → Except (Stop α) (State α)} {stack : List α}
    (hf : ∀ v ∈ vs, ∀ s : State α, s.inStack = stack → Left succ s → Settles succ stack [v] (f s v))
    (hst : s.inStack = stack) (hleft : Left succ s) : Settles succ stack vs (vs.foldlM f s) := by
  induction vs generalizing s with
  | nil =>
      refine ⟨fun s' hs => ?_, nofun⟩
      obtain rfl := Except.ok.inj hs
      exact ⟨hst, hleft, fun v hv => absurd hv List.not_mem_nil⟩
  | cons v vs ih =>
      have hv := hf v List.mem_cons_self s hst hleft
      rw [List.foldlM_cons]
      cases hr : f s v with
      | error e =>
          refine ⟨nofun, fun e' he => ?_⟩
          obtain rfl := Except.error.inj he
          obtain ⟨hp, w, hw, hc⟩ := hv.stops e hr
          exact ⟨hp, w, List.mem_cons.mpr (.inl (List.mem_singleton.mp hw)), hc⟩
      | ok s₁ =>
          obtain ⟨hst₁, hleft₁, hacc⟩ := hv.ends s₁ hr
          have hrest := ih (fun w hw => hf w (List.mem_cons_of_mem v hw)) hst₁ hleft₁
          constructor
          · intro s' hs
            obtain ⟨hst', hleft', hacc'⟩ := hrest.ends s' hs
            exact ⟨hst', hleft',
              List.forall_mem_cons.mpr ⟨hacc v (List.mem_singleton_self v), hacc'⟩⟩
          · intro e he
            obtain ⟨hp, w, hw, hc⟩ := hrest.stops e he
            exact ⟨hp, w, List.mem_cons_of_mem v hw, hc⟩

/-- **The search from a vertex.** A vertex with successors is one of `vertices`, so that the stack
has an end. -/
theorem settles_dfs (hvert : ∀ a, succ a ≠ [] → a ∈ vertices) (hleft : Left succ s)
    (hstack : ∀ x ∈ s.inStack, TransGen (Edge succ) x v) (hnodup : s.inStack.Nodup)
    (hsub : s.inStack ⊆ vertices) (hfuel : vertices.length < fuel + s.inStack.length) :
    Settles succ s.inStack [v] (dfs succ fuel path s v) := by
  induction fuel generalizing s v path with
  | zero =>
      have hle := (List.Nodup.subperm hnodup hsub).length_le
      omega
  | succ fuel ih =>
      rw [dfs]
      split_ifs with hin hvis
      · refine ⟨nofun, fun e he => ⟨⟨_, (Except.error.inj he).symm⟩, v, ?_⟩⟩
        exact ⟨List.mem_singleton_self v, v, .refl, hstack v hin⟩
      · refine ⟨fun s' hs => ?_, nofun⟩
        obtain rfl := Except.ok.inj hs
        exact ⟨rfl, hleft, List.forall_mem_singleton.mpr (hleft v hvis hin)⟩
      · -- the search goes on from the successors, with `v` on the stack
        have hloop : Settles succ (v :: s.inStack) (succ v)
            ((succ v).foldlM (dfs succ fuel (path ++ [v])) ⟨v :: s.visited, v :: s.inStack⟩) := by
          refine settles_foldlM (fun w hw s₁ hst₁ hleft₁ => ?_) rfl (hleft.push v)
          rw [← hst₁]
          refine ih hleft₁ ?_ ?_ ?_ ?_
          · rw [hst₁]
            exact List.forall_mem_cons.mpr ⟨.single hw, fun x hx => (hstack x hx).tail hw⟩
          · rw [hst₁]
            exact List.nodup_cons.mpr ⟨hin, hnodup⟩
          · rw [hst₁]
            exact List.cons_subset.mpr ⟨hvert v (List.ne_nil_of_mem hw), hsub⟩
          · rw [hst₁, List.length_cons]
            omega
        cases hr : (succ v).foldlM (dfs succ fuel (path ++ [v]))
            ⟨v :: s.visited, v :: s.inStack⟩ with
        | error e =>
            refine ⟨nofun, fun e' he => ?_⟩
            rw [← Except.error.inj he]
            obtain ⟨hp, w, hw, c, hwc, hcc⟩ := hloop.stops e hr
            exact ⟨hp, v, List.mem_singleton_self v, c, hwc.head hw, hcc⟩
        | ok s₁ =>
            obtain ⟨hst₁, hleft₁, hacc⟩ := hloop.ends s₁ hr
            have hv : Acc (flip (Edge succ)) v := .intro v hacc
            refine ⟨fun s' hs => ?_, nofun⟩
            obtain rfl := Except.ok.inj hs
            dsimp only
            rw [hst₁, List.erase_cons_head]
            exact ⟨rfl, hleft₁.pop hst₁ hv, List.forall_mem_singleton.mpr hv⟩

/-- **The search stops exactly when a cycle is reachable** from a vertex of the list; it does not
run out of fuel. -/
theorem dfsAll_stops_iff (hvert : ∀ a, succ a ≠ [] → a ∈ vertices) (vs : List α) :
    dfsAll succ (vertices.length + 1) vs ≠ .error .outOfFuel ∧
      ((∃ p, dfsAll succ (vertices.length + 1) vs = .error (.cycle p)) ↔
        ∃ v ∈ vs, ReachesCycle (Edge succ) v) := by
  have hall : Settles succ [] vs (dfsAll succ (vertices.length + 1) vs) := by
    refine settles_foldlM (fun v _ s hst hleft => ?_) rfl fun x hx => absurd hx List.not_mem_nil
    split_ifs with hvis
    · refine ⟨fun s' hs => ?_, nofun⟩
      obtain rfl := Except.ok.inj hs
      have hout : v ∉ s.inStack := by
        rw [hst]
        exact List.not_mem_nil
      exact ⟨hst, hleft, List.forall_mem_singleton.mpr (hleft v hvis hout)⟩
    · have hv : Settles succ s.inStack [v] (dfs succ (vertices.length + 1) [] s v) :=
        settles_dfs hvert hleft (by simp [hst]) (by simp [hst]) (by simp [hst]) (by simp [hst])
      rwa [hst] at hv
  cases hr : dfsAll succ (vertices.length + 1) vs with
  | error e =>
      obtain ⟨⟨p, rfl⟩, hc⟩ := hall.stops e hr
      exact ⟨nofun, iff_of_true ⟨p, rfl⟩ hc⟩
  | ok s =>
      refine ⟨nofun, iff_of_false nofun ?_⟩
      rintro ⟨v, hv, hc⟩
      exact not_reachesCycle_of_acc ((hall.ends s hr).2.2 v hv) hc

/-! ## What the search stops with -/

/-- **A closed walk**: each vertex has an edge to the next one, and it ends where it begins. -/
structure ClosedWalk (r : α → α → Prop) (walk : List α) : Prop where
  chain : List.IsChain r walk
  closed : walk.head? = walk.getLast?
  edge : 2 ≤ walk.length

/-- The end of a walk to `v`, from the place where it has met `v` before. -/
theorem closedWalk_of_mem {r : α → α → Prop} (hchain : List.IsChain r (path ++ [v]))
    (hv : v ∈ path) : ClosedWalk r (path.drop (path.idxOf v) ++ [v]) := by
  have hlt : path.idxOf v < path.length := List.idxOf_lt_length_of_mem hv
  have hdrop : path.drop (path.idxOf v) = v :: path.drop (path.idxOf v + 1) := by
    rw [List.drop_eq_getElem_cons hlt, List.getElem_idxOf hlt]
  have happ : path.drop (path.idxOf v) ++ [v] = (path ++ [v]).drop (path.idxOf v) :=
    (List.drop_append_of_le_length (Nat.le_of_lt hlt)).symm
  refine ⟨happ ▸ hchain.drop _, ?_, ?_⟩
  · rw [hdrop, List.getLast?_concat]
    rfl
  · rw [hdrop, List.length_append, List.length_cons, List.length_singleton]
    omega

/-- **The path of a search.** It ends with the stack it began with, or stops with a closed walk. -/
structure Walks (succ : α → List α) (stack : List α) (r : Except (Stop α) (State α)) : Prop where
  ends : ∀ s, r = .ok s → s.inStack = stack
  stops : ∀ walk, r = .error (.cycle walk) → ClosedWalk (Edge succ) walk

omit [DecidableEq α] in
theorem walks_foldlM {f : State α → α → Except (Stop α) (State α)} {stack : List α}
    (hf : ∀ v ∈ vs, ∀ s : State α, s.inStack = stack → Walks succ stack (f s v))
    (hst : s.inStack = stack) : Walks succ stack (vs.foldlM f s) := by
  induction vs generalizing s with
  | nil =>
      refine ⟨fun s' hs => ?_, nofun⟩
      obtain rfl := Except.ok.inj hs
      exact hst
  | cons v vs ih =>
      have hv := hf v List.mem_cons_self s hst
      rw [List.foldlM_cons]
      cases hr : f s v with
      | error e =>
          refine ⟨nofun, fun walk hwalk => ?_⟩
          obtain rfl := Except.error.inj hwalk
          exact hv.stops walk hr
      | ok s₁ => exact ih (fun w hw => hf w (List.mem_cons_of_mem v hw)) (hv.ends s₁ hr)

/-- **The search from a vertex** that was reached over the vertices of its stack. -/
theorem walks_dfs (hpath : s.inStack = path.reverse)
    (hchain : List.IsChain (Edge succ) (path ++ [v])) :
    Walks succ s.inStack (dfs succ fuel path s v) := by
  induction fuel generalizing s v path with
  | zero => exact ⟨nofun, nofun⟩
  | succ fuel ih =>
      rw [dfs]
      split_ifs with hin hvis
      · refine ⟨nofun, fun walk hwalk => ?_⟩
        rw [← Stop.cycle.inj (Except.error.inj hwalk)]
        rw [hpath, List.mem_reverse] at hin
        exact closedWalk_of_mem hchain hin
      · refine ⟨fun s' hs => ?_, nofun⟩
        obtain rfl := Except.ok.inj hs
        rfl
      · have hloop : Walks succ (v :: s.inStack)
            ((succ v).foldlM (dfs succ fuel (path ++ [v])) ⟨v :: s.visited, v :: s.inStack⟩) := by
          refine walks_foldlM (fun w hw s₁ hst₁ => ?_) rfl
          rw [← hst₁]
          refine ih ?_ ?_
          · rw [hst₁, hpath, List.reverse_append]
            rfl
          · refine hchain.append (.singleton w) fun x hx y hy => ?_
            rw [List.getLast?_concat] at hx
            obtain rfl := Option.some.inj hx
            obtain rfl := Option.some.inj hy
            exact hw
        cases hr : (succ v).foldlM (dfs succ fuel (path ++ [v]))
            ⟨v :: s.visited, v :: s.inStack⟩ with
        | error e =>
            refine ⟨nofun, fun walk hwalk => ?_⟩
            obtain rfl := Except.error.inj hwalk
            exact hloop.stops walk hr
        | ok s₁ =>
            refine ⟨fun s' hs => ?_, nofun⟩
            obtain rfl := Except.ok.inj hs
            dsimp only
            rw [hloop.ends s₁ hr, List.erase_cons_head]

/-- **What the search stops with** is a closed walk. -/
theorem closedWalk_of_dfsAll {walk : List α} (h : dfsAll succ fuel vs = .error (.cycle walk)) :
    ClosedWalk (Edge succ) walk := by
  have hall : Walks succ [] (dfsAll succ fuel vs) := by
    refine walks_foldlM (fun v _ s hst => ?_) rfl
    split_ifs
    · refine ⟨fun s' hs => ?_, nofun⟩
      obtain rfl := Except.ok.inj hs
      exact hst
    · have hv : Walks succ s.inStack (dfs succ fuel [] s v) := walks_dfs hst (.singleton v)
      rwa [hst] at hv
  exact hall.stops walk h

end CycleSearch

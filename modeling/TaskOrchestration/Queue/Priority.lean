import Mathlib.Algebra.Order.Group.Unbundled.Int
import Mathlib.Data.Multiset.AddSub
import Mathlib.Data.Prod.Lex
import TaskOrchestration.Lib.Heap

set_option autoImplicit false

/-!
# The priority queue

The items lie in a binary heap. A lower score comes first, then an earlier `scheduledAt`, then an
earlier `createdAt`.

* `PriorityItem`, `PriorityQueue` and its methods;
* `PriorityItem.key`, `compareFn_neg_iff`: `compareFn` is the lexicographic order;
* `items`, `items_push`, `items_pop`, `items_clear`: the content as a multiset;
* `Ordered.push`, `Ordered.pop`: every method keeps the heap order;
* `IsFirst`, `Ordered.root_isFirst`: what `peek` and `pop` return;
* `Op`, `Log`: a sequence of operations and what has gone in and out;
* **`serves_in_order`**;
* `toArrayCall`, **`sorted_view_eq_drain`**: the sorted copy has the keys that draining returns.
-/

namespace TaskOrchestration

/-- An item with what it is ordered by. -/
structure PriorityItem (T : Type) where
  score : ℤ
  scheduledAt : ℤ
  createdAt : ℤ
  data : T
  deriving DecidableEq, Repr

/-- The queue: `size` is the length of the array `heap`. -/
structure PriorityQueue (T : Type) where
  size : ℕ
  heap : Vector (PriorityItem T) size

namespace PriorityQueue

variable {T : Type}

/-! ## The methods -/

def empty : PriorityQueue T := ⟨0, #v[]⟩

def isEmpty (q : PriorityQueue T) : Bool := q.size == 0

/-- Negative if `a` comes before `b`. -/
def compareFn (a b : PriorityItem T) : ℤ :=
  if a.score ≠ b.score then a.score - b.score
  else if a.scheduledAt ≠ b.scheduledAt then a.scheduledAt - b.scheduledAt
  else a.createdAt - b.createdAt

/-- The comparison of the two loops. -/
def before (a b : PriorityItem T) : Bool := compareFn a b < 0

def push (q : PriorityQueue T) (item : PriorityItem T) : PriorityQueue T :=
  ⟨q.size + 1, Heap.bubbleUp before (q.heap.push item) (Fin.last q.size)⟩

/-- The root goes, and the last item takes its place if there is another one. -/
def pop : PriorityQueue T → Option (PriorityItem T) × PriorityQueue T
  | ⟨0, heap⟩ => (none, ⟨0, heap⟩)
  | ⟨n + 1, heap⟩ => (some heap[0],
      if h : 0 < n then ⟨n, Heap.sinkDown before (heap.pop.set 0 heap.back) ⟨0, h⟩⟩
      else ⟨n, heap.pop⟩)

def peek (q : PriorityQueue T) : Option (PriorityItem T) := q.heap[0]?

/-- The items in order: a stable sort by `compareFn`. -/
def toArray (q : PriorityQueue T) : List (PriorityItem T) :=
  q.heap.toList.mergeSort fun a b => compareFn a b ≤ 0

def clear (_ : PriorityQueue T) : PriorityQueue T := empty

/-! ## The order of the items -/

end PriorityQueue

variable {T : Type}

/-- **The lexicographic order** of the items. -/
def PriorityItem.key (item : PriorityItem T) : ℤ ×ₗ ℤ ×ₗ ℤ :=
  toLex (item.score, toLex (item.scheduledAt, item.createdAt))

namespace PriorityQueue

theorem key_lt_iff (a b : PriorityItem T) : a.key < b.key ↔
    a.score < b.score ∨ a.score = b.score ∧ (a.scheduledAt < b.scheduledAt ∨
      a.scheduledAt = b.scheduledAt ∧ a.createdAt < b.createdAt) := by
  simp only [PriorityItem.key, Prod.Lex.toLex_lt_toLex]

/-- **`compareFn`** is that order. -/
theorem compareFn_neg_iff (a b : PriorityItem T) : compareFn a b < 0 ↔ a.key < b.key := by
  rw [key_lt_iff, compareFn]
  split_ifs with hs ht
  · omega
  · omega
  · omega

theorem compareFn_swap (a b : PriorityItem T) : compareFn b a = -compareFn a b := by
  unfold compareFn
  split_ifs <;> omega

theorem compareFn_le_iff (a b : PriorityItem T) : compareFn a b ≤ 0 ↔ a.key ≤ b.key := by
  rw [← not_lt, ← not_lt, ← compareFn_neg_iff, compareFn_swap]
  omega

theorem before_iff (a b : PriorityItem T) : before a b = true ↔ a.key < b.key := by
  rw [before, decide_eq_true_iff, compareFn_neg_iff]

theorem toArray_sorted (q : PriorityQueue T) : q.toArray.Perm q.heap.toList ∧
    q.toArray.Pairwise fun a b => a.key ≤ b.key := by
  refine ⟨List.mergeSort_perm _ _, ?_⟩
  have hsorted : q.toArray.Pairwise fun a b => decide (compareFn a b ≤ 0) :=
    List.pairwise_mergeSort (fun a b c hab hbc => ?_) (fun a b => ?_) q.heap.toList
  · refine hsorted.imp fun hle => ?_
    rwa [decide_eq_true_iff, compareFn_le_iff] at hle
  · rw [decide_eq_true_iff, compareFn_le_iff] at hab hbc ⊢
    exact hab.trans hbc
  · rw [Bool.or_eq_true, decide_eq_true_iff, decide_eq_true_iff, compareFn_le_iff,
      compareFn_le_iff]
    exact le_total _ _

/-! ## The content -/

def items (q : PriorityQueue T) : Multiset (PriorityItem T) := q.heap.toList

variable {q : PriorityQueue T} {x : PriorityItem T}

theorem items_eq_zero : q.items = 0 ↔ q.size = 0 := by
  rw [items, Multiset.coe_eq_zero, ← List.length_eq_zero_iff, Vector.length_toList]

theorem items_push (q : PriorityQueue T) (x : PriorityItem T) :
    (q.push x).items = x ::ₘ q.items := by
  have hperm := (Heap.bubbleUp_perm before (q.heap.push x) (Fin.last q.size)).toList
  rw [Vector.toList_push] at hperm
  exact Multiset.coe_eq_coe.mpr (hperm.trans (List.perm_append_singleton x _))

theorem items_clear (q : PriorityQueue T) : q.clear.items = 0 := rfl

theorem toList_eq {n : ℕ} (heap : Vector (PriorityItem T) (n + 1)) :
    heap.toList = heap.pop.toList ++ [heap.back] := by
  conv_lhs => rw [← Vector.push_pop_back heap]
  exact Vector.toList_push ..

theorem root_eq {n : ℕ} {heap : Vector (PriorityItem T) (n + 1)} {a : PriorityItem T}
    {rest : List (PriorityItem T)} (h : heap.toList = a :: rest) : heap[0] = a := by
  have hget : heap.toList[0]? = some a := by rw [h, List.getElem?_cons_zero]
  rw [List.getElem?_eq_getElem (by rw [Vector.length_toList]; exact n.succ_pos)] at hget
  exact Option.some.inj hget

theorem items_pop {n : ℕ} (heap : Vector (PriorityItem T) (n + 1)) :
    items ⟨n + 1, heap⟩ = heap[0] ::ₘ (pop ⟨n + 1, heap⟩).2.items := by
  have hlist := toList_eq heap
  rw [pop]
  split_ifs with h
  · -- the last item takes the place of the root
    have hlen : heap.pop.toList.length = n := Vector.length_toList
    obtain ⟨a, rest, hpop⟩ := List.exists_cons_of_length_pos (hlen ▸ h)
    have hperm := (Heap.sinkDown_perm before (heap.pop.set 0 heap.back) ⟨0, h⟩).toList
    rw [Vector.toList_set, hpop, List.set_cons_zero] at hperm
    rw [hpop, List.cons_append] at hlist
    rw [root_eq hlist]
    refine Multiset.coe_eq_coe.mpr (hlist ▸ List.Perm.cons a ?_)
    exact (List.perm_append_singleton heap.back rest).trans hperm.symm
  · -- the root was the only item
    have hpop : heap.pop.toList = [] := List.length_eq_zero_iff.mp (by
      rw [Vector.length_toList]; omega)
    rw [hpop, List.nil_append] at hlist
    rw [root_eq hlist]
    simp only [items, hlist, hpop]
    rfl

theorem pop_isSome_size {rest : PriorityQueue T} (h : q.pop = (some x, rest)) :
    rest.size < q.size := by
  obtain ⟨_ | n, heap⟩ := q
  · cases h
  · obtain rfl := congrArg Prod.snd h
    rw [pop]
    split_ifs <;> exact n.lt_succ_self

/-! ## The heap order -/

def Ordered (q : PriorityQueue T) : Prop := Heap.Ordered PriorityItem.key q.heap

theorem ordered_empty : Ordered (empty : PriorityQueue T) := fun c => c.elim0

theorem Ordered.push (h : q.Ordered) (x : PriorityItem T) : (q.push x).Ordered :=
  Heap.ordered_push before_iff h x

theorem Ordered.pop (h : q.Ordered) : q.pop.2.Ordered := by
  obtain ⟨_ | n, heap⟩ := q
  · exact h
  · rw [PriorityQueue.pop]
    split_ifs with hn
    · exact Heap.ordered_replace before_iff h hn heap.back
    · obtain rfl := Nat.eq_zero_of_not_pos hn
      exact fun c => c.elim0

/-- `x` is an item and none comes before it. -/
def IsFirst (x : PriorityItem T) (m : Multiset (PriorityItem T)) : Prop :=
  x ∈ m ∧ ∀ y ∈ m, x.key ≤ y.key

theorem Ordered.root_isFirst {n : ℕ} {heap : Vector (PriorityItem T) (n + 1)}
    (h : Ordered ⟨n + 1, heap⟩) : IsFirst heap[0] (items ⟨n + 1, heap⟩) := by
  refine ⟨by rw [items_pop]; exact Multiset.mem_cons_self _ _, fun y hy => ?_⟩
  obtain ⟨i, hi, rfl⟩ := List.mem_iff_getElem.mp (Multiset.mem_coe.mp hy)
  rw [Vector.length_toList] at hi
  rw [Vector.getElem_toList]
  exact Heap.Ordered.root_le h n.succ_pos ⟨i, hi⟩

/-- **What `pop` does**: nothing to the empty queue, and else it takes out an item that comes
first. -/
theorem Ordered.pop_spec (h : q.Ordered) :
    q.items = 0 ∧ q.pop = (none, q) ∨
      ∃ x, q.pop.1 = some x ∧ IsFirst x q.items ∧ q.items = x ::ₘ q.pop.2.items := by
  obtain ⟨_ | n, heap⟩ := q
  · exact .inl ⟨items_eq_zero.mpr rfl, rfl⟩
  · exact .inr ⟨heap[0], rfl, h.root_isFirst, items_pop heap⟩

theorem peek_eq (q : PriorityQueue T) : q.peek = q.pop.1 := by
  obtain ⟨_ | n, heap⟩ := q
  · exact Vector.getElem?_eq_none le_rfl
  · exact Vector.getElem?_eq_getElem n.succ_pos

/-! ## Sequences of operations -/

inductive Op (T : Type)
  | push (item : PriorityItem T)
  | pop
  | peek
  | clear
  deriving DecidableEq, Repr

/-- **The queue, and what has gone in and out** since it was last cleared. -/
structure Log (T : Type) where
  queue : PriorityQueue T
  pushed : Multiset (PriorityItem T)
  popped : Multiset (PriorityItem T)

def Log.init : Log T := ⟨empty, 0, 0⟩

def Log.serve (l : Log T) : Op T → Log T
  | .push item => { l with queue := l.queue.push item, pushed := item ::ₘ l.pushed }
  | .pop => { l with
      queue := l.queue.pop.2
      popped := match l.queue.pop.1 with
        | some x => x ::ₘ l.popped
        | none => l.popped }
  | .peek => l
  | .clear => ⟨l.queue.clear, 0, 0⟩

def Log.after (ops : List (Op T)) : Log T := ops.foldl Log.serve Log.init

/-- The heap is in order, and it holds what has gone in and not out. -/
structure Log.Sound (l : Log T) : Prop where
  ordered : l.queue.Ordered
  content : l.pushed = l.popped + l.queue.items

theorem Log.sound_serve {l : Log T} (h : l.Sound) (op : Op T) : (l.serve op).Sound := by
  cases op with
  | push item =>
      refine ⟨h.ordered.push item, ?_⟩
      rw [serve, items_push, Multiset.add_cons, h.content]
  | pop =>
      refine ⟨h.ordered.pop, ?_⟩
      rcases h.ordered.pop_spec with ⟨-, hpop⟩ | ⟨x, hx, -, hitems⟩
      · simp only [serve, hpop]
        exact h.content
      · simp only [serve, hx]
        rw [h.content, hitems, Multiset.add_cons, Multiset.cons_add]
  | peek => exact h
  | clear => exact ⟨ordered_empty, rfl⟩

theorem Log.sound_after (ops : List (Op T)) : (Log.after ops).Sound := by
  refine List.foldlRecOn ops Log.serve ?_ fun l hl op _ => Log.sound_serve hl op
  exact ⟨ordered_empty, rfl⟩

/-- The items that come out until the queue is empty. -/
def drain (q : PriorityQueue T) : List (PriorityItem T) :=
  match _h : q.pop with
  | (none, _) => []
  | (some x, rest) => x :: drain rest
termination_by q.size
decreasing_by exact pop_isSome_size _h

/-- **Draining the queue** sorts its content. -/
theorem Ordered.drain_spec (h : q.Ordered) :
    (q.drain : Multiset (PriorityItem T)) = q.items ∧
      q.drain.Pairwise fun a b => a.key ≤ b.key := by
  induction q using drain.induct with
  | case1 q rest hpop =>
      rcases h.pop_spec with ⟨hzero, -⟩ | ⟨x, hx, -⟩
      · rw [drain, hpop, hzero]
        exact ⟨rfl, List.Pairwise.nil⟩
      · rw [hpop] at hx
        cases hx
  | case2 q x rest hpop ih =>
      rcases h.pop_spec with ⟨-, hnone⟩ | ⟨y, hy, hfirst, hitems⟩
      · rw [hpop] at hnone
        cases hnone
      · have hrest := h.pop
        rw [hpop] at hy hitems hrest
        obtain rfl := Option.some.inj hy
        obtain ⟨hcontent, hsorted⟩ := ih hrest
        rw [drain, hpop]
        refine ⟨?_, List.Pairwise.cons (fun y hy => hfirst.2 y ?_) hsorted⟩
        · rw [hitems, ← hcontent]
          rfl
        · rw [hitems, ← hcontent]
          exact Multiset.mem_cons_of_mem (Multiset.mem_coe.mpr hy)

/-- **The heap is a priority queue.** After any operations on the empty queue the items are those
that have gone in and not out; `peek` and `pop` return `none` exactly if there is none, and else an
item that comes first, and `pop` takes out this one only; draining sorts the items. -/
theorem serves_in_order (ops : List (Op T)) :
    let l := Log.after ops
    let q := l.queue
    l.pushed = l.popped + q.items ∧
      (q.peek = none ↔ q.items = 0) ∧ (q.pop.1 = none ↔ q.items = 0) ∧
      (∀ x, q.peek = some x → IsFirst x q.items) ∧
      (∀ x, q.pop.1 = some x → IsFirst x q.items ∧ q.items = x ::ₘ q.pop.2.items) ∧
      (q.items = 0 → q.pop.2 = q) ∧
      (q.drain : Multiset (PriorityItem T)) = q.items ∧
      q.drain.Pairwise fun a b => a.key ≤ b.key := by
  intro l q
  obtain ⟨hordered, hcontent⟩ := Log.sound_after ops
  obtain ⟨hdrain, hsorted⟩ := hordered.drain_spec
  rw [peek_eq]
  rcases hordered.pop_spec with ⟨hzero, hpop⟩ | ⟨x, hx, hfirst, hitems⟩
  · have hnone : q.pop.1 = none := congrArg Prod.fst hpop
    refine ⟨hcontent, iff_of_true hnone hzero, iff_of_true hnone hzero, ?_, ?_,
      fun _ => congrArg Prod.snd hpop, hdrain, hsorted⟩
    · intro x hx
      cases hnone.symm.trans hx
    · intro x hx
      cases hnone.symm.trans hx
  · have hsome : q.pop.1 = some x := hx
    have hne : q.items ≠ 0 := hitems ▸ Multiset.cons_ne_zero
    have hnot : q.pop.1 ≠ none := hsome ▸ Option.some_ne_none x
    refine ⟨hcontent, iff_of_false hnot hne, iff_of_false hnot hne, ?_, ?_,
      fun hzero => absurd hzero hne, hdrain, hsorted⟩
    · intro y hy
      obtain rfl := Option.some.inj (hsome.symm.trans hy)
      exact hfirst
    · intro y hy
      obtain rfl := Option.some.inj (hsome.symm.trans hy)
      exact ⟨hfirst, hitems⟩

/-! ## The sorted view -/

/-- A call of `toArray`: what it returns, and the queue it leaves. It sorts a copy. -/
def toArrayCall (q : PriorityQueue T) : List (PriorityItem T) × PriorityQueue T := (q.toArray, q)

theorem map_key_eq {l l' : List (PriorityItem T)} (hperm : l.Perm l')
    (hl : l.Pairwise fun a b => a.key ≤ b.key) (hl' : l'.Pairwise fun a b => a.key ≤ b.key) :
    l.map PriorityItem.key = l'.map PriorityItem.key := by
  have hanti : ∀ a b : ℤ ×ₗ ℤ ×ₗ ℤ, a ≤ b → b ≤ a → a = b := fun a b => le_antisymm
  exact (hperm.map PriorityItem.key).eq_of_pairwise (fun a b _ _ => hanti a b)
    (List.pairwise_map.mpr hl) (List.pairwise_map.mpr hl')

/-- **The sorted view agrees with draining.** After any operations on the empty queue, `toArray`
leaves the queue as it is, and returns its items with the keys in the sequence in which `pop`
returns them until the queue is empty. -/
theorem sorted_view_eq_drain (ops : List (Op T)) :
    let q := (Log.after ops).queue
    q.toArrayCall.2 = q ∧ (q.toArrayCall.1 : Multiset (PriorityItem T)) = q.items ∧
      q.toArrayCall.1.map PriorityItem.key = q.drain.map PriorityItem.key := by
  intro q
  obtain ⟨hperm, hsorted⟩ := toArray_sorted q
  obtain ⟨hdrain, hdrained⟩ := (Log.sound_after ops).ordered.drain_spec
  refine ⟨rfl, Multiset.coe_eq_coe.mpr hperm, map_key_eq ?_ hsorted hdrained⟩
  exact hperm.trans (Multiset.coe_eq_coe.mp hdrain).symm

end PriorityQueue

end TaskOrchestration

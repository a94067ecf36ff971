import TaskOrchestration.Job.Repository
import TaskOrchestration.Lib.Batches

set_option autoImplicit false

/-!
# Polls in order of priority

A poll claims the first `limit` claimable rows by priority, then by `scheduled_at`, then by
`created_at`, and skips the rows that other sessions have locked. Polls that follow one another
serve the backlog in that order.

* `ClaimOrder` is a total preorder: `claimOrder_total`, `claimOrder_trans`;
* `claimable`: the backlog; **`claimable_claim`**: what a claim leaves of it; `claimed_or_kept`;
* `polls`: polls one after the other; **`polls_in_order`**.
-/

namespace TaskOrchestration.JobRepository

open Batches

/-! ## The order -/

theorem scheduledBefore_trans {a b c : Option Time} (h : scheduledBefore a b = true)
    (h' : scheduledBefore b c = true) : scheduledBefore a c = true := by
  cases a <;> cases b <;> cases c <;> simp_all [scheduledBefore]
  exact h.trans h'

theorem scheduledBefore_total (a b : Option Time) :
    scheduledBefore a b = true ∨ a = b ∨ scheduledBefore b a = true := by
  cases a <;> cases b <;> simp [scheduledBefore]
  exact lt_trichotomy _ _

theorem claimOrder_total (a b : Job) : ClaimOrder a b ∨ ClaimOrder b a := by
  unfold ClaimOrder
  rcases lt_trichotomy (priorityRank a.priority) (priorityRank b.priority) with h | h | h
  · exact .inl (.inl h)
  · rcases scheduledBefore_total a.scheduledAt b.scheduledAt with hs | hs | hs
    · exact .inl (.inr ⟨h, .inl hs⟩)
    · rcases Nat.le_total a.createdAt b.createdAt with hc | hc
      · exact .inl (.inr ⟨h, .inr ⟨hs, hc⟩⟩)
      · exact .inr (.inr ⟨h.symm, .inr ⟨hs.symm, hc⟩⟩)
    · exact .inr (.inr ⟨h.symm, .inl hs⟩)
  · exact .inr (.inl h)

theorem claimOrder_trans {a b c : Job} (h : ClaimOrder a b) (h' : ClaimOrder b c) :
    ClaimOrder a c := by
  unfold ClaimOrder at h h' ⊢
  rcases h with h | ⟨hp, hs⟩ <;> rcases h' with h' | ⟨hp', hs'⟩
  · exact .inl (h.trans h')
  · exact .inl (hp' ▸ h)
  · exact .inl (hp ▸ h')
  · refine .inr ⟨hp.trans hp', ?_⟩
    rcases hs with hs | ⟨hs, hc⟩ <;> rcases hs' with hs' | ⟨hs', hc'⟩
    · exact .inl (scheduledBefore_trans hs hs')
    · exact .inl (hs' ▸ hs)
    · exact .inl (hs ▸ hs')
    · exact .inr ⟨hs.trans hs', hc.trans hc'⟩

instance : Std.Total ClaimOrder := ⟨claimOrder_total⟩
instance : IsTrans Job ClaimOrder := ⟨fun _ _ _ => claimOrder_trans⟩

/-! ## The backlog -/

/-- **The backlog**: the rows that a poll at `now` can claim. -/
def claimable (t : JobTable) (now : Time) (locked : List JobId) : List Job :=
  t.rows.filter fun r => Claimable now r ∧ r.id ∉ locked

theorem selectClaimable_eq (t : JobTable) (now : Time) (limit : ℕ) (locked : List JobId) :
    selectClaimable t now limit locked = batch ClaimOrder limit (claimable t now locked) := rfl

theorem not_claimable_claimed (now : Time) (r : Job) : ¬ Claimable now (claimed now r) :=
  fun h => JobStatus.noConfusion h.1

variable {t : JobTable} {now : Time} {limit : ℕ} {locked : List JobId}

/-- **What a claim leaves**: the backlog without the rows that it takes. -/
theorem claimable_claim : claimable (claimPendingJobs t now limit locked).1 now locked =
    (claimable t now locked).filter
      fun r => r.id ∉ (selectClaimable t now limit locked).map Job.id := by
  generalize hids : (selectClaimable t now limit locked).map Job.id = ids
  have hrows : (claimPendingJobs t now limit locked).1.rows =
      t.rows.map fun r => if r.id ∈ ids then claimed now r else r := by
    rw [← hids]
    simp [claimPendingJobs, Table.updateWhere, Table.mapRows]
  unfold claimable
  rw [hrows]
  generalize t.rows = rows
  induction rows with
  | nil => rfl
  | cons r rows ih =>
      rw [List.map_cons, List.filter_cons, List.filter_cons, ih]
      by_cases hid : r.id ∈ ids
      · rw [if_pos hid, if_neg (by simp [not_claimable_claimed])]
        split_ifs
        · rw [List.filter_cons, if_neg (by simpa using hid)]
        · rfl
      · rw [if_neg hid]
        split_ifs
        · rw [List.filter_cons, if_pos (by simpa using hid)]
        · rfl

theorem claimable_claim_perm :
    (claimable (claimPendingJobs t now limit locked).1 now locked).Perm
      (leftover ClaimOrder limit (claimable t now locked)) := by
  have hnodup : ((claimable t now locked).map Job.id).Nodup :=
    t.nodup.sublist (List.filter_sublist.map _)
  have hperm := batch_append_leftover_perm ClaimOrder limit (claimable t now locked)
  have hsplit : ((batch ClaimOrder limit (claimable t now locked)).map Job.id ++
      (leftover ClaimOrder limit (claimable t now locked)).map Job.id).Nodup := by
    rw [← List.map_append]
    exact (hperm.map Job.id).nodup_iff.mpr hnodup
  rw [List.nodup_append'] at hsplit
  rw [claimable_claim, selectClaimable_eq]
  refine (hperm.symm.filter _).trans (List.Perm.of_eq ?_)
  rw [List.filter_append]
  have htaken : (batch ClaimOrder limit (claimable t now locked)).filter
      (fun r => r.id ∉ (batch ClaimOrder limit (claimable t now locked)).map Job.id) = [] :=
    List.filter_eq_nil_iff.mpr fun r hr => by simpa using List.mem_map_of_mem hr
  have hkept : (leftover ClaimOrder limit (claimable t now locked)).filter
      (fun r => r.id ∉ (batch ClaimOrder limit (claimable t now locked)).map Job.id) =
        leftover ClaimOrder limit (claimable t now locked) :=
    List.filter_eq_self.mpr fun r hr =>
      decide_eq_true fun hmem => hsplit.2.2 hmem (List.mem_map_of_mem hr)
  rw [htaken, hkept, List.nil_append]

theorem length_claimable_claim :
    (claimable (claimPendingJobs t now limit locked).1 now locked).length =
      (claimable t now locked).length - limit := by
  rw [claimable_claim_perm.length_eq, leftover, List.length_drop, List.length_insertionSort]

theorem claimed_or_kept {r : Job} (h : t.find? r.id = some r) (now : Time) (limit : ℕ)
    (locked : List JobId) : claimed now r ∈ (claimPendingJobs t now limit locked).2 ∨
      (claimPendingJobs t now limit locked).1.find? r.id = some r := by
  obtain ⟨r', hr', -⟩ := find?_claim_of_some h now limit locked
  rcases find?_claimPendingJobs hr' with hold | ⟨r₀, hr₀, -, rfl, hmem⟩
  · exact .inr (hold.symm.trans h ▸ hr')
  · obtain rfl := Option.some.inj (hr₀.symm.trans h)
    exact .inl hmem

/-! ## Polls -/

/-- `n` polls one after the other: the table, and the rows that each has returned. -/
def polls (t : JobTable) (now : Time) (limit : ℕ) (locked : List JobId) :
    ℕ → JobTable × List (List Job)
  | 0 => (t, [])
  | n + 1 =>
      let p := polls t now limit locked n
      let q := claimPendingJobs p.1 now limit locked
      (q.1, p.2 ++ [q.2])

theorem served_polls (t : JobTable) (now : Time) (limit : ℕ) (locked : List JobId) (n : ℕ) :
    ∃ taken, (polls t now limit locked n).2.flatten = taken.map (claimed now) ∧
      Served ClaimOrder (claimable t now locked) taken
        (claimable (polls t now limit locked n).1 now locked) ∧
      taken.length = min (n * limit) (claimable t now locked).length := by
  induction n with
  | zero =>
      refine ⟨[], rfl, Served.nil _ _, ?_⟩
      rw [Nat.zero_mul, Nat.zero_min, List.length_nil]
  | succ n ih =>
      obtain ⟨taken, heq, hserved, hlen⟩ := ih
      refine ⟨taken ++ selectClaimable (polls t now limit locked n).1 now limit locked, ?_, ?_, ?_⟩
      · rw [polls, List.flatten_append, List.flatten_singleton, List.map_append, heq]
        rfl
      · exact hserved.next limit claimable_claim_perm
      · have htotal := hserved.perm.length_eq
        rw [List.length_append] at htotal
        rw [List.length_append, selectClaimable_eq, length_batch, hlen, Nat.succ_mul]
        omega

/-- **Polls serve the backlog in order.** What `n` polls return one after the other, of whichever
schedulers, are the first `n * limit` rows that can be claimed, or all of them, each once: by
priority, `scheduled_at` and `created_at`, no row that is left, or that a later poll returns, comes
before one that was returned. -/
theorem polls_in_order (t : JobTable) (now : Time) (limit : ℕ) (locked : List JobId) (n : ℕ) :
    ∃ left, ((polls t now limit locked n).2.flatten ++ left).Perm
        ((claimable t now locked).map (claimed now)) ∧
      (polls t now limit locked n).2.Pairwise (fun earlier later =>
        ∀ a ∈ earlier, ∀ b ∈ later, ClaimOrder a b) ∧
      (∀ a ∈ (polls t now limit locked n).2.flatten, ∀ b ∈ left, ClaimOrder a b) ∧
      (polls t now limit locked n).2.flatten.length =
        min (n * limit) (claimable t now locked).length ∧
      ((polls t now limit locked n).2.flatten.map Job.id).Nodup := by
  obtain ⟨taken, heq, hserved, hlen⟩ := served_polls t now limit locked n
  have hperm := hserved.perm.map (claimed now)
  rw [List.map_append] at hperm
  have hsorted : (polls t now limit locked n).2.flatten.Pairwise ClaimOrder := by
    rw [heq]
    exact List.pairwise_map.mpr (hserved.sorted.imp fun h => h)
  rw [heq]
  refine ⟨(claimable (polls t now limit locked n).1 now locked).map (claimed now), hperm,
    (List.pairwise_flatten.mp hsorted).2, ?_, ?_, ?_⟩
  · intro a ha b hb
    obtain ⟨a₀, ha₀, rfl⟩ := List.mem_map.mp ha
    obtain ⟨b₀, hb₀, rfl⟩ := List.mem_map.mp hb
    exact hserved.first a₀ ha₀ b₀ hb₀
  · rw [List.length_map, hlen]
  · have hnodup : ((claimable t now locked).map Job.id).Nodup :=
      t.nodup.sublist (List.filter_sublist.map _)
    have hall := ((hserved.perm.map Job.id).nodup_iff.mpr hnodup)
    rw [List.map_append] at hall
    rw [List.map_map]
    exact hall.sublist (List.sublist_append_left _ _)

end TaskOrchestration.JobRepository

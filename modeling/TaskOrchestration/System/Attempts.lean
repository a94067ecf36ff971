import TaskOrchestration.System.Deliveries

set_option autoImplicit false

/-!
# Attempt numbers

The number of a delivery is fixed when it is enqueued: `retry_count + 1` by the scheduler,
`totalAttempts + 1` by a replay. A redelivery keeps it, and `retry_count` only moves on when
`handleFailure` finds retries left.

* `findByJobId_eq`, `getLatestAttempt_eq`: what the history reads when the numbers rise;
* `Numbered`: the numbers rise, and the delivery that is outstanding goes on with them;
* `Fresh`: a delivery comes on offer alone, with a number above those of the rows;
* **`attempts_increase`**; `redelivery_repeats_number`.
-/

namespace TaskOrchestration

namespace ExecutionRepository

variable {logs : List ExecutionLog} {k : JobId}

/-- **When the numbers rise**, the history is in the order of creation. -/
theorem findByJobId_eq (h : (attemptsOf logs k).Pairwise (· < ·)) :
    findByJobId logs k = logs.filter (·.jobId = k) := by
  have hrows := List.pairwise_map.mp h
  exact (hrows.imp fun hlt => Nat.le_of_lt hlt).insertionSort_eq

/-- **When the numbers rise**, the latest attempt is the row created last. -/
theorem getLatestAttempt_eq (h : (attemptsOf logs k).Pairwise (· < ·)) :
    getLatestAttempt logs k = (logs.filter (·.jobId = k)).getLast? := by
  have hrows := List.pairwise_map.mp h
  unfold getLatestAttempt
  generalize logs.filter (·.jobId = k) = rows at hrows ⊢
  induction rows using List.reverseRecOn with
  | nil => rfl
  | append_singleton rows r _ =>
      rw [List.getLast?_concat]
      have hperm := List.perm_insertionSort
        (fun a b : ExecutionLog => b.attemptNumber ≤ a.attemptNumber) (rows ++ [r])
      have hsorted := List.pairwise_insertionSort
        (fun a b : ExecutionLog => b.attemptNumber ≤ a.attemptNumber) (rows ++ [r])
      cases hs : (rows ++ [r]).insertionSort
          (fun a b : ExecutionLog => b.attemptNumber ≤ a.attemptNumber) with
      | nil =>
          rw [hs] at hperm
          simp at hperm
      | cons a l =>
          rw [hs] at hperm hsorted
          have ha : a ∈ rows ++ [r] := hperm.subset List.mem_cons_self
          have hr : r ∈ a :: l := hperm.symm.subset (by simp)
          have hle : r.attemptNumber ≤ a.attemptNumber := by
            rcases List.mem_cons.mp hr with rfl | hr
            · exact le_rfl
            · exact (List.pairwise_cons.mp hsorted).1 r hr
          rcases List.mem_append.mp ha with ha | ha
          · have hlt := (List.pairwise_append.mp hrows).2.2 a ha r (List.mem_singleton_self r)
            omega
          · rw [List.mem_singleton.mp ha, List.head?_cons]

end ExecutionRepository

namespace Sys

open LabelledRun

variable {cfg : Config} {s s' : Sys} {e : Event} {es : List Event}

/-- **A delivery comes on offer alone**, and its number is above those of the job's rows. -/
def Fresh (cfg : Config) (s : Sys) (e : Event) : Prop :=
  ∀ data ∈ s.offered cfg e, s.outstanding (·.jobId = data.jobId) = 0 ∧
    ∀ n ∈ s.attempts data.jobId, n < data.attemptNumber

instance (cfg : Config) (s : Sys) (e : Event) : Decidable (Fresh cfg s e) := by
  unfold Fresh; infer_instance

/-- **The invariant** of the job `k`: its numbers rise, at most one delivery of it is outstanding,
and the number of that one is above those of the rows. -/
structure Numbered (s : Sys) (k : JobId) : Prop where
  rising : (s.attempts k).Pairwise (· < ·)
  alone : s.outstanding (·.jobId = k) ≤ 1
  above : ∀ data : QueueJobPayload, data.jobId = k → 0 < s.outstanding (· = data) →
    ∀ n ∈ s.attempts k, n < data.attemptNumber

theorem numbered_init (k : JobId) : Numbered init k where
  rising := List.Pairwise.nil
  alone := Nat.zero_le 1
  above := fun _ _ h => absurd h (Nat.lt_irrefl 0)

theorem outstanding_le (s : Sys) (data : QueueJobPayload) :
    s.outstanding (· = data) ≤ s.outstanding (·.jobId = data.jobId) := by
  unfold outstanding Queue.offers
  apply Nat.add_le_add
  · apply List.countP_mono_left
    intro op _ h
    cases op with
    | processJob process workerId entry data' pc =>
        simp only [Op.opening, Bool.and_eq_true, decide_eq_true_eq] at h ⊢
        exact ⟨h.1, congrArg _ h.2⟩
    | _ => cases h
  · apply List.countP_mono_left
    intro en _ h
    simp only [Bool.and_eq_true, decide_eq_true_eq] at h ⊢
    exact ⟨h.1, congrArg _ h.2⟩

/-- **A log row that a step creates** has a number above those of the rows before it. -/
theorem Numbered.created {data : QueueJobPayload} (h : Numbered s data.jobId)
    (hf : Fresh cfg s e) (hs : s.step cfg e = some s') (hc : s.created cfg e = some data) :
    ∀ n ∈ s.attempts data.jobId, n < data.attemptNumber := by
  have hout := outstanding_step hs (· = data)
  rw [hc] at hout
  simp only [Option.any_some, decide_true, if_true] at hout
  by_cases hpos : 0 < s.outstanding (· = data)
  · exact h.above data rfl hpos
  · have hoff : (s.offered cfg e).any (fun data' => data' = data) = true := by
      by_contra hno
      rw [if_neg hno] at hout
      omega
    obtain ⟨data', ho, he⟩ := (Option.any_eq_true _ _).mp hoff
    obtain rfl := of_decide_eq_true he
    exact (hf data' ho).2

theorem numbered_step {k : JobId} (ht : Tidy s) (h : Numbered s k) (hf : Fresh cfg s e)
    (hs : s.step cfg e = some s') : Numbered s' k := by
  have hlog := attempts_step ht hs k
  have hjob := outstanding_step hs fun data => data.jobId = k
  -- a delivery of the job on offer finds no other one outstanding
  have hoff : (s.offered cfg e).any (fun data => data.jobId = k) = true →
      s.outstanding (·.jobId = k) = 0 := by
    intro ho
    obtain ⟨data, hd, he⟩ := (Option.any_eq_true _ _).mp ho
    obtain rfl := of_decide_eq_true he
    exact (hf data hd).1
  have halone := h.alone
  by_cases hcr : (s.created cfg e).any (fun data => data.jobId = k) = true
  · obtain ⟨data, hd, he⟩ := (Option.any_eq_true _ _).mp hcr
    obtain rfl := of_decide_eq_true he
    have habove := h.created hf hs hd
    have hnone : s'.outstanding (·.jobId = data.jobId) = 0 := by
      rw [if_pos hcr] at hjob
      by_cases ho : (s.offered cfg e).any (fun data' => data'.jobId = data.jobId) = true
      · rw [hoff ho, if_pos ho] at hjob
        omega
      · rw [if_neg ho] at hjob
        omega
    refine ⟨?_, by omega, fun data' he hpos => ?_⟩
    · rw [hlog, hd]
      simp only [Option.toList_some, List.filter_cons, decide_true, if_true, List.filter_nil,
        List.map_cons, List.map_nil]
      refine List.pairwise_append.mpr ⟨h.rising, List.pairwise_singleton _ _, fun n hn m hm => ?_⟩
      rw [List.mem_singleton.mp hm]
      exact habove n hn
    · have hle := outstanding_le s' data'
      rw [he] at hle
      omega
  · have hsame : s'.attempts k = s.attempts k := by
      rw [hlog]
      cases hc : s.created cfg e with
      | none => exact List.append_nil _
      | some data =>
          rw [hc] at hcr
          have hne : ¬ data.jobId = k := fun he => hcr (by simp [he])
          simp [hne]
    rw [if_neg hcr] at hjob
    refine ⟨hsame ▸ h.rising, ?_, fun data hk hpos n hn => ?_⟩
    · by_cases ho : (s.offered cfg e).any (fun data => data.jobId = k) = true
      · rw [hoff ho, if_pos ho] at hjob
        omega
      · rw [if_neg ho] at hjob
        omega
    · rw [hsame] at hn
      by_cases hold : 0 < s.outstanding (· = data)
      · exact h.above data hk hold n hn
      · have hout := outstanding_step hs (· = data)
        have ho : (s.offered cfg e).any (fun data' => data' = data) = true := by
          by_contra hno
          rw [if_neg hno] at hout
          omega
        obtain ⟨data', hd, he⟩ := (Option.any_eq_true _ _).mp ho
        obtain rfl := of_decide_eq_true he
        exact (hf data' hd).2 n (hk ▸ hn)

/-- **Attempt numbers rise** in the order of creation, and `getLatestAttempt` returns the row
created last, in every run in which each delivery comes on offer alone and with a number above
those of the rows. -/
theorem attempts_increase (h : Run (step cfg) (stateGuard (Fresh cfg)) init es s) (k : JobId) :
    (s.attempts k).Pairwise (· < ·) ∧ ExecutionRepository.getLatestAttempt s.store.logs k =
      (s.store.logs.filter (·.jobId = k)).getLast? := by
  have hinv : Tidy s ∧ Numbered s k := by
    apply h.stable (P := fun s => Tidy s ∧ Numbered s k) ⟨tidy_init, numbered_init k⟩
    intro es s e s' hp hf hs
    exact ⟨tidy_step hp.1 hs, numbered_step hp.1 hp.2 hf hs⟩
  exact ⟨hinv.2.rising, ExecutionRepository.getLatestAttempt_eq hinv.2.rising⟩

/-- `a` fails, and is replayed from the dead letter queue. -/
def secondAttempt : List Event :=
  lastAttempt ++ [.start (.replayJob "a"), .call 4 false 12 .ok [], .call 4 false 13 .ok [],
    .call 4 false 14 .ok [], .pickUp 1 "w" (.auto 2), .call 5 false 15 .ok [],
    .call 5 false 16 .ok []]

theorem second_attempt_follows : ∃ s, runEvents (step {}) init secondAttempt = some s ∧
    s.attempts "a" = [1, 2] ∧ ((s.attempts "a").Pairwise (· < ·) ∧
      ExecutionRepository.getLatestAttempt s.store.logs "a" =
        (s.store.logs.filter (·.jobId = "a")).getLast?) := by
  obtain ⟨s, hs, hp⟩ := exists_run_of_check (step {}) (stateGuard (Fresh {})) init secondAttempt
    (fun s => s.attempts "a" = [1, 2]) (by decide)
  exact ⟨s, hs.runEvents_eq, of_decide_eq_true hp, attempts_increase hs "a"⟩

/-- The lock of the entry stalls when its log row is there, and BullMQ redelivers it. -/
def stalledOnce : List Event :=
  pickedUp ++ [.call 3 false 4 .ok [], .call 3 false 5 .ok [], .stall (.job "a"),
    .pickUp 1 "w" (.job "a"), .call 4 false 6 .ok [], .call 4 false 7 .ok []]

/-- **The redelivery has the same number.** -/
theorem redelivery_repeats_number :
    ∃ s, Run (step {}) anyStep init stalledOnce s ∧ ¬ (s.attempts "a").Pairwise (· < ·) := by
  obtain ⟨s, hs, hp⟩ := exists_run_of_check (step {}) anyStep init stalledOnce
    (fun s => ¬ (s.attempts "a").Pairwise (· < ·)) (by decide)
  exact ⟨s, hs, of_decide_eq_true hp⟩

end Sys

end TaskOrchestration

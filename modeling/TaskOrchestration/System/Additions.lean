import TaskOrchestration.Lib.Credit
import TaskOrchestration.System.Deliveries
import TaskOrchestration.System.Payloads

set_option autoImplicit false

/-!
# One addition for each waiting period

Several schedulers may poll at once, as after a lost leadership, and calls may fail or lose their
answers. A job is still handed to the queue at most once for each time it has become `PENDING`: the
claim takes the row out of `PENDING`, and only the element of `enqueuePromises` that the claim has
started adds the job, and does not try again.

* `isPending`, `becomesPending`; `addsJob`: the step hands the job to the queue;
* `waiting`: the credit of a job, its `PENDING` row or an element that is about to add it;
* `countP_claimed_le_one`: a claim starts one element for a job;
* **`waiting_step`**, **`added_once_for_each_waiting`**.
-/

namespace TaskOrchestration

open LabelledRun JobRepository

namespace Op

variable {op op' : Op} {k : JobId}

theorem not_enqueues_resume (g : DependencyResolver.Graph) (now : Time) (second : Bool)
    (reply : Reply) : (op.resume g now second reply).1.enqueues k = false := by
  unfold resume
  split
  case h_3 rows =>
    rcases recoverNext_cases rows now with hr | hr <;> simp only [hr] <;> rfl
  case h_4 jobs now₀ =>
    rcases recoverNext_cases jobs.tail now with hr | hr <;> simp only [hr] <;> rfl
  case h_5 | h_6 =>
    dsimp only
    split <;> rfl
  all_goals rfl

theorem not_enqueues_abort {second : Bool}
    (h : op' = (op.abort second).1 ∨ op' ∈ (op.abort second).2) : op'.enqueues k = false := by
  cases leaves_of_abort h <;> rfl

theorem spawned_eq_nil {g : DependencyResolver.Graph} {now : Time} {second : Bool} {reply : Reply}
    (h : ∀ rows, op = .scheduleReadyJobs → reply ≠ .jobs rows) :
    (op.resume g now second reply).2.1 = [] := by
  unfold resume
  split
  case h_2 rows => exact absurd rfl (h rows rfl)
  all_goals rfl

theorem enqueues_enqueueClaimed {now : Time} {job : Job}
    (h : (enqueueClaimed now job).enqueues k = true) : job.id = k := by
  unfold enqueueClaimed at h
  split_ifs at h
  · cases h
  · exact of_decide_eq_true h

end Op

/-- **A claim starts one element for a job.** -/
theorem countP_claimed_le_one (t : JobTable) (now : Time) (limit : ℕ) (locked : List JobId)
    (k : JobId) : (((claimPendingJobs t now limit locked).2.map (Op.enqueueClaimed now)).countP
      (Op.enqueues k)) ≤ 1 := by
  have hnodup : ((claimPendingJobs t now limit locked).2.map Job.id).Nodup := by
    have hids : (claimPendingJobs t now limit locked).2.map Job.id =
        (selectClaimable t now limit locked).map Job.id := by
      rw [claimPendingJobs, List.map_map]
      rfl
    have hrows : ((t.rows.filter fun r => Claimable now r ∧ r.id ∉ locked).map Job.id).Nodup :=
      t.nodup.sublist (List.filter_sublist.map _)
    rw [hids]
    exact (((List.perm_insertionSort ClaimOrder _).map Job.id).nodup_iff.mpr hrows).sublist
      ((List.take_sublist _ _).map _)
  refine le_trans ?_ (List.nodup_iff_count_le_one.mp hnodup k)
  rw [List.countP_map, List.count, List.countP_map]
  refine List.countP_mono_left fun job _ h => ?_
  exact beq_iff_eq.mpr (Op.enqueues_enqueueClaimed h)

namespace Sys

variable {cfg : Config} {s s' : Sys} {e : Event} {k : JobId}

def isPending (k : JobId) (s : Sys) : Bool := (s.store.jobs.find? k).any (·.status = .pending)

/-- The step makes the row of the job `PENDING`. -/
def becomesPending (cfg : Config) (k : JobId) (s : Sys) (e : Event) : Bool :=
  (s.step cfg e).any fun s' => isPending k s' && !isPending k s

/-- The step hands the job to `jobQueue.add`, be it added or not. -/
def addsJob (cfg : Config) (k : JobId) (s : Sys) (e : Event) : Bool :=
  (s.calling cfg e).any fun q => q.1.enqueues k

/-- **What the job has to wait for**: its claim, or the elements that are about to add it. -/
def waiting (k : JobId) (s : Sys) : ℕ :=
  (if isPending k s = true then 1 else 0) + s.ops.countP (Op.enqueues k)

theorem isPending_step (hs : s.step cfg e = some s') :
    (if isPending k s' = true then 1 else 0) ≤
      (if isPending k s = true then 1 else 0) +
        if becomesPending cfg k s e = true then 1 else 0 := by
  unfold becomesPending
  rw [hs, Option.any_some]
  cases isPending k s <;> cases isPending k s' <;> decide

/-- **A claim of the job** starts one element, and its row is no longer `PENDING`. -/
theorem isPending_claim {g : DependencyResolver.Graph} {second : Bool} {now : Time}
    {locked : List JobId} {op : Op} {c : Call} {reply : Reply} {b : ℕ}
    (hc : op.pending cfg second = some c)
    (hx : s.store.exec now locked c = some (s'.store, reply))
    (hle : (if isPending k s' = true then 1 else 0) ≤
      (if isPending k s = true then 1 else 0) + b) :
    (if isPending k s' = true then 1 else 0) +
        (op.resume g now second reply).2.1.countP (Op.enqueues k) ≤
      (if isPending k s = true then 1 else 0) + b := by
  by_cases hclaim : ∃ rows, op = .scheduleReadyJobs ∧ reply = .jobs rows
  · obtain ⟨rows, rfl, rfl⟩ := hclaim
    change _ + (rows.map (Op.enqueueClaimed now)).countP (Op.enqueues k) ≤ _
    cases second with
    | true => cases hc
    | false =>
        obtain rfl := Option.some.inj hc
        obtain ⟨hst, hrep⟩ := Prod.mk.inj (Option.some.inj hx)
        obtain rfl := Reply.jobs.inj hrep
        have hone := countP_claimed_le_one s.store.jobs now cfg.batchSize locked k
        rcases Nat.eq_zero_or_pos (((claimPendingJobs s.store.jobs now cfg.batchSize locked).2.map
          (Op.enqueueClaimed now)).countP (Op.enqueues k)) with hzero | hpos
        · omega
        · obtain ⟨op', hop', henq⟩ := List.countP_pos_iff.mp hpos
          obtain ⟨job, hjob, rfl⟩ := List.mem_map.mp hop'
          have hid : job.id = k := Op.enqueues_enqueueClaimed henq
          -- the row was `PENDING`, and is `QUEUED`
          obtain ⟨r₀, hr₀, hclaimable, hjob₀⟩ := mem_claimPendingJobs hjob
          have hbefore : isPending k s = true := by
            rw [isPending, ← hid, hjob₀, claimed_id, Table.mem_iff_find?.mp hr₀]
            exact decide_eq_true hclaimable.1
          have hafter : isPending k s' = false := by
            rw [isPending, ← hst, ← hid]
            dsimp only
            rw [find?_of_mem_claim hjob, hjob₀]
            rfl
          rw [hbefore, hafter, if_pos rfl, if_neg Bool.false_ne_true]
          omega
  · rw [Op.spawned_eq_nil fun rows ho hr => hclaim ⟨rows, ho, hr⟩]
    exact hle

/-- **The step lemma**: an addition is paid for by the job's waiting. -/
theorem waiting_step (hs : s.step cfg e = some s') :
    waiting k s' + (if addsJob cfg k s e = true then 1 else 0) ≤
      waiting k s + if becomesPending cfg k s e = true then 1 else 0 := by
  have hpending := isPending_step (k := k) hs
  have hmoved : ∀ {run : ℕ} {op op' : Op}, s.ops[run]? = some op → op'.enqueues k = false →
      (s.moveTo run op' []).ops.countP (Op.enqueues k) ≤ s.ops.countP (Op.enqueues k) := by
    intro run op op' hop hno
    have hm := countP_moveTo (Op.enqueues k) op' hop []
    rw [hno, if_neg Bool.false_ne_true, List.countP_nil] at hm
    omega
  have hstays : s'.ops.countP (Op.enqueues k) ≤ s.ops.countP (Op.enqueues k) →
      addsJob cfg k s e = false → waiting k s' + (if addsJob cfg k s e = true then 1 else 0) ≤
        waiting k s + if becomesPending cfg k s e = true then 1 else 0 := by
    intro hle hno
    rw [hno, if_neg Bool.false_ne_true]
    unfold waiting
    omega
  cases stepTo_of_step hs with
  | @answered run second now locked op c st reply hop hc hx =>
      have hadds : addsJob cfg k s (.call run second now .ok locked) = op.enqueues k := by
        simp [addsJob, calling_call hop hc]
      have hm := countP_moveTo (Op.enqueues k) (op.resume (s.graph op.process) now second reply).1
        hop (op.resume (s.graph op.process) now second reply).2.1
      rw [Op.not_enqueues_resume, if_neg Bool.false_ne_true, Nat.add_zero] at hm
      have hpay := isPending_claim (g := s.graph op.process) hc hx hpending
      rw [hadds]
      change _ + (s.moveTo run _ _).ops.countP _ + _ ≤ _ + _ + _
      omega
  | @errored run second now outcome locked op c st hop hc _ _ =>
      have hadds : addsJob cfg k s (.call run second now outcome locked) = op.enqueues k := by
        simp [addsJob, calling_call hop hc]
      have hm := countP_moveTo (Op.enqueues k) (op.abort second).1 hop (op.abort second).2
      have hleft : (op.abort second).2.countP (Op.enqueues k) = 0 :=
        List.countP_eq_zero.mpr fun op' hop' => by
          rw [Op.not_enqueues_abort (.inr hop')]
          exact Bool.false_ne_true
      rw [Op.not_enqueues_abort (.inl rfl), hleft, if_neg Bool.false_ne_true] at hm
      rw [hadds]
      change _ + (s.moveTo run _ _).ops.countP _ + _ ≤ _ + _ + _
      omega
  | @start op hr =>
      have hop : op.enqueues k = false := by cases op <;> first | rfl | exact hr.elim
      refine hstays ?_ rfl
      rw [List.countP_append, List.countP_singleton, hop]
      exact le_rfl
  | pickUp =>
      refine hstays ?_ rfl
      rw [List.countP_append, List.countP_singleton]
      exact le_rfl
  | execute hop => exact hstays (hmoved hop rfl) rfl
  | executed hop => exact hstays (hmoved hop rfl) rfl
  | executeRejected hop => exact hstays (hmoved hop rfl) rfl
  | settle hop => exact hstays (hmoved hop rfl) rfl
  | @crash run =>
      refine hstays ?_ rfl
      cases hop : s.ops[run]? with
      | some op => exact hmoved hop rfl
      | none =>
          have hlen := List.getElem?_eq_none_iff.mp hop
          rw [moveTo, List.append_nil, List.set_eq_of_length_le hlen]
  | stall | promote | evict | restart => exact hstays le_rfl rfl

/-- **A job is handed to the queue at most once for each time it has become `PENDING`**, by any
number of schedulers that poll at once, with any failing calls, lost answers and crashes. -/
theorem added_once_for_each_waiting {es : List Event} (h : Run (step cfg) anyStep init es s)
    (k : JobId) :
    tally (step cfg) (addsJob cfg k) init es ≤ tally (step cfg) (becomesPending cfg k) init es := by
  have hle : tally (step cfg) (addsJob cfg k) init es + waiting k s ≤
      waiting k init + tally (step cfg) (becomesPending cfg k) init es :=
    h.spent_add_left_le (I := fun _ => True) trivial
      fun _ _ _ _ _ _ hs => ⟨trivial, waiting_step (k := k) hs⟩
  have hnone : waiting k init = 0 := rfl
  omega

/-- Two schedulers poll at the same time, and one of them adds `a`. Its call fails, the claim is
reverted, and the next poll adds `a` again. -/
theorem two_polls_add_once : ∃ es s, Run (step {}) anyStep init es s ∧
    tally (step {}) (addsJob {} "a") init es = 2 ∧
    tally (step {}) (addsJob {} "a") init es ≤ tally (step {}) (becomesPending {} "a") init es := by
  obtain ⟨s, hs, -⟩ := exists_run_of_check (step {}) anyStep init
    [.start (.submitJob 0 "a" simpleDto), .call 0 false 1 .ok [], .start .scheduleReadyJobs,
      .start .scheduleReadyJobs, .call 1 false 2 .ok [], .call 2 false 2 .ok [],
      .call 3 false 3 .fail [], .call 3 false 3 .ok [], .start .scheduleReadyJobs,
      .call 4 false 4 .ok [], .call 5 false 5 .ok []] (fun _ => true) (by decide)
  exact ⟨_, s, hs, by decide, added_once_for_each_waiting hs "a"⟩

end Sys

end TaskOrchestration

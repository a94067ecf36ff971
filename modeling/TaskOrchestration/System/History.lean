import TaskOrchestration.System.Deliveries
import TaskOrchestration.System.Payloads

set_option autoImplicit false

/-!
# The execution history

The row of an attempt is created `RUNNING`, and the run that has created it completes it when the
attempt ends. Nothing else writes it. So the history is never rewritten: a row that has ended stays
as it is, whatever fails, crashes or is delivered again.

* `Op.holdsLog`: the operation has the log row `n` still to complete; `holdsLog_resume`,
  `holdsLog_abort`;
* `account`: who has the row `n` to create or to complete, and whether it has ended;
  **`account_step`**: a step adds nothing to it;
* `Extends`: rows are added, and rows that have not ended may end;
* **`history_kept`**: what holds between two states of a run.
-/

namespace TaskOrchestration

open LabelledRun

/-! ## The rows -/

def ExecutionLog.ended (l : ExecutionLog) : Bool := l.completedAt.isSome

/-- What is written of an attempt when it begins. -/
def ExecutionLog.opening (l : ExecutionLog) : ℕ × JobId × String × ℕ × Time × Time :=
  (l.id, l.jobId, l.workerId, l.attemptNumber, l.startedAt, l.createdAt)

/-- **The later history**: rows are added behind, a row keeps what was written at its beginning,
and one that has ended is the same. -/
def Extends (logs logs' : List ExecutionLog) : Prop :=
  ∀ (n : ℕ) (l : ExecutionLog), logs[n]? = some l →
    ∃ l', logs'[n]? = some l' ∧ l'.opening = l.opening ∧ (l.ended = true → l' = l)

theorem Extends.refl (logs : List ExecutionLog) : Extends logs logs :=
  fun _ l hl => ⟨l, hl, rfl, fun _ => rfl⟩

theorem Extends.trans {logs logs' logs'' : List ExecutionLog} (h : Extends logs logs')
    (h' : Extends logs' logs'') : Extends logs logs'' := by
  intro n l hl
  obtain ⟨l', hl', ho, hsame⟩ := h n l hl
  obtain ⟨l'', hl'', ho', hsame'⟩ := h' n l' hl'
  refine ⟨l'', hl'', ho'.trans ho, fun hend => ?_⟩
  obtain rfl := hsame hend
  exact hsame' hend

def Call.creates (logs : List ExecutionLog) (n : ℕ) : Call → Bool
  | createLog _ => logs.length = n
  | _ => false

def Call.completes (n : ℕ) : Call → Bool
  | completeLog dto => dto.id = n
  | _ => false

/-- One if the row `n` has still to be created, or has ended. -/
def rowAccount (logs : List ExecutionLog) (n : ℕ) : ℕ :=
  (if logs.length ≤ n then 1 else 0) + if logs[n]?.any ExecutionLog.ended = true then 1 else 0

theorem rowAccount_create (logs : List ExecutionLog) (l : ExecutionLog) (hl : l.ended = false)
    (n : ℕ) : rowAccount (logs ++ [l]) n + (if logs.length = n then 1 else 0) =
      rowAccount logs n := by
  unfold rowAccount
  rw [List.length_append, List.length_singleton]
  rcases lt_trichotomy n logs.length with hlt | rfl | hgt
  · rw [List.getElem?_append_left hlt]
    have h₁ : ¬ logs.length ≤ n := by omega
    have h₂ : ¬ logs.length + 1 ≤ n := by omega
    rw [if_neg h₁, if_neg h₂, if_neg hlt.ne', Nat.add_zero]
  · simp [hl]
  · rw [List.getElem?_append_right hgt.le, List.getElem?_eq_none hgt.le,
      List.getElem?_eq_none (by rw [List.length_singleton]; omega), if_neg hgt.ne]
    simp only [Option.any_none, Bool.false_eq_true, if_false, Nat.add_zero]
    rw [if_pos (by omega), if_pos hgt.le]

theorem rowAccount_complete {logs : List ExecutionLog} (h : Indexed logs)
    (dto : CompleteExecutionLogDto) (n : ℕ) :
    rowAccount (logs.map (completedIn dto)) n ≤
      rowAccount logs n + if dto.id = n then 1 else 0 := by
  unfold rowAccount
  rw [List.length_map, List.getElem?_map]
  cases hn : logs[n]? with
  | none => simp
  | some l =>
      rw [Option.map_some, completedIn, h n l hn]
      by_cases hid : n = dto.id
      · rw [if_pos hid, if_pos hid.symm]
        split_ifs <;> omega
      · rw [if_neg hid, if_neg (Ne.symm hid)]
        omega

/-- **A call** completes a row that is there, and creates one that is not. -/
theorem rowAccount_exec {st st' : Store} {now : Time} {locked : List JobId} {c : Call}
    {reply : Reply} (h : Indexed st.logs) (hx : st.exec now locked c = some (st', reply)) (n : ℕ) :
    rowAccount st'.logs n + (if c.creates st.logs n = true then 1 else 0) ≤
      rowAccount st.logs n + if c.completes n = true then 1 else 0 := by
  cases c with
  | createLog dto =>
      obtain ⟨rfl, -⟩ := Prod.mk.inj (Option.some.inj hx)
      have hone := rowAccount_create st.logs (ExecutionRepository.newLog st.logs.length now dto)
        rfl n
      simpa [Call.creates, Call.completes] using hone.le
  | completeLog dto =>
      obtain ⟨rfl, -⟩ := Prod.mk.inj (Option.some.inj hx)
      have hone := rowAccount_complete h dto n
      simp only [Call.creates, Call.completes, Bool.false_eq_true, if_false, Nat.add_zero,
        decide_eq_true_eq]
      exact hone
  | _ =>
      rw [logs_exec hx (fun _ he => Call.noConfusion he) fun _ he => Call.noConfusion he]
      exact le_rfl

/-- **The rows after a call** that completes no row that has ended. -/
theorem extends_exec {st st' : Store} {now : Time} {locked : List JobId} {c : Call}
    {reply : Reply} (h : Indexed st.logs) (hx : st.exec now locked c = some (st', reply))
    (hopen : ∀ n l, c.completes n = true → st.logs[n]? = some l → l.ended = false) :
    Extends st.logs st'.logs := by
  intro n l hl
  cases c with
  | createLog dto =>
      obtain ⟨rfl, -⟩ := Prod.mk.inj (Option.some.inj hx)
      exact ⟨l, getElem?_append_of_some hl _, rfl, fun _ => rfl⟩
  | completeLog dto =>
      obtain ⟨rfl, -⟩ := Prod.mk.inj (Option.some.inj hx)
      refine ⟨completedIn dto l, ?_, ?_, fun hend => ?_⟩
      · rw [List.getElem?_map, hl]
        rfl
      · unfold completedIn
        split_ifs <;> rfl
      · refine if_neg fun hid => ?_
        have hn : dto.id = n := hid.symm.trans (h n l hl)
        rw [hopen n l (decide_eq_true hn) hl] at hend
        cases hend
  | _ =>
      rw [logs_exec hx (fun _ he => Call.noConfusion he) fun _ he => Call.noConfusion he]
      exact ⟨l, hl, rfl, fun _ => rfl⟩

/-! ## Who completes a row -/

/-- The run has the log row `n` still to complete. -/
def ProcessPc.holdsLog (n : ℕ) : ProcessPc → Bool
  | setRunning _ id _ | execute _ id | executing _ id => id = n
  | success _ id _ _ logWritten => id = n && !logWritten
  | failRead f | failLog _ f => f.execLogId = n
  | _ => false

/-- **An answer**: the run has the row to complete that it had, or the one it has created. -/
theorem ProcessPc.holdsLog_resume {st st' : Store} {g : DependencyResolver.Graph} {now : Time}
    {locked : List JobId} {workerId : String} {data : QueueJobPayload} {pc : ProcessPc}
    {second : Bool} {c : Call} {reply : Reply} {n : ℕ}
    (hc : pc.call workerId data second = some c) (hx : st.exec now locked c = some (st', reply))
    (h : (pc.resume g now data second reply).1.holdsLog n = true) :
    c.completes n = false ∧ (pc.holdsLog n = true ∨ c.creates st.logs n = true) := by
  have hafter : ∀ status m, (afterResolver status m).holdsLog n = false :=
    afterResolver_eq_false (fun _ _ => rfl) rfl rfl
  cases pc with
  | createLog job startedAt =>
      cases second with
      | true => cases hc
      | false =>
          obtain rfl := Option.some.inj hc
          obtain ⟨-, rfl⟩ := Prod.mk.inj (Option.some.inj hx)
          exact ⟨rfl, .inr h⟩
  | setRunning job id startedAt =>
      cases second with
      | true => cases hc
      | false =>
          obtain rfl := Option.some.inj hc
          exact ⟨rfl, .inl h⟩
  | success r id t rowWritten logWritten =>
      cases rowWritten <;> cases logWritten
      case false.false =>
        cases second with
        | true =>
            rw [resume, holdsLog, Bool.not_true, Bool.and_false] at h
            cases h
        | false =>
            obtain rfl := Option.some.inj hc
            exact ⟨rfl, .inl h⟩
      all_goals cases second <;> first
        | exact absurd ((hafter _ _).symm.trans h) Bool.false_ne_true
        | cases hc
  | failRead f =>
      cases second with
      | true => cases hc
      | false =>
          obtain rfl := Option.some.inj hc
          rcases reply with ⟨_ | job⟩ | _ | _ | _ | _
          · cases h
          · exact ⟨rfl, .inl h⟩
          all_goals cases h
  | fetch =>
      rcases reply with ⟨_ | job⟩ | _ | _ | _ | _
      · cases h
      · dsimp only [resume] at h
        split_ifs at h <;> cases h
      all_goals cases h
  | failLog job f =>
      dsimp only [resume] at h
      split_ifs at h <;> cases h
  | failDlq job f => exact absurd ((hafter _ _).symm.trans h) Bool.false_ne_true
  | notify status more => exact absurd ((hafter _ _).symm.trans h) Bool.false_ne_true
  | execute job id | executing job id => cases second <;> cases hc
  | _ => cases h

namespace Op

/-- **The operation has the log row `n` still to complete.** -/
def holdsLog (n : ℕ) : Op → Bool
  | processJob _ _ _ _ pc => pc.holdsLog n
  | orphan (.completeLog dto) => dto.id = n
  | _ => false

variable {cfg : Config} {op : Op} {second : Bool} {c : Call} {n : ℕ}

theorem holdsLog_of_completes (hc : op.pending cfg second = some c) (h : c.completes n = true) :
    op.holdsLog n = true := by
  cases c with
  | completeLog dto =>
      unfold pending at hc
      split at hc
      case h_1 process workerId entry data pc =>
        unfold ProcessPc.call at hc
        split at hc
        case h_5 =>
          obtain rfl := Call.completeLog.inj (Option.some.inj hc)
          simpa [holdsLog, ProcessPc.holdsLog, Call.completes] using h
        case h_7 =>
          obtain rfl := Call.completeLog.inj (Option.some.inj hc)
          exact h
        all_goals cases hc
      case h_15 =>
        obtain rfl := Option.some.inj hc
        exact h
      all_goals cases hc
  | _ => cases h

theorem not_holdsLog_spawned (g : DependencyResolver.Graph) (now : Time) (reply : Reply) :
    (op.resume g now second reply).2.1.countP (holdsLog n) = 0 := by
  refine List.countP_eq_zero.mpr fun op' hop' => ?_
  have hl := leads_of_resume (.inr hop')
  cases hl with
  | processJob => cases hop'
  | _ => exact Bool.false_ne_true

theorem holdsLog_resume {st st' : Store} {g : DependencyResolver.Graph} {now : Time}
    {locked : List JobId} {reply : Reply} (hc : op.pending cfg second = some c)
    (hx : st.exec now locked c = some (st', reply)) :
    (if (op.resume g now second reply).1.holdsLog n = true then 1 else 0) +
        (if c.completes n = true then 1 else 0) ≤
      (if op.holdsLog n = true then 1 else 0) + if c.creates st.logs n = true then 1 else 0 := by
  by_cases hnew : (op.resume g now second reply).1.holdsLog n = true
  · have hl := leads_of_resume (.inl (Eq.refl (op.resume g now second reply).1))
    generalize (op.resume g now second reply).1 = op' at hnew hl
    cases hl with
    | processJob =>
        obtain ⟨hno, hold⟩ := ProcessPc.holdsLog_resume hc hx hnew
        rw [if_pos hnew, hno]
        rcases hold with hold | hcreate
        · exact (Nat.le_of_eq (if_pos hold).symm).trans (Nat.le_add_right _ _)
        · exact (Nat.le_of_eq (if_pos hcreate).symm).trans (Nat.le_add_left _ _)
    | _ => cases hnew
  · rw [if_neg hnew]
    by_cases hcomp : c.completes n = true
    · rw [if_pos hcomp, if_pos (holdsLog_of_completes hc hcomp)]
      omega
    · rw [if_neg hcomp]
      omega

/-- **What an error leaves behind** is the completion of the row that the run had to complete,
when the call that has failed is the other one. -/
theorem holdsLog_of_left {op' : Op} (hc : op.pending cfg second = some c)
    (hop' : op' ∈ (op.abort second).2) (h : op'.holdsLog n = true) :
    op.holdsLog n = true ∧ c.completes n = false := by
  unfold abort at hop'
  split at hop'
  case h_1 process workerId entry data pc =>
    obtain ⟨c', hc', rfl⟩ := Option.map_eq_some_iff.mp (Option.mem_toList.mp hop')
    unfold ProcessPc.other at hc'
    split at hc'
    case h_1 r id t rowWritten logWritten =>
      change ProcessPc.call workerId data _ second = some c at hc
      cases second <;> cases rowWritten <;> cases logWritten
      case false.false.false =>
        obtain rfl := Option.some.inj hc
        obtain rfl := Option.some.inj hc'
        exact ⟨by simpa [holdsLog, ProcessPc.holdsLog] using h, rfl⟩
      case true.false.false =>
        obtain rfl := Option.some.inj hc'
        cases h
      all_goals first
        | (simp only [ProcessPc.call, reduceCtorEq] at hc; done)
        | simp only [ProcessPc.call, Bool.not_true, Bool.not_false, reduceCtorEq] at hc'
    case h_2 => cases hc'
  all_goals cases hop'

theorem holdsLog_abort (hc : op.pending cfg second = some c) :
    (if (op.abort second).1.holdsLog n = true then 1 else 0) +
        (op.abort second).2.countP (holdsLog n) + (if c.completes n = true then 1 else 0) ≤
      if op.holdsLog n = true then 1 else 0 := by
  have hfirst : (op.abort second).1.holdsLog n = false := by
    unfold abort
    split <;> rfl
  have hlen : (op.abort second).2.length ≤ 1 := by
    unfold abort
    split
    · cases ProcessPc.other _ _ _ second <;> simp
    all_goals exact Nat.zero_le 1
  have hle : (op.abort second).2.countP (holdsLog n) ≤ 1 := List.countP_le_length.trans hlen
  rw [hfirst, if_neg Bool.false_ne_true, Nat.zero_add]
  rcases Nat.eq_zero_or_pos ((op.abort second).2.countP (holdsLog n)) with hzero | hpos
  · rw [hzero, Nat.zero_add]
    by_cases hcomp : c.completes n = true
    · rw [if_pos hcomp, if_pos (holdsLog_of_completes hc hcomp)]
    · rw [if_neg hcomp]
      exact Nat.zero_le _
  · obtain ⟨op', hop', hop⟩ := List.countP_pos_iff.mp hpos
    obtain ⟨hhas, hcomp⟩ := holdsLog_of_left hc hop' hop
    rw [hcomp, if_pos hhas]
    exact hle

end Op

namespace Sys

variable {cfg : Config} {s s' : Sys} {e : Event} {n : ℕ}

/-- **The account of a log row**: who has it to create or to complete, and whether it has ended. -/
def account (n : ℕ) (s : Sys) : ℕ := s.ops.countP (Op.holdsLog n) + rowAccount s.store.logs n

theorem account_moved {run : ℕ} {op op' : Op} (hop : s.ops[run]? = some op)
    (hops : s'.ops = s.ops.set run op' ++ []) (hlogs : s'.store.logs = s.store.logs)
    (h : op'.holdsLog n = true → op.holdsLog n = true) : account n s' ≤ account n s := by
  have hm : s'.ops.countP (Op.holdsLog n) + (if op.holdsLog n then 1 else 0) =
      s.ops.countP (Op.holdsLog n) + (if op'.holdsLog n then 1 else 0) := by
    rw [hops]
    exact countP_moveTo (Op.holdsLog n) op' hop []
  unfold account
  rw [hlogs]
  by_cases hnew : op'.holdsLog n = true
  · rw [if_pos hnew, if_pos (h hnew)] at hm
    omega
  · rw [if_neg hnew] at hm
    omega

/-- **The step lemma**: a step adds nothing to the account of a row. -/
theorem account_step (hids : Indexed s.store.logs) (hs : s.step cfg e = some s') :
    account n s' ≤ account n s := by
  cases stepTo_of_step hs with
  | @start op hr =>
      have hop : op.holdsLog n = false := by cases op <;> first | rfl | exact hr.elim
      simp [account, List.countP_append, hop]
  | pickUp => simp [account, List.countP_append, Op.holdsLog, ProcessPc.holdsLog]
  | @answered run second now locked op c st reply hop hc hx =>
      have hm := countP_moveTo (Op.holdsLog n)
        (op.resume (s.graph op.process) now second reply).1 hop
        (op.resume (s.graph op.process) now second reply).2.1
      rw [Op.not_holdsLog_spawned, Nat.add_zero] at hm
      have hop := Op.holdsLog_resume (n := n) (g := s.graph op.process) hc hx
      have hrow := rowAccount_exec hids hx n
      change (s.moveTo run _ _).ops.countP (Op.holdsLog n) + rowAccount st.logs n ≤ _
      unfold account
      omega
  | @errored run second now outcome locked op c st hop hc _ hst =>
      have hm := countP_moveTo (Op.holdsLog n) (op.abort second).1 hop (op.abort second).2
      have hop := Op.holdsLog_abort (n := n) hc
      have hrow : rowAccount st.logs n ≤
          rowAccount s.store.logs n + if c.completes n = true then 1 else 0 := by
        rcases hst with ⟨rfl, -⟩ | ⟨-, reply, hx⟩
        · exact Nat.le_add_right _ _
        · exact (Nat.le_add_right _ _).trans (rowAccount_exec hids hx n)
      change (s.moveTo run _ _).ops.countP (Op.holdsLog n) + rowAccount st.logs n ≤ _
      unfold account
      omega
  | execute hop => exact account_moved hop rfl rfl fun h => h
  | @executed run process now result workerId entry data job id hop =>
      refine account_moved hop rfl rfl fun h => ?_
      unfold afterExecution at h
      split_ifs at h
      · simpa [Op.holdsLog, ProcessPc.holdsLog] using h
      all_goals exact h
  | executeRejected hop =>
      refine account_moved hop rfl rfl fun h => ?_
      cases h
  | settle hop =>
      refine account_moved hop rfl rfl fun h => ?_
      cases h
  | @crash run =>
      cases hop : s.ops[run]? with
      | some op =>
          refine account_moved hop rfl rfl fun h => ?_
          cases h
      | none =>
          have hlen := List.getElem?_eq_none_iff.mp hop
          rw [moveTo, List.append_nil, List.set_eq_of_length_le hlen]
  | stall | promote | evict | restart => exact le_rfl

/-- **The invariant**: a row has its place as id, and one at most has it to create, has it to
complete, or has completed it. -/
structure Accounted (s : Sys) : Prop where
  ids : Indexed s.store.logs
  once : ∀ n, account n s ≤ 1

theorem accounted_init : Accounted init where
  ids := fun i log h => absurd h (by rw [init, Store.empty, List.getElem?_nil]; exact nofun)
  once := fun n => by
    have hrow : rowAccount [] n = 1 := by simp [rowAccount]
    exact ((Nat.zero_add _).trans hrow).le

theorem accounted_step (h : Accounted s) (hs : s.step cfg e = some s') : Accounted s' := by
  refine ⟨?_, fun n => (account_step h.ids hs).trans (h.once n)⟩
  rcases step_tables hs with ⟨-, hlogs, -⟩ | ⟨op, hop, second, now, locked, c, reply, hc, hx⟩
  · exact hlogs ▸ h.ids
  · exact indexed_exec h.ids hx

theorem extends_step (h : Accounted s) (hs : s.step cfg e = some s') :
    Extends s.store.logs s'.store.logs := by
  rcases step_tables hs with ⟨-, hlogs, -⟩ | ⟨op, hop, second, now, locked, c, reply, hc, hx⟩
  · rw [hlogs]
    exact .refl _
  · refine extends_exec h.ids hx fun n l hcomp hl => ?_
    -- the one that completes the row is the only entry of its account
    have hone := h.once n
    have hpos : 0 < s.ops.countP (Op.holdsLog n) :=
      List.countP_pos_iff.mpr ⟨op, hop, Op.holdsLog_of_completes hc hcomp⟩
    rw [← Bool.not_eq_true]
    intro hend
    have hrow : 0 < rowAccount s.store.logs n := by
      rw [rowAccount, hl, Option.any_some, if_pos hend]
      omega
    unfold account at hone
    omega

/-- **The history is kept**, in every interleaving, with any failing calls, lost answers, crashes
and repeated deliveries: from a state of a run to every later one, no row of `execution_logs` is
removed or reordered, what was written when the attempt began stays, and the row of an attempt
that has ended never changes again. -/
theorem history_kept {es es' : List Event} (h : Run (step cfg) anyStep init es s)
    (h' : Run (step cfg) anyStep s es' s') : Extends s.store.logs s'.store.logs := by
  have hacc : Accounted s := h.stable (P := Accounted) accounted_init
    fun _ _ _ _ hi _ hs => accounted_step hi hs
  have hboth : Accounted s' ∧ Extends s.store.logs s'.store.logs := by
    refine h'.stable (P := fun t => Accounted t ∧ Extends s.store.logs t.store.logs)
      ⟨hacc, .refl _⟩ ?_
    rintro _ t _ t' ⟨hi, hext⟩ - hs
    exact ⟨accounted_step hi hs, hext.trans (extends_step hi hs)⟩
  exact hboth.2

/-- The row of the failed attempt of `a` stays when the job is retried and runs again. -/
theorem failed_attempt_kept : ∃ s s' : Sys, Run (step {}) anyStep init lastAttempt s ∧
    (∃ l ∈ s.store.logs, l.ended = true) ∧ Extends s.store.logs s'.store.logs ∧
    s'.store.logs.length = 2 := by
  obtain ⟨s', hs', hp⟩ := exists_run_of_check (step {}) (stateGuard fun _ _ => True) init
    (lastAttempt ++ ([.start (.retryJob "a" "org1"), .call 4 false 12 .ok [],
      .call 4 false 13 .ok [], .evict (.job "a"), .start .scheduleReadyJobs,
      .call 5 false 14 .ok [], .call 6 false 15 .ok [], .pickUp 1 "w" (.job "a")] ++ executes 7))
    (fun s => s.store.logs.length = 2) (by decide)
  obtain ⟨s, hs, hrest⟩ := hs'.append_inv
  obtain ⟨t, ht, hended⟩ := exists_run_of_check (step {}) (stateGuard fun _ _ => True) init
    lastAttempt (fun s => ∃ l ∈ s.store.logs, l.ended = true) (by decide)
  obtain rfl := Option.some.inj (ht.runEvents_eq.symm.trans hs.runEvents_eq)
  exact ⟨t, s', hs, of_decide_eq_true hended, history_kept hs hrest,
    of_decide_eq_true hp⟩

end Sys

end TaskOrchestration

import TaskOrchestration.System.Step

set_option autoImplicit false

/-!
# The rows of a job during a run

A run of `processJob` writes the row and its log row by separate calls, with the status chosen
separately on each branch. On success both get `COMPLETED`; when the retries are exhausted the log
row gets what `handleFailure` was called with, and the row gets `FAILED`.

* `rowStatus`, `latestLog`, `Settled`: a job that is over has the status of its last log row;
* `ProcessPc.writing`, `ProcessPc.Consistent`: what the rows say at each place of a run;
* **`ProcessPc.answered_call`**: an answer keeps a run consistent, and a run that has no status to
  write any more leaves the rows in agreement, unless it gave up a job that timed out;
* `rowStatus_exec`, `latestLog_exec_ne`: what calls do to the rows of the other jobs.
-/

namespace TaskOrchestration

open JobRepository LabelledRun

def ExecutionStatus.toText : ExecutionStatus → String
  | running => "RUNNING"
  | completed => "COMPLETED"
  | failed => "FAILED"
  | timedOut => "TIMED_OUT"
  | cancelled => "CANCELLED"

/-- The statuses of a job that is over, cancellation apart. -/
def terminal : List JobStatus := [.completed, .failed, .timedOut]

def rowStatus (t : JobTable) (k : JobId) : Option JobStatus := (t.find? k).map Job.status

/-- The log row of the job `k` that was created last. -/
def latestLog (logs : List ExecutionLog) (k : JobId) : Option ExecutionLog :=
  (logs.filter (·.jobId = k)).getLast?

/-- A job that is over has the status of its last log row. -/
def Settled (x : Option JobStatus) (l : Option ExecutionLog) : Prop :=
  ∀ y ∈ x, y ∈ terminal → ∃ log ∈ l, log.status.toText = y.toText

/-- The row is there, and the job is not over. -/
def Open (x : Option JobStatus) : Prop := ∃ y, x = some y ∧ y ∉ terminal

theorem Open.settled {x : Option JobStatus} (h : Open x) (l : Option ExecutionLog) :
    Settled x l := by
  intro y hy ht
  obtain ⟨z, rfl, hz⟩ := h
  exact absurd (Option.some.inj hy ▸ ht) hz

theorem rowStatus_update (t : JobTable) (id : JobId) (now : Time) (dto : UpdateJobDto)
    (k : JobId) : rowStatus (update t id now dto).1 k =
      if k = id then (rowStatus t k).map fun x => dto.status.getD x else rowStatus t k := by
  unfold rowStatus
  rw [find?_update]
  split_ifs
  · rw [Option.map_map, Option.map_map]
    rfl
  · rfl

theorem latestLog_create (logs : List ExecutionLog) (id : ℕ) (now : Time)
    (dto : CreateExecutionLogDto) (k : JobId) :
    latestLog (logs ++ [ExecutionRepository.newLog id now dto]) k =
      if dto.jobId = k then some (ExecutionRepository.newLog id now dto) else latestLog logs k := by
  unfold latestLog
  rw [List.filter_append]
  by_cases hk : dto.jobId = k
  · simp [ExecutionRepository.newLog, hk]
  · simp [ExecutionRepository.newLog, hk]

/-- The row of the log that `complete` changes. -/
def completedIn (dto : CompleteExecutionLogDto) (r : ExecutionLog) : ExecutionLog :=
  if r.id = dto.id then ExecutionRepository.completed dto r else r

theorem completedIn_jobId (dto : CompleteExecutionLogDto) (r : ExecutionLog) :
    (completedIn dto r).jobId = r.jobId ∧ (completedIn dto r).id = r.id := by
  unfold completedIn
  split_ifs <;> exact ⟨rfl, rfl⟩

theorem latestLog_complete (logs : List ExecutionLog) (dto : CompleteExecutionLogDto)
    (k : JobId) : latestLog (logs.map (completedIn dto)) k =
      (latestLog logs k).map (completedIn dto) := by
  have hfilter : (logs.map (completedIn dto)).filter (·.jobId = k) =
      (logs.filter (·.jobId = k)).map (completedIn dto) := by
    rw [List.filter_map]
    congr 1
    apply List.filter_congr
    intro r _
    simp only [Function.comp_apply, (completedIn_jobId dto r).1]
  unfold latestLog
  rw [hfilter, List.getLast?_map]

namespace ProcessPc

/-- The run has its log row, and has a status to write to a row still. -/
def writing : ProcessPc → Bool
  | setRunning .. | execute .. | executing .. | success .. | failRead _ | failLog .. | failRetry _
  | failFinal .. => true
  | _ => false

/-- The run gives up a job whose execution has timed out. -/
def givesUpTimedOut : ProcessPc → Bool
  | failFinal _ f => f.finalStatus = .timedOut
  | _ => false

/-- What `handleFailure` is called with. -/
def Failing (f : Failure) (x : Option JobStatus) (l : Option ExecutionLog) : Prop :=
  Open x ∧ (∃ log ∈ l, log.id = f.execLogId) ∧
    (f.finalStatus = .failed ∨ f.finalStatus = .timedOut)

/-- **What the rows say** at each place of a run: `x` is the status of the job's row, and `l` is
its last log row. -/
def Consistent (x : Option JobStatus) (l : Option ExecutionLog) : ProcessPc → Prop
  | createLog _ _ => x.isSome = true
  | setRunning _ id _ => x.isSome = true ∧ ∃ log ∈ l, log.id = id
  | execute _ id | executing _ id => Open x ∧ ∃ log ∈ l, log.id = id
  | success _ id _ rowWritten logWritten =>
      x.isSome = true ∧ (∀ y ∈ x, y ∈ terminal → rowWritten = true ∧ y = .completed) ∧
        ∃ log ∈ l, log.id = id ∧ (logWritten = true → log.status = .completed)
  | failRead f => Failing f x l
  | failLog _ f => Failing f x l
  | failRetry _ => Open x
  | failFinal _ f => Open x ∧ (∃ log ∈ l, log.status = f.finalStatus) ∧
      (f.finalStatus = .failed ∨ f.finalStatus = .timedOut)
  | _ => True

variable {x : Option JobStatus} {l : Option ExecutionLog}

theorem consistent_afterResolver (status : JobStatus) (n : ℕ) :
    (afterResolver status n).Consistent x l ∧ (afterResolver status n).writing = false := by
  cases n with
  | zero =>
      unfold afterResolver
      split_ifs <;> exact ⟨trivial, rfl⟩
  | succ n => exact ⟨trivial, rfl⟩

/-- A row that is cancelled, or put back, by others is not over. -/
theorem Consistent.of_open {x' : Option JobStatus} {pc : ProcessPc} (h : pc.Consistent x l)
    (hx : x' = x ∨ Open x') : pc.Consistent x' l := by
  rcases hx with rfl | hx
  · exact h
  have hsome : x'.isSome = true := by
    obtain ⟨y, rfl, -⟩ := hx
    rfl
  cases pc with
  | createLog job startedAt => exact hsome
  | setRunning job id startedAt => exact ⟨hsome, h.2⟩
  | execute job id | executing job id => exact ⟨hx, h.2⟩
  | success r id t rowWritten logWritten =>
      refine ⟨hsome, fun y hy ht => ?_, h.2.2⟩
      obtain ⟨z, rfl, hz⟩ := hx
      exact absurd (Option.some.inj hy ▸ ht) hz
  | failRead f | failLog job f => exact ⟨hx, h.2⟩
  | failRetry job => exact hx
  | failFinal job f => exact ⟨hx, h.2⟩
  | _ => trivial

section Answer

variable {g : DependencyResolver.Graph} {now : Time} {locked : List JobId} {workerId : String}
  {data : QueueJobPayload} {pc : ProcessPc} {second : Bool} {c : Call} {st st' : Store}
  {reply : Reply}

/-- What an answer does to the rows of the job: the run that goes on is consistent with them, and
one that has no status to write any more leaves them in agreement, unless it has given up a job
whose execution has timed out. -/
def Answered (k : JobId) (st' : Store) (pc pc' : ProcessPc) : Prop :=
  pc'.Consistent (rowStatus st'.jobs k) (latestLog st'.logs k) ∧ (pc'.writing = false →
    (Settled (rowStatus st'.jobs k) (latestLog st'.logs k) ↔ pc.givesUpTimedOut = false))

theorem answered_of_settled {pc' : ProcessPc} {k : JobId}
    (hc : pc'.Consistent (rowStatus st'.jobs k) (latestLog st'.logs k))
    (hp : pc.givesUpTimedOut = false)
    (hs : Settled (rowStatus st'.jobs k) (latestLog st'.logs k)) : Answered k st' pc pc' :=
  ⟨hc, fun _ => iff_of_true hs hp⟩

theorem answered_of_writing {pc' : ProcessPc} {k : JobId}
    (hc : pc'.Consistent (rowStatus st'.jobs k) (latestLog st'.logs k))
    (hw : pc'.writing = true) : Answered k st' pc pc' :=
  ⟨hc, fun h => absurd (hw.symm.trans h) (by decide)⟩

theorem rowStatus_update_self {t : JobTable} {k : JobId} {dto : UpdateJobDto} {y : JobStatus}
    (hd : dto.status = some y) (hk : (rowStatus t k).isSome = true) (now : Time) :
    rowStatus (update t k now dto).1 k = some y := by
  obtain ⟨z, hz⟩ := Option.isSome_iff_exists.mp hk
  rw [rowStatus_update, if_pos rfl, hz, Option.map_some, hd, Option.getD_some]

theorem latestLog_complete_self {logs : List ExecutionLog} {k : JobId}
    {dto : CompleteExecutionLogDto} (h : ∃ log ∈ latestLog logs k, log.id = dto.id) :
    ∃ log ∈ latestLog (logs.map (completedIn dto)) k, log.id = dto.id ∧
      log.status = dto.status := by
  obtain ⟨log, hl, hid⟩ := h
  refine ⟨completedIn dto log, ?_, ?_, ?_⟩
  · rw [latestLog_complete, Option.mem_def.mp hl]
    rfl
  · rw [(completedIn_jobId dto log).2, hid]
  · rw [completedIn, if_pos hid]
    rfl

theorem Consistent.settled {result : ExecutionResult} {id : ℕ} {completedAt : Time}
    (h : (success result id completedAt true true).Consistent x l) : Settled x l := by
  intro y hy ht
  obtain ⟨-, hterm, log, hl, -, hlog⟩ := h
  refine ⟨log, hl, ?_⟩
  rw [(hterm y hy ht).2, hlog rfl]
  rfl

/-- **The writes of `success`**, in either order. -/
theorem answered_success {result : ExecutionResult} {id : ℕ} {completedAt : Time}
    {rowWritten logWritten : Bool}
    (hc : (success result id completedAt rowWritten logWritten).call workerId data second = some c)
    (hx : st.exec now locked c = some (st', reply))
    (h : (success result id completedAt rowWritten logWritten).Consistent
      (rowStatus st.jobs data.jobId) (latestLog st.logs data.jobId)) :
    Answered data.jobId st' (success result id completedAt rowWritten logWritten)
      ((success result id completedAt rowWritten logWritten).resume g now data second reply).1 := by
  obtain ⟨hrow, hterm, log, hl, hid, hlog⟩ := h
  cases second with
  | false =>
      cases rowWritten with
      | true => cases logWritten <;> cases hc
      | false =>
          -- the update of the row
          obtain ⟨dto, rfl, hd⟩ : ∃ dto, c = .update data.jobId dto ∧
              dto.status = some .completed := by
            cases logWritten <;> exact ⟨_, (Option.some.inj hc).symm, rfl⟩
          obtain ⟨rfl, -⟩ := Prod.mk.inj (Option.some.inj hx)
          have hst := rowStatus_update_self hd hrow now
          have h' : (success result id completedAt true logWritten).Consistent
              (some .completed) (latestLog st.logs data.jobId) :=
            ⟨rfl, fun y hy _ => ⟨rfl, (Option.some.inj hy).symm⟩, log, hl, hid, hlog⟩
          rw [← hst] at h'
          cases logWritten with
          | false => exact answered_of_writing h' rfl
          | true => exact answered_of_settled (consistent_afterResolver _ _).1 rfl h'.settled
  | true =>
      cases logWritten with
      | true => cases rowWritten <;> cases hc
      | false =>
          -- the completion of the log row
          obtain ⟨dto, rfl, hdto, hd⟩ : ∃ dto, c = .completeLog dto ∧ dto.id = id ∧
              dto.status = .completed := by
            cases rowWritten <;> exact ⟨_, (Option.some.inj hc).symm, rfl, rfl⟩
          obtain ⟨rfl, -⟩ := Prod.mk.inj (Option.some.inj hx)
          obtain ⟨log', hl', hid', hst'⟩ := latestLog_complete_self ⟨log, hl, hid.trans hdto.symm⟩
          have h' : (success result id completedAt rowWritten true).Consistent
              (rowStatus st.jobs data.jobId)
              (latestLog (st.logs.map (completedIn dto)) data.jobId) :=
            ⟨hrow, hterm, log', hl', hid'.trans hdto, fun _ => hst'.trans hd⟩
          cases rowWritten with
          | false => exact answered_of_writing h' rfl
          | true => exact answered_of_settled (consistent_afterResolver _ _).1 rfl h'.settled

theorem rowStatus_resolveDependency (t : JobTable) (now : Time) (id k : JobId) :
    rowStatus (resolveDependency t now id) k = rowStatus t k := by
  unfold rowStatus
  rw [find?_resolveDependency, Option.map_map]
  congr 1
  funext r
  rw [Function.comp_apply]
  split_ifs <;> rfl

/-- **The FAILED update** leaves the rows in agreement unless the execution has timed out. -/
theorem settled_failed_iff {f : Failure} (hl : ∃ log ∈ l, log.status = f.finalStatus)
    (hf : f.finalStatus = .failed ∨ f.finalStatus = .timedOut) :
    Settled (some .failed) l ↔ f.finalStatus ≠ .timedOut := by
  obtain ⟨log, hl, hlog⟩ := hl
  constructor
  · intro h ht
    obtain ⟨log', hl', htext⟩ := h .failed rfl (by decide)
    obtain rfl := Option.some.inj (hl.symm.trans hl')
    rw [hlog, ht] at htext
    exact absurd htext (by decide)
  · intro hn y hy _
    obtain rfl := Option.some.inj hy
    refine ⟨log, hl, ?_⟩
    rw [hlog, hf.resolve_right hn]
    rfl

theorem eq_success_of_second (hc : pc.call workerId data true = some c) :
    ∃ result id completedAt rowWritten logWritten,
      pc = success result id completedAt rowWritten logWritten := by
  cases pc with
  | success result id completedAt rowWritten logWritten => exact ⟨_, _, _, _, _, rfl⟩
  | _ => cases hc

/-- **An answer** keeps a run consistent with the rows of its job. -/
theorem answered_call (hc : pc.call workerId data second = some c)
    (hx : st.exec now locked c = some (st', reply))
    (h : pc.Consistent (rowStatus st.jobs data.jobId) (latestLog st.logs data.jobId))
    (hs : pc.writing = false →
      Settled (rowStatus st.jobs data.jobId) (latestLog st.logs data.jobId)) :
    Answered data.jobId st' pc (pc.resume g now data second reply).1 := by
  cases second with
  | true =>
      obtain ⟨result, id, completedAt, rowWritten, logWritten, rfl⟩ := eq_success_of_second hc
      exact answered_success hc hx h
  | false =>
      cases pc with
      | success result id completedAt rowWritten logWritten => exact answered_success hc hx h
      | execute job id | executing job id | resolved | rejected => cases hc
      | fetch =>
          obtain rfl := Option.some.inj hc
          obtain ⟨rfl, rfl⟩ := Prod.mk.inj (Option.some.inj hx)
          have hset := hs rfl
          cases hrow : st.jobs.find? data.jobId with
          | none =>
              rw [findById, hrow]
              exact answered_of_settled trivial rfl hset
          | some job =>
              rw [findById, hrow]
              dsimp only [resume]
              split_ifs
              · exact answered_of_settled trivial rfl hset
              · refine answered_of_settled ?_ rfl hset
                show (rowStatus st.jobs data.jobId).isSome = true
                rw [rowStatus, hrow]
                rfl
      | createLog job startedAt =>
          obtain ⟨dto, rfl, hj⟩ : ∃ dto, c = .createLog dto ∧ dto.jobId = data.jobId :=
            ⟨_, (Option.some.inj hc).symm, rfl⟩
          obtain ⟨rfl, rfl⟩ := Prod.mk.inj (Option.some.inj hx)
          have hl := latestLog_create st.logs st.logs.length now dto data.jobId
          rw [if_pos hj] at hl
          exact answered_of_writing ⟨h, _, hl, rfl⟩ rfl
      | setRunning job id startedAt =>
          obtain ⟨dto, rfl, hd⟩ : ∃ dto, c = .update data.jobId dto ∧
              dto.status = some .running := ⟨_, (Option.some.inj hc).symm, rfl⟩
          obtain ⟨rfl, -⟩ := Prod.mk.inj (Option.some.inj hx)
          have hst := rowStatus_update_self hd h.1 now
          exact answered_of_writing ⟨⟨_, hst, by decide⟩, h.2⟩ rfl
      | failRead f =>
          obtain rfl := Option.some.inj hc
          obtain ⟨rfl, rfl⟩ := Prod.mk.inj (Option.some.inj hx)
          obtain ⟨y, hy, -⟩ := h.1
          obtain ⟨job, hrow, -⟩ := Option.map_eq_some_iff.mp hy
          rw [findById, hrow]
          exact answered_of_writing h rfl
      | failLog job f =>
          obtain ⟨dto, rfl, hid, hd⟩ : ∃ dto, c = .completeLog dto ∧ dto.id = f.execLogId ∧
              dto.status = f.finalStatus := ⟨_, (Option.some.inj hc).symm, rfl, rfl⟩
          obtain ⟨rfl, -⟩ := Prod.mk.inj (Option.some.inj hx)
          obtain ⟨hopen, hl, hf⟩ := h
          rw [← hid] at hl
          obtain ⟨log, hl', -, hlog⟩ := latestLog_complete_self hl
          dsimp only [resume]
          split_ifs
          · exact answered_of_writing hopen rfl
          · exact answered_of_writing ⟨hopen, ⟨log, hl', hlog.trans hd⟩, hf⟩ rfl
      | failRetry job =>
          obtain ⟨dto, rfl, hd⟩ : ∃ dto, c = .update data.jobId dto ∧
              dto.status = some .retrying := ⟨_, (Option.some.inj hc).symm, rfl⟩
          obtain ⟨rfl, -⟩ := Prod.mk.inj (Option.some.inj hx)
          obtain ⟨y, hy, -⟩ := h
          have hst := rowStatus_update_self hd (Option.isSome_of_eq_some hy) now
          exact answered_of_settled trivial rfl (Open.settled ⟨_, hst, by decide⟩ _)
      | failFinal job f =>
          obtain ⟨dto, rfl, hd⟩ : ∃ dto, c = .update data.jobId dto ∧
              dto.status = some .failed := ⟨_, (Option.some.inj hc).symm, rfl⟩
          obtain ⟨rfl, -⟩ := Prod.mk.inj (Option.some.inj hx)
          obtain ⟨⟨y, hy, -⟩, hl, hf⟩ := h
          have hst := rowStatus_update_self hd (Option.isSome_of_eq_some hy) now
          refine ⟨trivial, fun _ => ?_⟩
          dsimp only
          rw [hst, settled_failed_iff hl hf, givesUpTimedOut, decide_eq_false_iff_not]
      | failDlq job f =>
          obtain rfl := Option.some.inj hc
          obtain ⟨rfl, -⟩ := Prod.mk.inj (Option.some.inj hx)
          exact answered_of_settled (consistent_afterResolver _ _).1 rfl (hs rfl)
      | notify status more =>
          obtain rfl := Option.some.inj hc
          obtain ⟨rfl, -⟩ := Prod.mk.inj (Option.some.inj hx)
          refine answered_of_settled (consistent_afterResolver _ _).1 rfl ?_
          rw [rowStatus_resolveDependency]
          exact hs rfl
      | metrics =>
          obtain rfl := Option.some.inj hc
          obtain ⟨rfl, rfl⟩ := Prod.mk.inj (Option.some.inj hx)
          exact answered_of_settled trivial rfl (hs rfl)

end Answer

theorem log_of_call {workerId : String} {data : QueueJobPayload} {pc : ProcessPc} {second : Bool}
    {c : Call} (hc : pc.call workerId data second = some c) (h : pc.Consistent x l) :
    (∃ dto, c = .createLog dto ∧ dto.jobId = data.jobId) ∨
      (∃ dto, c = .completeLog dto ∧ ∃ log ∈ l, log.id = dto.id) ∨
      ((∀ dto, c ≠ .createLog dto) ∧ ∀ dto, c ≠ .completeLog dto) := by
  unfold call at hc
  split at hc
  case h_2 => exact .inl ⟨_, (Option.some.inj hc).symm, rfl⟩
  case h_5 =>
    obtain ⟨-, -, log, hl, hid, -⟩ := h
    exact .inr (.inl ⟨_, (Option.some.inj hc).symm, log, hl, hid⟩)
  case h_7 => exact .inr (.inl ⟨_, (Option.some.inj hc).symm, h.2.1⟩)
  case h_13 => cases hc
  all_goals
    obtain rfl := Option.some.inj hc
    exact .inr (.inr ⟨fun _ he => Call.noConfusion he, fun _ he => Call.noConfusion he⟩)

end ProcessPc

/-! ## The rows of the other jobs -/

section Frame

variable {now : Time} {locked : List JobId} {c : Call} {st st' : Store} {reply : Reply} {k : JobId}

/-- **What a call can do to the status of a row** that it does not set to a terminal one. -/
theorem rowStatus_exec (hx : st.exec now locked c = some (st', reply))
    (hset : ∀ y, Sys.setsStatus k c = some y → y ∉ terminal) :
    rowStatus st'.jobs k = rowStatus st.jobs k ∨ Open (rowStatus st'.jobs k) := by
  unfold rowStatus
  cases hk : st.jobs.find? k with
  | some r =>
      obtain ⟨r', hr', hcase⟩ := Store.exec_status hx hk
      rw [hr', Option.map_some, Option.map_some]
      rcases hcase with hsame | ⟨dto, rfl, hd⟩ | ⟨-, hq, -⟩
      · exact .inl (congrArg some hsame)
      · exact .inr ⟨_, rfl, hset _ (by simp [Sys.setsStatus, hd])⟩
      · exact .inr ⟨_, rfl, by rw [hq]; decide⟩
  | none =>
      cases hk' : st'.jobs.find? k with
      | none => exact .inl rfl
      | some r' =>
          rcases Store.exec_row hx hk' with ⟨-, dto, -, rfl⟩ | ⟨r, hr, -⟩
          · exact .inr ⟨.pending, rfl, by decide⟩
          · rw [hk] at hr
            cases hr

theorem logs_exec (hx : st.exec now locked c = some (st', reply)) (hcr : ∀ dto, c ≠ .createLog dto)
    (hco : ∀ dto, c ≠ .completeLog dto) : st'.logs = st.logs := by
  cases c with
  | createLog dto => exact absurd rfl (hcr dto)
  | completeLog dto => exact absurd rfl (hco dto)
  | create id dto =>
      obtain ⟨p, -, he⟩ := Option.map_eq_some_iff.mp hx
      obtain ⟨rfl, -⟩ := Prod.mk.inj he
      rfl
  | _ =>
      obtain ⟨rfl, -⟩ := Prod.mk.inj (Option.some.inj hx)
      rfl

/-- A log row has its place as id. -/
def Indexed (logs : List ExecutionLog) : Prop :=
  ∀ (i : ℕ) (log : ExecutionLog), logs[i]? = some log → log.id = i

theorem indexed_exec (h : Indexed st.logs) (hx : st.exec now locked c = some (st', reply)) :
    Indexed st'.logs := by
  cases c with
  | createLog dto =>
      obtain ⟨rfl, -⟩ := Prod.mk.inj (Option.some.inj hx)
      intro i log hi
      rcases of_getElem?_append_singleton hi with hi | ⟨rfl, rfl⟩
      · exact h i log hi
      · rfl
  | completeLog dto =>
      obtain ⟨rfl, -⟩ := Prod.mk.inj (Option.some.inj hx)
      intro i log hi
      obtain ⟨r, hr, rfl⟩ := Option.map_eq_some_iff.mp (List.getElem?_map.symm.trans hi)
      exact ((completedIn_jobId dto r).2).trans (h i r hr)
  | _ =>
      rw [logs_exec hx (fun _ he => Call.noConfusion he) fun _ he => Call.noConfusion he]
      exact h

theorem Indexed.jobId_eq {logs : List ExecutionLog} (h : Indexed logs) {j : JobId}
    {a b : ExecutionLog} (ha : a ∈ latestLog logs j) (hb : b ∈ latestLog logs k)
    (hid : a.id = b.id) : j = k := by
  have hmem : ∀ {log : ExecutionLog} {i : JobId}, log ∈ latestLog logs i →
      log ∈ logs ∧ log.jobId = i := by
    intro log i hl
    have hl' := List.mem_filter.mp (List.mem_of_getLast? hl)
    exact ⟨hl'.1, of_decide_eq_true hl'.2⟩
  obtain ⟨i, hi⟩ := List.mem_iff_getElem?.mp (hmem ha).1
  obtain ⟨m, hm⟩ := List.mem_iff_getElem?.mp (hmem hb).1
  have him : i = m := by rw [← h i a hi, ← h m b hm, hid]
  rw [him, hm] at hi
  obtain rfl := Option.some.inj hi
  rw [← (hmem ha).2, (hmem hb).2]

/-- **The last log row of another job** stays. -/
theorem latestLog_exec_ne {workerId : String} {data : QueueJobPayload} {pc : ProcessPc}
    {second : Bool} (hids : Indexed st.logs) (hc : pc.call workerId data second = some c)
    (hx : st.exec now locked c = some (st', reply))
    (h : pc.Consistent (rowStatus st.jobs data.jobId) (latestLog st.logs data.jobId))
    (hk : data.jobId ≠ k) : latestLog st'.logs k = latestLog st.logs k := by
  rcases ProcessPc.log_of_call hc h with ⟨dto, rfl, hj⟩ | ⟨dto, rfl, log, hl, hid⟩ | ⟨hcr, hco⟩
  · obtain ⟨rfl, -⟩ := Prod.mk.inj (Option.some.inj hx)
    dsimp only
    rw [latestLog_create, if_neg fun he => hk (hj.symm.trans he)]
  · obtain ⟨rfl, -⟩ := Prod.mk.inj (Option.some.inj hx)
    show latestLog (st.logs.map (completedIn dto)) k = _
    rw [latestLog_complete]
    cases hk' : latestLog st.logs k with
    | none => rfl
    | some log' =>
        have hne : log'.id ≠ dto.id := fun he =>
          hk (hids.jobId_eq hl (Option.mem_def.mpr hk') (hid.trans he.symm))
        rw [Option.map_some, completedIn, if_neg hne]
  · rw [logs_exec hx hcr hco]

end Frame

end TaskOrchestration

import TaskOrchestration.Queue.DeadLetter
import TaskOrchestration.System.Step

set_option autoImplicit false

/-!
# The retry service

The operations of `RetryService` on the dead letter queue, uninterrupted.

* `DeadLetterQueue.replayJob`, **`replayJob_run`**: it is what the three calls do;
* `replayAllDLQ`, `replayDLQEntry`, `getDLQSummary`;
* **`mem_replayAll`**: the entries that are left; `replayAll_induction`: what every replay keeps,
  all of them keep.
-/

namespace TaskOrchestration

open LabelledRun

/-- `replayJob`: the entry is added to the main queue, without an id of its own, and removed. -/
def DeadLetterQueue.replayJob (st : Store) (dlqJobId : String) : Except ServiceError Store :=
  match DeadLetterQueue.getJob st.dlq dlqJobId with
  | none => .error (.error ("DLQ entry not found: " ++ dlqJobId))
  | some entry => .ok { st with
      queue := st.queue.add none (Op.replayData entry) 0 0
      dlq := st.dlq.erase entry.originalJobId }

structure DLQSummaryEntry where
  id : String
  originalJobId : JobId
  failureReason : String
  totalAttempts : ℕ
  deriving DecidableEq, Repr

structure DLQSummary where
  count : ℕ
  entries : List DLQSummaryEntry
  deriving DecidableEq, Repr

namespace RetryService

def replayDLQEntry (st : Store) (dlqJobId : String) : Except ServiceError Store :=
  DeadLetterQueue.replayJob st dlqJobId

/-- One turn of the loop of `replayAllDLQ`: a replay that throws is not counted. -/
def replayOne (p : Store × ℕ) (entry : DLQEntry) : Store × ℕ :=
  match DeadLetterQueue.replayJob p.1 entry.entryId with
  | .ok st => (st, p.2 + 1)
  | .error _ => p

/-- **`replayAllDLQ`**: the store after it, and the number of entries replayed. -/
def replayAllDLQ (st : Store) : Store × ℕ :=
  (DeadLetterQueue.listEntries st.dlq 0 100).foldl replayOne (st, 0)

def summaryEntry (e : DLQEntry) : DLQSummaryEntry where
  id := e.entryId
  originalJobId := e.originalJobId
  failureReason := e.failureReason
  totalAttempts := e.totalAttempts

/-- `getDLQSummary`: all entries are counted, the newest 21 are told. -/
def getDLQSummary (dlq : DeadLetterQueue) : DLQSummary where
  count := DeadLetterQueue.getCount dlq
  entries := (DeadLetterQueue.listEntries dlq 0 20).map summaryEntry

variable {st st' : Store} {dlqJobId : String}

/-- **A replay that returns** has found its entry. -/
theorem replayJob_eq_ok : DeadLetterQueue.replayJob st dlqJobId = .ok st' ↔
    ∃ entry, entry ∈ st.dlq ∧ entry.entryId = dlqJobId ∧ st' = { st with
      queue := st.queue.add none (Op.replayData entry) 0 0
      dlq := st.dlq.erase entry.originalJobId } := by
  rw [DeadLetterQueue.replayJob]
  constructor
  · intro h
    split at h
    · cases h
    · rename_i entry hentry
      obtain ⟨hmem, hid⟩ := DeadLetterQueue.getJob_eq_some.mp hentry
      exact ⟨entry, hmem, hid, (Except.ok.inj h).symm⟩
  · rintro ⟨entry, hmem, hid, rfl⟩
    rw [DeadLetterQueue.getJob_eq_some.mpr ⟨hmem, hid⟩]

theorem replayJob_eq_error {e : ServiceError}
    (h : DeadLetterQueue.replayJob st dlqJobId = .error e) : ∃ msg, e = .error msg := by
  rw [DeadLetterQueue.replayJob] at h
  split at h
  · exact ⟨_, (Except.error.inj h).symm⟩
  · cases h

theorem mem_replayOne {p : Store × ℕ} {entry x : DLQEntry} :
    x ∈ (replayOne p entry).1.dlq ↔ x ∈ p.1.dlq ∧ x.entryId ≠ entry.entryId := by
  unfold replayOne
  split
  · rename_i st hst
    obtain ⟨e, -, hid, rfl⟩ := replayJob_eq_ok.mp hst
    dsimp only
    rw [Table.erase, Table.mem_filter, ← hid, decide_eq_true_eq]
    have hkey : x.originalJobId = e.originalJobId ↔ x.entryId = e.entryId :=
      ⟨fun h => congrArg ("dlq_" ++ ·) h, DeadLetterQueue.entryId_inj⟩
    rw [ne_eq, ne_eq, hkey]
  · rename_i err herr
    have habsent : ∀ x ∈ p.1.dlq, x.entryId ≠ entry.entryId := by
      intro x hx hid
      rw [replayJob_eq_ok.mpr ⟨x, hx, hid, rfl⟩] at herr
      cases herr
    exact ⟨fun h => ⟨h, habsent x h⟩, fun h => h.1⟩

/-- **The entries after all replays**: those of no entry of the list. -/
theorem mem_replayAll {p : Store × ℕ} {entries : List DLQEntry} {x : DLQEntry} :
    x ∈ (entries.foldl replayOne p).1.dlq ↔
      x ∈ p.1.dlq ∧ ∀ entry ∈ entries, x.entryId ≠ entry.entryId := by
  induction entries generalizing p with
  | nil => simp
  | cons entry entries ih =>
      rw [List.foldl_cons, ih, mem_replayOne, and_assoc, List.forall_mem_cons]

theorem replayAll_induction {P : Store → Prop} {entries : List DLQEntry}
    (hstep : ∀ st st' entry, entry ∈ entries → P st →
      DeadLetterQueue.replayJob st entry.entryId = .ok st' → P st')
    {p : Store × ℕ} (h : P p.1) : P (entries.foldl replayOne p).1 := by
  induction entries generalizing p with
  | nil => exact h
  | cons entry entries ih =>
      rw [List.foldl_cons]
      refine ih (fun st st' e he => hstep st st' e (List.mem_cons_of_mem entry he)) ?_
      unfold replayOne
      split
      · rename_i st hst
        exact hstep p.1 st entry List.mem_cons_self h hst
      · exact h

end RetryService

namespace Sys

variable {s : Sys} {run : ℕ}

/-- **The calls of a replay**, one after the other, do what the uninterrupted operation does. -/
theorem replayJob_run (cfg : Config) (now : Time) {e : DLQEntry} {st : Store}
    (hop : s.ops[run]? = some (.replayJob e.originalJobId))
    (h : DeadLetterQueue.replayJob s.store e.entryId = .ok st) :
    ∃ s', runEvents (step cfg) s (List.replicate 3 (.call run false now .ok [])) = some s' ∧
      s'.store = st ∧ s'.ops[run]? = some .finished := by
  obtain ⟨entry, hmem, hid, rfl⟩ := RetryService.replayJob_eq_ok.mp h
  have hread : s.store.exec now [] (.getDlq e.originalJobId) =
      some (s.store, .entry (some entry)) := by
    rw [Store.exec, ← DeadLetterQueue.entryId_inj hid, Table.mem_iff_find?.mp hmem]
  obtain ⟨s₁, h₁, hst₁, hop₁⟩ := exists_step_answered cfg false now [] hop rfl hread rfl
  obtain ⟨s₂, h₂, hst₂, hop₂⟩ := exists_step_answered cfg false now [] hop₁ rfl rfl rfl
  obtain ⟨s₃, h₃, hst₃, hop₃⟩ := exists_step_answered cfg false now [] hop₂ rfl rfl rfl
  refine ⟨s₃, ?_, ?_, hop₃⟩
  · simp only [List.replicate, runEvents, h₁, h₂, h₃, Option.bind_some]
  · rw [hst₃, hst₂, hst₁]

end Sys

end TaskOrchestration

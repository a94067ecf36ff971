import TaskOrchestration.Queue.Bull

set_option autoImplicit false

/-!
# Reading the dead letter queue

No worker takes the entries of the dead letter queue, so all of them are waiting.

* `entryId`: the id of an entry; `getJob`: the entry with a given id;
* `listEntries`, `getCount`;
* `getJob_eq_some`, `mem_listEntries`: what they read.
-/

namespace TaskOrchestration

/-- The id of an entry: `dlq_<id>`. -/
def DLQEntry.entryId (e : DLQEntry) : String := "dlq_" ++ e.originalJobId

namespace DeadLetterQueue

/-- `getJob`: the entry with the given id. -/
def getJob (dlq : DeadLetterQueue) (dlqJobId : String) : Option DLQEntry :=
  dlq.rows.find? fun e => e.entryId = dlqJobId

/-- `listEntries`: the entries from `start` to `stop`, both included, the newest first. -/
def listEntries (dlq : DeadLetterQueue) (start stop : ℕ) : List DLQEntry :=
  (dlq.rows.reverse.drop start).take (stop + 1 - start)

def getCount (dlq : DeadLetterQueue) : ℕ := dlq.rows.length

theorem entryId_inj {a b : DLQEntry} (h : a.entryId = b.entryId) :
    a.originalJobId = b.originalJobId := by
  have hlist := congrArg String.toList h
  simp only [DLQEntry.entryId, String.toList_append, List.append_cancel_left_eq] at hlist
  exact String.toList_inj.mp hlist

theorem getJob_eq_some {dlq : DeadLetterQueue} {dlqJobId : String} {e : DLQEntry} :
    dlq.getJob dlqJobId = some e ↔ e ∈ dlq ∧ e.entryId = dlqJobId := by
  unfold getJob
  constructor
  · intro h
    exact ⟨List.mem_of_find?_eq_some h, by simpa using List.find?_some h⟩
  · rintro ⟨he, rfl⟩
    cases hf : dlq.rows.find? fun e' => e'.entryId = e.entryId with
    | none =>
        have hne := List.find?_eq_none.mp hf e he
        simp at hne
    | some e' =>
        have he' := List.mem_of_find?_eq_some hf
        have hid : e'.entryId = e.entryId := by simpa using List.find?_some hf
        rw [Table.key_inj he' he (entryId_inj hid)]

theorem getJob_entryId (dlq : DeadLetterQueue) (e : DLQEntry) :
    dlq.getJob e.entryId = dlq.find? e.originalJobId := by
  cases hf : dlq.find? e.originalJobId with
  | none =>
      cases hg : dlq.getJob e.entryId with
      | none => rfl
      | some e' =>
          obtain ⟨he', hid⟩ := getJob_eq_some.mp hg
          exact absurd (entryId_inj hid) (Table.find?_eq_none.mp hf e' he')
  | some e' =>
      obtain ⟨he', hid⟩ := Table.find?_eq_some.mp hf
      exact getJob_eq_some.mpr ⟨he', congrArg ("dlq_" ++ ·) hid⟩

theorem mem_listEntries {dlq : DeadLetterQueue} {start stop : ℕ} {e : DLQEntry}
    (h : e ∈ dlq.listEntries start stop) : e ∈ dlq :=
  List.mem_reverse.mp (List.mem_of_mem_drop (List.mem_of_mem_take h))

end DeadLetterQueue

end TaskOrchestration

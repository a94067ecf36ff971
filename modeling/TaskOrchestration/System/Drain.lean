import TaskOrchestration.System.RetryService

set_option autoImplicit false

/-!
# The end of a replay of all

`replayAllDLQ` reads a window of the dead letter queue and replays what it has read. The window
has room for 101 entries.

* `Queue.Fresh`, `Sys.fresh_step`, **`Sys.fresh_run`**: the numbers that BullMQ counts up to are not
  in use;
* `Queue.rows_add`, `replayOne_of_mem`, **`replayAll_rows`**: the main queue after the replays of
  a list of entries;
* `Origin`: what a replay keeps of an entry; `ReplaysAll`;
* **`replaysAll_iff`**; `hundred_and_two_not_replayed`.
-/

namespace TaskOrchestration

open LabelledRun

/-! ## New numbers -/

namespace Queue

/-- No entry has a number that the queue will still count up to. -/
def Fresh (q : Queue) : Prop := ∀ n, q.nextId ≤ n → q.entries.find? (.auto n) = none

variable {q q' : Queue} {id : EntryId}

theorem fresh_empty : Fresh empty := fun _ _ => rfl

theorem Fresh.change (h : q.Fresh) (state : EntryState) (attempts stalls : ℕ) :
    (q.change id state attempts stalls).Fresh := by
  intro n hn
  rw [find?_change, h n hn]
  split_ifs <;> rfl

theorem Fresh.add (h : q.Fresh) (jobId : Option JobId) (data : QueueJobPayload)
    (priority delayMs : ℕ) : (q.add jobId data priority delayMs).Fresh := by
  intro n hn
  rw [find?_add]
  cases jobId with
  | some id =>
      have hlt : q.nextId < n := hn
      rw [if_neg fun heq => EntryId.noConfusion heq]
      exact h n hlt.le
  | none =>
      have hlt : q.nextId < n := hn
      have hne : EntryId.auto n ≠ q.addedId none := fun heq => hlt.ne' (EntryId.auto.inj heq)
      rw [if_neg hne]
      exact h n hlt.le

theorem Fresh.settle (h : q.Fresh) (attempts run : ℕ) (rejected : Bool) :
    (q.settle attempts id run rejected).Fresh := by
  unfold Queue.settle
  split
  · split_ifs
    · exact h.change _ _ _
    · exact h
  · exact h

theorem Fresh.stall {maxStalledCount : ℕ} (h : q.Fresh)
    (hs : q.stall maxStalledCount id = some q') : q'.Fresh := by
  unfold Queue.stall at hs
  split at hs
  · split at hs
    · obtain rfl := Option.some.inj hs
      exact h.change _ _ _
    · cases hs
  · cases hs

theorem Fresh.evict (h : q.Fresh) (hs : q.evict id = some q') : q'.Fresh := by
  obtain ⟨e, -, -, rfl⟩ := evict_eq_some hs
  intro n hn
  refine Table.find?_eq_none.mpr fun a ha => ?_
  exact Table.find?_eq_none.mp (h n hn) a (Table.mem_filter.mp ha).1

/-- **A new number** adds an entry behind the others. -/
theorem rows_add (h : q.Fresh) (data : QueueJobPayload) (priority delayMs : ℕ) :
    (q.add none data priority delayMs).entries.rows =
      q.entries.rows ++ [newEntry (.auto q.nextId) data priority delayMs] := by
  obtain ⟨t, ht⟩ := Table.insert?_isSome (a := newEntry (.auto q.nextId) data priority delayMs)
    (h q.nextId le_rfl)
  rw [add]
  dsimp only
  rw [Table.insertIfAbsent, ht, Option.getD_some]
  exact (Table.insert?_eq_some.mp ht).2

end Queue

namespace Sys

variable {cfg : Config} {s s' : Sys} {e : Event}

theorem fresh_exec {st st' : Store} {now : Time} {locked : List JobId} {c : Call} {reply : Reply}
    (h : st.queue.Fresh) (hx : st.exec now locked c = some (st', reply)) : st'.queue.Fresh := by
  cases c with
  | create id dto =>
      obtain ⟨p, -, he⟩ := Option.map_eq_some_iff.mp hx
      obtain ⟨rfl, -⟩ := Prod.mk.inj he
      exact h
  | add jobId data priority delayMs =>
      obtain ⟨rfl, -⟩ := Prod.mk.inj (Option.some.inj hx)
      exact h.add jobId data priority delayMs
  | _ =>
      obtain ⟨rfl, -⟩ := Prod.mk.inj (Option.some.inj hx)
      exact h

theorem fresh_step (h : s.store.queue.Fresh) (hs : s.step cfg e = some s') :
    s'.store.queue.Fresh := by
  cases stepTo_of_step hs with
  | pickUp hp =>
      obtain ⟨-, rfl⟩ := Queue.pick_eq_some hp
      exact h.change _ _ _
  | answered _ _ hx => exact fresh_exec h hx
  | errored _ _ _ hst =>
      rcases hst with ⟨rfl, -⟩ | ⟨-, reply, hx⟩
      · exact h
      · exact fresh_exec h hx
  | settle => exact h.settle _ _ _
  | stall hq => exact h.stall hq
  | promote hq =>
      obtain ⟨en, -, rfl⟩ := Queue.promote_eq_some hq
      exact h.change _ _ _
  | evict hq => exact h.evict hq
  | _ => exact h

theorem fresh_run {ok : List Event → Sys → Event → Prop} {es : List Event}
    (h : Run (step cfg) ok init es s) : s.store.queue.Fresh :=
  h.stable (P := fun s => s.store.queue.Fresh) Queue.fresh_empty
    fun _ _ _ _ hi _ hs => fresh_step hi hs

end Sys

/-! ## The replays -/

/-- What a replay keeps of an entry. -/
structure Origin where
  jobId : JobId
  type : JobType
  payload : JsonObject
  organizationId : String
  deriving DecidableEq, Repr

def DLQEntry.origin (e : DLQEntry) : Origin :=
  ⟨e.originalJobId, e.type, e.payload, e.organizationId⟩

def QueueJobPayload.origin (data : QueueJobPayload) : Origin :=
  ⟨data.jobId, data.type, data.payload, data.organizationId⟩

namespace RetryService

variable {st : Store} {p : Store × ℕ} {entry : DLQEntry} {entries : List DLQEntry}

/-- The store after the replay of an entry that is there. -/
def replayed (st : Store) (entry : DLQEntry) : Store :=
  { st with
    queue := st.queue.add none (Op.replayData entry) 0 0
    dlq := st.dlq.erase entry.originalJobId }

theorem replayOne_of_mem (h : entry ∈ p.1.dlq) :
    replayOne p entry = (replayed p.1 entry, p.2 + 1) := by
  rw [replayOne, replayJob_eq_ok.mpr ⟨entry, h, rfl, rfl⟩]
  rfl

/-- **The main queue after the replays**: each entry of the list is added once, and counted. -/
theorem replayAll_rows (hmem : ∀ e ∈ entries, e ∈ p.1.dlq)
    (hnodup : (entries.map DLQEntry.originalJobId).Nodup) (hfresh : p.1.queue.Fresh) :
    (entries.foldl replayOne p).2 = p.2 + entries.length ∧
      ∃ new : List Entry,
        (entries.foldl replayOne p).1.queue.entries.rows = p.1.queue.entries.rows ++ new ∧
          new.map Entry.data = entries.map Op.replayData := by
  induction entries generalizing p with
  | nil => exact ⟨rfl, [], (List.append_nil _).symm, rfl⟩
  | cons entry entries ih =>
      rw [List.map_cons, List.nodup_cons] at hnodup
      rw [List.foldl_cons, replayOne_of_mem (hmem entry List.mem_cons_self)]
      -- the others are still there
      have hothers : ∀ e ∈ entries, e ∈ (replayed p.1 entry).dlq := by
        intro e he
        refine Table.mem_filter.mpr ⟨hmem e (List.mem_cons_of_mem entry he), decide_eq_true ?_⟩
        exact fun heq => hnodup.1 (heq ▸ List.mem_map_of_mem he)
      obtain ⟨hcount, new, hrows, hdata⟩ := ih (p := (replayed p.1 entry, p.2 + 1)) hothers
        hnodup.2 (hfresh.add none (Op.replayData entry) 0 0)
      refine ⟨by rw [hcount, List.length_cons]; omega,
        Queue.newEntry (.auto p.1.queue.nextId) (Op.replayData entry) 0 0 :: new, ?_, ?_⟩
      · rw [hrows, replayed, Queue.rows_add hfresh, List.append_assoc, List.singleton_append]
      · rw [List.map_cons, List.map_cons, hdata]
        rfl

/-- **All is replayed**: each entry is in the main queue once more, as it was, the dead letter
queue is empty, and its entries have been counted. -/
def ReplaysAll (st : Store) : Prop :=
  (replayAllDLQ st).2 = st.dlq.rows.length ∧ (replayAllDLQ st).1.dlq.rows = [] ∧
    ∃ new : List Entry,
      (replayAllDLQ st).1.queue.entries.rows = st.queue.entries.rows ++ new ∧
        (new.map fun en => en.data.origin).Perm (st.dlq.rows.map DLQEntry.origin)

theorem listEntries_eq (dlq : DeadLetterQueue) :
    DeadLetterQueue.listEntries dlq 0 100 = dlq.rows.reverse.take 101 := rfl

/-- **All is replayed** exactly if there are at most 101 entries. -/
theorem replaysAll_iff (hfresh : st.queue.Fresh) :
    ReplaysAll st ↔ st.dlq.rows.length ≤ 101 := by
  have hnodup : ((st.dlq.rows.reverse.take 101).map DLQEntry.originalJobId).Nodup := by
    rw [List.map_take, List.map_reverse]
    exact (List.nodup_reverse.mpr st.dlq.nodup).take
  have hmem : ∀ e ∈ st.dlq.rows.reverse.take 101, e ∈ st.dlq := fun e he =>
    List.mem_reverse.mp (List.mem_of_mem_take he)
  obtain ⟨hcount, new, hrows, hdata⟩ := replayAll_rows (p := (st, 0)) hmem hnodup hfresh
  rw [← listEntries_eq] at hcount hrows
  unfold ReplaysAll
  constructor
  · intro h
    have hlen : (replayAllDLQ st).2 = (st.dlq.rows.reverse.take 101).length := by
      exact hcount.trans (Nat.zero_add _)
    rw [h.1, List.length_take, List.length_reverse] at hlen
    omega
  · intro hle
    have hwindow : st.dlq.rows.reverse.take 101 = st.dlq.rows.reverse :=
      List.take_of_length_le (by rwa [List.length_reverse])
    refine ⟨?_, ?_, new, hrows, ?_⟩
    · refine hcount.trans ?_
      rw [listEntries_eq, hwindow, List.length_reverse, Nat.zero_add]
    · refine List.eq_nil_iff_forall_not_mem.mpr fun x hx => ?_
      obtain ⟨hx, hnot⟩ := mem_replayAll.mp hx
      refine hnot x ?_ rfl
      rw [listEntries_eq, hwindow]
      exact List.mem_reverse.mpr hx
    · have horigin : new.map (fun en => en.data.origin) =
          st.dlq.rows.reverse.map DLQEntry.origin := by
        rw [hwindow] at hdata
        have := congrArg (List.map QueueJobPayload.origin) hdata
        rwa [List.map_map, List.map_map] at this
      rw [horigin]
      exact (List.reverse_perm _).map _

/-- The `n`-th of some failed jobs. -/
def failedEntry (n : ℕ) : DLQEntry where
  originalJobId := String.ofList (List.replicate n 'a')
  type := .custom
  payload := []
  organizationId := "org1"
  failureReason := "Unknown error"
  failureStack := none
  totalAttempts := 4
  firstFailedAt := 0
  lastFailedAt := 0

theorem failedEntry_inj : Function.Injective fun n => (failedEntry n).originalJobId := by
  intro m n h
  have hlist : List.replicate m 'a' = List.replicate n 'a' := String.ofList_injective h
  have hlen := congrArg List.length hlist
  rwa [List.length_replicate, List.length_replicate] at hlen

/-- A dead letter queue with `n` entries, and nothing else. -/
def failedJobs (n : ℕ) : Store :=
  { Store.empty with
    dlq := ⟨(List.range n).map failedEntry, by
      rw [List.map_map]
      exact List.nodup_range.map failedEntry_inj⟩ }

theorem length_failedJobs (n : ℕ) : (failedJobs n).dlq.rows.length = n := by
  rw [failedJobs, List.length_map, List.length_range]

theorem hundred_and_one_replayed : ReplaysAll (failedJobs 101) :=
  (replaysAll_iff Queue.fresh_empty).mpr (length_failedJobs 101).le

/-- **One entry more** than the window has room for. -/
theorem hundred_and_two_not_replayed : ¬ ∀ st : Store, st.queue.Fresh → ReplaysAll st := by
  intro hall
  have hle := (replaysAll_iff Queue.fresh_empty).mp (hall (failedJobs 102) Queue.fresh_empty)
  rw [length_failedJobs] at hle
  exact absurd hle (by decide)

end RetryService

end TaskOrchestration

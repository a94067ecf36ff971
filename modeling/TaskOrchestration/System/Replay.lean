import TaskOrchestration.Queue.DeadLetter
import TaskOrchestration.System.Step

set_option autoImplicit false

/-!
# Replays of the dead letter queue

A replay is a read, an `add` and a removal, in three calls, and the added entry has no id of its
own.

* `Replays`: the entries of a job that the dead letter queue has been given, and how many entries
  of the main queue each has given rise to;
* `OneReplay`: a replay finds the entry alone, and goes on to its removal;
* `Single`: the invariant; `single_answered`, `single_errored`; **`single_step`**.
-/

namespace TaskOrchestration

open LabelledRun

namespace Op

/-- A replay that has read the entry of the job `k`, and not removed it. -/
def replays (k : JobId) : Op → Bool
  | replayAdd entry => entry.originalJobId = k
  | replayRemove id => id = k
  | _ => false

/-- A replay whose `add` has taken effect. -/
def removes : Op → Bool
  | replayRemove _ => true
  | _ => false

variable {cfg : Config} {op op' : Op} {k : JobId} {second : Bool}

theorem replays_resume {g : DependencyResolver.Graph} {now : Time} {reply : Reply}
    (h : (op.resume g now second reply).1.replays k = true) :
    (∃ id, op = .replayJob id) ∨ ∃ entry, op = .replayAdd entry := by
  have hl := leads_of_resume (.inl (Eq.refl (op.resume g now second reply).1))
  generalize (op.resume g now second reply).1 = op' at h hl
  cases hl with
  | replayJob => exact .inl ⟨_, rfl⟩
  | replayAdd => exact .inr ⟨_, rfl⟩
  | _ => cases h

theorem not_replays_spawned {g : DependencyResolver.Graph} {now : Time} {reply : Reply}
    (h : op' ∈ (op.resume g now second reply).2.1) : op'.replays k = false := by
  cases leads_of_resume (.inr h) with
  | replayJob hr =>
      subst hr
      cases h
  | replayAdd => cases h
  | _ => rfl

theorem not_replays_abort (h : op' = (op.abort second).1 ∨ op' ∈ (op.abort second).2) :
    op'.replays k = false := by
  cases leaves_of_abort h <;> rfl

theorem eq_replayRemove (ht : op.tidy = true) {id : JobId}
    (hc : op.pending cfg second = some (.removeDlq id)) : op = .replayRemove id := by
  cases op with
  | replayRemove id' =>
      cases second with
      | true => cases hc
      | false =>
          cases hc
          rfl
  | processJob process workerId entry data pc =>
      change pc.call workerId data second = _ at hc
      unfold ProcessPc.call at hc
      split at hc <;> cases hc
  | orphan call =>
      cases second with
      | true => cases hc
      | false =>
          cases hc
          cases ht
  | _ =>
      unfold pending at hc
      split at hc <;> first
        | exact Op.noConfusion ‹_ = _›
        | cases hc

end Op

/-- What has become of the entries that the dead letter queue has been given for a job. The first
one has the number 1. -/
structure Replays where
  /-- The number of entries so far. -/
  inserted : ℕ
  /-- The number of the entry that an operation has read. -/
  read : ℕ → ℕ
  /-- The number of main-queue entries that an entry has given rise to. -/
  added : ℕ → ℕ

namespace Replays

def start : Replays := ⟨0, fun _ => 0, fun _ => 0⟩

/-- A call of the operation `run` that takes effect. `present` says whether the entry of the job
`k` is there before it. -/
def saw (k : JobId) (present : Bool) (run : ℕ) (b : Replays) : Op → Call → Replays
  | .replayJob id, _ =>
      if id = k then { b with read := Function.update b.read run b.inserted } else b
  | .replayAdd entry, _ =>
      if entry.originalJobId = k then
        { b with added := Function.update b.added (b.read run) (b.added (b.read run) + 1) }
      else b
  | _, .addDlq entry =>
      if entry.originalJobId = k ∧ present = false then { b with inserted := b.inserted + 1 } else b
  | _, _ => b

theorem saw_replayJob {k id : JobId} {present : Bool} {run : ℕ} {b : Replays} {c : Call} :
    b.saw k present run (.replayJob id) c =
      if id = k then { b with read := Function.update b.read run b.inserted } else b := rfl

theorem saw_replayAdd {k : JobId} {entry : DLQEntry} {present : Bool} {run : ℕ} {b : Replays}
    {c : Call} : b.saw k present run (.replayAdd entry) c =
      if entry.originalJobId = k then
        { b with added := Function.update b.added (b.read run) (b.added (b.read run) + 1) }
      else b := rfl

/-- One step of the system. -/
def next (cfg : Config) (k : JobId) (b : Replays) (s : Sys) : Event → Replays
  | .call run second now outcome locked =>
      match s.calling cfg (.call run second now outcome locked) with
      | some (op, c, outcome) =>
          if outcome = .fail then b else b.saw k (s.store.dlq.find? k).isSome run op c
      | none => b
  | _ => b

end Replays

namespace Sys

variable {cfg : Config} {s s' : Sys} {e : Event} {k : JobId} {b : Replays}

/-- A call of a replay, that ends with `outcome`: the read finds the entry only when no other
replay of it stands between its read and its removal, an `add` that takes effect goes on to the
removal, and the removal takes effect. -/
def ReplaysAlone (s : Sys) (outcome : Outcome) : Op → Prop
  | .replayJob id => outcome = .ok → (s.store.dlq.find? id).isSome = true →
      ∀ op ∈ s.ops, op.replays id = false
  | .replayAdd _ => outcome ≠ .lost
  | .replayRemove _ => outcome ≠ .fail
  | _ => True

instance (s : Sys) (outcome : Outcome) : DecidablePred (s.ReplaysAlone outcome)
  | .replayJob id => inferInstanceAs (Decidable (outcome = .ok →
      (s.store.dlq.find? id).isSome = true → ∀ op ∈ s.ops, op.replays id = false))
  | .replayAdd _ => inferInstanceAs (Decidable (outcome ≠ .lost))
  | .replayRemove _ => inferInstanceAs (Decidable (outcome ≠ .fail))
  | .processJob _ _ _ _ _ | .scheduleReadyJobs | .enqueue _ _ | .revert _ _ | .recoverStalledJobs
  | .recover _ _ | .cancelJob _ _ | .writeCancelled _ _ | .retryJob _ _ | .writePending _
  | .submitJob _ _ _ | .orphan _ | .finished => .isTrue trivial

/-- **Each entry is replayed alone**, and a replay whose `add` has taken effect does not crash
before its removal. -/
def OneReplay (s : Sys) : Event → Prop
  | .call run _ _ outcome _ => ∀ op ∈ s.ops[run]?, s.ReplaysAlone outcome op
  | .crash run => ∀ op ∈ s.ops[run]?, op.removes = false
  | _ => True

instance (s : Sys) : DecidablePred s.OneReplay
  | .call run _ _ outcome _ =>
      inferInstanceAs (Decidable (∀ op ∈ s.ops[run]?, s.ReplaysAlone outcome op))
  | .crash run => inferInstanceAs (Decidable (∀ op ∈ s.ops[run]?, op.removes = false))
  | .start _ | .pickUp _ _ _ | .execute _ | .executed _ _ _ | .executeRejected _ | .settle _
  | .stall _ | .promote _ | .evict _ | .restart _ => .isTrue trivial

/-- **The invariant** of the job `k`. -/
structure Single (k : JobId) (b : Replays) (s : Sys) : Prop where
  one : ∀ (i j : ℕ) (op op' : Op), s.ops[i]? = some op → s.ops[j]? = some op' →
    op.replays k = true → op'.replays k = true → i = j
  present : ∀ op ∈ s.ops, op.replays k = true → (s.store.dlq.find? k).isSome = true
  adding : ∀ (i : ℕ) (entry : DLQEntry), s.ops[i]? = some (.replayAdd entry) →
    entry.originalJobId = k → b.read i = b.inserted ∧ b.added b.inserted = 0
  free : (∀ op ∈ s.ops, op.replays k = false) → (s.store.dlq.find? k).isSome = true →
    b.added b.inserted = 0
  once : ∀ n, b.added n ≤ 1
  later : ∀ n, b.inserted < n → b.added n = 0

theorem single_init (k : JobId) : Single k .start init where
  one := fun _ _ _ _ h => by cases h
  present := fun _ h => absurd h List.not_mem_nil
  adding := fun _ _ h => by cases h
  free := fun _ h => by cases h
  once := fun _ => Nat.zero_le 1
  later := fun _ _ => rfl

/-- The replays of the job are where they were. -/
def SameReplays (k : JobId) (s s' : Sys) : Prop :=
  ∀ (i : ℕ) (op : Op), op.replays k = true → (s'.ops[i]? = some op ↔ s.ops[i]? = some op)

theorem SameReplays.mem (h : SameReplays k s s') {op : Op} (hop : op ∈ s'.ops)
    (hr : op.replays k = true) : op ∈ s.ops := by
  obtain ⟨i, hi⟩ := List.mem_iff_getElem?.mp hop
  exact List.mem_of_getElem? ((h i op hr).mp hi)

theorem SameReplays.free (h : SameReplays k s s') (hf : ∀ op ∈ s'.ops, op.replays k = false) :
    ∀ op ∈ s.ops, op.replays k = false := by
  intro op hop
  apply Bool.eq_false_of_not_eq_true
  intro hr
  obtain ⟨i, hi⟩ := List.mem_iff_getElem?.mp hop
  rw [hf op (List.mem_of_getElem? ((h i op hr).mpr hi))] at hr
  cases hr

/-- **A step that leaves the replays and the entry of the job alone.** -/
theorem Single.same (h : Single k b s) (hops : SameReplays k s s')
    (hdlq : (s'.store.dlq.find? k).isSome = (s.store.dlq.find? k).isSome) : Single k b s' where
  one := fun i j op op' hi hj hr hr' =>
    h.one i j op op' ((hops i op hr).mp hi) ((hops j op' hr').mp hj) hr hr'
  present := fun op hop hr => hdlq ▸ h.present op (hops.mem hop hr) hr
  adding := fun i entry hi he =>
    h.adding i entry ((hops i (.replayAdd entry) (decide_eq_true he)).mp hi) he
  free := fun hf hp => h.free (hops.free hf) (hdlq ▸ hp)
  once := h.once
  later := h.later

theorem single_of_none (hno : ∀ op ∈ s'.ops, op.replays k = false)
    (hfree : (s'.store.dlq.find? k).isSome = true → b.added b.inserted = 0)
    (honce : ∀ n, b.added n ≤ 1) (hlater : ∀ n, b.inserted < n → b.added n = 0) :
    Single k b s' := by
  have hmem : ∀ {i : ℕ} {op : Op}, s'.ops[i]? = some op → op.replays k ≠ true := by
    intro i op hi hr
    rw [hno op (List.mem_of_getElem? hi)] at hr
    cases hr
  exact {
    one := fun i j op op' hi _ hr => absurd hr (hmem hi)
    present := fun op hop hr => by rw [hno op hop] at hr; cases hr
    adding := fun i entry hi he => absurd (decide_eq_true he) (hmem hi)
    free := fun _ => hfree
    once := honce
    later := hlater }

theorem single_of_one {run : ℕ} {op₁ : Op} (hop₁ : s'.ops[run]? = some op₁)
    (hr₁ : op₁.replays k = true)
    (honly : ∀ (i : ℕ) (op : Op), s'.ops[i]? = some op → op.replays k = true → i = run)
    (hpresent : (s'.store.dlq.find? k).isSome = true)
    (hadding : ∀ entry, op₁ = .replayAdd entry →
      b.read run = b.inserted ∧ b.added b.inserted = 0)
    (honce : ∀ n, b.added n ≤ 1) (hlater : ∀ n, b.inserted < n → b.added n = 0) :
    Single k b s' where
  one := fun i j op op' hi hj hr hr' => (honly i op hi hr).trans (honly j op' hj hr').symm
  present := fun _ _ _ => hpresent
  adding := fun i entry hi he => by
    obtain rfl := honly i (.replayAdd entry) hi (decide_eq_true he)
    exact hadding entry (Option.some.inj (hop₁.symm.trans hi))
  free := fun hf => by
    rw [hf op₁ (List.mem_of_getElem? hop₁)] at hr₁
    cases hr₁
  once := honce
  later := hlater

theorem Single.inserts (h : Single k b s) (hops : SameReplays k s s')
    (hnone : (s.store.dlq.find? k).isSome = false) :
    Single k { b with inserted := b.inserted + 1 } s' := by
  apply single_of_none
  · intro op hop
    apply Bool.eq_false_of_not_eq_true
    intro hr
    rw [h.present op (hops.mem hop hr) hr] at hnone
    cases hnone
  · exact fun _ => h.later _ (Nat.lt_succ_self _)
  · exact h.once
  · intro n hn
    exact h.later n (Nat.lt_of_succ_lt hn)

/-! ## The calls of a replay -/

section Moves

variable {run : ℕ} {op op₁ : Op}

theorem sameReplays_set {l : List Op} (hop : ∀ op, s.ops[run]? = some op → op.replays k = false)
    (hop₁ : op₁.replays k = false) (hl : ∀ op ∈ l, op.replays k = false)
    (hops : s'.ops = s.ops.set run op₁ ++ l) : SameReplays k s s' := by
  intro i op hr
  rw [hops]
  constructor
  · intro hi
    rcases of_getElem?_set_append hi with ⟨-, hi⟩ | ⟨-, rfl⟩ | hmem
    · exact hi
    · rw [hop₁] at hr
      cases hr
    · rw [hl op hmem] at hr
      cases hr
  · intro hi
    have hne : run ≠ i := by
      rintro rfl
      rw [hop op hi] at hr
      cases hr
    exact getElem?_set_append_of_ne hne hi _ _

theorem sameReplays_append {l : List Op} (hl : ∀ op ∈ l, op.replays k = false)
    (hops : s'.ops = s.ops ++ l) : SameReplays k s s' := by
  have hend : ∀ op, s.ops[s.ops.length]? = some op → op.replays k = false := by
    intro op hop
    rw [List.getElem?_eq_none le_rfl] at hop
    cases hop
  have hnone : Op.finished.replays k = false := rfl
  apply sameReplays_set hend hnone hl
  rw [hops, List.set_eq_of_length_le le_rfl]

theorem only_moved (hops : s'.ops = s.ops.set run op₁ ++ [])
    (hother : ∀ (i : ℕ) (op : Op), i ≠ run → s.ops[i]? = some op → op.replays k = false) :
    ∀ (i : ℕ) (op : Op), s'.ops[i]? = some op → op.replays k = true → i = run := by
  intro i op hi hr
  rw [hops] at hi
  rcases of_getElem?_set_append hi with ⟨hne, hi⟩ | ⟨he, -⟩ | hmem
  · rw [hother i op hne hi] at hr
    cases hr
  · exact he
  · cases hmem

theorem Single.others (h : Single k b s) (hop : s.ops[run]? = some op)
    (hr : op.replays k = true) :
    ∀ (i : ℕ) (op : Op), i ≠ run → s.ops[i]? = some op → op.replays k = false := by
  intro i op' hne hi
  apply Bool.eq_false_of_not_eq_true
  exact fun hr' => hne (h.one i run op' op hi hop hr' hr)

theorem getElem?_moved (hop : s.ops[run]? = some op) (hops : s'.ops = s.ops.set run op₁ ++ []) :
    s'.ops[run]? = some op₁ := by
  rw [hops]
  exact getElem?_set_append_self hop op₁ []

/-- **The read** finds the entry, and no other replay of it is under way. -/
theorem Single.reads {entry : DLQEntry} (h : Single k b s) (hop : s.ops[run]? = some op)
    (hk : entry.originalJobId = k) (hno : ∀ op ∈ s.ops, op.replays k = false)
    (hp : (s.store.dlq.find? k).isSome = true) (hdlq : s'.store.dlq = s.store.dlq)
    (hops : s'.ops = s.ops.set run (.replayAdd entry) ++ []) :
    Single k { b with read := Function.update b.read run b.inserted } s' := by
  apply single_of_one (getElem?_moved hop hops) (decide_eq_true hk)
    (only_moved hops fun i op _ hi => hno op (List.mem_of_getElem? hi)) (hdlq ▸ hp)
  · exact fun _ _ => ⟨Function.update_self _ _ _, h.free hno hp⟩
  · exact h.once
  · exact h.later

theorem Single.adds {entry : DLQEntry} (h : Single k b s)
    (hop : s.ops[run]? = some (.replayAdd entry)) (hk : entry.originalJobId = k)
    (hdlq : s'.store.dlq = s.store.dlq) (hops : s'.ops = s.ops.set run (.replayRemove k) ++ []) :
    Single k { b with
      added := Function.update b.added (b.read run) (b.added (b.read run) + 1) } s' := by
  have hr : (Op.replayAdd entry).replays k = true := decide_eq_true hk
  have hp := h.present _ (List.mem_of_getElem? hop) hr
  obtain ⟨hread, hzero⟩ := h.adding run entry hop hk
  rw [hread, hzero]
  apply single_of_one (getElem?_moved hop hops) (decide_eq_true rfl)
    (only_moved hops (h.others hop hr)) (hdlq ▸ hp)
  · exact fun _ he => Op.noConfusion he
  · intro n
    dsimp only
    by_cases hn : n = b.inserted
    · rw [hn, Function.update_self]
    · rw [Function.update_of_ne hn]
      exact h.once n
  · intro n hn
    have hne : n ≠ b.inserted := Nat.ne_of_gt hn
    dsimp only
    rw [Function.update_of_ne hne, h.later n hn]

/-- **The replay ends** before its add takes effect, or when the entry is removed. -/
theorem Single.ends (h : Single k b s) (hop : s.ops[run]? = some op) (hr : op.replays k = true)
    (hfree : (s'.store.dlq.find? k).isSome = true → ∃ entry, op = .replayAdd entry)
    (hops : s'.ops = s.ops.set run .finished ++ []) : Single k b s' := by
  have honly := only_moved hops (h.others hop hr)
  apply single_of_none
  · intro op' hop'
    apply Bool.eq_false_of_not_eq_true
    intro hr'
    obtain ⟨i, hi⟩ := List.mem_iff_getElem?.mp hop'
    obtain rfl := honly i op' hi hr'
    rw [getElem?_moved hop hops] at hi
    rw [← Option.some.inj hi] at hr'
    cases hr'
  · intro hp
    obtain ⟨entry, rfl⟩ := hfree hp
    exact (h.adding run entry hop (of_decide_eq_true hr)).2
  · exact h.once
  · exact h.later

theorem Single.reread (h : Single k b s) (hend : s.ops[run]? = some .finished) (n : ℕ) :
    Single k { b with read := Function.update b.read run n } s where
  one := h.one
  present := h.present
  adding := fun i entry hi he => by
    have hne : i ≠ run := by
      rintro rfl
      rw [hend] at hi
      cases hi
    dsimp only
    rw [Function.update_of_ne hne]
    exact h.adding i entry hi he
  free := h.free
  once := h.once
  later := h.later

theorem Single.effect {now : Time} {locked : List JobId} {c : Call} {st : Store} {reply : Reply}
    (h : Single k b s) (hops : SameReplays k s s')
    (hx : s.store.exec now locked c = some (st, reply)) (hst : s'.store = st)
    (hc : ∀ id, c ≠ .removeDlq id) (hjob : ∀ id, op ≠ .replayJob id)
    (hadd : ∀ entry, op ≠ .replayAdd entry) :
    Single k (b.saw k (s.store.dlq.find? k).isSome run op c) s' := by
  subst hst
  by_cases hdlq : ∃ entry, c = .addDlq entry
  · obtain ⟨entry, rfl⟩ := hdlq
    have hb : b.saw k (s.store.dlq.find? k).isSome run op (.addDlq entry) =
        if entry.originalJobId = k ∧ (s.store.dlq.find? k).isSome = false then
          { b with inserted := b.inserted + 1 } else b := by
      cases op with
      | replayJob id => exact absurd rfl (hjob id)
      | replayAdd entry => exact absurd rfl (hadd entry)
      | _ => rfl
    have hdlq' : s'.store.dlq = s.store.dlq.insertIfAbsent entry := by
      rw [← (Prod.mk.inj (Option.some.inj hx)).1]
    rw [hb]
    split_ifs with hnew
    · exact h.inserts hops hnew.2
    · refine h.same hops ?_
      rw [hdlq', Table.find?_insertIfAbsent]
      split_ifs with hk
      · have hp : (s.store.dlq.find? k).isSome = true :=
          Bool.eq_true_of_not_eq_false fun hn => hnew ⟨hk.symm, hn⟩
        rw [hp]
        rfl
      · rfl
  · have hb : b.saw k (s.store.dlq.find? k).isSome run op c = b := by
      cases op with
      | replayJob id => exact absurd rfl (hjob id)
      | replayAdd entry => exact absurd rfl (hadd entry)
      | _ =>
          cases c with
          | addDlq entry => exact absurd ⟨entry, rfl⟩ hdlq
          | _ => rfl
    have hdlq' : s'.store.dlq = s.store.dlq := by
      cases c with
      | addDlq entry => exact absurd ⟨entry, rfl⟩ hdlq
      | removeDlq id => exact absurd rfl (hc id)
      | create id dto =>
          obtain ⟨p, -, he⟩ := Option.map_eq_some_iff.mp hx
          rw [← (Prod.mk.inj he).1]
      | _ => rw [← (Prod.mk.inj (Option.some.inj hx)).1]
    rw [hb]
    exact h.same hops (by rw [hdlq'])

end Moves

/-! ## Steps -/

section Calls

variable {run : ℕ} {second : Bool} {now : Time} {outcome : Outcome} {locked : List JobId} {op : Op}
  {c : Call} {st : Store} {reply : Reply}

theorem find?_of_removeDlq {id : JobId}
    (hx : s.store.exec now locked (.removeDlq id) = some (st, reply)) :
    st.dlq.find? k = if k = id then none else s.store.dlq.find? k := by
  rw [← (Prod.mk.inj (Option.some.inj hx)).1]
  exact Table.find?_erase _ _ _

/-- **The removal** ends the replay of its job, and is nothing to other jobs. -/
theorem single_removed {id : JobId} (h : Single k b s)
    (hop : s.ops[run]? = some (.replayRemove id))
    (hx : s.store.exec now locked (.removeDlq id) = some (st, reply)) (hst : s'.store = st)
    (hops : s'.ops = s.ops.set run .finished ++ []) : Single k b s' := by
  have hfind := find?_of_removeDlq (k := k) hx
  rw [← hst] at hfind
  by_cases hk : k = id
  · rw [if_pos hk] at hfind
    refine h.ends hop (decide_eq_true hk.symm) (fun hp => ?_) hops
    rw [hfind] at hp
    cases hp
  · rw [if_neg hk] at hfind
    have hno : ∀ op', s.ops[run]? = some op' → op'.replays k = false := fun op' h' => by
      rw [← Option.some.inj (hop.symm.trans h')]
      exact decide_eq_false (Ne.symm hk)
    exact h.same (sameReplays_set hno rfl (fun _ h => absurd h List.not_mem_nil) hops)
      (congrArg Option.isSome hfind)

theorem single_read {id : JobId} (h : Single k b s) (hop : s.ops[run]? = some (.replayJob id))
    (hg : (s.store.dlq.find? id).isSome = true → ∀ op' ∈ s.ops, op'.replays id = false) :
    Single k (b.saw k (s.store.dlq.find? k).isSome run (.replayJob id) (.getDlq id))
      (s.resumed s.store run now (.replayJob id) second (.entry (s.store.dlq.find? id))) := by
  have hno : ∀ op', s.ops[run]? = some op' → op'.replays k = false := fun op' h' => by
    rw [← Option.some.inj (hop.symm.trans h')]
    rfl
  have hl : ∀ op ∈ ([] : List Op), op.replays k = false := fun _ h => absurd h List.not_mem_nil
  rw [Replays.saw_replayJob]
  cases hf : s.store.dlq.find? id with
  | none =>
      have h' : Single k b (s.resumed s.store run now (.replayJob id) second (.entry none)) :=
        h.same (sameReplays_set hno rfl hl rfl) rfl
      split_ifs
      · exact h'.reread (getElem?_moved hop rfl) _
      · exact h'
  | some entry =>
      have hid : entry.originalJobId = id := Table.key_of_find? hf
      split_ifs with hk
      · subst hk
        have hp : (s.store.dlq.find? id).isSome = true := by
          rw [hf]
          rfl
        exact h.reads hop hid (hg hp) hp rfl rfl
      · have hne : (Op.replayAdd entry).replays k = false :=
          decide_eq_false fun he => hk (hid.symm.trans he)
        exact h.same (sameReplays_set hno hne hl rfl) rfl

/-- **An answer** to a replay, or to another operation. -/
theorem single_answered (ht : op.tidy = true) (h : Single k b s)
    (hg : OneReplay s (.call run second now .ok locked)) (hop : s.ops[run]? = some op)
    (hc : op.pending cfg second = some c) (hx : s.store.exec now locked c = some (st, reply)) :
    Single k (b.saw k (s.store.dlq.find? k).isSome run op c)
      (s.resumed st run now op second reply) := by
  have hset : (s.resumed st run now op second reply).ops = s.ops.set run _ ++ _ := rfl
  have hl : ∀ op' ∈ (op.resume (s.graph op.process) now second reply).2.1,
      op'.replays k = false := fun op' h' => Op.not_replays_spawned h'
  have hno : op.replays k = false → ∀ op', s.ops[run]? = some op' → op'.replays k = false :=
    fun hr op' h' => by rw [← Option.some.inj (hop.symm.trans h'), hr]
  have hr₁ : (∀ id, op ≠ .replayJob id) → (∀ entry, op ≠ .replayAdd entry) →
      (op.resume (s.graph op.process) now second reply).1.replays k = false := by
    intro hjob hadd
    apply Bool.eq_false_of_not_eq_true
    intro hr
    rcases Op.replays_resume hr with ⟨id, he⟩ | ⟨entry, he⟩
    · exact hjob id he
    · exact hadd entry he
  cases op with
  | replayJob id =>
      cases second with
      | true => cases hc
      | false =>
          obtain rfl := Option.some.inj hc
          obtain ⟨rfl, rfl⟩ := Prod.mk.inj (Option.some.inj hx)
          exact single_read h hop (hg _ hop rfl)
  | replayAdd entry =>
      cases second with
      | true => cases hc
      | false =>
          obtain rfl := Option.some.inj hc
          obtain ⟨rfl, rfl⟩ := Prod.mk.inj (Option.some.inj hx)
          rw [Replays.saw_replayAdd]
          split_ifs with hk
          · subst hk
            exact h.adds hop rfl rfl rfl
          · have hr : (Op.replayAdd entry).replays k = false := decide_eq_false hk
            have hr₁ : (Op.replayRemove entry.originalJobId).replays k = false :=
              decide_eq_false hk
            exact h.same (sameReplays_set (hno hr) hr₁ hl hset) rfl
  | replayRemove id =>
      cases second with
      | true => cases hc
      | false =>
          obtain rfl := Option.some.inj hc
          exact single_removed h hop hx rfl hset
  | _ =>
      have hr₁ := hr₁ (fun _ he => Op.noConfusion he) fun _ he => Op.noConfusion he
      exact h.effect (sameReplays_set (hno rfl) hr₁ hl hset) hx rfl
        (fun id he => by cases Op.eq_replayRemove ht (he ▸ hc))
        (fun _ he => Op.noConfusion he) fun _ he => Op.noConfusion he

/-- **An error** that a replay sees, or another operation. -/
theorem single_errored (ht : op.tidy = true) (h : Single k b s)
    (hg : OneReplay s (.call run second now outcome locked)) (hop : s.ops[run]? = some op)
    (hc : op.pending cfg second = some c)
    (hst : st = s.store ∧ (outcome = .fail ∨ s.store.exec now locked c = none) ∨
      outcome = .lost ∧ ∃ reply, s.store.exec now locked c = some (st, reply)) :
    Single k (if outcome = .fail then b else b.saw k (s.store.dlq.find? k).isSome run op c)
      (s.aborted st run op second) := by
  have hset : (s.aborted st run op second).ops = s.ops.set run _ ++ _ := rfl
  have hl : ∀ op' ∈ (op.abort second).2, op'.replays k = false := fun op' h' =>
    Op.not_replays_abort (.inr h')
  have hr₁ : (op.abort second).1.replays k = false := Op.not_replays_abort (.inl rfl)
  have hno : op.replays k = false → ∀ op', s.ops[run]? = some op' → op'.replays k = false :=
    fun hr op' h' => by rw [← Option.some.inj (hop.symm.trans h'), hr]
  have hb : (∀ id, op ≠ .replayJob id) → (∀ entry, op ≠ .replayAdd entry) →
      s.store.exec now locked c = none → b.saw k (s.store.dlq.find? k).isSome run op c = b := by
    intro hjob hadd hn
    obtain ⟨id, dto, rfl⟩ := Store.create_of_exec_none hn
    cases op with
    | replayJob id => exact absurd rfl (hjob id)
    | replayAdd entry => exact absurd rfl (hadd entry)
    | _ => rfl
  cases op with
  | replayJob id =>
      cases second with
      | true => cases hc
      | false =>
          obtain rfl := Option.some.inj hc
          have hst' : st = s.store := by
            rcases hst with ⟨rfl, -⟩ | ⟨-, reply, hx⟩
            · rfl
            · exact (Prod.mk.inj (Option.some.inj hx)).1.symm
          subst hst'
          have h' : Single k b (s.aborted s.store run (.replayJob id) false) :=
            h.same (sameReplays_set (hno rfl) hr₁ hl hset) rfl
          rw [Replays.saw_replayJob]
          split_ifs
          · exact h'
          · exact h'.reread (getElem?_moved hop rfl) _
          · exact h'
  | replayAdd entry =>
      cases second with
      | true => cases hc
      | false =>
          obtain rfl := Option.some.inj hc
          have hlost : outcome ≠ .lost := hg _ hop
          obtain ⟨rfl, rfl | hn⟩ := hst.resolve_right fun h => hlost h.1
          · rw [if_pos rfl]
            by_cases hk : entry.originalJobId = k
            · exact h.ends hop (decide_eq_true hk) (fun _ => ⟨entry, rfl⟩) hset
            · have hr : (Op.replayAdd entry).replays k = false := decide_eq_false hk
              exact h.same (sameReplays_set (hno hr) hr₁ hl hset) rfl
          · cases hn
  | replayRemove id =>
      cases second with
      | true => cases hc
      | false =>
          obtain rfl := Option.some.inj hc
          have hfail : outcome ≠ .fail := hg _ hop
          rcases hst with ⟨rfl, hf | hn⟩ | ⟨rfl, reply, hx⟩
          · exact absurd hf hfail
          · cases hn
          · exact single_removed h hop hx rfl hset
  | _ =>
      have hsame := sameReplays_set (hno rfl) hr₁ hl hset
      rcases hst with ⟨rfl, hf⟩ | ⟨rfl, reply, hx⟩
      · rcases hf with rfl | hn
        · exact h.same hsame rfl
        · rw [hb (fun _ he => Op.noConfusion he) (fun _ he => Op.noConfusion he) hn, ite_self]
          exact h.same hsame rfl
      · rw [if_neg (show Outcome.lost ≠ .fail by decide)]
        exact h.effect hsame hx rfl (fun id he => by cases Op.eq_replayRemove ht (he ▸ hc))
          (fun _ he => Op.noConfusion he) fun _ he => Op.noConfusion he

end Calls

/-- **Every step** in which each entry is replayed alone keeps the invariant. -/
theorem single_step (ht : Tidy s) (h : Single k b s) (hg : OneReplay s e)
    (hs : s.step cfg e = some s') : Single k (b.next cfg k s e) s' := by
  have hnil : ∀ op ∈ ([] : List Op), op.replays k = false := fun _ h => absurd h List.not_mem_nil
  have hprocess : ∀ {run process : ℕ} {workerId : String} {entry : EntryId}
      {data : QueueJobPayload} {pc : ProcessPc} {op₁ : Op} {s₁ : Sys},
      s.ops[run]? = some (.processJob process workerId entry data pc) →
      op₁.replays k = false → s₁.store.dlq = s.store.dlq → s₁.ops = s.ops.set run op₁ ++ [] →
      Single k b s₁ := by
    intro run process workerId entry data pc op₁ s₁ hop hr hdlq hops
    refine h.same (sameReplays_set (fun op h => ?_) hr hnil hops) (by rw [hdlq])
    rw [← Option.some.inj (hop.symm.trans h)]
    rfl
  cases stepTo_of_step hs with
  | @start op hr =>
      refine h.same (sameReplays_append (fun op' hop' => ?_) rfl) rfl
      obtain rfl := List.mem_singleton.mp hop'
      cases op' <;> first
        | rfl
        | exact hr.elim
  | pickUp =>
      refine h.same (sameReplays_append (fun op' hop' => ?_) rfl) rfl
      rw [List.mem_singleton.mp hop']
      rfl
  | answered hop hc hx =>
      simp only [Replays.next, calling_call hop hc, reduceCtorEq, if_false]
      exact single_answered (ht _ (List.mem_of_getElem? hop)) h hg hop hc hx
  | errored hop hc _ hst =>
      simp only [Replays.next, calling_call hop hc]
      exact single_errored (ht _ (List.mem_of_getElem? hop)) h hg hop hc hst
  | execute hop => exact hprocess hop rfl rfl rfl
  | executed hop => exact hprocess hop rfl rfl rfl
  | executeRejected hop => exact hprocess hop rfl rfl rfl
  | settle hop => exact hprocess hop rfl rfl rfl
  | @crash run =>
      -- a crash before the removal would leave the entry behind
      by_cases hrep : ∃ op, s.ops[run]? = some op ∧ op.replays k = true
      · obtain ⟨op, hop, hr⟩ := hrep
        refine h.ends hop hr (fun _ => ?_) rfl
        cases op with
        | replayAdd entry => exact ⟨entry, rfl⟩
        | replayRemove id => cases hg _ hop
        | _ => cases hr
      · refine h.same (sameReplays_set (fun op hop => ?_) rfl hnil rfl) rfl
        exact Bool.eq_false_of_not_eq_true fun hr => hrep ⟨op, hop, hr⟩
  | stall | promote | evict | restart => exact h.same (fun _ _ _ => Iff.rfl) rfl

end Sys

end TaskOrchestration

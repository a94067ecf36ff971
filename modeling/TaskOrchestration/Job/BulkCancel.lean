import TaskOrchestration.Job.Service
import TaskOrchestration.Lib.Occurrences

set_option autoImplicit false

/-!
# Bulk cancels

`bulkCancel` without other operations. The caller's ids are texts that PostgreSQL reads as UUIDs:
two spellings are one id, and a text that is no UUID makes the query throw. A cancel changes the
table that the later ones read: an id that is listed twice is cancelled once.

* `Dates`, `cancelJobAt`, `bulkCancelAt`: each cancel writes the dates of its own call;
* `bulkCancel_eq_bulkCancelAt`: `bulkCancel` is the case of one date, and of ids as they are stored;
* `Cancellable`, `cancelledRow`; `cancellable_of_cancelJobAt`: what a cancel leaves to later ones;
* `bulkCancelAt_snd`, `bulkCancelAt_rows`, `not_mem_bulkCancelAt_iff`, **`bulkCancel_exact`**.
-/

namespace TaskOrchestration.JobService

open JobRepository Occurrences

/-- The dates of one cancel: `new Date()`, and the `NOW()` of the trigger on `updated_at`. -/
structure Dates where
  completedAt : Time
  updatedAt : Time
  deriving DecidableEq, Repr

variable (readId : String → Option JobId)

/-- `cancelJob`, uninterrupted, with the dates that it writes. The id is a text, `readId` what
PostgreSQL reads it as. -/
def cancelJobAt (d : Dates) (t : JobTable) (text organizationId : String) :
    Except ServiceError (JobTable × Job) :=
  match readId text with
  | none => .error (.error ("invalid input syntax for type uuid: \"" ++ text ++ "\""))
  | some id =>
      updateChecked "cancel" (checkCancel text organizationId) t d.updatedAt id
        (cancelDto d.completedAt)

/-- `bulkCancel`, uninterrupted, with the dates of the call for each place of the list. -/
def bulkCancelAt (organizationId : String) :
    (ℕ → Dates) → JobTable → List String → JobTable × BulkCancelled
  | _, t, [] => (t, ⟨[], []⟩)
  | clock, t, text :: texts =>
      match cancelJobAt readId (clock 0) t text organizationId with
      | .ok (t', _) =>
          let p := bulkCancelAt organizationId (fun n => clock (n + 1)) t' texts
          (p.1, { p.2 with cancelled := text :: p.2.cancelled })
      | .error _ =>
          let p := bulkCancelAt organizationId (fun n => clock (n + 1)) t texts
          (p.1, { p.2 with skipped := text :: p.2.skipped })

theorem bulkCancel_eq_bulkCancelAt (now : Time) (organizationId : String) (t : JobTable)
    (ids : List JobId) :
    bulkCancel now organizationId t ids =
      bulkCancelAt some organizationId (fun _ => ⟨now, now⟩) t ids := by
  induction ids generalizing t with
  | nil => rfl
  | cons id ids ih =>
      rw [bulkCancel, bulkCancelAt]
      change (match cancelJob t now id organizationId with | .ok (t', _) => _ | .error _ => _) =
        match cancelJob t now id organizationId with | .ok (t', _) => _ | .error _ => _
      cases cancelJob t now id organizationId with
      | error e => simp only [ih t]
      | ok p => simp only [ih p.1]

/-! ## One cancel -/

/-- A row of the organization has the id, and a status that can be cancelled. -/
def Cancellable (organizationId : String) (t : JobTable) (id : JobId) : Prop :=
  ∃ r ∈ t, r.id = id ∧ r.organizationId = organizationId ∧
    r.status ∉ [JobStatus.completed, .failed, .cancelled]

instance (organizationId : String) (t : JobTable) (id : JobId) :
    Decidable (Cancellable organizationId t id) :=
  inferInstanceAs (Decidable (∃ r ∈ t, r.id = id ∧ _))

/-- A text has been read as an id that can be cancelled. -/
def canCancel (organizationId : String) (t : JobTable) (id : Option JobId) : Bool :=
  id.any fun id => Cancellable organizationId t id

def cancelledRow (d : Dates) (r : Job) : Job :=
  { r with
    status := .cancelled
    completedAt := some d.completedAt
    updatedAt := d.updatedAt }

theorem toRow_cancelDto (d : Dates) (r : Job) :
    toRow d.updatedAt (cancelDto d.completedAt) r = cancelledRow d r := by
  simp [toRow, cancelDto, cancelledRow]

variable {readId} {organizationId text : String} {t t' : JobTable} {id : JobId} {d : Dates}
  {clock : ℕ → Dates}

theorem cancellable_iff_find? : Cancellable organizationId t id ↔
    ∃ r, t.find? id = some r ∧ r.organizationId = organizationId ∧ r.status ∉ notCancellable := by
  simp only [Cancellable, Table.find?_eq_some, notCancellable]
  constructor
  · rintro ⟨r, hr, hid, h⟩
    exact ⟨r, ⟨hr, hid⟩, h⟩
  · rintro ⟨r, ⟨hr, hid⟩, h⟩
    exact ⟨r, hr, hid, h⟩

theorem canCancel_some : canCancel organizationId t (some id) = true ↔
    Cancellable organizationId t id := decide_eq_true_iff

theorem cancelJobAt_eq_ok {p : JobTable × Job} :
    cancelJobAt readId d t text organizationId = .ok p ↔
      ∃ id, readId text = some id ∧ Cancellable organizationId t id ∧
        p.1 = (update t id d.updatedAt (cancelDto d.completedAt)).1 ∧
        (t.find? id).map (toRow d.updatedAt (cancelDto d.completedAt)) = some p.2 := by
  unfold cancelJobAt
  cases readId text with
  | none => exact iff_of_false (by rintro ⟨⟩) (by rintro ⟨id, ⟨⟩, -⟩)
  | some id =>
      simp only [Option.some.injEq, exists_eq_left', cancellable_iff_find?]
      constructor
      · intro h
        obtain ⟨r, hr, ht, hj⟩ := (updateChecked_eq_ok fun _ _ h => (checkCancel_eq_ok.mp h).1).mp
          (show _ = Except.ok (p.1, p.2) from h)
        obtain ⟨hr, ho, hs⟩ := checkCancel_eq_ok.mp hr
        exact ⟨⟨r, hr, ho, hs⟩, ht, by rw [hr, hj]; rfl⟩
      · rintro ⟨⟨r, hr, ho, hs⟩, ht, hj⟩
        rw [hr] at hj
        exact (updateChecked_eq_ok fun _ _ h => (checkCancel_eq_ok.mp h).1).mpr
          ⟨r, checkCancel_eq_ok.mpr ⟨hr, ho, hs⟩, ht, (Option.some.inj hj).symm⟩

theorem canCancel_iff_cancelJobAt : canCancel organizationId t (readId text) = true ↔
    ∃ p, cancelJobAt readId d t text organizationId = .ok p := by
  simp only [cancelJobAt_eq_ok]
  constructor
  · intro h
    obtain ⟨id, hid, hc⟩ := (Option.any_eq_true _ _).mp h
    have hc := of_decide_eq_true hc
    obtain ⟨r, hr, -⟩ := cancellable_iff_find?.mp hc
    exact ⟨⟨_, _⟩, id, hid, hc, rfl, by rw [hr]; rfl⟩
  · rintro ⟨p, id, hid, hc, -⟩
    rw [hid]
    exact canCancel_some.mpr hc

/-- **One cancel** writes one row. -/
theorem rows_of_cancelJobAt {p : JobTable × Job}
    (h : cancelJobAt readId d t text organizationId = .ok p) :
    p.1.rows = t.rows.map fun r => if some r.id = readId text then cancelledRow d r else r := by
  obtain ⟨id, hid, -, ht, -⟩ := cancelJobAt_eq_ok.mp h
  rw [ht, hid]
  refine List.map_congr_left fun r _ => ?_
  simp only [toRow_cancelDto, decide_eq_true_eq, Option.some.injEq]

theorem cancellable_of_cancelJobAt {p : JobTable × Job}
    (h : cancelJobAt readId d t text organizationId = .ok p) (k : JobId) :
    Cancellable organizationId p.1 k ↔ Cancellable organizationId t k ∧ some k ≠ readId text := by
  simp only [Cancellable, Table.mem_def, rows_of_cancelJobAt h, List.mem_map]
  constructor
  · rintro ⟨_, ⟨r, hr, rfl⟩, hk, ho, hs⟩
    split_ifs at hk ho hs with hid
    · simp [cancelledRow] at hs
    · exact ⟨⟨r, hr, hk, ho, hs⟩, fun hki => hid (hk ▸ hki)⟩
  · rintro ⟨⟨r, hr, hk, ho, hs⟩, hne⟩
    have hid : some r.id ≠ readId text := fun h => hne (hk ▸ h)
    exact ⟨r, ⟨r, hr, if_neg hid⟩, hk, ho, hs⟩

/-! ## All cancels -/

/-- **What is returned**: the first occurrences of the ids that could be cancelled at the start, and
all other occurrences. -/
theorem bulkCancelAt_snd (clock : ℕ → Dates) (t : JobTable) (ids : List String) :
    (bulkCancelAt readId organizationId clock t ids).2 =
      ⟨firsts readId (canCancel organizationId t) ids,
        others readId (canCancel organizationId t) ids⟩ := by
  induction ids generalizing clock t with
  | nil => rfl
  | cons text ids ih =>
      rw [bulkCancelAt]
      cases hc : cancelJobAt readId (clock 0) t text organizationId with
      | ok p =>
          have hid := canCancel_iff_cancelJobAt.mpr ⟨p, hc⟩
          have hlater : canCancel organizationId p.1 =
              fun k => canCancel organizationId t k && decide (k ≠ readId text) := by
            funext k
            cases k with
            | none => rfl
            | some k =>
                rw [Bool.eq_iff_iff, Bool.and_eq_true, decide_eq_true_eq, canCancel_some,
                  canCancel_some]
                exact cancellable_of_cancelJobAt hc k
          dsimp only
          rw [ih, firsts_cons_of_pos hid, others_cons_of_pos hid, hlater]
      | error e =>
          have hid : canCancel organizationId t (readId text) = false := by
            rw [← Bool.not_eq_true, canCancel_iff_cancelJobAt (d := clock 0), hc]
            rintro ⟨p, ⟨⟩⟩
          dsimp only
          rw [ih, firsts_cons_of_neg hid, others_cons_of_neg hid]

/-- **What is written**: the rows of these ids, each with the dates of the first place of its id. -/
theorem bulkCancelAt_rows (clock : ℕ → Dates) (t : JobTable) (ids : List String) :
    (bulkCancelAt readId organizationId clock t ids).1.rows = t.rows.map fun r =>
      if some r.id ∈ ids.map readId ∧ Cancellable organizationId t r.id
      then cancelledRow (clock ((ids.map readId).idxOf (some r.id))) r else r := by
  induction ids generalizing clock t with
  | nil => simp [bulkCancelAt]
  | cons text ids ih =>
      rw [bulkCancelAt]
      cases hc : cancelJobAt readId (clock 0) t text organizationId with
      | ok p =>
          dsimp only
          rw [ih, rows_of_cancelJobAt hc, List.map_map]
          refine List.map_congr_left fun r _ => ?_
          simp only [Function.comp_apply, cancellable_of_cancelJobAt hc]
          by_cases hr : some r.id = readId text
          · -- its row has its final form, and is not written again
            have hid : Cancellable organizationId t r.id :=
              canCancel_some.mp (hr ▸ canCancel_iff_cancelJobAt.mpr ⟨p, hc⟩)
            simp [← hr, hid, cancelledRow]
          · simp [hr, Ne.symm hr, List.idxOf_cons_ne]
      | error e =>
          have hid : ∀ {k}, some k = readId text → ¬ Cancellable organizationId t k := by
            intro k hk h
            obtain ⟨p, hp⟩ := canCancel_iff_cancelJobAt.mp (hk ▸ canCancel_some.mpr h)
            rw [hc] at hp
            cases hp
          dsimp only
          rw [ih]
          refine List.map_congr_left fun r _ => ?_
          by_cases hr : some r.id = readId text
          · simp [hr, hid hr]
          · simp [hr, Ne.symm hr, List.idxOf_cons_ne]

/-- **The rows that change** are those that could be cancelled. -/
theorem not_mem_bulkCancelAt_iff (clock : ℕ → Dates) {r : Job} (hr : r ∈ t) (ids : List String) :
    r ∉ (bulkCancelAt readId organizationId clock t ids).1 ↔
      some r.id ∈ ids.map readId ∧ Cancellable organizationId t r.id := by
  rw [Table.mem_def, bulkCancelAt_rows, List.mem_map]
  constructor
  · intro hgone
    by_contra hc
    exact hgone ⟨r, hr, if_neg hc⟩
  · rintro hc ⟨a, ha, he⟩
    obtain ⟨b, hb, hkb, -, hstatus⟩ := hc.2
    obtain rfl : b = r := Table.key_inj hb hr hkb
    obtain rfl : a = b := Table.key_inj ha hb (by rw [← he]; split_ifs <;> rfl)
    rw [if_pos hc] at he
    rw [← he] at hstatus
    simp [cancelledRow] at hstatus

/-- A row without the dates that a cancel writes. -/
def withoutDates (r : Job) : Job := { r with completedAt := none, updatedAt := 0 }

theorem bulkCancelAt_withoutDates (clock : ℕ → Dates) (t : JobTable) (ids : List String) :
    (bulkCancelAt readId organizationId clock t ids).1.rows.map withoutDates = t.rows.map fun r =>
      if some r.id ∈ ids.map readId ∧ Cancellable organizationId t r.id
      then withoutDates { r with status := .cancelled } else withoutDates r := by
  rw [bulkCancelAt_rows, List.map_map]
  refine List.map_congr_left fun r _ => ?_
  rw [Function.comp_apply]
  split_ifs <;> rfl

/-- **A bulk cancel is exact, and the order of the ids does not matter.** The texts of the list are
returned as they stand, and are told apart by the ids that they are read as. -/
theorem bulkCancel_exact (readId : String → Option JobId) (organizationId : String)
    (clock : ℕ → Dates) (t : JobTable) (ids : List String) :
    let p := bulkCancelAt readId organizationId clock t ids
    (p.2.cancelled.map readId).Nodup ∧
      (∀ k, k ∈ p.2.cancelled.map readId ↔
        k ∈ ids.map readId ∧ ∃ id, k = some id ∧ Cancellable organizationId t id) ∧
      p.2.cancelled = firsts readId (canCancel organizationId t) ids ∧
      p.2.skipped = others readId (canCancel organizationId t) ids ∧
      p.1.rows = (t.rows.map fun r =>
        if some r.id ∈ p.2.cancelled.map readId
        then { r with
          status := .cancelled
          completedAt := some (clock ((ids.map readId).idxOf (some r.id))).completedAt
          updatedAt := (clock ((ids.map readId).idxOf (some r.id))).updatedAt }
        else r) ∧
      (∀ r ∈ t, r ∉ p.1 ↔ some r.id ∈ p.2.cancelled.map readId) ∧
      ∀ (clock' : ℕ → Dates) (ids' : List String), ids.Perm ids' →
        let p' := bulkCancelAt readId organizationId clock' t ids'
        (∀ k, k ∈ p'.2.cancelled.map readId ↔ k ∈ p.2.cancelled.map readId) ∧
          p'.1.rows.map withoutDates = p.1.rows.map withoutDates := by
  have hmem : ∀ (clock : ℕ → Dates) (ids : List String) (k : Option JobId),
      k ∈ (bulkCancelAt readId organizationId clock t ids).2.cancelled.map readId ↔
        k ∈ ids.map readId ∧ ∃ id, k = some id ∧ Cancellable organizationId t id := by
    intro clock ids k
    rw [bulkCancelAt_snd, mem_map_firsts, canCancel, Option.any_eq_true]
    simp only [decide_eq_true_eq]
  have hmemRow : ∀ r : Job,
      some r.id ∈ (bulkCancelAt readId organizationId clock t ids).2.cancelled.map readId ↔
        some r.id ∈ ids.map readId ∧ Cancellable organizationId t r.id := fun r => by
    rw [hmem]
    simp only [Option.some.injEq, exists_eq_left']
  refine ⟨?_, hmem clock ids, ?_, ?_, ?_, fun r hr => ?_,
    fun clock' ids' hperm => ⟨fun k => ?_, ?_⟩⟩
  · rw [bulkCancelAt_snd]
    exact nodup_map_firsts _ _
  · rw [bulkCancelAt_snd]
  · rw [bulkCancelAt_snd]
  · simp only [hmemRow]
    exact bulkCancelAt_rows clock t ids
  · rw [hmemRow]
    exact not_mem_bulkCancelAt_iff clock hr ids
  · rw [hmem, hmem, (hperm.map readId).mem_iff]
  · rw [bulkCancelAt_withoutDates, bulkCancelAt_withoutDates]
    simp only [(hperm.map readId).mem_iff]

/-! ## A job listed twice -/

def batchJob : Job := newRow "6f1e0c5a-9b7d-4c1e-8a52-3d1f0b7c9e42" 0
  { name := "test", type := .webhook, payload := [], organizationId := "org1"
    createdBy := "user1" }

def batchJobs : JobTable := ⟨[batchJob], List.nodup_singleton _⟩

/-- The id of the job in capital letters. -/
def capitals : String := "6F1E0C5A-9B7D-4C1E-8A52-3D1F0B7C9E42"

/-- What PostgreSQL reads the texts of the list as. -/
def readListed (text : String) : Option JobId :=
  if text = batchJob.id ∨ text = capitals then some batchJob.id else none

/-- The job is cancelled once, wherever the unknown id stands, under the spelling that is listed
first. -/
theorem listed_twice_cancelled_once :
    let p := bulkCancelAt readListed "org1" (fun n => ⟨n, n⟩) batchJobs
      ["unknown", capitals, batchJob.id]
    let p' := bulkCancelAt readListed "org1" (fun n => ⟨n, n + 1⟩) batchJobs
      [batchJob.id, capitals, "unknown"]
    p.2.cancelled = [capitals] ∧ p.2.skipped = ["unknown", batchJob.id] ∧ batchJob ∉ p.1 ∧
      some batchJob.id ∈ p'.2.cancelled.map readListed := by
  obtain ⟨-, hmem, hcancelled, hskipped, -, hrows, hperm⟩ := bulkCancel_exact readListed "org1"
    (fun n => ⟨n, n⟩) batchJobs ["unknown", capitals, batchJob.id]
  have hcancel := (hmem (some batchJob.id)).mpr ⟨by decide, _, rfl, by decide⟩
  have hperm := hperm (fun n => ⟨n, n + 1⟩) [batchJob.id, capitals, "unknown"] (by decide)
  exact ⟨hcancelled.trans (by decide), hskipped.trans (by decide),
    (hrows batchJob (List.mem_singleton_self _)).mpr hcancel, (hperm.1 _).mpr hcancel⟩

end TaskOrchestration.JobService

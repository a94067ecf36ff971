import TaskOrchestration.Api.Jobs

set_option autoImplicit false

/-!
# Tenant isolation of the jobs routes

What the users of an organization do to the rows and the entries of the others, and what they are
told of them. The checks of `JobService` are on the row that is asked for; the dead letter queue
is not checked at all, and an id that a user has sent is told back.

* `Kept`: the rows and entries of other organizations are the same;
* `Discloses`: a response holds the id of a job, or of a DLQ entry, of another organization;
* `Confined`: the condition on a request; `isolates_serve`, with one lemma for each route;
* **`tenants_isolated_iff`**; `foreign_entry_replayed`.
-/

namespace TaskOrchestration.JobRoutes

open JobRepository LabelledRun

/-! ## What belongs to others -/

variable {o : String} {st st' st'' : Store} {id : String}

/-- **The rows and entries of other organizations** are the same in both stores. -/
structure Kept (o : String) (st st' : Store) : Prop where
  jobs : st.jobs.AgreeOn (fun r : Job => r.organizationId ≠ o) st'.jobs
  queue : st.queue.entries.AgreeOn (fun en : Entry => en.data.organizationId ≠ o) st'.queue.entries
  dlq : Table.AgreeOn (fun e : DLQEntry => e.organizationId ≠ o) st.dlq st'.dlq

theorem Kept.refl (o : String) (st : Store) : Kept o st st :=
  ⟨.refl _ _, .refl _ _, .refl _ _⟩

theorem Kept.trans (h : Kept o st st') (h' : Kept o st' st'') : Kept o st st'' :=
  ⟨h.jobs.trans h'.jobs, h.queue.trans h'.queue, h.dlq.trans h'.dlq⟩

theorem Kept.symm (h : Kept o st st') : Kept o st' st :=
  ⟨h.jobs.symm, h.queue.symm, h.dlq.symm⟩

def ForeignJob (o : String) (st : Store) (id : String) : Prop :=
  ∃ r ∈ st.jobs, r.id = id ∧ r.organizationId ≠ o

/-- The id of a DLQ entry of another organization. -/
def ForeignEntry (o : String) (st : Store) (id : String) : Prop :=
  ∃ e ∈ st.dlq, e.entryId = id ∧ e.organizationId ≠ o

instance : Decidable (ForeignJob o st id) := by
  unfold ForeignJob; infer_instance

instance : Decidable (ForeignEntry o st id) := by
  unfold ForeignEntry; infer_instance

theorem Kept.foreignJob (h : Kept o st st') (hf : ForeignJob o st id) : ForeignJob o st' id := by
  obtain ⟨r, hr, hid, ho⟩ := hf
  exact ⟨r, (h.jobs r ho).mpr hr, hid, ho⟩

theorem Kept.foreignEntry (h : Kept o st st') (hf : ForeignEntry o st id) :
    ForeignEntry o st' id := by
  obtain ⟨e, he, hid, ho⟩ := hf
  exact ⟨e, (h.dlq e ho).mpr he, hid, ho⟩

theorem not_foreignJob {r : Job} (hr : r ∈ st.jobs) (ho : r.organizationId = o) :
    ¬ ForeignJob o st r.id := by
  rintro ⟨r', hr', hid, hne⟩
  rw [Table.key_inj hr' hr hid] at hne
  exact hne ho

theorem foreignEntry_iff {e : DLQEntry} (he : e ∈ st.dlq) :
    ForeignEntry o st e.entryId ↔ e.organizationId ≠ o := by
  constructor
  · rintro ⟨e', he', hid, hne⟩
    rwa [Table.key_inj he' he (DeadLetterQueue.entryId_inj hid)] at hne
  · intro hne
    exact ⟨e, he, rfl, hne⟩

/-! ## What a response tells -/

/-- The ids of jobs that a row holds. -/
def RowTells (r : Job) (id : String) : Prop := r.id = id ∨ ∃ d ∈ r.dependencies, d.jobId = id

/-- **The ids of jobs that a response holds.** Every row, log row and entry of the summary comes
with one. -/
def TellsJob (id : String) : Response → Prop
  | .job _ r => RowTells r id
  | .jobs page => ∃ r ∈ page.data, RowTells r id
  | .history logs => ∃ log ∈ logs, log.jobId = id
  | .bulkCancelled result => id ∈ result.cancelled ∨ id ∈ result.skipped
  | .summary summary => ∃ e ∈ summary.entries, e.originalJobId = id
  | .error _ message => message = "Job not found: " ++ id
  | _ => False

/-- **The ids of DLQ entries that a response holds.** -/
def TellsEntry (id : String) : Response → Prop
  | .bulkCancelled result => id ∈ result.cancelled ∨ id ∈ result.skipped
  | .summary summary => ∃ e ∈ summary.entries, e.id = id
  | _ => False

/-- The response holds the id of a job, or of an entry, of another organization. -/
def Discloses (o : String) (st : Store) (response : Response) : Prop :=
  ∃ id, (TellsJob id response ∧ ForeignJob o st id) ∨
    (TellsEntry id response ∧ ForeignEntry o st id)

theorem Kept.discloses (h : Kept o st st') {response : Response} (hd : Discloses o st response) :
    Discloses o st' response := by
  obtain ⟨id, ⟨ht, hf⟩ | ⟨ht, hf⟩⟩ := hd
  · exact ⟨id, .inl ⟨ht, h.foreignJob hf⟩⟩
  · exact ⟨id, .inr ⟨ht, h.foreignEntry hf⟩⟩

/-- The row names no job of another organization as a dependency. -/
def OwnDependencies (o : String) (st : Store) (r : Job) : Prop :=
  ∀ d ∈ r.dependencies, ¬ ForeignJob o st d.jobId

instance (r : Job) : Decidable (OwnDependencies o st r) := by
  unfold OwnDependencies; infer_instance

theorem rowTells_iff {r : Job} (hid : ¬ ForeignJob o st r.id) :
    (∀ id, RowTells r id → ¬ ForeignJob o st id) ↔ OwnDependencies o st r := by
  constructor
  · intro h d hd
    exact h d.jobId (.inr ⟨d, hd, rfl⟩)
  · rintro h id (rfl | ⟨d, hd, rfl⟩)
    · exact hid
    · exact h d hd

theorem not_discloses_job {code : ℕ} {r : Job} (hid : ¬ ForeignJob o st r.id) :
    ¬ Discloses o st (.job code r) ↔ OwnDependencies o st r := by
  rw [← rowTells_iff hid]
  simp [Discloses, TellsJob, TellsEntry]

theorem not_discloses_jobs {page : PaginatedJobs}
    (hown : ∀ r ∈ page.data, ¬ ForeignJob o st r.id) :
    ¬ Discloses o st (.jobs page) ↔ ∀ r ∈ page.data, OwnDependencies o st r := by
  constructor
  · intro h r hr
    rw [← rowTells_iff (hown r hr)]
    intro id ht hf
    exact h ⟨id, .inl ⟨⟨r, hr, ht⟩, hf⟩⟩
  · rintro h ⟨id, ⟨⟨r, hr, ht⟩, hf⟩ | ⟨ht, -⟩⟩
    · exact (rowTells_iff (hown r hr)).mpr (h r hr) id ht hf
    · exact ht

theorem not_discloses_error {code : ℕ} {message : String}
    (h : ∀ id, message = "Job not found: " ++ id → ¬ ForeignJob o st id) :
    ¬ Discloses o st (.error code message) := by
  rintro ⟨id, ⟨ht, hf⟩ | ⟨ht, -⟩⟩
  · exact h id ht hf
  · exact ht

/-- Every other message begins with another letter. -/
theorem ne_notFound {message : String} (h : message.toList.head? ≠ some 'J') (id : String) :
    message ≠ "Job not found: " ++ id := by
  rintro rfl
  apply h
  rw [String.toList_append]
  rfl

theorem notFound_inj {a b : String} (h : "Job not found: " ++ a = "Job not found: " ++ b) :
    a = b := by
  have hlist := congrArg String.toList h
  simp only [String.toList_append, List.append_cancel_left_eq] at hlist
  exact String.toList_inj.mp hlist

/-- **The errors of the server** disclose nothing. -/
theorem not_discloses_internal (msg : String) :
    ¬ Discloses o st (handleError (.error msg)) := by
  apply not_discloses_error
  intro id h
  have hne : "Internal server error" ≠ "Job not found: " ++ id := ne_notFound (by decide) id
  exact absurd h hne

/-- **The refusals** of a job that was looked for disclose nothing. -/
theorem not_discloses_refused {e : ServiceError}
    (h : JobService.authorize id o (st.jobs.find? id) = .error e) :
    ¬ Discloses o st (handleError e) := by
  apply not_discloses_error
  intro id' hid
  rcases JobService.authorize_eq_error h with ⟨hn, rfl⟩ | rfl
  · obtain rfl := notFound_inj hid
    rintro ⟨r, hr, hrid, -⟩
    exact Table.find?_eq_none.mp hn r hr hrid
  · exact absurd hid (ne_notFound (by decide) id')

theorem not_discloses_refusal {verb : String} {allowed : JobStatus → Bool} {e : ServiceError}
    (h : JobService.checkStatus verb allowed id o (st.jobs.find? id) = .error e) :
    ¬ Discloses o st (handleError e) := by
  rcases JobService.checkStatus_eq_error h with h | ⟨status, rfl⟩
  · exact not_discloses_refused h
  · apply not_discloses_error
    intro id' hid
    refine absurd hid (ne_notFound ?_ id')
    simp [ServiceError.statusCode, ServiceError.message, String.toList_append]

/-! ## The routes -/

section Routes

variable {pg : Postgres} {cronError : String → String → Option String} {user : AuthUser}
  {now : Time} {s : Server}

/-- The exchange keeps what belongs to others, and discloses nothing of it. -/
def Isolates (o : String) (st : Store) (p : Server × Response) : Prop :=
  Kept o st p.1.store ∧ ¬ Discloses o st p.2

theorem isolates_same {response : Response} :
    Isolates o s.store (s, response) ↔ ¬ Discloses o s.store response :=
  ⟨fun h => h.2, fun h => ⟨.refl o s.store, h⟩⟩

theorem kept_jobs {t : JobTable}
    (h : st.jobs.AgreeOn (fun r : Job => r.organizationId ≠ o) t) :
    Kept o st { st with jobs := t } :=
  ⟨h, .refl _ _, .refl _ _⟩

/-- **An update of a row** of the organization. -/
theorem agreeOn_update_own {t : JobTable} {dto : UpdateJobDto} {r : Job}
    (hr : t.find? id = some r) (ho : r.organizationId = o) :
    t.AgreeOn (fun r : Job => r.organizationId ≠ o) (JobRepository.update t id now dto).1 := by
  apply Table.agreeOn_update (toRow_id now dto)
  intro a ha hid
  have hfind : t.find? id = some a := Table.find?_eq_some.mpr ⟨ha, hid⟩
  obtain rfl := Option.some.inj (hr.symm.trans hfind)
  exact ⟨not_not.mpr ho, not_not.mpr ho⟩

/-- **`cancelJob` and `retryJob`**: a row that is updated names no job of another organization. -/
theorem isolates_update {verb : String} {allowed : JobStatus → Bool} {dto : UpdateJobDto} :
    Isolates o s.store (update s (JobService.updateChecked verb
        (JobService.checkStatus verb allowed id o) s.store.jobs now id dto)) ↔
      ∀ r ∈ s.store.jobs.find? id, r.organizationId = o → allowed r.status = true →
        OwnDependencies o s.store r := by
  have hrow : ∀ row j, JobService.checkStatus verb allowed id o row = .ok j → row = some j :=
    fun row j h => (JobService.checkStatus_eq_ok.mp h).1
  cases hu : JobService.updateChecked verb (JobService.checkStatus verb allowed id o) s.store.jobs
      now id dto with
  | ok p =>
      obtain ⟨t, job⟩ := p
      obtain ⟨r, hc, rfl, rfl⟩ := (JobService.updateChecked_eq_ok hrow).mp hu
      obtain ⟨hr, ho, ha⟩ := JobService.checkStatus_eq_ok.mp hc
      have hid : ¬ ForeignJob o s.store r.id := not_foreignJob (Table.mem_of_find? hr) ho
      have htold : ¬ Discloses o s.store (.job 200 (toRow now dto r)) ↔
          OwnDependencies o s.store r := not_discloses_job hid
      have hagree : s.store.jobs.AgreeOn (fun r : Job => r.organizationId ≠ o)
          (JobRepository.update s.store.jobs id now dto).1 := agreeOn_update_own hr ho
      constructor
      · intro h r' hr' _ _
        obtain rfl := Option.some.inj (hr.symm.trans hr')
        exact htold.mp h.2
      · intro h
        exact ⟨kept_jobs hagree, htold.mpr (h r hr ho ha)⟩
  | error e =>
      have hquiet : ¬ Discloses o s.store (handleError e) := by
        rcases JobService.updateChecked_eq_error hu with hc | rfl
        · exact not_discloses_refusal hc
        · exact not_discloses_internal _
      refine ⟨fun _ r hr ho ha => ?_, fun _ => isolates_same.mpr hquiet⟩
      -- the check would have passed
      exfalso
      have hc : JobService.checkStatus verb allowed id o (s.store.jobs.find? id) = .ok r :=
        JobService.checkStatus_eq_ok.mpr ⟨hr, ho, ha⟩
      have hok : JobService.updateChecked verb (JobService.checkStatus verb allowed id o)
          s.store.jobs now id dto = .ok (_, _) :=
        (JobService.updateChecked_eq_ok hrow).mpr ⟨r, hc, rfl, rfl⟩
      rw [hu] at hok
      cases hok

/-- **`POST /jobs`**: a job that is created names no job of another organization. -/
theorem isolates_create {body : CreateJobDto} (ho : user.organizationId = o) :
    Isolates o s.store (create cronError user now s body id) ↔
      (Scheduler.checkCron cronError body = none →
        (∀ d ∈ body.dependencies.getD [], (s.store.jobs.find? d.jobId).isSome = true) →
        s.store.jobs.find? id = none →
        ∀ d ∈ body.dependencies.getD [], ¬ ForeignJob o s.store d.jobId) := by
  rw [create]
  cases hc : Scheduler.createJob cronError ⟨s.store.jobs, s.graph⟩ id now (createDto user body) with
  | error e =>
      obtain ⟨msg, rfl⟩ := Scheduler.createJob_eq_error hc
      refine ⟨fun _ hcron hdeps hfresh => ?_, fun _ =>
        isolates_same.mpr (not_discloses_internal msg)⟩
      -- the creation would have returned
      exfalso
      obtain ⟨t, ht⟩ := create_isSome now (createDto user body) hfresh
      have hok : Scheduler.createJob cronError ⟨s.store.jobs, s.graph⟩ id now
          (createDto user body) = .ok (_, _) :=
        Scheduler.createJob_eq_ok.mpr ⟨hcron, hdeps, Option.map_eq_some_iff.mpr ⟨_, ht, rfl⟩⟩
      rw [hc] at hok
      cases hok
  | ok p =>
      obtain ⟨p, job⟩ := p
      obtain ⟨hcron, hdeps, hsub⟩ := Scheduler.createJob_eq_ok.mp hc
      obtain ⟨rfl, -, hfresh, -⟩ := Scheduler.submitJob_eq_some hsub
      have hid : ¬ ForeignJob o s.store id := by
        rintro ⟨r, hr, hrid, -⟩
        exact Table.find?_eq_none.mp hfresh r hr hrid
      have htold : ¬ Discloses o s.store (.job 201 (newRow id now (createDto user body))) ↔
          ∀ d ∈ body.dependencies.getD [], ¬ ForeignJob o s.store d.jobId :=
        not_discloses_job hid
      have hagree : s.store.jobs.AgreeOn (fun r : Job => r.organizationId ≠ o) p.jobs := by
        intro r hr
        rw [Scheduler.mem_submitJob hsub r]
        constructor
        · rintro (hmem | rfl)
          · exact hmem
          · exact absurd ho hr
        · exact .inl
      constructor
      · intro h _ _ _
        exact htold.mp h.2
      · intro h
        exact ⟨kept_jobs hagree, htold.mpr (h hcron hdeps hfresh)⟩

/-- **`GET /jobs`**: no row of the page names a job of another organization. -/
theorem isolates_list {query : JobFilter} (ho : user.organizationId = o) :
    Isolates o s.store
        (s, .jobs (findMany pg s.store.jobs (listFilter (some user.organizationId) query))) ↔
      ∀ r ∈ (findMany pg s.store.jobs (listFilter (some user.organizationId) query)).data,
        OwnDependencies o s.store r := by
  rw [isolates_same]
  apply not_discloses_jobs
  intro r hr
  have hown := organizationId_of_mem_findMany hr rfl user.organization
  exact not_foreignJob (mem_findMany hr).1 (hown.trans ho)

/-- **`GET /jobs/:id`**: the row names no job of another organization. -/
theorem isolates_get :
    Isolates o s.store (s, respond (.job 200) (JobService.getJob s.store.jobs id o)) ↔
      ∀ r ∈ s.store.jobs.find? id, r.organizationId = o → OwnDependencies o s.store r := by
  rw [isolates_same]
  cases hg : JobService.getJob s.store.jobs id o with
  | ok job =>
      obtain ⟨hr, ho⟩ := JobService.authorize_eq_ok.mp hg
      have hid : ¬ ForeignJob o s.store job.id := not_foreignJob (Table.mem_of_find? hr) ho
      rw [respond, not_discloses_job hid]
      constructor
      · intro h r hr' _
        obtain rfl := Option.some.inj (hr.symm.trans hr')
        exact h
      · exact fun h => h job hr ho
  | error e =>
      refine ⟨fun _ r hr ho => ?_, fun _ => not_discloses_refused hg⟩
      have hok : JobService.getJob s.store.jobs id o = .ok r :=
        JobService.authorize_eq_ok.mpr ⟨hr, ho⟩
      rw [hg] at hok
      cases hok

/-- **`GET /jobs/:id/history`** tells of the job alone. -/
theorem isolates_history :
    Isolates o s.store (s, respond .history (JobService.getJobHistory s.store id o)) := by
  rw [isolates_same, JobService.getJobHistory]
  cases hg : JobService.getJob s.store.jobs id o with
  | ok job =>
      obtain ⟨hr, ho⟩ := JobService.authorize_eq_ok.mp hg
      rintro ⟨id', ⟨⟨log, hlog, rfl⟩, hf⟩ | ⟨ht, -⟩⟩
      · have hjob : log.jobId = id := by
          have hmem := (List.mem_insertionSort _).mp hlog
          exact of_decide_eq_true (List.mem_filter.mp hmem).2
        rw [hjob, ← Table.key_of_find? hr] at hf
        exact not_foreignJob (Table.mem_of_find? hr) ho hf
      · exact ht
  | error e => exact not_discloses_refused hg

/-- **`POST /jobs/bulk/cancel`**: no id is that of a job or entry of another organization. -/
theorem isolates_bulkCancel {ids : List JobId} (ho : user.organizationId = o) :
    Isolates o s.store (bulkCancel user.organizationId now s ids) ↔
      (ids ≠ [] → ids.length ≤ 100 →
        ∀ x ∈ ids, ¬ ForeignJob o s.store x ∧ ¬ ForeignEntry o s.store x) := by
  have hconst : ∀ code (message : String), message.toList.head? ≠ some 'J' →
      ¬ Discloses o s.store (.error code message) := by
    intro code message hm
    apply not_discloses_error
    exact fun id h => absurd h (ne_notFound hm id)
  unfold bulkCancel
  split_ifs with hnil hlong
  · exact ⟨fun _ h => absurd hnil h, fun _ => isolates_same.mpr (hconst 422 _ (by decide))⟩
  · refine ⟨fun _ _ h => ?_, fun _ => isolates_same.mpr (hconst 422 _ (by decide))⟩
    exact absurd h (Nat.not_le.mpr hlong)
  · have hagree : s.store.jobs.AgreeOn (fun r : Job => r.organizationId ≠ o)
        (JobService.bulkCancel now user.organizationId s.store.jobs ids).1 := by
      refine JobService.bulkCancel_induction (fun t t' id job h hc => ?_) (.refl _ _) ids
      obtain ⟨r, hcheck, rfl, -⟩ := JobService.cancelJob_eq_ok.mp hc
      obtain ⟨hr, hown, -⟩ := JobService.checkCancel_eq_ok.mp hcheck
      exact h.trans (agreeOn_update_own hr (hown.trans ho))
    set result := (JobService.bulkCancel now user.organizationId s.store.jobs ids).2
    have htold : ∀ x, (x ∈ result.cancelled ∨ x ∈ result.skipped) ↔ x ∈ ids :=
      fun x => JobService.mem_bulkCancel s.store.jobs
    constructor
    · intro h _ _ x hx
      exact ⟨fun hf => h.2 ⟨x, .inl ⟨(htold x).mpr hx, hf⟩⟩,
        fun hf => h.2 ⟨x, .inr ⟨(htold x).mpr hx, hf⟩⟩⟩
    · intro h
      have hids := h hnil (Nat.not_lt.mp hlong)
      refine ⟨kept_jobs hagree, ?_⟩
      rintro ⟨x, ⟨ht, hf⟩ | ⟨ht, hf⟩⟩
      · exact (hids x ((htold x).mp ht)).1 hf
      · exact (hids x ((htold x).mp ht)).2 hf

/-- **`GET /jobs/dlq`**: the entries that are told are those of the organization. -/
theorem isolates_dlqList :
    Isolates o s.store (s, .summary (RetryService.getDLQSummary s.store.dlq)) ↔
      ∀ e ∈ DeadLetterQueue.listEntries s.store.dlq 0 20,
        e.organizationId = o ∧ ¬ ForeignJob o s.store e.originalJobId := by
  rw [isolates_same]
  constructor
  · intro h e he
    have hmem : RetryService.summaryEntry e ∈ (RetryService.getDLQSummary s.store.dlq).entries :=
      List.mem_map_of_mem he
    constructor
    · by_contra hne
      have hf := (foreignEntry_iff (DeadLetterQueue.mem_listEntries he)).mpr hne
      exact h ⟨_, .inr ⟨⟨_, hmem, rfl⟩, hf⟩⟩
    · intro hf
      exact h ⟨_, .inl ⟨⟨_, hmem, rfl⟩, hf⟩⟩
  · rintro h ⟨id, ⟨⟨_, hmem, rfl⟩, hf⟩ | ⟨⟨_, hmem, rfl⟩, hf⟩⟩
    · obtain ⟨e, he, rfl⟩ := List.mem_map.mp hmem
      exact (h e he).2 hf
    · obtain ⟨e, he, rfl⟩ := List.mem_map.mp hmem
      exact (foreignEntry_iff (DeadLetterQueue.mem_listEntries he)).mp hf (h e he).1

theorem kept_replayJob {e : DLQEntry} (he : e ∈ st.dlq) (ho : e.organizationId = o)
    (h : DeadLetterQueue.replayJob st e.entryId = .ok st') : Kept o st st' := by
  obtain ⟨e', he', hid, rfl⟩ := RetryService.replayJob_eq_ok.mp h
  obtain rfl := Table.key_inj he' he (DeadLetterQueue.entryId_inj hid)
  refine ⟨.refl _ _, ?_, ?_⟩
  · exact Table.agreeOn_insertIfAbsent (not_not.mpr ho)
  · apply Table.agreeOn_erase_iff.mpr
    intro a ha hk
    rw [Table.key_inj ha he hk]
    exact not_not.mpr ho

/-- **`POST /jobs/dlq/:dlqId/replay`**: the entry is one of the organization. -/
theorem isolates_dlqReplay {dlqId : String} :
    Isolates o s.store (dlqReplay s dlqId) ↔
      ∀ e ∈ s.store.dlq, e.entryId = dlqId → e.organizationId = o := by
  rw [dlqReplay, RetryService.replayDLQEntry]
  cases hr : DeadLetterQueue.replayJob s.store dlqId with
  | error err =>
      have hnone : ∀ e ∈ s.store.dlq, e.entryId ≠ dlqId := by
        intro e he hid
        rw [RetryService.replayJob_eq_ok.mpr ⟨e, he, hid, rfl⟩] at hr
        cases hr
      obtain ⟨msg, rfl⟩ := RetryService.replayJob_eq_error hr
      exact ⟨fun _ e he hid => absurd hid (hnone e he),
        fun _ => isolates_same.mpr (not_discloses_internal msg)⟩
  | ok st =>
      obtain ⟨entry, hmem, hid, hst⟩ := RetryService.replayJob_eq_ok.mp hr
      constructor
      · intro h e he hide
        obtain rfl := Table.key_inj he hmem (DeadLetterQueue.entryId_inj (hide.trans hid.symm))
        have hagree : Table.AgreeOn (fun e : DLQEntry => e.organizationId ≠ o) s.store.dlq
            (s.store.dlq.erase e.originalJobId) := by
          have hdlq := h.1.dlq
          rwa [hst] at hdlq
        exact not_not.mp (Table.agreeOn_erase_iff.mp hagree e he rfl)
      · intro h
        refine ⟨kept_replayJob hmem (h entry hmem hid) (hid ▸ hr), ?_⟩
        rintro ⟨x, ⟨ht, -⟩ | ⟨ht, -⟩⟩ <;> exact ht

/-- **`POST /jobs/dlq/replay-all`**: the entries that are listed are those of the organization. -/
theorem isolates_dlqReplayAll :
    Isolates o s.store ({ s with store := (RetryService.replayAllDLQ s.store).1 },
        .replayedAll (RetryService.replayAllDLQ s.store).2) ↔
      ∀ e ∈ DeadLetterQueue.listEntries s.store.dlq 0 100, e.organizationId = o := by
  constructor
  · intro h e he
    by_contra hne
    have hmem := (h.1.dlq e hne).mpr (DeadLetterQueue.mem_listEntries he)
    exact (RetryService.mem_replayAll.mp hmem).2 e he rfl
  · intro h
    constructor
    · refine RetryService.replayAll_induction (P := Kept o s.store) (fun st st' e he hk hr => ?_)
        (.refl o s.store)
      obtain ⟨e', he', hid, -⟩ := RetryService.replayJob_eq_ok.mp hr
      -- the entry that is found is the one that was listed
      have hown : e'.organizationId = o := by
        by_contra hne
        have hmem := (hk.dlq e' hne).mp he'
        have hlisted := DeadLetterQueue.mem_listEntries he
        rw [Table.key_inj hmem hlisted (DeadLetterQueue.entryId_inj hid)] at hne
        exact hne (h e he)
      exact hk.trans (kept_replayJob he' hown (hid ▸ hr))
    · rintro ⟨x, ⟨ht, -⟩ | ⟨ht, -⟩⟩ <;> exact ht

/-! ## Sequences of requests -/

variable (pg cronError o) in
/-- **The condition on a request.** A request of the dead letter queue finds entries of the
organization alone; no id of a bulk cancel, and no dependency of a job that is created or shown,
is that of another organization. -/
def Within (user : AuthUser) (s : Server) : Request → Prop
  | .create body id => Scheduler.checkCron cronError body = none →
      (∀ d ∈ body.dependencies.getD [], (s.store.jobs.find? d.jobId).isSome = true) →
      s.store.jobs.find? id = none →
      ∀ d ∈ body.dependencies.getD [], ¬ ForeignJob o s.store d.jobId
  | .list query =>
      ∀ r ∈ (findMany pg s.store.jobs (listFilter (some user.organizationId) query)).data,
        OwnDependencies o s.store r
  | .get id => ∀ r ∈ s.store.jobs.find? id, r.organizationId = o → OwnDependencies o s.store r
  | .history _ => True
  | .cancel id => ∀ r ∈ s.store.jobs.find? id, r.organizationId = o →
      r.status ∉ JobService.notCancellable → OwnDependencies o s.store r
  | .bulkCancel ids => ids ≠ [] → ids.length ≤ 100 →
      ∀ x ∈ ids, ¬ ForeignJob o s.store x ∧ ¬ ForeignEntry o s.store x
  | .retry id => ∀ r ∈ s.store.jobs.find? id, r.organizationId = o →
      r.status ∈ JobService.retryable → OwnDependencies o s.store r
  | .dlqList => ∀ e ∈ DeadLetterQueue.listEntries s.store.dlq 0 20,
      e.organizationId = o ∧ ¬ ForeignJob o s.store e.originalJobId
  | .dlqReplay dlqId => ∀ e ∈ s.store.dlq, e.entryId = dlqId → e.organizationId = o
  | .dlqReplayAll => ∀ e ∈ DeadLetterQueue.listEntries s.store.dlq 0 100, e.organizationId = o

instance (user : AuthUser) (s : Server) : DecidablePred (Within o pg cronError user s) :=
  fun request => by cases request <;> unfold Within <;> infer_instance

variable (pg cronError o) in
/-- A request that `authenticate` lets through is within the organization. -/
def Confined (s : Server) (e : Asked) : Prop :=
  Authorized e.user e.request → Within o pg cronError e.user s e.request

instance (s : Server) (e : Asked) : Decidable (Confined o pg cronError s e) := by
  unfold Confined; infer_instance

/-- **A request**, of a user of the organization. -/
theorem isolates_serve {e : Asked} (ho : e.user.organizationId = o) :
    Isolates o s.store (serve pg cronError s e) ↔ Confined o pg cronError s e := by
  unfold serve Confined
  split_ifs with ha
  · subst ho
    rw [imp_iff_right ha]
    cases hr : e.request with
    | create body id => exact isolates_create rfl
    | list query => exact isolates_list rfl
    | get id => exact isolates_get
    | history id => exact iff_true_intro isolates_history
    | cancel id =>
        dsimp only [handle, Within]
        rw [JobService.cancelJob, JobService.checkCancel, isolates_update]
        simp only [decide_eq_true_eq]
    | bulkCancel ids => exact isolates_bulkCancel rfl
    | retry id =>
        dsimp only [handle, Within]
        rw [JobService.retryJob, JobService.checkRetry, isolates_update]
        simp only [decide_eq_true_eq]
    | dlqList => exact isolates_dlqList
    | dlqReplay dlqId => exact isolates_dlqReplay
    | dlqReplayAll => exact isolates_dlqReplayAll
  · rw [isolates_same]
    refine ⟨fun _ h => absurd h ha, fun _ => ?_⟩
    rintro ⟨x, ⟨ht, -⟩ | ⟨ht, -⟩⟩ <;> exact ht

/-- **Isolation**: the rows and entries of other organizations are as they were, and no response
discloses anything of them. -/
def Isolated (o : String) (st : Store) (s : Server) : Prop :=
  Kept o st s.store ∧ ∀ response ∈ s.responses, ¬ Discloses o st response

theorem isolated_step {s' : Server} {e : Asked} (h : Isolated o st s)
    (ho : e.user.organizationId = o) (hs : step pg cronError s e = some s') :
    Isolated o st s' ↔ Confined o pg cronError s e := by
  obtain rfl := Option.some.inj hs
  obtain ⟨hkept, hquiet⟩ := h
  have hdisc : ∀ response, Discloses o st response ↔ Discloses o s.store response :=
    fun response => ⟨hkept.discloses, hkept.symm.discloses⟩
  rw [← isolates_serve ho]
  constructor
  · rintro ⟨hk, hq⟩
    refine ⟨hkept.symm.trans hk, ?_⟩
    rw [← hdisc]
    exact hq _ (List.mem_append_right _ (List.mem_singleton_self _))
  · rintro ⟨hk, hq⟩
    refine ⟨hkept.trans hk, fun response hmem => ?_⟩
    rcases List.mem_append.mp hmem with hmem | hmem
    · exact hquiet response hmem
    · rw [List.mem_singleton.mp hmem, hdisc]
      exact hq

variable {graph : DependencyResolver.Graph} {es : List Asked}

/-- **The tenants are isolated** all along a sequence of requests by the users of an organization
exactly when every request of it is confined. -/
theorem tenants_isolated_iff
    (h : Run (step pg cronError) (stateGuard fun _ e => e.user.organizationId = o)
      ⟨st, graph, []⟩ es s) :
    Always (step pg cronError) ⟨st, graph, []⟩ (Isolated o st) es ↔
      Run (step pg cronError) (stateGuard (Confined o pg cronError)) ⟨st, graph, []⟩ es s := by
  have hinit : Isolated o st ⟨st, graph, []⟩ :=
    ⟨.refl o st, fun _ h => absurd h List.not_mem_nil⟩
  apply h.always_iff (I := fun _ => True) trivial hinit
  intro es s e s' _ hP ho hs
  exact ⟨trivial, isolated_step hP ho hs⟩

end Routes

/-! ## Two organizations -/

/-- A database that matches no pattern, and keeps the order of insertion. -/
def plainPostgres : Postgres := ⟨fun _ _ => false, fun _ _ rows => rows, fun _ _ rows => .refl rows⟩

def user1 : AuthUser := ⟨"user1", "org1", ["jobs:read", "jobs:write"], by decide⟩

def user2 : AuthUser := ⟨"user2", "org2", ["jobs:read", "jobs:write"], by decide⟩

/-- The only job, of `org1`, has failed and is in the dead letter queue. -/
def failedStore : Store :=
  ((LabelledRun.runEvents (Sys.step {}) .init Sys.lastAttempt).map Sys.store).getD Store.empty

/-- The list of the dead letter queue, and the replay of the entry of `a`. -/
def replayed (user : AuthUser) : List Asked :=
  [⟨user, 12, .dlqList⟩, ⟨user, 13, .dlqReplay "dlq_a"⟩]

theorem own_entry_replayed : ∃ s,
    runEvents (step plainPostgres fun _ _ => none) ⟨failedStore, DependencyResolver.emptyGraph, []⟩
      (replayed user1) = some s ∧ s.store.dlq.rows = [] ∧
      Always (step plainPostgres fun _ _ => none)
        ⟨failedStore, DependencyResolver.emptyGraph, []⟩ (Isolated "org1" failedStore)
        (replayed user1) := by
  obtain ⟨s, hs, hp⟩ := exists_run_of_check (step plainPostgres fun _ _ => none)
    (stateGuard fun s e => e.user.organizationId = "org1" ∧
      Confined "org1" plainPostgres (fun _ _ => none) s e)
    ⟨failedStore, DependencyResolver.emptyGraph, []⟩ (replayed user1)
    (fun s => s.store.dlq.rows = []) (by decide)
  refine ⟨s, hs.runEvents_eq, of_decide_eq_true hp, ?_⟩
  exact (tenants_isolated_iff (hs.mono fun _ _ _ h => h.1)).mpr (hs.mono fun _ _ _ h => h.2)

/-- **Any organization replays the entry**, and is told its id. -/
theorem foreign_entry_replayed : ∃ s,
    Run (step plainPostgres fun _ _ => none) (stateGuard fun _ e => e.user.organizationId = "org2")
      ⟨failedStore, DependencyResolver.emptyGraph, []⟩ (replayed user2) s ∧
      ¬ Isolated "org2" failedStore s := by
  obtain ⟨s, hs, hp⟩ := exists_run_of_check (step plainPostgres fun _ _ => none)
    (stateGuard fun _ e => e.user.organizationId = "org2")
    ⟨failedStore, DependencyResolver.emptyGraph, []⟩ (replayed user2)
    (fun s => s.store.dlq.rows = [] ∧
      (failedStore.dlq.find? "a").map DLQEntry.organizationId = some "org1") (by decide)
  obtain ⟨hempty, hfind⟩ := of_decide_eq_true hp
  obtain ⟨e, he, ho⟩ := Option.map_eq_some_iff.mp hfind
  have hne : e.organizationId ≠ "org2" := by
    rw [ho]
    decide
  refine ⟨s, hs, fun h => ?_⟩
  have hmem : e ∈ s.store.dlq.rows := (h.1.dlq e hne).mpr (Table.mem_of_find? he)
  rw [hempty] at hmem
  cases hmem

end TaskOrchestration.JobRoutes

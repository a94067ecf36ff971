import TaskOrchestration.Api.Tenant

set_option autoImplicit false

/-!
# Authentication

A request is served for the user of its token or of its API key. A token is believed for what it
says, and for what it leaves out: one without an organization lists the jobs of all. A key is looked
up at every request, so that a key that has been revoked is worth nothing.

* `Claims`, `ApiKey`, `KeyOwner`, `Identity`; `JwtError`, `AuthError`: what the verification throws;
* `verifyJWT`, `selectKeys`, `verifyApiKey`, **`authenticate`**, `generateToken`;
* `Presents`: a header holds a valid credential; **`presents_of_authenticate`**; the round trip
  `authenticate_generateToken`;
* `handleFor`: the routes, for what a credential says; `handleFor_eq_handle`: they are those of a
  user of an organization;
* `Names`, `ListsAll`; `agreeOn_handleFor`, `handleFor_of_reads`, `not_told_handleFor`: the routes
  for users who do not name the organization;
* `ApiServer`, `ApiEvent`, `apiStep`: the requests, while keys and owners change;
  **`members_only`**.

`verify` and `sign` of the token library, `compare` of the hash library, the order in which the
database returns rows and `readUuid`, its text input of UUIDs, are parameters.
-/

namespace TaskOrchestration.JobRoutes

open JobRepository LabelledRun

/-! ## Credentials -/

/-- The payload of a token. `verifyJWT` asks for no field, so those that the routes use may be
missing. -/
structure Claims where
  sub : Option String
  organizationId : Option String
  email : String
  role : String
  scopes : Option (List String)
  deriving DecidableEq, Repr

/-- A row of `api_keys`. -/
structure ApiKey where
  id : String
  organizationId : String
  userId : String
  keyHash : String
  keyPrefix : String
  scopes : List String
  isActive : Bool
  expiresAt : Option Time
  deriving DecidableEq, Repr

/-- A row of `users`. -/
structure KeyOwner where
  id : String
  email : String
  role : String
  deriving DecidableEq, Repr

inductive AuthType
  | jwt | apikey
  deriving DecidableEq, Repr

/-- `req.user`. -/
structure Identity where
  userId : Option String
  organizationId : Option String
  email : String
  role : String
  scopes : List String
  authType : AuthType
  deriving DecidableEq, Repr

/-- What `jwt.verify` throws, by its name. -/
inductive JwtError
  | tokenExpired | jsonWebToken | notBefore
  deriving DecidableEq, Repr

/-- What `authenticate` catches. -/
inductive AuthError
  | jwt (e : JwtError)
  | error (message : String)
  deriving DecidableEq, Repr

/-- The answer to a request that is not let through. -/
def AuthError.response : AuthError → Response
  | .jwt .tokenExpired => .error 401 "Token expired"
  | .jwt .jsonWebToken => .error 401 "Invalid token"
  | _ => .error 401 "Authentication failed"

def Claims.identity (decoded : Claims) : Identity where
  userId := decoded.sub
  organizationId := decoded.organizationId
  email := decoded.email
  role := decoded.role
  scopes := decoded.scopes.getD ["jobs:read", "jobs:write"]
  authType := .jwt

def ApiKey.identity (key : ApiKey) (owner : KeyOwner) : Identity where
  userId := some owner.id
  organizationId := some key.organizationId
  email := owner.email
  role := owner.role
  scopes := key.scopes
  authType := .apikey

def ApiKey.usable (now : Time) (key : ApiKey) : Bool := key.isActive && key.expiresAt.all (now < ·)

abbrev KeyTable := Table ApiKey.id

abbrev OwnerTable := Table KeyOwner.id

/-- The first eight characters of a key. -/
def shown (rawKey : String) : String := String.ofList (rawKey.toList.take 8)

/-- The rows that the query of `verifyApiKey` selects. -/
def selectKeys (keys : KeyTable) (owners : OwnerTable) (now : Time) (keyPrefix : String) :
    List (ApiKey × KeyOwner) :=
  (keys.rows.filter fun key => key.keyPrefix = keyPrefix && key.usable now).filterMap fun key =>
    (owners.find? key.userId).map fun owner => (key, owner)

section Authenticate

variable (verify : String → Time → Except JwtError Claims) (compare : String → String → Bool)

def verifyJWT (token : String) (now : Time) : Except AuthError Identity :=
  match verify token now with
  | .ok decoded => .ok decoded.identity
  | .error e => .error (.jwt e)

/-- `rows` is what the query returns, if it does not fail. -/
def verifyApiKey (rawKey : String) (rows : Option (List (ApiKey × KeyOwner))) :
    Except AuthError Identity :=
  if rawKey.length < 8 then .error (.error "Invalid API key format")
  else
    match rows with
    | none => .error (.error "query failed")
    | some apiKeyRows =>
        match apiKeyRows.find? fun row => compare rawKey row.1.keyHash with
        | some row => .ok (row.1.identity row.2)
        | none => .error (.error "Invalid API key")

/-- The rest of a header that begins with the scheme. -/
def credentials (scheme header : String) : Option String :=
  (scheme.toList.isPrefixOf? header.toList).map String.ofList

def identify (header : String) (rows : Option (List (ApiKey × KeyOwner))) (now : Time) :
    Except Response Identity :=
  match credentials "Bearer " header, credentials "ApiKey " header with
  | some token, _ => (verifyJWT verify token now).mapError AuthError.response
  | none, some rawKey => (verifyApiKey compare rawKey rows).mapError AuthError.response
  | none, none => .error (.error 401 "Invalid authorization scheme (use Bearer or ApiKey)")

/-- **`authenticate`**: the user for whom the route runs, or the answer. -/
def authenticate (required : List String) (authHeader : Option String)
    (rows : Option (List (ApiKey × KeyOwner))) (now : Time) : Except Response Identity :=
  match authHeader.filter (· ≠ "") with
  | none => .error (.error 401 "Missing Authorization header")
  | some header =>
      match identify verify compare header rows now with
      | .error answer => .error answer
      | .ok user =>
          if ∀ scope ∈ required, scope ∈ user.scopes then .ok user
          else .error (.insufficient required user.scopes)

/-! ## What is let through -/

/-- **The header holds a valid credential of the user**: a token that verifies now, or a key that
is in the table, active and not expired, with the hash of the text. -/
def Presents (keys : KeyTable) (owners : OwnerTable) (now : Time) (authHeader : Option String)
    (user : Identity) : Prop :=
  (∃ token decoded, authHeader = some ("Bearer " ++ token) ∧ verify token now = .ok decoded ∧
    user = decoded.identity) ∨
  ∃ rawKey, authHeader = some ("ApiKey " ++ rawKey) ∧ ∃ key ∈ keys, ∃ owner ∈ owners,
    key.userId = owner.id ∧ key.keyPrefix = shown rawKey ∧ key.usable now = true ∧
      compare rawKey key.keyHash = true ∧ user = key.identity owner

variable {verify compare} {keys : KeyTable} {owners : OwnerTable} {now : Time}
  {required : List String} {authHeader : Option String} {user : Identity}

theorem credentials_eq_some {scheme header rest : String} :
    credentials scheme header = some rest ↔ header = scheme ++ rest := by
  rw [credentials, Option.map_eq_some_iff, ← String.toList_inj, String.toList_append]
  constructor
  · rintro ⟨l, hl, rfl⟩
    rw [String.toList_ofList]
    exact (List.isPrefixOf?_eq_some_iff_append_eq.mp hl).symm
  · intro h
    exact ⟨rest.toList, List.isPrefixOf?_eq_some_iff_append_eq.mpr h.symm, String.ofList_toList⟩

theorem mem_selectKeys {keyPrefix : String} {row : ApiKey × KeyOwner} :
    row ∈ selectKeys keys owners now keyPrefix ↔
      row.1 ∈ keys ∧ row.1.keyPrefix = keyPrefix ∧ row.1.usable now = true ∧
        owners.find? row.1.userId = some row.2 := by
  obtain ⟨key, owner⟩ := row
  simp only [selectKeys, List.mem_filterMap, List.mem_filter, Bool.and_eq_true,
    decide_eq_true_eq, Option.map_eq_some_iff, Prod.mk.injEq]
  constructor
  · rintro ⟨k, ⟨hmem, hprefix, husable⟩, o, ho, rfl, rfl⟩
    exact ⟨hmem, hprefix, husable, ho⟩
  · rintro ⟨hmem, hprefix, husable, ho⟩
    exact ⟨key, ⟨hmem, hprefix, husable⟩, owner, ho, rfl, rfl⟩

theorem verifyApiKey_eq_ok {rawKey : String} {rows : Option (List (ApiKey × KeyOwner))}
    (h : verifyApiKey compare rawKey rows = .ok user) : ∃ apiKeyRows, rows = some apiKeyRows ∧
      ∃ row ∈ apiKeyRows, compare rawKey row.1.keyHash = true ∧ user = row.1.identity row.2 := by
  unfold verifyApiKey at h
  split_ifs at h
  cases rows with
  | none => cases h
  | some apiKeyRows =>
      refine ⟨apiKeyRows, rfl, ?_⟩
      dsimp only at h
      split at h
      · rename_i row hrow
        have hcompare : compare rawKey row.1.keyHash = true :=
          List.find?_some (p := fun row : ApiKey × KeyOwner => compare rawKey row.1.keyHash) hrow
        exact ⟨row, List.mem_of_find?_eq_some hrow, hcompare, (Except.ok.inj h).symm⟩
      · cases h

theorem identify_eq_ok {header : String} {rows : Option (List (ApiKey × KeyOwner))}
    (h : identify verify compare header rows now = .ok user) :
    (∃ token decoded, header = "Bearer " ++ token ∧ verify token now = .ok decoded ∧
      user = decoded.identity) ∨
    ∃ rawKey, header = "ApiKey " ++ rawKey ∧ verifyApiKey compare rawKey rows = .ok user := by
  unfold identify at h
  cases hb : credentials "Bearer " header with
  | some token =>
      simp only [hb, verifyJWT] at h
      cases hv : verify token now with
      | ok decoded =>
          rw [hv] at h
          exact .inl ⟨token, decoded, credentials_eq_some.mp hb, hv, (Except.ok.inj h).symm⟩
      | error e =>
          rw [hv] at h
          cases h
  | none =>
      cases ha : credentials "ApiKey " header with
      | none =>
          simp only [hb, ha] at h
          cases h
      | some rawKey =>
          simp only [hb, ha] at h
          cases hv : verifyApiKey compare rawKey rows with
          | ok u =>
              rw [hv] at h
              obtain rfl := Except.ok.inj h
              exact .inr ⟨rawKey, credentials_eq_some.mp ha, hv⟩
          | error e =>
              rw [hv] at h
              cases h

theorem authenticate_eq_ok {rows : Option (List (ApiKey × KeyOwner))} :
    authenticate verify compare required authHeader rows now = .ok user ↔
      ∃ header, authHeader = some header ∧ header ≠ "" ∧
        identify verify compare header rows now = .ok user ∧
        ∀ scope ∈ required, scope ∈ user.scopes := by
  unfold authenticate
  constructor
  · intro h
    split at h
    · cases h
    rename_i header hheader
    obtain ⟨hsome, hne⟩ := Option.filter_eq_some_iff.mp hheader
    split at h
    · cases h
    rename_i u hu
    split_ifs at h with hscopes
    obtain rfl := Except.ok.inj h
    exact ⟨header, hsome, of_decide_eq_true hne, hu, hscopes⟩
  · rintro ⟨header, rfl, hne, hu, hscopes⟩
    rw [Option.filter_some, if_pos (decide_eq_true hne)]
    simp only [hu]
    rw [if_pos hscopes]

/-- **What is let through** holds a valid credential of a user who has the scopes. -/
theorem presents_of_authenticate {rows : Option (List (ApiKey × KeyOwner))}
    (hrows : ∀ rawKey, authHeader = some ("ApiKey " ++ rawKey) → ∀ l ∈ rows,
      l.Perm (selectKeys keys owners now (shown rawKey)))
    (h : authenticate verify compare required authHeader rows now = .ok user) :
    Presents verify compare keys owners now authHeader user ∧
      ∀ scope ∈ required, scope ∈ user.scopes := by
  obtain ⟨header, rfl, -, hu, hscopes⟩ := authenticate_eq_ok.mp h
  refine ⟨?_, hscopes⟩
  rcases identify_eq_ok hu with ⟨token, decoded, rfl, hv, rfl⟩ | ⟨rawKey, rfl, hv⟩
  · exact .inl ⟨token, decoded, rfl, hv, rfl⟩
  · obtain ⟨l, rfl, row, hrow, hcompare, rfl⟩ := verifyApiKey_eq_ok hv
    have hsel := (hrows rawKey rfl l rfl).mem_iff.mp hrow
    obtain ⟨hmem, hshown, husable, howner⟩ := mem_selectKeys.mp hsel
    obtain ⟨howned, hid⟩ := Table.find?_eq_some.mp howner
    exact .inr ⟨rawKey, rfl, row.1, hmem, row.2, howned, hid.symm, hshown, husable, hcompare, rfl⟩

/-- The payload that `generateToken` signs. -/
def claimsOf (user : Identity) : Claims where
  sub := user.userId
  organizationId := user.organizationId
  email := user.email
  role := user.role
  scopes := some user.scopes

def generateToken (sign : Claims → Time → String) (user : Identity) (now : Time) : String :=
  sign (claimsOf user) now

/-- **The round trip**: until it expires, a generated token is for the user it was generated for,
on the routes whose scopes the user has; afterwards it is refused. -/
theorem authenticate_generateToken {sign : Claims → Time → String} {expiresIn : ℕ}
    (hverify : ∀ claims issued now, verify (sign claims issued) now =
      if now < issued + expiresIn then .ok claims else .error .tokenExpired)
    (user : Identity) (issued now : Time) (required : List String)
    (rows : Option (List (ApiKey × KeyOwner))) :
    authenticate verify compare required (some ("Bearer " ++ generateToken sign user issued)) rows
        now =
      if now < issued + expiresIn then
        if ∀ scope ∈ required, scope ∈ user.scopes then .ok { user with authType := .jwt }
        else .error (.insufficient required user.scopes)
      else .error (.error 401 "Token expired") := by
  have hne : "Bearer " ++ generateToken sign user issued ≠ "" := fun h => by
    have := congrArg String.toList h
    simp [String.toList_append] at this
  have hcred : credentials "Bearer " ("Bearer " ++ generateToken sign user issued) =
      some (generateToken sign user issued) := credentials_eq_some.mpr rfl
  rw [authenticate, Option.filter_some, if_pos (decide_eq_true hne)]
  simp only [identify, hcred, verifyJWT]
  rw [generateToken, hverify]
  split_ifs with hfresh hscopes
  · exact if_pos hscopes
  · exact if_neg hscopes
  · rfl

end Authenticate

/-! ## The routes, for any credential -/

/-- The id of a user or of an organization. No UUID is empty. -/
abbrev Uuid := { id : String // id ≠ "" }

namespace Identity

/-- The organization that a row is compared with. `undefined` is none's, and `""` neither. -/
def organization (user : Identity) : String := user.organizationId.getD ""

def asUser (user : Identity) (userId organizationId : Uuid) : AuthUser :=
  ⟨userId, organizationId, user.scopes, organizationId.2⟩

def Allowed (user : Identity) (request : Request) : Prop :=
  ∀ scope ∈ requiredScopes request, scope ∈ user.scopes

instance (user : Identity) (request : Request) : Decidable (user.Allowed request) := by
  unfold Allowed; infer_instance

end Identity

/-- **The route of a request, for what the credential says.** PostgreSQL reads the ids that a
statement contains; without an organization the `filter` has none, and the `INSERT` fails. The other
routes compare the text with that of the row. -/
def handleFor (pg : Postgres) (cronError : String → String → Option String)
    (readUuid : String → Option Uuid) (user : Identity) (now : Time) (s : Server) :
    Request → Server × Response
  | .create body id =>
      match user.userId.bind readUuid, user.organizationId.bind readUuid with
      | some userId, some organizationId =>
          create cronError (user.asUser userId organizationId) now s body id
      | _, _ => (s, handleError (.error "insert into jobs"))
  | .list query =>
      match user.organizationId.filter (· ≠ "") with
      | none => (s, .jobs (findMany pg s.store.jobs (listFilter none query)))
      | some text =>
          match readUuid text with
          | some organizationId =>
              (s, .jobs (findMany pg s.store.jobs (listFilter (some organizationId) query)))
          | none => (s, handleError (.error "invalid input syntax for type uuid"))
  | .get id => (s, respond (.job 200) (JobService.getJob s.store.jobs id user.organization))
  | .history id => (s, respond .history (JobService.getJobHistory s.store id user.organization))
  | .cancel id => update s (JobService.cancelJob s.store.jobs now id user.organization)
  | .bulkCancel ids => bulkCancel user.organization now s ids
  | .retry id => update s (JobService.retryJob s.store.jobs now id user.organization)
  | .dlqList => (s, .summary (RetryService.getDLQSummary s.store.dlq))
  | .dlqReplay dlqId => dlqReplay s dlqId
  | .dlqReplayAll =>
      let p := RetryService.replayAllDLQ s.store
      ({ s with store := p.1 }, .replayedAll p.2)

/-- **The user names the organization**, as a text that is compared, or that is read as its id. -/
def Names (readUuid : String → Option Uuid) (o : String) (user : Identity) : Prop :=
  user.organization = o ∨ ∃ id ∈ user.organizationId.bind readUuid, id.1 = o

instance (readUuid : String → Option Uuid) (o : String) (user : Identity) :
    Decidable (Names readUuid o user) := by
  unfold Names; infer_instance

/-- **The user lists the jobs of all organizations**: the token names none. -/
def ListsAll (user : Identity) : Request → Prop
  | .list _ => user.organization = ""
  | _ => False

instance (user : Identity) : DecidablePred (ListsAll user)
  | .list _ => inferInstanceAs (Decidable (user.organization = ""))
  | .create _ _ | .get _ | .history _ | .cancel _ | .bulkCancel _ | .retry _ | .dlqList
  | .dlqReplay _ | .dlqReplayAll => .isFalse id

section Handle

variable {pg : Postgres} {cronError : String → String → Option String}
  {readUuid : String → Option Uuid} {user : Identity} {member : AuthUser} {now : Time} {s : Server}
  {request : Request} {o organizationId : String}

theorem handleFor_eq_handle {userId : Uuid} {organizationId : Uuid}
    (hu : user.userId = some userId.1) (ho : user.organizationId = some organizationId.1)
    (hru : readUuid userId = some userId) (hro : readUuid organizationId = some organizationId) :
    handleFor pg cronError readUuid user now s request =
      handle pg cronError (user.asUser userId organizationId) now s request := by
  have htext : user.organization = organizationId.1 := by
    rw [Identity.organization, ho, Option.getD_some]
  cases request with
  | create body id =>
      rw [handleFor, hu, ho, Option.bind_some, Option.bind_some, hru, hro]
      rfl
  | list query =>
      rw [handleFor, ho, Option.filter_some, if_pos (decide_eq_true organizationId.2)]
      dsimp only
      rw [hro]
      rfl
  | get | history | cancel | bulkCancel | retry => rw [handleFor, htext]; rfl
  | dlqList | dlqReplay | dlqReplayAll => rfl

/-! ## The rows that stay -/

theorem agreeOn_update_checked {verb id : String} {allowed : JobStatus → Bool}
    {dto : UpdateJobDto} :
    s.store.jobs.AgreeOn (fun r : Job => r.organizationId ≠ o)
      (update s (JobService.updateChecked verb (JobService.checkStatus verb allowed id o)
        s.store.jobs now id dto)).1.store.jobs ∧
    ∀ code r, (update s (JobService.updateChecked verb (JobService.checkStatus verb allowed id o)
        s.store.jobs now id dto)).2 = .job code r → r.organizationId = o := by
  have hrow : ∀ row j, JobService.checkStatus verb allowed id o row = .ok j → row = some j :=
    fun row j h => (JobService.checkStatus_eq_ok.mp h).1
  cases hu : JobService.updateChecked verb (JobService.checkStatus verb allowed id o) s.store.jobs
      now id dto with
  | ok p =>
      obtain ⟨t, job⟩ := p
      obtain ⟨r, hc, rfl, rfl⟩ := (JobService.updateChecked_eq_ok hrow).mp hu
      obtain ⟨hr, ho, -⟩ := JobService.checkStatus_eq_ok.mp hc
      refine ⟨agreeOn_update_own hr ho, fun code r' h => ?_⟩
      obtain ⟨-, rfl⟩ := Response.job.inj h
      exact ho
  | error e => exact ⟨.refl _ _, fun code r h => by cases h⟩

theorem agreeOn_create {body : CreateJobDto} {id : JobId} :
    s.store.jobs.AgreeOn (fun r : Job => r.organizationId ≠ member.organizationId)
      (create cronError member now s body id).1.store.jobs := by
  unfold create
  cases hc : Scheduler.createJob cronError ⟨s.store.jobs, s.graph⟩ id now
      (createDto member body) with
  | ok p =>
      obtain ⟨p, job⟩ := p
      obtain ⟨-, -, hsub⟩ := Scheduler.createJob_eq_ok.mp hc
      intro r hr
      rw [Scheduler.mem_submitJob hsub r]
      constructor
      · rintro (hmem | rfl)
        · exact hmem
        · exact absurd rfl hr
      · exact .inl
  | error e => exact .refl _ _

theorem agreeOn_bulkCancel {ids : List JobId} :
    s.store.jobs.AgreeOn (fun r : Job => r.organizationId ≠ organizationId)
      (bulkCancel organizationId now s ids).1.store.jobs := by
  unfold bulkCancel
  split_ifs
  · exact .refl _ _
  · exact .refl _ _
  · refine JobService.bulkCancel_induction (fun t t' id job h hc => ?_) (.refl _ _) ids
    obtain ⟨r, hcheck, rfl, -⟩ := JobService.cancelJob_eq_ok.mp hc
    obtain ⟨hr, hown, -⟩ := JobService.checkCancel_eq_ok.mp hcheck
    exact h.trans (agreeOn_update_own hr hown)

theorem agreeOn_dlqReplay {p : Job → Prop} {dlqId : String} :
    s.store.jobs.AgreeOn p (dlqReplay s dlqId).1.store.jobs := by
  unfold dlqReplay RetryService.replayDLQEntry
  cases hr : DeadLetterQueue.replayJob s.store dlqId with
  | ok st =>
      obtain ⟨_, -, -, rfl⟩ := RetryService.replayJob_eq_ok.mp hr
      exact .refl _ _
  | error e => exact .refl _ _

theorem agreeOn_replayAllDLQ {p : Job → Prop} {st : Store} :
    st.jobs.AgreeOn p (RetryService.replayAllDLQ st).1.jobs := by
  refine RetryService.replayAll_induction
    (P := fun st' => st.jobs.AgreeOn p st'.jobs) (fun st₁ st₂ e _ h hr => ?_) (.refl _ _)
  obtain ⟨_, -, -, rfl⟩ := RetryService.replayJob_eq_ok.mp hr
  exact h

/-- **The rows of other organizations** are kept by every request of a user. -/
theorem agreeOn_handle : s.store.jobs.AgreeOn (fun r : Job => r.organizationId ≠
    member.organizationId) (handle pg cronError member now s request).1.store.jobs := by
  cases request with
  | create body id => exact agreeOn_create
  | cancel id | retry id => exact agreeOn_update_checked.1
  | bulkCancel ids => exact agreeOn_bulkCancel
  | dlqReplay dlqId => exact agreeOn_dlqReplay
  | dlqReplayAll => exact agreeOn_replayAllDLQ
  | list | get | history | dlqList => exact .refl _ _

/-- **The rows of an organization** that the user does not name are kept by every request. -/
theorem agreeOn_handleFor (hno : ¬ Names readUuid o user) :
    s.store.jobs.AgreeOn (fun r : Job => r.organizationId = o)
      (handleFor pg cronError readUuid user now s request).1.store.jobs := by
  have hother : ∀ {t : JobTable}, s.store.jobs.AgreeOn
      (fun r : Job => r.organizationId ≠ user.organization) t →
        s.store.jobs.AgreeOn (fun r : Job => r.organizationId = o) t :=
    fun h r hr => h r fun hown => hno (.inl (hown.symm.trans hr))
  cases request with
  | create body id =>
      rw [handleFor]
      split
      · rename_i userId organizationId _ ho
        exact fun r hr => agreeOn_create r fun hown => hno (.inr ⟨_, ho, hown.symm.trans hr⟩)
      · exact .refl _ _
  | list query =>
      rw [handleFor]
      split
      · exact .refl _ _
      · split <;> exact .refl _ _
  | cancel id | retry id => exact hother agreeOn_update_checked.1
  | bulkCancel ids => exact hother agreeOn_bulkCancel
  | dlqReplay dlqId => exact agreeOn_dlqReplay
  | dlqReplayAll => exact agreeOn_replayAllDLQ
  | get | history | dlqList => exact .refl _ _

/-- **A request that asks for no scope but `jobs:read`** changes nothing. -/
theorem handleFor_of_reads (h : "jobs:write" ∉ requiredScopes request) :
    (handleFor pg cronError readUuid user now s request).1 = s := by
  cases request with
  | list query =>
      rw [handleFor]
      split
      · rfl
      · split <;> rfl
  | get | history | dlqList => rfl
  | _ => exact absurd (List.mem_singleton_self _) h

/-! ## The rows that are shown -/

/-- The response shows a row of the organization, or the history of one. -/
def Told (o : String) (st : Store) : Response → Prop
  | .job _ r => r.organizationId = o
  | .jobs page => ∃ r ∈ page.data, r.organizationId = o
  | .history logs => ∃ log ∈ logs, ∃ r ∈ st.jobs, r.id = log.jobId ∧ r.organizationId = o
  | _ => False

theorem not_told_create {body : CreateJobDto} {id : JobId} (ho : member.organizationId ≠ o) :
    ¬ Told o s.store (create cronError member now s body id).2 := by
  unfold create
  cases hc : Scheduler.createJob cronError ⟨s.store.jobs, s.graph⟩ id now
      (createDto member body) with
  | ok p =>
      obtain ⟨p, job⟩ := p
      obtain ⟨-, -, hsub⟩ := Scheduler.createJob_eq_ok.mp hc
      obtain ⟨rfl, -⟩ := Scheduler.submitJob_eq_some hsub
      exact ho
  | error e => exact fun htold => htold

theorem not_told_getJob {id : JobId} (ho : organizationId ≠ o) :
    ¬ Told o s.store (respond (.job 200) (JobService.getJob s.store.jobs id organizationId)) := by
  cases hg : JobService.getJob s.store.jobs id organizationId with
  | ok job => exact fun htold => ho ((JobService.authorize_eq_ok.mp hg).2.symm.trans htold)
  | error e => exact fun htold => htold

theorem not_told_getJobHistory {id : JobId} (ho : organizationId ≠ o) :
    ¬ Told o s.store
      (respond .history (JobService.getJobHistory s.store id organizationId)) := by
  unfold JobService.getJobHistory
  cases hg : JobService.getJob s.store.jobs id organizationId with
  | ok job =>
      obtain ⟨hr, hown⟩ := JobService.authorize_eq_ok.mp hg
      rintro ⟨log, hlog, r, hmem, hid, hro⟩
      have hmem' := (List.mem_insertionSort _).mp hlog
      have hlogged : log.jobId = id := of_decide_eq_true (List.mem_filter.mp hmem').2
      have hsame : r = job := Table.key_inj hmem (Table.mem_of_find? hr)
        ((hid.trans hlogged).trans (Table.key_of_find? hr).symm)
      exact ho (hown.symm.trans (hsame ▸ hro))
  | error e => exact fun htold => htold

theorem not_told_update_checked {verb id : String} {allowed : JobStatus → Bool}
    {dto : UpdateJobDto} (ho : organizationId ≠ o) :
    ¬ Told o s.store (update s (JobService.updateChecked verb
      (JobService.checkStatus verb allowed id organizationId) s.store.jobs now id dto)).2 := by
  have hown : ∀ code r, (update s (JobService.updateChecked verb
      (JobService.checkStatus verb allowed id organizationId) s.store.jobs now id dto)).2 =
        .job code r → r.organizationId = organizationId :=
    agreeOn_update_checked.2
  cases hu : JobService.updateChecked verb (JobService.checkStatus verb allowed id organizationId)
      s.store.jobs now id dto with
  | ok p => exact fun htold => ho ((hown 200 p.2 (by rw [hu]; rfl)).symm.trans htold)
  | error e => exact fun htold => htold

/-- **Users who do not name the organization** are told of its rows when they list all jobs, and
never else. -/
theorem not_told_handleFor (hno : ¬ Names readUuid o user) (hlist : ¬ ListsAll user request) :
    ¬ Told o s.store (handleFor pg cronError readUuid user now s request).2 := by
  have ho : user.organization ≠ o := fun h => hno (.inl h)
  cases request with
  | create body id =>
      rw [handleFor]
      split
      · rename_i userId organizationId _ hread
        exact not_told_create fun h => hno (.inr ⟨_, hread, h⟩)
      · exact fun htold => htold
  | list query =>
      rw [handleFor]
      split
      · -- the token names no organization
        rename_i hnone
        refine absurd ?_ hlist
        change user.organizationId.getD "" = ""
        cases htext : user.organizationId with
        | none => rfl
        | some text =>
            rw [htext, Option.filter_eq_none_iff] at hnone
            exact by_contra fun hne => hnone text rfl (decide_eq_true hne)
      · rename_i text htext
        have hsome := (Option.filter_eq_some_iff.mp htext).1
        split
        · rename_i organizationId hread
          rintro ⟨r, hr, hro⟩
          have hown := organizationId_of_mem_findMany hr rfl organizationId.2
          refine hno (.inr ⟨organizationId, ?_, hown.symm.trans hro⟩)
          rw [hsome, Option.bind_some, hread]
          rfl
        · exact id
  | get id => exact not_told_getJob ho
  | history id => exact not_told_getJobHistory ho
  | cancel id | retry id => exact not_told_update_checked ho
  | bulkCancel ids =>
      dsimp only [handleFor, bulkCancel]
      split_ifs <;> exact id
  | dlqReplay dlqId =>
      dsimp only [handleFor, dlqReplay]
      split <;> exact id
  | dlqList | dlqReplayAll => exact id

theorem not_told_refusal {verify : String → Time → Except JwtError Claims}
    {compare : String → String → Bool} {required : List String} {authHeader : Option String}
    {rows : Option (List (ApiKey × KeyOwner))} {answer : Response} {st : Store}
    (h : authenticate verify compare required authHeader rows now = .error answer) :
    ¬ Told o st answer := by
  have hauth : ∀ e : AuthError, ¬ Told o st e.response := by
    rintro (⟨_ | _ | _⟩ | _) htold <;> exact htold
  have hmap : ∀ {x : Except AuthError Identity} {a : Response},
      x.mapError AuthError.response = .error a → ¬ Told o st a := by
    rintro (e | user) a hx
    · obtain rfl := Except.error.inj hx
      exact hauth e
    · cases hx
  unfold authenticate at h
  split at h
  · obtain rfl := Except.error.inj h
    exact fun htold => htold
  · split at h
    · rename_i a ha
      obtain rfl := Except.error.inj h
      unfold identify at ha
      split at ha
      · exact hmap ha
      · exact hmap ha
      · obtain rfl := Except.error.inj ha
        exact fun htold => htold
    · split_ifs at h
      obtain rfl := Except.error.inj h
      exact fun htold => htold

end Handle

/-! ## Requests, and keys that change -/

/-- **The server**, and the tables that the keys are looked up in. -/
structure ApiServer where
  server : Server
  keys : KeyTable
  owners : OwnerTable

/-- A request with its header, and what the query for its key returns. -/
structure HttpRequest where
  authHeader : Option String
  request : Request
  now : Time
  rows : Option (List (ApiKey × KeyOwner)) := none
  deriving DecidableEq, Repr

/-- The query returns the rows of the key of the header, in any order. -/
def HttpRequest.Queried (s : ApiServer) (r : HttpRequest) : Prop :=
  ∀ rawKey ∈ r.authHeader.bind (credentials "ApiKey "), ∀ l ∈ r.rows,
    l.Perm (selectKeys s.keys s.owners r.now (shown rawKey))

instance (s : ApiServer) (r : HttpRequest) : Decidable (r.Queried s) := by
  unfold HttpRequest.Queried; infer_instance

/-- A request, or any change of the keys and their owners. -/
inductive ApiEvent
  | request (r : HttpRequest)
  | administer (keys : KeyTable) (owners : OwnerTable)

section Requests

variable (pg : Postgres) (cronError : String → String → Option String)
  (readUuid : String → Option Uuid) (verify : String → Time → Except JwtError Claims)
  (compare : String → String → Bool)

def apiStep (s : ApiServer) : ApiEvent → Option ApiServer
  | .request r =>
      if r.Queried s then
        match authenticate verify compare (requiredScopes r.request) r.authHeader r.rows r.now with
        | .error answer =>
            some { s with server := { s.server with responses := s.server.responses ++ [answer] } }
        | .ok user =>
            let p := handleFor pg cronError readUuid user r.now s.server r.request
            some { s with server := { p.1 with responses := s.server.responses ++ [p.2] } }
      else none
  | .administer keys owners => some { s with keys := keys, owners := owners }

/-- **The request holds a valid credential that names the organization**, or lists the jobs with a
token that names none, and has the scopes that the route requires. -/
def Enters (o : String) (s : ApiServer) : ApiEvent → Prop
  | .request r => ∃ user, Presents verify compare s.keys s.owners r.now r.authHeader user ∧
      user.Allowed r.request ∧ (Names readUuid o user ∨ ListsAll user r.request)
  | .administer _ _ => False

/-- **The request writes for the organization**: its credential names it, and the route requires
`jobs:write`. -/
def Writes (o : String) (s : ApiServer) : ApiEvent → Prop
  | .request r => ∃ user, Presents verify compare s.keys s.owners r.now r.authHeader user ∧
      user.Allowed r.request ∧ Names readUuid o user ∧ "jobs:write" ∈ requiredScopes r.request
  | .administer _ _ => False

variable {pg cronError readUuid verify compare} {o : String} {s s' s₀ : ApiServer} {e : ApiEvent}
  {es : List ApiEvent}

theorem exists_presents_iff {keys : KeyTable} {owners : OwnerTable} {now : Time}
    {authHeader : Option String} {P : Identity → Prop} :
    (∃ user, Presents verify compare keys owners now authHeader user ∧ P user) ↔
      (∃ token ∈ authHeader.bind (credentials "Bearer "),
        ∃ decoded ∈ (verify token now).toOption, P decoded.identity) ∨
      ∃ rawKey ∈ authHeader.bind (credentials "ApiKey "), ∃ key ∈ keys, ∃ owner ∈ owners,
        (key.userId = owner.id ∧ key.keyPrefix = shown rawKey ∧ key.usable now = true ∧
          compare rawKey key.keyHash = true) ∧ P (key.identity owner) := by
  have hcred : ∀ {scheme text : String}, text ∈ authHeader.bind (credentials scheme) ↔
      authHeader = some (scheme ++ text) := by
    intro scheme text
    rw [Option.mem_def, Option.bind_eq_some_iff]
    constructor
    · rintro ⟨header, hh, hc⟩
      rw [hh, credentials_eq_some.mp hc]
    · intro hh
      exact ⟨_, hh, credentials_eq_some.mpr rfl⟩
  have hok : ∀ {token decoded}, decoded ∈ (verify token now).toOption ↔
      verify token now = .ok decoded := by
    intro token decoded
    cases verify token now <;> simp [Except.toOption]
  constructor
  · rintro ⟨user, ⟨token, decoded, hh, hv, rfl⟩ | ⟨rawKey, hh, key, hkey, owner, howner, h₁, h₂,
      h₃, h₄, rfl⟩, hP⟩
    · exact .inl ⟨token, hcred.mpr hh, decoded, hok.mpr hv, hP⟩
    · exact .inr ⟨rawKey, hcred.mpr hh, key, hkey, owner, howner, ⟨h₁, h₂, h₃, h₄⟩, hP⟩
  · rintro (⟨token, ht, decoded, hv, hP⟩ | ⟨rawKey, ht, key, hkey, owner, howner,
      ⟨h₁, h₂, h₃, h₄⟩, hP⟩)
    · exact ⟨_, .inl ⟨token, decoded, hcred.mp ht, hok.mp hv, rfl⟩, hP⟩
    · exact ⟨_, .inr ⟨rawKey, hcred.mp ht, key, hkey, owner, howner, h₁, h₂, h₃, h₄, rfl⟩, hP⟩

instance (s : ApiServer) : DecidablePred (Enters readUuid verify compare o s) := fun e =>
  match e with
  | .request _ => decidable_of_iff _ exists_presents_iff.symm
  | .administer _ _ => .isFalse id

instance (s : ApiServer) : DecidablePred (Writes readUuid verify compare o s) := fun e =>
  match e with
  | .request _ => decidable_of_iff _ exists_presents_iff.symm
  | .administer _ _ => .isFalse id

theorem enters_of_writes (h : Writes readUuid verify compare o s e) :
    Enters readUuid verify compare o s e := by
  cases e with
  | request r =>
      obtain ⟨user, hpresents, hallowed, hnames, -⟩ := h
      exact ⟨user, hpresents, hallowed, .inl hnames⟩
  | administer keys owners => exact h

/-- **What a step is**: the keys change, the request is refused, or it is served for a user who
presents a credential. -/
theorem apiStep_cases (hs : apiStep pg cronError readUuid verify compare s e = some s') :
    (∃ keys owners, e = .administer keys owners ∧ s'.server = s.server) ∨
    (∃ answer, (∀ o st, ¬ Told o st answer) ∧
      s'.server = { s.server with responses := s.server.responses ++ [answer] }) ∨
    ∃ r, ∃ user : Identity, e = .request r ∧
      Presents verify compare s.keys s.owners r.now r.authHeader user ∧ user.Allowed r.request ∧
      s'.server = { (handleFor pg cronError readUuid user r.now s.server r.request).1 with
        responses := s.server.responses ++
          [(handleFor pg cronError readUuid user r.now s.server r.request).2] } := by
  cases e with
  | administer keys owners =>
      obtain rfl := Option.some.inj hs
      exact .inl ⟨keys, owners, rfl, rfl⟩
  | request r =>
      right
      simp only [apiStep] at hs
      split_ifs at hs with hq
      cases ha : authenticate verify compare (requiredScopes r.request) r.authHeader r.rows
          r.now with
      | error answer =>
          rw [ha] at hs
          obtain rfl := Option.some.inj hs
          exact .inl ⟨answer, fun _ _ => not_told_refusal ha, rfl⟩
      | ok user =>
          rw [ha] at hs
          obtain rfl := Option.some.inj hs
          have hrows : ∀ rawKey, r.authHeader = some ("ApiKey " ++ rawKey) → ∀ l ∈ r.rows,
              l.Perm (selectKeys s.keys s.owners r.now (shown rawKey)) := by
            intro rawKey hheader l hl
            refine hq rawKey ?_ l hl
            rw [hheader]
            exact credentials_eq_some.mpr rfl
          obtain ⟨hpresents, hscopes⟩ := presents_of_authenticate hrows ha
          exact .inr ⟨r, user, rfl, hpresents, hscopes, rfl⟩

/-- **A step** keeps the rows of the organization, unless it is a writing request that names it. -/
theorem agreeOn_apiStep (hs : apiStep pg cronError readUuid verify compare s e = some s')
    (hno : ¬ Writes readUuid verify compare o s e) :
    s.server.store.jobs.AgreeOn (fun r : Job => r.organizationId = o) s'.server.store.jobs := by
  rcases apiStep_cases hs with ⟨keys, owners, -, hsame⟩ | ⟨answer, -, hsame⟩ |
    ⟨r, user, rfl, hpresents, hallowed, hserved⟩
  · rw [hsame]
    exact .refl _ _
  · rw [hsame]
    exact .refl _ _
  · rw [hserved]
    by_cases hnames : Names readUuid o user
    · -- a request that names it, on a route that writes nothing
      have hreads : "jobs:write" ∉ requiredScopes r.request := fun hw =>
        hno ⟨user, hpresents, hallowed, hnames, hw⟩
      dsimp only
      rw [handleFor_of_reads hreads]
      exact .refl _ _
    · exact agreeOn_handleFor hnames

/-- **A response** tells of no row of the organization, unless it is to a request that enters. -/
theorem not_told_apiStep (hs : apiStep pg cronError readUuid verify compare s e = some s')
    (hno : ¬ Enters readUuid verify compare o s e)
    (h : ∀ response ∈ s.server.responses, ¬ Told o s.server.store response) :
    ∀ response ∈ s'.server.responses, ¬ Told o s.server.store response := by
  have hsnoc : ∀ {answer}, ¬ Told o s.server.store answer →
      ∀ response ∈ s.server.responses ++ [answer], ¬ Told o s.server.store response := by
    intro answer hanswer response hmem
    rcases List.mem_append.mp hmem with hmem | hmem
    · exact h response hmem
    · exact List.mem_singleton.mp hmem ▸ hanswer
  rcases apiStep_cases hs with ⟨keys, owners, -, hsame⟩ | ⟨answer, hquiet, hsame⟩ |
    ⟨r, user, rfl, hpresents, hallowed, hserved⟩
  · rw [hsame]
    exact h
  · rw [hsame]
    exact hsnoc (hquiet o _)
  · rw [hserved]
    exact hsnoc (not_told_handleFor (fun hn => hno ⟨user, hpresents, hallowed, .inl hn⟩)
      fun hl => hno ⟨user, hpresents, hallowed, .inr hl⟩)

theorem told_congr {st st' : Store} {response : Response}
    (h : st.jobs.AgreeOn (fun r : Job => r.organizationId = o) st'.jobs)
    (htold : Told o st' response) : Told o st response := by
  cases response with
  | history logs =>
      obtain ⟨log, hlog, r, hr, hid, ho⟩ := htold
      exact ⟨log, hlog, r, (h r ho).mp hr, hid, ho⟩
  | _ => exact htold

/-- **The rows of an organization are in the hands of its members.** While no request with a valid
credential that names it, and has the scope `jobs:write`, comes to a writing route, the rows of the
organization stay as they are; while no such request comes at all, and nobody lists the jobs with a
token that names no organization, no response shows one of them, or its history. Keys may be issued,
revoked and expire at any time. -/
theorem members_only (o : String) (h₀ : s₀.server.responses = []) :
    (Run (apiStep pg cronError readUuid verify compare)
        (stateGuard fun s e => ¬ Writes readUuid verify compare o s e) s₀ es s →
      s₀.server.store.jobs.AgreeOn (fun r : Job => r.organizationId = o) s.server.store.jobs) ∧
    (Run (apiStep pg cronError readUuid verify compare)
        (stateGuard fun s e => ¬ Enters readUuid verify compare o s e) s₀ es s →
      ∀ response ∈ s.server.responses, ¬ Told o s₀.server.store response) := by
  constructor
  · intro h
    exact h.stable (P := fun s => s₀.server.store.jobs.AgreeOn _ s.server.store.jobs) (.refl _ _)
      fun _ _ _ _ hkept hno hs => hkept.trans (agreeOn_apiStep hs hno)
  · intro h
    have hinv := h.stable (P := fun s =>
      s₀.server.store.jobs.AgreeOn (fun r : Job => r.organizationId = o) s.server.store.jobs ∧
        ∀ response ∈ s.server.responses, ¬ Told o s₀.server.store response)
      ⟨.refl _ _, fun _ hmem => absurd (h₀ ▸ hmem) List.not_mem_nil⟩
      fun _ s e s' hI hno hs => ?_
    · exact hinv.2
    · obtain ⟨hkept, hquiet⟩ := hI
      have hnow : ∀ response ∈ s.server.responses, ¬ Told o s.server.store response :=
        fun response hmem htold => hquiet response hmem (told_congr hkept htold)
      refine ⟨hkept.trans (agreeOn_apiStep hs fun hw => hno (enters_of_writes hw)),
        fun response hmem htold => ?_⟩
      exact not_told_apiStep hs hno hnow response hmem (told_congr hkept.symm htold)

end Requests

def revokedKey : ApiKey where
  id := "k1"
  organizationId := "org1"
  userId := "user1"
  keyHash := "hash"
  keyPrefix := "btos_abc"
  scopes := ["jobs:read", "jobs:write"]
  isActive := false
  expiresAt := none

/-- There is a token of a member of `org2`, and one that names no organization. -/
def verifyOnly (token : String) (_ : Time) : Except JwtError Claims :=
  if token = "t2" then .ok ⟨some "user2", some "org2", "b@example.com", "member", none⟩
  else if token = "t3" then .ok ⟨some "user3", none, "c@example.com", "member", none⟩
  else .error .jsonWebToken

def readNone (_ : String) : Option Uuid := none

def withRevokedKey : ApiServer :=
  ⟨⟨failedStore, DependencyResolver.emptyGraph, []⟩, ⟨[revokedKey], by decide⟩,
    ⟨[⟨"user1", "a@example.com", "member"⟩], by decide⟩⟩

/-- The failed job of `org1` is not retried with a revoked key, not by `org2`, and not with a token
that names no organization. -/
theorem revoked_key_retries_nothing : ∃ es s,
    s.server.responses = [.error 401 "Authentication failed", .error 403 "Access denied",
      .error 403 "Access denied"] ∧
    failedStore.jobs.AgreeOn (fun r : Job => r.organizationId = "org1") s.server.store.jobs ∧
    Run (apiStep plainPostgres (fun _ _ => none) readNone verifyOnly fun _ hash => hash = "hash")
      anyStep withRevokedKey es s := by
  obtain ⟨s, hs, hp⟩ := exists_run_of_check
    (apiStep plainPostgres (fun _ _ => none) readNone verifyOnly fun _ hash => hash = "hash")
    (stateGuard fun s e => ¬ Writes readNone verifyOnly (fun _ hash => hash = "hash") "org1" s e)
    withRevokedKey
    [.request ⟨some "ApiKey btos_abcdef", .retry "a", 12, some []⟩,
      .request ⟨some "Bearer t2", .retry "a", 13, none⟩,
      .request ⟨some "Bearer t3", .retry "a", 14, none⟩]
    (fun s => s.server.responses = [.error 401 "Authentication failed",
      .error 403 "Access denied", .error 403 "Access denied"])
    (by decide)
  exact ⟨_, s, of_decide_eq_true hp, (members_only "org1" rfl).1 hs,
    hs.mono fun _ _ _ _ => trivial⟩

end TaskOrchestration.JobRoutes

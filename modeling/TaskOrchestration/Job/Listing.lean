import Mathlib.Data.List.Perm.Basic
import TaskOrchestration.Job.Repository

set_option autoImplicit false

/-!
# Listing jobs

`JobRepository.findMany`: the rows that meet every condition of a filter, one page of them. What
PostgreSQL decides is a parameter: whether a name matches a pattern, and the order of the rows of
one query.

* `JobFilter`, `PaginatedJobs`, `Postgres`;
* `Meets`: the `WHERE` clauses; `findMany`;
* **`mem_findMany`**: a row of a page is a row of the table that meets the filter.
-/

namespace TaskOrchestration

inductive SortBy
  | createdAt | scheduledAt | priority | status
  deriving DecidableEq, Repr

inductive SortOrder
  | asc | desc
  deriving DecidableEq, Repr

/-- What is asked of the jobs. A single status or priority is a list of one. -/
structure JobFilter where
  status : Option (List JobStatus) := none
  priority : Option (List JobPriority) := none
  type : Option JobType := none
  organizationId : Option String := none
  createdBy : Option String := none
  tags : Option (List String) := none
  scheduledBefore : Option Time := none
  scheduledAfter : Option Time := none
  createdBefore : Option Time := none
  createdAfter : Option Time := none
  search : Option String := none
  page : Option ℕ := none
  limit : Option ℕ := none
  sortBy : Option SortBy := none
  sortOrder : Option SortOrder := none
  deriving DecidableEq, Repr

structure PaginatedJobs where
  data : List Job
  total : ℕ
  page : ℕ
  limit : ℕ
  totalPages : ℕ
  deriving DecidableEq, Repr

/-- **What PostgreSQL decides** in one query: whether a text is `ILIKE` a pattern, and the order
in which the rows come. -/
structure Postgres where
  ilike : String → String → Bool
  orderBy : String → SortOrder → List Job → List Job
  perm : ∀ column order rows, (orderBy column order rows).Perm rows

namespace JobRepository

def colMap : SortBy → String
  | .createdAt => "created_at"
  | .scheduledAt => "scheduled_at"
  | .priority => "priority"
  | .status => "status"

/-- An empty text is no condition. -/
def truthy (text : Option String) : Option String := text.filter (· ≠ "")

/-- **The `WHERE` clauses.** A comparison with `NULL` fails. -/
def Meets (pg : Postgres) (filter : JobFilter) (r : Job) : Prop :=
  (∀ statuses ∈ filter.status, r.status ∈ statuses) ∧
    (∀ priorities ∈ filter.priority, r.priority ∈ priorities) ∧
    (∀ type ∈ filter.type, r.type = type) ∧
    (∀ organizationId ∈ truthy filter.organizationId, r.organizationId = organizationId) ∧
    (∀ createdBy ∈ truthy filter.createdBy, r.createdBy = createdBy) ∧
    (∀ tags ∈ filter.tags, ∀ tag ∈ tags, tag ∈ r.tags) ∧
    (∀ time ∈ filter.scheduledBefore, ∃ t ∈ r.scheduledAt, t ≤ time) ∧
    (∀ time ∈ filter.scheduledAfter, ∃ t ∈ r.scheduledAt, time ≤ t) ∧
    (∀ time ∈ filter.createdBefore, r.createdAt ≤ time) ∧
    (∀ time ∈ filter.createdAfter, time ≤ r.createdAt) ∧
    ∀ search ∈ truthy filter.search, pg.ilike r.name ("%" ++ search ++ "%") = true

instance (pg : Postgres) (filter : JobFilter) : DecidablePred (Meets pg filter) := fun r => by
  unfold Meets; infer_instance

def findMany (pg : Postgres) (t : JobTable) (filter : JobFilter) : PaginatedJobs :=
  let page := filter.page.getD 1
  let limit := filter.limit.getD 20
  let column := colMap (filter.sortBy.getD .createdAt)
  let matching := t.rows.filter fun r => Meets pg filter r
  let rows := pg.orderBy column (filter.sortOrder.getD .desc) matching
  { data := (rows.drop ((page - 1) * limit)).take limit
    total := matching.length
    page := page
    limit := limit
    totalPages := (matching.length + limit - 1) / limit }

/-- **A row of a page** is a row of the table that meets the filter. -/
theorem mem_findMany {pg : Postgres} {t : JobTable} {filter : JobFilter} {r : Job}
    (h : r ∈ (findMany pg t filter).data) : r ∈ t ∧ Meets pg filter r := by
  have hrows := List.mem_of_mem_drop (List.mem_of_mem_take h)
  have hmem := List.mem_filter.mp ((pg.perm _ _ _).subset hrows)
  exact ⟨hmem.1, of_decide_eq_true hmem.2⟩

theorem organizationId_of_mem_findMany {pg : Postgres} {t : JobTable} {filter : JobFilter}
    {r : Job} {o : String} (h : r ∈ (findMany pg t filter).data)
    (ho : filter.organizationId = some o) (hne : o ≠ "") : r.organizationId = o := by
  have hmeets := (mem_findMany h).2.2.2.2.1
  apply hmeets o
  rw [truthy, ho, Option.filter_some, decide_eq_true hne]
  rfl

end JobRepository

end TaskOrchestration

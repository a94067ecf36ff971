import Mathlib.Order.WithBot
import TaskOrchestration.Job.Listing
import TaskOrchestration.Lib.Paging

set_option autoImplicit false

/-!
# The pages of a listing

Each page is a query of its own, and PostgreSQL is free in each to order the rows that compare equal
under the `ORDER BY`, which names one column only.

* `columnKey`, `ColumnLe`: the order of a column; `SortingPostgres`: a PostgreSQL that follows it;
* `pageOf`, `matching`, `PagesPartition`: the pages, the rows that meet the filter, and the claim
  that the pages are these rows;
* `exists_not_partition`, **`pages_partition_iff`**; `pages_overlap`.
-/

namespace TaskOrchestration

open Paging

/-- The place of a status in the type `job_status`. -/
def statusPlace : JobStatus → ℕ
  | .pending => 0
  | .queued => 1
  | .running => 2
  | .completed => 3
  | .failed => 4
  | .retrying => 5
  | .cancelled => 6
  | .timedOut => 7
  | .skipped => 8

/-- The place of a priority in the type `job_priority`. -/
def priorityPlace : JobPriority → ℕ
  | .critical => 0
  | .high => 1
  | .medium => 2
  | .low => 3
  | .background => 4

namespace JobRepository

/-- What the rows are ordered by. `NULL` is greater than every value. -/
def columnKey (column : String) (r : Job) : WithTop ℕ :=
  if column = "scheduled_at" then r.scheduledAt.elim ⊤ WithTop.some
  else if column = "priority" then WithTop.some (priorityPlace r.priority)
  else if column = "status" then WithTop.some (statusPlace r.status)
  else WithTop.some r.createdAt

/-- `ORDER BY`. -/
def ColumnLe (column : String) : SortOrder → Job → Job → Prop
  | .asc, a, b => columnKey column a ≤ columnKey column b
  | .desc, a, b => columnKey column b ≤ columnKey column a

instance (column : String) (order : SortOrder) : DecidableRel (ColumnLe column order) :=
  fun a b => by cases order <;> unfold ColumnLe <;> infer_instance

theorem columnLe_totalPreorder (column : String) (order : SortOrder) :
    TotalPreorder (ColumnLe column order) := by
  cases order with
  | asc => exact ⟨fun a b => le_total _ _, fun hab hbc => le_trans hab hbc⟩
  | desc => exact ⟨fun a b => le_total _ _, fun hab hbc => le_trans hbc hab⟩

end JobRepository

/-- **PostgreSQL in one query** that sorts the rows. -/
structure SortingPostgres extends Postgres where
  sorts : ∀ column order rows,
    (orderBy column order rows).Pairwise (JobRepository.ColumnLe column order)

namespace JobRepository

/-- The column, the order and the limit of a query. -/
def sortColumn (filter : JobFilter) : String := colMap (filter.sortBy.getD .createdAt)

def sortOrder (filter : JobFilter) : SortOrder := filter.sortOrder.getD .desc

def pageLimit (filter : JobFilter) : ℕ := filter.limit.getD 20

/-- The page `k`, counted from zero, in a query of its own. -/
def pageOf (pgs : ℕ → SortingPostgres) (t : JobTable) (filter : JobFilter) (k : ℕ) :
    PaginatedJobs :=
  findMany (pgs k).toPostgres t { filter with page := some (k + 1) }

def matching (pg : Postgres) (t : JobTable) (filter : JobFilter) : List Job :=
  t.rows.filter fun r => Meets pg filter r

/-- **The pages partition the result**: together they are the rows that meet the filter, none is
longer than the limit, and each gives the number of these rows. -/
def PagesPartition (pgs : ℕ → SortingPostgres) (t : JobTable) (filter : JobFilter) : Prop :=
  ((List.range (pageOf pgs t filter 0).totalPages).flatMap
      fun k => (pageOf pgs t filter k).data).Perm (matching (pgs 0).toPostgres t filter) ∧
    ∀ k, (pageOf pgs t filter k).data.length ≤ pageLimit filter ∧
      (pageOf pgs t filter k).total = (matching (pgs 0).toPostgres t filter).length

variable {pg : SortingPostgres} {pgs : ℕ → SortingPostgres} {t : JobTable} {filter : JobFilter}
  {k : ℕ}

theorem matching_congr {pg pg' : Postgres} (h : pg.ilike = pg'.ilike) (t : JobTable)
    (filter : JobFilter) : matching pg t filter = matching pg' t filter := by
  refine List.filter_congr fun r _ => ?_
  rw [decide_eq_decide, Meets, Meets, h]

theorem pageOf_data (h : (pgs k).ilike = pg.ilike) : (pageOf pgs t filter k).data =
    page (pageLimit filter) k ((pgs k).orderBy (sortColumn filter) (sortOrder filter)
      (matching pg.toPostgres t filter)) := by
  rw [← matching_congr h]
  rfl

theorem pageOf_total (h : (pgs k).ilike = pg.ilike) :
    (pageOf pgs t filter k).total = (matching pg.toPostgres t filter).length := by
  rw [← matching_congr h]
  rfl

theorem pageOf_totalPages (h : (pgs k).ilike = pg.ilike) : (pageOf pgs t filter k).totalPages =
    ((matching pg.toPostgres t filter).length + pageLimit filter - 1) / pageLimit filter := by
  rw [← matching_congr h]
  rfl

variable (pgs k) in
theorem length_le_totalPages (h : (pgs k).ilike = pg.ilike) (hlimit : 1 ≤ pageLimit filter) :
    (matching pg.toPostgres t filter).length ≤
      (pageOf pgs t filter k).totalPages * pageLimit filter := by
  rw [pageOf_totalPages h, Nat.mul_comm]
  generalize (matching pg.toPostgres t filter).length = len
  have hdiv := Nat.div_add_mod (len + pageLimit filter - 1) (pageLimit filter)
  have hmod := Nat.mod_lt (len + pageLimit filter - 1) hlimit
  omega

theorem arranges_orderBy (pg : SortingPostgres) (column : String) (order : SortOrder)
    (rows : List Job) : Arranges (ColumnLe column order) rows (pg.orderBy column order rows) :=
  ⟨pg.perm column order rows, pg.sorts column order rows⟩

theorem pagesPartition_of_not_cutsTie (hpgs : ∀ k, (pgs k).ilike = pg.ilike)
    (hlimit : 1 ≤ pageLimit filter)
    (h : ∀ k, ¬ CutsTie (ColumnLe (sortColumn filter) (sortOrder filter))
      (matching pg.toPostgres t filter) (k * pageLimit filter)) : PagesPartition pgs t filter := by
  rw [PagesPartition, matching_congr (hpgs 0)]
  refine ⟨?_, fun k => ⟨List.length_take_le _ _, pageOf_total (hpgs k)⟩⟩
  have hdata : ∀ k, (pageOf pgs t filter k).data = _ := fun k => pageOf_data (hpgs k)
  simp only [hdata]
  exact pages_perm (columnLe_totalPreorder _ _) (fun k => arranges_orderBy (pgs k) _ _ _) h
    (length_le_totalPages pgs 0 (hpgs 0) hlimit)

/-- PostgreSQL with one list in place of what it sorts some rows to. -/
def withOrder (pg : SortingPostgres) (column : String) (order : SortOrder) (rows L : List Job)
    (h : Arranges (ColumnLe column order) rows L) : SortingPostgres where
  ilike := pg.ilike
  orderBy column' order' rows' :=
    if column' = column ∧ order' = order ∧ rows' = rows then L
    else pg.orderBy column' order' rows'
  perm column' order' rows' := by
    split_ifs with heq
    · exact heq.2.2 ▸ h.1
    · exact pg.perm column' order' rows'
  sorts column' order' rows' := by
    split_ifs with heq
    · obtain ⟨rfl, rfl, rfl⟩ := heq
      exact h.2
    · exact pg.sorts column' order' rows'

/-- **A page that ends between two rows that compare equal**: PostgreSQL may choose so that the
pages are not the rows. -/
theorem exists_not_partition (pg : SortingPostgres) (t : JobTable) (filter : JobFilter) (k : ℕ)
    (hlimit : 1 ≤ pageLimit filter)
    (h : CutsTie (ColumnLe (sortColumn filter) (sortOrder filter))
      (matching pg.toPostgres t filter) (k * pageLimit filter)) :
    ∃ pgs : ℕ → SortingPostgres, (∀ k, (pgs k).ilike = pg.ilike) ∧
      ¬ PagesPartition pgs t filter := by
  have hnodup : (matching pg.toPostgres t filter).Nodup := (List.Nodup.of_map _ t.nodup).filter _
  obtain ⟨Ls, hLs, hperm⟩ := exists_not_perm (columnLe_totalPreorder _ _)
    (arranges_orderBy pg _ _ _) hnodup h
    (length_le_totalPages (fun _ => pg) 0 rfl hlimit)
  have hilike : ∀ k, ((fun k => withOrder pg _ _ _ _ (hLs k)) k).ilike = pg.ilike := fun _ => rfl
  refine ⟨fun k => withOrder pg _ _ _ _ (hLs k), hilike, fun hpart => hperm ?_⟩
  have hdata : ∀ k, (pageOf (fun k => withOrder pg _ _ _ _ (hLs k)) t filter k).data =
      page (pageLimit filter) k (Ls k) := fun k => by
    rw [pageOf_data (hilike k)]
    exact congrArg _ (if_pos ⟨rfl, rfl, rfl⟩)
  have hpages := hpart.1
  simp only [hdata] at hpages
  exact hpages

/-- **The pages partition the result**, whatever PostgreSQL chooses, exactly if no page ends between
two rows that compare equal. -/
theorem pages_partition_iff (pg : SortingPostgres) (t : JobTable) (filter : JobFilter)
    (hlimit : 1 ≤ pageLimit filter) :
    (∀ pgs : ℕ → SortingPostgres, (∀ k, (pgs k).ilike = pg.ilike) → PagesPartition pgs t filter) ↔
      ∀ k, ¬ CutsTie (ColumnLe (sortColumn filter) (sortOrder filter))
        (matching pg.toPostgres t filter) (k * pageLimit filter) := by
  constructor
  · intro hall k hcut
    obtain ⟨pgs, hpgs, hnot⟩ := exists_not_partition pg t filter k hlimit hcut
    exact hnot (hall pgs hpgs)
  · exact fun h pgs hpgs => pagesPartition_of_not_cutsTie hpgs hlimit h

/-! ## Two jobs created at one time -/

def pageJob (id : JobId) (createdAt : Time) : Job := newRow id createdAt
  { name := "test", type := .webhook, payload := [], organizationId := "org1"
    createdBy := "user1" }

def pageJobs : JobTable := ⟨[pageJob "job1" 5, pageJob "job2" 5], by decide⟩

/-- And one created before them. -/
def threeJobs : JobTable := ⟨[pageJob "job0" 0, pageJob "job1" 5, pageJob "job2" 5], by decide⟩

/-- A PostgreSQL that matches no pattern and sorts by merging. -/
def mergePostgres : SortingPostgres where
  ilike _ _ := false
  orderBy column order rows := rows.mergeSort fun a b => ColumnLe column order a b
  perm _ _ rows := List.mergeSort_perm rows _
  sorts column order rows := by
    have hle := columnLe_totalPreorder column order
    refine (List.pairwise_mergeSort (fun a b c hab hbc => ?_) (fun a b => ?_) rows).imp
      of_decide_eq_true
    · exact decide_eq_true (hle.trans (of_decide_eq_true hab) (of_decide_eq_true hbc))
    · rw [Bool.or_eq_true, decide_eq_true_iff, decide_eq_true_iff]
      exact hle.total a b

/-- Two jobs a page: the first page holds the two, the second one the other. -/
theorem two_pages_partition :
    (pageOf (fun _ => mergePostgres) threeJobs { limit := some 2 } 0).totalPages = 2 ∧
      PagesPartition (fun _ => mergePostgres) threeJobs { limit := some 2 } := by
  refine ⟨by decide, (pages_partition_iff mergePostgres threeJobs { limit := some 2 }
    (by decide)).mpr (fun k hcut => ?_) _ fun _ => rfl⟩
  obtain ⟨r, hr, hlow, hhigh⟩ := hcut
  have hlen : upTo (ColumnLe (sortColumn { limit := some 2 }) (sortOrder { limit := some 2 }))
      (matching mergePostgres.toPostgres threeJobs { limit := some 2 }) r ≤ 3 :=
    List.countP_le_length
  have hlimit : pageLimit { limit := some 2 } = 2 := rfl
  rw [hlimit] at hlow hhigh
  -- only the second page begins behind a row and before another
  obtain rfl : k = 1 := by omega
  revert r
  decide

/-- **With one job a page** both pages may show the same job. -/
theorem pages_overlap : ¬ ∀ (pg : SortingPostgres) (t : JobTable) (filter : JobFilter),
    1 ≤ pageLimit filter → ∀ pgs : ℕ → SortingPostgres, (∀ k, (pgs k).ilike = pg.ilike) →
      PagesPartition pgs t filter := by
  intro hall
  obtain ⟨pgs, hpgs, hnot⟩ := exists_not_partition mergePostgres pageJobs { limit := some 1 } 1
    (by decide) ⟨pageJob "job1" 5, by decide, by decide, by decide⟩
  exact hnot (hall mergePostgres pageJobs { limit := some 1 } (by decide) pgs hpgs)

end JobRepository

end TaskOrchestration

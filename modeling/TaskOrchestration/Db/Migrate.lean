import Mathlib.Data.List.Sort
import Mathlib.Data.List.TakeWhile
import TaskOrchestration.Lib.Run
import TaskOrchestration.Lib.Table
import TaskOrchestration.System.Step

set_option autoImplicit false

/-!
# The migration runner

Any number of runners at once, as when several instances are deployed, each with its own directory.
A migration and its row in `schema_migrations` are one transaction, and the row has a primary key:
a second transaction with the same row waits for the first one, and then fails or goes on.

* `Directory`, `migrationFiles`; `RunnerPc`, `Runner`: a run of `runMigrations`, cut at its awaits;
* `Migrations`, `MigrationEvent`, **`step`**: the calls, any of which may fail or lose its answer;
* `eq_of_prefix`: where a list stands that goes along another one;
* `Reached`, `reached_next`: what a runner knows to be applied; `Ledger`, **`ledger_step`**;
* **`migrations_in_order`**.
-/

namespace TaskOrchestration

open LabelledRun

/-- A directory: the texts of the files, under their names. -/
abbrev Directory := Table (Prod.fst : String × String → String)

/-- The `.sql` files, sorted by name. -/
def migrationFiles (dir : Directory) : List (String × String) :=
  (dir.rows.filter fun f => ".sql".toList <:+ f.1.toList).insertionSort fun a b => a.1 ≤ b.1

/-- **Where a runner stands**: before `createTableIfNotExists`, before the query, or in the
transaction of a file: before its text, its row, or the commit. `applied` is what the query has
returned, `rest` are the files to come. -/
inductive RunnerPc
  | ensuring
  | reading
  | executing (applied : List String) (file : String × String) (rest : List (String × String))
  | inserting (applied : List String) (file : String × String) (rest : List (String × String))
  | committing (applied : List String) (file : String × String) (rest : List (String × String))
  | complete
  | failed
  deriving DecidableEq, Repr

namespace RunnerPc

/-- The loop goes on: the files that were applied are skipped. -/
def next (applied : List String) (rest : List (String × String)) : RunnerPc :=
  match rest.dropWhile fun file => file.1 ∈ applied with
  | [] => .complete
  | file :: rest => .executing applied file rest

/-- The transaction has inserted the row of the file. -/
def Holds (name : String) : RunnerPc → Prop
  | .committing _ file _ => file.1 = name
  | _ => False

instance (name : String) : DecidablePred (Holds name) := fun pc => by
  cases pc <;> unfold Holds <;> infer_instance

end RunnerPc

structure Runner where
  directory : Directory
  pc : RunnerPc := .ensuring

/-- **The state**: the rows of `schema_migrations` and the files whose effects are committed, each
in the order of the commits, and the runners. -/
structure Migrations where
  rows : List String := []
  executed : List (String × String) := []
  runners : List Runner := []

inductive MigrationEvent
  | start (directory : Directory)
  | call (runner : ℕ) (outcome : Outcome)

namespace Migrations

def moveTo (s : Migrations) (k : ℕ) (r : Runner) (pc : RunnerPc) : Migrations :=
  { s with runners := s.runners.set k { r with pc := pc } }

def commit (s : Migrations) (file : String × String) : Migrations :=
  { s with rows := s.rows ++ [file.1], executed := s.executed ++ [file] }

/-- **The call of a runner.** A call that fails ends the runner, and its transaction is rolled
back, unless it was the commit and only the answer is lost. -/
def call (s : Migrations) (k : ℕ) (r : Runner) : RunnerPc → Outcome → Option Migrations
  | .ensuring, .ok => some (s.moveTo k r .reading)
  | .reading, .ok => some (s.moveTo k r (.next s.rows (migrationFiles r.directory)))
  | .executing applied file rest, .ok => some (s.moveTo k r (.inserting applied file rest))
  | .inserting applied file rest, .ok =>
      -- the row of an open transaction is waited for
      if ∃ r' ∈ s.runners, r'.pc.Holds file.1 then none
      else if file.1 ∈ s.rows then some (s.moveTo k r .failed)
      else some (s.moveTo k r (.committing applied file rest))
  | .committing applied file rest, .ok => some ((s.commit file).moveTo k r (.next applied rest))
  | .committing _ file _, .lost => some ((s.commit file).moveTo k r .failed)
  | .complete, _ | .failed, _ => none
  | _, _ => some (s.moveTo k r .failed)

def step (s : Migrations) : MigrationEvent → Option Migrations
  | .start dir => some { s with runners := s.runners ++ [{ directory := dir }] }
  | .call k outcome => s.runners[k]?.bind fun r => s.call k r r.pc outcome

end Migrations

/-! ## Along a list -/

theorem eq_of_prefix {α : Type} {l p q : List α} {a : α} (h : l <+: p ++ a :: q)
    (hp : ∀ b ∈ p, b ∈ l) (ha : a ∉ l) (hnodup : (p ++ a :: q).Nodup) : l = p := by
  rcases Nat.lt_or_ge p.length l.length with hlt | hge
  · -- then `a` would be in the list
    have hall : p ++ [a] <+: p ++ a :: q := ⟨q, by simp⟩
    have hpre : p ++ [a] <+: l := by
      apply List.prefix_of_prefix_length_le hall h
      rw [List.length_append, List.length_singleton]
      exact hlt
    exact absurd (hpre.subset (List.mem_append_right _ (List.mem_singleton_self a))) ha
  · have hpre : l <+: p := List.prefix_of_prefix_length_le h (List.prefix_append _ _) hge
    have hlen : p.length ≤ l.length := (List.subperm_of_subset hnodup.of_append_left hp).length_le
    exact hpre.eq_of_length (Nat.le_antisymm hge hlen)

theorem nodup_migrationFiles (dir : Directory) : ((migrationFiles dir).map Prod.fst).Nodup :=
  ((List.perm_insertionSort _ _).map Prod.fst).nodup_iff.mpr
    (dir.nodup.sublist (List.filter_sublist.map _))

namespace Migrations

/-- **What a runner knows**: the files before the one it is at are applied, and all of them when
it is complete. -/
def Reached (rows : List String) (files : List (String × String)) : RunnerPc → Prop
  | .executing applied file rest | .inserting applied file rest | .committing applied file rest =>
      applied ⊆ rows ∧ ∃ before, files = before ++ file :: rest ∧ ∀ g ∈ before, g.1 ∈ rows
  | .complete => ∀ g ∈ files, g.1 ∈ rows
  | _ => True

theorem Reached.mono {rows rows' : List String} {files : List (String × String)} {pc : RunnerPc}
    (h : Reached rows files pc) (hsub : rows ⊆ rows') : Reached rows' files pc := by
  cases pc with
  | executing | inserting | committing =>
      obtain ⟨happlied, before, hfiles, hbefore⟩ := h
      exact ⟨List.Subset.trans happlied hsub, before, hfiles, fun g hg => hsub (hbefore g hg)⟩
  | complete => exact fun g hg => hsub (h g hg)
  | _ => trivial

theorem reached_next {rows applied : List String} {files rest : List (String × String)}
    (before : List (String × String)) (happlied : applied ⊆ rows) (hfiles : files = before ++ rest)
    (hbefore : ∀ g ∈ before, g.1 ∈ rows) : Reached rows files (.next applied rest) := by
  have hskipped : ∀ g ∈ rest.takeWhile (fun file => file.1 ∈ applied), g.1 ∈ rows := by
    intro g hg
    have hin := List.mem_takeWhile_imp (p := fun f : String × String => decide (f.1 ∈ applied)) hg
    exact happlied (of_decide_eq_true hin)
  have hsplit : files = before ++ rest.takeWhile (fun file => file.1 ∈ applied) ++
      rest.dropWhile fun file => file.1 ∈ applied := by
    rw [List.append_assoc, List.takeWhile_append_dropWhile, hfiles]
  have hall : ∀ g ∈ before ++ rest.takeWhile (fun file => file.1 ∈ applied), g.1 ∈ rows :=
    fun g hg => (List.mem_append.mp hg).elim (hbefore g) (hskipped g)
  unfold RunnerPc.next
  split
  · rename_i hnil
    rw [hnil, List.append_nil] at hsplit
    exact hsplit ▸ hall
  · rename_i file rest' hcons
    rw [hcons] at hsplit
    exact ⟨happlied, _, hsplit, hall⟩

/-- **The invariant.** The committed files are those of the rows, each once; the rows of the open
transactions are new, and no two of them are the same; and the rows are the first files of the
directory, if there is only one. -/
structure Ledger (s : Migrations) : Prop where
  once : s.rows.Nodup
  effects : s.executed.map Prod.fst = s.rows
  fresh : ∀ r ∈ s.runners, ∀ name, r.pc.Holds name → name ∉ s.rows
  locked : ∀ (i j : ℕ) (r r' : Runner) (name : String), s.runners[i]? = some r →
    s.runners[j]? = some r' → r.pc.Holds name → r'.pc.Holds name → i = j
  reached : ∀ r ∈ s.runners, Reached s.rows (migrationFiles r.directory) r.pc
  ordered : ∀ dir, (∀ r ∈ s.runners, r.directory = dir) →
    s.rows <+: (migrationFiles dir).map Prod.fst

variable {s s' : Migrations} {k : ℕ} {r : Runner} {pc : RunnerPc}

theorem ledger_init : Ledger {} where
  once := List.nodup_nil
  effects := rfl
  fresh _ hr := absurd hr List.not_mem_nil
  locked _ _ _ _ _ hi := by cases hi
  reached _ hr := absurd hr List.not_mem_nil
  ordered _ _ := List.nil_prefix

theorem Ledger.start (h : Ledger s) (dir : Directory) :
    Ledger { s with runners := s.runners ++ [{ directory := dir }] } := by
  have hmem : ∀ {r}, r ∈ s.runners ++ [{ directory := dir }] →
      r ∈ s.runners ∨ r = { directory := dir } := fun hr =>
    (List.mem_append.mp hr).imp_right List.mem_singleton.mp
  refine ⟨h.once, h.effects, ?_, ?_, ?_, ?_⟩
  · intro r hr name hholds
    rcases hmem hr with hr | rfl
    · exact h.fresh r hr name hholds
    · exact hholds.elim
  · intro i j r r' name hi hj hr hr'
    rcases of_getElem?_append_singleton hi with hi | ⟨-, rfl⟩
    · rcases of_getElem?_append_singleton hj with hj | ⟨-, rfl⟩
      · exact h.locked i j r r' name hi hj hr hr'
      · exact hr'.elim
    · exact hr.elim
  · intro r hr
    rcases hmem hr with hr | rfl
    · exact h.reached r hr
    · trivial
  · exact fun dir' hdir => h.ordered dir' fun r hr => hdir r (List.mem_append_left _ hr)

theorem directory_of_set {dir : Directory} (hk : s.runners[k]? = some r)
    (hdir : ∀ r' ∈ s.runners.set k { r with pc := pc }, r'.directory = dir) :
    ∀ r' ∈ s.runners, r'.directory = dir := by
  intro r' hr
  obtain ⟨i, hi⟩ := List.getElem?_of_mem hr
  by_cases hik : i = k
  · subst hik
    obtain rfl := Option.some.inj (hk.symm.trans hi)
    obtain ⟨hlt, -⟩ := List.getElem?_eq_some_iff.mp hi
    exact hdir { r with pc := pc } (List.mem_of_getElem? (List.getElem?_set_self hlt))
  · exact hdir r' (List.mem_of_getElem? ((List.getElem?_set_ne (Ne.symm hik)).trans hi))

/-- **A runner that moves on** without a commit. If it now holds a row, then it is the only one,
and the row is new. -/
theorem Ledger.moveTo (h : Ledger s) (hk : s.runners[k]? = some r)
    (hfresh : ∀ name, pc.Holds name → name ∉ s.rows ∧ ∀ r' ∈ s.runners, ¬ r'.pc.Holds name)
    (hreached : Reached s.rows (migrationFiles r.directory) pc) : Ledger (s.moveTo k r pc) := by
  have hmem : ∀ {r'}, r' ∈ s.runners.set k { r with pc := pc } →
      r' ∈ s.runners ∨ r' = { r with pc := pc } := fun hr => List.mem_or_eq_of_mem_set hr
  have hget : ∀ {i r'}, (s.runners.set k { r with pc := pc })[i]? = some r' →
      s.runners[i]? = some r' ∨ (i = k ∧ r' = { r with pc := pc }) := by
    intro i r' hi
    rw [List.getElem?_set] at hi
    split_ifs at hi with hik
    · exact .inr ⟨hik.symm, (Option.some.inj hi).symm⟩
    · exact .inl hi
  refine ⟨h.once, h.effects, ?_, ?_, ?_, ?_⟩
  · intro r' hr name hholds
    rcases hmem hr with hr | rfl
    · exact h.fresh r' hr name hholds
    · exact (hfresh name hholds).1
  · intro i j r₁ r₂ name hi hj h₁ h₂
    rcases hget hi with hi' | ⟨hik, rfl⟩
    · rcases hget hj with hj' | ⟨-, rfl⟩
      · exact h.locked i j r₁ r₂ name hi' hj' h₁ h₂
      · exact absurd h₁ ((hfresh name h₂).2 r₁ (List.mem_of_getElem? hi'))
    · rcases hget hj with hj' | ⟨hjk, rfl⟩
      · exact absurd h₂ ((hfresh name h₁).2 r₂ (List.mem_of_getElem? hj'))
      · exact hik.trans hjk.symm
  · intro r' hr
    rcases hmem hr with hr | rfl
    · exact h.reached r' hr
    · exact hreached
  · exact fun dir hdir => h.ordered dir (directory_of_set hk hdir)

/-- **A commit**, after which the runner holds no row. -/
theorem Ledger.commit (h : Ledger s) (hk : s.runners[k]? = some r) {applied : List String}
    {file : String × String} {rest : List (String × String)}
    (hpc : r.pc = .committing applied file rest) (hnone : ∀ name, ¬ pc.Holds name)
    (hreached : Reached (s.rows ++ [file.1]) (migrationFiles r.directory) pc) :
    Ledger ((s.commit file).moveTo k r pc) := by
  have hmem := List.mem_of_getElem? hk
  have hholds : r.pc.Holds file.1 := by
    rw [hpc]
    exact rfl
  have hnew : file.1 ∉ s.rows := h.fresh r hmem _ hholds
  have hsub : s.rows ⊆ s.rows ++ [file.1] := List.subset_append_left _ _
  have hother : ∀ {i r'}, (s.runners.set k { r with pc := pc })[i]? = some r' →
      (i ≠ k ∧ s.runners[i]? = some r') ∨ r' = { r with pc := pc } := by
    intro i r' hi
    rw [List.getElem?_set] at hi
    split_ifs at hi with hik
    · exact .inr (Option.some.inj hi).symm
    · exact .inl ⟨Ne.symm hik, hi⟩
  refine ⟨?_, ?_, ?_, ?_, ?_, ?_⟩
  · exact h.once.append (List.nodup_singleton _) (List.disjoint_singleton.mpr hnew)
  · change (s.executed ++ [file]).map Prod.fst = s.rows ++ [file.1]
    rw [List.map_append, h.effects]
    rfl
  · intro r' hr name hr'
    obtain ⟨i, hi⟩ := List.getElem?_of_mem hr
    rcases hother hi with ⟨hne, hi⟩ | rfl
    · -- another transaction holds another row
      intro hrow
      rcases List.mem_append.mp hrow with hrow | hrow
      · exact h.fresh r' (List.mem_of_getElem? hi) name hr' hrow
      · obtain rfl := List.mem_singleton.mp hrow
        exact hne (h.locked i k r' r _ hi hk hr' hholds)
    · exact absurd hr' (hnone name)
  · intro i j r₁ r₂ name hi hj h₁ h₂
    rcases hother hi with ⟨-, hi⟩ | rfl
    · rcases hother hj with ⟨-, hj⟩ | rfl
      · exact h.locked i j r₁ r₂ name hi hj h₁ h₂
      · exact absurd h₂ (hnone name)
    · exact absurd h₁ (hnone name)
  · intro r' hr
    obtain ⟨i, hi⟩ := List.getElem?_of_mem hr
    rcases hother hi with ⟨-, hi⟩ | rfl
    · exact (h.reached r' (List.mem_of_getElem? hi)).mono hsub
    · exact hreached
  · intro dir hdir
    have hdirs := directory_of_set hk hdir
    have hbefore := h.ordered dir hdirs
    have hr := h.reached r hmem
    rw [hpc, hdirs r hmem] at hr
    obtain ⟨-, before, hfiles, happlied⟩ := hr
    have hnodup := nodup_migrationFiles dir
    have hnames : (migrationFiles dir).map Prod.fst =
        before.map Prod.fst ++ file.1 :: rest.map Prod.fst := by
      rw [hfiles, List.map_append, List.map_cons]
    rw [hnames] at hbefore hnodup ⊢
    have heq : s.rows = before.map Prod.fst := by
      refine eq_of_prefix hbefore (fun b hb => ?_) hnew hnodup
      obtain ⟨g, hg, rfl⟩ := List.mem_map.mp hb
      exact happlied g hg
    change s.rows ++ [file.1] <+: _
    rw [heq]
    exact ⟨rest.map Prod.fst, by simp⟩

theorem not_holds_next (applied : List String) (rest : List (String × String)) (name : String) :
    ¬ (RunnerPc.next applied rest).Holds name := by
  unfold RunnerPc.next
  split <;> exact id

theorem ledger_step {e : MigrationEvent} (h : Ledger s) (hs : s.step e = some s') : Ledger s' := by
  cases e with
  | start dir =>
      obtain rfl := Option.some.inj hs
      exact h.start dir
  | call k outcome =>
      obtain ⟨r, hk, hc⟩ := Option.bind_eq_some_iff.mp hs
      have hmem := List.mem_of_getElem? hk
      have hr := h.reached r hmem
      have hfailed : Ledger (s.moveTo k r .failed) :=
        h.moveTo hk (fun _ hholds => hholds.elim) trivial
      cases hpc : r.pc with
      | ensuring =>
          rw [hpc] at hc
          cases outcome with
          | ok =>
              obtain rfl := Option.some.inj hc
              exact h.moveTo hk (fun _ hholds => hholds.elim) trivial
          | fail | lost =>
              obtain rfl := Option.some.inj hc
              exact hfailed
      | reading =>
          rw [hpc] at hc
          cases outcome with
          | ok =>
              obtain rfl := Option.some.inj hc
              exact h.moveTo hk (fun name hholds => absurd hholds (not_holds_next _ _ name))
                (reached_next [] (List.Subset.refl _) rfl
                  fun _ hg => absurd hg List.not_mem_nil)
          | fail | lost =>
              obtain rfl := Option.some.inj hc
              exact hfailed
      | executing applied file rest =>
          rw [hpc] at hc hr
          cases outcome with
          | ok =>
              obtain rfl := Option.some.inj hc
              exact h.moveTo hk (fun _ hholds => hholds.elim) hr
          | fail | lost =>
              obtain rfl := Option.some.inj hc
              exact hfailed
      | inserting applied file rest =>
          rw [hpc] at hc hr
          cases outcome with
          | ok =>
              simp only [call] at hc
              split_ifs at hc with hlock hrow
              · obtain rfl := Option.some.inj hc
                exact hfailed
              · obtain rfl := Option.some.inj hc
                refine h.moveTo hk (fun name hholds => ?_) hr
                obtain rfl : file.1 = name := hholds
                exact ⟨hrow, fun r' hr' hh => hlock ⟨r', hr', hh⟩⟩
          | fail | lost =>
              obtain rfl := Option.some.inj hc
              exact hfailed
      | committing applied file rest =>
          rw [hpc] at hc hr
          obtain ⟨happlied, before, hfiles, hbefore⟩ := hr
          have hsub : s.rows ⊆ s.rows ++ [file.1] := List.subset_append_left _ _
          cases outcome with
          | ok =>
              obtain rfl := Option.some.inj hc
              refine h.commit hk hpc (not_holds_next _ _) (reached_next (before ++ [file])
                (List.Subset.trans happlied hsub) (by simp [hfiles]) fun g hg => ?_)
              rcases List.mem_append.mp hg with hg | hg
              · exact hsub (hbefore g hg)
              · exact List.mem_append_right _ (List.mem_singleton.mp hg ▸ List.mem_singleton_self _)
          | lost =>
              obtain rfl := Option.some.inj hc
              exact h.commit hk hpc (fun _ => id) trivial
          | fail =>
              obtain rfl := Option.some.inj hc
              exact hfailed
      | complete | failed =>
          rw [hpc] at hc
          cases outcome <;> cases hc

/-- **Migrations are applied in order, and once**, by any number of runners at the same time, which
may fail or lose their connections anywhere: the effects that are committed are those of the rows,
each once; a runner that completes leaves every file of its directory applied; and with one
directory the applied files are at any time the first ones of it. -/
theorem migrations_in_order {es : List MigrationEvent} (h : Run step anyStep {} es s) :
    s.rows.Nodup ∧ s.executed.map Prod.fst = s.rows ∧
    (∀ r ∈ s.runners, r.pc = .complete → ∀ file ∈ migrationFiles r.directory, file.1 ∈ s.rows) ∧
    ∀ dir, (∀ r ∈ s.runners, r.directory = dir) →
      s.rows <+: (migrationFiles dir).map Prod.fst := by
  have hI : Ledger s := h.stable ledger_init fun _ _ _ _ hI _ hs => ledger_step hI hs
  refine ⟨hI.once, hI.effects, fun r hr hpc file hfile => ?_, hI.ordered⟩
  have hreached := hI.reached r hr
  rw [hpc] at hreached
  exact hreached file hfile

/-- Three files, of which two are migrations. -/
def twoMigrations : Directory :=
  ⟨[("002_create_jobs.sql", "CREATE TABLE jobs ();"), ("README.md", "migrations"),
    ("001_create_users.sql", "CREATE TABLE users ();")], by decide⟩

/-- Two runners start together: the second one fails at the row of the first one. -/
theorem second_runner_fails : ∃ es s, Run step anyStep {} es s ∧
    s.runners.map Runner.pc = [.complete, .failed] ∧
    s.rows = ["001_create_users.sql", "002_create_jobs.sql"] ∧ s.rows.Nodup := by
  obtain ⟨s, hs, hp⟩ := exists_run_of_check step anyStep {}
    [.start twoMigrations, .start twoMigrations, .call 0 .ok, .call 1 .ok, .call 0 .ok,
      .call 1 .ok, .call 0 .ok, .call 1 .ok, .call 0 .ok, .call 0 .ok, .call 1 .ok, .call 0 .ok,
      .call 0 .ok, .call 0 .ok]
    (fun s => s.runners.map Runner.pc = [.complete, .failed] ∧
      s.rows = ["001_create_users.sql", "002_create_jobs.sql"]) (by decide)
  obtain ⟨hpcs, hrows⟩ := of_decide_eq_true hp
  exact ⟨_, s, hs, hpcs, hrows, (migrations_in_order hs).1⟩

end Migrations

end TaskOrchestration

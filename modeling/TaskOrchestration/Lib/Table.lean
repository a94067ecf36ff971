import Mathlib.Data.List.Nodup

set_option autoImplicit false

/-!
# Keyed tables

A table is a list of rows whose keys are pairwise different. The list order is the order of
insertion.

* `Table.find?`, `Table.insert?`, `Table.insertIfAbsent`, `Table.update`, `Table.updateWhere`,
  `Table.erase`;
* `mem_iff_find?`: a row is in the table exactly when it is found under its key;
* `find?_insert`, `find?_updateWhere`, `find?_erase`: what each operation does to a lookup;
* `countP_insertIfAbsent`, `countP_update`, `countP_erase`: and to a count of rows;
* `AgreeOn`: two tables with the same rows among those that satisfy `p`; **`agreeOn_update`**,
  **`agreeOn_erase_iff`**: the changes that keep these rows.
-/

/-- **Tables**: rows with pairwise different keys. -/
structure Table {α κ : Type} (key : α → κ) where
  rows : List α
  nodup : (rows.map key).Nodup

namespace Table

variable {α κ : Type} {key : α → κ}

def empty : Table key := ⟨[], List.nodup_nil⟩

instance : Inhabited (Table key) := ⟨empty⟩

instance : Membership α (Table key) := ⟨fun t a => a ∈ t.rows⟩

theorem mem_def {t : Table key} {a : α} : a ∈ t ↔ a ∈ t.rows := Iff.rfl

@[simp] theorem not_mem_empty (a : α) : a ∉ (empty : Table key) := List.not_mem_nil

theorem key_inj {t : Table key} {a b : α} (ha : a ∈ t) (hb : b ∈ t) (h : key a = key b) :
    a = b :=
  List.inj_on_of_nodup_map t.nodup ha hb h

/-- Change every row in place. The change keeps the keys. -/
def mapRows (t : Table key) (f : α → α) (hf : ∀ a, key (f a) = key a) : Table key where
  rows := t.rows.map f
  nodup := by rw [List.map_map, funext (g := key) (f := key ∘ f) hf]; exact t.nodup

theorem mem_mapRows {t : Table key} {f : α → α} {hf : ∀ a, key (f a) = key a} {b : α} :
    b ∈ t.mapRows f hf ↔ ∃ a ∈ t, f a = b := List.mem_map

/-- Change the rows that satisfy `p`. -/
def updateWhere (t : Table key) (p : α → Bool) (f : α → α) (hf : ∀ a, key (f a) = key a) :
    Table key :=
  t.mapRows (fun a => if p a then f a else a) fun a => by split_ifs <;> simp [hf]

def filter (t : Table key) (p : α → Bool) : Table key where
  rows := t.rows.filter p
  nodup := t.nodup.sublist (List.filter_sublist.map _)

theorem mem_filter {t : Table key} {p : α → Bool} {a : α} : a ∈ t.filter p ↔ a ∈ t ∧ p a = true :=
  List.mem_filter

theorem mem_updateWhere {t : Table key} {p : α → Bool} {f : α → α} {hf : ∀ a, key (f a) = key a}
    {b : α} : b ∈ t.updateWhere p f hf ↔ ∃ a ∈ t, (if p a then f a else a) = b :=
  mem_mapRows

instance (t : Table key) (p : α → Prop) [DecidablePred p] : Decidable (∃ a ∈ t, p a) :=
  inferInstanceAs (Decidable (∃ a ∈ t.rows, p a))

instance (t : Table key) (p : α → Prop) [DecidablePred p] : Decidable (∀ a ∈ t, p a) :=
  inferInstanceAs (Decidable (∀ a ∈ t.rows, p a))

/-- The rows that satisfy `p` are the same in both tables. -/
def AgreeOn (p : α → Prop) (t t' : Table key) : Prop := ∀ a, p a → (a ∈ t' ↔ a ∈ t)

theorem AgreeOn.refl (p : α → Prop) (t : Table key) : AgreeOn p t t := fun _ _ => Iff.rfl

theorem AgreeOn.trans {p : α → Prop} {t t' t'' : Table key} (h : AgreeOn p t t')
    (h' : AgreeOn p t' t'') : AgreeOn p t t'' :=
  fun a ha => (h' a ha).trans (h a ha)

theorem AgreeOn.symm {p : α → Prop} {t t' : Table key} (h : AgreeOn p t t') : AgreeOn p t' t :=
  fun a ha => (h a ha).symm

variable [DecidableEq κ]

def find? (t : Table key) (k : κ) : Option α := t.rows.find? fun a => key a = k

/-- Add a row. A row with that key must not be there yet. -/
def insert? (t : Table key) (a : α) : Option (Table key) :=
  if h : key a ∈ t.rows.map key then none
  else some ⟨t.rows ++ [a], by
    rw [List.map_append]
    exact t.nodup.append (List.nodup_singleton _) (List.disjoint_singleton.mpr h)⟩

/-- Add a row, unless a row with that key is there. -/
def insertIfAbsent (t : Table key) (a : α) : Table key := (t.insert? a).getD t

def update (t : Table key) (k : κ) (f : α → α) (hf : ∀ a, key (f a) = key a) : Table key :=
  t.updateWhere (fun a => key a = k) f hf

def erase (t : Table key) (k : κ) : Table key := t.filter fun a => key a ≠ k

/-! ## Lookups -/

theorem find?_eq_some {t : Table key} {k : κ} {a : α} :
    t.find? k = some a ↔ a ∈ t ∧ key a = k := by
  constructor
  · intro h
    exact ⟨List.mem_of_find?_eq_some h, by simpa using List.find?_some h⟩
  · rintro ⟨ha, rfl⟩
    cases h : t.find? (key a) with
    | none => exact absurd (List.find?_eq_none.mp h a ha) (by simp)
    | some b =>
        have hb : key b = key a := by simpa using List.find?_some h
        rw [key_inj (List.mem_of_find?_eq_some h) ha hb]

theorem find?_eq_none {t : Table key} {k : κ} : t.find? k = none ↔ ∀ a ∈ t, key a ≠ k := by
  rw [find?, List.find?_eq_none]
  simp only [decide_eq_true_eq]
  rfl

theorem mem_iff_find? {t : Table key} {a : α} : a ∈ t ↔ t.find? (key a) = some a := by
  rw [find?_eq_some]
  exact ⟨fun h => ⟨h, rfl⟩, fun h => h.1⟩

theorem key_of_find? {t : Table key} {k : κ} {a : α} (h : t.find? k = some a) : key a = k :=
  (find?_eq_some.mp h).2

theorem mem_of_find? {t : Table key} {k : κ} {a : α} (h : t.find? k = some a) : a ∈ t :=
  (find?_eq_some.mp h).1

theorem find?_mapRows (t : Table key) (f : α → α) (hf : ∀ a, key (f a) = key a) (k : κ) :
    (t.mapRows f hf).find? k = (t.find? k).map f := by
  simp only [find?, mapRows, List.find?_map]
  congr 2
  funext a
  simp [hf]

theorem find?_updateWhere (t : Table key) (p : α → Bool) (f : α → α)
    (hf : ∀ a, key (f a) = key a) (k : κ) :
    (t.updateWhere p f hf).find? k = (t.find? k).map fun a => if p a then f a else a :=
  find?_mapRows _ _ _ _

theorem find?_update (t : Table key) (k : κ) (f : α → α) (hf : ∀ a, key (f a) = key a) (k' : κ) :
    (t.update k f hf).find? k' = if k' = k then (t.find? k').map f else t.find? k' := by
  rw [update, find?_updateWhere]
  cases h : t.find? k' with
  | none => simp
  | some a =>
      have ha := key_of_find? h
      simp only [Option.map_some, decide_eq_true_eq, ha]
      split_ifs <;> rfl

theorem find?_update_self (t : Table key) (k : κ) (f : α → α) (hf : ∀ a, key (f a) = key a) :
    (t.update k f hf).find? k = (t.find? k).map f := by
  rw [find?_update, if_pos rfl]

theorem find?_update_ne (t : Table key) {k k' : κ} (f : α → α) (hf : ∀ a, key (f a) = key a)
    (h : k' ≠ k) : (t.update k f hf).find? k' = t.find? k' := by
  rw [find?_update, if_neg h]

theorem mem_update {t : Table key} {k : κ} {f : α → α} (hf : ∀ a, key (f a) = key a) {b : α} :
    b ∈ t.update k f hf ↔ (b ∈ t ∧ key b ≠ k) ∨ ∃ a ∈ t, key a = k ∧ f a = b := by
  rw [update, mem_updateWhere]
  simp only [decide_eq_true_eq]
  constructor
  · rintro ⟨a, ha, rfl⟩
    split_ifs with h
    · exact .inr ⟨a, ha, h, rfl⟩
    · exact .inl ⟨ha, h⟩
  · rintro (⟨hb, hk⟩ | ⟨a, ha, hk, rfl⟩)
    · exact ⟨b, hb, if_neg hk⟩
    · exact ⟨a, ha, if_pos hk⟩

theorem insert?_eq_some {t t' : Table key} {a : α} :
    t.insert? a = some t' ↔ t.find? (key a) = none ∧ t'.rows = t.rows ++ [a] := by
  rw [find?_eq_none, insert?]
  constructor
  · intro h
    split_ifs at h with hk
    obtain rfl := Option.some.inj h
    exact ⟨fun b hb he => hk (List.mem_map.mpr ⟨b, hb, he⟩), rfl⟩
  · rintro ⟨hn, hr⟩
    rw [dif_neg]
    · congr 1
      cases t'
      cases hr
      rfl
    · intro hk
      obtain ⟨b, hb, he⟩ := List.mem_map.mp hk
      exact hn b hb he

theorem mem_insert {t t' : Table key} {a b : α} (h : t.insert? a = some t') :
    b ∈ t' ↔ b ∈ t ∨ b = a := by
  rw [mem_def, (insert?_eq_some.mp h).2, List.mem_append, List.mem_singleton]
  rfl

theorem find?_insert {t t' : Table key} {a : α} (h : t.insert? a = some t') (k : κ) :
    t'.find? k = if k = key a then some a else t.find? k := by
  split_ifs with hk
  · subst hk
    exact find?_eq_some.mpr ⟨(mem_insert h).mpr (.inr rfl), rfl⟩
  · cases hf : t.find? k with
    | none =>
        rw [find?_eq_none] at hf ⊢
        intro b hb
        rcases (mem_insert h).mp hb with hb | rfl
        · exact hf b hb
        · exact Ne.symm hk
    | some b =>
        obtain ⟨hb, hkb⟩ := find?_eq_some.mp hf
        exact find?_eq_some.mpr ⟨(mem_insert h).mpr (.inl hb), hkb⟩

theorem insert?_isSome {t : Table key} {a : α} (h : t.find? (key a) = none) :
    ∃ t', t.insert? a = some t' := by
  unfold insert?
  split_ifs with hk
  · obtain ⟨b, hb, he⟩ := List.mem_map.mp hk
    exact absurd he (find?_eq_none.mp h b hb)
  · exact ⟨_, rfl⟩

/-- **Adding if absent**: the row that is there stays, otherwise there is the new one. -/
theorem find?_insertIfAbsent (t : Table key) (a : α) (k : κ) :
    (t.insertIfAbsent a).find? k =
      if k = key a then some ((t.find? k).getD a) else t.find? k := by
  rw [insertIfAbsent]
  cases h : t.insert? a with
  | some t' =>
      rw [Option.getD_some, find?_insert h]
      split_ifs with hk
      · rw [hk, (insert?_eq_some.mp h).1]
        rfl
      · rfl
  | none =>
      rw [Option.getD_none]
      split_ifs with hk
      · subst hk
        cases hf : t.find? (key a) with
        | some n => rfl
        | none =>
            obtain ⟨t', ht⟩ := insert?_isSome hf
            rw [ht] at h
            cases h
      · rfl

theorem find?_filter (t : Table key) (p : α → Bool) (k : κ) :
    (t.filter p).find? k = (t.find? k).filter p := by
  cases h : t.find? k with
  | none =>
      rw [find?_eq_none] at h
      exact find?_eq_none.mpr fun a ha => h a (mem_filter.mp ha).1
  | some a =>
      obtain ⟨ha, rfl⟩ := find?_eq_some.mp h
      cases hp : p a with
      | true =>
          simp only [Option.filter_some, hp, if_true]
          exact find?_eq_some.mpr ⟨mem_filter.mpr ⟨ha, hp⟩, rfl⟩
      | false =>
          simp only [Option.filter_some, hp, Bool.false_eq_true, if_false]
          refine find?_eq_none.mpr fun b hb he => ?_
          obtain ⟨hb, hpb⟩ := mem_filter.mp hb
          rw [key_inj hb ha he, hp] at hpb
          exact Bool.noConfusion hpb

theorem find?_erase (t : Table key) (k k' : κ) :
    (t.erase k).find? k' = if k' = k then none else t.find? k' := by
  rw [erase, find?_filter]
  cases h : t.find? k' with
  | none => simp
  | some a =>
      have ha := key_of_find? h
      subst ha
      by_cases hk : key a = k <;> simp [Option.filter, hk]

/-! ## Counts -/

theorem countP_insertIfAbsent (t : Table key) (a : α) (p : α → Bool) :
    (t.insertIfAbsent a).rows.countP p =
      t.rows.countP p + if ((t.find? (key a)).isNone && p a) = true then 1 else 0 := by
  rw [insertIfAbsent]
  cases h : t.insert? a with
  | some t' =>
      obtain ⟨hn, hr⟩ := insert?_eq_some.mp h
      rw [Option.getD_some, hr, List.countP_append, List.countP_singleton]
      simp only [hn, Option.isNone_none, Bool.true_and]
  | none =>
      have hf : t.find? (key a) ≠ none := fun hn => by
        obtain ⟨t', ht⟩ := insert?_isSome hn
        rw [ht] at h
        cases h
      simp [hf]

omit [DecidableEq κ] in
theorem exists_rows_eq {t : Table key} {a : α} (ha : a ∈ t) :
    ∃ l l', t.rows = l ++ a :: l' ∧ (∀ b ∈ l, key b ≠ key a) ∧ ∀ b ∈ l', key b ≠ key a := by
  obtain ⟨l, l', hl⟩ := List.append_of_mem (mem_def.mp ha)
  have hnodup := t.nodup
  rw [hl, List.map_append, List.map_cons, List.nodup_middle, List.nodup_cons,
    List.mem_append] at hnodup
  exact ⟨l, l', hl, fun b hb he => hnodup.1 (.inl (List.mem_map.mpr ⟨b, hb, he⟩)),
    fun b hb he => hnodup.1 (.inr (List.mem_map.mpr ⟨b, hb, he⟩))⟩

/-- **Changing one row** changes a count by that row. -/
theorem countP_update {t : Table key} {k : κ} {a : α} (h : t.find? k = some a) (f : α → α)
    (hf : ∀ a, key (f a) = key a) (p : α → Bool) :
    (t.update k f hf).rows.countP p + (if p a = true then 1 else 0) =
      t.rows.countP p + if p (f a) = true then 1 else 0 := by
  obtain ⟨ha, rfl⟩ := find?_eq_some.mp h
  obtain ⟨l, l', hl, hbefore, hafter⟩ := exists_rows_eq ha
  have hsame : ∀ m : List α, (∀ b ∈ m, key b ≠ key a) →
      m.map (fun b => if key b = key a then f b else b) = m := fun m hm => by
    conv_rhs => rw [← List.map_id m]
    exact List.map_congr_left fun b hb => if_neg (hm b hb)
  have hrows : (t.update (key a) f hf).rows = l ++ f a :: l' := by
    change t.rows.map (fun b => if decide (key b = key a) = true then f b else b) = _
    simp only [decide_eq_true_eq]
    rw [hl, List.map_append, List.map_cons, if_pos rfl, hsame l hbefore, hsame l' hafter]
  rw [hrows, hl]
  simp only [List.countP_append, List.countP_cons]
  omega

theorem countP_erase_le (t : Table key) (k : κ) (p : α → Bool) :
    (t.erase k).rows.countP p ≤ t.rows.countP p :=
  List.filter_sublist.countP_le

/-- **Removing one row** takes it out of a count. -/
theorem countP_erase (t : Table key) (k : κ) (p : α → Bool) :
    (t.erase k).rows.countP p + (if (t.find? k).any p = true then 1 else 0) = t.rows.countP p := by
  have hkeep : ∀ m : List α, (∀ b ∈ m, key b ≠ k) → m.filter (fun b => key b ≠ k) = m :=
    fun m hm => List.filter_eq_self.mpr fun b hb => decide_eq_true (hm b hb)
  cases h : t.find? k with
  | none =>
      change (t.rows.filter fun b => key b ≠ k).countP p + 0 = _
      rw [hkeep t.rows (find?_eq_none.mp h)]
      rfl
  | some a =>
      obtain ⟨ha, rfl⟩ := find?_eq_some.mp h
      obtain ⟨l, l', hl, hbefore, hafter⟩ := exists_rows_eq ha
      have hrows : (t.erase (key a)).rows = l ++ l' := by
        change (t.rows.filter fun b => key b ≠ key a) = _
        rw [hl, List.filter_append, List.filter_cons_of_neg (by simp), hkeep l hbefore,
          hkeep l' hafter]
      rw [hrows, hl, Option.any_some]
      simp only [List.countP_append, List.countP_cons]
      omega

/-! ## Changes that keep the rows with `p` -/

variable {p : α → Prop} {t t' : Table key} {k : κ}

/-- **Adding a row** that does not satisfy `p`. -/
theorem agreeOn_insert {a : α} (h : t.insert? a = some t') (ha : ¬ p a) : AgreeOn p t t' := by
  intro b hb
  rw [mem_insert h]
  constructor
  · rintro (hmem | rfl)
    · exact hmem
    · exact absurd hb ha
  · exact .inl

theorem agreeOn_insertIfAbsent {a : α} (ha : ¬ p a) : AgreeOn p t (t.insertIfAbsent a) := by
  rw [insertIfAbsent]
  cases h : t.insert? a with
  | some t' => exact agreeOn_insert h ha
  | none => exact .refl p t

/-- **Changing a row** that does not satisfy `p`, before and after. -/
theorem agreeOn_update {f : α → α} (hf : ∀ a, key (f a) = key a)
    (h : ∀ a ∈ t, key a = k → ¬ p a ∧ ¬ p (f a)) : AgreeOn p t (t.update k f hf) := by
  intro b hb
  rw [mem_update hf]
  constructor
  · rintro (⟨hmem, -⟩ | ⟨a, ha, hk, rfl⟩)
    · exact hmem
    · exact absurd hb (h a ha hk).2
  · intro hmem
    exact .inl ⟨hmem, fun hk => (h b hmem hk).1 hb⟩

/-- **Removing a row** changes no row with `p` exactly when the row has not `p`. -/
theorem agreeOn_erase_iff : AgreeOn p t (t.erase k) ↔ ∀ a ∈ t, key a = k → ¬ p a := by
  constructor
  · intro h a ha hk hp
    have hmem := mem_filter.mp ((h a hp).mpr ha)
    exact of_decide_eq_true hmem.2 hk
  · intro h a hp
    constructor
    · intro hmem
      exact (mem_filter.mp hmem).1
    · intro hmem
      exact mem_filter.mpr ⟨hmem, decide_eq_true fun hk => h a hmem hk hp⟩

end Table

import Mathlib.Data.List.AList

/-!
# Tables with unique keys

A table is an association list without duplicate keys. Besides looking up, inserting and erasing
single rows, a table can be updated row by row, searched, and measured.

## Main definitions

* `Table`: association lists from keys to rows.
* `Table.mapRows`, `Table.modify`: updating rows in place.
* `Table.select`: the rows that satisfy a condition.
* `Table.retain`, `Table.eraseAll`: removing rows by a condition, or by their keys.
* `Table.filterMapRows`: replacing and removing rows.
* `Table.weight`: the sum of a measure over all rows.
* `Table.ChangedOnly`: the rows that are changed by what becomes of a table.

## Main results

* `lookup_mapRows`, `lookup_modify`: the rows after an update.
* `lookup_retain`, `lookup_eraseAll`: the rows that are left.
* `lookup_union`, `lookup_insert_eq_some`: the rows of two tables, and with one more row.
* `mem_select_iff`: the rows that a search finds.
* `weight_insert`, `weight_erase`, `weight_eq_add_erase`, `weight_modify`, `weight_modify_le`: the
  measure after a change of one row.
* `ChangedOnly.trans`, `changedOnly_insert`, `changedOnly_modify`: the rows that change in several
  steps, or in one.
-/

/-- Tables of rows with unique keys. -/
abbrev Table (κ ρ : Type*) := AList fun _ : κ => ρ

namespace Table

variable {κ ρ : Type*}

/-- Every row replaced by what `f` makes of it. -/
def mapRows (f : κ → ρ → ρ) (t : Table κ ρ) : Table κ ρ :=
  ⟨t.entries.map fun e => ⟨e.1, f e.1 e.2⟩, List.NodupKeys.map₂ f _ t.nodupKeys⟩

/-- The sum of a measure over all rows. -/
def weight (w : κ → ρ → ℕ) (t : Table κ ρ) : ℕ :=
  t.entries.foldr (fun e n => w e.1 e.2 + n) 0

/-- The rows that satisfy a condition. -/
def select (p : κ → ρ → Bool) (t : Table κ ρ) : List (κ × ρ) :=
  (t.entries.filter fun e => p e.1 e.2).map fun e => (e.1, e.2)

/-- Only the rows that satisfy a condition. -/
def retain (p : κ → ρ → Bool) (t : Table κ ρ) : Table κ ρ :=
  ⟨t.entries.filter fun e => p e.1 e.2, t.nodupKeys.sublist List.filter_sublist⟩

/-- Every row replaced by what `f` makes of it, or removed. -/
def filterMapRows {σ : Type*} (f : κ → ρ → Option σ) (t : Table κ ρ) : Table κ σ :=
  ⟨t.entries.filterMap fun e => (f e.1 e.2).map fun r => ⟨e.1, r⟩, by
    refine List.Nodup.sublist ?_ t.nodupKeys
    induction t.entries with
    | nil => exact List.Sublist.slnil
    | cons e l ih =>
      rw [List.filterMap_cons]
      cases f e.1 e.2 with
      | none => exact ih.cons _
      | some r => exact ih.cons_cons _⟩

@[simp] theorem keys_mapRows (f : κ → ρ → ρ) (t : Table κ ρ) : (t.mapRows f).keys = t.keys := by
  simp [mapRows, AList.keys, List.keys, Function.comp_def]

@[simp] theorem mapRows_id (t : Table κ ρ) : t.mapRows (fun _ r => r) = t := by
  simp [mapRows]

/-- A search finds no more rows after an update that brings none into it. -/
theorem length_select_mapRows_le {p : κ → ρ → Bool} {f : κ → ρ → ρ} {t : Table κ ρ}
    (h : ∀ e ∈ t.entries, p e.1 (f e.1 e.2) = true → p e.1 e.2 = true) :
    ((t.mapRows f).select p).length ≤ (t.select p).length := by
  simp only [select, mapRows, List.length_map, ← List.countP_eq_length_filter, List.countP_map]
  exact List.countP_mono_left h

@[simp] theorem weight_empty (w : κ → ρ → ℕ) : weight w (∅ : Table κ ρ) = 0 := rfl

variable [DecidableEq κ]

/-- The row of one key replaced by what `f` makes of it. -/
def modify (k : κ) (f : ρ → ρ) (t : Table κ ρ) : Table κ ρ :=
  t.mapRows fun k' r => if k' = k then f r else r

@[simp] theorem lookup_mapRows (f : κ → ρ → ρ) (t : Table κ ρ) (k : κ) :
    (t.mapRows f).lookup k = (t.lookup k).map (f k) :=
  List.dlookup_map₂ k

@[simp] theorem lookup_modify (k : κ) (f : ρ → ρ) (t : Table κ ρ) :
    (t.modify k f).lookup k = (t.lookup k).map f := by
  simp [modify]

theorem lookup_modify_of_ne {k k' : κ} (h : k' ≠ k) (f : ρ → ρ) (t : Table κ ρ) :
    (t.modify k f).lookup k' = t.lookup k' := by
  simp [modify, h]

/-- The rows of the given keys removed. -/
def eraseAll (ks : List κ) (t : Table κ ρ) : Table κ ρ := ks.foldl (fun t k => t.erase k) t

theorem lookup_eraseAll (ks : List κ) (t : Table κ ρ) (k : κ) :
    (t.eraseAll ks).lookup k = if k ∈ ks then none else t.lookup k := by
  induction ks generalizing t with
  | nil => rfl
  | cons k' ks ih =>
    rw [eraseAll, List.foldl_cons, ← eraseAll, ih]
    rcases eq_or_ne k k' with rfl | hne
    · simp
    · simp [hne, AList.lookup_erase_ne hne]

/-- No rows are added when rows are removed. -/
theorem entries_eraseAll_sublist (ks : List κ) (t : Table κ ρ) :
    (t.eraseAll ks).entries.Sublist t.entries := by
  induction ks generalizing t with
  | nil => exact List.Sublist.refl _
  | cons k ks ih => exact (ih (t.erase k)).trans (List.kerase_sublist k t.entries)

/-- A row that a condition leaves is the row that was there. -/
theorem lookup_retain (p : κ → ρ → Bool) (t : Table κ ρ) (k : κ) :
    (t.retain p).lookup k = (t.lookup k).filter (p k) := by
  refine Option.ext fun r => ?_
  rw [Option.filter_eq_some_iff, ← Option.mem_def, AList.mem_lookup_iff, retain,
    List.mem_filter, ← AList.mem_lookup_iff, Option.mem_def]

theorem lookup_filterMapRows {σ : Type*} (f : κ → ρ → Option σ) (t : Table κ ρ) (k : κ) :
    (t.filterMapRows f).lookup k = (t.lookup k).bind (f k) := by
  refine Option.ext fun r => ?_
  rw [← Option.mem_def, AList.mem_lookup_iff, filterMapRows, List.mem_filterMap,
    Option.bind_eq_some_iff]
  constructor
  · rintro ⟨⟨k', r'⟩, hmem, h⟩
    obtain ⟨r'', hr, heq⟩ := Option.map_eq_some_iff.mp h
    obtain ⟨rfl, rfl⟩ : k' = k ∧ r'' = r := by simpa using heq
    exact ⟨r', AList.mem_lookup_iff.mpr hmem, hr⟩
  · rintro ⟨r', hl, hr⟩
    exact ⟨⟨k, r'⟩, AList.mem_lookup_iff.mp hl, by simp [hr]⟩

theorem lookup_union (s t : Table κ ρ) (k : κ) :
    (s ∪ t).lookup k = (s.lookup k).or (t.lookup k) := by
  cases h : s.lookup k with
  | none => rw [AList.lookup_union_right (AList.lookup_eq_none.mp h), Option.none_or]
  | some r =>
    rw [AList.lookup_union_left (AList.lookup_isSome.mp (h ▸ rfl)), h, Option.some_or]

omit [DecidableEq κ] in
@[simp] theorem mem_mapRows {f : κ → ρ → ρ} {t : Table κ ρ} {k : κ} :
    k ∈ t.mapRows f ↔ k ∈ t := by
  rw [AList.mem_keys, AList.mem_keys, keys_mapRows]

@[simp] theorem mem_modify {k k' : κ} {f : ρ → ρ} {t : Table κ ρ} :
    k' ∈ t.modify k f ↔ k' ∈ t :=
  mem_mapRows

/-- A row of a table into which one was inserted. -/
theorem lookup_insert_eq_some {t : Table κ ρ} {k k' : κ} {r r' : ρ} :
    (t.insert k r).lookup k' = some r' ↔ k' = k ∧ r = r' ∨ k' ≠ k ∧ t.lookup k' = some r' := by
  by_cases hk : k' = k
  · subst hk
    simp
  · simp [AList.lookup_insert_ne hk, hk]

theorem mem_of_lookup {t : Table κ ρ} {k : κ} {r : ρ} (h : t.lookup k = some r) : k ∈ t :=
  AList.lookup_isSome.mp (h ▸ rfl)

/-- A search finds exactly the rows that satisfy its condition. -/
theorem mem_select_iff {p : κ → ρ → Bool} {t : Table κ ρ} {k : κ} {r : ρ} :
    (k, r) ∈ t.select p ↔ t.lookup k = some r ∧ p k r = true := by
  rw [select, List.mem_map]
  constructor
  · rintro ⟨⟨k', r'⟩, he, h⟩
    obtain ⟨rfl, rfl⟩ : k' = k ∧ r' = r := by simpa using h
    obtain ⟨hmem, hp⟩ := List.mem_filter.mp he
    exact ⟨AList.mem_lookup_iff.mpr hmem, hp⟩
  · rintro ⟨hl, hp⟩
    exact ⟨⟨k, r⟩, List.mem_filter.mpr ⟨AList.mem_lookup_iff.mp hl, hp⟩, rfl⟩

omit [DecidableEq κ] in
/-- A search finds no key twice. -/
theorem nodup_map_fst_select (p : κ → ρ → Bool) (t : Table κ ρ) :
    ((t.select p).map Prod.fst).Nodup := by
  rw [select, List.map_map]
  exact List.Nodup.sublist (List.filter_sublist.map Sigma.fst) t.nodupKeys

/-- A search in a table with a new row. -/
theorem select_insert {p : κ → ρ → Bool} {t : Table κ ρ} {k : κ} {r : ρ} (h : k ∉ t) :
    select p (t.insert k r) = if p k r then (k, r) :: t.select p else t.select p := by
  rw [select, AList.entries_insert_of_notMem h, List.filter_cons]
  split_ifs <;> rfl

/-! ### Measures -/

section Weight

variable {w : κ → ρ → ℕ} {t : Table κ ρ} {k : κ} {r : ρ}

theorem weight_insert (h : k ∉ t) : weight w (t.insert k r) = w k r + weight w t := by
  rw [weight, AList.entries_insert_of_notMem h, List.foldr_cons, weight]

private theorem foldr_kerase {l : List (Sigma fun _ : κ => ρ)} (h : l.dlookup k = some r) :
    l.foldr (fun e n => w e.1 e.2 + n) 0 =
      w k r + (l.kerase k).foldr (fun e n => w e.1 e.2 + n) 0 := by
  induction l with
  | nil => simp at h
  | cons e l ih =>
    by_cases hk : k = e.1
    · subst hk
      rw [List.dlookup_cons_eq] at h
      obtain rfl : e.2 = r := Option.some.inj h
      rw [List.kerase_cons_eq rfl, List.foldr_cons]
    · rw [List.dlookup_cons_ne _ _ hk] at h
      rw [List.kerase_cons_ne hk, List.foldr_cons, List.foldr_cons, ih h]
      omega

/-- Erasing a row takes its measure away. -/
theorem weight_erase (h : t.lookup k = some r) :
    weight w t = w k r + weight w (t.erase k) :=
  foldr_kerase h

/-- The measure of a table, with the row of one key apart. -/
theorem weight_eq_add_erase (w : κ → ρ → ℕ) (t : Table κ ρ) (k : κ) :
    weight w t = (t.lookup k).elim 0 (w k) + weight w (t.erase k) := by
  cases h : t.lookup k with
  | some r => exact weight_erase h
  | none =>
    have hself : t.erase k = t := AList.ext (List.kerase_of_notMem_keys (AList.lookup_eq_none.mp h))
    rw [hself]
    exact (Nat.zero_add _).symm

/-- A row takes the place of the one with its key. -/
theorem weight_insert_erase (w : κ → ρ → ℕ) (t : Table κ ρ) (k : κ) (r : ρ) :
    weight w (t.insert k r) = w k r + weight w (t.erase k) :=
  rfl

private theorem foldr_map_of_notMem {f : ρ → ρ} {l : List (Sigma fun _ : κ => ρ)}
    (h : k ∉ l.keys) :
    (l.map fun e => (⟨e.1, if e.1 = k then f e.2 else e.2⟩ : Sigma fun _ : κ => ρ)).foldr
      (fun e n => w e.1 e.2 + n) 0 = l.foldr (fun e n => w e.1 e.2 + n) 0 := by
  induction l with
  | nil => rfl
  | cons e l ih =>
    rw [List.keys_cons, List.mem_cons, not_or] at h
    rw [List.map_cons, List.foldr_cons, List.foldr_cons, ih h.2, if_neg (Ne.symm h.1)]

private theorem foldr_modify {f : ρ → ρ} {l : List (Sigma fun _ : κ => ρ)} (hn : l.NodupKeys)
    (h : l.dlookup k = some r) :
    (l.map fun e => (⟨e.1, if e.1 = k then f e.2 else e.2⟩ : Sigma fun _ : κ => ρ)).foldr
      (fun e n => w e.1 e.2 + n) 0 + w k r =
      l.foldr (fun e n => w e.1 e.2 + n) 0 + w k (f r) := by
  induction l with
  | nil => simp at h
  | cons e l ih =>
    obtain ⟨hnot, hn⟩ := List.nodupKeys_cons.mp hn
    by_cases hk : k = e.1
    · subst hk
      rw [List.dlookup_cons_eq] at h
      obtain rfl : e.2 = r := Option.some.inj h
      have hrest := foldr_map_of_notMem (w := w) (f := f) hnot
      simp only [List.map_cons, List.foldr_cons, if_true, hrest]
      omega
    · rw [List.dlookup_cons_ne _ _ hk] at h
      have hrest := ih hn h
      simp only [List.map_cons, List.foldr_cons, if_neg (Ne.symm hk)]
      omega

/-- Modifying a row replaces its measure. -/
theorem weight_modify {f : ρ → ρ} (h : t.lookup k = some r) :
    weight w (t.modify k f) + w k r = weight w t + w k (f r) :=
  foldr_modify t.nodupKeys h

/-- Modifying a row adds at most as much as it adds to the measure of that row. -/
theorem weight_modify_le {f : ρ → ρ} {d : ℕ}
    (h : ∀ r, t.lookup k = some r → w k (f r) ≤ w k r + d) :
    weight w (t.modify k f) ≤ weight w t + d := by
  cases hl : t.lookup k with
  | some r =>
    have hw := weight_modify (w := w) (f := f) hl
    have hr := h r hl
    omega
  | none =>
    have hnot : k ∉ t.entries.keys := AList.lookup_eq_none.mp hl
    have hsame : weight w (t.modify k f) = weight w t := foldr_map_of_notMem hnot
    omega

end Weight

/-! ### Rows that change -/

section Changes

variable {β : Type*}

/-- No row is lost, and in what `f` says of a row nothing changes, but for the keys `p`. -/
def ChangedOnly (f : ρ → β) (p : κ → Prop) (t t' : Table κ ρ) : Prop :=
  ∀ k r, t.lookup k = some r → ∃ r', t'.lookup k = some r' ∧ (f r' = f r ∨ p k)

variable {f : ρ → β} {p q : κ → Prop} {t t' t'' : Table κ ρ} {k : κ} {r : ρ}

theorem ChangedOnly.refl (f : ρ → β) (p : κ → Prop) (t : Table κ ρ) : ChangedOnly f p t t :=
  fun _ r hr => ⟨r, hr, Or.inl rfl⟩

theorem ChangedOnly.mono (h : ChangedOnly f p t t') (hpq : ∀ k, p k → q k) :
    ChangedOnly f q t t' :=
  fun k r hr => (h k r hr).imp fun _ hr' => hr'.imp_right (Or.imp_right (hpq k))

theorem ChangedOnly.trans (h : ChangedOnly f p t t') (h' : ChangedOnly f p t' t'') :
    ChangedOnly f p t t'' := by
  intro k r hr
  obtain ⟨r', hr', hsame⟩ := h k r hr
  obtain ⟨r'', hr'', hsame'⟩ := h' k r' hr'
  refine ⟨r'', hr'', ?_⟩
  rcases hsame with hsame | hp
  · exact hsame'.imp_left fun hf => hf.trans hsame
  · exact Or.inr hp

theorem changedOnly_insert (hk : k ∉ t) : ChangedOnly f p t (t.insert k r) := by
  intro k' r' hr'
  have hne : k' ≠ k := fun heq => hk (heq ▸ mem_of_lookup hr')
  exact ⟨r', (AList.lookup_insert_ne hne).trans hr', Or.inl rfl⟩

theorem changedOnly_modify {g : ρ → ρ} (h : (∀ r, f (g r) = f r) ∨ p k) :
    ChangedOnly f p t (t.modify k g) := by
  intro k' r' hr'
  rcases eq_or_ne k' k with rfl | hne
  · refine ⟨g r', ?_, h.imp_left fun hf => hf r'⟩
    rw [lookup_modify, hr', Option.map_some]
  · exact ⟨r', (lookup_modify_of_ne hne _ _).trans hr', Or.inl rfl⟩

end Changes

end Table

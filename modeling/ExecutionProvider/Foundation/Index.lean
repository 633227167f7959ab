import ExecutionProvider.Foundation.Table

/-!
# Indexes of tables

A table whose rows are found by something other than their keys has another table beside it, which
maps what can be read off a row to the key of the row.

## Main definitions

* `Table.Indexes`: a table is the index of the rows of another.

## Main results

* `Table.Indexes.insert`, `Table.Indexes.insert_of_none`, `Table.Indexes.eraseAll`: an index is kept
  up to date when rows are inserted and erased.
-/

namespace Table

variable {κ ν ρ : Type*} [DecidableEq κ] [DecidableEq ν] {key : ρ → Option κ} {rows : Table ν ρ}
  {index : Table κ ν}

/-- A table maps to the keys of rows exactly what is read off these rows. -/
def Indexes (key : ρ → Option κ) (rows : Table ν ρ) (index : Table κ ν) : Prop :=
  ∀ k n, index.lookup k = some n ↔ ∃ r, rows.lookup n = some r ∧ key r = some k

theorem Indexes.empty : Indexes key (∅ : Table ν ρ) (∅ : Table κ ν) := by
  intro k n
  simp

/-- Rows off which the same is read are the same row. -/
theorem Indexes.unique (h : Indexes key rows index) {n n' : ν} {r r' : ρ} {k : κ}
    (hr : rows.lookup n = some r) (hr' : rows.lookup n' = some r') (hk : key r = some k)
    (hk' : key r' = some k) : n = n' := by
  have hn := (h k n).mpr ⟨r, hr, hk⟩
  have hn' := (h k n').mpr ⟨r', hr', hk'⟩
  exact Option.some.inj (hn.symm.trans hn')

/-- What is not in the index is read off no row. -/
theorem Indexes.eq_none_iff (h : Indexes key rows index) {k : κ} :
    index.lookup k = none ↔ ∀ n r, rows.lookup n = some r → key r ≠ some k := by
  rw [Option.eq_none_iff_forall_ne_some]
  constructor
  · exact fun hnone n r hr hk => hnone n ((h k n).mpr ⟨r, hr, hk⟩)
  · intro hrows n hn
    obtain ⟨r, hr, hk⟩ := (h k n).mp hn
    exact hrows n r hr hk

/-- A new row that the index leaves out. -/
theorem Indexes.insert_of_none (h : Indexes key rows index) {n : ν} {r : ρ}
    (hn : rows.lookup n = none) (hk : key r = none) : Indexes key (rows.insert n r) index := by
  intro k m
  rw [h k m]
  rcases eq_or_ne m n with rfl | hne
  · rw [hn, AList.lookup_insert]
    simp [hk]
  · rw [AList.lookup_insert_ne hne]

/-- A new row that is entered into the index. -/
theorem Indexes.insert (h : Indexes key rows index) {n : ν} {r : ρ} {k : κ}
    (hn : rows.lookup n = none) (hk : key r = some k) (hnew : index.lookup k = none) :
    Indexes key (rows.insert n r) (index.insert k n) := by
  intro k' m
  rcases eq_or_ne k' k with rfl | hne
  · rw [AList.lookup_insert, Option.some.injEq]
    constructor
    · rintro rfl
      exact ⟨r, AList.lookup_insert _, hk⟩
    · rintro ⟨r', hr', hk'⟩
      by_contra hm
      rw [AList.lookup_insert_ne (Ne.symm hm)] at hr'
      exact h.eq_none_iff.mp hnew m r' hr' hk'
  · rw [AList.lookup_insert_ne hne, h k' m]
    rcases eq_or_ne m n with rfl | hm
    · rw [hn, AList.lookup_insert]
      simp [hk, Ne.symm hne]
    · rw [AList.lookup_insert_ne hm]

/-- Rows are erased, and what is read off them is erased from the index. -/
theorem Indexes.eraseAll (h : Indexes key rows index) {removed : List (ν × ρ)}
    (hremoved : ∀ e ∈ removed, rows.lookup e.1 = some e.2) :
    Indexes key (rows.eraseAll (removed.map Prod.fst))
      (index.eraseAll (removed.filterMap fun e => key e.2)) := by
  intro k n
  rw [lookup_eraseAll, lookup_eraseAll]
  split_ifs with hk hn hn
  · simp
  · -- what was erased from the index was read off a row that was erased
    obtain ⟨⟨m, r⟩, hm, hr⟩ := List.mem_filterMap.mp hk
    simp only [false_iff, not_exists, not_and]
    intro r' hr' hk'
    obtain rfl := h.unique (hremoved _ hm) hr' hr hk'
    exact hn (List.mem_map.mpr ⟨_, hm, rfl⟩)
  · simp only [false_and, exists_false, iff_false]
    intro hindex
    obtain ⟨r, hr, hkey⟩ := (h k n).mp hindex
    obtain ⟨⟨m, r'⟩, hm, rfl⟩ := List.mem_map.mp hn
    obtain rfl : r = r' := Option.some.inj (hr.symm.trans (hremoved _ hm))
    exact hk (List.mem_filterMap.mpr ⟨_, hm, hkey⟩)
  · exact h k n

end Table

import Mathlib.Data.List.Dedup
import Mathlib.Data.List.Induction
import ExecutionProvider.Foundation.Table

/-!
# Least recently used

A cache keeps the rows of the keys that were used last. It is a table whose rows stand in the order
of their last use, the last one in front: the row that is used moves to the front, and when a row
is added to a full cache, the one at the end goes.

## Main definitions

* `Table.take`: the first rows of a table.
* `Recency.use`, `Recency.uses`: one use of a cache, and one use after another.

## Main results

* `Recency.keys_uses`: the keys of a cache are the ones that were used last.
* `Recency.idxOf_lt_of_evicted`: the key that goes is the one whose last use is the oldest.
-/

/-! ### Lists -/

namespace List

variable {α : Type*} [DecidableEq α] {l : List α} {a b : α} {n : ℕ}

/-- What is used last stands at the end when only last uses are kept. -/
theorem dedup_concat (l : List α) (a : α) : (l ++ [a]).dedup = l.dedup.erase a ++ [a] := by
  induction l with
  | nil => rfl
  | cons b l ih =>
    rw [cons_append]
    by_cases hmem : b ∈ l
    · rw [dedup_cons_of_mem hmem, dedup_cons_of_mem (mem_append_left _ hmem), ih]
    · rw [dedup_cons_of_notMem hmem]
      by_cases hb : b = a
      · have hnot : a ∉ l.dedup := fun h => hmem (hb ▸ mem_dedup.mp h)
        rw [dedup_cons_of_mem (by simp [hb]), ih, hb, erase_cons_head, erase_of_not_mem hnot]
      · rw [dedup_cons_of_notMem (by simp [hb, hmem]), ih, erase_cons_tail (by simpa using hb)]
        rfl

theorem reverse_dedup_concat (l : List α) (a : α) :
    (l ++ [a]).dedup.reverse = a :: l.dedup.reverse.erase a := by
  have hnodup : l.dedup.reverse.Nodup := nodup_reverse.mpr l.nodup_dedup
  rw [dedup_concat, reverse_append, reverse_singleton, singleton_append,
    l.nodup_dedup.erase_eq_filter, hnodup.erase_eq_filter, filter_reverse]

/-- The order of the last uses, the last one in front. -/
theorem pairwise_reverse_dedup (l : List α) :
    l.dedup.reverse.Pairwise fun a b => l.reverse.idxOf a < l.reverse.idxOf b := by
  induction l using reverseRecOn with
  | nil => exact Pairwise.nil
  | append_singleton l a ih =>
    have hnodup : l.dedup.reverse.Nodup := nodup_reverse.mpr l.nodup_dedup
    have hne {b : α} (hb : b ∈ l.dedup.reverse.erase a) : a ≠ b := fun heq =>
      hnodup.not_mem_erase (heq ▸ hb)
    have hrev : (l ++ [a]).reverse = a :: l.reverse := by simp
    rw [reverse_dedup_concat, hrev]
    refine pairwise_cons.mpr ⟨fun b hb => ?_, ?_⟩
    · rw [idxOf_cons_self, idxOf_cons_ne _ (hne hb)]
      exact Nat.succ_pos _
    · refine (ih.sublist erase_sublist).imp_of_mem fun hb hc hlt => ?_
      rw [idxOf_cons_ne _ (hne hb), idxOf_cons_ne _ (hne hc)]
      exact Nat.succ_lt_succ hlt

theorem erase_take_succ (h : a ∈ l.take (n + 1)) :
    (l.take (n + 1)).erase a = (l.erase a).take n := by
  induction l generalizing n with
  | nil => cases h
  | cons b l ih =>
    rw [take_succ_cons] at h ⊢
    by_cases hb : b = a
    · rw [hb, erase_cons_head, erase_cons_head]
    · have hmem : a ∈ l.take n := (mem_cons.mp h).resolve_left (Ne.symm hb)
      cases n with
      | zero => cases hmem
      | succ n =>
        rw [erase_cons_tail (by simpa using hb), erase_cons_tail (by simpa using hb), ih hmem,
          take_succ_cons]

theorem take_erase_of_notMem (h : a ∉ l.take n) : (l.erase a).take n = l.take n := by
  induction l generalizing n with
  | nil => rfl
  | cons b l ih =>
    cases n with
    | zero => rfl
    | succ n =>
      rw [take_succ_cons, mem_cons, not_or] at h
      rw [erase_cons_tail (by simpa using Ne.symm h.1), take_succ_cons, take_succ_cons, ih h.2]

end List

/-! ### The first rows of a table -/

namespace Table

variable {κ ρ : Type*}

/-- The first rows. -/
def take (n : ℕ) (t : Table κ ρ) : Table κ ρ :=
  ⟨t.entries.take n, t.nodupKeys.sublist (List.take_sublist n _)⟩

@[simp] theorem keys_take (n : ℕ) (t : Table κ ρ) : (t.take n).keys = t.keys.take n :=
  List.map_take

theorem lookup_take [DecidableEq κ] (n : ℕ) (t : Table κ ρ) (k : κ) :
    (t.take n).lookup k = if k ∈ t.keys.take n then t.lookup k else none := by
  have hmem : k ∈ t.keys.take n ↔ k ∈ t.take n := by rw [← keys_take, AList.mem_keys]
  split_ifs with hk
  · obtain ⟨r, hr⟩ := Option.isSome_iff_exists.mp (AList.lookup_isSome.mpr (hmem.mp hk))
    rw [hr]
    exact (AList.mem_lookup_iff.mpr (List.mem_of_mem_take (AList.mem_lookup_iff.mp hr))).symm
  · exact AList.lookup_eq_none.mpr (hmem.not.mp hk)

end Table

/-! ### Caches -/

namespace Recency

variable {κ ρ : Type*} [DecidableEq κ] {max : ℕ} {t : Table κ ρ} {k k' : κ} {fresh : ρ}
  {keys : List κ}

/-- The cache after a key was used, and the row of the key. A key without one gets a new row. -/
def use (max : ℕ) (t : Table κ ρ) (k : κ) (fresh : ρ) : Table κ ρ × ρ :=
  match t.lookup k with
  | some r => (t.insert k r, r)
  | none => ((t.take (max - 1)).insert k fresh, fresh)

/-- The cache after keys were used one after another, and their rows. -/
def uses (max : ℕ) (t : Table κ ρ) : List (κ × ρ) → Table κ ρ × List ρ
  | [] => (t, [])
  | (k, fresh) :: l =>
    let rest := uses max (use max t k fresh).1 l
    (rest.1, (use max t k fresh).2 :: rest.2)

theorem use_of_lookup {r : ρ} (h : t.lookup k = some r) :
    use max t k fresh = (t.insert k r, r) := by
  rw [use, h]

theorem use_of_notMem (h : k ∉ t) :
    use max t k fresh = ((t.take (max - 1)).insert k fresh, fresh) := by
  rw [use, AList.lookup_eq_none.mpr h]

theorem keys_use (hmax : 0 < max) (h : t.keys = keys.dedup.reverse.take max) :
    (use max t k fresh).1.keys = (keys ++ [k]).dedup.reverse.take max := by
  obtain ⟨n, rfl⟩ := Nat.exists_eq_succ_of_ne_zero (Nat.ne_of_gt hmax)
  rw [List.reverse_dedup_concat, List.take_succ_cons]
  by_cases hk : k ∈ t
  · obtain ⟨r, hr⟩ := Option.isSome_iff_exists.mp (AList.lookup_isSome.mpr hk)
    rw [AList.mem_keys, h] at hk
    rw [use_of_lookup hr, AList.keys_insert, h, List.erase_take_succ hk]
  · have hn : (n + 1 - 1) = n := rfl
    have hnot : k ∉ (t.take n).keys := by
      rw [Table.keys_take]
      exact fun hmem => hk (AList.mem_keys.mpr (List.mem_of_mem_take hmem))
    rw [AList.mem_keys, h] at hk
    have hnot' : k ∉ keys.dedup.reverse.take n := fun hmem =>
      hk (List.mem_of_mem_take (i := n) (by rwa [List.take_take, Nat.min_eq_left n.le_succ]))
    rw [use_of_notMem (fun hmem => hk (h ▸ AList.mem_keys.mp hmem)), AList.keys_insert, hn,
      List.erase_of_not_mem hnot, Table.keys_take, h, List.take_take, Nat.min_eq_left n.le_succ,
      List.take_erase_of_notMem hnot']

/-- **The keys of a cache are the ones that were used last**, in the order of their last use. -/
theorem keys_uses (hmax : 0 < max) (l : List (κ × ρ)) :
    (uses max ∅ l).1.keys = (l.map Prod.fst).dedup.reverse.take max := by
  have hrun (l : List (κ × ρ)) (keys : List κ) (t : Table κ ρ)
      (h : t.keys = keys.dedup.reverse.take max) :
      (uses max t l).1.keys = (keys ++ l.map Prod.fst).dedup.reverse.take max := by
    induction l generalizing keys t with
    | nil => rwa [List.map_nil, List.append_nil]
    | cons a l ih =>
      have hrest := ih (keys ++ [a.1]) (use max t a.1 a.2).1 (keys_use hmax h)
      rwa [List.append_assoc, List.singleton_append] at hrest
  exact hrun l [] ∅ List.take_nil.symm

/-- The key that goes is the one whose last use is the oldest. -/
theorem idxOf_lt_of_evicted (hmax : 0 < max) (h : t.keys = keys.dedup.reverse.take max)
    (hk : k ∈ t) (hevicted : k ∉ (use max t k' fresh).1) {k'' : κ} (hk'' : k'' ∈ t)
    (hne : k'' ≠ k) : keys.reverse.idxOf k'' < keys.reverse.idxOf k := by
  obtain ⟨n, rfl⟩ := Nat.exists_eq_succ_of_ne_zero (Nat.ne_of_gt hmax)
  -- a key that is used while it has a row evicts nothing
  have hmiss : k' ∉ t := by
    intro hmem
    obtain ⟨r, hr⟩ := Option.isSome_iff_exists.mp (AList.lookup_isSome.mpr hmem)
    rw [use_of_lookup hr, AList.mem_insert, not_or] at hevicted
    exact hevicted.2 hk
  rw [use_of_notMem hmiss, AList.mem_insert, not_or, AList.mem_keys, Nat.succ_sub_one,
    Table.keys_take, h, List.take_take, Nat.min_eq_left n.le_succ] at hevicted
  rw [AList.mem_keys, h, List.take_add_one, List.mem_append] at hk hk''
  have hlast := hk.resolve_left hevicted.2
  have hbefore : k'' ∈ keys.dedup.reverse.take n := by
    refine hk''.resolve_right fun hmem => hne ?_
    rw [Option.mem_toList] at hlast hmem
    exact Option.mem_unique hmem hlast
  have hbehind : k ∈ keys.dedup.reverse.drop n := by
    rw [Option.mem_toList, ← List.head?_drop] at hlast
    exact List.mem_of_mem_head? hlast
  have hpairwise := List.pairwise_reverse_dedup keys
  rw [← List.take_append_drop n keys.dedup.reverse, List.pairwise_append] at hpairwise
  exact hpairwise.2.2 _ hbefore _ hbehind

end Recency

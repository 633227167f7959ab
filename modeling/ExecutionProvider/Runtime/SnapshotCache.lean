import Mathlib.Data.List.MinMax
import ExecutionProvider.Core.Types
import ExecutionProvider.Filesystem.Path
import ExecutionProvider.Foundation.Recency

/-!
# The cache of shell snapshots

A runtime keeps an entry for each scope, shell and directory for which a snapshot was asked for. The
entry holds the snapshot, or what is known of the last attempt. A logical clock counts the lookups,
and each entry has the time of its last one. When the cache is full, a new entry takes the place of
the one whose time is the earliest.

## Main definitions

* `Key`, `Cached`, `Cache`: the entries.
* `Cache.entry`: the entry of a key.
* `Cache.lookups`: the cache after a sequence of lookups.
* `LooksUp`: what a lookup does to the entries.

## Main results

* `cache_lru`: the cache is one of the entries that were used last.
-/

namespace ExecutionProvider.Runtime.ShellSnapshot

variable {ε : Type*}

/-- What snapshots are kept for. Paths are compared by their components. -/
structure Key where
  scopeId : String
  shell : List Path.Component
  kind : ShellKind
  cwd : List Path.Component
deriving DecidableEq

/-- An entry, and when it was looked up last. -/
structure Cached (ε : Type*) where
  entry : ε
  lastUsed : ℕ

/-- The entries of a cache, and its clock. -/
structure Cache (ε : Type*) where
  entries : Table Key (Cached ε)
  clock : ℕ

/-- A key with its entry, as the map of a cache has them. -/
abbrev Row (ε : Type*) := Sigma fun _ : Key => Cached ε

/-- A lookup: its key, the entry that is made if there is none, and the order in which the map is
gone through. -/
structure Lookup (ε : Type*) where
  key : Key
  made : ε
  order : List (Row ε) → List (Row ε)
  perm : ∀ rows, (order rows).Perm rows

namespace Cache

/-- A cache without entries. -/
def empty : Cache ε := ⟨∅, 0⟩

/-- The entry of a key, with the cache after the lookup. The clock has 64 bits. -/
def entry (maxCachedScopes : ℕ) (cache : Cache ε) (lookup : Lookup ε) : Cache ε × ε :=
  let now := (cache.clock + 1) % 2 ^ 64
  match cache.entries.lookup lookup.key with
  | some cached =>
    (⟨cache.entries.modify lookup.key fun cached => { cached with lastUsed := now }, now⟩,
      cached.entry)
  | none =>
    let entries :=
      if maxCachedScopes ≤ cache.entries.entries.length then
        match (lookup.order cache.entries.entries).argmin fun row => row.2.lastUsed with
        | some oldest => cache.entries.erase oldest.1
        | none => cache.entries
      else cache.entries
    (⟨entries.insert lookup.key ⟨lookup.made, now⟩, now⟩, lookup.made)

/-- The cache after lookups one after another, and their entries. -/
def lookups (maxCachedScopes : ℕ) (cache : Cache ε) : List (Lookup ε) → Cache ε × List ε
  | [] => (cache, [])
  | lookup :: rest =>
    let after := lookups maxCachedScopes (cache.entry maxCachedScopes lookup).1 rest
    (after.1, (cache.entry maxCachedScopes lookup).2 :: after.2)

/-- The entry that is kept for a key. -/
def retained (cache : Cache ε) (key : Key) : Option ε :=
  (cache.entries.lookup key).map Cached.entry

/-- When a key was looked up last. -/
def lastUsed (cache : Cache ε) (key : Key) : ℕ := (cache.entries.lookup key).elim 0 Cached.lastUsed

end Cache

/-- What a lookup does to the entries, given the keys that were looked up before. -/
structure LooksUp (keys : List Key) (cache : Cache ε) (lookup : Lookup ε) (cache' : Cache ε)
    (entry : ε) : Prop where
  hit : ∀ e, cache.retained lookup.key = some e → entry = e
  found : cache'.retained lookup.key = some entry
  kept : ∀ key ≠ lookup.key, ∀ e, cache'.retained key = some e → cache.retained key = some e
  evicted : ∀ key, (cache.retained key).isSome → cache'.retained key = none →
    ∀ key' ≠ key, (cache.retained key').isSome →
      keys.reverse.idxOf key' < keys.reverse.idxOf key

/-! ### The cache as a list -/

/-- A cache has the rows of a list that is ordered by the time of the last lookup. -/
structure Cache.Ordered (maxCachedScopes : ℕ) (cache : Cache ε) (t : Table Key ε) : Prop where
  rows : ∀ key, cache.retained key = t.lookup key
  sorted : t.keys.Pairwise fun key key' => cache.lastUsed key' < cache.lastUsed key
  le_clock : ∀ key, cache.lastUsed key ≤ cache.clock
  size : t.keys.length ≤ maxCachedScopes

variable {maxCachedScopes : ℕ} {cache : Cache ε} {t : Table Key ε} {lookup : Lookup ε}

theorem Cache.ordered_empty : (Cache.empty : Cache ε).Ordered maxCachedScopes ∅ :=
  ⟨fun _ => rfl, List.Pairwise.nil, fun _ => Nat.le_refl 0, Nat.zero_le _⟩

namespace Cache.Ordered

theorem mem_iff (h : cache.Ordered maxCachedScopes t) (key : Key) :
    key ∈ cache.entries ↔ key ∈ t := by
  rw [← AList.lookup_isSome, ← AList.lookup_isSome, ← h.rows, retained, Option.isSome_map]

theorem length_eq (h : cache.Ordered maxCachedScopes t) :
    cache.entries.entries.length = t.keys.length := by
  have hperm : cache.entries.keys.Perm t.keys :=
    (List.perm_ext_iff_of_nodup cache.entries.keys_nodup t.keys_nodup).mpr h.mem_iff
  rw [← hperm.length_eq]
  exact (List.length_map _).symm

/-- The row that is evicted is the last one of the list. -/
theorem keys_eq_append_oldest {n : ℕ} (h : cache.Ordered (n + 1) t) {oldest : Row ε}
    (hfull : n + 1 ≤ cache.entries.entries.length)
    (hmin : (lookup.order cache.entries.entries).argmin (fun row => row.2.lastUsed) =
      some oldest) : t.keys = t.keys.take n ++ [oldest.1] := by
  have hlength : t.keys.length = n + 1 := Nat.le_antisymm h.size (h.length_eq ▸ hfull)
  obtain ⟨last, hlast⟩ : ∃ last, t.keys = t.keys.take n ++ [last] := by
    obtain ⟨last, hdrop⟩ := List.length_eq_one_iff.mp
      (by rw [List.length_drop]; omega : (t.keys.drop n).length = 1)
    exact ⟨last, by rw [← hdrop, List.take_append_drop]⟩
  have hrow (row : Row ε) (hmem : row ∈ cache.entries.entries) :
      cache.lastUsed row.1 = row.2.lastUsed := by
    rw [lastUsed, AList.mem_lookup_iff.mpr hmem]
    rfl
  have holdest : oldest ∈ cache.entries.entries :=
    (lookup.perm _).mem_iff.mp (List.argmin_mem hmin)
  have hle : cache.lastUsed oldest.1 ≤ cache.lastUsed last := by
    obtain ⟨cached, hcached⟩ := Option.isSome_iff_exists.mp (AList.lookup_isSome.mpr
      ((h.mem_iff last).mpr (by rw [AList.mem_keys, hlast]; simp)))
    have hmem := AList.mem_lookup_iff.mp hcached
    have hall := List.le_of_mem_argmin ((lookup.perm _).mem_iff.mpr hmem) hmin
    rwa [hrow _ holdest, hrow _ hmem]
  have hmem : oldest.1 ∈ t.keys := AList.mem_keys.mp
    ((h.mem_iff _).mp (AList.lookup_isSome.mp (Option.isSome_of_eq_some
      (AList.mem_lookup_iff.mpr holdest))))
  have hsorted := h.sorted
  rw [hlast, List.mem_append, List.mem_singleton] at hmem
  rw [hlast, List.pairwise_append] at hsorted
  obtain hbefore | heq := hmem
  · exact absurd (hsorted.2.2 _ hbefore last (List.mem_singleton.mpr rfl)) (Nat.not_lt.mpr hle)
  · rw [heq]
    exact hlast

section Insert

variable {entries : Table Key (Cached ε)} {t' : Table Key ε} {key : Key} {e : ε} {now : ℕ}

/-- A row that was used just now is put in front. -/
theorem insert (h : cache.Ordered maxCachedScopes t) (hnow : cache.clock < now)
    (hself : entries.lookup key = some ⟨e, now⟩)
    (hrows : ∀ k ≠ key, (entries.lookup k).map Cached.entry = t'.lookup k)
    (htimes : ∀ k ≠ key, entries.lookup k = none ∨ entries.lookup k = cache.entries.lookup k)
    (hsub : t'.keys.Sublist t.keys) (hsize : (t'.keys.erase key).length < maxCachedScopes) :
    Cache.Ordered maxCachedScopes ⟨entries, now⟩ (t'.insert key e) := by
  have hlast : (⟨entries, now⟩ : Cache ε).lastUsed key = now := by
    rw [lastUsed, hself]
    rfl
  have hle (k : Key) (hk : k ≠ key) :
      (⟨entries, now⟩ : Cache ε).lastUsed k ≤ cache.lastUsed k := by
    obtain hnone | hsame := htimes k hk
    · rw [lastUsed, hnone]
      exact Nat.zero_le _
    · rw [lastUsed, hsame, lastUsed]
  have hmem {k : Key} (hk : k ∈ t'.keys.erase key) : k ≠ key ∧ k ∈ t' := by
    rw [t'.keys_nodup.mem_erase_iff] at hk
    exact hk
  refine ⟨fun k => ?_, ?_, fun k => ?_, ?_⟩
  · rcases eq_or_ne k key with rfl | hk
    · rw [retained, hself, AList.lookup_insert]
      rfl
    · rw [AList.lookup_insert_ne hk, ← hrows k hk]
      rfl
  · rw [AList.keys_insert]
    refine List.pairwise_cons.mpr ⟨fun k hk => ?_, ?_⟩
    · rw [hlast]
      exact ((hle k (hmem hk).1).trans (h.le_clock k)).trans_lt hnow
    · refine (h.sorted.sublist (List.erase_sublist.trans hsub)).imp_of_mem fun {k k'} hk hk' hlt =>
        ?_
      have hsame : (⟨entries, now⟩ : Cache ε).lastUsed k = cache.lastUsed k := by
        obtain hnone | hsame := htimes k (hmem hk).1
        · have hlookup := hrows k (hmem hk).1
          rw [hnone] at hlookup
          exact absurd (hmem hk).2 (AList.lookup_eq_none.mp hlookup.symm)
        · rw [lastUsed, hsame, lastUsed]
      rw [hsame]
      exact (hle k' (hmem hk').1).trans_lt hlt
  · rcases eq_or_ne k key with rfl | hk
    · exact hlast.le
    · exact ((hle k hk).trans (h.le_clock k)).trans hnow.le
  · rw [AList.keys_insert, List.length_cons]
    exact hsize

end Insert

/-- A lookup is a use of the list. -/
theorem entry (hmax : 0 < maxCachedScopes) (h : cache.Ordered maxCachedScopes t)
    (hclock : cache.clock + 1 < 2 ^ 64) (lookup : Lookup ε) :
    (cache.entry maxCachedScopes lookup).1.Ordered maxCachedScopes
        (Recency.use maxCachedScopes t lookup.key lookup.made).1 ∧
      (cache.entry maxCachedScopes lookup).2 =
        (Recency.use maxCachedScopes t lookup.key lookup.made).2 ∧
      (cache.entry maxCachedScopes lookup).1.clock = cache.clock + 1 := by
  obtain ⟨n, rfl⟩ := Nat.exists_eq_succ_of_ne_zero (Nat.ne_of_gt hmax)
  have hnow : (cache.clock + 1) % 2 ^ 64 = cache.clock + 1 := Nat.mod_eq_of_lt hclock
  cases hl : cache.entries.lookup lookup.key with
  | some cached =>
    have ht : t.lookup lookup.key = some cached.entry := by
      rw [← h.rows, retained, hl]
      rfl
    have hmem : lookup.key ∈ t.keys := AList.mem_keys.mp (Table.mem_of_lookup ht)
    rw [Recency.use_of_lookup ht, Cache.entry, hl, hnow]
    refine ⟨h.insert cache.clock.lt_succ_self ?_ (fun k hk => ?_) (fun k hk => .inr ?_)
      (List.Sublist.refl _) ?_, rfl, rfl⟩
    · rw [Table.lookup_modify, hl]
      rfl
    · rw [Table.lookup_modify_of_ne hk, ← h.rows]
      rfl
    · exact Table.lookup_modify_of_ne hk _ _
    · have hsize := h.size
      rw [List.length_erase_of_mem hmem]
      omega
  | none =>
    have ht : t.lookup lookup.key = none := by
      rw [← h.rows, retained, hl]
      rfl
    rw [Recency.use_of_notMem (AList.lookup_eq_none.mp ht), Cache.entry, hl, hnow,
      Nat.succ_sub_one]
    have herase : ((t.take n).keys.erase lookup.key).length < n + 1 := by
      refine List.erase_sublist.length_le.trans_lt ?_
      rw [Table.keys_take, List.length_take]
      omega
    have hsub : (t.take n).keys.Sublist t.keys := by
      rw [Table.keys_take]
      exact List.take_sublist n _
    by_cases hfull : n + 1 ≤ cache.entries.entries.length
    · dsimp only
      rw [if_pos hfull]
      obtain ⟨oldest, hmin⟩ : ∃ oldest, (lookup.order cache.entries.entries).argmin
          (fun row => row.2.lastUsed) = some oldest := by
        refine Option.ne_none_iff_exists'.mp fun hnone => ?_
        have hlength := (lookup.perm cache.entries.entries).length_eq
        rw [List.argmin_eq_none.mp hnone, List.length_nil] at hlength
        omega
      have hkeys := h.keys_eq_append_oldest hfull hmin
      have hnodup := t.keys_nodup
      rw [hkeys, List.nodup_append] at hnodup
      rw [hmin]
      dsimp only
      refine ⟨h.insert cache.clock.lt_succ_self (AList.lookup_insert _) (fun k hk => ?_)
        (fun k hk => ?_) hsub herase, rfl, rfl⟩
      · rw [AList.lookup_insert_ne hk, Table.lookup_take]
        rcases eq_or_ne k oldest.1 with rfl | hne
        · rw [AList.lookup_erase, if_neg fun hmem =>
            hnodup.2.2 _ hmem _ (List.mem_singleton.mpr rfl) rfl]
          rfl
        · rw [AList.lookup_erase_ne hne]
          split_ifs with hmem
          · exact h.rows k
          · have hnot : k ∉ t.keys := by
              rw [hkeys, List.mem_append, List.mem_singleton, not_or]
              exact ⟨hmem, hne⟩
            exact (h.rows k).trans (AList.lookup_eq_none.mpr hnot)
      · rw [AList.lookup_insert_ne hk]
        rcases eq_or_ne k oldest.1 with rfl | hne
        · exact .inl (AList.lookup_erase _ _)
        · exact .inr (AList.lookup_erase_ne hne)
    · have hall : t.keys.take n = t.keys := by
        rw [h.length_eq] at hfull
        exact List.take_of_length_le (by omega)
      dsimp only
      rw [if_neg hfull]
      refine ⟨h.insert cache.clock.lt_succ_self (AList.lookup_insert _) (fun k hk => ?_)
        (fun k hk => .inr (AList.lookup_insert_ne hk)) hsub herase, rfl, rfl⟩
      rw [AList.lookup_insert_ne hk, Table.lookup_take, hall]
      split_ifs with hmem
      · exact h.rows k
      · exact (h.rows k).trans (AList.lookup_eq_none.mpr hmem)

/-- Lookups one after another are uses of the list one after another. -/
theorem lookups (hmax : 0 < maxCachedScopes) (h : cache.Ordered maxCachedScopes t)
    (l : List (Lookup ε)) (hclock : cache.clock + l.length < 2 ^ 64) :
    (cache.lookups maxCachedScopes l).1.Ordered maxCachedScopes
        (Recency.uses maxCachedScopes t (l.map fun lookup => (lookup.key, lookup.made))).1 ∧
      (cache.lookups maxCachedScopes l).2 =
        (Recency.uses maxCachedScopes t (l.map fun lookup => (lookup.key, lookup.made))).2 ∧
      (cache.lookups maxCachedScopes l).1.clock = cache.clock + l.length := by
  induction l generalizing cache t with
  | nil => exact ⟨h, rfl, rfl⟩
  | cons lookup l ih =>
    rw [List.length_cons] at hclock
    obtain ⟨hstep, hentry, hnow⟩ := h.entry hmax (by omega) lookup
    obtain ⟨hrest, hentries, hlater⟩ := ih hstep (by omega)
    refine ⟨hrest, List.cons_eq_cons.mpr ⟨hentry, hentries⟩, ?_⟩
    rw [List.length_cons, Cache.lookups, hlater, hnow]
    omega

/-- What a lookup does to the entries, when the list has the keys that were looked up last. -/
theorem looksUp (hmax : 0 < maxCachedScopes) (h : cache.Ordered maxCachedScopes t)
    {keys : List Key} (hkeys : t.keys = keys.dedup.reverse.take maxCachedScopes)
    (hclock : cache.clock + 1 < 2 ^ 64) (lookup : Lookup ε) :
    LooksUp keys cache lookup (cache.entry maxCachedScopes lookup).1
      (cache.entry maxCachedScopes lookup).2 := by
  obtain ⟨h', hentry, -⟩ := h.entry hmax hclock lookup
  rw [hentry]
  constructor
  case hit =>
    intro e he
    rw [h.rows] at he
    rw [Recency.use_of_lookup he]
  case found =>
    rw [h'.rows, Recency.use]
    split <;> exact AList.lookup_insert _
  case kept =>
    intro key hkey e he
    rw [h'.rows, Recency.use] at he
    rw [h.rows]
    split at he
    · rwa [AList.lookup_insert_ne hkey] at he
    · rw [AList.lookup_insert_ne hkey, Table.lookup_take] at he
      split_ifs at he
      exact he
  case evicted =>
    intro key hkey hevicted key' hne hkey'
    rw [h.rows, AList.lookup_isSome] at hkey hkey'
    rw [h'.rows, AList.lookup_eq_none] at hevicted
    exact Recency.idxOf_lt_of_evicted hmax hkeys hkey hevicted hkey' hne

end Cache.Ordered

/-- **The cache is one of the entries that were used last.** In every sequence of lookups it has the
keys and the entries of a list to whose front an entry moves when it is used, and these are the keys
that were used last. A key that has an entry always yields it, and the key that is evicted is the
one whose last use is the oldest. -/
theorem cache_lru (hmax : 0 < maxCachedScopes) (l : List (Lookup ε)) (hclock : l.length < 2 ^ 64) :
    (Cache.empty.lookups maxCachedScopes l).2 =
        (Recency.uses maxCachedScopes ∅ (l.map fun lookup => (lookup.key, lookup.made))).2 ∧
      (∀ key, (Cache.empty.lookups maxCachedScopes l).1.retained key =
        (Recency.uses maxCachedScopes ∅
          (l.map fun lookup => (lookup.key, lookup.made))).1.lookup key) ∧
      (Recency.uses maxCachedScopes ∅ (l.map fun lookup => (lookup.key, lookup.made))).1.keys =
        (l.map Lookup.key).dedup.reverse.take maxCachedScopes ∧
      (Cache.empty.lookups maxCachedScopes l).1.entries.entries.length ≤ maxCachedScopes ∧
      ∀ before lookup after, l = before ++ lookup :: after →
        let cache := (Cache.empty.lookups maxCachedScopes before).1
        LooksUp (before.map Lookup.key) cache lookup (cache.entry maxCachedScopes lookup).1
          (cache.entry maxCachedScopes lookup).2 := by
  have hkeys (l : List (Lookup ε)) :
      (Recency.uses maxCachedScopes ∅ (l.map fun lookup => (lookup.key, lookup.made))).1.keys =
        (l.map Lookup.key).dedup.reverse.take maxCachedScopes := by
    rw [Recency.keys_uses hmax, List.map_map]
    rfl
  have hempty : (Cache.empty : Cache ε).clock = 0 := rfl
  obtain ⟨h, hentries, -⟩ := Cache.ordered_empty.lookups hmax l (by rwa [hempty, Nat.zero_add])
  refine ⟨hentries, h.rows, hkeys l, h.length_eq ▸ h.size, fun before lookup after heq => ?_⟩
  subst heq
  rw [List.length_append, List.length_cons] at hclock
  obtain ⟨h', -, hclock'⟩ := Cache.ordered_empty.lookups hmax before (by rw [hempty]; omega)
  exact h'.looksUp hmax (hkeys before) (by rw [hclock', hempty]; omega) lookup

/-- A third directory takes the place of the one that was not used since. -/
theorem cache_lru_three :
    let lookup (cwd : String) (made : ℕ) : Lookup ℕ :=
      ⟨⟨"s", Path.components "/bin/sh", .sh, Path.components cwd⟩, made, id, fun _ => .refl _⟩
    let l := [lookup "/a" 1, lookup "/b" 2, lookup "/a" 3, lookup "/c" 4]
    (Cache.empty.lookups 2 l).2 =
        (Recency.uses 2 ∅ (l.map fun lookup => (lookup.key, lookup.made))).2 ∧
      (Cache.empty.lookups 2 l).2 = [1, 2, 1, 4] :=
  ⟨(cache_lru (by decide) _ (by decide)).1, by decide⟩

end ExecutionProvider.Runtime.ShellSnapshot

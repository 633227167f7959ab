import Mathlib.Data.List.Flatten
import Mathlib.Data.List.Sort

/-!
# Simultaneous replacement of ranges of a list

A *replacement* puts new elements in the place of a range of consecutive elements of a list.
A set of replacements can be carried out at once, position by position (`substitute`), or by
splicing one range after another into the list. Splicing from the last range to the first
leaves the earlier ranges where they were, so that for ranges in order and apart from each
other both give the same list (`foldr_splice_eq_substitute`).

## Main definitions

* `Replacement`: a range and the elements that take its place.
* `splice`, `splice?`: one replacement carried out in a list, unless its range leaves the list.
* `substitute`: all replacements carried out simultaneously.

## Main results

* `foldr_splice_eq_substitute`: splicing ordered ranges from the last to the first is
  simultaneous replacement.
* `substitute_sortByStart`: a stable sort by start positions does not change the result.
* `foldr_splice_sortByStart`: ranges that are apart may be spliced in the order of their starts.
* `foldrM_splice?_sortByStart`: none of these ranges leaves the list when its turn comes.
* `append_flatMap_substitute_of_apart`, `take_drop_write`: replacing ranges of a list that is
  written out, and what stands in them.
* `uncovered_sublist_substitute`: the elements outside all ranges remain, in order.
-/

namespace List

variable {α : Type*}

/-- The range of `count` elements from position `start` on, and the elements that replace it. -/
structure Replacement (α : Type*) where
  start : ℕ
  count : ℕ
  new : List α
deriving DecidableEq, Repr

namespace Replacement

/-- The first position after the range. -/
def stop (r : Replacement α) : ℕ := r.start + r.count

/-- Whether a position lies in the range. -/
def covers (r : Replacement α) (i : ℕ) : Bool := r.start ≤ i && i < r.stop

/-- Two ranges, the second listed later, of which one ends before the other begins. A range
listed later may begin where the first begins only behind the end of the first. -/
def Apart (r r' : Replacement α) : Prop :=
  r.stop ≤ r'.start ∨ r'.stop ≤ r.start ∧ r'.start < r.start

@[simp] theorem covers_iff (r : Replacement α) (i : ℕ) :
    r.covers i = true ↔ r.start ≤ i ∧ i < r.stop := by
  simp [covers]

end Replacement

/-- One replacement carried out in a list. -/
def splice (l : List α) (r : Replacement α) : List α :=
  l.take r.start ++ r.new ++ l.drop r.stop

/-- What stands at position `i` after all replacements: the new elements of the ranges that
start there, then the element itself unless a range covers it. -/
def substituteAt (l : List α) (rs : List (Replacement α)) (i : ℕ) : List α :=
  (rs.filter fun r => r.start = i).flatMap Replacement.new ++
    if rs.any fun r => r.covers i then [] else l[i]?.toList

/-- One replacement carried out in a list in which its range must lie. -/
def splice? (l : List α) (r : Replacement α) : Option (List α) :=
  if r.stop ≤ l.length then some (splice l r) else none

/-- All replacements carried out simultaneously. -/
def substitute (l : List α) (rs : List (Replacement α)) : List α :=
  (range (l.length + 1)).flatMap (substituteAt l rs)

/-! ### Positions that no range reaches -/

theorem substituteAt_of_lt {l : List α} {rs : List (Replacement α)} {i : ℕ}
    (h : ∀ r ∈ rs, i < r.start) : substituteAt l rs i = l[i]?.toList := by
  have hstart : rs.filter (fun r => r.start = i) = [] := by
    simp only [filter_eq_nil_iff, decide_eq_true_eq]
    exact fun r hr he => absurd (h r hr) (by omega)
  have hcover : rs.any (fun r => r.covers i) = false := by
    simp only [any_eq_false, Replacement.covers_iff, not_and]
    exact fun r hr hs => absurd (h r hr) (by omega)
  simp only [substituteAt, hstart, hcover, flatMap_nil, nil_append, Bool.false_eq_true, if_false]

theorem flatMap_getElem?_range' (l : List α) (k n : ℕ) :
    (range' k n).flatMap (fun i => l[i]?.toList) = (l.drop k).take n := by
  induction n generalizing k with
  | zero => simp
  | succ n ih =>
    rw [range'_succ, flatMap_cons, ih (k + 1)]
    by_cases hk : k < l.length
    · rw [drop_eq_getElem_cons hk, take_succ_cons, getElem?_eq_getElem hk]
      rfl
    · rw [getElem?_eq_none (by omega), drop_eq_nil_of_le (by omega),
        drop_eq_nil_of_le (by omega)]
      simp

theorem flatMap_substituteAt_of_le {l : List α} {rs : List (Replacement α)} {k n : ℕ}
    (h : ∀ r ∈ rs, k + n ≤ r.start) :
    (range' k n).flatMap (substituteAt l rs) = (l.drop k).take n := by
  rw [← flatMap_getElem?_range']
  refine flatMap_congr fun i hi => substituteAt_of_lt fun r hr => ?_
  have := h r hr
  have := (mem_range'_1.mp hi).2
  omega

@[simp] theorem substitute_nil (l : List α) : substitute l [] = l := by
  rw [substitute, range_eq_range', flatMap_substituteAt_of_le (by simp), drop_zero]
  exact take_of_length_le (Nat.le_succ _)

/-! ### Splicing from the last range to the first -/

section Ordered

variable {l : List α} {r : Replacement α} {rs : List (Replacement α)}

private theorem substituteAt_cons_of_lt {i : ℕ} (hi : i < r.start) :
    substituteAt l (r :: rs) i = substituteAt l rs i := by
  have hcover : r.covers i = false := by
    simp only [Replacement.covers, Bool.and_eq_false_iff, decide_eq_false_iff_not]
    omega
  rw [substituteAt, substituteAt, filter_cons_of_neg (by simp; omega), any_cons, hcover,
    Bool.false_or]

private theorem substituteAt_cons_of_ge {i : ℕ} (hi : r.stop ≤ i) (hs : r.start ≠ i) :
    substituteAt l (r :: rs) i = substituteAt l rs i := by
  have hcover : r.covers i = false := by
    simp only [Replacement.covers, Bool.and_eq_false_iff, decide_eq_false_iff_not]
    omega
  rw [substituteAt, substituteAt, filter_cons_of_neg (by simpa using hs), any_cons, hcover,
    Bool.false_or]

private theorem substituteAt_cons_inside (h : ∀ r' ∈ rs, r.stop ≤ r'.start) {i : ℕ}
    (hlo : r.start ≤ i) (hhi : i < r.stop) :
    substituteAt l (r :: rs) i = if r.start = i then r.new else [] := by
  have hstart : rs.filter (fun r' => r'.start = i) = [] := by
    simp only [filter_eq_nil_iff, decide_eq_true_eq]
    exact fun r' hr he => absurd (h r' hr) (by omega)
  have hcover : (r :: rs).any (fun r' => r'.covers i) = true := by
    simp only [any_cons, Bool.or_eq_true, Replacement.covers_iff]
    exact Or.inl ⟨hlo, hhi⟩
  by_cases hs : r.start = i
  · simp [substituteAt, hs, hstart, hcover]
  · simp [substituteAt, hs, hstart, hcover]

/-- Inside its range, a replacement that comes before all others leaves its new elements. -/
private theorem flatMap_substituteAt_cons_range (h : ∀ r' ∈ rs, r.stop ≤ r'.start)
    (hcount : 0 < r.count) :
    (range' r.start r.count).flatMap (substituteAt l (r :: rs)) = r.new := by
  obtain ⟨n, hn⟩ : ∃ n, r.count = n + 1 := ⟨r.count - 1, by omega⟩
  have hstop : r.stop = r.start + (n + 1) := by rw [Replacement.stop, hn]
  have htail : (range' (r.start + 1) n).flatMap (substituteAt l (r :: rs)) = [] := by
    rw [flatMap_eq_nil_iff]
    intro i hi
    obtain ⟨hlo, hhi⟩ := mem_range'_1.mp hi
    rw [substituteAt_cons_inside h (by omega) (by omega), if_neg (by omega)]
  rw [hn, range'_succ, flatMap_cons, htail,
    substituteAt_cons_inside h le_rfl (by omega), if_pos rfl, append_nil]

/-- A replacement that comes before all others is carried out by splicing it last. -/
theorem substitute_cons (h : ∀ r' ∈ rs, r.stop ≤ r'.start) (hb : r.stop ≤ l.length) :
    substitute l (r :: rs) = splice (substitute l rs) r := by
  have hsc : r.start + r.count = r.stop := rfl
  -- the positions before the range, in the range, and from its end on
  have hsplit : range (l.length + 1) =
      range' 0 r.start ++ range' r.start r.count ++ range' r.stop (l.length + 1 - r.stop) := by
    have h₁ := range'_append_1 (s := 0) (m := r.start) (n := r.count)
    have h₂ := range'_append_1 (s := 0) (m := r.stop) (n := l.length + 1 - r.stop)
    rw [Nat.zero_add] at h₁ h₂
    rw [h₁, hsc, h₂, range_eq_range']
    congr 1
    omega
  set T := (range' r.stop (l.length + 1 - r.stop)).flatMap (substituteAt l rs) with hT
  have hbefore : (range' 0 r.start).flatMap (substituteAt l (r :: rs)) = l.take r.start := by
    have hcongr : (range' 0 r.start).flatMap (substituteAt l (r :: rs)) =
        (range' 0 r.start).flatMap (substituteAt l rs) :=
      flatMap_congr fun i hi => substituteAt_cons_of_lt (by have := (mem_range'_1.mp hi).2; omega)
    rw [hcongr, flatMap_substituteAt_of_le (fun r' hr => by have := h r' hr; omega), drop_zero]
  have hrest : substitute l rs = l.take r.stop ++ T := by
    rw [substitute, hsplit, flatMap_append, ← hT]
    congr 1
    have h₁ := range'_append_1 (s := 0) (m := r.start) (n := r.count)
    rw [Nat.zero_add] at h₁
    rw [h₁, hsc, flatMap_substituteAt_of_le (fun r' hr => by have := h r' hr; omega), drop_zero]
  have hlen : (l.take r.stop).length = r.stop := by rw [length_take]; omega
  have hsplice : splice (substitute l rs) r = l.take r.start ++ r.new ++ T := by
    rw [hrest, splice, take_append_of_le_length (by omega), take_take,
      Nat.min_eq_left (by omega), drop_append_of_le_length (by omega),
      drop_eq_nil_of_le (by omega), nil_append]
  rw [hsplice, substitute, hsplit, flatMap_append, flatMap_append, hbefore]
  rcases Nat.eq_zero_or_pos r.count with hz | hpos
  · -- an insertion: its new elements stand in front of what is at its own position
    obtain ⟨n, hn⟩ : ∃ n, l.length + 1 - r.stop = n + 1 := ⟨l.length - r.stop, by omega⟩
    have hat : substituteAt l (r :: rs) r.stop = r.new ++ substituteAt l rs r.stop := by
      have hcover : r.covers r.stop = false := by simp [Replacement.covers]
      have hstart : r.start = r.stop := by omega
      rw [substituteAt, substituteAt, filter_cons_of_pos (by simpa using hstart), flatMap_cons,
        any_cons, hcover, Bool.false_or, append_assoc]
    have htail : (range' (r.stop + 1) n).flatMap (substituteAt l (r :: rs)) =
        (range' (r.stop + 1) n).flatMap (substituteAt l rs) :=
      flatMap_congr fun i hi => substituteAt_cons_of_ge
        (by have := (mem_range'_1.mp hi).1; omega) (by have := (mem_range'_1.mp hi).1; omega)
    rw [hT, hz, hn, range'_succ, flatMap_cons, flatMap_cons, hat, htail]
    simp
  · have htail : (range' r.stop (l.length + 1 - r.stop)).flatMap (substituteAt l (r :: rs)) = T :=
      flatMap_congr fun i hi => substituteAt_cons_of_ge
        (by have := (mem_range'_1.mp hi).1; omega) (by have := (mem_range'_1.mp hi).1; omega)
    rw [flatMap_substituteAt_cons_range h hpos, htail]

end Ordered

/-- **Splicing ordered ranges.** For ranges inside the list that follow each other without
overlap, splicing them in from the last to the first is simultaneous replacement. -/
theorem foldr_splice_eq_substitute {l : List α} : (rs : List (Replacement α)) →
    rs.Pairwise (fun r r' => r.stop ≤ r'.start) → (∀ r ∈ rs, r.stop ≤ l.length) →
    rs.foldr (fun r l => splice l r) l = substitute l rs
  | [], _, _ => (substitute_nil l).symm
  | r :: rs, hp, hb => by
    obtain ⟨hr, hp⟩ := pairwise_cons.mp hp
    rw [foldr_cons, foldr_splice_eq_substitute rs hp fun r' h => hb r' (mem_cons_of_mem _ h),
      substitute_cons hr (hb r mem_cons_self)]

/-- A range inside the list still lies inside it once the ranges behind it are replaced. -/
theorem stop_le_length_substitute {l : List α} {r : Replacement α} {rs : List (Replacement α)}
    (h : ∀ r' ∈ rs, r.stop ≤ r'.start) (hb : r.stop ≤ l.length) :
    r.stop ≤ (substitute l rs).length := by
  have hsplit : range (l.length + 1) =
      range' 0 r.stop ++ range' r.stop (l.length + 1 - r.stop) := by
    have h₁ := range'_append_1 (s := 0) (m := r.stop) (n := l.length + 1 - r.stop)
    rw [Nat.zero_add] at h₁
    rw [h₁, range_eq_range']
    congr 1
    omega
  rw [substitute, hsplit, flatMap_append,
    flatMap_substituteAt_of_le (fun r' hr => by have := h r' hr; omega), length_append, drop_zero,
    length_take]
  omega

/-- What stands in front of all ranges stays there. -/
theorem take_substitute {l : List α} {rs : List (Replacement α)} {k : ℕ}
    (h : ∀ r ∈ rs, k ≤ r.start) (hk : k ≤ l.length) : (substitute l rs).take k = l.take k := by
  have hsplit : range (l.length + 1) = range' 0 k ++ range' k (l.length + 1 - k) := by
    have h₁ := range'_append_1 (s := 0) (m := k) (n := l.length + 1 - k)
    rw [Nat.zero_add] at h₁
    rw [h₁, range_eq_range']
    congr 1
    omega
  rw [substitute, hsplit, flatMap_append,
    flatMap_substituteAt_of_le (fun r hr => by have := h r hr; omega), drop_zero,
    take_append_of_le_length (by rw [length_take]; omega), take_take, Nat.min_self]

/-- Splicing ordered ranges from the last to the first stays inside the list. -/
theorem foldrM_splice?_eq_some {l : List α} : (rs : List (Replacement α)) →
    rs.Pairwise (fun r r' => r.stop ≤ r'.start) → (∀ r ∈ rs, r.stop ≤ l.length) →
    rs.foldrM (fun r l => splice? l r) l = some (substitute l rs)
  | [], _, _ => by rw [foldrM_nil, substitute_nil]; rfl
  | r :: rs, hp, hb => by
    obtain ⟨hr, hp⟩ := pairwise_cons.mp hp
    have hbr := hb r mem_cons_self
    rw [foldrM_cons, foldrM_splice?_eq_some rs hp fun r' h => hb r' (mem_cons_of_mem _ h),
      substitute_cons hr hbr]
    exact if_pos (stop_le_length_substitute hr hbr)

/-! ### The order of the replacements -/

/-- Sorting replacements by their start positions. -/
def sortByStart (rs : List (Replacement α)) : List (Replacement α) :=
  rs.insertionSort fun r r' => r.start ≤ r'.start

theorem perm_sortByStart (rs : List (Replacement α)) : (sortByStart rs).Perm rs :=
  perm_insertionSort _ _

/-- The sort is stable: replacements with one start position keep their order. -/
theorem filter_start_sortByStart (rs : List (Replacement α)) (i : ℕ) :
    (sortByStart rs).filter (fun r => r.start = i) = rs.filter fun r => r.start = i := by
  have hsorted : (rs.filter fun r => r.start = i).Pairwise fun r r' => r.start ≤ r'.start := by
    refine pairwise_of_forall_mem_list fun r hr r' hr' => ?_
    have h := (mem_filter.mp hr).2
    have h' := (mem_filter.mp hr').2
    simp only [decide_eq_true_eq] at h h'
    omega
  have hsub : (rs.filter fun r => r.start = i).Sublist (sortByStart rs) :=
    sublist_insertionSort hsorted filter_sublist
  have hfilter := hsub.filter fun r => decide (r.start = i)
  rw [filter_filter] at hfilter
  simp only [Bool.and_self] at hfilter
  exact (hfilter.eq_of_length ((perm_sortByStart rs).filter _).length_eq.symm).symm

/-- Sorting replacements by start position does not change what they do. -/
theorem substitute_sortByStart (l : List α) (rs : List (Replacement α)) :
    substitute l (sortByStart rs) = substitute l rs := by
  have hany (i : ℕ) : (sortByStart rs).any (fun r => r.covers i) = rs.any fun r => r.covers i :=
    (perm_sortByStart rs).any_eq
  refine flatMap_congr fun i _ => ?_
  rw [substituteAt, substituteAt, filter_start_sortByStart, hany]

/-- Replacements with distinct start positions may be listed in any order. -/
theorem substitute_perm (l : List α) {rs rs' : List (Replacement α)} (hperm : rs.Perm rs')
    (hstarts : rs.Pairwise fun r r' => r.start ≠ r'.start) :
    substitute l rs = substitute l rs' := by
  have hfilter (i : ℕ) : (rs.filter fun r => r.start = i) = rs'.filter fun r => r.start = i := by
    have hp := hperm.filter fun r => decide (r.start = i)
    have hdistinct : (rs.filter fun r => r.start = i).Pairwise fun _ _ => False := by
      refine (hstarts.filter _).imp_of_mem fun {r r'} hr hr' hne => hne ?_
      rw [of_decide_eq_true (mem_filter.mp hr).2, of_decide_eq_true (mem_filter.mp hr').2]
    generalize (rs.filter fun r => r.start = i) = found at hp hdistinct
    match found, hdistinct with
    | [], _ => exact (nil_perm.mp hp).symm
    | [r], _ => exact singleton_perm.mp hp ▸ rfl
    | r :: r' :: _, hdistinct => exact ((pairwise_cons.mp hdistinct).1 r' mem_cons_self).elim
  refine flatMap_congr fun i _ => ?_
  rw [substituteAt, substituteAt, hfilter, hperm.any_eq]

private theorem pairwise_orderedInsert {r : Replacement α} :
    (rs : List (Replacement α)) → rs.Pairwise (fun r r' => r.stop ≤ r'.start) →
    (∀ r' ∈ rs, r.Apart r') →
    (rs.orderedInsert (fun r r' => r.start ≤ r'.start) r).Pairwise fun r r' => r.stop ≤ r'.start
  | [], _, _ => by simp
  | b :: rs, hp, ha => by
    obtain ⟨hb, hp'⟩ := pairwise_cons.mp hp
    have hrb := ha b mem_cons_self
    rw [orderedInsert]
    split_ifs with hle
    · -- every later range starts at or behind `b`, and so behind the end of `r`
      have hstop : r.stop ≤ b.start := by
        rcases hrb with h | ⟨_, h⟩
        · exact h
        · omega
      refine pairwise_cons.mpr ⟨fun r' hr' => ?_, hp⟩
      rcases mem_cons.mp hr' with rfl | hr'
      · exact hstop
      · have := hb r' hr'
        have : b.start ≤ b.stop := Nat.le_add_right _ _
        omega
    · refine pairwise_cons.mpr ⟨fun r' hr' => ?_,
        pairwise_orderedInsert rs hp' fun r' h => ha r' (mem_cons_of_mem _ h)⟩
      rcases (perm_orderedInsert _ r rs).mem_iff.mp hr' |> mem_cons.mp with rfl | hr'
      · rcases hrb with h | ⟨h, _⟩
        · have : r'.start ≤ r'.stop := Nat.le_add_right _ _
          omega
        · exact h
      · exact hb r' hr'

/-- Ranges that are apart follow each other once they are sorted by their starts. -/
theorem pairwise_sortByStart {rs : List (Replacement α)} (h : rs.Pairwise Replacement.Apart) :
    (sortByStart rs).Pairwise fun r r' => r.stop ≤ r'.start := by
  induction rs with
  | nil => exact Pairwise.nil
  | cons r rs ih =>
    obtain ⟨hr, hp⟩ := pairwise_cons.mp h
    exact pairwise_orderedInsert _ (ih hp) fun r' hr' =>
      hr r' ((perm_sortByStart rs).mem_iff.mp hr')

/-- **Splicing ranges that are apart.** Sorted by their starts and spliced in from the last to
the first, they are replaced simultaneously. -/
theorem foldr_splice_sortByStart {l : List α} {rs : List (Replacement α)}
    (hp : rs.Pairwise Replacement.Apart) (hb : ∀ r ∈ rs, r.stop ≤ l.length) :
    (sortByStart rs).foldr (fun r l => splice l r) l = substitute l rs := by
  rw [foldr_splice_eq_substitute _ (pairwise_sortByStart hp), substitute_sortByStart]
  exact fun r hr => hb r ((perm_sortByStart rs).mem_iff.mp hr)

/-- Splicing ranges that are apart stays inside the list. -/
theorem foldrM_splice?_sortByStart {l : List α} {rs : List (Replacement α)}
    (hp : rs.Pairwise Replacement.Apart) (hb : ∀ r ∈ rs, r.stop ≤ l.length) :
    (sortByStart rs).foldrM (fun r l => splice? l r) l = some (substitute l rs) := by
  rw [foldrM_splice?_eq_some _ (pairwise_sortByStart hp), substitute_sortByStart]
  exact fun r hr => hb r ((perm_sortByStart rs).mem_iff.mp hr)

/-- Of two ranges that are apart and start at one position, the one listed first is empty. -/
theorem Replacement.Apart.count_eq_zero {r r' : Replacement α} (h : r.Apart r')
    (hstart : r.start = r'.start) : r.count = 0 := by
  have hstop : r.stop = r.start + r.count := rfl
  rcases h with h | ⟨_, h⟩ <;> omega

/-! ### Ranges of a list that is written out -/

section Write

variable {β : Type*} (pre : List β) (e : α → List β) (l : List α)

/-- Where a position of a list is found when every element is written out behind a prefix. -/
def place (i : ℕ) : ℕ := (pre ++ (l.take i).flatMap e).length

/-- A replacement in a list whose elements are written out behind a prefix. -/
def Replacement.write (r : Replacement α) : Replacement β :=
  ⟨place pre e l r.start, place pre e l r.stop - place pre e l r.start, r.new.flatMap e⟩

variable {pre e l}

theorem place_mono {i j : ℕ} (h : i ≤ j) : place pre e l i ≤ place pre e l j := by
  rw [place, place, length_append, length_append]
  exact Nat.add_le_add_left ((take_sublist_take_left h).flatMap e).length_le _

theorem Replacement.stop_write (r : Replacement α) :
    (r.write pre e l).stop = place pre e l r.stop :=
  Nat.add_sub_cancel' (place_mono (Nat.le_add_right _ _))

theorem place_le_length (i : ℕ) : place pre e l i ≤ (pre ++ l.flatMap e).length := by
  rw [place, length_append, length_append]
  exact Nat.add_le_add_left ((take_sublist i l).flatMap e).length_le _

/-- A list that begins like another one has its positions in the same places. -/
theorem take_place {m : List α} {i : ℕ} (h : m.take i = l.take i) :
    (pre ++ m.flatMap e).take (place pre e l i) = pre ++ (m.take i).flatMap e ∧
      (pre ++ m.flatMap e).drop (place pre e l i) = (m.drop i).flatMap e := by
  have hsplit : pre ++ m.flatMap e = (pre ++ (l.take i).flatMap e) ++ (m.drop i).flatMap e := by
    rw [append_assoc, ← h, ← flatMap_append, take_append_drop]
  rw [hsplit, h]
  exact ⟨take_left' rfl, drop_left' rfl⟩

/-- What stands in a range is written out in its place. -/
theorem take_drop_write (r : Replacement α) :
    ((pre ++ l.flatMap e).drop (r.write pre e l).start).take (r.write pre e l).count =
      ((l.drop r.start).take r.count).flatMap e := by
  have hstart : (r.write pre e l).start = place pre e l r.start := rfl
  have hcount : (r.write pre e l).count = (((l.drop r.start).take r.count).flatMap e).length := by
    change place pre e l r.stop - place pre e l r.start = _
    rw [place, place, Replacement.stop, take_add, flatMap_append, length_append, length_append,
      length_append]
    omega
  have hsplit : (l.drop r.start).flatMap e = ((l.drop r.start).take r.count).flatMap e ++
      ((l.drop r.start).drop r.count).flatMap e := by
    rw [← flatMap_append, take_append_drop]
  rw [hstart, (take_place rfl).2, hcount, hsplit, take_left' rfl]

/-- Replacing ordered ranges and writing the result out is replacing what was written out. -/
theorem append_flatMap_substitute : (rs : List (Replacement α)) →
    rs.Pairwise (fun r r' => r.stop ≤ r'.start) → (∀ r ∈ rs, r.stop ≤ l.length) →
    pre ++ (substitute l rs).flatMap e =
      substitute (pre ++ l.flatMap e) (rs.map (Replacement.write pre e l))
  | [], _, _ => by rw [map_nil, substitute_nil, substitute_nil]
  | r :: rs, hp, hb => by
    obtain ⟨hr, hp⟩ := pairwise_cons.mp hp
    have hbr := hb r mem_cons_self
    have hstart : r.start ≤ r.stop := Nat.le_add_right _ _
    have hfront : (substitute l rs).take r.stop = l.take r.stop := take_substitute hr hbr
    have hfront' : (substitute l rs).take r.start = l.take r.start :=
      take_substitute (fun r' hr' => hstart.trans (hr r' hr')) (hstart.trans hbr)
    have hr' : ∀ r' ∈ rs.map (Replacement.write pre e l),
        (r.write pre e l).stop ≤ r'.start := by
      intro r' hr'
      obtain ⟨r₀, hr₀, rfl⟩ := mem_map.mp hr'
      rw [Replacement.stop_write]
      exact place_mono (hr r₀ hr₀)
    rw [map_cons, substitute_cons hr hbr,
      substitute_cons hr' (by rw [Replacement.stop_write]; exact place_le_length _),
      ← append_flatMap_substitute rs hp fun r' h => hb r' (mem_cons_of_mem _ h), splice, splice,
      Replacement.stop_write, (take_place hfront).2]
    rw [show (r.write pre e l).start = place pre e l r.start from rfl, (take_place hfront').1,
      flatMap_append, flatMap_append, append_assoc, append_assoc, append_assoc]
    rfl

/-- Elements that are not written as nothing have distinct places. -/
theorem place_lt (he : ∀ a, e a ≠ []) {i j : ℕ} (h : i < j) (hj : j ≤ l.length) :
    place pre e l i < place pre e l j := by
  have hi : i < l.length := h.trans_le hj
  refine lt_of_lt_of_le ?_ (place_mono (Nat.succ_le_of_lt h))
  have hpos := length_pos_iff.mpr (he l[i])
  rw [place, place, Nat.succ_eq_add_one, take_succ_eq_append_getElem hi, flatMap_append,
    flatMap_singleton, length_append, length_append, length_append]
  omega

/-- **Replacing ranges and writing the result out** is replacing what was written out. -/
theorem append_flatMap_substitute_of_apart {rs : List (Replacement α)} (he : ∀ a, e a ≠ [])
    (hp : rs.Pairwise Replacement.Apart) (hcount : ∀ r ∈ rs, 0 < r.count)
    (hb : ∀ r ∈ rs, r.stop ≤ l.length) :
    pre ++ (substitute l rs).flatMap e =
      substitute (pre ++ l.flatMap e) (rs.map (Replacement.write pre e l)) := by
  have hmem {r : Replacement α} (hr : r ∈ sortByStart rs) : r ∈ rs :=
    (perm_sortByStart rs).mem_iff.mp hr
  have hordered := pairwise_sortByStart hp
  rw [← substitute_sortByStart, append_flatMap_substitute _ hordered fun r hr => hb r (hmem hr)]
  refine substitute_perm _ ((perm_sortByStart rs).map _) (pairwise_map.mpr ?_)
  refine hordered.imp_of_mem fun {r r'} hr _ hle => ne_of_lt ?_
  have hpos := hcount r (hmem hr)
  exact (place_lt he (Nat.lt_add_of_pos_right hpos) (hb r (hmem hr))).trans_le (place_mono hle)

end Write

/-! ### The elements outside all ranges -/

/-- The elements of a list that no range covers. -/
def uncovered (l : List α) (rs : List (Replacement α)) : List α :=
  (range l.length).flatMap fun i => if rs.any fun r => r.covers i then [] else l[i]?.toList

/-- The elements outside all ranges remain, in order. -/
theorem uncovered_sublist_substitute (l : List α) (rs : List (Replacement α)) :
    uncovered l rs <+ substitute l rs := by
  rw [substitute, range_succ, flatMap_append]
  exact (Sublist.flatMap_right _ fun i _ => sublist_append_right _ _).trans
    (sublist_append_left _ _)

end List

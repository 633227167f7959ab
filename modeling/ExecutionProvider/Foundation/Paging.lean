import Mathlib.Data.List.Sort
import Mathlib.Data.Set.Basic

/-!
# Lists by pages

A list that changes is read page by page. A page holds the next elements behind a position, as many
as fit on it, and the following page begins behind the last of them. Between two pages, elements may
come and go.

## Main definitions

* `Listing`: the pages of a list behind a position, each with the elements that there were.

## Main results

* `Listing.increasing`: no element comes twice, and they come in order.
* `Listing.complete`: an element that is there all the time is on some page.
* `Listing.length_le`: there are not many pages.
-/

/-- The pages behind a position, each with the elements that there were when it was made. The list
has an end, or is left off before it. -/
inductive Listing {α : Type*} [LinearOrder α] : Option α → List (Set α × List α) → Bool → Prop
  | stopped (after : Option α) : Listing after [] false
  | last {after : Option α} {S : Set α} {l : List α} (hsorted : l.Pairwise (· < ·))
      (hmem : ∀ x, x ∈ l ↔ x ∈ S ∧ ∀ a ∈ after, a < x) : Listing after [(S, l)] true
  | next {after : Option α} {S : Set α} {l : List α} {n : ℕ} {position : α}
      {rest : List (Set α × List α)} {ended : Bool} (hsorted : l.Pairwise (· < ·))
      (hmem : ∀ x, x ∈ l ↔ x ∈ S ∧ ∀ a ∈ after, a < x)
      (hposition : (l.take n).getLast? = some position)
      (hrest : Listing (some position) rest ended) :
      Listing after ((S, l.take n) :: rest) ended

namespace Listing

variable {α : Type*} [LinearOrder α] {after : Option α} {pages : List (Set α × List α)}
  {ended : Bool}

/-- In an increasing list, an element is taken when it is not behind the last one taken. -/
theorem mem_take_iff {l : List α} {n : ℕ} {position x : α} (hsorted : l.Pairwise (· < ·))
    (hposition : (l.take n).getLast? = some position) :
    x ∈ l.take n ↔ x ∈ l ∧ x ≤ position := by
  obtain ⟨front, hfront⟩ := List.getLast?_eq_some_iff.mp hposition
  have hsplit : l = front ++ [position] ++ l.drop n := by
    rw [← hfront, List.take_append_drop]
  rw [hsplit, List.pairwise_append, List.pairwise_append] at hsorted
  obtain ⟨⟨-, -, hbefore⟩, -, hbehind⟩ := hsorted
  have hpos : position ∈ l.take n := List.mem_of_getLast? hposition
  constructor
  · intro hx
    refine ⟨List.mem_of_mem_take hx, ?_⟩
    rw [hfront] at hx
    rcases List.mem_append.mp hx with hx | hx
    · exact (hbefore x hx position (List.mem_singleton_self _)).le
    · exact (List.mem_singleton.mp hx).le
  · rintro ⟨hx, hle⟩
    rw [← List.take_append_drop n l] at hx
    refine (List.mem_append.mp hx).resolve_right fun hdrop => ?_
    exact absurd hle (not_le.mpr (hbehind position (hfront ▸ hpos) x hdrop))

/-- All elements lie behind the position. -/
theorem behind (h : Listing after pages ended) {x : α} (hx : x ∈ pages.flatMap Prod.snd) :
    ∀ a ∈ after, a < x := by
  induction h with
  | stopped => cases hx
  | @last after S l _ hmem =>
    rw [List.flatMap_singleton] at hx
    exact ((hmem x).mp hx).2
  | @next after S l n position rest ended hsorted hmem hposition _ ih =>
    rw [List.flatMap_cons, List.mem_append] at hx
    rcases hx with hx | hx
    · exact ((hmem x).mp (List.mem_of_mem_take hx)).2
    · have hpos := (hmem position).mp (List.mem_of_mem_take (List.mem_of_getLast? hposition))
      exact fun a ha => (hpos.2 a ha).trans (ih hx position rfl)

/-- The elements come in order, and none comes twice. -/
theorem increasing (h : Listing after pages ended) :
    (pages.flatMap Prod.snd).Pairwise (· < ·) := by
  induction h with
  | stopped => exact List.Pairwise.nil
  | last hsorted _ => rwa [List.flatMap_singleton]
  | @next after S l n position rest ended hsorted hmem hposition hrest ih =>
    rw [List.flatMap_cons, List.pairwise_append]
    refine ⟨hsorted.sublist (List.take_sublist n l), ih, fun x hx y hy => ?_⟩
    exact ((mem_take_iff hsorted hposition).mp hx).2.trans_lt (hrest.behind hy position rfl)

/-- What is on a page was there. -/
theorem sound (h : Listing after pages ended) {page : Set α × List α} (hpage : page ∈ pages)
    {x : α} (hx : x ∈ page.2) : x ∈ page.1 := by
  induction h with
  | stopped => cases hpage
  | @last after S l _ hmem =>
    obtain rfl := List.mem_singleton.mp hpage
    exact ((hmem x).mp hx).1
  | @next after S l n position rest ended _ hmem _ _ ih =>
    rcases List.mem_cons.mp hpage with rfl | hpage
    · exact ((hmem x).mp (List.mem_of_mem_take hx)).1
    · exact ih hpage

/-- What is there all the time is on some page of a list that has come to its end. -/
theorem complete (h : Listing after pages ended) (hended : ended = true) {x : α}
    (hx : ∀ a ∈ after, a < x) (hthere : ∀ page ∈ pages, x ∈ page.1) :
    x ∈ pages.flatMap Prod.snd := by
  induction h with
  | stopped => cases hended
  | @last after S l _ hmem =>
    rw [List.flatMap_singleton]
    exact (hmem x).mpr ⟨hthere _ (List.mem_singleton_self _), hx⟩
  | @next after S l n position rest ended hsorted hmem hposition _ ih =>
    rw [List.flatMap_cons, List.mem_append]
    have hl : x ∈ l := (hmem x).mpr ⟨hthere _ List.mem_cons_self, hx⟩
    rcases le_or_gt x position with hle | hlt
    · exact Or.inl ((mem_take_iff hsorted hposition).mpr ⟨hl, hle⟩)
    · refine Or.inr (ih hended (fun a ha => ?_) fun page hpage =>
        hthere page (List.mem_cons_of_mem _ hpage))
      rwa [← Option.some.inj ha]

/-- All pages have elements but the last one. -/
theorem length_le (h : Listing after pages ended) :
    pages.length ≤ (pages.flatMap Prod.snd).length + 1 := by
  induction h with
  | stopped => exact Nat.zero_le _
  | last => simp
  | @next after S l n position rest ended _ _ hposition _ ih =>
    have hpos : 0 < (l.take n).length :=
      List.length_pos_of_mem (List.mem_of_getLast? hposition)
    rw [List.flatMap_cons, List.length_append, List.length_cons]
    dsimp only
    omega

end Listing

import ExecutionProvider.Patch.Codex

/-!
# What the search for lines finds

The expected lines of a chunk are sought in a window of the file, first where they occur exactly,
then where they occur up to white space and typography. The passes get more lenient, so that the
first pass that finds the lines is the strictest in which they occur, and it finds the first of
their places.

## Main definitions

* `InWindow`: the positions at which a pattern is sought.
* `Matches`: that a pattern occurs at a position in a pass.
* `Found`: the first place in the strictest pass.

## Main results

* `seek_spec`: what a search finds, unless there is too much work to do.
-/

namespace ExecutionProvider.Patch

variable {lines pattern : List String} {work work' : ℕ}

/-! ### Passes -/

/-- How lenient a pass is. -/
def MatchPass.rank : MatchPass → ℕ
  | exact => 0
  | trimmedEnd => 1
  | trimmed => 2
  | punctuation => 3

theorem trim_congr {a b : String} (h : trimEnd a = trimEnd b) : trim a = trim b := by
  rw [trim_eq_trimStart_trimEnd, h, ← trim_eq_trimStart_trimEnd]

/-- What a pass compares of a line. -/
def MatchPass.form : MatchPass → String → String
  | exact, s => s
  | trimmedEnd, s => trimEnd s
  | trimmed, s => trim s
  | punctuation, s => Patch.punctuation (trim s)

theorem MatchPass.agrees_iff {pass : MatchPass} {a b : String} :
    pass.agrees a b = true ↔ pass.form a = pass.form b := by
  cases pass <;> exact beq_iff_eq

/-- Lines that agree in a pass agree in every more lenient one. -/
theorem MatchPass.agrees_mono {pass pass' : MatchPass} (hle : pass.rank ≤ pass'.rank)
    {a b : String} (h : pass.agrees a b = true) : pass'.agrees a b = true := by
  rw [agrees_iff] at h ⊢
  cases pass with
  | exact => exact congrArg _ h
  | trimmedEnd =>
    cases pass' with
    | exact => exact absurd hle (by decide)
    | trimmedEnd => exact h
    | trimmed => exact trim_congr h
    | punctuation => exact congrArg Patch.punctuation (trim_congr h)
  | trimmed =>
    cases pass' with
    | exact => exact absurd hle (by decide)
    | trimmedEnd => exact absurd hle (by decide)
    | trimmed => exact h
    | punctuation => exact congrArg Patch.punctuation h
  | punctuation =>
    cases pass' with
    | punctuation => exact h
    | _ => exact absurd hle (by decide)

/-- The pattern occurs at a position in a pass. -/
def Matches (lines pattern : List String) (pass : MatchPass) (i : ℕ) : Prop :=
  List.Forall₂ (fun a b => pass.agrees a b = true) ((lines.drop i).take pattern.length) pattern

theorem Matches.mono {pass pass' : MatchPass} (hle : pass.rank ≤ pass'.rank) {i : ℕ}
    (h : Matches lines pattern pass i) : Matches lines pattern pass' i :=
  h.imp fun _ _ => MatchPass.agrees_mono hle

theorem matchesAt_iff {pass : MatchPass} {i : ℕ} (hi : i + pattern.length ≤ lines.length) :
    matchesAt lines pattern pass i = true ↔ Matches lines pattern pass i := by
  rw [matchesAt, List.all_eq_true, Matches, List.forall₂_iff_zip]
  have hlen : ((lines.drop i).take pattern.length).length = pattern.length := by
    rw [List.length_take, List.length_drop]
    omega
  exact ⟨fun h => ⟨hlen, fun {a b} hab => h (a, b) hab⟩, fun h p hp => h.2 hp⟩

/-! ### The search -/

/-- What a pass over the `n` positions from `i` on finds: the first at which something holds. -/
inductive First (p : ℕ → Bool) (i n : ℕ) : Option ℕ → Prop
  | hit {j : ℕ} (hlo : i ≤ j) (hhi : j < i + n) (hj : p j = true)
      (hbefore : ∀ k, i ≤ k → k < j → p k = false) : First p i n (some j)
  | miss (hnone : ∀ k, i ≤ k → k < i + n → p k = false) : First p i n none

theorem First.succ {p : ℕ → Bool} {i n : ℕ} {r : Option ℕ} (h : First p (i + 1) n r)
    (hi : p i = false) : First p i (n + 1) r := by
  have hcons {k : ℕ} (hk : i ≤ k) (hrest : i + 1 ≤ k → p k = false) : p k = false := by
    obtain rfl | hlt := hk.eq_or_lt
    · exact hi
    · exact hrest hlt
  cases h with
  | hit hlo hhi hj hbefore =>
    exact .hit (by omega) (by omega) hj fun k hk hkj => hcons hk fun hk => hbefore k hk hkj
  | miss hnone => exact .miss fun k hk hkn => hcons hk fun hk => hnone k hk (by omega)

/-- A pass finds the first position, or there is too much work to do. -/
theorem seekPass_spec (lines pattern : List String) (pass : MatchPass) (i n work : ℕ) :
    (∃ r work', seekPass lines pattern pass i n work = .ok (r, work') ∧
        First (matchesAt lines pattern pass) i n r ∧ work' ≤ work + n * pattern.length) ∨
      ∃ e, seekPass lines pattern pass i n work = .error e ∧
        maxMatchWork < work + n * pattern.length := by
  induction n generalizing i work with
  | zero => exact .inl ⟨none, work, rfl, .miss fun k hk hkn => by omega, by omega⟩
  | succ n ih =>
    have hwork : work + (n + 1) * pattern.length =
        work + pattern.length + n * pattern.length := by
      rw [Nat.add_one_mul]
      omega
    rw [seekPass, hwork]
    by_cases hmax : maxMatchWork < work + pattern.length
    · rw [if_pos hmax]
      exact .inr ⟨_, rfl, by omega⟩
    · rw [if_neg hmax]
      by_cases hi : matchesAt lines pattern pass i = true
      · rw [if_pos hi]
        exact .inl ⟨some i, _, rfl, .hit le_rfl (by omega) hi fun k hk hki => by omega, by omega⟩
      · rw [if_neg hi]
        obtain ⟨r, work', hr, hfirst, hle⟩ | herror := ih (i + 1) (work + pattern.length)
        · exact .inl ⟨r, work', hr, hfirst.succ (Bool.eq_false_of_not_eq_true hi), hle⟩
        · exact .inr herror

/-- The passes find the first position in the first of them that finds any, or there is too much
work to do. -/
theorem seekPasses_spec (lines pattern : List String) (i n : ℕ) (passes : List MatchPass)
    (work : ℕ) :
    (∃ r work', seekPasses lines pattern i n passes work = .ok (r, work') ∧
        ((r = none ∧ ∀ pass ∈ passes, First (matchesAt lines pattern pass) i n none) ∨
          ∃ before pass after, passes = before ++ pass :: after ∧ r.isSome = true ∧
            First (matchesAt lines pattern pass) i n r ∧
            ∀ pass' ∈ before, First (matchesAt lines pattern pass') i n none)) ∨
      ∃ e, seekPasses lines pattern i n passes work = .error e ∧
        maxMatchWork < work + passes.length * (n * pattern.length) := by
  induction passes generalizing work with
  | nil => exact .inl ⟨none, work, rfl, .inl ⟨rfl, nofun⟩⟩
  | cons pass passes ih =>
    have hwork : (pass :: passes).length * (n * pattern.length) =
        n * pattern.length + passes.length * (n * pattern.length) := by
      rw [List.length_cons, Nat.add_one_mul, Nat.add_comm]
    rw [seekPasses, hwork]
    obtain ⟨r, work', hr, hfirst, hle⟩ | ⟨e, he, hmax⟩ := seekPass_spec lines pattern pass i n work
    · rw [hr]
      cases r with
      | some j => exact .inl ⟨some j, work', rfl, .inr ⟨[], pass, passes, rfl, rfl, hfirst, nofun⟩⟩
      | none =>
        obtain ⟨r, work'', hr', hcases⟩ | ⟨e, he, hmax⟩ := ih work'
        · refine .inl ⟨r, work'', hr', ?_⟩
          obtain ⟨rfl, hnone⟩ | ⟨before, pass', after, rfl, hsome, hfirst', hbefore⟩ := hcases
          · exact .inl ⟨rfl, List.forall_mem_cons.mpr ⟨hfirst, hnone⟩⟩
          · exact .inr ⟨pass :: before, pass', after, rfl, hsome, hfirst',
              List.forall_mem_cons.mpr ⟨hfirst, hbefore⟩⟩
        · exact .inr ⟨e, he, by omega⟩
    · rw [he]
      exact .inr ⟨e, rfl, by omega⟩

/-- The positions at which a pattern is sought: where it fits, from the start of the search on, or
only where it ends with the file. -/
def InWindow (lines pattern : List String) (start : ℕ) (eof : Bool) (i : ℕ) : Prop :=
  i + pattern.length ≤ lines.length ∧
    if eof then i + pattern.length = lines.length else start ≤ i

/-- The first place of a pattern in the strictest pass in which it has one. -/
structure Found (lines pattern : List String) (start : ℕ) (eof : Bool) (pass : MatchPass)
    (i : ℕ) : Prop where
  window : InWindow lines pattern start eof i
  hit : Matches lines pattern pass i
  first : ∀ j, InWindow lines pattern start eof j → Matches lines pattern pass j → i ≤ j
  strictest : ∀ pass' j, InWindow lines pattern start eof j → Matches lines pattern pass' j →
    pass.rank ≤ pass'.rank

/-- A position in the window is one of those that the passes go through. -/
theorem inWindow_iff {start i : ℕ} {eof : Bool} (hlen : pattern.length ≤ lines.length) :
    let last := lines.length - pattern.length
    let first := if eof then last else start
    InWindow lines pattern start eof i ↔ first ≤ i ∧ i < first + (last + 1 - first) := by
  cases eof with
  | false =>
    simp only [InWindow, Bool.false_eq_true, if_false]
    omega
  | true =>
    simp only [InWindow, if_true]
    omega

/-- The passes of a search, in their order. -/
theorem rank_le_of_passes {before after : List MatchPass} {pass : MatchPass}
    (h : [.exact, .trimmedEnd, .trimmed, .punctuation] = before ++ pass :: after)
    {pass' : MatchPass} (hnot : pass' ∉ before) : pass.rank ≤ pass'.rank := by
  have hsorted : [MatchPass.exact, .trimmedEnd, .trimmed, .punctuation].Pairwise
      fun p q => p.rank < q.rank := by decide
  have hmem : pass' ∈ [MatchPass.exact, .trimmedEnd, .trimmed, .punctuation] := by
    cases pass' <;> decide
  rw [h] at hsorted hmem
  obtain hbefore | hrest := List.mem_append.mp hmem
  · exact absurd hbefore hnot
  · obtain rfl | hafter := List.mem_cons.mp hrest
    · exact le_rfl
    · have htail := (List.pairwise_append.mp hsorted).2.1
      exact ((List.pairwise_cons.mp htail).1 pass' hafter).le

theorem MatchPass.rank_injective : Function.Injective rank := by
  rintro (_ | _ | _ | _) (_ | _ | _ | _) h <;> first | rfl | cases h

/-- There is at most one such place. -/
theorem Found.unique {start : ℕ} {eof : Bool} {pass pass' : MatchPass} {i j : ℕ}
    (h : Found lines pattern start eof pass i) (h' : Found lines pattern start eof pass' j) :
    i = j := by
  have hle := h.strictest pass' j h'.window h'.hit
  have hge := h'.strictest pass i h.window h.hit
  obtain rfl := MatchPass.rank_injective (hle.antisymm hge)
  exact (h.first j h'.window h'.hit).antisymm (h'.first i h.window h.hit)

/-- A pass that finds nothing passes over the whole window. -/
theorem not_matches_of_first {start : ℕ} {eof : Bool} {i n j : ℕ} {pass : MatchPass}
    (hwindow : ∀ k, InWindow lines pattern start eof k ↔ i ≤ k ∧ k < i + n)
    (hfirst : First (matchesAt lines pattern pass) i n none)
    (hj : InWindow lines pattern start eof j) : ¬Matches lines pattern pass j := by
  intro hmatch
  cases hfirst with
  | miss hnone =>
    have hnot := hnone j ((hwindow j).mp hj).1 ((hwindow j).mp hj).2
    rw [(matchesAt_iff hj.1).mpr hmatch] at hnot
    cases hnot

/-- What a search finds, given what its passes find. -/
theorem found_of_first {start : ℕ} {eof : Bool} {i n j : ℕ}
    (hwindow : ∀ k, InWindow lines pattern start eof k ↔ i ≤ k ∧ k < i + n)
    {before after : List MatchPass} {pass : MatchPass}
    (hpasses : [.exact, .trimmedEnd, .trimmed, .punctuation] = before ++ pass :: after)
    (hfirst : First (matchesAt lines pattern pass) i n (some j))
    (hbefore : ∀ pass' ∈ before, First (matchesAt lines pattern pass') i n none) :
    Found lines pattern start eof pass j := by
  obtain ⟨hlo, hhi, hj, hmin⟩ := hfirst
  have hj' := (hwindow j).mpr ⟨hlo, hhi⟩
  refine ⟨hj', (matchesAt_iff hj'.1).mp hj, fun k hk hmatch => ?_, fun pass' k hk hmatch => ?_⟩
  · by_contra hlt
    have hnot := hmin k ((hwindow k).mp hk).1 (Nat.lt_of_not_le hlt)
    rw [(matchesAt_iff hk.1).mpr hmatch] at hnot
    cases hnot
  · refine rank_le_of_passes hpasses fun hmem => ?_
    exact not_matches_of_first hwindow (hbefore pass' hmem) hk hmatch

/-- A search finds the first place of the pattern in the strictest pass in which it has one, or the
pattern has no place in the window, or there is too much work to do. -/
theorem seek_cases (lines pattern : List String) (start : ℕ) (eof : Bool) (work : ℕ) :
    (∃ r work', seek lines pattern start eof work = .ok (r, work') ∧
        ((r = none ∧ ∀ pass i, InWindow lines pattern start eof i →
            ¬Matches lines pattern pass i) ∨
          ∃ pass i, r = some i ∧ Found lines pattern start eof pass i)) ∨
      ∃ e, seek lines pattern start eof work = .error e ∧
        maxMatchWork < work + 4 * ((lines.length + 1 - pattern.length) * pattern.length) := by
  rw [seek]
  by_cases hlen : lines.length < pattern.length
  · rw [if_pos hlen]
    refine .inl ⟨none, work, rfl, .inl ⟨rfl, fun pass i hi => ?_⟩⟩
    exact absurd hi.1 (by omega)
  · rw [if_neg hlen]
    have hwindow := fun i => @inWindow_iff lines pattern start i eof (Nat.le_of_not_lt hlen)
    dsimp only at hwindow ⊢
    generalize hfirst : (if eof = true then lines.length - pattern.length else start) = first
    rw [hfirst] at hwindow
    generalize hn : lines.length - pattern.length + 1 - first = n at hwindow ⊢
    obtain ⟨r, work', hr, hcases⟩ | ⟨e, he, hmax⟩ := seekPasses_spec lines pattern first n
      [.exact, .trimmedEnd, .trimmed, .punctuation] work
    · refine .inl ⟨r, work', hr, ?_⟩
      obtain ⟨rfl, hnone⟩ | ⟨before, pass, after, hpasses, hsome, hhit, hbefore⟩ := hcases
      · exact .inl ⟨rfl, fun pass i hi =>
          not_matches_of_first hwindow (hnone pass (by cases pass <;> decide)) hi⟩
      · obtain ⟨j, rfl⟩ := Option.isSome_iff_exists.mp hsome
        exact .inr ⟨pass, j, rfl, found_of_first hwindow hpasses hhit hbefore⟩
    · refine .inr ⟨e, he, hmax.trans_le ?_⟩
      have hwork := Nat.mul_le_mul_right pattern.length
        (show n ≤ lines.length + 1 - pattern.length by omega)
      simp only [List.length_cons, List.length_nil]
      omega

/-- **The search for lines.** Unless there is too much work to do, a search finds the first place
of the pattern in the strictest pass in which it has one, and finds none only if the pattern
occurs nowhere in the window in any pass. What occurs in a pass occurs in the more lenient ones. -/
theorem seek_spec (lines pattern : List String) (start : ℕ) (eof : Bool) (work : ℕ) :
    ((∃ r work', seek lines pattern start eof work = .ok (r, work') ∧
        (∀ i, r = some i ↔ ∃ pass, Found lines pattern start eof pass i) ∧
        (r = none ↔ ∀ pass i, InWindow lines pattern start eof i →
          ¬Matches lines pattern pass i)) ∨
      ∃ e, seek lines pattern start eof work = .error e ∧
        maxMatchWork < work + 4 * ((lines.length + 1 - pattern.length) * pattern.length)) ∧
    ∀ pass pass' i, pass.rank ≤ pass'.rank → Matches lines pattern pass i →
      Matches lines pattern pass' i := by
  refine ⟨?_, fun pass pass' i hle h => h.mono hle⟩
  obtain ⟨r, work', hr, hcases⟩ | herror := seek_cases lines pattern start eof work
  · refine .inl ⟨r, work', hr, ?_⟩
    obtain ⟨rfl, hnone⟩ | ⟨pass, j, rfl, hfound⟩ := hcases
    · refine ⟨fun i => ⟨nofun, ?_⟩, fun _ => hnone, fun _ => rfl⟩
      rintro ⟨pass, hfound⟩
      exact absurd hfound.hit (hnone pass i hfound.window)
    · refine ⟨fun i => ⟨?_, ?_⟩, nofun, fun hnone => ?_⟩
      · rintro ⟨⟩
        exact ⟨pass, hfound⟩
      · rintro ⟨pass', hfound'⟩
        rw [hfound.unique hfound']
      · exact absurd hfound.hit (hnone pass j hfound.window)
  · exact .inr herror

/-- An exact match counts more than an earlier one up to white space. -/
example : seek ["a ", "b", "a"] ["a"] 0 false 0 = .ok (some 2, 3) := by rfl

end ExecutionProvider.Patch

import ExecutionProvider.Patch.Search

/-!
# The result of a Codex update

The ranges that the chunks of an update match lie inside the file and are apart from each other,
so that splicing them in one after another replaces them simultaneously. The text that comes out
is made of the lines of the file with each matched range replaced, every line followed by a
newline, unless the last of these lines is empty: then one newline is missing.

## Main definitions

* `ChunkMatch`: what a range has to do with the chunk it is recorded for.
* `MatchState.Valid`, `MatchState.Increasing`: the invariants of the loop over the chunks.
* `terminated`: the text of lines each followed by a newline.

## Main results

* `applyCodex_eq_joinLines`: the text after an update, with all ranges replaced simultaneously.
* `splice_matched_ranges`: how the ranges lie, and that splicing them replaces them all.
* `applyCodex_eq_terminated_iff`: when that text is the replaced lines, each with its newline.
-/

namespace ExecutionProvider.Patch

open List (Replacement substitute uncovered)

variable {lines pattern : List String} {work work' : ℕ}

/-! ### What a search finds -/

/-- A search finds its pattern inside the file. -/
theorem seek_eq_some {start i : ℕ} {eof : Bool}
    (h : seek lines pattern start eof work = .ok (some i, work')) :
    i + pattern.length ≤ lines.length ∧ ∃ pass, matchesAt lines pattern pass i = true := by
  obtain ⟨r, work'', hr, hcases⟩ | ⟨e, he, -⟩ := seek_cases lines pattern start eof work
  · obtain ⟨rfl, -⟩ := Prod.mk.inj (Except.ok.inj (hr.symm.trans h))
    obtain ⟨hnone, -⟩ | ⟨pass, j, hj, hfound⟩ := hcases
    · cases hnone
    · obtain rfl := Option.some.inj hj
      exact ⟨hfound.window.1, pass, (matchesAt_iff hfound.window.1).mpr hfound.hit⟩
  · cases he.symm.trans h

/-! ### The ranges of the chunks -/

/-- What a range has to do with the chunk it is recorded for: a chunk without expected lines is
inserted at the end of the file, any other takes the place of lines that agree with its expected
lines in some pass, the empty line at their end left out where it stands for the newline at the
end of the file. -/
inductive ChunkMatch (lines : List String) (chunk : Chunk) : Replacement String → Prop
  | insertion (hold : chunk.old = []) : ChunkMatch lines chunk ⟨lines.length, 0, chunk.new⟩
  | range {i : ℕ} {pass : MatchPass} (hold : chunk.old ≠ [])
      (hi : i + chunk.old.length ≤ lines.length)
      (hm : matchesAt lines chunk.old pass i = true) :
      ChunkMatch lines chunk ⟨i, chunk.old.length, chunk.new⟩
  | sentinel {i : ℕ} {pass : MatchPass} (hlast : chunk.old.getLast? = some "")
      (hi : i + chunk.old.dropLast.length ≤ lines.length)
      (hm : matchesAt lines chunk.old.dropLast pass i = true) :
      ChunkMatch lines chunk ⟨i, chunk.old.dropLast.length, dropSentinel chunk.new⟩

theorem chunkMatch_of_seekOld {n cursor : ℕ} {chunk : Chunk} {r : Replacement String}
    (hold : chunk.old ≠ []) (h : seekOld lines n chunk cursor work = .ok (r, work')) :
    ChunkMatch lines chunk r := by
  rw [seekOld] at h
  split at h
  · cases h
  · next i w hseek =>
    obtain ⟨rfl, -⟩ : _ = r ∧ _ := by simpa using h
    obtain ⟨hi, pass, hm⟩ := seek_eq_some hseek
    exact .range hold hi hm
  · split_ifs at h with hlast
    split at h
    · cases h
    · next i w hseek =>
      obtain ⟨hi, pass, hm⟩ := seek_eq_some hseek
      obtain ⟨rfl, -⟩ := Prod.mk.inj (Except.ok.inj h)
      exact .sentinel hlast hi hm
    · cases h

/-- What holds of the recorded ranges in every round of the loop: they are apart and inside the
file, and end where the last matched range ends, except for insertions at the end of the file. -/
structure MatchState.Valid (lines : List String) (s : MatchState) : Prop where
  apart : s.replacements.Pairwise Replacement.Apart
  bounded : ∀ r ∈ s.replacements, r.stop ≤ lines.length
  ended : ∀ r ∈ s.replacements, r.stop ≤ s.lastEnd ∨ r.start = lines.length

theorem MatchState.Valid.insertion {s : MatchState} (h : s.Valid lines) (cursor : ℕ)
    (new : List String) (work : ℕ) :
    MatchState.Valid lines { s with
      cursor := cursor
      work := work
      replacements := s.replacements ++ [⟨lines.length, 0, new⟩] } where
  apart := by
    refine List.pairwise_append.mpr ⟨h.apart, List.pairwise_singleton _ _, fun r hr r' hr' => ?_⟩
    rw [List.mem_singleton.mp hr']
    exact Or.inl (h.bounded r hr)
  bounded r hr := by
    rcases List.mem_append.mp hr with hr | hr
    · exact h.bounded r hr
    · rw [List.mem_singleton.mp hr]
      exact le_rfl
  ended r hr := by
    rcases List.mem_append.mp hr with hr | hr
    · exact h.ended r hr
    · rw [List.mem_singleton.mp hr]
      exact Or.inr rfl

theorem MatchState.Valid.range {s : MatchState} (h : s.Valid lines) {r : Replacement String}
    (hlast : s.lastEnd ≤ r.start) (hb : r.stop ≤ lines.length) (work : ℕ) :
    MatchState.Valid lines ⟨r.stop, r.stop, s.replacements ++ [r], work⟩ where
  apart := by
    refine List.pairwise_append.mpr
      ⟨h.apart, List.pairwise_singleton _ _, fun r₀ hr₀ r' hr' => ?_⟩
    rw [List.mem_singleton.mp hr']
    have hb₀ := h.bounded r₀ hr₀
    have hle : r.start ≤ r.stop := Nat.le_add_right _ _
    rcases h.ended r₀ hr₀ with h₀ | h₀
    · exact Or.inl (by omega)
    · by_cases hend : r.start = lines.length
      · exact Or.inl (by omega)
      · exact Or.inr (by omega)
  bounded r₀ hr₀ := by
    rcases List.mem_append.mp hr₀ with hr₀ | hr₀
    · exact h.bounded r₀ hr₀
    · rwa [List.mem_singleton.mp hr₀]
  ended r₀ hr₀ := by
    have hle : r.start ≤ r.stop := Nat.le_add_right _ _
    rcases List.mem_append.mp hr₀ with hr₀ | hr₀
    · exact (h.ended r₀ hr₀).imp_left fun h₀ => show r₀.stop ≤ r.stop by omega
    · rw [List.mem_singleton.mp hr₀]
      exact Or.inl le_rfl

/-- One round records one range, which matches the chunk of the round. -/
theorem matchChunk_eq_ok {n : ℕ} {chunk : Chunk} {s s' : MatchState}
    (h : matchChunk lines n chunk s = .ok s') :
    (∃ r, s'.replacements = s.replacements ++ [r] ∧ ChunkMatch lines chunk r) ∧
      (s.Valid lines → s'.Valid lines) := by
  rw [matchChunk] at h
  split at h
  · cases h
  · split_ifs at h with hold
    · obtain rfl : _ = s' := by simpa using h
      exact ⟨⟨_, rfl, .insertion hold⟩, fun hs => hs.insertion _ _ _⟩
    · split at h
      · cases h
      · next r w hseek =>
        split_ifs at h with hrange
        obtain rfl : _ = s' := by simpa using h
        simp only [not_or, not_lt] at hrange
        exact ⟨⟨r, rfl, chunkMatch_of_seekOld hold hseek⟩,
          fun hs => hs.range hrange.2.1 hrange.2.2 _⟩

/-- The loop records one range for every chunk. -/
theorem matchLoop_eq_ok : {n : ℕ} → {chunks : List Chunk} → {s s' : MatchState} →
    matchLoop lines n chunks s = .ok s' →
    (∃ R, s'.replacements = s.replacements ++ R ∧
      List.Forall₂ (ChunkMatch lines) chunks R) ∧ (s.Valid lines → s'.Valid lines)
  | n, [], s, s', h => by
    obtain rfl : s = s' := by simpa [matchLoop] using h
    exact ⟨⟨[], (List.append_nil _).symm, .nil⟩, id⟩
  | n, chunk :: chunks, s, s', h => by
    rw [matchLoop] at h
    split at h
    · cases h
    · next s₁ hround =>
      obtain ⟨⟨r, hr, hmatch⟩, hvalid⟩ := matchChunk_eq_ok hround
      obtain ⟨⟨R, hR, hall⟩, hvalid'⟩ := matchLoop_eq_ok h
      refine ⟨⟨r :: R, ?_, .cons hmatch hall⟩, hvalid' ∘ hvalid⟩
      rw [hR, hr, List.append_assoc, List.singleton_append]

/-- The ranges that the chunks match are apart and inside the file. -/
theorem matchChunks_eq_ok {chunks : List Chunk} {R : List (Replacement String)}
    (h : matchChunks lines chunks work = .ok (R, work')) :
    List.Forall₂ (ChunkMatch lines) chunks R ∧ R.Pairwise Replacement.Apart ∧
      ∀ r ∈ R, r.stop ≤ lines.length := by
  rw [matchChunks] at h
  split at h
  · cases h
  · next s hloop =>
    obtain ⟨rfl, -⟩ : s.replacements = R ∧ _ := by simpa using h
    obtain ⟨⟨R, hR, hall⟩, hvalid⟩ := matchLoop_eq_ok hloop
    have hs : s.Valid lines := hvalid ⟨.nil, by simp, by simp⟩
    exact ⟨by rwa [hR], hs.apart, hs.bounded⟩

/-! ### The order of the ranges -/

/-- The recorded ranges that are not empty, in the order of the chunks. -/
def MatchState.nonempty (s : MatchState) : List (Replacement String) :=
  s.replacements.filter fun r => 0 < r.count

/-- Ranges that are not empty follow each other, up to the end of the last one. -/
structure MatchState.Increasing (s : MatchState) : Prop where
  ordered : s.nonempty.Pairwise fun r r' => r.stop ≤ r'.start
  ended : ∀ r ∈ s.nonempty, r.stop ≤ s.lastEnd

theorem MatchState.Increasing.insertion {s : MatchState} (h : s.Increasing) (cursor start : ℕ)
    (new : List String) (work : ℕ) :
    MatchState.Increasing { s with
      cursor := cursor
      work := work
      replacements := s.replacements ++ [⟨start, 0, new⟩] } := by
  have hsame : MatchState.nonempty { s with
      cursor := cursor
      work := work
      replacements := s.replacements ++ [⟨start, 0, new⟩] } = s.nonempty := by
    rw [nonempty, List.filter_append]
    exact List.append_nil _
  exact ⟨by rw [hsame]; exact h.ordered, by rw [hsame]; exact h.ended⟩

theorem MatchState.Increasing.range {s : MatchState} (h : s.Increasing) {r : Replacement String}
    (hlast : s.lastEnd ≤ r.start) (work : ℕ) :
    MatchState.Increasing ⟨r.stop, r.stop, s.replacements ++ [r], work⟩ := by
  have hle : r.start ≤ r.stop := Nat.le_add_right _ _
  have hnonempty : MatchState.nonempty ⟨r.stop, r.stop, s.replacements ++ [r], work⟩ =
      s.nonempty ++ [r].filter fun r => 0 < r.count := List.filter_append _ _
  have hmem (r' : Replacement String) (hr' : r' ∈ [r].filter fun r => 0 < r.count) : r' = r :=
    List.mem_singleton.mp (List.mem_of_mem_filter hr')
  constructor
  · rw [hnonempty]
    refine List.pairwise_append.mpr
      ⟨h.ordered, (List.pairwise_singleton _ _).sublist List.filter_sublist, ?_⟩
    intro r₀ hr₀ r' hr'
    rw [hmem r' hr']
    exact (h.ended r₀ hr₀).trans hlast
  · intro r₀ hr₀
    rw [hnonempty] at hr₀
    rcases List.mem_append.mp hr₀ with hr₀ | hr₀
    · exact ((h.ended r₀ hr₀).trans hlast).trans hle
    · exact (hmem r₀ hr₀).symm ▸ le_rfl

theorem MatchState.Increasing.matchChunk {n : ℕ} {chunk : Chunk} {s s' : MatchState}
    (hs : s.Increasing) (h : matchChunk lines n chunk s = .ok s') : s'.Increasing := by
  rw [Patch.matchChunk] at h
  split at h
  · cases h
  · split_ifs at h with hold
    · obtain rfl : _ = s' := by simpa using h
      exact hs.insertion _ _ _ _
    · split at h
      · cases h
      · next r w hseek =>
        split_ifs at h with hrange
        obtain rfl : _ = s' := by simpa using h
        simp only [not_or, not_lt] at hrange
        exact hs.range hrange.2.1 _

theorem MatchState.Increasing.matchLoop : {n : ℕ} → {chunks : List Chunk} → {s s' : MatchState} →
    s.Increasing → matchLoop lines n chunks s = .ok s' → s'.Increasing
  | n, [], s, s', hs, h => by
    obtain rfl : s = s' := by simpa [Patch.matchLoop] using h
    exact hs
  | n, chunk :: chunks, s, s', hs, h => by
    rw [Patch.matchLoop] at h
    split at h
    · cases h
    · next s₁ hround => exact (hs.matchChunk hround).matchLoop h

/-- The ranges that are not empty are matched in increasing order. -/
theorem pairwise_of_matchChunks {chunks : List Chunk} {R : List (Replacement String)}
    (h : matchChunks lines chunks work = .ok (R, work')) :
    (R.filter fun r => 0 < r.count).Pairwise fun r r' => r.stop ≤ r'.start := by
  rw [matchChunks] at h
  split at h
  · cases h
  · next s hloop =>
    obtain ⟨rfl, -⟩ : s.replacements = R ∧ _ := by simpa using h
    have hstart : MatchState.Increasing ⟨0, 0, [], work⟩ := ⟨.nil, nofun⟩
    exact (hstart.matchLoop hloop).ordered

/-! ### The text that comes out -/

/-- The text of the given lines, each followed by a newline. -/
def terminated (lines : List String) : String := String.join (lines.map (· ++ "\n"))

@[simp] theorem terminated_nil : terminated [] = "" := rfl

theorem terminated_append (l l' : List String) :
    terminated (l ++ l') = terminated l ++ terminated l' := by
  simp [terminated, String.join_append]

theorem intercalate_append_blank :
    (l : List String) → "\n".intercalate (l ++ [""]) = terminated l
  | [] => String.intercalate_singleton
  | s :: l => by
    rw [List.cons_append, String.intercalate_cons_of_ne_nil (by simp),
      intercalate_append_blank l]
    simp [terminated, String.join_cons, String.append_assoc]

/-- With no empty line at the end, every line gets its newline. -/
theorem joinLines_of_getLast?_ne {l : List String} (h : l.getLast? ≠ some "") :
    joinLines l = terminated l := by
  rw [joinLines, if_neg h, intercalate_append_blank]

/-- An empty line at the end is lost. -/
theorem joinLines_append_blank (l : List String) : joinLines (l ++ [""]) = terminated l := by
  rw [joinLines, if_pos (by simp), intercalate_append_blank]

theorem joinLines_eq_terminated_iff (l : List String) :
    joinLines l = terminated l ↔ l.getLast? ≠ some "" := by
  refine ⟨fun h hlast => ?_, joinLines_of_getLast?_ne⟩
  obtain ⟨l', rfl⟩ : ∃ l', l = l' ++ [""] := by
    obtain ⟨l', hl'⟩ := List.getLast?_eq_some_iff.mp hlast
    exact ⟨l', hl'⟩
  rw [joinLines_append_blank, terminated_append] at h
  have hlen := congrArg String.length h
  rw [String.length_append] at hlen
  have : (terminated [""]).length = 1 := by decide
  omega

/-- The text after an update is made of the lines of the file with all matched ranges replaced
simultaneously. -/
theorem applyCodex_eq_joinLines {text out : String} {chunks : List Chunk}
    (h : applyCodex text chunks work = .ok (out, work')) :
    ∃ R, matchChunks (textLines text) chunks work = .ok (R, work') ∧
      out = joinLines (substitute (textLines text) R) := by
  rw [applyCodex] at h
  split at h
  · cases h
  · next R w hmatch =>
    obtain ⟨rfl, rfl⟩ : _ = out ∧ w = work' := by simpa using h
    obtain ⟨-, hapart, hbound⟩ := matchChunks_eq_ok hmatch
    exact ⟨R, hmatch, by rw [List.foldr_splice_sortByStart hapart hbound]⟩

/-- **The result of an update.** The chunks match ranges inside the file that are apart from each
other. The text that comes out is the lines of the file with each matched range replaced, every
line followed by a newline and the lines outside all ranges among them in order, exactly when
the last of these lines is not empty. -/
theorem applyCodex_eq_terminated_iff {text out : String} {chunks : List Chunk}
    (h : applyCodex text chunks work = .ok (out, work')) :
    ∃ R, matchChunks (textLines text) chunks work = .ok (R, work') ∧
      List.Forall₂ (ChunkMatch (textLines text)) chunks R ∧
      R.Pairwise Replacement.Apart ∧ (∀ r ∈ R, r.stop ≤ (textLines text).length) ∧
      (uncovered (textLines text) R).Sublist (substitute (textLines text) R) ∧
      (out = terminated (substitute (textLines text) R) ↔
        (substitute (textLines text) R).getLast? ≠ some "") := by
  obtain ⟨R, hmatch, rfl⟩ := applyCodex_eq_joinLines h
  obtain ⟨hall, hapart, hbound⟩ := matchChunks_eq_ok hmatch
  exact ⟨R, hmatch, hall, hapart, hbound, List.uncovered_sublist_substitute _ _,
    joinLines_eq_terminated_iff _⟩

/-- The update of the first line of a file of two lines. -/
theorem applyCodex_eq_terminated_iff_two_lines :
    ∃ R, matchChunks (textLines "a\nb\n") [⟨none, ["a"], ["c"], false⟩] 0 = .ok (R, 1) ∧
      ("c\nb\n" = terminated (substitute (textLines "a\nb\n") R) ↔
        (substitute (textLines "a\nb\n") R).getLast? ≠ some "") := by
  have h : applyCodex "a\nb\n" [⟨none, ["a"], ["c"], false⟩] 0 = .ok ("c\nb\n", 1) := by rfl
  obtain ⟨R, hmatch, -, -, -, -, hiff⟩ := applyCodex_eq_terminated_iff h
  exact ⟨R, hmatch, hiff⟩

/-- **Splicing the matched ranges.** Whenever all chunks match, one range is recorded for each of
them, in their order, with its new lines. The ranges lie inside the file, and those that are not
empty follow each other. Splicing in from the last range to the first never leaves the lines, and
gives the lines with all ranges replaced simultaneously. Of two ranges that start at one position,
the one recorded first is an insertion: so insertions stand in the order of the chunks, before the
replacement of a range that starts there. -/
theorem splice_matched_ranges {text : String} {chunks : List Chunk}
    {R : List (Replacement String)}
    (h : matchChunks (textLines text) chunks work = .ok (R, work')) :
    List.Forall₂ (ChunkMatch (textLines text)) chunks R ∧
      (∀ r ∈ R, r.stop ≤ (textLines text).length) ∧
      (R.filter fun r => 0 < r.count).Pairwise (fun r r' => r.stop ≤ r'.start) ∧
      R.Pairwise (fun r r' => r.start = r'.start → r.count = 0) ∧
      (List.sortByStart R).foldrM (fun r lines => lines.splice? r) (textLines text) =
        some (substitute (textLines text) R) ∧
      applyCodex text chunks work = .ok (joinLines (substitute (textLines text) R), work') := by
  obtain ⟨hall, hapart, hbound⟩ := matchChunks_eq_ok h
  refine ⟨hall, hbound, pairwise_of_matchChunks h, hapart.imp fun hr => hr.count_eq_zero,
    List.foldrM_splice?_sortByStart hapart hbound, ?_⟩
  rw [applyCodex, h]
  exact congrArg (fun lines => Except.ok (joinLines lines, work'))
    (List.foldr_splice_sortByStart hapart hbound)

/-- An insertion at the end of the file, the update of its second line, and another insertion. -/
def tailChunks : List Chunk :=
  [⟨none, [], ["d"], false⟩, ⟨none, ["b"], ["B"], false⟩, ⟨none, [], ["e"], false⟩]

/-- The insertions stand in the order of their chunks. -/
theorem splice_matched_ranges_tail :
    ∃ R, List.Forall₂ (ChunkMatch (textLines "a\nb\nc\n")) tailChunks R ∧
      (List.sortByStart R).foldrM (fun r lines => lines.splice? r) (textLines "a\nb\nc\n") =
        some ["a", "B", "c", "d", "e"] := by
  have h : matchChunks (textLines "a\nb\nc\n") tailChunks 0 =
      .ok ([⟨3, 0, ["d"]⟩, ⟨1, 1, ["B"]⟩, ⟨3, 0, ["e"]⟩], 2) := by
    rfl
  obtain ⟨hall, -, -, -, hsplice, -⟩ := splice_matched_ranges h
  exact ⟨_, hall, hsplice.trans (by rfl)⟩

/-- A blank line at the end of the file is lost in an update that does not reach it. -/
theorem not_forall_applyCodex_eq_terminated :
    ¬ ∀ (text out : String) (chunks : List Chunk) (work work' : ℕ)
      (R : List (Replacement String)),
      applyCodex text chunks work = .ok (out, work') →
      matchChunks (textLines text) chunks work = .ok (R, work') →
      out = terminated (substitute (textLines text) R) := by
  intro h
  have hout := h "a\n\n" "b\n" [⟨none, ["a"], ["b"], false⟩] 0 1 [⟨0, 1, ["b"]⟩] (by rfl) (by rfl)
  exact absurd hout (by decide)

end ExecutionProvider.Patch

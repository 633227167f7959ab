import ExecutionProvider.Patch.RoundTrip

/-!
# The payloads of a patch

What stands behind the plus sign, the minus sign or the blank at the front of a line of a patch
is the payload of that line. Another payload leads to the same sections with one line changed,
except in one place: directly behind the header of an update, where the parser looks for a move,
a line that is kept may turn into one.

## Main definitions

* `UpdateLine.Differs`, `Chunk.Differs`, `Section.Differs`: one line that differs.
* `IsBodyLine`: a line that the parser takes for content.
* `TurnsIntoMove`: the exception.

## Main results

* `payload_opaque_iff`: a payload is opaque unless its line turns into a move.
-/

namespace ExecutionProvider.Patch

/-! ### One line that differs -/

/-- Two lines of one kind with given payloads. -/
inductive UpdateLine.Differs (t t' : String) : UpdateLine → UpdateLine → Prop
  | added : Differs t t' (.added t) (.added t')
  | removed : Differs t t' (.removed t) (.removed t')
  | context : Differs t t' (.context t) (.context t')

/-- Two chunks that differ in one line, on the side or sides on which it stands. -/
inductive Chunk.Differs (t t' : String) : Chunk → Chunk → Prop
  | added (anchor : Option String) (old new new' : List String) (eof : Bool) :
    Differs t t' ⟨anchor, old, new ++ t :: new', eof⟩ ⟨anchor, old, new ++ t' :: new', eof⟩
  | removed (anchor : Option String) (old old' new : List String) (eof : Bool) :
    Differs t t' ⟨anchor, old ++ t :: old', new, eof⟩ ⟨anchor, old ++ t' :: old', new, eof⟩
  | context (anchor : Option String) (old old' new new' : List String) (eof : Bool) :
    Differs t t' ⟨anchor, old ++ t :: old', new ++ t :: new', eof⟩
      ⟨anchor, old ++ t' :: old', new ++ t' :: new', eof⟩

/-- Two lists that agree but for two elements at one place. -/
def DifferAt {α : Type} (R : α → α → Prop) (l l' : List α) : Prop :=
  ∃ before x x' after, l = before ++ x :: after ∧ l' = before ++ x' :: after ∧ R x x'

/-- Two sections of one kind, with the same paths, that differ in one line. -/
inductive Section.Differs (t t' : String) : Section → Section → Prop
  | add {path : String} {lines lines' : List String}
      (h : DifferAt (fun l l' => l = t ∧ l' = t') lines lines') :
    Differs t t' (.add path (terminated lines)) (.add path (terminated lines'))
  | update {path : String} {moveTo : Option String} {chunks chunks' : List Chunk}
      (h : DifferAt (Chunk.Differs t t') chunks chunks') :
    Differs t t' (.update path moveTo chunks) (.update path moveTo chunks')

theorem Section.Differs.moveTo_eq {t t' : String} {s s' : Section} (h : s.Differs t t' s') :
    s.moveTo = s'.moveTo := by
  cases h <;> rfl

section DifferAt

variable {α : Type} {R : α → α → Prop} {l l' : List α}

theorem DifferAt.snoc {x x' : α} (l : List α) (h : R x x') : DifferAt R (l ++ [x]) (l ++ [x']) :=
  ⟨l, x, x', [], rfl, rfl, h⟩

theorem DifferAt.append (h : DifferAt R l l') (m : List α) : DifferAt R (l ++ m) (l' ++ m) := by
  obtain ⟨before, x, x', after, rfl, rfl, hR⟩ := h
  exact ⟨before, x, x', after ++ m, by simp, by simp, hR⟩

theorem DifferAt.prepend (h : DifferAt R l l') (m : List α) : DifferAt R (m ++ l) (m ++ l') := by
  obtain ⟨before, x, x', after, rfl, rfl, hR⟩ := h
  exact ⟨m ++ before, x, x', after, by simp, by simp, hR⟩

theorem DifferAt.map {β : Type} {S : β → β → Prop} {f : α → β} (h : DifferAt R l l')
    (hf : ∀ x x', R x x' → S (f x) (f x')) : DifferAt S (l.map f) (l'.map f) := by
  obtain ⟨before, x, x', after, rfl, rfl, hR⟩ := h
  exact ⟨before.map f, f x, f x', after.map f, by simp, by simp, hf x x' hR⟩

theorem DifferAt.map_eq {β : Type} {f : α → β} (h : DifferAt R l l')
    (hf : ∀ x x', R x x' → f x = f x') : l.map f = l'.map f := by
  obtain ⟨before, x, x', after, rfl, rfl, hR⟩ := h
  rw [List.map_append, List.map_append, List.map_cons, List.map_cons, hf x x' hR]

theorem DifferAt.ne_nil (h : DifferAt R l l') : l ≠ [] ∧ l' ≠ [] := by
  obtain ⟨before, x, x', after, rfl, rfl, -⟩ := h
  exact ⟨by simp, by simp⟩

end DifferAt

/-! ### The chunks of lines that differ -/

section Chunks

variable {t t' : String}

/-- A chunk that differs in a line has lines. -/
theorem Chunk.Differs.ne_nil {c c' : Chunk} (h : c.Differs t t' c') :
    (c.old ≠ [] ∨ c.new ≠ []) ∧ (c'.old ≠ [] ∨ c'.new ≠ []) := by
  cases h <;> simp

/-- Variables of the loop that differ in one line: of the current chunk, or of one before it. -/
inductive UpdateState.Differs (t t' : String) : UpdateState → UpdateState → Prop
  | current {chunks : List Chunk} {c c' : Chunk} (h : c.Differs t t' c') :
    Differs t t' ⟨chunks, c, true⟩ ⟨chunks, c', true⟩
  | past {chunks chunks' : List Chunk} {c : Chunk} {active : Bool}
      (h : DifferAt (Chunk.Differs t t') chunks chunks') :
    Differs t t' ⟨chunks, c, active⟩ ⟨chunks', c, active⟩

theorem UpdateState.Differs.finish {s s' : UpdateState} (h : s.Differs t t' s') :
    DifferAt (Chunk.Differs t t') s.finish s'.finish := by
  cases h with
  | @current chunks c c' h =>
    have hfilled : UpdateState.filled ⟨chunks, c, true⟩ = true := by
      simpa [filled] using h.ne_nil.1
    have hfilled' : UpdateState.filled ⟨chunks, c', true⟩ = true := by
      simpa [filled] using h.ne_nil.2
    rw [UpdateState.finish, UpdateState.finish, if_pos hfilled, if_pos hfilled']
    exact .snoc chunks h
  | @past chunks chunks' c active h =>
    rw [UpdateState.finish, UpdateState.finish]
    by_cases hfilled : UpdateState.filled ⟨chunks, c, active⟩ = true
    · have hfilled' : UpdateState.filled ⟨chunks', c, active⟩ = true := hfilled
      rw [if_pos hfilled, if_pos hfilled']
      exact h.append [c]
    · have hfilled' : ¬ UpdateState.filled ⟨chunks', c, active⟩ = true := hfilled
      rw [if_neg hfilled, if_neg hfilled']
      exact h

/-- More lines in a chunk do not undo a difference. -/
theorem Chunk.Differs.extend {c c' : Chunk} (h : c.Differs t t' c') (old new : List String)
    (eof : Bool → Bool) :
    Chunk.Differs t t' ⟨c.anchor, c.old ++ old, c.new ++ new, eof c.eof⟩
      ⟨c'.anchor, c'.old ++ old, c'.new ++ new, eof c'.eof⟩ := by
  cases h with
  | added anchor o n n' e =>
    simpa using Chunk.Differs.added anchor (o ++ old) n (n' ++ new) (eof e)
  | removed anchor o o' n e =>
    simpa using Chunk.Differs.removed anchor o (o' ++ old) (n ++ new) (eof e)
  | context anchor o o' n n' e =>
    simpa using Chunk.Differs.context anchor o (o' ++ old) n (n' ++ new) (eof e)

theorem UpdateState.Differs.next {s s' : UpdateState} (h : s.Differs t t' s') (l : UpdateLine) :
    (s.next l).Differs t t' (s'.next l) := by
  have hfinish := h.finish
  cases h with
  | @current chunks c c' h =>
    cases l with
    | hunk anchor =>
      have hfilled : UpdateState.filled ⟨chunks, c, true⟩ = true := by
        simpa [filled] using h.ne_nil.1
      have hfilled' : UpdateState.filled ⟨chunks, c', true⟩ = true := by
        simpa [filled] using h.ne_nil.2
      rw [UpdateState.next, UpdateState.next, if_pos hfilled, if_pos hfilled']
      exact .past hfinish
    | eof => exact .current (by simpa using h.extend [] [] fun _ => true)
    | added u => exact .current (by simpa using h.extend [] [u] id)
    | removed u => exact .current (by simpa using h.extend [u] [] id)
    | context u => exact .current (h.extend [u] [u] id)
  | @past chunks chunks' c active h =>
    cases l with
    | hunk anchor =>
      have hfilled : UpdateState.filled ⟨chunks, c, active⟩ =
          UpdateState.filled ⟨chunks', c, active⟩ := rfl
      rw [UpdateState.next, UpdateState.next, hfilled]
      exact .past hfinish
    | _ => exact .past h

/-- A line starts a difference. -/
theorem UpdateState.differs_next (s : UpdateState) {l l' : UpdateLine}
    (h : UpdateLine.Differs t t' l l') : (s.next l).Differs t t' (s.next l') := by
  cases h with
  | added => exact .current (.added s.chunk.anchor s.chunk.old s.chunk.new [] s.chunk.eof)
  | removed => exact .current (.removed s.chunk.anchor s.chunk.old [] s.chunk.new s.chunk.eof)
  | context =>
    exact .current (.context s.chunk.anchor s.chunk.old [] s.chunk.new [] s.chunk.eof)

/-- Lines of an update that differ in one of them make chunks that differ in one line. -/
theorem chunksOf_differ {ls ls' : List UpdateLine}
    (h : DifferAt (UpdateLine.Differs t t') ls ls') :
    DifferAt (Chunk.Differs t t') (chunksOf ls) (chunksOf ls') := by
  obtain ⟨before, l, l', after, rfl, rfl, hl⟩ := h
  have hfold (after : List UpdateLine) : {s s' : UpdateState} → s.Differs t t' s' →
      (after.foldl UpdateState.next s).Differs t t' (after.foldl UpdateState.next s') := by
    induction after with
    | nil => exact id
    | cons l after ih => exact fun h => ih (h.next l)
  rw [chunksOf, chunksOf, List.foldl_append, List.foldl_append, List.foldl_cons, List.foldl_cons]
  exact (hfold after (UpdateState.differs_next _ hl)).finish

end Chunks

/-! ### Reading lines that differ -/

section Read

variable {t t' : String}

/-- What stands open, with one line that differs. -/
inductive ReadState.Differs (t t' : String) : ReadState → ReadState → Prop
  | adding {path : String} {ls ls' : List String}
      (h : DifferAt (fun l l' => l = t ∧ l' = t') ls ls') :
    Differs t t' (.adding path ls) (.adding path ls')
  | updating {path : String} {moveTo : Option String} {ls ls' : List UpdateLine}
      (h : DifferAt (UpdateLine.Differs t t') ls ls') :
    Differs t t' (.updating path moveTo ls) (.updating path moveTo ls')

/-- Sections as they stand in two texts, with one line that differs. -/
inductive SectionText.Differs (t t' : String) : SectionText → SectionText → Prop
  | add {path : String} {ls ls' : List String}
      (h : DifferAt (fun l l' => l = t ∧ l' = t') ls ls') :
    Differs t t' (.add path ls) (.add path ls')
  | update {path : String} {moveTo : Option String} {ls ls' : List UpdateLine}
      (h : DifferAt (UpdateLine.Differs t t') ls ls') :
    Differs t t' (.update path moveTo ls) (.update path moveTo ls')

theorem SectionText.Differs.parsed {s s' : SectionText} (h : s.Differs t t' s') :
    s.parsed.Differs t t' s'.parsed := by
  cases h with
  | add h => exact .add h
  | update h => exact .update (chunksOf_differ h)

variable {s s' : ReadState} {number : ℕ}

theorem ReadState.Differs.ends (h : s.Differs t t' s') (line : String) :
    s.ends line = s'.ends line := by
  cases h <;> rfl

theorem ReadState.Differs.close {done : List SectionText} (h : s.Differs t t' s')
    (hclose : s.close = .ok done) :
    ∃ done', s'.close = .ok done' ∧ DifferAt (SectionText.Differs t t') done done' := by
  cases h with
  | @adding path ls ls' h =>
    obtain rfl : _ = done := Except.ok.inj hclose
    exact ⟨_, rfl, .snoc [] (.add h)⟩
  | @updating path moveTo ls ls' h =>
    obtain ⟨hne, hne'⟩ := (chunksOf_differ h).ne_nil
    rw [ReadState.close_updating hne] at hclose
    obtain rfl : _ = done := Except.ok.inj hclose
    exact ⟨_, ReadState.close_updating hne' path moveTo, .snoc [] (.update h)⟩

theorem ReadState.Differs.content {line : String} {s₁ : ReadState} (h : s.Differs t t' s')
    (hcontent : s.content number line = .ok s₁) :
    ∃ s₁', s'.content number line = .ok s₁' ∧ s₁.Differs t t' s₁' := by
  cases h with
  | adding h =>
    rw [ReadState.content] at hcontent ⊢
    cases hline : stripPrefix "+" line with
    | none =>
      rw [hline] at hcontent
      cases hcontent
    | some u =>
      rw [hline] at hcontent
      obtain rfl : _ = s₁ := Except.ok.inj hcontent
      exact ⟨_, rfl, .adding (h.append [u])⟩
  | updating h =>
    rw [ReadState.content, ReadState.update] at hcontent ⊢
    cases hline : UpdateLine.read line with
    | none =>
      rw [hline] at hcontent
      cases hcontent
    | some u =>
      rw [hline] at hcontent
      obtain rfl : _ = s₁ := Except.ok.inj hcontent
      exact ⟨_, rfl, .updating (h.append [u])⟩

/-- What is read after a difference differs in one section. -/
theorem ReadState.Differs.read {lines : List String} {texts : List SectionText}
    (h : s.Differs t t' s') (hread : read number s lines = .ok texts) :
    ∃ texts', read number s' lines = .ok texts' ∧
      DifferAt (SectionText.Differs t t') texts texts' := by
  induction lines generalizing number s s' texts with
  | nil => exact h.close hread
  | cons line lines ih =>
    rw [Patch.read, ReadState.step] at hread ⊢
    by_cases hends : s.ends line = true
    · rw [← h.ends line]
      rw [if_pos hends] at hread ⊢
      cases hclose : s.close with
      | error e =>
        rw [hclose] at hread
        cases hread
      | ok done =>
        obtain ⟨done', hclose', hdone⟩ := h.close hclose
        rw [hclose] at hread
        rw [hclose']
        cases hheader : ReadState.header number line with
        | error e =>
          rw [hheader] at hread
          cases hread
        | ok r =>
          rw [hheader] at hread
          obtain ⟨rest, hrest, rfl⟩ := Result.map_eq_ok.mp hread
          exact ⟨done' ++ r.1 ++ rest, Result.map_eq_ok.mpr ⟨rest, hrest, rfl⟩,
            (hdone.append r.1).append rest⟩
    · rw [← h.ends line]
      rw [if_neg hends] at hread ⊢
      cases hcontent : s.content number line with
      | error e =>
        rw [hcontent] at hread
        cases hread
      | ok s₁ =>
        obtain ⟨s₁', hcontent', hs₁⟩ := h.content hcontent
        rw [hcontent] at hread
        rw [hcontent']
        obtain ⟨rest, hrest, rfl⟩ := Result.map_eq_ok.mp hread
        obtain ⟨rest', hrest', hdiffer⟩ := ih hs₁ hrest
        exact ⟨[] ++ rest', Result.map_eq_ok.mpr ⟨rest', hrest', rfl⟩, hdiffer⟩

/-- The pass over some lines: the sections that they end, and what stands open then. -/
def readTo : ℕ → ReadState → List String → Result (List SectionText × ReadState)
  | _, s, [] => .ok ([], s)
  | number, s, line :: lines =>
    match s.step number line with
    | .error e => .error e
    | .ok (done, s) => (readTo (number + 1) s lines).map fun r => (done ++ r.1, r.2)

/-- The pass over some lines, and from there on. -/
theorem read_append {lines rest : List String} {done : List SectionText}
    (h : readTo number s lines = .ok (done, s')) :
    read number s (lines ++ rest) =
      (read (number + lines.length) s' rest).map (done ++ ·) := by
  induction lines generalizing number s done with
  | nil =>
    obtain ⟨rfl, rfl⟩ := Prod.mk.inj (Except.ok.inj h)
    rw [List.nil_append, List.length_nil, Nat.add_zero]
    cases read number s rest <;> rfl
  | cons line lines ih =>
    rw [readTo] at h
    rw [List.cons_append, Patch.read]
    cases hstep : s.step number line with
    | error e =>
      rw [hstep] at h
      cases h
    | ok r =>
      rw [hstep] at h
      obtain ⟨r', hr', heq⟩ := Result.map_eq_ok.mp h
      obtain ⟨rfl, rfl⟩ := Prod.mk.inj heq
      dsimp only
      rw [ih hr', List.length_cons, Nat.add_assoc, Nat.add_comm 1]
      cases read (number + (lines.length + 1)) r'.2 rest with
      | error e => rfl
      | ok texts => exact congrArg Except.ok (List.append_assoc _ _ _).symm

/-- An update that stands open is one of the sections that are read. -/
theorem read_updating_eq_ok {lines : List String} {path : String} {moveTo : Option String}
    {ls : List UpdateLine} {texts : List SectionText}
    (h : read number (.updating path moveTo ls) lines = .ok texts) :
    ∃ ls' texts', texts = .update path moveTo ls' :: texts' := by
  induction lines generalizing number ls with
  | nil =>
    rw [Patch.read, ReadState.close] at h
    split_ifs at h
    obtain rfl : _ = texts := Except.ok.inj h
    exact ⟨ls, [], rfl⟩
  | cons line lines ih =>
    by_cases hends : endsSection line = true
    · have hhead : ∀ l ∈ (line :: lines).head?, endsSection l = true := by
        rintro l hl
        obtain rfl := Option.some.inj hl
        exact hends
      by_cases hempty : chunksOf ls = []
      · rw [read_of_close_error (ReadState.close_updating_eq_error hempty path moveTo) hhead] at h
        cases h
      · rw [read_of_close (ReadState.close_updating hempty path moveTo) hhead] at h
        obtain ⟨rest, -, rfl⟩ := Result.map_eq_ok.mp h
        exact ⟨ls, rest, rfl⟩
    · rw [read_cons_of_content (by simpa [ReadState.ends] using hends), ReadState.content,
        ReadState.update] at h
      cases hline : UpdateLine.read line with
      | none =>
        rw [hline] at h
        cases h
      | some l =>
        rw [hline] at h
        exact ih h

end Read

/-! ### A line of a text -/

/-- A patch, given the lines before one of its lines, and the text behind it. -/
def patchText (before : List String) (line after : String) : String :=
  terminated before ++ line ++ "\n" ++ after

/-- A line as the parser sees it. -/
def seen (line : String) : String := stripReturn (stripReturn line)

/-- What stands open behind the given lines of a patch. -/
def stateBehind (before : List String) : Result (List SectionText × ReadState) :=
  readTo 2 .between ((lines (trimStart (terminated before))).map stripReturn).tail

/-- Whether a line is content of what stands open: it neither ends it nor says where it moves. -/
def ReadState.takes (s : ReadState) (line : String) : Bool :=
  !s.ends line && match s with
    | opened _ => (moveTarget line).isNone
    | _ => true

/-- A line of a patch that is content of one of its sections. -/
def IsBodyLine (before : List String) (line after : String) : Prop :=
  (∃ done s, stateBehind before = .ok (done, s) ∧ s.takes (seen line) = true) ∧ trimEnd after ≠ ""

/-- A line stands directly behind the header of an update, and says where the file moves. -/
def TurnsIntoMove (before : List String) (line : String) : Prop :=
  (∃ done path, stateBehind before = .ok (done, .opened path)) ∧
    (moveTarget (seen line)).isSome = true

section Text

variable {before : List String} {line after : String}

/-- The text before a line is empty or ends in a newline. -/
theorem trimStart_terminated (h : trimStart (terminated before) ≠ "") :
    ∃ t, trimStart (terminated before) = t ++ "\n" := by
  rcases List.eq_nil_or_concat' before with rfl | ⟨before, l, rfl⟩
  · exact absurd (by decide) h
  · have hlist : (terminated (before ++ [l])).toList =
        ((terminated before).toList ++ l.toList) ++ ['\n'] := by
      rw [terminated_append, String.toList_append]
      simp [terminated]
    rw [trimStart, hlist, List.dropWhile_append] at h ⊢
    split_ifs at h ⊢ with hblank
    · exact absurd (by decide) h
    · exact ⟨_, String.ofList_append⟩

/-- The lines of a patch around one of them. -/
theorem patchLines_patchText (hbefore : trimStart (terminated before) ≠ "")
    (hafter : trimEnd after ≠ "") (hline : '\n' ∉ line.toList) :
    patchLines (patchText before line after) =
      (lines (trimStart (terminated before))).map stripReturn ++ seen line ::
        (lines (trimEnd after)).map stripReturn := by
  obtain ⟨t, ht⟩ := trimStart_terminated hbefore
  have hsingle : lines (line ++ "\n") = [stripReturn line] := by
    rw [lines, String.toList_append, show "\n".toList = '\n' :: [] from rfl,
      List.splitOn_append_cons_self, List.splitOn_nil, List.splitOn_eq_singleton hline]
    simp
  have htrim : trim (patchText before line after) =
      t ++ "\n" ++ (line ++ "\n" ++ trimEnd after) := by
    rw [patchText, @String.append_assoc (terminated before), trim_append_append hbefore hafter, ht,
      @String.append_assoc (t ++ "\n")]
  rw [patchLines, htrim, lines_append_newline, lines_append_newline, hsingle, ← ht]
  simp [seen]

/-- The patch is read up to one of its lines, and from there on. -/
theorem readCodex_patchText {done : List SectionText} {s : ReadState}
    {texts : List SectionText} (hbefore : trimStart (terminated before) ≠ "")
    (hafter : trimEnd after ≠ "") (hstate : stateBehind before = .ok (done, s))
    (hline : '\n' ∉ line.toList) {line' : String} (hline' : '\n' ∉ line'.toList)
    (h : readCodex (patchText before line after) = .ok texts) :
    ∃ number rest texts', read number s (seen line :: rest) = .ok texts' ∧
      texts = done ++ texts' ∧
      readCodex (patchText before line' after) =
        (read number s (seen line' :: rest)).map (done ++ ·) := by
  obtain ⟨t, ht⟩ := trimStart_terminated hbefore
  set A := (lines (trimStart (terminated before))).map stripReturn with hA
  set B := (lines (trimEnd after)).map stripReturn with hB
  have hAne : A ≠ [] := by
    rw [hA, ht, lines, String.toList_append, show "\n".toList = '\n' :: [] from rfl,
      List.splitOn_append_cons_self, List.splitOn_nil]
    simp
  have hBne : B ≠ [] := by
    intro hnil
    have hlines : lines (trimEnd after) = [] := by simpa [hB] using hnil
    rw [lines, List.append_eq_nil_iff] at hlines
    obtain ⟨hdrop, hlast⟩ := hlines
    -- a single empty part is what remains
    split_ifs at hlast with hempty
    · obtain ⟨init, hinit⟩ := List.getLast?_eq_some_iff.mp hempty
      rw [hinit] at hdrop
      obtain rfl : init = [] := by simpa using hdrop
      have hjoin : ['\n'].intercalate ((trimEnd after).toList.splitOn '\n') =
          (trimEnd after).toList :=
        List.intercalate_splitOn '\n'
      obtain ⟨part, hpart, hnil⟩ := List.map_eq_singleton_iff.mp hinit
      rw [hpart] at hjoin
      refine hafter (String.toList_inj.mp (hjoin.symm.trans ?_))
      rw [← String.ofList_inj, String.ofList_toList]
      simpa using hnil
    · simp at hlast
  have hread (l : String) (hl : '\n' ∉ l.toList) :
      readCodex (patchText before l after) =
        if (A.head?.all fun l => trim l ≠ "*** Begin Patch") ||
            B.getLast?.all fun l => trim l ≠ "*** End Patch" then
          .error (.invalid "expected *** Begin Patch and *** End Patch")
        else (read (2 + A.tail.length) s (seen l :: B.dropLast)).map (done ++ ·) := by
    have hhead : (A ++ seen l :: B).head? = A.head? := List.head?_append_of_ne_nil _ hAne
    have hlast : (A ++ seen l :: B).getLast? = B.getLast? := by
      rw [List.getLast?_append_of_ne_nil _ (List.cons_ne_nil _ _),
        List.getLast?_cons_of_ne_nil hBne]
    have hmid : (A ++ seen l :: B).dropLast.tail = A.tail ++ seen l :: B.dropLast := by
      rw [List.dropLast_append_of_ne_nil (List.cons_ne_nil _ _), List.dropLast_cons_of_ne_nil hBne,
        List.tail_append_of_ne_nil hAne]
    rw [readCodex, patchLines_patchText hbefore hafter hl, ← hA, ← hB, hhead, hlast, hmid,
      read_append hstate]
  rw [hread line hline] at h
  split_ifs at h with hframe
  obtain ⟨texts', htexts', rfl⟩ := Result.map_eq_ok.mp h
  refine ⟨2 + A.tail.length, B.dropLast, texts', htexts', rfl, ?_⟩
  rw [hread line' hline', if_neg hframe]

end Text

/-! ### Another payload -/

/-- A carriage return at the end of a line is one at the end of its payload. -/
theorem seen_append {p : String} (hp : ∀ c ∈ p.toList.getLast?, c ≠ '\r') (t : String) :
    seen (p ++ t) = p ++ seen t := by
  have hstrip (t : String) : stripReturn (p ++ t) = p ++ stripReturn t := by
    by_cases ht : t.toList = []
    · obtain rfl : t = "" := by simpa using ht
      have hself : stripReturn p = p := if_neg fun hlast => hp _ hlast rfl
      have hempty : stripReturn "" = "" := by decide
      rw [String.append_empty, hself, hempty, String.append_empty]
    · rw [stripReturn, stripReturn, String.toList_append, List.getLast?_append_of_ne_nil _ ht,
        List.dropLast_append_of_ne_nil ht]
      split_ifs
      · rw [String.ofList_append, String.ofList_toList]
      · rfl
  rw [seen, hstrip, hstrip, seen]

/-- The parser sees the line of the payload without carriage returns at its end. -/
theorem UpdateLine.Differs.seen {t t' : String} {l l' : UpdateLine}
    (h : UpdateLine.Differs t t' l l') :
    ∃ m m', UpdateLine.Differs (seen t) (seen t') m m' ∧ Patch.seen l.text = m.text ∧
      Patch.seen l'.text = m'.text := by
  cases h with
  | added => exact ⟨_, _, .added, seen_append (by simp) t, seen_append (by simp) t'⟩
  | removed => exact ⟨_, _, .removed, seen_append (by simp) t, seen_append (by simp) t'⟩
  | context => exact ⟨_, _, .context, seen_append (by simp) t, seen_append (by simp) t'⟩

theorem UpdateLine.Differs.newline_notMem {t t' : String} {l l' : UpdateLine}
    (h : UpdateLine.Differs t t' l l') (ht : '\n' ∉ t.toList) (ht' : '\n' ∉ t'.toList) :
    '\n' ∉ l.text.toList ∧ '\n' ∉ l'.text.toList := by
  have hmem {p : String} (hp : '\n' ∉ p.toList) (t : String) (ht : '\n' ∉ t.toList) :
      '\n' ∉ (p ++ t).toList := by
    rw [String.toList_append]
    exact fun h => (List.mem_append.mp h).elim hp ht
  cases h with
  | added => exact ⟨hmem (by decide) t ht, hmem (by decide) t' ht'⟩
  | removed => exact ⟨hmem (by decide) t ht, hmem (by decide) t' ht'⟩
  | context => exact ⟨hmem (by decide) t ht, hmem (by decide) t' ht'⟩

/-- A line that the parser takes in may be exchanged for one that differs from it, unless it says
where the file moves directly behind a header: what stands open then differs in that line. -/
theorem read_cons_differs {t t' : String} {m m' : UpdateLine} {s : ReadState} {number : ℕ}
    {rest : List String} {texts : List SectionText} (hm : UpdateLine.Differs t t' m m')
    (htakes : s.takes m.text = true) (hread : read number s (m.text :: rest) = .ok texts)
    (hmove : ∀ path, s = .opened path → moveTarget m'.text = none) :
    ∃ texts', read number s (m'.text :: rest) = .ok texts' ∧
      DifferAt (SectionText.Differs t t') texts texts' := by
  have hends : s.ends m.text = false := by
    have := (Bool.and_eq_true_iff.mp htakes).1
    simpa using this
  have hupdate (l : UpdateLine) (path : String) (moveTo : Option String) (ls : List UpdateLine) :
      ReadState.update number path moveTo ls l.text = .ok (.updating path moveTo (ls ++ [l])) := by
    rw [ReadState.update, UpdateLine.read_text]
  rw [read_cons_of_content hends] at hread
  cases s with
  | between => cases hends
  | adding path ls =>
    have hends' : (ReadState.adding path ls).ends m'.text = false := by
      have hclash {p : String} (t : String)
          (h : ("*** ".toList.zip p.toList).any (fun c => c.1 ≠ c.2) = true) :
          startsWith "*** " (p ++ t) = false := by
        rw [startsWith, stripPrefix_append_of_clash t h]
        rfl
      cases hm with
      | added => exact hclash t' (by decide)
      | removed => exact hclash t' (by decide)
      | context => exact hclash t' (by decide)
    rw [read_cons_of_content hends']
    rw [ReadState.content] at hread ⊢
    cases hm with
    | added =>
      rw [UpdateLine.text, stripPrefix_append] at hread ⊢
      exact (ReadState.Differs.adding (.snoc ls ⟨rfl, rfl⟩)).read hread
    | removed =>
      rw [UpdateLine.text, stripPrefix_append_of_clash t (by decide)] at hread
      cases hread
    | context =>
      rw [UpdateLine.text, stripPrefix_append_of_clash t (by decide)] at hread
      cases hread
  | opened path =>
    have htarget : moveTarget m.text = none := by
      simpa using (Bool.and_eq_true_iff.mp htakes).2
    have htarget' := hmove path rfl
    rw [read_cons_of_content (by simp [ReadState.ends])]
    rw [ReadState.content] at hread ⊢
    rw [htarget, hupdate] at hread
    rw [htarget', hupdate]
    exact (ReadState.Differs.updating (.snoc [] hm)).read hread
  | updating path moveTo ls =>
    rw [read_cons_of_content (by simp [ReadState.ends])]
    rw [ReadState.content, hupdate] at hread ⊢
    exact (ReadState.Differs.updating (.snoc ls hm)).read hread

/-- Directly behind a header, a line that says where the file moves makes another section of an
update. -/
theorem not_differ_of_move {t t' : String} {m m' : UpdateLine} {path : String} {number : ℕ}
    {rest : List String} {done texts texts' : List SectionText}
    (htakes : (ReadState.opened path).takes m.text = true)
    (hread : read number (.opened path) (m.text :: rest) = .ok texts)
    (hmove : (moveTarget m'.text).isSome = true)
    (hread' : read number (.opened path) (m'.text :: rest) = .ok texts') :
    ¬ DifferAt (Section.Differs t t') ((done ++ texts).map SectionText.parsed)
      ((done ++ texts').map SectionText.parsed) := by
  have hends : (ReadState.opened path).ends m.text = false := by
    simpa using (Bool.and_eq_true_iff.mp htakes).1
  have htarget : moveTarget m.text = none := by
    simpa using (Bool.and_eq_true_iff.mp htakes).2
  obtain ⟨target, htarget'⟩ := Option.isSome_iff_exists.mp hmove
  rw [read_cons_of_content hends, ReadState.content, htarget] at hread
  rw [read_cons_of_content (by simp [ReadState.ends, htarget']), ReadState.content,
    htarget'] at hread'
  dsimp only at hread hread'
  rw [ReadState.update, UpdateLine.read_text] at hread
  obtain ⟨ls, rest₁, rfl⟩ := read_updating_eq_ok hread
  obtain ⟨ls', rest₂, rfl⟩ := read_updating_eq_ok hread'
  intro hdiffer
  have hmoves := hdiffer.map_eq (f := Section.moveTo) fun s s' h => h.moveTo_eq
  have hat := congrArg (fun l => l[done.length]?) hmoves
  simp [SectionText.parsed, Section.moveTo] at hat

/-- **Payloads are opaque.** Let a patch be accepted, and let the payload of one of its body lines
be exchanged for another text without newlines. Then the new patch is accepted with the same
sections but for that one line, unless the line stands directly behind the header of an update
and now says where the file moves. -/
theorem payload_opaque_iff {before : List String} {after payload payload' : String}
    {l l' : UpdateLine} {sections : List Section} (hl : UpdateLine.Differs payload payload' l l')
    (hpayload : '\n' ∉ payload.toList) (hpayload' : '\n' ∉ payload'.toList)
    (hbody : IsBodyLine before l.text after)
    (haccepted : parseCodex (patchText before l.text after) = some (.ok sections)) :
    (∃ sections', parseCodex (patchText before l'.text after) = some (.ok sections') ∧
      DifferAt (Section.Differs (seen payload) (seen payload')) sections sections') ↔
      ¬ TurnsIntoMove before l'.text := by
  obtain ⟨⟨done, s, hstate, htakes⟩, hafter⟩ := hbody
  have hbefore : trimStart (terminated before) ≠ "" := by
    intro hblank
    rw [stateBehind, hblank] at hstate
    obtain ⟨-, rfl⟩ := Prod.mk.inj (Except.ok.inj hstate)
    cases htakes
  obtain ⟨hline, hline'⟩ := hl.newline_notMem hpayload hpayload'
  obtain ⟨m, m', hm, hseen, hseen'⟩ := hl.seen
  rw [parseCodex_eq_read] at haccepted ⊢
  obtain ⟨texts, htexts, rfl⟩ := Result.map_eq_ok.mp (Option.some.inj haccepted)
  obtain ⟨number, rest, texts', hread, rfl, hread'⟩ :=
    readCodex_patchText hbefore hafter hstate hline hline' htexts
  rw [hseen] at htakes hread
  rw [hread', hseen']
  constructor
  · rintro ⟨sections', hsections', hdiffer⟩ ⟨⟨done', path, hstate'⟩, hmove⟩
    obtain ⟨texts'', htexts'', rfl⟩ := Result.map_eq_ok.mp (Option.some.inj hsections')
    obtain ⟨rest', hrest', rfl⟩ := Result.map_eq_ok.mp htexts''
    obtain ⟨-, rfl⟩ := Prod.mk.inj (Except.ok.inj (hstate.symm.trans hstate'))
    rw [hseen'] at hmove
    exact not_differ_of_move htakes hread hmove hrest' hdiffer
  · intro hmove
    have hmove' : ∀ path, s = .opened path → moveTarget m'.text = none := by
      rintro path rfl
      by_contra hsome
      refine hmove ⟨⟨done, path, hstate⟩, ?_⟩
      rw [hseen']
      exact Option.isSome_iff_ne_none.mpr hsome
    obtain ⟨texts'', htexts'', hdiffer⟩ := read_cons_differs hm htakes hread hmove'
    refine ⟨(done ++ texts'').map SectionText.parsed, ?_,
      (hdiffer.prepend done).map fun _ _ h => h.parsed⟩
    rw [htexts'']
    rfl

/-- A line that is kept, directly behind a header. -/
theorem payload_opaque_iff_kept :
    (∃ sections', parseCodex (patchText ["*** Begin Patch", "*** Update File: a"]
        (UpdateLine.context "@@").text "+y\n*** End Patch") = some (.ok sections') ∧
      DifferAt (Section.Differs (seen "x") (seen "@@"))
        [.update "a" none [⟨none, ["x"], ["x", "y"], false⟩]] sections') ↔
      ¬ TurnsIntoMove ["*** Begin Patch", "*** Update File: a"] (UpdateLine.context "@@").text :=
  @payload_opaque_iff ["*** Begin Patch", "*** Update File: a"] "+y\n*** End Patch" "x" "@@" _ _ _
    .context (by decide) (by decide) ⟨⟨[], .opened "a", by decide +kernel, by decide +kernel⟩,
      by decide +kernel⟩ (by decide +kernel)

/-- A line that is kept turns into a move. -/
theorem not_forall_payload_opaque :
    ¬ ∀ (before : List String) (after payload payload' : String) (l l' : UpdateLine)
      (sections : List Section), UpdateLine.Differs payload payload' l l' →
      '\n' ∉ payload.toList → '\n' ∉ payload'.toList → IsBodyLine before l.text after →
      parseCodex (patchText before l.text after) = some (.ok sections) →
      ∃ sections', parseCodex (patchText before l'.text after) = some (.ok sections') ∧
        DifferAt (Section.Differs (seen payload) (seen payload')) sections sections' := by
  intro h
  obtain ⟨sections', hsections', hdiffer⟩ := h ["*** Begin Patch", "*** Update File: a"]
    "+y\n*** End Patch" "x" "*** Move to: b" _ _
    [.update "a" none [⟨none, ["x"], ["x", "y"], false⟩]] .context (by decide) (by decide)
    ⟨⟨[], .opened "a", by decide +kernel, by decide +kernel⟩, by decide +kernel⟩
    (by decide +kernel)
  have hmoved : parseCodex (patchText ["*** Begin Patch", "*** Update File: a"]
      (UpdateLine.context "*** Move to: b").text "+y\n*** End Patch") =
        some (.ok [.update "a" (some "b") [⟨none, [], ["y"], false⟩]]) := by
    decide +kernel
  obtain rfl := Except.ok.inj (Option.some.inj (hmoved.symm.trans hsections'))
  have hmoves := hdiffer.map_eq (f := Section.moveTo) fun s s' h => h.moveTo_eq
  revert hmoves
  decide

end ExecutionProvider.Patch

import Mathlib.Data.List.Chain
import Mathlib.Data.List.Induction
import ExecutionProvider.Patch.Blocks

/-!
# The directives of an update

The lines of an update may hold heads of hunks and marks for the end of the file. The parser makes
one chunk of each hunk where every such directive has its hunk: a head is followed by a line that
is added, removed or kept, and a mark stands behind one. Elsewhere a head is lost to the head
that follows it, or a mark goes to the hunk behind it, and the patch is accepted all the same.

## Main definitions

* `SectionText.Reads`: what lines a section is read from.
* `SectionText.Attached`: every directive of an update has its hunk, and the chunks are theirs.
* `SectionText.Directed`: the condition on the lines.

## Main results

* `reads_of_read`: the sections that are read cover the lines of the patch.
* `attached_iff_directed`: the directives have their hunks exactly under the condition.
-/

namespace ExecutionProvider.Patch

/-! ### The lines that a section is read from -/

/-- The lines that a section is read from: its header, the move of an update, and then one line
for each line of the section. -/
inductive SectionText.Reads : SectionText → List String → Prop
  | add {header path : String} (lines : List String)
      (hheader : trim header = "*** Add File: " ++ path) :
      Reads (.add path lines) (header :: lines.map ("+" ++ ·))
  | delete {header path : String} (hheader : trim header = "*** Delete File: " ++ path) :
      Reads (.delete path) [header]
  | update {header path : String} {moveTo : Option String} {move lines : List String}
      {ls : List UpdateLine} (hheader : trim header = "*** Update File: " ++ path)
      (hmove : move.map moveTarget = (moveTo.map some).toList)
      (hlines : lines.map UpdateLine.read = ls.map some) :
      Reads (.update path moveTo ls) (header :: move ++ lines)

/-- The lines from which what stands open was read. -/
inductive ReadState.Opens : ReadState → List String → Prop
  | between : Opens .between []
  | adding {header path : String} (lines : List String)
      (hheader : trim header = "*** Add File: " ++ path) :
      Opens (.adding path lines) (header :: lines.map ("+" ++ ·))
  | opened {header path : String} (hheader : trim header = "*** Update File: " ++ path) :
      Opens (.opened path) [header]
  | updating {header path : String} {moveTo : Option String} {move lines : List String}
      {ls : List UpdateLine} (hheader : trim header = "*** Update File: " ++ path)
      (hmove : move.map moveTarget = (moveTo.map some).toList)
      (hlines : lines.map UpdateLine.read = ls.map some) :
      Opens (.updating path moveTo ls) (header :: move ++ lines)

section Reads

variable {number : ℕ} {s s' : ReadState} {line : String} {part : List String}
  {done : List SectionText}

theorem ReadState.Opens.close (h : s.Opens part) (hclose : s.close = .ok done) :
    ∃ parts, List.Forall₂ SectionText.Reads done parts ∧ part = parts.flatten := by
  cases h with
  | between =>
    obtain rfl : [] = done := Except.ok.inj hclose
    exact ⟨[], .nil, rfl⟩
  | adding lines hheader =>
    obtain rfl : _ = done := Except.ok.inj hclose
    exact ⟨[_], .cons (.add lines hheader) .nil, by simp⟩
  | opened hheader => cases hclose
  | updating hheader hmove hlines =>
    rw [ReadState.close] at hclose
    split_ifs at hclose
    obtain rfl : _ = done := Except.ok.inj hclose
    exact ⟨[_], .cons (.update hheader hmove hlines) .nil, by simp⟩

theorem ReadState.opens_of_header (h : ReadState.header number line = .ok (done, s)) :
    ∃ parts part, List.Forall₂ SectionText.Reads done parts ∧ s.Opens part ∧
      [line] = parts.flatten ++ part := by
  rw [ReadState.header] at h
  split_ifs at h
  cases hadd : stripPrefix "*** Add File: " (trim line) with
  | some path =>
    rw [hadd] at h
    obtain ⟨rfl, rfl⟩ := Prod.mk.inj (Except.ok.inj h)
    exact ⟨[], _, .nil, .adding [] (stripPrefix_eq_some.mp hadd), rfl⟩
  | none =>
    cases hdelete : stripPrefix "*** Delete File: " (trim line) with
    | some path =>
      rw [hadd, hdelete] at h
      obtain ⟨rfl, rfl⟩ := Prod.mk.inj (Except.ok.inj h)
      exact ⟨[[line]], [], .cons (.delete (stripPrefix_eq_some.mp hdelete)) .nil, .between, rfl⟩
    | none =>
      cases hupdate : stripPrefix "*** Update File: " (trim line) with
      | some path =>
        rw [hadd, hdelete, hupdate] at h
        obtain ⟨rfl, rfl⟩ := Prod.mk.inj (Except.ok.inj h)
        exact ⟨[], _, .nil, .opened (stripPrefix_eq_some.mp hupdate), rfl⟩
      | none =>
        rw [hadd, hdelete, hupdate] at h
        cases h

/-- A line of an update is read behind those before it. -/
theorem ReadState.Opens.update {header path : String} {moveTo : Option String}
    {move lines : List String} {ls : List UpdateLine}
    (hheader : trim header = "*** Update File: " ++ path)
    (hmove : move.map moveTarget = (moveTo.map some).toList)
    (hlines : lines.map UpdateLine.read = ls.map some)
    (h : ReadState.update number path moveTo ls line = .ok s) :
    s.Opens (header :: move ++ (lines ++ [line])) := by
  rw [ReadState.update] at h
  cases hread : UpdateLine.read line with
  | none =>
    rw [hread] at h
    cases h
  | some l =>
    rw [hread] at h
    obtain rfl := Except.ok.inj h
    refine .updating hheader hmove ?_
    rw [List.map_append, List.map_append, hlines, List.map_singleton, hread, List.map_singleton]

theorem ReadState.Opens.content (h : s.Opens part) (hends : s.ends line = false)
    (hcontent : s.content number line = .ok s') : s'.Opens (part ++ [line]) := by
  cases h with
  | between => cases hends
  | adding lines hheader =>
    rw [ReadState.content] at hcontent
    split at hcontent
    · next t ht =>
      obtain rfl := Except.ok.inj hcontent
      have hline : ("+" ++ t) = line := (stripPrefix_eq_some.mp ht).symm
      have hopens := ReadState.Opens.adding (lines ++ [t]) hheader
      rwa [List.map_append, List.map_singleton, hline, ← List.cons_append] at hopens
    · cases hcontent
  | opened hheader =>
    rw [ReadState.content] at hcontent
    split at hcontent
    · next target htarget =>
      obtain rfl := Except.ok.inj hcontent
      exact @ReadState.Opens.updating _ _ (some target) [line] [] [] hheader (by simp [htarget]) rfl
    · exact @ReadState.Opens.update _ _ _ _ _ _ [] [] [] hheader rfl rfl hcontent
  | updating hheader hmove hlines =>
    have hopens := ReadState.Opens.update hheader hmove hlines hcontent
    rwa [← List.append_assoc] at hopens

/-- The sections that are read cover the lines. -/
theorem ReadState.Opens.read {lines : List String} {texts : List SectionText}
    (h : s.Opens part) (hread : read number s lines = .ok texts) :
    ∃ parts, List.Forall₂ SectionText.Reads texts parts ∧ part ++ lines = parts.flatten := by
  induction lines generalizing number s part texts with
  | nil =>
    obtain ⟨parts, hparts, hflat⟩ := h.close hread
    exact ⟨parts, hparts, by rw [List.append_nil, hflat]⟩
  | cons line lines ih =>
    rw [Patch.read, ReadState.step] at hread
    by_cases hends : s.ends line = true
    · -- what stood open is closed, and the line is a header
      rw [if_pos hends] at hread
      cases hclose : s.close with
      | error e =>
        rw [hclose] at hread
        cases hread
      | ok done =>
        cases hheader : ReadState.header number line with
        | error e =>
          rw [hclose, hheader] at hread
          cases hread
        | ok r =>
          rw [hclose, hheader] at hread
          obtain ⟨rest, hrest, rfl⟩ := Result.map_eq_ok.mp hread
          obtain ⟨parts, hparts, hflat⟩ := h.close hclose
          obtain ⟨parts', part', hparts', hopens, hline⟩ := ReadState.opens_of_header hheader
          obtain ⟨parts'', hparts'', hflat'⟩ := ih hopens hrest
          refine ⟨parts ++ parts' ++ parts'',
            List.rel_append (List.rel_append hparts hparts') hparts'', ?_⟩
          rw [List.flatten_append, List.flatten_append, ← hflat, ← hflat', List.append_assoc,
            ← List.append_assoc parts'.flatten, ← hline, List.singleton_append]
    · rw [if_neg hends] at hread
      cases hcontent : s.content number line with
      | error e =>
        rw [hcontent] at hread
        cases hread
      | ok s' =>
        rw [hcontent] at hread
        obtain ⟨rest, hrest, rfl⟩ := Result.map_eq_ok.mp hread
        obtain ⟨parts, hparts, hflat⟩ := ih (h.content (by simpa using hends) hcontent) hrest
        exact ⟨parts, hparts, by rw [← hflat, List.append_assoc, List.singleton_append]⟩

end Reads

/-- The sections of a patch are read from its lines, one after the other. -/
theorem reads_of_read {text : String} {texts : List SectionText}
    (h : readCodex text = .ok texts) :
    ∃ parts, List.Forall₂ SectionText.Reads texts parts ∧
      (patchLines text).dropLast.tail = parts.flatten := by
  rw [readCodex] at h
  generalize patchLines text = lines at h ⊢
  split at h
  · cases h
  · obtain ⟨parts, hparts, hflat⟩ := ReadState.Opens.between.read h
    exact ⟨parts, hparts, hflat⟩

/-! ### Hunks and directives -/

/-- Every head in an update is the head of one hunk, made of the lines that follow it, and every
mark for the end of the file stands behind lines of the hunk that it marks; the chunks are those
of the hunks. -/
def SectionText.Attached : SectionText → Prop
  | update _ _ ls => ∃ bs : List Block, ls = bs.flatMap Block.lines ∧
      (∀ head ∈ (bs.map Block.head).tail, head.isSome = true) ∧ chunksOf ls = bs.map Block.chunk
  | _ => True

/-- Every head is followed by a line that is added, removed or kept, and no mark comes before any
such line. -/
structure DirectedLines (ls : List UpdateLine) : Prop where
  first : ∀ l ∈ ls.head?, l ≠ .eof
  followed : ls.IsChain fun l l' => l.isHead = true → l'.isBody = true
  last : ∀ l ∈ ls.getLast?, l.isHead = false

/-- The condition on the lines of an update. -/
def SectionText.Directed : SectionText → Prop
  | update _ _ ls => DirectedLines ls
  | _ => True

theorem UpdateLine.isBody_of_isHead {l : UpdateLine} (h : l.isHead = false) (h' : l ≠ .eof) :
    l.isBody = true := by
  cases l with
  | hunk anchor => cases h
  | eof => exact absurd rfl h'
  | _ => rfl

namespace Block

/-- A hunk with one more line. -/
def snoc (b : Block) (l : UpdateLine) (h : l.isHead = false) : Block :=
  { b with
    rest := b.rest ++ [l]
    headless := fun l' hl' => (List.mem_append.mp hl').elim (b.headless l') fun hl' =>
      List.mem_singleton.mp hl' ▸ h }

/-- A hunk with one line. -/
def single (head : Option (Option String)) (l : UpdateLine) (h : l.isBody = true) : Block :=
  ⟨head, l, [], h, nofun⟩

theorem lines_snoc (b : Block) (l : UpdateLine) (h : l.isHead = false) :
    (b.snoc l h).lines = b.lines ++ [l] := (List.append_assoc _ (b.first :: b.rest) [l]).symm

theorem lines_ne_nil (b : Block) : b.lines ≠ [] := by
  simp [lines, tail]

/-- The last line of a hunk is not a head. -/
theorem isHead_getLast (b : Block) {l : UpdateLine} (h : l ∈ b.lines.getLast?) :
    l.isHead = false := by
  have htail : b.tail ≠ [] := List.cons_ne_nil _ _
  rw [lines, List.getLast?_append_of_ne_nil _ htail] at h
  exact b.isHead_of_mem_tail (List.mem_of_getLast? h)

theorem isChain_lines (b : Block) :
    b.lines.IsChain fun l l' => l.isHead = true → l'.isBody = true := by
  have htail : b.tail.IsChain fun l l' => l.isHead = true → l'.isBody = true := by
    refine (List.pairwise_of_forall_mem_list fun l hl l' _ hhead => ?_).isChain
    rw [b.isHead_of_mem_tail hl] at hhead
    cases hhead
  refine List.isChain_append.mpr ⟨?_, htail, fun l _ l' hl' _ => ?_⟩
  · cases b.head <;> simp
  · obtain rfl := Option.some.inj hl'
    exact b.body

end Block

/-- Lines under the condition, the one on the last line apart, are laid out in blocks, behind which
there may be one more head. -/
theorem exists_blocks {ls : List UpdateLine} (hfirst : ∀ l ∈ ls.head?, l ≠ .eof)
    (hfollowed : ls.IsChain fun l l' => l.isHead = true → l'.isBody = true) :
    ∃ bs : List Block, (∀ head ∈ (bs.map Block.head).tail, head.isSome = true) ∧
      (ls = bs.flatMap Block.lines ∨ ∃ anchor, ls = bs.flatMap Block.lines ++ [.hunk anchor]) := by
  induction ls using List.reverseRecOn with
  | nil => exact ⟨[], by simp, Or.inl rfl⟩
  | append_singleton ls l ih =>
    obtain ⟨hchain, -, hjoin⟩ := List.isChain_append.mp hfollowed
    have hfirst' : ∀ l ∈ ls.head?, l ≠ .eof := by
      intro l' hl'
      refine hfirst l' ?_
      rw [List.head?_append, Option.mem_def.mp hl']
      rfl
    obtain ⟨bs, hheads, rfl | ⟨anchor, rfl⟩⟩ := ih hfirst' hchain
    · by_cases hhead : l.isHead = true
      · cases l with
        | hunk anchor => exact ⟨bs, hheads, Or.inr ⟨anchor, rfl⟩⟩
        | _ => cases hhead
      · rw [Bool.not_eq_true] at hhead
        rcases List.eq_nil_or_concat' bs with rfl | ⟨bs, b, rfl⟩
        · -- the first line of all
          have hbody : l.isBody = true := UpdateLine.isBody_of_isHead hhead (hfirst l rfl)
          exact ⟨[.single none l hbody], by simp, Or.inl rfl⟩
        · refine ⟨bs ++ [b.snoc l hhead], ?_, Or.inl ?_⟩
          · have hsame : (bs ++ [b.snoc l hhead]).map Block.head = (bs ++ [b]).map Block.head := by
              rw [List.map_append, List.map_append]
              rfl
            rwa [hsame]
          · simp [Block.lines_snoc]
    · -- the line behind a head is the first of its hunk
      have hbody : l.isBody = true := hjoin (.hunk anchor) (by simp) l rfl rfl
      refine ⟨bs ++ [.single (some anchor) l hbody], fun head hhead => ?_, Or.inl ?_⟩
      · rw [List.map_append, List.map_singleton] at hhead
        cases hbs : bs.map Block.head with
        | nil =>
          rw [hbs] at hhead
          cases hhead
        | cons h hs =>
          rw [hbs] at hhead hheads
          rcases List.mem_append.mp hhead with hhead | hhead
          · exact hheads head hhead
          · rw [List.mem_singleton.mp hhead]
            rfl
      · simp [Block.lines, Block.single, Block.tail]

/-- Lines that are laid out in blocks meet the condition. -/
theorem directedLines_flatMap_lines (bs : List Block) :
    DirectedLines (bs.flatMap Block.lines) := by
  have hrest : (bs.flatMap Block.lines).IsChain (fun l l' => l.isHead = true → l'.isBody = true) ∧
      ∀ l ∈ (bs.flatMap Block.lines).getLast?, l.isHead = false := by
    induction bs with
    | nil => exact ⟨.nil, nofun⟩
    | cons b bs ih =>
      rw [List.flatMap_cons]
      refine ⟨List.isChain_append.mpr ⟨b.isChain_lines, ih.1, fun l hl l' _ hhead => ?_⟩,
        fun l hl => ?_⟩
      · rw [b.isHead_getLast hl] at hhead
        cases hhead
      · by_cases hnil : bs.flatMap Block.lines = []
        · rw [hnil, List.append_nil] at hl
          exact b.isHead_getLast hl
        · rw [List.getLast?_append_of_ne_nil _ hnil] at hl
          exact ih.2 l hl
  refine ⟨fun l hl => ?_, hrest.1, hrest.2⟩
  cases bs with
  | nil => cases hl
  | cons b bs =>
    rintro rfl
    rw [List.flatMap_cons, List.head?_append_of_ne_nil _ b.lines_ne_nil, Block.lines] at hl
    cases hhead : b.head with
    | some anchor =>
      rw [hhead] at hl
      cases hl
    | none =>
      rw [hhead] at hl
      have hbody := b.body
      rw [Option.some.inj hl] at hbody
      cases hbody

theorem SectionText.attached_iff_directed (s : SectionText) : s.Attached ↔ s.Directed := by
  cases s with
  | add path lines => exact Iff.rfl
  | delete path => exact Iff.rfl
  | update path moveTo ls =>
    constructor
    · rintro ⟨bs, rfl, -, -⟩
      exact directedLines_flatMap_lines bs
    · intro h
      obtain ⟨bs, hheads, rfl | ⟨anchor, rfl⟩⟩ := exists_blocks h.first h.followed
      · exact ⟨bs, rfl, hheads, chunksOf_flatMap_lines hheads⟩
      · have hlast := h.last (.hunk anchor) (by simp)
        cases hlast

/-- **Directives and hunks.** An accepted patch is read section by section. In each of its
updates every directive has its hunk, and the chunks are those of the hunks, exactly when every
head is followed by a line that is added, removed or kept, and no mark for the end of the file
comes before any such line of its hunk. -/
theorem directives_attached_iff {text : String} {sections : List Section}
    (h : parseCodex text = some (.ok sections)) :
    ∃ texts parts, sections = texts.map SectionText.parsed ∧
      List.Forall₂ SectionText.Reads texts parts ∧
      (patchLines text).dropLast.tail = parts.flatten ∧
      ∀ s ∈ texts, (s.Attached ↔ s.Directed) := by
  rw [parseCodex_eq_read] at h
  obtain ⟨texts, htexts, rfl⟩ := Result.map_eq_ok.mp (Option.some.inj h)
  obtain ⟨parts, hparts, hflat⟩ := reads_of_read htexts
  exact ⟨texts, parts, rfl, hparts, hflat, fun s _ => s.attached_iff_directed⟩

/-- An update whose head is followed by a line. -/
theorem directives_attached_iff_headed :
    ∃ texts parts, [Section.update "a" none [⟨some "x", [], ["y"], false⟩]] =
        texts.map SectionText.parsed ∧ List.Forall₂ SectionText.Reads texts parts ∧
      (patchLines "*** Begin Patch\n*** Update File: a\n@@ x\n+y\n*** End Patch").dropLast.tail =
        parts.flatten ∧ ∀ s ∈ texts, (s.Attached ↔ s.Directed) :=
  directives_attached_iff (by decide +kernel)

/-- A head is lost to the head that follows it, in a patch that is accepted. -/
theorem not_forall_attached :
    ¬ ∀ (text : String) (sections : List Section) (texts : List SectionText),
      parseCodex text = some (.ok sections) → readCodex text = .ok texts →
      ∀ s ∈ texts, s.Attached := by
  intro h
  have hread : readCodex "*** Begin Patch\n*** Update File: a\n@@ x\n@@ y\n+z\n*** End Patch" =
      .ok [.update "a" none [.hunk (some "x"), .hunk (some "y"), .added "z"]] := by
    decide +kernel
  have hattached := h _ [.update "a" none [⟨some "y", [], ["z"], false⟩]] _ (by decide +kernel)
    hread _ List.mem_cons_self
  obtain ⟨-, hfollowed, -⟩ := (SectionText.attached_iff_directed _).mp hattached
  have hbody := (List.isChain_cons_cons.mp hfollowed).1 rfl
  cases hbody

end ExecutionProvider.Patch

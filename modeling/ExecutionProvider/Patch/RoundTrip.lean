import ExecutionProvider.Patch.Blocks

/-!
# Printing and parsing patches

A patch is printed in the documented syntax: its sections between a first and a last line, the
lines of an added file behind plus signs, and the hunks of an update behind `@@`, each with its
lines and, where it lies at the end of the file, a mark. Parsing such a text gives the sections
back, whatever the lines and the anchors are.

## Main definitions

* `Hunk`, `PatchSection`: the sections of a patch to be printed.
* `printPatch`: the text of a patch.

## Main results

* `parseCodex_printPatch`: parsing what was printed; and the parser has a result for every text.
-/

namespace ExecutionProvider.Patch

/-! ### Lines and paths -/

/-- A text that can be the payload of a line: it has no newline, and no carriage return at its
end. -/
def IsLine (s : String) : Prop := '\n' ∉ s.toList ∧ s.toList.getLast? ≠ some '\r'

/-- A text that can be the path in a header: it is not empty, has no newline, and no white space
around it. -/
structure IsPath (s : String) : Prop where
  nonempty : s ≠ ""
  trimmed : trim s = s
  newline : '\n' ∉ s.toList

/-- Behind a prefix that is a line itself, a line is a line. -/
theorem IsLine.append {p s : String} (hp : IsLine p) (hs : IsLine s) : IsLine (p ++ s) := by
  refine ⟨?_, ?_⟩
  · rw [String.toList_append]
    exact fun h => (List.mem_append.mp h).elim hp.1 hs.1
  · rw [String.toList_append, List.getLast?_append]
    cases hlast : s.toList.getLast? with
    | none => exact hp.2
    | some c => exact fun h => hs.2 (hlast.trans h)

theorem IsPath.isLine {s : String} (h : IsPath s) : IsLine s :=
  ⟨h.newline, fun hlast => absurd ((trim_eq_self_iff.mp h.trimmed).2 _ hlast) (by decide)⟩

/-- A header with a path has no white space around it. -/
theorem trim_header {p s : String} (hp : ∀ c ∈ p.toList.head?, isWhitespace c = false)
    (hne : p ≠ "") (hs : IsPath s) : trim (p ++ s) = p ++ s := by
  obtain ⟨-, hlast⟩ := trim_eq_self_iff.mp hs.trimmed
  refine trim_eq_self_iff.mpr ⟨?_, ?_⟩
  · rw [String.toList_append, List.head?_append_of_ne_nil _ (by simpa using hne)]
    exact hp
  · rw [String.toList_append, List.getLast?_append_of_ne_nil _ (by simpa using hs.nonempty)]
    exact hlast

/-! ### The lines of an update -/

namespace UpdateLine

/-- How a line of an update is written. -/
def text : UpdateLine → String
  | hunk none => "@@"
  | hunk (some anchor) => "@@ " ++ anchor
  | eof => endOfFile
  | added t => "+" ++ t
  | removed t => "-" ++ t
  | context t => " " ++ t

/-- The payload of a line. -/
def payload : UpdateLine → String
  | hunk none => ""
  | hunk (some anchor) => anchor
  | eof => ""
  | added t => t
  | removed t => t
  | context t => t

theorem isHunk_append_of_clash {p : String} (t : String)
    (h : ("@@".toList.zip p.toList).any (fun c => c.1 ≠ c.2) = true)
    (h' : ("@@ ".toList.zip p.toList).any (fun c => c.1 ≠ c.2) = true) :
    isHunk (p ++ t) = false := by
  rw [isHunk, startsWith, stripPrefix_append_of_clash t h',
    decide_eq_false (append_ne_of_clash t h)]
  rfl

/-- Every line of an update is read as what was written. -/
@[simp] theorem read_text (l : UpdateLine) : read l.text = some l := by
  cases l with
  | hunk anchor =>
    cases anchor with
    | none => rfl
    | some a =>
      have hhunk : isHunk ("@@ " ++ a) = true := by simp [isHunk, startsWith]
      rw [text, read, if_pos hhunk, stripPrefix_append]
  | eof => rfl
  | added t =>
    rw [text, read, isHunk_append_of_clash t (by decide) (by decide), if_neg Bool.false_ne_true,
      if_neg (append_ne_of_clash t (by decide)), stripPrefix_append]
  | removed t =>
    rw [text, read, isHunk_append_of_clash t (by decide) (by decide), if_neg Bool.false_ne_true,
      if_neg (append_ne_of_clash t (by decide)), stripPrefix_append,
      stripPrefix_append_of_clash t (by decide)]
  | context t =>
    rw [text, read, isHunk_append_of_clash t (by decide) (by decide), if_neg Bool.false_ne_true,
      if_neg (append_ne_of_clash t (by decide)), stripPrefix_append,
      stripPrefix_append_of_clash t (by decide), stripPrefix_append_of_clash t (by decide)]

/-- No line of an update ends its section. -/
@[simp] theorem endsSection_text (l : UpdateLine) : endsSection l.text = false := by
  have hclash {p : String} (t : String)
      (h : ("*** ".toList.zip p.toList).any (fun c => c.1 ≠ c.2) = true) :
      endsSection (p ++ t) = false := by
    rw [endsSection, startsWith, stripPrefix_append_of_clash t h]
    rfl
  cases l with
  | hunk anchor =>
    cases anchor with
    | none => decide
    | some a => exact hclash a (by decide)
  | eof => decide
  | added t => exact hclash t (by decide)
  | removed t => exact hclash t (by decide)
  | context t => exact hclash t (by decide)

theorem isLine_text {l : UpdateLine} (h : IsLine l.payload) : IsLine l.text := by
  have hlit : IsLine "@@" ∧ IsLine "@@ " ∧ IsLine endOfFile ∧ IsLine "+" ∧ IsLine "-" ∧
      IsLine " " := by
    simp only [IsLine]
    decide
  obtain ⟨hat, hat', heof, hplus, hminus, hblank⟩ := hlit
  cases l with
  | hunk anchor =>
    cases anchor with
    | none => exact hat
    | some a => exact hat'.append h
  | eof => exact heof
  | added t => exact hplus.append h
  | removed t => exact hminus.append h
  | context t => exact hblank.append h

end UpdateLine

/-! ### Hunks and sections -/

/-- One line of a hunk. -/
inductive HunkLine
  | context (text : String)
  | removed (text : String)
  | added (text : String)

/-- How a line of a hunk stands in an update. -/
def HunkLine.line : HunkLine → UpdateLine
  | context t => .context t
  | removed t => .removed t
  | added t => .added t

/-- A hunk of an update. -/
structure Hunk where
  anchor : Option String
  lines : List HunkLine
  eof : Bool

namespace Hunk

/-- How a hunk is printed: `@@` with its anchor, its lines, and the mark for the end of the file. -/
def text (h : Hunk) : List UpdateLine :=
  .hunk h.anchor :: h.lines.map HunkLine.line ++ if h.eof then [.eof] else []

/-- The chunk of a hunk: its old lines are those it keeps or removes, its new lines those it keeps
or adds. -/
def chunk (h : Hunk) : Chunk where
  anchor := h.anchor
  old := h.lines.filterMap fun
    | .context t => some t
    | .removed t => some t
    | .added _ => none
  new := h.lines.filterMap fun
    | .context t => some t
    | .removed _ => none
    | .added t => some t
  eof := h.eof

/-- A hunk has lines, and its lines and its anchor fit on lines. -/
structure WellFormed (h : Hunk) : Prop where
  nonempty : h.lines ≠ []
  lines : ∀ l ∈ h.lines, IsLine l.line.payload
  anchor : ∀ a ∈ h.anchor, IsLine a

/-- A printed hunk is a block. -/
theorem exists_block {h : Hunk} (hne : h.lines ≠ []) :
    ∃ b : Block, b.lines = h.text ∧ b.chunk = h.chunk ∧ b.head.isSome = true := by
  obtain ⟨l, ls, hls⟩ := List.exists_cons_of_ne_nil hne
  have hbody (l : HunkLine) : l.line.isBody = true := by cases l <;> rfl
  have hhead (l : HunkLine) : l.line.isHead = false := by cases l <;> rfl
  have heof (l : HunkLine) : (.eof == l.line) = false := by cases l <;> rfl
  let b : Block := {
    head := some h.anchor
    first := l.line
    rest := ls.map HunkLine.line ++ if h.eof then [.eof] else []
    body := hbody l
    headless := by
      intro l' hl'
      rcases List.mem_append.mp hl' with hl' | hl'
      · obtain ⟨l'', -, rfl⟩ := List.mem_map.mp hl'
        exact hhead l''
      · split_ifs at hl'
        · rw [List.mem_singleton.mp hl']
          rfl
        · cases hl' }
  have htail : b.tail = h.lines.map HunkLine.line ++ if h.eof then [.eof] else [] := by
    rw [hls]
    rfl
  refine ⟨b, ?_, ?_, rfl⟩
  · rw [Block.lines, htail]
    rfl
  · have hold : (if h.eof then [UpdateLine.eof] else []).filterMap UpdateLine.old = [] := by
      split_ifs <;> rfl
    have hnew : (if h.eof then [UpdateLine.eof] else []).filterMap UpdateLine.new = [] := by
      split_ifs <;> rfl
    rw [Block.chunk, htail, List.filterMap_append, List.filterMap_append, hold, hnew,
      List.append_nil, List.append_nil, List.filterMap_map, List.filterMap_map, chunk]
    congr 1
    · exact List.filterMap_congr fun l _ => by cases l <;> rfl
    · exact List.filterMap_congr fun l _ => by cases l <;> rfl
    · have hmap : (h.lines.map HunkLine.line).contains .eof = false := by
        rw [List.contains_eq_any_beq, List.any_map]
        exact List.any_eq_false.mpr fun l _ => by simp [heof l]
      rw [List.contains_append, hmap, Bool.false_or]
      cases h.eof <;> rfl

/-- The lines of printed hunks make their chunks. -/
theorem chunksOf_flatMap_text {hunks : List Hunk} (hne : ∀ h ∈ hunks, h.lines ≠ []) :
    chunksOf (hunks.flatMap text) = hunks.map chunk := by
  have hblocks : ∃ bs : List Block, bs.flatMap Block.lines = hunks.flatMap text ∧
      bs.map Block.chunk = hunks.map chunk ∧ ∀ b ∈ bs, b.head.isSome = true := by
    induction hunks with
    | nil => exact ⟨[], rfl, rfl, by simp⟩
    | cons h hunks ih =>
      obtain ⟨bs, hlines, hchunks, hheads⟩ := ih fun h' hh' => hne h' (List.mem_cons_of_mem _ hh')
      obtain ⟨b, hb, hchunk, hhead⟩ := exists_block (hne h List.mem_cons_self)
      exact ⟨b :: bs, by simp [hb, hlines], by simp [hchunk, hchunks],
        List.forall_mem_cons.mpr ⟨hhead, hheads⟩⟩
  obtain ⟨bs, hlines, hchunks, hheads⟩ := hblocks
  rw [← hlines, ← hchunks]
  refine chunksOf_flatMap_lines fun head hhead => ?_
  obtain ⟨b, hb, rfl⟩ := List.mem_map.mp (List.mem_of_mem_tail hhead)
  exact hheads b hb

end Hunk

/-- A section of a patch. -/
inductive PatchSection
  | add (path : String) (lines : List String)
  | delete (path : String)
  | update (path : String) (moveTo : Option String) (hunks : List Hunk)

namespace PatchSection

/-- The header of a section. -/
def header : PatchSection → String
  | add path _ => "*** Add File: " ++ path
  | delete path => "*** Delete File: " ++ path
  | update path _ _ => "*** Update File: " ++ path

/-- The header of a section ends the one before it. -/
theorem endsSection_header (s : PatchSection) : endsSection s.header = true := by
  have hheader {p q : String} (path : String) (hp : p = "*** " ++ q)
      (hclash : (endOfFile.toList.zip p.toList).any (fun c => c.1 ≠ c.2) = true) :
      endsSection (p ++ path) = true := by
    rw [endsSection, decide_eq_true (append_ne_of_clash path hclash), Bool.and_true,
      startsWith_iff, hp, String.append_assoc]
    exact ⟨_, rfl⟩
  cases s with
  | add path lines => exact hheader path (q := "Add File: ") (by decide) (by decide)
  | delete path => exact hheader path (q := "Delete File: ") (by decide) (by decide)
  | update path moveTo hunks => exact hheader path (q := "Update File: ") (by decide) (by decide)

/-- The lines of a section behind its header. -/
def body : PatchSection → List String
  | add _ lines => lines.map ("+" ++ ·)
  | delete _ => []
  | update _ moveTo hunks =>
    (moveTo.map ("*** Move to: " ++ ·)).toList ++ (hunks.flatMap Hunk.text).map UpdateLine.text

/-- The section that the parser is to give: an added file is made of the lines, each with a
newline. -/
def parsed : PatchSection → Section
  | add path lines => .add path (terminated lines)
  | delete path => .delete path
  | update path moveTo hunks => .update path moveTo (hunks.map Hunk.chunk)

/-- A section as it stands in the text. -/
def source : PatchSection → SectionText
  | add path lines => .add path lines
  | delete path => .delete path
  | update path moveTo hunks => .update path moveTo (hunks.flatMap Hunk.text)

/-- Paths are paths, lines fit on lines, and an update has hunks. -/
def WellFormed : PatchSection → Prop
  | add path lines => IsPath path ∧ ∀ l ∈ lines, IsLine l
  | delete path => IsPath path
  | update path moveTo hunks =>
    IsPath path ∧ (∀ target ∈ moveTo, IsPath target) ∧ hunks ≠ [] ∧ ∀ h ∈ hunks, h.WellFormed

end PatchSection

/-- The text of a patch. -/
def printPatch (sections : List PatchSection) : String :=
  "\n".intercalate
    ("*** Begin Patch" :: sections.flatMap (fun s => s.header :: s.body) ++ ["*** End Patch"])

/-! ### Reading what was printed -/

section Read

variable {number : ℕ} {rest : List String}

/-- The lines of an added file. -/
theorem read_adding (path : String) (ls ls' : List String) :
    ∃ number', read number (.adding path ls) (ls'.map ("+" ++ ·) ++ rest) =
      read number' (.adding path (ls ++ ls')) rest := by
  induction ls' generalizing number ls with
  | nil => exact ⟨number, by rw [List.map_nil, List.nil_append, List.append_nil]⟩
  | cons l ls' ih =>
    have hends : (ReadState.adding path ls).ends ("+" ++ l) = false := by
      rw [ReadState.ends, startsWith, stripPrefix_append_of_clash l (by decide)]
      rfl
    obtain ⟨number', hread⟩ := @ih (number + 1) (ls ++ [l])
    refine ⟨number', ?_⟩
    rw [List.map_cons, List.cons_append, read_cons_of_content hends, ReadState.content,
      stripPrefix_append]
    dsimp only
    rw [hread, List.append_assoc, List.singleton_append]

/-- The lines of an update. -/
theorem read_updating (path : String) (moveTo : Option String) (ls ls' : List UpdateLine) :
    ∃ number', read number (.updating path moveTo ls) (ls'.map UpdateLine.text ++ rest) =
      read number' (.updating path moveTo (ls ++ ls')) rest := by
  induction ls' generalizing number ls with
  | nil => exact ⟨number, by rw [List.map_nil, List.nil_append, List.append_nil]⟩
  | cons l ls' ih =>
    obtain ⟨number', hread⟩ := @ih (number + 1) (ls ++ [l])
    refine ⟨number', ?_⟩
    rw [List.map_cons, List.cons_append,
      read_cons_of_content (by rw [ReadState.ends, UpdateLine.endsSection_text]),
      ReadState.content, ReadState.update, UpdateLine.read_text]
    dsimp only
    rw [hread, List.append_assoc, List.singleton_append]

/-- The head of a hunk is not read as the target of a move. -/
theorem moveTarget_hunk (anchor : Option String) :
    moveTarget (UpdateLine.hunk anchor).text = none := by
  have hat (l : List Char) : ∃ l', trim (String.ofList ('@' :: l)) = "@" ++ String.ofList l' := by
    refine ⟨l.rdropWhile isWhitespace, ?_⟩
    have hdrop : ('@' :: l).rdropWhile isWhitespace = '@' :: l.rdropWhile isWhitespace := by
      rw [List.rdropWhile, List.rdropWhile, List.reverse_cons, List.dropWhile_append]
      split_ifs with hnil
      · rw [List.isEmpty_iff.mp hnil]
        rfl
      · rw [List.reverse_append]
        rfl
    rw [trim, String.toList_ofList, List.dropWhile_cons_of_neg (by decide), hdrop,
      ← String.toList_inj]
    simp
  cases anchor with
  | none => rfl
  | some a =>
    obtain ⟨l, hl⟩ := hat ("@ ".toList ++ a.toList)
    have htext : (UpdateLine.hunk (some a)).text =
        String.ofList ('@' :: ("@ ".toList ++ a.toList)) := by
      rw [← String.toList_inj]
      simp [UpdateLine.text]
    rw [moveTarget, htext, hl, stripPrefix_append_of_clash _ (by decide)]

/-- The header of a section is none of the directives about where a patch is to be applied. -/
theorem isRouting_append_of_clash {p : String} (t : String)
    (h : ("*** Environment ID:".toList.zip p.toList).any (fun c => c.1 ≠ c.2) = true)
    (h' : ("*** Workdir:".toList.zip p.toList).any (fun c => c.1 ≠ c.2) = true)
    (h'' : ("*** Workdir ".toList.zip p.toList).any (fun c => c.1 ≠ c.2) = true) :
    isRouting (p ++ t) = false := by
  rw [isRouting, startsWith, startsWith, startsWith, stripPrefix_append_of_clash t h,
    stripPrefix_append_of_clash t h', stripPrefix_append_of_clash t h'']
  rfl

theorem header_add {path : String} (h : IsPath path) :
    ReadState.header number ("*** Add File: " ++ path) = .ok ([], .adding path []) := by
  rw [ReadState.header, trim_header (by simp [isWhitespace]) (by decide) h,
    isRouting_append_of_clash path (by decide) (by decide) (by decide),
    stripPrefix_append "*** Add File: " path]
  rfl

theorem header_delete {path : String} (h : IsPath path) :
    ReadState.header number ("*** Delete File: " ++ path) = .ok ([.delete path], .between) := by
  have hadd : stripPrefix "*** Add File: " ("*** Delete File: " ++ path) = none :=
    stripPrefix_append_of_clash path (by decide)
  rw [ReadState.header, trim_header (by simp [isWhitespace]) (by decide) h,
    isRouting_append_of_clash path (by decide) (by decide) (by decide), hadd,
    stripPrefix_append "*** Delete File: " path]
  rfl

theorem header_update {path : String} (h : IsPath path) :
    ReadState.header number ("*** Update File: " ++ path) = .ok ([], .opened path) := by
  have hadd : stripPrefix "*** Add File: " ("*** Update File: " ++ path) = none :=
    stripPrefix_append_of_clash path (by decide)
  have hdelete : stripPrefix "*** Delete File: " ("*** Update File: " ++ path) = none :=
    stripPrefix_append_of_clash path (by decide)
  rw [ReadState.header, trim_header (by simp [isWhitespace]) (by decide) h,
    isRouting_append_of_clash path (by decide) (by decide) (by decide), hadd, hdelete,
    stripPrefix_append "*** Update File: " path]
  rfl

/-- A printed section is read, whatever follows it, as long as a header comes first. -/
theorem read_section {s : PatchSection} (hs : s.WellFormed)
    (hrest : ∀ line ∈ rest.head?, endsSection line = true) :
    ∃ number', read number .between (s.header :: s.body ++ rest) =
      (read number' .between rest).map (s.source :: ·) := by
  have hrest' : ∀ line ∈ rest.head?, startsWith "*** " line = true := fun line hline =>
    (Bool.and_eq_true_iff.mp (hrest line hline)).1
  have hopen {r : List SectionText × ReadState}
      (hheader : ReadState.header number s.header = .ok r) :
      read number .between (s.header :: s.body ++ rest) =
        (read (number + 1) r.2 (s.body ++ rest)).map (r.1 ++ ·) := by
    rw [List.cons_append, read, ReadState.step, if_pos (ReadState.ends_between _),
      ReadState.close_between, hheader]
    rfl
  have hid (x : Result (List SectionText)) : x.map ([] ++ ·) = x := by cases x <;> rfl
  cases s with
  | add path lines =>
    obtain ⟨hpath, -⟩ := hs
    obtain ⟨number', hread⟩ := @read_adding (number + 1) rest path [] lines
    refine ⟨number', ?_⟩
    rw [hopen (header_add hpath), hid, PatchSection.body, hread, List.nil_append,
      read_of_close rfl (by simpa [ReadState.ends] using hrest')]
    rfl
  | delete path =>
    refine ⟨number + 1, ?_⟩
    rw [hopen (header_delete hs)]
    rfl
  | update path moveTo hunks =>
    obtain ⟨hpath, hmove, hne, hhunks⟩ := hs
    have hchunks : chunksOf (hunks.flatMap Hunk.text) ≠ [] := by
      rw [Hunk.chunksOf_flatMap_text fun h hh => (hhunks h hh).nonempty]
      simpa using hne
    -- behind the header, and the move if there is one, the lines of the hunks are read
    have hlines : ∃ number', read (number + 1) (.opened path)
        ((PatchSection.update path moveTo hunks).body ++ rest) =
          read number' (.updating path moveTo (hunks.flatMap Hunk.text)) rest := by
      cases moveTo with
      | some target =>
        have htarget : moveTarget ("*** Move to: " ++ target) = some target := by
          rw [moveTarget, trim_header (by simp [isWhitespace]) (by decide) (hmove target rfl),
            stripPrefix_append]
        obtain ⟨number', hread⟩ :=
          @read_updating (number + 1 + 1) rest path (some target) [] (hunks.flatMap Hunk.text)
        refine ⟨number', ?_⟩
        rw [PatchSection.body, Option.map_some, Option.toList_some, List.singleton_append,
          List.cons_append, read_cons_of_content (by simp [ReadState.ends, htarget]),
          ReadState.content, htarget]
        exact hread
      | none =>
        obtain ⟨h, hunks', rfl⟩ := List.exists_cons_of_ne_nil hne
        obtain ⟨number', hread⟩ := @read_updating (number + 1 + 1) rest path none
          [.hunk h.anchor] (h.text.tail ++ hunks'.flatMap Hunk.text)
        refine ⟨number', ?_⟩
        have htarget := moveTarget_hunk h.anchor
        have hflat : (h :: hunks').flatMap Hunk.text =
            .hunk h.anchor :: (h.text.tail ++ hunks'.flatMap Hunk.text) := rfl
        rw [PatchSection.body, Option.map_none, Option.toList_none, List.nil_append, hflat,
          List.map_cons, List.cons_append,
          read_cons_of_content (by simp [ReadState.ends, htarget]), ReadState.content, htarget]
        dsimp only
        rw [ReadState.update, UpdateLine.read_text]
        exact hread
    obtain ⟨number', hread⟩ := hlines
    refine ⟨number', ?_⟩
    rw [hopen (header_update hpath), hid, hread,
      read_of_close (ReadState.close_updating hchunks path moveTo) hrest]
    rfl

/-- All printed sections are read. -/
theorem read_sections {sections : List PatchSection} (hs : ∀ s ∈ sections, s.WellFormed) :
    read number .between (sections.flatMap fun s => s.header :: s.body) =
      .ok (sections.map PatchSection.source) := by
  induction sections generalizing number with
  | nil => rfl
  | cons s sections ih =>
    have hrest : ∀ line ∈ (sections.flatMap fun s => s.header :: s.body).head?,
        endsSection line = true := by
      cases sections with
      | nil => intro line hline; cases hline
      | cons s' sections =>
        intro line hline
        obtain rfl : s'.header = line := Option.some.inj hline
        exact s'.endsSection_header
    obtain ⟨number', hread⟩ := @read_section number _ s (hs s List.mem_cons_self) hrest
    rw [List.flatMap_cons, hread, ih fun s' hs' => hs s' (List.mem_cons_of_mem _ hs')]
    rfl

end Read

/-- The lines of a printed section are lines. -/
theorem PatchSection.isLine_of_mem {s : PatchSection} (hs : s.WellFormed) :
    ∀ line ∈ s.header :: s.body, IsLine line := by
  have hlit : IsLine "*** Add File: " ∧ IsLine "*** Delete File: " ∧ IsLine "*** Update File: " ∧
      IsLine "*** Move to: " ∧ IsLine "+" := by
    simp only [IsLine]
    decide
  obtain ⟨hadd, hdelete, hupdate, hmove, hplus⟩ := hlit
  cases s with
  | add path lines =>
    refine List.forall_mem_cons.mpr ⟨hadd.append hs.1.isLine, fun line hline => ?_⟩
    obtain ⟨l, hl, rfl⟩ := List.mem_map.mp hline
    exact hplus.append (hs.2 l hl)
  | delete path =>
    exact List.forall_mem_cons.mpr ⟨hdelete.append hs.isLine, fun line hline => nomatch hline⟩
  | update path moveTo hunks =>
    obtain ⟨hpath, htarget, -, hhunks⟩ := hs
    refine List.forall_mem_cons.mpr ⟨hupdate.append hpath.isLine, fun line hline => ?_⟩
    rcases List.mem_append.mp hline with hline | hline
    · obtain ⟨target, htarget', rfl⟩ := Option.map_eq_some_iff.mp (Option.mem_toList.mp hline)
      exact hmove.append (htarget target htarget').isLine
    · obtain ⟨l, hl, rfl⟩ := List.mem_map.mp hline
      obtain ⟨h, hh, hl⟩ := List.mem_flatMap.mp hl
      refine UpdateLine.isLine_text ?_
      have hempty : IsLine "" := by
        simp only [IsLine]
        decide
      rcases List.mem_append.mp hl with hl | hl
      · rcases List.mem_cons.mp hl with rfl | hl
        · cases hanchor : h.anchor with
          | none => exact hempty
          | some a => exact (hhunks h hh).anchor a hanchor
        · obtain ⟨l', hl', rfl⟩ := List.mem_map.mp hl
          exact (hhunks h hh).lines l' hl'
      · split_ifs at hl
        · rw [List.mem_singleton.mp hl]
          exact hempty
        · cases hl

/-- The lines of a printed patch. -/
theorem patchLines_printPatch {sections : List PatchSection}
    (hs : ∀ s ∈ sections, s.WellFormed) :
    patchLines (printPatch sections) =
      "*** Begin Patch" :: sections.flatMap (fun s => s.header :: s.body) ++
        ["*** End Patch"] := by
  set ls := sections.flatMap fun s => s.header :: s.body with hls
  have hmem : ∀ line ∈ "*** Begin Patch" :: ls ++ ["*** End Patch"], IsLine line := by
    intro line hline
    have hframe : IsLine "*** Begin Patch" ∧ IsLine "*** End Patch" := by
      simp only [IsLine]
      decide
    rcases List.mem_append.mp hline with hline | hline
    · rcases List.mem_cons.mp hline with rfl | hline
      · exact hframe.1
      · obtain ⟨s, hs', hline⟩ := List.mem_flatMap.mp hline
        exact PatchSection.isLine_of_mem (hs s hs') line hline
    · rw [List.mem_singleton.mp hline]
      exact hframe.2
  have hreturn (line : String) (h : IsLine line) : stripReturn line = line := if_neg h.2
  have hlast : ("*** Begin Patch" :: ls ++ ["*** End Patch"]).getLast? = some "*** End Patch" :=
    List.getLast?_concat
  -- nothing is trimmed from the first line or from the last one
  have htrim : trim (printPatch sections) = printPatch sections := by
    have hsplit : ∃ t, printPatch sections = "*** Begin Patch" ++ t ++ "*** End Patch" := by
      rw [printPatch, ← hls]
      obtain ⟨t, ht⟩ : ∃ t, "\n".intercalate (ls ++ ["*** End Patch"]) = t ++ "*** End Patch" := by
        generalize ls = ls'
        induction ls' with
        | nil => exact ⟨"", rfl⟩
        | cons l ls' ih =>
          obtain ⟨t, ht⟩ := ih
          refine ⟨l ++ "\n" ++ t, ?_⟩
          rw [List.cons_append, String.intercalate_cons_of_ne_nil (by simp), ht]
          simp [String.append_assoc]
      refine ⟨"\n" ++ t, ?_⟩
      rw [List.cons_append, String.intercalate_cons_of_ne_nil (by simp), ht, String.append_assoc,
        String.append_assoc, String.append_assoc]
    obtain ⟨t, ht⟩ := hsplit
    rw [ht, trim_eq_self_iff, String.toList_append, String.toList_append]
    constructor
    · rw [List.append_assoc, List.head?_append_of_ne_nil _ (by decide)]
      simp [isWhitespace]
    · rw [List.getLast?_append_of_ne_nil _ (by decide)]
      simp [isWhitespace]
  rw [patchLines, htrim, printPatch, ← hls,
    lines_intercalate (fun line hline => (hmem line hline).1) (by simp) (by rw [hlast]; decide),
    hlast, List.dropLast_concat, List.map_append, List.map_map]
  refine congrArg₂ (· ++ ·) ?_ rfl
  conv_rhs => rw [← List.map_id ("*** Begin Patch" :: ls)]
  refine List.map_congr_left fun line hline => ?_
  have hline' := hreturn line (hmem line (List.mem_append_left _ hline))
  simp only [Function.comp_apply, hline', id_eq]

/-- **Parsing a printed patch.** The sections of a patch come back as they were printed: added
files with their lines, updates with their moves, and hunks with their anchors, old and new
lines, and marks for the end of the file. And the parser has a result for every text: it ends,
and never leaves the lines. -/
theorem parseCodex_printPatch :
    (∀ sections : List PatchSection, (∀ s ∈ sections, s.WellFormed) →
      parseCodex (printPatch sections) = some (.ok (sections.map PatchSection.parsed))) ∧
    ∀ text, (parseCodex text).isSome = true := by
  refine ⟨fun sections hs => ?_, fun text => by rw [parseCodex_eq_read]; rfl⟩
  have hparsed (s : PatchSection) (h : s.WellFormed) : s.source.parsed = s.parsed := by
    cases s with
    | add path lines => rfl
    | delete path => rfl
    | update path moveTo hunks =>
      obtain ⟨-, -, -, hhunks⟩ := h
      rw [PatchSection.source, SectionText.parsed,
        Hunk.chunksOf_flatMap_text fun h hh => (hhunks h hh).nonempty]
      rfl
  rw [parseCodex_eq_read, readCodex, patchLines_printPatch hs]
  have hframe : (("*** Begin Patch" :: sections.flatMap (fun s => s.header :: s.body) ++
        ["*** End Patch"]).head?.all (fun l => trim l ≠ "*** Begin Patch") ||
      ("*** Begin Patch" :: sections.flatMap (fun s => s.header :: s.body) ++
        ["*** End Patch"]).getLast?.all fun l => trim l ≠ "*** End Patch") = false := by
    have hbegin : trim "*** Begin Patch" = "*** Begin Patch" := by decide +kernel
    have hend : trim "*** End Patch" = "*** End Patch" := by decide +kernel
    rw [List.getLast?_concat, List.cons_append, List.head?_cons, Option.all_some, Option.all_some,
      hbegin, hend]
    rfl
  rw [hframe, if_neg Bool.false_ne_true, List.dropLast_concat, List.tail_cons, read_sections hs]
  refine congrArg (fun ss => some (Except.ok ss)) ?_
  rw [List.map_map]
  exact List.map_congr_left fun s h => hparsed s (hs s h)

/-- An update with a hunk whose lines look like directives. -/
theorem parseCodex_printPatch_directives :
    parseCodex (printPatch [.update "a" none
        [⟨some "*** End Patch", [.context "*** Move to: b", .added "@@", .removed ""], true⟩]]) =
      some (.ok [.update "a" none
        [⟨some "*** End Patch", ["*** Move to: b", ""], ["*** Move to: b", "@@"], true⟩]]) := by
  refine parseCodex_printPatch.1 _ fun s hs => ?_
  rw [List.mem_singleton.mp hs]
  have hpath : IsPath "a" := ⟨by decide, by decide +kernel, by decide⟩
  refine ⟨hpath, nofun, by decide, fun h hh => ?_⟩
  rw [List.mem_singleton.mp hh]
  refine ⟨by decide, fun l hl => ?_, fun a ha => ?_⟩
  · simp only [List.mem_cons, List.not_mem_nil, or_false] at hl
    rcases hl with rfl | rfl | rfl <;> exact ⟨by decide, by decide⟩
  · obtain rfl := Option.some.inj ha
    exact ⟨by decide, by decide⟩

end ExecutionProvider.Patch

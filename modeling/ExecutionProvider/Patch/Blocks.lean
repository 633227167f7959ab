import ExecutionProvider.Patch.Reader

/-!
# The hunks of an update

The lines of an update fall into blocks. A block begins with the head of a hunk, which only the
first block may lack; then comes at least one line that is added, removed or kept, and then any
number of such lines and of marks for the end of the file. Where the lines are laid out in
blocks, the parser makes one chunk of each of them.

## Main definitions

* `UpdateLine.old`, `UpdateLine.new`: what a line contributes to the two sides of its chunk.
* `Block`: the lines of one hunk, and the chunk that they stand for.

## Main results

* `chunksOf_flatMap_lines`: the chunks of lines that are laid out in blocks.
-/

namespace ExecutionProvider.Patch

namespace UpdateLine

/-- What a line contributes to the expected lines. -/
def old : UpdateLine → Option String
  | removed t => some t
  | context t => some t
  | _ => none

/-- What a line contributes to the new lines. -/
def new : UpdateLine → Option String
  | added t => some t
  | context t => some t
  | _ => none

/-- Whether a line is the head of a hunk. -/
def isHead : UpdateLine → Bool
  | hunk _ => true
  | _ => false

/-- Whether a line is added, removed or kept. -/
def isBody : UpdateLine → Bool
  | hunk _ => false
  | eof => false
  | _ => true

end UpdateLine

/-- The lines of one hunk: its head, if there is one, its first line, and the rest. -/
structure Block where
  head : Option (Option String)
  first : UpdateLine
  rest : List UpdateLine
  body : first.isBody = true
  headless : ∀ l ∈ rest, l.isHead = false

namespace Block

/-- The lines after the head. -/
def tail (b : Block) : List UpdateLine := b.first :: b.rest

/-- All lines of a hunk. -/
def lines (b : Block) : List UpdateLine := (b.head.map UpdateLine.hunk).toList ++ b.tail

/-- The chunk that the lines of a hunk stand for. -/
def chunk (b : Block) : Chunk :=
  ⟨b.head.join, b.tail.filterMap UpdateLine.old, b.tail.filterMap UpdateLine.new,
    b.tail.contains .eof⟩

theorem isHead_of_mem_tail (b : Block) {l : UpdateLine} (h : l ∈ b.tail) : l.isHead = false := by
  rcases List.mem_cons.mp h with rfl | h
  · have hbody := b.body
    cases hfirst : b.first with
    | hunk anchor => rw [hfirst] at hbody; cases hbody
    | _ => rfl
  · exact b.headless l h

end Block

/-! ### The chunks of blocks -/

/-- Lines without a head are collected into the current chunk. -/
theorem foldl_next_of_headless (chunks : List Chunk) (anchor : Option String)
    (ls : List UpdateLine) (hls : ∀ l ∈ ls, l.isHead = false) (old new : List String)
    (eof active : Bool) :
    ls.foldl UpdateState.next ⟨chunks, ⟨anchor, old, new, eof⟩, active⟩ =
      ⟨chunks, ⟨anchor, old ++ ls.filterMap UpdateLine.old, new ++ ls.filterMap UpdateLine.new,
        eof || ls.contains .eof⟩, active || ls.any UpdateLine.isBody⟩ := by
  induction ls generalizing old new eof active with
  | nil => simp
  | cons l ls ih =>
    have hrest := ih fun l' hl' => hls l' (List.mem_cons_of_mem _ hl')
    cases l with
    | hunk anchor => exact absurd (hls _ List.mem_cons_self) (by simp [UpdateLine.isHead])
    | eof =>
      rw [List.foldl_cons, UpdateState.next, hrest]
      simp [List.filterMap_cons, UpdateLine.old, UpdateLine.new, UpdateLine.isBody]
    | added t =>
      rw [List.foldl_cons, UpdateState.next, hrest]
      simp [List.filterMap_cons, UpdateLine.old, UpdateLine.new, UpdateLine.isBody]
    | removed t =>
      rw [List.foldl_cons, UpdateState.next, hrest]
      simp [List.filterMap_cons, UpdateLine.old, UpdateLine.new, UpdateLine.isBody]
    | context t =>
      rw [List.foldl_cons, UpdateState.next, hrest]
      simp [UpdateLine.old, UpdateLine.new, UpdateLine.isBody]

/-- The lines of a hunk after its head. -/
theorem Block.foldl_next_tail (b : Block) (chunks : List Chunk) (anchor : Option String)
    (active : Bool) :
    b.tail.foldl UpdateState.next ⟨chunks, ⟨anchor, [], [], false⟩, active⟩ =
      ⟨chunks, { b.chunk with anchor := anchor }, true⟩ := by
  have hbody : b.tail.any UpdateLine.isBody = true :=
    List.any_eq_true.mpr ⟨b.first, List.mem_cons_self, b.body⟩
  rw [foldl_next_of_headless chunks anchor b.tail fun l hl => b.isHead_of_mem_tail hl]
  simp [Block.chunk, hbody]

/-- A chunk that was made of a hunk has lines. -/
theorem Block.filled (b : Block) (chunks : List Chunk) (anchor : Option String) :
    UpdateState.filled ⟨chunks, { b.chunk with anchor := anchor }, true⟩ = true := by
  have hbody := b.body
  cases hfirst : b.first with
  | hunk anchor => rw [hfirst] at hbody; cases hbody
  | eof => rw [hfirst] at hbody; cases hbody
  | _ =>
    simp [UpdateState.filled, Block.chunk, Block.tail, hfirst, List.filterMap_cons,
      UpdateLine.old, UpdateLine.new]

/-- The lines of a hunk with a head, after a chunk that has lines or before any chunk. -/
theorem Block.foldl_next (b : Block) {anchor : Option String} (hhead : b.head = some anchor)
    {s : UpdateState} (hs : s.filled = true ∨ s = .init) :
    b.lines.foldl UpdateState.next s = ⟨s.finish, b.chunk, true⟩ := by
  have hnext : s.next (.hunk anchor) = ⟨s.finish, ⟨anchor, [], [], false⟩, true⟩ := by
    rcases hs with hs | rfl
    · rw [UpdateState.next, if_pos hs]
    · rfl
  have hchunk : { b.chunk with anchor := anchor } = b.chunk := by
    rw [Block.chunk, hhead]
    rfl
  rw [Block.lines, hhead, Option.map_some, Option.toList_some, List.singleton_append,
    List.foldl_cons, hnext, b.foldl_next_tail, hchunk]

theorem Block.finish_foldl_next : (bs : List Block) →
    (∀ b ∈ bs, b.head.isSome = true) → {s : UpdateState} → s.filled = true ∨ s = .init →
    ((bs.flatMap Block.lines).foldl UpdateState.next s).finish = s.finish ++ bs.map Block.chunk
  | [], _, s, _ => (List.append_nil _).symm
  | b :: bs, hheads, s, hs => by
    obtain ⟨anchor, hhead⟩ := Option.isSome_iff_exists.mp (hheads b List.mem_cons_self)
    have hfilled : UpdateState.filled ⟨s.finish, b.chunk, true⟩ = true := b.filled _ b.chunk.anchor
    rw [List.flatMap_cons, List.foldl_append, b.foldl_next hhead hs,
      finish_foldl_next bs (fun b' hb' => hheads b' (List.mem_cons_of_mem _ hb')) (Or.inl hfilled),
      UpdateState.finish, if_pos hfilled, List.map_cons, List.append_assoc, List.singleton_append]

/-- **The chunks of an update.** Lines that are laid out in blocks, all but the first of them with
heads, make one chunk of each block. -/
theorem chunksOf_flatMap_lines {bs : List Block}
    (hheads : ∀ head ∈ (bs.map Block.head).tail, head.isSome = true) :
    chunksOf (bs.flatMap Block.lines) = bs.map Block.chunk := by
  cases bs with
  | nil => rfl
  | cons b bs =>
    have hrest (b' : Block) (hb' : b' ∈ bs) : b'.head.isSome = true :=
      hheads _ (List.mem_map_of_mem hb')
    cases hhead : b.head with
    | some anchor =>
      refine (Block.finish_foldl_next (b :: bs) (fun b' hb' => ?_) (Or.inr rfl)).trans
        (List.nil_append _)
      rcases List.mem_cons.mp hb' with rfl | hb'
      · rw [hhead]
        rfl
      · exact hrest b' hb'
    | none =>
      have hchunk : { b.chunk with anchor := none } = b.chunk := by
        rw [Block.chunk, hhead]
        rfl
      have hfilled : UpdateState.filled ⟨[], b.chunk, true⟩ = true := b.filled _ b.chunk.anchor
      have hlines : b.lines = b.tail := by rw [Block.lines, hhead]; rfl
      rw [chunksOf, List.flatMap_cons, List.foldl_append, hlines, UpdateState.init,
        b.foldl_next_tail, hchunk, Block.finish_foldl_next bs hrest (Or.inl hfilled),
        UpdateState.finish, if_pos hfilled]
      rfl

end ExecutionProvider.Patch

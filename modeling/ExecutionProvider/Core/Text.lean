import Mathlib.Data.List.DropRight
import Mathlib.Data.String.Basic

/-!
# Text

What the standard library of the source offers on texts and this one does not.

## Main definitions

* `isWhitespace`: the characters that count as white space.
* `trimEnd`, `trimStart`, `trim`: a text without the white space around it.
* `stripPrefix`, `startsWith`: what a text begins with.
* `lines`: the lines of a text, without their terminators.
-/

namespace ExecutionProvider

/-- The characters with the Unicode property `White_Space`. -/
def isWhitespace (c : Char) : Bool :=
  let n := c.toNat
  (0x9 ≤ n && n ≤ 0xD) || n == 0x20 || n == 0x85 || n == 0xA0 || n == 0x1680 ||
    (0x2000 ≤ n && n ≤ 0x200A) || n == 0x2028 || n == 0x2029 || n == 0x202F || n == 0x205F ||
    n == 0x3000

/-- A line without the white space at its end. -/
def trimEnd (s : String) : String := String.ofList (s.toList.rdropWhile isWhitespace)

/-- A line without the white space before it. -/
def trimStart (s : String) : String := String.ofList (s.toList.dropWhile isWhitespace)

/-- A line without the white space at either end. -/
def trim (s : String) : String :=
  String.ofList ((s.toList.dropWhile isWhitespace).rdropWhile isWhitespace)

/-- What follows a prefix. -/
def stripPrefix (p s : String) : Option String :=
  if p.toList.isPrefixOf s.toList then some (String.ofList (s.toList.drop p.toList.length))
  else none

/-- Whether a text begins with a prefix. -/
def startsWith (p s : String) : Bool := (stripPrefix p s).isSome

/-- A text without the carriage return at its end. -/
def stripReturn (s : String) : String :=
  if s.toList.getLast? = some '\r' then String.ofList s.toList.dropLast else s

/-- The lines of a text. A line ends in a newline, before which there may be a carriage return;
nothing stands behind the newline at the end of the text. -/
def lines (text : String) : List String :=
  let parts := (text.toList.splitOn '\n').map String.ofList
  parts.dropLast.map stripReturn ++ if parts.getLast? = some "" then [] else parts.getLast?.toList

theorem stripPrefix_eq_some {p s t : String} : stripPrefix p s = some t ↔ s = p ++ t := by
  rw [stripPrefix]
  constructor
  · intro h
    split_ifs at h with hp
    obtain ⟨u, hu⟩ := List.isPrefixOf_iff_prefix.mp hp
    obtain rfl := Option.some.inj h
    rw [← String.toList_inj, String.toList_append, String.toList_ofList, ← hu,
      List.drop_left]
  · rintro rfl
    rw [String.toList_append, if_pos (List.isPrefixOf_iff_prefix.mpr (List.prefix_append _ _)),
      List.drop_left, String.ofList_toList]

@[simp] theorem stripPrefix_append (p t : String) : stripPrefix p (p ++ t) = some t :=
  stripPrefix_eq_some.mpr rfl

/-- A text does not begin with a prefix from which it differs in some character. -/
theorem stripPrefix_append_of_clash {p q : String} (t : String)
    (h : (p.toList.zip q.toList).any (fun c => c.1 ≠ c.2) = true) :
    stripPrefix p (q ++ t) = none := by
  have hclash (l m n : List Char) (h : (l.zip m).any (fun c => c.1 ≠ c.2) = true) :
      ¬ l <+: m ++ n := by
    induction l generalizing m with
    | nil => simp at h
    | cons c l ih =>
      cases m with
      | nil => simp at h
      | cons d m =>
        rw [List.cons_append, List.cons_prefix_cons]
        rintro ⟨rfl, hprefix⟩
        exact ih m (by simpa using h) hprefix
  rw [stripPrefix, String.toList_append, if_neg]
  exact fun hprefix => hclash _ _ _ h (List.isPrefixOf_iff_prefix.mp hprefix)

theorem append_ne_of_clash {p q : String} (t : String)
    (h : (p.toList.zip q.toList).any (fun c => c.1 ≠ c.2) = true) : q ++ t ≠ p := by
  intro heq
  have hnone := stripPrefix_append_of_clash t h
  rw [heq, stripPrefix_eq_some.mpr (show p = p ++ "" from String.append_empty.symm)] at hnone
  cases hnone

theorem startsWith_iff {p s : String} : startsWith p s = true ↔ ∃ t, s = p ++ t := by
  rw [startsWith, Option.isSome_iff_exists]
  exact exists_congr fun t => stripPrefix_eq_some

theorem rdropWhile_cons {α : Type*} (p : α → Bool) (a : α) (l : List α) :
    (a :: l).rdropWhile p =
      if l.rdropWhile p = [] then [a].rdropWhile p else a :: l.rdropWhile p := by
  by_cases hl : l.reverse.dropWhile p = []
  · simp [List.rdropWhile, List.dropWhile_append, hl]
  · simp [List.rdropWhile, List.dropWhile_append, hl]

theorem rdropWhile_dropWhile {α : Type*} (p : α → Bool) (l : List α) :
    (l.dropWhile p).rdropWhile p = (l.rdropWhile p).dropWhile p := by
  induction l with
  | nil => rfl
  | cons a l ih =>
    rw [rdropWhile_cons, List.dropWhile_cons]
    by_cases ha : p a = true
    · rw [if_pos ha, ih]
      split_ifs with hl
      · rw [hl, List.rdropWhile_singleton, if_pos ha]
      · rw [List.dropWhile_cons_of_pos ha]
    · rw [if_neg ha, rdropWhile_cons]
      split_ifs with hl
      · rw [List.rdropWhile_singleton, if_neg ha, List.dropWhile_cons_of_neg ha]
      · rw [List.dropWhile_cons_of_neg ha]

/-- White space at the start of a line and at its end are removed in either order. -/
theorem trim_eq_trimStart_trimEnd (s : String) : trim s = trimStart (trimEnd s) := by
  rw [trim, rdropWhile_dropWhile, trimStart, trimEnd, String.toList_ofList]

/-- A text that neither begins nor ends with white space is left alone. -/
theorem trim_eq_self_iff {s : String} :
    trim s = s ↔ (∀ c ∈ s.toList.head?, isWhitespace c = false) ∧
      ∀ c ∈ s.toList.getLast?, isWhitespace c = false := by
  have hhead (l : List Char) (h : ∀ c ∈ l.head?, isWhitespace c = false) :
      l.dropWhile isWhitespace = l := by
    cases l with
    | nil => rfl
    | cons c l => rw [List.dropWhile_cons_of_neg (by simp [h c rfl])]
  have hlast (l : List Char) : l.rdropWhile isWhitespace = l ↔
      ∀ c ∈ l.getLast?, isWhitespace c = false := by
    rw [List.rdropWhile_eq_self_iff]
    constructor
    · intro h c hc
      obtain ⟨hne, rfl⟩ := List.mem_getLast?_eq_getLast hc
      simpa using h hne
    · intro h hne
      simp [h _ (List.getLast?_eq_some_getLast hne)]
  rw [trim]
  constructor
  · intro h
    have hlist : (s.toList.dropWhile isWhitespace).rdropWhile isWhitespace = s.toList := by
      rw [← String.toList_ofList (l := List.rdropWhile _ _), h]
    have hlen : s.toList.length ≤ (s.toList.dropWhile isWhitespace).length := by
      have hle := (List.rdropWhile_prefix isWhitespace (s.toList.dropWhile isWhitespace)).length_le
      rwa [hlist] at hle
    have hdrop : s.toList.dropWhile isWhitespace = s.toList :=
      (List.dropWhile_suffix isWhitespace).eq_of_length_le hlen
    refine ⟨fun c hc => ?_, (hlast _).mp (by rwa [hdrop] at hlist)⟩
    rw [← hdrop] at hc
    have hnot := List.head?_dropWhile_not isWhitespace s.toList
    rwa [Option.mem_def.mp hc] at hnot
  · rintro ⟨h, h'⟩
    rw [hhead _ h, (hlast _).mpr h', String.ofList_toList]

/-- What stands between two texts that are not blank is not trimmed. -/
theorem trim_append_append {s t u : String} (hs : trimStart s ≠ "") (hu : trimEnd u ≠ "") :
    trim (s ++ t ++ u) = trimStart s ++ t ++ trimEnd u := by
  have hs' : (s.toList.dropWhile isWhitespace).isEmpty = false := by
    rw [List.isEmpty_eq_false_iff]
    exact fun h => hs (by rw [trimStart, h, String.ofList_nil])
  have hu' : (u.toList.reverse.dropWhile isWhitespace).isEmpty = false := by
    rw [List.isEmpty_eq_false_iff]
    exact fun h => hu (by rw [trimEnd, List.rdropWhile, h, List.reverse_nil, String.ofList_nil])
  have hend (l : List Char) :
      (l ++ u.toList).rdropWhile isWhitespace = l ++ u.toList.rdropWhile isWhitespace := by
    rw [List.rdropWhile, List.reverse_append, List.dropWhile_append, hu', if_neg Bool.false_ne_true,
      List.reverse_append, List.reverse_reverse, List.rdropWhile]
  rw [trim, trimStart, trimEnd, String.toList_append, String.toList_append, List.append_assoc,
    List.dropWhile_append, hs', if_neg Bool.false_ne_true, ← List.append_assoc, hend,
    String.ofList_append, String.ofList_append, String.ofList_toList]

/-- A newline separates the lines before it from those behind it. -/
theorem lines_append_newline (s t : String) :
    lines (s ++ "\n" ++ t) = lines (s ++ "\n") ++ lines t := by
  have hsplit (t : String) : ((s ++ "\n" ++ t).toList.splitOn '\n').map String.ofList =
      (s.toList.splitOn '\n').map String.ofList ++ (t.toList.splitOn '\n').map String.ofList := by
    rw [String.toList_append, String.toList_append, List.append_assoc,
      show "\n".toList ++ t.toList = '\n' :: t.toList from rfl, List.splitOn_append_cons_self,
      List.map_append]
  have hne : (t.toList.splitOn '\n').map String.ofList ≠ [] := by
    simp
  have hfirst : lines (s ++ "\n") =
      ((s.toList.splitOn '\n').map String.ofList).map stripReturn := by
    have hempty := hsplit ""
    rw [String.append_empty] at hempty
    rw [lines, hempty]
    simp
  rw [hfirst, lines, hsplit, lines, List.dropLast_append_of_ne_nil hne, List.map_append,
    List.getLast?_append_of_ne_nil _ hne, List.append_assoc]

/-- Splitting a text that is made of lines gives them back. -/
theorem lines_intercalate {ls : List String} (h : ∀ l ∈ ls, '\n' ∉ l.toList) (hne : ls ≠ [])
    (hlast : ls.getLast? ≠ some "") :
    lines ("\n".intercalate ls) = ls.dropLast.map stripReturn ++ ls.getLast?.toList := by
  have hsplit : ((("\n".intercalate ls).toList).splitOn '\n').map String.ofList = ls := by
    have hparts : ∀ l ∈ ls.map String.toList, '\n' ∉ l := by simpa using h
    rw [String.toList_intercalate, show "\n".toList = ['\n'] from rfl,
      List.splitOn_intercalate '\n' hparts (by simpa using hne), List.map_map]
    simp [Function.comp_def]
  rw [lines, hsplit, if_neg hlast]

/-- The number of lines of a text is bounded by its size. -/
theorem length_lines_le (text : String) : (lines text).length ≤ text.length + 1 := by
  have hsplit (cs : List Char) : (cs.splitOn '\n').length ≤ cs.length + 1 := by
    induction cs with
    | nil => exact Nat.le_refl 1
    | cons c cs ih =>
      rw [List.splitOn_cons_eq_if_modifyHead]
      split_ifs
      · exact Nat.succ_le_succ ih
      · rw [List.length_modifyHead]
        exact ih.trans (Nat.le_succ _)
  have hparts := hsplit text.toList
  rw [String.length_toList] at hparts
  rw [lines]
  generalize hp : (text.toList.splitOn '\n').map String.ofList = parts
  have hlen : parts.length = (text.toList.splitOn '\n').length := by rw [← hp, List.length_map]
  rw [List.length_append, List.length_map, List.length_dropLast]
  split_ifs
  · rw [List.length_nil]
    omega
  · cases parts with
    | nil => exact Nat.zero_le _
    | cons part parts =>
      rw [List.getLast?_cons, Option.toList_some, List.length_singleton]
      rw [List.length_cons] at hlen ⊢
      omega

theorem length_trim_le (s : String) : (trim s).length ≤ s.length := by
  rw [trim, ← String.length_toList, ← String.length_toList, String.toList_ofList]
  exact (List.rdropWhile_prefix _ _).length_le.trans (List.dropWhile_suffix _).length_le

end ExecutionProvider

import Mathlib.Data.Fintype.Basic
import Mathlib.Tactic.FinCases
import ExecutionProvider.Foundation.PrefixCode
import ExecutionProvider.Protocol.Json

/-!
# How JSON values are written

The text of a value has no white space. In a string the quotation mark, the backslash and the
control characters are escaped.

A literal that is no number stands for no value, and is set apart from all that do by a mark in
front of it.

## Main definitions

* `Json.chars`, `Json.text`: the text of a value.

## Main results

* `Json.text_injective`: a value is determined by its text.
-/

namespace ExecutionProvider.Json

/-! ### Strings -/

/-- The mark at either end of a string. -/
def quotationMark : Char := '\x22'

/-- A control character that has no escape of its own. -/
def escapeControl (n : ℕ) : List Char :=
  ['\\', 'u', '0', '0', Nat.digitChar (n / 16), Nat.digitChar (n % 16)]

/-- How a character is written in a string. -/
def escape (c : Char) : List Char :=
  if c = quotationMark then ['\\', quotationMark]
  else if c = '\\' then ['\\', '\\']
  else if c = '\x08' then ['\\', 'b']
  else if c = '\x09' then ['\\', 't']
  else if c = '\x0a' then ['\\', 'n']
  else if c = '\x0c' then ['\\', 'f']
  else if c = '\x0d' then ['\\', 'r']
  else if c.toNat < 32 then escapeControl c.toNat
  else [c]

/-- What stands behind the opening quotation mark of a string. -/
def stringChars (cs : List Char) : List Char := cs.flatMap escape ++ [quotationMark]

/-- A string in quotation marks. -/
def quote (s : String) : List Char := quotationMark :: stringChars s.toList

/-- The value of a hexadecimal digit. -/
def digitValue (c : Char) : ℕ := if c.isDigit then c.toNat - 48 else c.toNat - 87

/-- A character of a string, read back. -/
def unescape : List Char → Option (Char × List Char)
  | '\\' :: 'b' :: r => some ('\x08', r)
  | '\\' :: 't' :: r => some ('\x09', r)
  | '\\' :: 'n' :: r => some ('\x0a', r)
  | '\\' :: 'f' :: r => some ('\x0c', r)
  | '\\' :: 'r' :: r => some ('\x0d', r)
  | '\\' :: 'u' :: '0' :: '0' :: h :: l :: r =>
    some (Char.ofNat (16 * digitValue h + digitValue l), r)
  | '\\' :: c :: r => some (c, r)
  | c :: r => some (c, r)
  | [] => none

private theorem unescape_escapeControl (n : Fin 32) (r : List Char) :
    unescape (escapeControl n ++ r) = some (Char.ofNat n, r) := by
  fin_cases n <;> rfl

theorem unescape_escape (c : Char) (r : List Char) : unescape (escape c ++ r) = some (c, r) := by
  unfold escape
  split_ifs with hq hb h8 h9 ha hc hd hcontrol
  · rw [hq]
    rfl
  · rw [hb]
    rfl
  · rw [h8]
    rfl
  · rw [h9]
    rfl
  · rw [ha]
    rfl
  · rw [hc]
    rfl
  · rw [hd]
    rfl
  · rw [unescape_escapeControl ⟨c.toNat, hcontrol⟩ r, Char.ofNat_toNat]
  · unfold unescape
    simp [hb]

theorem escape_prefixFree : PrefixFree escape := .of_read unescape_escape

theorem escape_eq_cons (c : Char) : ∃ d ds, escape c = d :: ds ∧ d ≠ quotationMark := by
  unfold escape escapeControl
  split_ifs with hq
  · exact ⟨_, _, rfl, by decide⟩
  · exact ⟨_, _, rfl, by decide⟩
  · exact ⟨_, _, rfl, by decide⟩
  · exact ⟨_, _, rfl, by decide⟩
  · exact ⟨_, _, rfl, by decide⟩
  · exact ⟨_, _, rfl, by decide⟩
  · exact ⟨_, _, rfl, by decide⟩
  · exact ⟨_, _, rfl, by decide⟩
  · exact ⟨_, _, rfl, hq⟩

theorem quote_prefixFree : PrefixFree quote := by
  intro s t r r' heq
  obtain ⟨hs, hr⟩ := escape_prefixFree.terminated escape_eq_cons (List.cons.inj heq).2
  exact ⟨String.toList_injective hs, hr⟩

/-! ### Values -/

/-- The characters of which numbers are made. -/
def isNumberChar (c : Char) : Bool :=
  c.isDigit || c == '-' || c == '+' || c == '.' || c == 'e' || c == 'E'

/-- A number as it is written. -/
def numberChars (literal : String) : List Char :=
  if literal ≠ "" ∧ literal.toList.all isNumberChar then literal.toList
  else '#' :: quote literal

mutual

/-- The text of a value. -/
def chars : Json → List Char
  | null => ['n', 'u', 'l', 'l']
  | bool true => ['t', 'r', 'u', 'e']
  | bool false => ['f', 'a', 'l', 's', 'e']
  | num literal => numberChars literal
  | str s => quote s
  | arr [] => ['[', ']']
  | arr (value :: items) => '[' :: chars value ++ itemChars items
  | obj [] => ['\x7b', '\x7d']
  | obj ((name, value) :: fields) => '\x7b' :: quote name ++ ':' :: chars value ++ fieldChars fields

/-- The items of an array behind the first, and its end. -/
def itemChars : List Json → List Char
  | [] => [']']
  | value :: items => ',' :: chars value ++ itemChars items

/-- The members of an object behind the first, and its end. -/
def fieldChars : List (String × Json) → List Char
  | [] => ['\x7d']
  | (name, value) :: fields => ',' :: quote name ++ ':' :: chars value ++ fieldChars fields

end

/-- The text of a value. -/
def text (value : Json) : String := String.ofList value.chars

/-! ### A value is determined by its text -/

/-- The kinds of values that are told apart by their first characters. -/
inductive Kind
  | null
  | true
  | false
  | num
  | str
  | arr
  | obj
deriving DecidableEq

/-- The kind of a value. -/
def kind : Json → Kind
  | .null => .null
  | .bool true => .true
  | .bool false => .false
  | .num _ => .num
  | .str _ => .str
  | .arr _ => .arr
  | .obj _ => .obj

/-- The kind of the values whose texts begin with a character. -/
def kindOfChar (c : Char) : Option Kind :=
  if c = 'n' then some .null
  else if c = 't' then some .true
  else if c = 'f' then some .false
  else if c = quotationMark then some .str
  else if c = '[' then some .arr
  else if c = '\x7b' then some .obj
  else if isNumberChar c ∨ c = '#' then some .num
  else none

theorem kindOfChar_of_isNumberChar {c : Char} (h : isNumberChar c = true) :
    kindOfChar c = some .num := by
  unfold kindOfChar
  split_ifs with hn ht hf hq ha ho hnum
  · exact absurd (hn ▸ h) (by decide)
  · exact absurd (ht ▸ h) (by decide)
  · exact absurd (hf ▸ h) (by decide)
  · exact absurd (hq ▸ h) (by decide)
  · exact absurd (ha ▸ h) (by decide)
  · exact absurd (ho ▸ h) (by decide)
  · rfl
  · exact absurd (Or.inl h) hnum

theorem kindOfChar_numberChars (literal : String) :
    ∃ c cs, numberChars literal = c :: cs ∧ kindOfChar c = some .num := by
  unfold numberChars
  split_ifs with h
  · obtain ⟨c, cs, hcs⟩ : ∃ c cs, literal.toList = c :: cs :=
      List.exists_cons_of_ne_nil fun hnil => h.1 (String.toList_eq_nil_iff.mp hnil)
    refine ⟨c, cs, hcs, kindOfChar_of_isNumberChar ?_⟩
    exact List.all_eq_true.mp h.2 c (hcs ▸ List.mem_cons_self)
  · exact ⟨_, _, rfl, by decide⟩

/-- The first character of a text tells the kind of the value. -/
theorem kindOfChar_chars (value : Json) :
    ∃ c cs, chars value = c :: cs ∧ kindOfChar c = some value.kind := by
  match value with
  | .null => exact ⟨_, _, rfl, rfl⟩
  | .bool true => exact ⟨_, _, rfl, rfl⟩
  | .bool false => exact ⟨_, _, rfl, rfl⟩
  | .num literal =>
    simp only [chars]
    exact kindOfChar_numberChars literal
  | .str s => exact ⟨_, _, rfl, rfl⟩
  | .arr [] => exact ⟨_, _, rfl, rfl⟩
  | .arr (_ :: _) => exact ⟨_, _, rfl, rfl⟩
  | .obj [] => exact ⟨_, _, rfl, rfl⟩
  | .obj (_ :: _) => exact ⟨_, _, rfl, rfl⟩

/-- Whether a value may end before a text: it is empty, or does not continue a number. -/
def Ends (r : List Char) : Prop := ∀ c cs, r = c :: cs → isNumberChar c = false

theorem ends_nil : Ends [] := by
  intro c cs h
  cases h

theorem ends_itemChars (items : List Json) (r : List Char) : Ends (itemChars items ++ r) := by
  intro c cs h
  cases items <;> (rw [itemChars] at h; obtain rfl := (List.cons.inj h).1; decide)

theorem ends_fieldChars (fields : List (String × Json)) (r : List Char) :
    Ends (fieldChars fields ++ r) := by
  intro c cs h
  cases fields <;> (rw [fieldChars] at h; obtain rfl := (List.cons.inj h).1; decide)

theorem takeWhile_of_ends {cs r : List Char} (hcs : cs.all isNumberChar = true) (hr : Ends r) :
    (cs ++ r).takeWhile isNumberChar = cs := by
  rw [List.takeWhile_append_of_pos (List.all_eq_true.mp hcs)]
  cases r with
  | nil => simp
  | cons c r => rw [List.takeWhile_cons_of_neg (by simp [hr c r rfl]), List.append_nil]

theorem numberChars_inj {l m : String} {r s : List Char} (hr : Ends r) (hs : Ends s)
    (h : numberChars l ++ r = numberChars m ++ s) : l = m ∧ r = s := by
  have hmark {n : String} {x y : List Char} (hn : n ≠ "" ∧ n.toList.all isNumberChar)
      (heq : n.toList ++ x = '#' :: y) : False := by
    obtain ⟨c, cs, hcs⟩ : ∃ c cs, n.toList = c :: cs :=
      List.exists_cons_of_ne_nil fun hnil => hn.1 (String.toList_eq_nil_iff.mp hnil)
    have hc : isNumberChar c = true := List.all_eq_true.mp hn.2 c (hcs ▸ List.mem_cons_self)
    rw [hcs] at heq
    rw [(List.cons.inj heq).1] at hc
    exact absurd hc (by decide)
  unfold numberChars at h
  split_ifs at h with hl hm hm
  · have hlist : l.toList = m.toList := by
      rw [← takeWhile_of_ends hl.2 hr, h, takeWhile_of_ends hm.2 hs]
    rw [hlist] at h
    exact ⟨String.toList_injective hlist, List.append_cancel_left h⟩
  · exact (hmark hl h).elim
  · exact (hmark hm h.symm).elim
  · exact quote_prefixFree (List.cons.inj h).2

/-- The values of a kind. -/
theorem of_kind (value : Json) : match value.kind with
    | .null => value = null
    | .true => value = bool true
    | .false => value = bool false
    | .num => ∃ literal, value = num literal
    | .str => ∃ s, value = str s
    | .arr => ∃ items, value = arr items
    | .obj => ∃ fields, value = obj fields := by
  match value with
  | .null => rfl
  | .bool true => rfl
  | .bool false => rfl
  | .num literal => exact ⟨literal, rfl⟩
  | .str s => exact ⟨s, rfl⟩
  | .arr items => exact ⟨items, rfl⟩
  | .obj fields => exact ⟨fields, rfl⟩

mutual

/-- A value can be told from what follows it, when that does not continue a number. -/
theorem chars_inj : ∀ (v w : Json) {r s : List Char}, Ends r → Ends s →
    chars v ++ r = chars w ++ s → v = w ∧ r = s
  | v, w, r, s, hr, hs, h => by
    have hkind : v.kind = w.kind := by
      obtain ⟨c, cs, hc, hv⟩ := kindOfChar_chars v
      obtain ⟨d, ds, hd, hw⟩ := kindOfChar_chars w
      rw [hc, hd] at h
      rw [← Option.some.injEq, ← hv, ← hw, (List.cons.inj h).1]
    have hw := of_kind w
    rw [← hkind] at hw
    match v with
    | .null =>
      obtain rfl := hw
      exact ⟨rfl, List.append_cancel_left h⟩
    | .bool true =>
      obtain rfl := hw
      exact ⟨rfl, List.append_cancel_left h⟩
    | .bool false =>
      obtain rfl := hw
      exact ⟨rfl, List.append_cancel_left h⟩
    | .num l =>
      obtain ⟨m, rfl⟩ := hw
      simp only [chars] at h
      obtain ⟨rfl, rfl⟩ := numberChars_inj hr hs h
      exact ⟨rfl, rfl⟩
    | .str t =>
      obtain ⟨u, rfl⟩ := hw
      simp only [chars] at h
      obtain ⟨rfl, rfl⟩ := quote_prefixFree h
      exact ⟨rfl, rfl⟩
    | .arr items =>
      obtain ⟨items', rfl⟩ := hw
      obtain ⟨rfl, rfl⟩ := arrayChars_inj items items' h
      exact ⟨rfl, rfl⟩
    | .obj fields =>
      obtain ⟨fields', rfl⟩ := hw
      obtain ⟨rfl, rfl⟩ := objectChars_inj fields fields' h
      exact ⟨rfl, rfl⟩

theorem arrayChars_inj : ∀ (items items' : List Json) {r s : List Char},
    chars (arr items) ++ r = chars (arr items') ++ s → items = items' ∧ r = s
  | [], [], r, s, h => ⟨rfl, List.append_cancel_left h⟩
  | [], w :: ws, r, s, h => by
    obtain ⟨c, cs, hc, hkind⟩ := kindOfChar_chars w
    simp only [chars, hc, List.cons_append, List.cons.injEq, true_and] at h
    rw [← h.1] at hkind
    exact absurd hkind.symm (Option.some_ne_none _)
  | v :: vs, [], r, s, h => by
    obtain ⟨c, cs, hc, hkind⟩ := kindOfChar_chars v
    simp only [chars, hc, List.cons_append, List.cons.injEq, true_and] at h
    rw [h.1] at hkind
    exact absurd hkind.symm (Option.some_ne_none _)
  | v :: vs, w :: ws, r, s, h => by
    simp only [chars, List.cons_append, List.append_assoc, List.cons.injEq, true_and] at h
    obtain ⟨rfl, hrest⟩ := chars_inj v w (ends_itemChars vs r) (ends_itemChars ws s) h
    obtain ⟨rfl, rfl⟩ := itemChars_inj vs ws hrest
    exact ⟨rfl, rfl⟩

theorem itemChars_inj : ∀ (items items' : List Json) {r s : List Char},
    itemChars items ++ r = itemChars items' ++ s → items = items' ∧ r = s
  | [], [], r, s, h => ⟨rfl, List.append_cancel_left h⟩
  | [], w :: ws, r, s, h => by simp [itemChars] at h
  | v :: vs, [], r, s, h => by simp [itemChars] at h
  | v :: vs, w :: ws, r, s, h => by
    simp only [itemChars, List.cons_append, List.append_assoc, List.cons.injEq, true_and] at h
    obtain ⟨rfl, hrest⟩ := chars_inj v w (ends_itemChars vs r) (ends_itemChars ws s) h
    obtain ⟨rfl, rfl⟩ := itemChars_inj vs ws hrest
    exact ⟨rfl, rfl⟩

theorem objectChars_inj : ∀ (fields fields' : List (String × Json)) {r s : List Char},
    chars (obj fields) ++ r = chars (obj fields') ++ s → fields = fields' ∧ r = s
  | [], [], r, s, h => ⟨rfl, List.append_cancel_left h⟩
  | [], (n, w) :: ws, r, s, h => by simp [chars, quote, quotationMark] at h
  | (n, v) :: vs, [], r, s, h => by simp [chars, quote, quotationMark] at h
  | (n, v) :: vs, (n', w) :: ws, r, s, h => by
    simp only [chars, List.cons_append, List.append_assoc, List.cons.injEq, true_and] at h
    obtain ⟨rfl, hvalue⟩ := quote_prefixFree h
    obtain ⟨rfl, hrest⟩ := chars_inj v w (ends_fieldChars vs r) (ends_fieldChars ws s)
      (List.cons.inj hvalue).2
    obtain ⟨rfl, rfl⟩ := fieldChars_inj vs ws hrest
    exact ⟨rfl, rfl⟩

theorem fieldChars_inj : ∀ (fields fields' : List (String × Json)) {r s : List Char},
    fieldChars fields ++ r = fieldChars fields' ++ s → fields = fields' ∧ r = s
  | [], [], r, s, h => ⟨rfl, List.append_cancel_left h⟩
  | [], (n, w) :: ws, r, s, h => by simp [fieldChars] at h
  | (n, v) :: vs, [], r, s, h => by simp [fieldChars] at h
  | (n, v) :: vs, (n', w) :: ws, r, s, h => by
    simp only [fieldChars, List.cons_append, List.append_assoc, List.cons.injEq, true_and] at h
    obtain ⟨rfl, hvalue⟩ := quote_prefixFree h
    obtain ⟨rfl, hrest⟩ := chars_inj v w (ends_fieldChars vs r) (ends_fieldChars ws s)
      (List.cons.inj hvalue).2
    obtain ⟨rfl, rfl⟩ := fieldChars_inj vs ws hrest
    exact ⟨rfl, rfl⟩

end

/-- A value is determined by its text. -/
theorem text_injective : Function.Injective text := by
  intro v w h
  have hchars : chars v ++ [] = chars w ++ [] := by
    rw [List.append_nil, List.append_nil]
    exact String.ofList_injective h
  exact (chars_inj v w ends_nil ends_nil hchars).1

end ExecutionProvider.Json

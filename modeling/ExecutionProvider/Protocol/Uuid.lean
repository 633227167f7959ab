import Mathlib.Data.List.Basic

/-!
# Identifiers

Identifiers travel as text. Four spellings are read (plain, hyphenated, in braces, and as a URN,
with digits of either case), one is written: thirty-two lower-case hexadecimal digits in five
groups. An identifier is represented by that text.

## Main definitions

* `Uuid.canonicalText`: the text that a spelling of an identifier stands for.
* `Uuid`: an identifier.
* `Uuid.parse`: reading an identifier.
-/

namespace ExecutionProvider

namespace Uuid

/-- Whether a character is a hexadecimal digit. -/
def isHexDigit (c : Char) : Bool :=
  c.isDigit || ('a' ≤ c && c ≤ 'f') || ('A' ≤ c && c ≤ 'F')

/-- What stands between the braces, or behind the prefix of a URN. -/
def stripWrapping (cs : List Char) : List Char :=
  if cs.length = 45 ∧ cs.take 9 = ['u', 'r', 'n', ':', 'u', 'u', 'i', 'd', ':'] then cs.drop 9
  else if cs.length = 38 ∧ cs.head? = some '\x7b' ∧ cs.getLast? = some '\x7d' then
    (cs.drop 1).dropLast
  else cs

/-- The digits without the hyphens that separate their five groups. -/
def stripHyphens (cs : List Char) : List Char :=
  if cs.length = 36 ∧ [8, 13, 18, 23].all fun i => cs[i]? = some '-' then
    cs.take 8 ++ (cs.drop 9).take 4 ++ (cs.drop 14).take 4 ++ (cs.drop 19).take 4 ++ cs.drop 24
  else cs

/-- Digits in five groups with hyphens between them. -/
def hyphenate (cs : List Char) : List Char :=
  cs.take 8 ++ ['-'] ++ (cs.drop 8).take 4 ++ ['-'] ++ (cs.drop 12).take 4 ++ ['-'] ++
    (cs.drop 16).take 4 ++ ['-'] ++ cs.drop 20

/-- The text of the identifier that a spelling stands for. -/
def canonicalText (s : String) : Option String :=
  let digits := stripHyphens (stripWrapping s.toList)
  if digits.length = 32 ∧ digits.all isHexDigit then
    some (String.ofList (hyphenate (digits.map Char.toLower)))
  else none

end Uuid

/-- An identifier, as its canonical text. -/
structure Uuid where
  text : String
  canonical : Uuid.canonicalText text = some text
deriving DecidableEq

namespace Uuid

/-- Reading an identifier in any of its spellings. -/
def parse (s : String) : Option Uuid :=
  match canonicalText s with
  | none => none
  | some t => if h : canonicalText t = some t then some ⟨t, h⟩ else none

@[simp] theorem parse_text (u : Uuid) : parse u.text = some u := by
  rw [parse, u.canonical]
  exact dif_pos u.canonical

theorem text_injective : Function.Injective Uuid.text := by
  intro u v h
  cases u
  cases v
  cases h
  rfl

@[simp] theorem text_inj {u v : Uuid} : u.text = v.text ↔ u = v := text_injective.eq_iff

/-- The text of an identifier has a fixed length. -/
theorem length_text (u : Uuid) : u.text.length = 36 := by
  have h := u.canonical
  rw [canonicalText] at h
  split_ifs at h with hdigits
  rw [← Option.some.inj h, String.length_ofList]
  simp [hyphenate, hdigits.1]

/-- The order of identifiers is that of their texts. -/
instance : LE Uuid := ⟨fun u v => u.text ≤ v.text⟩

instance : DecidableLE Uuid := fun u v => inferInstanceAs (Decidable (u.text ≤ v.text))

private theorem canonicalText_digit : ∀ d < 10,
    canonicalText ("00000000-0000-4000-8000-00000000000" ++ toString d) =
      some ("00000000-0000-4000-8000-00000000000" ++ toString d) := by
  decide

/-- Ten identifiers, for examples. They differ in their last digit. -/
def numbered (n : ℕ) : Uuid :=
  ⟨"00000000-0000-4000-8000-00000000000" ++ toString (n % 10),
    canonicalText_digit (n % 10) (Nat.mod_lt n (by decide))⟩

end Uuid

end ExecutionProvider

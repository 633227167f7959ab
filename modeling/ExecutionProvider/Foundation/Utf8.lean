import Mathlib.Data.List.Basic

/-!
# Texts as bytes

A text is the concatenation of its characters in UTF-8, and can be read off its bytes. The bytes
below `128` stand for themselves: none of them is part of another character.

## Main definitions

* `String.utf8`: the bytes of a text.
* `String.ofUtf8?`: the text of which these are the bytes.

## Main results

* `ofUtf8?_utf8`: a text is read off its bytes.
* `mem_utf8_iff`: the characters of one byte that occur in a text.
-/

namespace String

/-- The bytes of a text. -/
def utf8 (s : String) : List UInt8 := s.toList.flatMap utf8EncodeChar

/-- The text of which these are the bytes. -/
def ofUtf8? (bytes : List UInt8) : Option String := fromUTF8? bytes.toByteArray

@[simp] theorem utf8_empty : utf8 "" = [] := rfl

@[simp] theorem utf8_append (s t : String) : (s ++ t).utf8 = s.utf8 ++ t.utf8 := by
  rw [utf8, toList_append, List.flatMap_append]
  rfl

theorem toByteArray_utf8 (s : String) : s.utf8.toByteArray = s.toByteArray := by
  rw [← utf8Encode_toList]
  rfl

theorem fromUTF8?_toUTF8 (s : String) : fromUTF8? s.toUTF8 = some s := by
  unfold fromUTF8?
  exact dif_pos s.isValidUTF8

/-- A text is read off its bytes. -/
@[simp] theorem ofUtf8?_utf8 (s : String) : ofUtf8? s.utf8 = some s := by
  rw [ofUtf8?, toByteArray_utf8]
  exact fromUTF8?_toUTF8 s

theorem utf8_injective : Function.Injective utf8 := by
  intro s t h
  have hread : ofUtf8? s.utf8 = ofUtf8? t.utf8 := congrArg ofUtf8? h
  rw [ofUtf8?_utf8, ofUtf8?_utf8] at hread
  exact Option.some.inj hread

theorem length_utf8 (s : String) : s.utf8.length = s.utf8ByteSize := by
  rw [← List.size_toByteArray, toByteArray_utf8]
  rfl

/-- A character has at least one byte. -/
theorem length_le_utf8ByteSize (s : String) : s.length ≤ s.utf8ByteSize := by
  rw [← length_utf8, utf8, ← length_toList]
  induction s.toList with
  | nil => exact Nat.le_refl 0
  | cons c cs ih =>
    have hpos := c.utf8Size_pos
    rw [List.flatMap_cons, List.length_append, List.length_cons, length_utf8EncodeChar]
    omega

theorem utf8EncodeChar_of_lt {c : Char} (hc : c.toNat < 128) :
    utf8EncodeChar c = [UInt8.ofNat c.toNat] :=
  if_pos (Nat.lt_succ_iff.mp hc)

/-- The bytes of a character of more than one byte are not below `128`. -/
theorem le_of_mem_utf8EncodeChar {c : Char} (hc : 128 ≤ c.toNat) {b : UInt8}
    (hb : b ∈ utf8EncodeChar c) : 128 ≤ b.toNat := by
  have hbyte {n m : ℕ} (hm : 128 ≤ m) (hn : n + m < 256) : 128 ≤ (UInt8.ofNat (n + m)).toNat := by
    rw [UInt8.toNat_ofNat', Nat.mod_eq_of_lt hn]
    omega
  have hlarge : ¬c.val.toNat ≤ 127 := Nat.not_le.mpr hc
  rw [utf8EncodeChar, if_neg hlarge] at hb
  split_ifs at hb
  all_goals
    simp only [List.mem_cons, List.not_mem_nil, or_false] at hb
    rcases hb with rfl | rfl | rfl | rfl <;> exact hbyte (by omega) (by omega)

/-- A byte below `128` is part of no other character. -/
theorem mem_utf8EncodeChar_iff {c d : Char} (hc : c.toNat < 128) :
    UInt8.ofNat c.toNat ∈ utf8EncodeChar d ↔ d = c := by
  have hbyte {c : Char} (hc : c.toNat < 128) : (UInt8.ofNat c.toNat).toNat = c.toNat := by
    rw [UInt8.toNat_ofNat', Nat.mod_eq_of_lt (by omega)]
  constructor
  · intro hmem
    rcases Nat.lt_or_ge d.toNat 128 with hd | hd
    · rw [utf8EncodeChar_of_lt hd, List.mem_singleton] at hmem
      have hnat : c.toNat = d.toNat := by rw [← hbyte hc, hmem, hbyte hd]
      exact Char.toNat_inj.mp hnat.symm
    · have hle := le_of_mem_utf8EncodeChar hd hmem
      rw [hbyte hc] at hle
      omega
  · rintro rfl
    rw [utf8EncodeChar_of_lt hc]
    exact List.mem_singleton_self _

/-- The characters of one byte that occur in a text. -/
theorem mem_utf8_iff {c : Char} {s : String} (hc : c.toNat < 128) :
    UInt8.ofNat c.toNat ∈ s.utf8 ↔ c ∈ s.toList := by
  rw [utf8, List.mem_flatMap]
  constructor
  · rintro ⟨d, hd, hmem⟩
    exact (mem_utf8EncodeChar_iff hc).mp hmem ▸ hd
  · exact fun h => ⟨c, h, (mem_utf8EncodeChar_iff hc).mpr rfl⟩

end String

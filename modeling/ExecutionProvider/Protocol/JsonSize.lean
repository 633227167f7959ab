import Mathlib.Algebra.GroupWithZero.Nat
import Mathlib.Data.String.Basic
import ExecutionProvider.Protocol.JsonText
import ExecutionProvider.Protocol.Serde

/-!
# The sizes of JSON texts

The size of an object is that of its members, whatever their order. This bounds how much an object
grows when members are added to it.

## Main definitions

* `Json.size`: the number of bytes of the text of a value.
* `Json.memberSize`, `Json.membersSize`: what members add to the text of an object.

## Main results

* `Json.membersSize_lt_size_record`, `Json.size_record_le`: the size of a record.
* `Json.size_arr_le`, `Json.size_record_le_of_bounds`: the sizes of arrays and records from those of
  their values.
-/

namespace ExecutionProvider.Json

open String (utf8Len)

/-- The number of bytes of the text of a value. -/
def size (value : Json) : ℕ := utf8Len value.chars

/-- A text has at most four bytes for each of its characters. -/
theorem utf8ByteSize_le (s : String) : s.utf8ByteSize ≤ 4 * s.length := by
  have hchars (cs : List Char) : utf8Len cs ≤ 4 * cs.length := by
    induction cs with
    | nil => exact Nat.le_refl 0
    | cons c cs ih =>
      have hc := c.utf8Size_le_four
      rw [String.utf8Len_cons, List.length_cons]
      omega
  have hs := String.utf8ByteSize_ofList s.toList
  rw [String.ofList_toList] at hs
  rw [hs, ← String.length_toList]
  exact hchars s.toList

theorem utf8ByteSize_text (value : Json) : value.text.utf8ByteSize = value.size :=
  String.utf8ByteSize_ofList value.chars

/-! ### Strings -/

/-- A character is written with at most six bytes. -/
theorem utf8Len_escape_le (c : Char) : utf8Len (escape c) ≤ 6 := by
  unfold escape
  split_ifs with hq hb h8 h9 ha hc hd hcontrol
  · decide
  · decide
  · decide
  · decide
  · decide
  · decide
  · decide
  · have hdigit (n : Fin 32) : utf8Len (escapeControl n) ≤ 6 := by
      revert n
      decide
    exact hdigit ⟨c.toNat, hcontrol⟩
  · have hsize := c.utf8Size_le_four
    simp only [String.utf8Len_cons, String.utf8Len_nil]
    omega

theorem utf8Len_flatMap_escape_le (cs : List Char) :
    utf8Len (cs.flatMap escape) ≤ 6 * cs.length := by
  induction cs with
  | nil => exact Nat.le_refl 0
  | cons c cs ih =>
    have hc := utf8Len_escape_le c
    rw [List.flatMap_cons, String.utf8Len_append, List.length_cons]
    omega

theorem utf8Len_quote_le (s : String) : utf8Len (quote s) ≤ 6 * s.length + 2 := by
  have hs := utf8Len_flatMap_escape_le s.toList
  have hmark : quotationMark.utf8Size = 1 := by decide
  rw [String.length_toList] at hs
  rw [quote, stringChars, String.utf8Len_cons, String.utf8Len_append, String.utf8Len_cons,
    String.utf8Len_nil, hmark]
  omega

/-- The size of a text. -/
theorem size_str_le (s : String) : (str s).size ≤ 6 * s.length + 2 := by
  rw [size, chars]
  exact utf8Len_quote_le s

/-! ### Objects -/

/-- What a member adds to the text of an object, with the marks in front of it. -/
def memberSize (f : String × Json) : ℕ := utf8Len (quote f.1) + f.2.size + 2

theorem utf8Len_fieldChars (fields : List (String × Json)) :
    utf8Len (fieldChars fields) = (fields.map memberSize).sum + 1 := by
  induction fields with
  | nil => decide
  | cons f fields ih =>
    obtain ⟨name, value⟩ := f
    have hcomma : ','.utf8Size = 1 := by decide
    have hcolon : ':'.utf8Size = 1 := by decide
    simp only [fieldChars, List.cons_append, String.utf8Len_cons, String.utf8Len_append, ih,
      List.map_cons, List.sum_cons, memberSize, size, hcomma, hcolon]
    omega

/-- The size of an object that has members. -/
theorem size_obj_cons (f : String × Json) (fields : List (String × Json)) :
    (obj (f :: fields)).size = ((f :: fields).map memberSize).sum + 1 := by
  obtain ⟨name, value⟩ := f
  have hopen : '\x7b'.utf8Size = 1 := by decide
  have hcolon : ':'.utf8Size = 1 := by decide
  simp only [size, chars, List.cons_append, String.utf8Len_cons, String.utf8Len_append,
    utf8Len_fieldChars, List.map_cons, List.sum_cons, memberSize, hopen, hcolon]
  omega

theorem sum_memberSize_lt_size_obj (fields : List (String × Json)) :
    (fields.map memberSize).sum < (obj fields).size := by
  cases fields with
  | nil => decide
  | cons f fields =>
    rw [size_obj_cons]
    exact Nat.lt_succ_self _

theorem size_obj_le (fields : List (String × Json)) :
    (obj fields).size ≤ (fields.map memberSize).sum + 2 := by
  cases fields with
  | nil => decide
  | cons f fields =>
    rw [size_obj_cons]
    omega

theorem size_mkObj_le {fields : List (String × Json)} (hn : (fields.map Prod.fst).Nodup) :
    (mkObj fields).size ≤ (fields.map memberSize).sum + 2 := by
  obtain ⟨sorted, hsorted, hperm⟩ := exists_perm_mkObj hn
  rw [hsorted, ← (hperm.map memberSize).sum_nat]
  exact size_obj_le sorted

theorem memberSize_le (name : String) (value : Json) :
    memberSize (name, value) ≤ 6 * name.length + 4 + value.size := by
  have hname := utf8Len_quote_le name
  show utf8Len (quote name) + value.size + 2 ≤ _
  omega

/-! ### Records -/

/-- What the members of a record add to its text. -/
def membersSize (members : List Member) : ℕ := ((present members).map memberSize).sum

@[simp] theorem membersSize_nil : membersSize [] = 0 := rfl

@[simp] theorem membersSize_cons_some (name : String) (value : Json) (members : List Member) :
    membersSize ((name, some value) :: members) =
      memberSize (name, value) + membersSize members := rfl

theorem membersSize_append (first members : List Member) :
    membersSize (first ++ members) = membersSize first + membersSize members := by
  rw [membersSize, present, List.filterMap_append, List.map_append, List.sum_append]
  rfl

variable {members : List Member}

theorem exists_perm_record (hn : (members.map Prod.fst).Nodup) :
    ∃ fields, record members = obj fields ∧
      (fields.map memberSize).sum = membersSize members := by
  obtain ⟨fields, hfields, hperm⟩ := exists_perm_mkObj (hn.sublist (sublist_present members))
  exact ⟨fields, hfields, (hperm.map memberSize).sum_nat⟩

/-- A record is larger than its members. -/
theorem membersSize_lt_size_record (hn : (members.map Prod.fst).Nodup) :
    membersSize members < (record members).size := by
  obtain ⟨fields, hfields, hsum⟩ := exists_perm_record hn
  rw [hfields, ← hsum]
  exact sum_memberSize_lt_size_obj fields

/-- A record is hardly larger than its members. -/
theorem size_record_le (hn : (members.map Prod.fst).Nodup) :
    (record members).size ≤ membersSize members + 2 := by
  obtain ⟨fields, hfields, hsum⟩ := exists_perm_record hn
  rw [hfields, ← hsum]
  exact size_obj_le fields

/-! ### Largest sizes -/

theorem size_bool_le (b : Bool) : (bool b).size ≤ 5 := by
  cases b <;> decide

theorem size_null : null.size = 4 := by decide

/-- The size of a number. -/
theorem size_num_le (literal : String) : (num literal).size ≤ 6 * literal.length + 3 := by
  have hquote := utf8Len_quote_le literal
  have hbytes := utf8ByteSize_le literal
  have hmark : '#'.utf8Size = 1 := by decide
  have hlen : utf8Len literal.toList = literal.utf8ByteSize := by
    rw [← String.utf8ByteSize_ofList, String.ofList_toList]
  rw [size, chars, numberChars]
  split_ifs
  · omega
  · rw [String.utf8Len_cons, hmark]
    omega

/-- The size of an optional value. -/
theorem size_ofOption_le {value : Option Json} {n : ℕ} (h : ∀ v ∈ value, v.size ≤ n)
    (hn : 4 ≤ n) : (ofOption value).size ≤ n := by
  cases value with
  | none => exact size_null.trans_le hn
  | some v => exact h v rfl

theorem utf8Len_itemChars_le {items : List Json} {n : ℕ} (h : ∀ v ∈ items, v.size ≤ n) :
    utf8Len (itemChars items) ≤ items.length * (n + 1) + 1 := by
  induction items with
  | nil =>
    have hclose : utf8Len (itemChars []) = 1 := by decide
    exact hclose.trans_le (Nat.le_add_left _ _)
  | cons value items ih =>
    have hcomma : ','.utf8Size = 1 := by decide
    have hvalue : utf8Len value.chars ≤ n := h value List.mem_cons_self
    have hrest := ih fun v hv => h v (List.mem_cons_of_mem _ hv)
    rw [itemChars, List.cons_append, String.utf8Len_cons, String.utf8Len_append, hcomma,
      List.length_cons, Nat.add_one_mul]
    omega

/-- The size of an array whose items have a largest size. -/
theorem size_arr_le {items : List Json} {n : ℕ} (h : ∀ v ∈ items, v.size ≤ n) :
    (arr items).size ≤ items.length * (n + 1) + 2 := by
  cases items with
  | nil =>
    have hempty : (arr []).size = 2 := by decide
    exact hempty.trans_le (Nat.le_add_left _ _)
  | cons value items =>
    have hopen : '['.utf8Size = 1 := by decide
    have hvalue : utf8Len value.chars ≤ n := h value List.mem_cons_self
    have hrest := utf8Len_itemChars_le fun v hv => h v (List.mem_cons_of_mem _ hv)
    rw [size, chars, List.cons_append, String.utf8Len_cons, String.utf8Len_append, hopen,
      List.length_cons, Nat.add_one_mul]
    omega

/-- A member whose value has a largest size. -/
theorem membersSize_cons_le (name : String) {value : Option Json} {n : ℕ}
    (h : ∀ v ∈ value, v.size ≤ n) (members : List Member) :
    membersSize ((name, value) :: members) ≤ 6 * name.length + 4 + n + membersSize members := by
  cases value with
  | none => exact Nat.le_add_left _ _
  | some v =>
    have hv := h v rfl
    have hmember := memberSize_le name v
    rw [membersSize_cons_some]
    omega

/-- The size of the members of a record whose values have largest sizes. -/
theorem membersSize_le {members : List Member} {bounds : List ℕ}
    (h : List.Forall₂ (fun m n => ∀ v ∈ m.2, v.size ≤ n) members bounds) :
    membersSize members ≤
      (List.zipWith (fun name n => 6 * name.length + 4 + n) (members.map Prod.fst) bounds).sum := by
  induction h with
  | nil => exact Nat.le_refl 0
  | @cons m n members bounds hvalue _ ih =>
    have hmember := membersSize_cons_le m.1 hvalue members
    rw [List.map_cons, List.zipWith_cons_cons, List.sum_cons]
    exact hmember.trans (Nat.add_le_add_left ih _)

/-- The size of a record whose values have largest sizes. -/
theorem size_record_le_of_bounds {members : List Member} {bounds : List ℕ}
    (h : List.Forall₂ (fun m n => ∀ v ∈ m.2, v.size ≤ n) members bounds) (names : List String)
    (hnames : members.map Prod.fst = names) (hn : names.Nodup) :
    (record members).size ≤
      (List.zipWith (fun name n => 6 * name.length + 4 + n) names bounds).sum + 2 := by
  obtain rfl := hnames
  exact (size_record_le hn).trans (Nat.add_le_add_right (membersSize_le h) 2)

end ExecutionProvider.Json

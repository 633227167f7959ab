import Mathlib.Algebra.Ring.Int.Defs
import Mathlib.Data.String.Basic
import ExecutionProvider.Foundation.Utf8
import ExecutionProvider.Protocol.JsonSize

/-!
# JSON values as they are read

A reader of JSON puts the members of an object in the order of their names. It reads values up to
a depth, and gets integers right.

## Main definitions

* `Json.normal`: a value as it is read.
* `Json.depth`, `Json.Integral`: how deep a value is, and whether its numbers are integers.
* `Json.IsValue`: the values that are read as they were written.
* `ReadsJson`: a reader of JSON.

## Main results

* `Json.IsValue.obj`, `Json.IsValue.mkObj`: objects as they are read.
* `Json.newline_notMem_chars`: a text has one line.
-/

namespace ExecutionProvider

namespace Json

mutual

/-- A value as it is read. -/
def normal : Json → Json
  | null => null
  | bool b => bool b
  | num literal => num literal
  | str s => str s
  | arr items => arr (normalItems items)
  | obj fields => mkObj (normalFields fields)

/-- Items as they are read. -/
def normalItems : List Json → List Json
  | [] => []
  | value :: items => normal value :: normalItems items

/-- Members as they are read, in the order in which they were written. -/
def normalFields : List (String × Json) → List (String × Json)
  | [] => []
  | (name, value) :: fields => (name, normal value) :: normalFields fields

end

mutual

/-- How many arrays and objects are around the innermost value. -/
def depth : Json → ℕ
  | null => 0
  | bool _ => 0
  | num _ => 0
  | str _ => 0
  | arr items => depthItems items + 1
  | obj fields => depthFields fields + 1

/-- The depth of the deepest item. -/
def depthItems : List Json → ℕ
  | [] => 0
  | value :: items => max (depth value) (depthItems items)

/-- The depth of the deepest member. -/
def depthFields : List (String × Json) → ℕ
  | [] => 0
  | (_, value) :: fields => max (depth value) (depthFields fields)

end

/-- Whether a literal is that of an integer of the machine. -/
def IsInteger (literal : String) : Prop :=
  ∃ n : ℤ, -2 ^ 63 ≤ n ∧ n < 2 ^ 64 ∧ literal = toString n

mutual

/-- Whether all numbers of a value are integers. -/
def Integral : Json → Prop
  | null => True
  | bool _ => True
  | num literal => IsInteger literal
  | str _ => True
  | arr items => IntegralItems items
  | obj fields => IntegralFields fields

/-- Whether all numbers of items are integers. -/
def IntegralItems : List Json → Prop
  | [] => True
  | value :: items => Integral value ∧ IntegralItems items

/-- Whether all numbers of members are integers. -/
def IntegralFields : List (String × Json) → Prop
  | [] => True
  | (_, value) :: fields => Integral value ∧ IntegralFields fields

end

/-- Whether a value of some depth is read as it was written. -/
structure IsValue (n : ℕ) (value : Json) : Prop where
  normal_eq : value.normal = value
  depth_le : value.depth ≤ n
  integral : value.Integral

end Json

/-- A reader of JSON texts reads what was written, unless it is too deep, and ignores newlines
behind it. -/
structure ReadsJson (fromSlice : List UInt8 → Option Json) : Prop where
  read_text : ∀ value : Json, value.depth ≤ 127 → value.Integral → ∀ lines : ℕ,
    fromSlice (value.text.utf8 ++ List.replicate lines 10) = some value.normal

namespace Json

variable {n : ℕ} {fields : List (String × Json)}

/-! ### Objects -/

theorem normalFields_eq (h : ∀ f ∈ fields, f.2.normal = f.2) : normalFields fields = fields := by
  induction fields with
  | nil => rfl
  | cons f fields ih =>
    obtain ⟨hf, hfields⟩ := List.forall_mem_cons.mp h
    rw [normalFields, ih hfields, hf]

theorem depthFields_le_iff : depthFields fields ≤ n ↔ ∀ f ∈ fields, f.2.depth ≤ n := by
  induction fields with
  | nil => simp [depthFields]
  | cons f fields ih => rw [depthFields, max_le_iff, ih, List.forall_mem_cons]

theorem integralFields_iff : IntegralFields fields ↔ ∀ f ∈ fields, f.2.Integral := by
  induction fields with
  | nil => simp [IntegralFields]
  | cons f fields ih => rw [IntegralFields, ih, List.forall_mem_cons]

/-- Whether members stand in the order of their names. -/
def Increasing (fields : List (String × Json)) : Prop := fields.Pairwise fun f g => f.1 < g.1

theorem mem_insertField {name : String} {value : Json} {f : String × Json}
    (h : f ∈ insertField name value fields) : f = (name, value) ∨ f ∈ fields := by
  induction fields with
  | nil => exact Or.inl (List.mem_singleton.mp h)
  | cons g fields ih =>
    obtain ⟨n, v⟩ := g
    rw [insertField] at h
    split_ifs at h
    · exact List.mem_cons.mp h
    · exact (List.mem_cons.mp h).imp_right (List.mem_cons_of_mem _)
    · rcases List.mem_cons.mp h with rfl | h
      · exact Or.inr List.mem_cons_self
      · exact (ih h).imp_right (List.mem_cons_of_mem _)

theorem increasing_insertField (name : String) (value : Json) (h : Increasing fields) :
    Increasing (insertField name value fields) := by
  induction fields with
  | nil => exact List.pairwise_singleton _ _
  | cons f fields ih =>
    obtain ⟨n, v⟩ := f
    obtain ⟨hhead, htail⟩ := List.pairwise_cons.mp h
    rw [insertField]
    split_ifs with hlt heq
    · refine List.pairwise_cons.mpr ⟨fun g hg => ?_, h⟩
      rcases List.mem_cons.mp hg with rfl | hg
      · exact hlt
      · exact hlt.trans (hhead g hg)
    · exact List.pairwise_cons.mpr ⟨fun g hg => heq ▸ hhead g hg, htail⟩
    · refine List.pairwise_cons.mpr ⟨fun g hg => ?_, ih htail⟩
      rcases mem_insertField hg with rfl | hg
      · exact lt_of_le_of_ne (not_lt.mp hlt) (Ne.symm heq)
      · exact hhead g hg

/-- Members are put in order. -/
theorem exists_increasing_mkObj (fields : List (String × Json)) :
    ∃ sorted, mkObj fields = obj sorted ∧ Increasing sorted := by
  have hfold (acc : List (String × Json)) (h : Increasing acc) :
      Increasing (fields.foldl (fun acc f => insertField f.1 f.2 acc) acc) := by
    induction fields generalizing acc with
    | nil => exact h
    | cons f fields ih => exact ih _ (increasing_insertField f.1 f.2 h)
  exact ⟨_, rfl, hfold [] List.Pairwise.nil⟩

theorem insertField_of_lt {f : String × Json} (h : ∀ g ∈ fields, g.1 < f.1) :
    insertField f.1 f.2 fields = fields ++ [f] := by
  induction fields with
  | nil => rfl
  | cons g fields ih =>
    obtain ⟨hg, hfields⟩ := List.forall_mem_cons.mp h
    rw [insertField, if_neg hg.asymm, if_neg hg.ne', ih hfields]
    rfl

/-- Members that stand in order are left as they are. -/
theorem mkObj_of_increasing (h : Increasing fields) : mkObj fields = obj fields := by
  have hfold (fields acc : List (String × Json)) (h : Increasing (acc ++ fields)) :
      fields.foldl (fun acc f => insertField f.1 f.2 acc) acc = acc ++ fields := by
    induction fields generalizing acc with
    | nil => exact (List.append_nil acc).symm
    | cons f fields ih =>
      have hbefore : ∀ g ∈ acc, g.1 < f.1 := fun g hg =>
        (List.pairwise_append.mp h).2.2 g hg f List.mem_cons_self
      have happend : acc ++ f :: fields = acc ++ [f] ++ fields := by
        rw [List.append_assoc, List.singleton_append]
      rw [List.foldl_cons, insertField_of_lt hbefore, ih (acc ++ [f]) (happend ▸ h), happend]
  exact congrArg obj (hfold fields [] h)

/-- Members that are values are read as an object with them. -/
theorem normal_obj (h : ∀ f ∈ fields, f.2.normal = f.2) : (obj fields).normal = mkObj fields := by
  rw [normal, normalFields_eq h]

/-- Members that are values make up a value, whatever their order. -/
theorem IsValue.mkObj (hn : (fields.map Prod.fst).Nodup) (h : ∀ f ∈ fields, IsValue n f.2) :
    IsValue (n + 1) (mkObj fields) := by
  obtain ⟨sorted, hsorted, hperm⟩ := exists_perm_mkObj hn
  obtain ⟨sorted', hsorted', hincreasing⟩ := exists_increasing_mkObj fields
  obtain rfl : sorted = sorted' := obj.inj (hsorted.symm.trans hsorted')
  have hall : ∀ f ∈ sorted, IsValue n f.2 := fun f hf => h f (hperm.mem_iff.mp hf)
  rw [hsorted]
  constructor
  case normal_eq =>
    rw [normal_obj fun f hf => (hall f hf).normal_eq, mkObj_of_increasing hincreasing]
  case depth_le =>
    exact Nat.succ_le_succ (depthFields_le_iff.mpr fun f hf => (hall f hf).depth_le)
  case integral => exact integralFields_iff.mpr fun f hf => (hall f hf).integral

theorem IsValue.mono {m : ℕ} {value : Json} (h : IsValue n value) (hle : n ≤ m) :
    IsValue m value :=
  ⟨h.normal_eq, h.depth_le.trans hle, h.integral⟩

theorem isValue_null : IsValue 0 null := ⟨rfl, Nat.le_refl 0, trivial⟩

/-- A natural number of the machine is a value. -/
theorem isValue_num_toNat {k : ℕ} (h : k < 2 ^ 64) : IsValue 0 (num (toString k)) :=
  ⟨rfl, Nat.le_refl 0, k, by omega, by exact_mod_cast h, rfl⟩

theorem isValue_str (s : String) : IsValue 0 (str s) := ⟨rfl, Nat.le_refl 0, trivial⟩

/-! ### Texts -/

theorem newline_notMem_escape (c : Char) : '\n' ∉ escape c := by
  unfold escape
  split_ifs with hq hb h8 h9 ha hc hd hcontrol
  · decide
  · decide
  · decide
  · decide
  · decide
  · decide
  · decide
  · have hdigits (n : Fin 32) : '\n' ∉ escapeControl n := by
      revert n
      decide
    exact hdigits ⟨c.toNat, hcontrol⟩
  · exact fun h => ha (List.mem_singleton.mp h).symm

theorem newline_notMem_quote (s : String) : '\n' ∉ quote s := by
  rw [quote, stringChars]
  simp only [List.mem_cons, List.mem_append, List.mem_flatMap, List.not_mem_nil, or_false]
  rintro (h | ⟨c, -, h⟩ | h)
  · exact absurd h (by decide)
  · exact newline_notMem_escape c h
  · exact absurd h (by decide)

theorem newline_notMem_numberChars (literal : String) : '\n' ∉ numberChars literal := by
  rw [numberChars]
  split_ifs with hnumber
  · exact fun h => absurd (List.all_eq_true.mp hnumber.2 _ h) (by decide)
  · exact List.not_mem_cons_of_ne_of_not_mem (by decide) (newline_notMem_quote literal)

mutual

/-- A text has one line. -/
theorem newline_notMem_chars : ∀ value : Json, '\n' ∉ chars value
  | .null => by decide
  | .bool true => by decide
  | .bool false => by decide
  | .num literal => newline_notMem_numberChars literal
  | .str s => newline_notMem_quote s
  | .arr [] => by decide
  | .arr (value :: items) => by
    simp [chars, newline_notMem_chars value, newline_notMem_itemChars items]
  | .obj [] => by decide
  | .obj ((name, value) :: fields) => by
    simp [chars, newline_notMem_quote name, newline_notMem_chars value,
      newline_notMem_fieldChars fields]

theorem newline_notMem_itemChars : ∀ items : List Json, '\n' ∉ itemChars items
  | [] => by decide
  | value :: items => by
    simp [itemChars, newline_notMem_chars value, newline_notMem_itemChars items]

theorem newline_notMem_fieldChars : ∀ fields : List (String × Json), '\n' ∉ fieldChars fields
  | [] => by decide
  | (name, value) :: fields => by
    simp [fieldChars, newline_notMem_quote name, newline_notMem_chars value,
      newline_notMem_fieldChars fields]

end

end Json

namespace ReadsJson

open Json

variable {fromSlice : List UInt8 → Option Json} {fields : List (String × Json)}

/-- An object is read with its members in order. -/
theorem read_obj (hread : ReadsJson fromSlice) (h : ∀ f ∈ fields, IsValue 126 f.2) (lines : ℕ) :
    fromSlice ((obj fields).text.utf8 ++ List.replicate lines 10) = some (Json.mkObj fields) := by
  have hdepth : (obj fields).depth ≤ 127 :=
    Nat.succ_le_succ (depthFields_le_iff.mpr fun f hf => (h f hf).depth_le)
  have hintegral : (obj fields).Integral :=
    integralFields_iff.mpr fun f hf => (h f hf).integral
  rw [hread.read_text _ hdepth hintegral, normal_obj fun f hf => (h f hf).normal_eq]

theorem read_value (hread : ReadsJson fromSlice) {value : Json} (h : IsValue 127 value) :
    fromSlice value.text.utf8 = some value := by
  have hvalue := hread.read_text value h.depth_le h.integral 0
  rwa [List.replicate_zero, List.append_nil, h.normal_eq] at hvalue

/-- A value is determined by its text, whatever newlines stand behind it. -/
theorem eq_of_append_replicate {value value' : Json} {lines lines' : ℕ}
    (h : value.text.utf8 ++ List.replicate lines 10 =
      value'.text.utf8 ++ List.replicate lines' 10) : value = value' := by
  have hline (value : Json) (lines : ℕ) :
      (value.text.utf8 ++ List.replicate lines 10).takeWhile (· ≠ 10) = value.text.utf8 := by
    have hnot : ∀ b ∈ value.text.utf8, decide (b ≠ 10) = true := by
      rintro b hb
      refine decide_eq_true fun heq => ?_
      have hchar := (String.mem_utf8_iff (c := '\n') (by decide)).mp (heq ▸ hb)
      rw [text, String.toList_ofList] at hchar
      exact newline_notMem_chars value hchar
    rw [List.takeWhile_append_of_pos hnot]
    cases lines <;> simp [List.replicate_succ]
  have htext : value.text.utf8 = value'.text.utf8 := by
    rw [← hline value lines, h, hline]
  exact text_injective (String.utf8_injective htext)

open Classical in
/-- The reader that undoes writing. -/
noncomputable def undoWriting (bytes : List UInt8) : Option Json :=
  if h : ∃ value : Json, ∃ lines : ℕ, bytes = value.text.utf8 ++ List.replicate lines 10 then
    some h.choose.normal
  else none

/-- The reader that undoes writing reads. -/
theorem readsJson_undoWriting : ReadsJson undoWriting := by
  refine ⟨fun value _ _ lines => ?_⟩
  have hexists : ∃ value' : Json, ∃ lines' : ℕ,
      value.text.utf8 ++ List.replicate lines 10 = value'.text.utf8 ++ List.replicate lines' 10 :=
    ⟨value, lines, rfl⟩
  obtain ⟨lines', heq⟩ := hexists.choose_spec
  rw [undoWriting, dif_pos hexists, ← eq_of_append_replicate heq]

end ReadsJson

end ExecutionProvider

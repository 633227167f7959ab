import Mathlib.Data.List.Basic

/-!
# JSON values

The part of JSON values that the protocol and the gateway look into: members of objects and the
texts they hold. A number is kept as its literal. The members of an object stand in the order
of their names.

## Main definitions

* `Json`: a JSON value.
* `Json.get`, `Json.insertField`, `Json.without`: the members of an object.
-/

namespace ExecutionProvider

/-- A JSON value. -/
inductive Json
  | null
  | bool (b : Bool)
  | num (literal : String)
  | str (s : String)
  | arr (items : List Json)
  | obj (fields : List (String × Json))

namespace Json

/-- The member of an object with a given name. -/
def get (value : Json) (name : String) : Option Json :=
  match value with
  | obj fields => fields.lookup name
  | _ => none

/-- The text that a value holds. -/
def asStr : Json → Option String
  | str s => some s
  | _ => none

/-- A member put in its place among the members of an object. -/
def insertField (name : String) (value : Json) : List (String × Json) → List (String × Json)
  | [] => [(name, value)]
  | (n, v) :: fields =>
    if name < n then (name, value) :: (n, v) :: fields
    else if name = n then (name, value) :: fields
    else (n, v) :: insertField name value fields

/-- The members that do not have one of the given names. -/
def without (names : List String) (fields : List (String × Json)) : List (String × Json) :=
  fields.filter fun f => !names.contains f.1

/-- An object made of the given members, in any order. -/
def mkObj (fields : List (String × Json)) : Json :=
  obj (fields.foldl (fun acc f => insertField f.1 f.2 acc) [])

/-- The number that a literal stands for, if it is a natural number. -/
def natOfLiteral (literal : String) : Option ℕ :=
  if literal = "" then none
  else literal.toList.foldl (fun n c => n.bind fun n =>
    if c.isDigit then some (10 * n + (c.toNat - '0'.toNat)) else none) (some 0)

/-- The members of a value, if it is an object. -/
def asObject : Json → Option (List (String × Json))
  | obj fields => some fields
  | _ => none

/-- An optional value, with `null` for nothing. -/
def ofOption : Option Json → Json
  | none => null
  | some v => v

/-! ### The members of an object -/

theorem lookup_cons_eq_ite {α : Type*} (n n' : String) (v : α) (fields : List (String × α)) :
    List.lookup n ((n', v) :: fields) = if n = n' then some v else fields.lookup n := by
  rw [List.lookup_cons]
  by_cases h : n = n'
  · rw [beq_iff_eq.mpr h, if_pos h]
  · rw [beq_eq_false_iff_ne.mpr h, if_neg h]

theorem lookup_without (names : List String) (fields : List (String × Json)) (name : String) :
    (without names fields).lookup name = if name ∈ names then none else fields.lookup name := by
  induction fields with
  | nil => split_ifs <;> rfl
  | cons f fields ih =>
    obtain ⟨n, v⟩ := f
    rw [without, List.filter_cons]
    by_cases hn : n ∈ names
    · rw [if_neg (by simpa using hn), ← without, ih, lookup_cons_eq_ite]
      split_ifs with hname heq
      · rfl
      · exact absurd (heq ▸ hn) hname
      · rfl
    · rw [if_pos (by simpa using hn), lookup_cons_eq_ite, ← without, ih, lookup_cons_eq_ite]
      by_cases hname : name = n
      · rw [if_pos hname, if_neg (hname ▸ hn), if_pos hname]
      · rw [if_neg hname, if_neg hname]

theorem lookup_insertField (name : String) (value : Json) (fields : List (String × Json))
    (n : String) : (insertField name value fields).lookup n =
      if n = name then some value else fields.lookup n := by
  induction fields with
  | nil => exact lookup_cons_eq_ite n name value []
  | cons f fields ih =>
    obtain ⟨n', v⟩ := f
    rw [insertField]
    by_cases hlt : name < n'
    · rw [if_pos hlt, lookup_cons_eq_ite]
    · rw [if_neg hlt]
      by_cases heq : name = n'
      · subst heq
        rw [if_pos rfl, lookup_cons_eq_ite, lookup_cons_eq_ite]
        split_ifs <;> rfl
      · rw [if_neg heq, lookup_cons_eq_ite, lookup_cons_eq_ite, ih]
        by_cases h : n = n'
        · rw [if_pos h, if_pos h, if_neg (h ▸ Ne.symm heq)]
        · rw [if_neg h, if_neg h]

private theorem lookup_foldl_insertField (fields acc : List (String × Json)) (n : String)
    (h : n ∉ fields.map Prod.fst) :
    (fields.foldl (fun acc f => insertField f.1 f.2 acc) acc).lookup n = acc.lookup n := by
  induction fields generalizing acc with
  | nil => rfl
  | cons f fields ih =>
    rw [List.map_cons, List.mem_cons, not_or] at h
    rw [List.foldl_cons, ih _ h.2, lookup_insertField, if_neg h.1]

/-- A member that an object does not have. -/
theorem get_mkObj_of_notMem {fields : List (String × Json)} {name : String}
    (h : name ∉ fields.map Prod.fst) : (mkObj fields).get name = none :=
  lookup_foldl_insertField fields [] name h

/-- A member of an object whose members have distinct names. -/
theorem get_mkObj {fields : List (String × Json)} {name : String} {value : Json}
    (hn : (fields.map Prod.fst).Nodup) (h : (name, value) ∈ fields) :
    (mkObj fields).get name = some value := by
  rw [mkObj, get]
  generalize ([] : List (String × Json)) = acc
  induction fields generalizing acc with
  | nil => simp at h
  | cons f fields ih =>
    rw [List.map_cons, List.nodup_cons] at hn
    rw [List.foldl_cons]
    rcases List.mem_cons.mp h with rfl | h
    · rw [lookup_foldl_insertField _ _ _ hn.1, lookup_insertField, if_pos rfl]
    · exact ih hn.2 h _

/-- The members of an object made of members with distinct names. -/
theorem get_mkObj_eq_lookup {fields : List (String × Json)} (hn : (fields.map Prod.fst).Nodup)
    (name : String) : (mkObj fields).get name = fields.lookup name := by
  cases h : fields.lookup name with
  | none =>
    refine get_mkObj_of_notMem fun hmem => ?_
    obtain ⟨f, hf, rfl⟩ := List.mem_map.mp hmem
    simpa using List.lookup_eq_none_iff.mp h f hf
  | some value =>
    obtain ⟨before, after, hsplit, -⟩ := List.lookup_eq_some_iff.mp h
    exact get_mkObj hn (hsplit ▸ List.mem_append_right before List.mem_cons_self)

theorem perm_insertField {name : String} (value : Json) {fields : List (String × Json)}
    (h : name ∉ fields.map Prod.fst) :
    (insertField name value fields).Perm ((name, value) :: fields) := by
  induction fields with
  | nil => exact List.Perm.refl _
  | cons f fields ih =>
    obtain ⟨n, v⟩ := f
    rw [List.map_cons, List.mem_cons, not_or] at h
    rw [insertField, if_neg h.1]
    split_ifs
    · exact List.Perm.refl _
    · exact ((ih h.2).cons (n, v)).trans (List.Perm.swap _ _ _)

/-- An object made of members with distinct names has these members. -/
theorem exists_perm_mkObj {fields : List (String × Json)} (hn : (fields.map Prod.fst).Nodup) :
    ∃ sorted, mkObj fields = obj sorted ∧ sorted.Perm fields := by
  have hfold : ∀ acc : List (String × Json), ((acc ++ fields).map Prod.fst).Nodup →
      (fields.foldl (fun acc f => insertField f.1 f.2 acc) acc).Perm (acc ++ fields) := by
    clear hn
    induction fields with
    | nil => exact fun acc _ => by rw [List.append_nil]; exact List.Perm.refl _
    | cons f fields ih =>
      intro acc hacc
      have hmiddle : (acc ++ f :: fields).Perm (f :: acc ++ fields) := List.perm_middle
      have hf : (f.1 :: (acc ++ fields).map Prod.fst).Nodup :=
        (hmiddle.map Prod.fst).nodup hacc
      have hnot : f.1 ∉ acc.map Prod.fst := fun hmem =>
        (List.nodup_cons.mp hf).1 (by rw [List.map_append]; exact List.mem_append_left _ hmem)
      have hinsert := perm_insertField f.2 hnot
      have happend : (insertField f.1 f.2 acc ++ fields).Perm (f :: acc ++ fields) :=
        hinsert.append_right fields
      exact (ih _ ((happend.map Prod.fst).nodup_iff.mpr hf)).trans (happend.trans hmiddle.symm)
  exact ⟨_, rfl, hfold [] hn⟩

end Json

end ExecutionProvider

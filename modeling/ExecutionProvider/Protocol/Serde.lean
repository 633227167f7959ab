import Mathlib.Data.List.Nodup
import ExecutionProvider.Protocol.Json

/-!
# Writing and reading records and enumerations

How values of the protocol are written as JSON and read again, after the conventions of the
library that the source derives both from. A record is written as an object, and read from an
object, or from an array of its members in their order; members that it does not have are ignored
unless its type says otherwise. A member may be required, optional, skipped when there is nothing
to say, or have a default. An enumeration without data is written as a name, and read from a name
or from an object with this one member and nothing in it.

## Main definitions

* `Codec`: writing and reading, with the law that what was written is read.
* `Members.required`, `Members.optional`, `Members.skippable`, `Members.withDefault`: the members
  of a record, read.
* `Codec.record`, `Codec.strictRecord`, `Json.tagged`: records, and records that begin with a tag.
* `Codec.text`, `Codec.bool`, `Codec.list`, `Codec.enumeration`: some codecs.

## Main results

* `Json.get_record`: the members of a record.
-/

namespace ExecutionProvider

/-- Writing the values of a type as JSON, never as `null`, and reading them. -/
structure Codec (α : Type) where
  write : α → Json
  read : Json → Option α
  read_write : ∀ a, read (write a) = some a
  write_ne_null : ∀ a, write a ≠ .null

/-! ### Members -/

namespace Codec

variable {α : Type} (c : Codec α)

/-- An optional value, with `null` for nothing. -/
def nullable : Option α → Json
  | none => .null
  | some a => c.write a

/-- A member that must be there. -/
def readRequired (member : Option Json) : Option α := member.bind c.read

/-- A member that may be `null`, or missing where members have names. -/
def readOptional (positional : Bool) : Option Json → Option (Option α)
  | none => if positional then none else some none
  | some .null => some none
  | some value => (c.read value).map some

/-- A member that may be `null` or missing. -/
def readSkippable : Option Json → Option (Option α)
  | none | some .null => some none
  | some value => (c.read value).map some

/-- A member that has a default. -/
def readDefault (default : α) : Option Json → Option α
  | none => some default
  | some value => c.read value

@[simp] theorem readRequired_write (a : α) : c.readRequired (some (c.write a)) = some a :=
  c.read_write a

@[simp] theorem readOptional_nullable (positional : Bool) (o : Option α) :
    c.readOptional positional (some (c.nullable o)) = some o := by
  cases o with
  | none => rfl
  | some a =>
    unfold readOptional
    split
    · next hnone => cases hnone
    · next hnull => exact absurd (Option.some.inj hnull) (c.write_ne_null a)
    · next value _ hvalue => rw [← Option.some.inj hvalue, nullable, c.read_write, Option.map_some]

@[simp] theorem readSkippable_map (o : Option α) :
    c.readSkippable (o.map c.write) = some o := by
  cases o with
  | none => rfl
  | some a =>
    unfold readSkippable
    split
    · next hnone => cases hnone
    · next hnull => exact absurd (Option.some.inj hnull) (c.write_ne_null a)
    · next value _ hvalue => rw [← Option.some.inj hvalue, c.read_write, Option.map_some]

@[simp] theorem readDefault_write (default a : α) :
    c.readDefault default (some (c.write a)) = some a :=
  c.read_write a

/-- A member that is skipped when it is the default. -/
@[simp] theorem readDefault_ite (default a : α) [Decidable (a = default)] :
    c.readDefault default (if a = default then none else some (c.write a)) = some a := by
  split_ifs with h
  · rw [h]
    rfl
  · exact c.read_write a

end Codec

/-- A member of a record with its name, or skipped. -/
abbrev Member := String × Option Json

namespace Member

variable {α : Type} (name : String) (c : Codec α)

/-- A member that is always written. -/
@[simp] def required (a : α) : Member := (name, some (c.write a))

/-- An optional member, written as `null` when there is nothing to say. -/
@[simp] def optional (o : Option α) : Member := (name, some (c.nullable o))

/-- An optional member, skipped when there is nothing to say. -/
@[simp] def skippable (o : Option α) : Member := (name, o.map c.write)

/-- A member that is skipped when it is the default. -/
@[simp] def unlessDefault [DecidableEq α] (default a : α) : Member :=
  (name, if a = default then none else some (c.write a))

end Member

/-- The members of a value that is read as a record. In an array they are known by their
positions. -/
structure Members where
  get : String → Option Json
  positional : Bool

namespace Members

variable {α : Type} (m : Members) (name : String) (c : Codec α)

@[simp] def required : Option α := c.readRequired (m.get name)

@[simp] def optional : Option (Option α) := c.readOptional m.positional (m.get name)

@[simp] def skippable : Option (Option α) := c.readSkippable (m.get name)

@[simp] def withDefault (default : α) : Option α := c.readDefault default (m.get name)

/-- The members that a record was given. -/
@[simp] def of (members : List Member) : Members :=
  ⟨fun name => (members.lookup name).join, false⟩

end Members

namespace Json

/-- The members of an object. -/
def namedMembers : Json → Option Members
  | .obj fields => some ⟨fun name => fields.lookup name, false⟩
  | _ => none

/-- The members of a record with the given names. -/
def members (names : List String) : Json → Option Members
  | .obj fields => some ⟨fun name => fields.lookup name, false⟩
  | .arr items =>
    if items.length ≤ names.length then
      some ⟨fun name => (names.zip items).lookup name, true⟩
    else none
  | _ => none

/-- The members of a record that has no others than those with the given names. -/
def strictMembers (names : List String) (value : Json) : Option Members :=
  match value with
  | .obj fields => if fields.all fun f => names.contains f.1 then value.members names else none
  | _ => value.members names

/-! ### Records -/

/-- The members that are not skipped. -/
def present (members : List Member) : List (String × Json) :=
  members.filterMap fun m => m.2.map fun value => (m.1, value)

/-- A record with the members that are not skipped. -/
def record (members : List Member) : Json := .mkObj (present members)

variable {members : List Member}

theorem record_ne_null : record members ≠ null := nofun

theorem sublist_present (members : List Member) :
    ((present members).map Prod.fst).Sublist (members.map Prod.fst) := by
  induction members with
  | nil => exact List.Sublist.refl _
  | cons m members ih =>
    obtain ⟨name, value⟩ := m
    cases value with
    | none => exact ih.cons name
    | some value => exact ih.cons_cons name

theorem lookup_present (hn : (members.map Prod.fst).Nodup) (name : String) :
    (present members).lookup name = (members.lookup name).join := by
  induction members with
  | nil => rfl
  | cons m members ih =>
    obtain ⟨n, value⟩ := m
    rw [List.map_cons, List.nodup_cons] at hn
    have hrest := ih hn.2
    by_cases h : name = n
    · subst h
      cases value with
      | none =>
        have hnone : List.lookup name members = none :=
          List.lookup_eq_none_iff.mpr fun m hm => by
            simpa using fun heq => hn.1 (List.mem_map.mpr ⟨m, hm, heq.symm⟩)
        rw [show present ((name, none) :: members) = present members from rfl, hrest,
          List.lookup_cons_self, hnone]
        rfl
      | some value =>
        rw [show present ((name, some value) :: members) = (name, value) :: present members
          from rfl, List.lookup_cons_self, List.lookup_cons_self]
        rfl
    · have hne : (name == n) = false := beq_eq_false_iff_ne.mpr h
      cases value with
      | none =>
        rw [show present ((n, none) :: members) = present members from rfl, hrest,
          List.lookup_cons, hne]
      | some value =>
        rw [show present ((n, some value) :: members) = (n, value) :: present members from rfl,
          List.lookup_cons, hne, List.lookup_cons, hne]
        exact hrest

/-- The members of a record whose members have distinct names. -/
theorem get_record (hn : (members.map Prod.fst).Nodup) (name : String) :
    (record members).get name = (members.lookup name).join := by
  rw [record, get_mkObj_eq_lookup (hn.sublist (sublist_present members)), lookup_present hn]

/-- The members of an object that has exactly the given ones. -/
theorem namedMembers_eq {fields : List (String × Json)}
    (h : ∀ name, fields.lookup name = (members.lookup name).join) :
    (obj fields).namedMembers = some (.of members) := by
  rw [namedMembers, Members.of, Option.some.injEq, Members.mk.injEq]
  exact ⟨funext h, rfl⟩

theorem members_eq {fields : List (String × Json)} (names : List String)
    (h : ∀ name, fields.lookup name = (members.lookup name).join) :
    (obj fields).members names = some (.of members) :=
  namedMembers_eq h

theorem strictMembers_eq {fields : List (String × Json)} {names : List String}
    (h : ∀ name, fields.lookup name = (members.lookup name).join)
    (hnames : ∀ f ∈ fields, f.1 ∈ names) :
    (obj fields).strictMembers names = some (.of members) := by
  rw [strictMembers, if_pos, members_eq names h]
  exact List.all_eq_true.mpr fun f hf => List.contains_iff_mem.mpr (hnames f hf)

/-- What a record is made of. -/
theorem exists_record (hn : (members.map Prod.fst).Nodup) :
    ∃ fields, record members = obj fields ∧
      (∀ name, fields.lookup name = (members.lookup name).join) ∧
      ∀ f ∈ fields, f.1 ∈ members.map Prod.fst := by
  obtain ⟨fields, hfields, hperm⟩ := exists_perm_mkObj (hn.sublist (sublist_present members))
  refine ⟨fields, hfields, fun name => ?_, fun f hf => ?_⟩
  · rw [← get_record hn, record, hfields, get]
  · exact (sublist_present members).subset (List.mem_map_of_mem (hperm.subset hf))

/-- The members of an object that was written. -/
theorem namedMembers_record (hn : (members.map Prod.fst).Nodup) :
    (record members).namedMembers = some (.of members) := by
  obtain ⟨fields, hfields, hlookup, -⟩ := exists_record hn
  rw [hfields, namedMembers_eq hlookup]

/-! ### Records of which some members are read first -/

/-- What is left of a record without its first members. -/
theorem exists_record_append {first : List Member}
    (hn : ((first ++ members).map Prod.fst).Nodup) :
    ∃ fields, record (first ++ members) = obj fields ∧
      (∀ name ∈ first.map Prod.fst, fields.lookup name = (first.lookup name).join) ∧
      (∀ name, (without (first.map Prod.fst) fields).lookup name = (members.lookup name).join) ∧
      ∀ f ∈ without (first.map Prod.fst) fields, f.1 ∈ members.map Prod.fst := by
  obtain ⟨fields, hfields, hlookup, hmem⟩ := exists_record hn
  rw [List.map_append] at hn hmem
  have hdisjoint := List.disjoint_of_nodup_append hn
  have hnone {ms : List Member} {name : String} (h : name ∉ ms.map Prod.fst) :
      List.lookup name ms = none :=
    List.lookup_eq_none_iff.mpr fun m hm => by
      simpa using fun heq => h (List.mem_map.mpr ⟨m, hm, Eq.symm heq⟩)
  refine ⟨fields, hfields, fun name hname => ?_, fun name => ?_, fun f hf => ?_⟩
  · rw [hlookup, List.lookup_append]
    rw [hnone (hdisjoint hname), Option.or_none]
  · rw [lookup_without]
    split_ifs with h
    · rw [hnone (hdisjoint h)]
      rfl
    · rw [hlookup, List.lookup_append, hnone h, Option.none_or]
  · obtain ⟨hf, hne⟩ := List.mem_filter.mp hf
    have hne : f.1 ∉ first.map Prod.fst := by simpa using hne
    exact (List.mem_append.mp (hmem f hf)).resolve_left hne

/-- A value that is read by its tag: the tag, and what it stands for. -/
def tagged (tag : String) : Json → Option (String × Json)
  | .obj fields =>
    match fields.lookup tag with
    | some (.str name) => some (name, .obj (without [tag] fields))
    | _ => none
  | .arr (.str name :: items) => some (name, .arr items)
  | _ => none

/-- What a record with a tag is read as. -/
theorem exists_tagged_record (tag name : String) (members : List Member)
    (hn : (((tag, some (.str name)) :: members).map Prod.fst).Nodup) :
    ∃ content, (record ((tag, some (.str name)) :: members)).tagged tag = some (name, content) ∧
      (∀ names, content.members names = some (.of members)) ∧
      content.strictMembers (members.map Prod.fst) = some (.of members) := by
  obtain ⟨fields, hfields, hfirst, hlookup, hmem⟩ :=
    @exists_record_append members [(tag, some (.str name))] hn
  have htag : fields.lookup tag = some (.str name) := by
    rw [hfirst tag List.mem_cons_self, List.lookup_cons_self]
    rfl
  rw [List.singleton_append] at hfields
  refine ⟨_, ?_, fun names => members_eq names hlookup, strictMembers_eq hlookup hmem⟩
  rw [hfields, tagged, htag]
  rfl

end Json

namespace Codec

variable {α : Type} (names : List String) (members : α → List Member)
  (ofMembers : Members → Option α) (hn : names.Nodup)
  (hnames : ∀ a, (members a).map Prod.fst = names)
  (h : ∀ a, ofMembers (.of (members a)) = some a)

/-- A record with the given members. -/
def record : Codec α where
  write a := .record (members a)
  read value := (value.members names).bind ofMembers
  read_write a := by
    obtain ⟨fields, hfields, hlookup, -⟩ := Json.exists_record ((hnames a).symm ▸ hn)
    rw [hfields, Json.members_eq names hlookup, Option.bind_some, h]
  write_ne_null _ := Json.record_ne_null

/-- A record that may have no other members than the given ones. -/
def strictRecord : Codec α where
  write a := .record (members a)
  read value := (value.strictMembers names).bind ofMembers
  read_write a := by
    obtain ⟨fields, hfields, hlookup, hmem⟩ := Json.exists_record ((hnames a).symm ▸ hn)
    rw [hfields, Json.strictMembers_eq hlookup (hnames a ▸ hmem), Option.bind_some, h]
  write_ne_null _ := Json.record_ne_null

/-- Records of several kinds, each of which begins with the name of its kind as a tag. -/
def tagged {α : Type} (tag : String) (write : α → String × List Member)
    (ofTag : String → Json → Option α)
    (hn : ∀ a, (tag :: (write a).2.map Prod.fst).Nodup)
    (h : ∀ a content, (∀ names, content.members names = some (.of (write a).2)) →
      content.strictMembers ((write a).2.map Prod.fst) = some (.of (write a).2) →
      ofTag (write a).1 content = some a) : Codec α where
  write a := .record ((tag, some (.str (write a).1)) :: (write a).2)
  read value := (value.tagged tag).bind fun t => ofTag t.1 t.2
  read_write a := by
    obtain ⟨content, htag, hmembers, hstrict⟩ :=
      Json.exists_tagged_record tag (write a).1 (write a).2 (hn a)
    rw [htag, Option.bind_some, h a content hmembers hstrict]
  write_ne_null _ := Json.record_ne_null

end Codec

/-! ### Numbers -/

private theorem foldl_digits (cs : List Char) (hcs : ∀ c ∈ cs, c.isDigit = true) (n : ℕ) :
    cs.foldl (fun (n : Option ℕ) c => n.bind fun n =>
      if c.isDigit then some (10 * n + (c.toNat - '0'.toNat)) else none) (some n) =
      some (Nat.ofDigitChars 10 cs n) := by
  induction cs generalizing n with
  | nil => rw [List.foldl_nil, Nat.ofDigitChars_nil]
  | cons c cs ih =>
    have hc : c.isDigit = true := hcs c List.mem_cons_self
    rw [List.foldl_cons, Option.bind_some, if_pos hc, Nat.ofDigitChars_cons]
    exact ih (fun c hc => hcs c (List.mem_cons_of_mem _ hc)) _

/-- A number that was written is read. -/
theorem Json.natOfLiteral_toString (n : ℕ) : Json.natOfLiteral (toString n) = some n := by
  have hlist : (toString n).toList = Nat.toDigits 10 n := Nat.toList_repr
  have hne : toString n ≠ "" := by
    intro h
    rw [h] at hlist
    exact Nat.toDigits_ne_nil hlist.symm
  rw [natOfLiteral, if_neg hne, hlist,
    foldl_digits _ (fun c hc => Nat.isDigit_of_mem_toDigits (by omega) (by omega) hc) 0,
    Nat.ofDigitChars_toDigits (by omega) (by omega)]

namespace Codec

/-- Natural numbers in a type of machine integers. -/
def ofNat {α : Type} (toNat : α → ℕ) (ofNat : ℕ → Option α) (h : ∀ a, ofNat (toNat a) = some a) :
    Codec α where
  write a := .num (toString (toNat a))
  read
    | .num literal => (Json.natOfLiteral literal).bind ofNat
    | _ => none
  read_write a := by
    dsimp only
    rw [Json.natOfLiteral_toString, Option.bind_some, h]
  write_ne_null _ := nofun

def uint16 : Codec UInt16 :=
  ofNat UInt16.toNat (fun n => if h : n < UInt16.size then some (UInt16.ofNatLT n h) else none)
    fun n => dif_pos n.toNat_lt

def uint32 : Codec UInt32 :=
  ofNat UInt32.toNat (fun n => if h : n < UInt32.size then some (UInt32.ofNatLT n h) else none)
    fun n => dif_pos n.toNat_lt

def uint64 : Codec UInt64 :=
  ofNat UInt64.toNat (fun n => if h : n < UInt64.size then some (UInt64.ofNatLT n h) else none)
    fun n => dif_pos n.toNat_lt

/-! ### Texts, truth values and lists -/

def text : Codec String where
  write := .str
  read := Json.asStr
  read_write _ := rfl
  write_ne_null _ := nofun

def bool : Codec Bool where
  write := .bool
  read
    | .bool b => some b
    | _ => none
  read_write _ := rfl
  write_ne_null _ := nofun

section List

variable {α : Type} (c : Codec α)

/-- All items of a list, read. -/
def readAll : List Json → Option (List α)
  | [] => some []
  | item :: items =>
    match c.read item, readAll items with
    | some a, some as => some (a :: as)
    | _, _ => none

theorem readAll_map_write (as : List α) : c.readAll (as.map c.write) = some as := by
  induction as with
  | nil => rfl
  | cons a as ih => rw [List.map_cons, readAll, c.read_write, ih]

/-- What is read is read item by item. -/
theorem exists_read_of_readAll {items : List Json} {as : List α}
    (h : c.readAll items = some as) : ∀ item ∈ items, ∃ a ∈ as, c.read item = some a := by
  induction items generalizing as with
  | nil => exact nofun
  | cons item items ih =>
    rw [readAll] at h
    split at h
    · next a as' ha has =>
      obtain rfl := Option.some.inj h
      intro i hi
      rcases List.mem_cons.mp hi with rfl | hi
      · exact ⟨a, List.mem_cons_self, ha⟩
      · obtain ⟨b, hb, hread⟩ := ih has i hi
        exact ⟨b, List.mem_cons_of_mem _ hb, hread⟩
    · cases h

def list : Codec (List α) where
  write as := .arr (as.map c.write)
  read
    | .arr items => c.readAll items
    | _ => none
  read_write as := c.readAll_map_write as
  write_ne_null _ := nofun

end List

end Codec

/-! ### Enumerations without data -/

/-- The name that stands for a value of an enumeration. -/
def Json.variant : Json → Option String
  | .str name => some name
  | .obj [(name, .null)] => some name
  | _ => none

/-- The name that stands for a value of an enumeration inside of a value that is read by its tag.
There an object without members counts as nothing, too. -/
def Json.taggedVariant : Json → Option String
  | .str name => some name
  | .obj [(name, .null)] => some name
  | .obj [(name, .obj [])] => some name
  | _ => none

/-- The values of an enumeration by their names. -/
def Codec.enumeration {α : Type} (variant : Json → Option String) (name : α → String)
    (all : List α) (hvariant : ∀ s, variant (.str s) = some s)
    (hall : ∀ a, all.find? (fun b => name b = name a) = some a) : Codec α where
  write a := .str (name a)
  read value := (variant value).bind fun s => all.find? fun b => name b = s
  read_write a := by rw [hvariant, Option.bind_some, hall]
  write_ne_null _ := nofun

end ExecutionProvider

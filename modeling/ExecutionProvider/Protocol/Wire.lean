import ExecutionProvider.Protocol.Codec

/-!
# What requests travel as

A request that is written is read again as the same request. An object that is no request in
either of its two forms is not read as one: nothing is ignored at the top of a request or of an
item of a batch.

## Main definitions

* `Malformed`: an object that mixes the two forms, nests a batch, or has a member of neither form.

## Main results

* `read_eq_none_of_malformed`: such an object is not read.
* `request_wire`: the round trip, and what is not read.
-/

namespace ExecutionProvider.Protocol

open Codec

/-! ### Forms -/

/-- Names of both forms. -/
def Mixes (names : List String) : Prop :=
  (∃ name ∈ names, name ∈ singleFields) ∧ ∃ name ∈ names, name ∈ batchFields

/-- The members that a request of the form that an object has may have. -/
def formFields (fields : List (String × Json)) : List String :=
  envelopeFields ++ if (fields.lookup "operations").isSome then batchFields else singleFields

/-- The members that an item of a batch may have. -/
def itemFields : List String := "request_id" :: singleFields

/-- An object that mixes the two forms, nests a batch in a batch, or has a member that its form
does not have, at its top or in an item of its batch. -/
inductive Malformed (fields : List (String × Json)) : Prop
  | mixed (h : Mixes (fields.map Prod.fst))
  | foreign {name : String} (hname : name ∈ fields.map Prod.fst) (h : name ∉ formFields fields)
  | mixedItem {items : List Json} {item : List (String × Json)}
      (hitems : fields.lookup "operations" = some (.arr items)) (hitem : .obj item ∈ items)
      (h : Mixes (item.map Prod.fst))
  | nested {items : List Json} {item : List (String × Json)}
      (hitems : fields.lookup "operations" = some (.arr items)) (hitem : .obj item ∈ items)
      (h : "operations" ∈ item.map Prod.fst)
  | foreignItem {items : List Json} {item : List (String × Json)} {name : String}
      (hitems : fields.lookup "operations" = some (.arr items)) (hitem : .obj item ∈ items)
      (hname : name ∈ item.map Prod.fst) (h : name ∉ itemFields)

/-! ### What is read has one of the forms -/

variable {fields : List (String × Json)} {payload : Payload} {r : Request Payload}

theorem not_mixes_of_subset {names allowed : List String} (h : names ⊆ allowed)
    (hallowed : allowed ⊆ envelopeFields ++ singleFields ∨
      allowed ⊆ envelopeFields ++ batchFields) : ¬Mixes names := by
  rintro ⟨⟨n, hn, hsingle⟩, m, hm, hbatch⟩
  rcases hallowed with hallowed | hallowed
  · have hm := hallowed (h hm)
    revert hm
    simp only [batchFields, List.mem_cons, List.not_mem_nil, or_false] at hbatch
    rcases hbatch with rfl | rfl | rfl <;> decide
  · have hn := hallowed (h hn)
    revert hn
    simp only [singleFields, List.mem_cons, List.not_mem_nil, or_false] at hsingle
    rcases hsingle with rfl | rfl <;> decide

/-- An item that is read has the members of an item. -/
theorem names_of_readItem {item : List (String × Json)} {operation : BatchOperation}
    (h : BatchOperation.read (.obj item) = some operation) : item.map Prod.fst ⊆ itemFields := by
  obtain ⟨id, -, h⟩ := Option.bind_eq_some_iff.mp h
  dsimp only at h
  split_ifs at h with hrest
  intro name hname
  obtain ⟨f, hf, rfl⟩ := List.mem_map.mp hname
  by_cases hid : f.1 = "request_id"
  · exact hid ▸ List.mem_cons_self
  · refine List.mem_cons_of_mem _ (List.contains_iff_mem.mp ?_)
    by_contra hnot
    refine hrest (List.any_eq_true.mpr ⟨f, List.mem_filter.mpr ⟨hf, by simpa using hid⟩, ?_⟩)
    rw [Bool.eq_false_iff.mpr hnot]
    rfl

/-- A payload that is read has one of the two forms, and its items have the form of an item. -/
theorem ofFields_eq_some (h : Payload.ofFields fields = some payload) :
    (fields.map Prod.fst ⊆
      if (fields.lookup "operations").isSome then batchFields else singleFields) ∧
    ∀ items, fields.lookup "operations" = some (.arr items) → ∀ item, .obj item ∈ items →
      item.map Prod.fst ⊆ itemFields := by
  by_cases hforeign : (fields.any fun f =>
      !(if (fields.lookup "operations").isSome then batchFields else singleFields).contains f.1) =
      true
  · rw [show Payload.ofFields fields = none from if_pos hforeign] at h
    cases h
  rw [show Payload.ofFields fields = _ from if_neg hforeign] at h
  refine ⟨fun name hname => ?_, fun items hitems item hitem => ?_⟩
  · obtain ⟨f, hf, rfl⟩ := List.mem_map.mp hname
    refine List.contains_iff_mem.mp ?_
    by_contra hnot
    refine hforeign (List.any_eq_true.mpr ⟨f, hf, ?_⟩)
    rw [Bool.eq_false_iff.mpr hnot]
    rfl
  · rw [hitems, Option.isSome_some, if_pos rfl] at h
    obtain ⟨b, hb, -⟩ := Option.map_eq_some_iff.mp h
    obtain ⟨mode, -, hb⟩ := Option.bind_eq_some_iff.mp hb
    obtain ⟨codes, -, hb⟩ := Option.bind_eq_some_iff.mp hb
    obtain ⟨operations, hoperations, -⟩ := Option.bind_eq_some_iff.mp hb
    dsimp only [Members.required] at hoperations
    rw [hitems] at hoperations
    obtain ⟨operation, -, hread⟩ := exists_read_of_readAll _ hoperations _ hitem
    exact names_of_readItem hread

/-- An object that is malformed is not read as a request. -/
theorem read_eq_none_of_malformed (h : Malformed fields) : Request.read (.obj fields) = none := by
  by_contra hsome
  obtain ⟨r, hr⟩ := Option.ne_none_iff_exists'.mp hsome
  obtain ⟨version, -, hr⟩ := Option.bind_eq_some_iff.mp hr
  obtain ⟨id, -, hr⟩ := Option.bind_eq_some_iff.mp hr
  obtain ⟨generation, -, hr⟩ := Option.bind_eq_some_iff.mp hr
  obtain ⟨payload, hpayload, -⟩ := Option.bind_eq_some_iff.mp hr
  obtain ⟨hnames, hitems⟩ := ofFields_eq_some hpayload
  have hlookup : (Json.without envelopeFields fields).lookup "operations" =
      fields.lookup "operations" := by
    rw [Json.lookup_without, if_neg (by decide)]
  rw [hlookup] at hnames hitems
  have htop : fields.map Prod.fst ⊆ formFields fields := by
    intro name hname
    obtain ⟨f, hf, rfl⟩ := List.mem_map.mp hname
    by_cases henvelope : f.1 ∈ envelopeFields
    · exact List.mem_append_left _ henvelope
    · exact List.mem_append_right _ (hnames (List.mem_map_of_mem
        (List.mem_filter.mpr ⟨hf, by simpa using henvelope⟩)))
  cases h with
  | mixed h =>
    refine not_mixes_of_subset htop ?_ h
    rw [formFields]
    split_ifs
    · exact Or.inr (List.Subset.refl _)
    · exact Or.inl (List.Subset.refl _)
  | foreign hname h => exact h (htop hname)
  | mixedItem hops hitem h =>
    exact not_mixes_of_subset (hitems _ hops _ hitem) (Or.inl (by decide)) h
  | nested hops hitem h => exact absurd (hitems _ hops _ hitem h) (by decide)
  | foreignItem hops hitem hname h => exact h (hitems _ hops _ hitem hname)

/-- **Requests on the wire.** Every request that is written is read again as the same request.
No object is read as a request that, at its top or in an item of its batch, mixes the members of
an operation and of a batch, has a batch in a batch, or has a member that its form does not
have. -/
theorem request_wire :
    (∀ r : Request Payload, Request.read r.write = some r) ∧
      ∀ fields, Malformed fields → Request.read (.obj fields) = none :=
  ⟨Request.read_write, fun _ => read_eq_none_of_malformed⟩

end ExecutionProvider.Protocol

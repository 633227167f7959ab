import ExecutionProvider.Patch.Messages

/-!
# The size of the receipts of patches

A receipt has at most one change for each section, and a change has two paths and three hashes. With
a short failure and without its diff, it fits into the largest size of a result.

## Main definitions

* `PatchReceipt.Small`: what is recorded in a receipt is small.

## Main results

* `ensures_commitSteps`: so it is after any number of steps.
* `execute_text_le`: the size of the receipt of a patch.
-/

namespace ExecutionProvider.Patch

open Filesystem Program

/-! ### Sizes -/

theorem forall_mem_some {α : Type} {p : α → Prop} {a : α} (h : p a) : ∀ b ∈ some a, p b := by
  rintro b ⟨⟩
  exact h

/-- The size of a small number. -/
theorem size_natValue_le {n : ℕ} (h : n < numberMax) : (natValue n).size ≤ 51 := by
  have hdigits : (toString n).length ≤ 8 := (Nat.length_repr_le_iff (by decide)).mpr h
  have hsize := Json.size_num_le (toString n)
  rw [natValue]
  omega

theorem size_optionalNat_le {n : Option ℕ} (h : ∀ k ∈ n, k < numberMax) :
    (optionalNat n).size ≤ 51 := by
  refine Json.size_ofOption_le (fun v hv => ?_) (by decide)
  obtain ⟨k, hk, rfl⟩ := Option.map_eq_some_iff.mp hv
  exact size_natValue_le (h k hk)

theorem size_str_le_of_size {s : String} {n : ℕ} (h : s.utf8ByteSize ≤ n) :
    (Json.str s).size ≤ 6 * n + 2 := by
  have hsize := Json.size_str_le s
  have hlen := String.length_le_utf8ByteSize s
  omega

/-- The paths, hashes and numbers of a change are small. -/
structure PatchChange.Small (c : PatchChange) : Prop where
  path : c.path.utf8ByteSize ≤ pathMax
  destinationPath : ∀ path ∈ c.destinationPath, path.utf8ByteSize ≤ pathMax
  beforeSha256 : ∀ hash ∈ c.beforeSha256, hash.utf8ByteSize = 64
  afterSha256 : ∀ hash ∈ c.afterSha256, hash.utf8ByteSize = 64
  destinationBeforeSha256 : ∀ hash ∈ c.destinationBeforeSha256, hash.utf8ByteSize = 64
  bytesBefore : ∀ n ∈ c.bytesBefore, n < numberMax
  bytesAfter : ∀ n ∈ c.bytesAfter, n < numberMax
  destinationBytesBefore : ∀ n ∈ c.destinationBytesBefore, n < numberMax
  firstChangedLine : ∀ n ∈ c.firstChangedLine, n < numberMax

/-- The text and the numbers of a failure are small. -/
structure PatchFailure.Small (f : PatchFailure) : Prop where
  message : f.message.utf8ByteSize ≤ 2 * pathMax + 64
  sectionIndex : ∀ n ∈ f.sectionIndex, n < numberMax
  edit : ∀ n ∈ f.edit, n < numberMax

theorem size_skippable_le {o : Option String} {n : ℕ} (h : ∀ s ∈ o, s.utf8ByteSize ≤ n) :
    ∀ v ∈ o.map Codec.text.write, v.size ≤ 6 * n + 2 := by
  intro v hv
  obtain ⟨s, hs, rfl⟩ := Option.map_eq_some_iff.mp hv
  exact size_str_le_of_size (h s hs)

theorem size_optional_le {o : Option String} {n : ℕ} (h : ∀ s ∈ o, s.utf8ByteSize ≤ n) :
    ∀ v ∈ some (Codec.text.nullable o), v.size ≤ 6 * n + 4 := by
  rintro v ⟨⟩
  cases o with
  | none => exact Json.size_null.trans_le (Nat.le_add_left _ _)
  | some s => exact (size_str_le_of_size (h s rfl)).trans (by omega)

theorem PatchChangeKind.utf8ByteSize_text_le (k : PatchChangeKind) :
    k.text.utf8ByteSize ≤ 6 := by
  cases k <;> decide

theorem PatchStatus.utf8ByteSize_text_le (s : PatchStatus) : s.text.utf8ByteSize ≤ 8 := by
  cases s <;> decide

theorem utf8ByteSize_text_errorCode_le (c : ErrorCode) : c.text.utf8ByteSize ≤ 21 := by
  cases c <;> decide

/-- The largest size of the record of a change. -/
def changeSizeMax : ℕ := 51440

/-- The largest size of a failure. -/
def failureSizeMax : ℕ := 50000

/-- The size of the record of a change. -/
theorem PatchChange.Small.size_value_le {c : PatchChange} (h : c.Small) :
    c.value.size ≤ changeSizeMax := by
  have hhash {o : Option String} (h : ∀ hash ∈ o, hash.utf8ByteSize = 64) :
      ∀ hash ∈ o, hash.utf8ByteSize ≤ 64 := fun hash hmem => (h hash hmem).le
  have hbounds : List.Forall₂ (fun m n => ∀ v ∈ m.2, v.size ≤ n) c.members
      [38, 24578, 24578, 388, 388, 386, 51, 51, 51, 51] := by
    refine .cons (forall_mem_some (size_str_le_of_size c.kind.utf8ByteSize_text_le)) ?_
    refine .cons (forall_mem_some (size_str_le_of_size h.path)) ?_
    refine .cons (size_skippable_le h.destinationPath) ?_
    refine .cons (size_optional_le (hhash h.beforeSha256)) ?_
    refine .cons (size_optional_le (hhash h.afterSha256)) ?_
    refine .cons (size_skippable_le (hhash h.destinationBeforeSha256)) ?_
    refine .cons (forall_mem_some (size_optionalNat_le h.bytesBefore)) ?_
    refine .cons (forall_mem_some (size_optionalNat_le h.bytesAfter)) ?_
    refine .cons (fun v hv => ?_) ?_
    · obtain ⟨n, hn, rfl⟩ := Option.map_eq_some_iff.mp hv
      exact size_natValue_le (h.destinationBytesBefore n hn)
    · exact .cons (forall_mem_some (size_optionalNat_le h.firstChangedLine)) .nil
  refine (Json.size_record_le_of_bounds hbounds ["kind", "path", "destination_path",
    "before_sha256", "after_sha256", "destination_before_sha256", "bytes_before", "bytes_after",
    "destination_bytes_before", "first_changed_line"] rfl (by decide)).trans ?_
  decide

/-- The size of a failure. -/
theorem PatchFailure.Small.size_value_le {f : PatchFailure} (h : f.Small) :
    f.value.size ≤ failureSizeMax := by
  have hbounds : List.Forall₂ (fun m n => ∀ v ∈ m.2, v.size ≤ n)
      [("code", some (Json.str f.code.text)), ("message", some (.str f.message)),
        ("section", some (optionalNat f.sectionIndex)), ("edit", some (optionalNat f.edit))]
      [128, 49538, 51, 51] := by
    refine .cons (forall_mem_some (size_str_le_of_size (utf8ByteSize_text_errorCode_le f.code))) ?_
    refine .cons (forall_mem_some (size_str_le_of_size h.message)) ?_
    refine .cons (forall_mem_some (size_optionalNat_le h.sectionIndex)) ?_
    exact .cons (forall_mem_some (size_optionalNat_le h.edit)) .nil
  refine (Json.size_record_le_of_bounds hbounds ["code", "message", "section", "edit"] rfl
    (by decide)).trans ?_
  decide

/-- What is recorded in a receipt is small. -/
structure PatchReceipt.Small (receipt : PatchReceipt) : Prop where
  mutationId : receipt.mutationId.utf8ByteSize ≤ 256
  length : receipt.changes.length ≤ maxPatchFiles
  changes : ∀ c ∈ receipt.changes, c.Small
  error : ∀ f ∈ receipt.error, f.Small

/-- A receipt without a diff is small. -/
theorem PatchReceipt.Small.size_value_le {receipt : PatchReceipt} (h : receipt.Small)
    (hdiff : receipt.diff = "") : receipt.value.size ≤ maxPatchResultBytes := by
  have hchanges : (Json.arr (receipt.changes.map PatchChange.value)).size ≤
      maxPatchFiles * (changeSizeMax + 1) + 2 := by
    have hsizes : ∀ v ∈ receipt.changes.map PatchChange.value, v.size ≤ changeSizeMax := by
      intro v hv
      obtain ⟨c, hc, rfl⟩ := List.mem_map.mp hv
      exact (h.changes c hc).size_value_le
    have harr := Json.size_arr_le hsizes
    rw [List.length_map] at harr
    exact harr.trans (Nat.add_le_add_right (Nat.mul_le_mul_right _ h.length) 2)
  have herror : (Json.ofOption (receipt.error.map PatchFailure.value)).size ≤ failureSizeMax := by
    refine Json.size_ofOption_le (fun v hv => ?_) (by decide)
    obtain ⟨f, hf, rfl⟩ := Option.map_eq_some_iff.mp hv
    exact (h.error f hf).size_value_le
  have hbounds : List.Forall₂ (fun m n => ∀ v ∈ m.2, v.size ≤ n)
      [("mutation_id", some (Json.str receipt.mutationId)),
        ("status", some (.str receipt.status.text)),
        ("changes_exact", some (.bool receipt.changesExact)),
        ("changes", some (.arr (receipt.changes.map PatchChange.value))),
        ("diff", some (.str receipt.diff)), ("diff_truncated", some (.bool receipt.diffTruncated)),
        ("error", some (.ofOption (receipt.error.map PatchFailure.value)))]
      [1538, 50, 5, maxPatchFiles * (changeSizeMax + 1) + 2, 2, 5, failureSizeMax] := by
    refine .cons (forall_mem_some (size_str_le_of_size h.mutationId)) ?_
    refine .cons (forall_mem_some (size_str_le_of_size receipt.status.utf8ByteSize_text_le)) ?_
    refine .cons (forall_mem_some (Json.size_bool_le _)) ?_
    refine .cons (forall_mem_some hchanges) ?_
    refine .cons (forall_mem_some ?_) ?_
    · rw [hdiff]
      decide
    refine .cons (forall_mem_some (Json.size_bool_le _)) ?_
    exact .cons (forall_mem_some herror) .nil
  refine (Json.size_record_le_of_bounds hbounds ["mutation_id", "status", "changes_exact",
    "changes", "diff", "diff_truncated", "error"] rfl (by decide)).trans ?_
  decide

/-! ### Receipts -/

section Receipts

variable {σ : Type} {env : Environment σ SysCall SysCall.Answer} {receipt : PatchReceipt}
  {limit : ℕ} {step : Step} {sha256 : List UInt8 → String}

/-- A receipt apart from its diff. -/
def PatchReceipt.withoutDiff (receipt : PatchReceipt) : PatchReceipt :=
  { receipt with diff := "", diffTruncated := true }

theorem withoutDiff_appendLine (receipt : PatchReceipt) (marker line : String) :
    (appendLine receipt marker line).1.withoutDiff = receipt.withoutDiff := by
  rw [appendLine]
  split_ifs
  · rfl
  · rfl

theorem withoutDiff_appendLines (receipt : PatchReceipt) (marker : String) (lines : List String) :
    (appendLines receipt marker lines).1.withoutDiff = receipt.withoutDiff := by
  induction lines generalizing receipt with
  | nil => rfl
  | cons line lines ih =>
    have hline := withoutDiff_appendLine receipt marker line
    rw [appendLines]
    split
    · next r h =>
      rw [h] at hline
      exact hline
    · next r h =>
      rw [h] at hline
      exact (ih r).trans hline

theorem withoutDiff_appendBounded (receipt : PatchReceipt) (fragment : String) :
    (appendBounded receipt fragment).1.withoutDiff = receipt.withoutDiff := by
  rw [appendBounded]
  split_ifs
  · rfl
  · rfl

/-- Nothing but the diff of a receipt changes when one is appended. -/
theorem withoutDiff_appendDiff (receipt : PatchReceipt) (step : DiffStep) :
    (appendDiff receipt step).withoutDiff = receipt.withoutDiff := by
  rw [appendDiff]
  split_ifs
  · rfl
  dsimp only
  split_ifs
  · rfl
  split
  · next a b ha hb =>
    generalize hheader : diffHeader step ++ _ = header
    have hbounded := withoutDiff_appendBounded receipt header
    split
    · next r h =>
      rw [h] at hbounded
      exact hbounded
    · next r h =>
      rw [h] at hbounded
      have hremoved := withoutDiff_appendLines r "-" (Unified.middle (lines a)
        (commonPrefix (lines a) (lines b)) (Unified.commonSuffix (lines a) (lines b)))
      split
      · next r' h' =>
        rw [h'] at hremoved
        exact hremoved.trans hbounded
      · next r' h' =>
        rw [h'] at hremoved
        exact (withoutDiff_appendLines r' "+" _).trans (hremoved.trans hbounded)
  · rfl

theorem PatchReceipt.small_withoutDiff : receipt.withoutDiff.Small ↔ receipt.Small :=
  ⟨fun h => ⟨h.mutationId, h.length, h.changes, h.error⟩,
    fun h => ⟨h.mutationId, h.length, h.changes, h.error⟩⟩

theorem PatchReceipt.Small.append (h : receipt.Small)
    (hlength : receipt.changes.length < maxPatchFiles) {c : PatchChange} (hc : c.Small) :
    { receipt with changes := receipt.changes ++ [c] }.Small := by
  refine ⟨h.mutationId, ?_, fun c' hmem => ?_, h.error⟩
  · rw [List.length_append, List.length_singleton]
    exact hlength
  · obtain hold | hnew := List.mem_append.mp hmem
    · exact h.changes c' hold
    · obtain rfl := List.mem_singleton.mp hnew
      exact hc

theorem PatchReceipt.Small.fail (h : receipt.Small) {e : Error} (he : e.Short)
    {sectionIndex edit : Option ℕ} (hsection : ∀ n ∈ sectionIndex, n < numberMax)
    (hedit : ∀ n ∈ edit, n < numberMax) (uncertain : Bool) :
    (receipt.fail e sectionIndex edit uncertain).Small := by
  refine ⟨h.mutationId, h.length, h.changes, fun f hf => ?_⟩
  obtain rfl := Option.some.inj hf
  exact ⟨he, hsection, hedit⟩

/-- The record of a change between contents that are not too large. -/
theorem small_change (hsha : ∀ bytes, (sha256 bytes).utf8ByteSize = 64)
    (hlimit : limit ≤ maxFileBytes) (kind : PatchChangeKind) {path : String}
    {destination : Option String} {before after destinationBefore : Option (List UInt8)}
    (hpath : path.utf8ByteSize ≤ pathMax)
    (hdestination : ∀ path ∈ destination, path.utf8ByteSize ≤ pathMax)
    (hbefore : ∀ bytes ∈ before, bytes.length ≤ limit)
    (hafter : ∀ bytes ∈ after, bytes.length ≤ limit)
    (hdestinationBefore : ∀ bytes ∈ destinationBefore, bytes.length ≤ limit) :
    (change sha256 kind path destination before after destinationBefore).Small := by
  have hhash (content : Option (List UInt8)) :
      ∀ hash ∈ content.map sha256, hash.utf8ByteSize = 64 := by
    intro hash hmem
    obtain ⟨bytes, -, rfl⟩ := Option.map_eq_some_iff.mp hmem
    exact hsha bytes
  have hsmall {n : ℕ} (hn : n ≤ limit + 1) : n < numberMax :=
    hn.trans_lt ((Nat.succ_le_succ hlimit).trans_lt (by decide))
  have hlength {content : Option (List UInt8)} (h : ∀ bytes ∈ content, bytes.length ≤ limit) :
      ∀ n ∈ content.map List.length, n < numberMax := by
    intro n hmem
    obtain ⟨bytes, hbytes, rfl⟩ := Option.map_eq_some_iff.mp hmem
    exact hsmall ((h bytes hbytes).trans (Nat.le_succ _))
  refine ⟨hpath, hdestination, hhash _, hhash _, hhash _, hlength hbefore, hlength hafter,
    hlength hdestinationBefore, fun n hn => ?_⟩
  cases before with
  | none =>
    obtain rfl := Option.some.inj hn
    decide
  | some a =>
    cases after with
    | none =>
      obtain rfl := Option.some.inj hn
      decide
    | some b =>
      obtain rfl := Option.some.inj hn
      have hcount := @List.count_le_length _ _ 10 (b.take (commonPrefix a b))
      have htake := List.length_take_le' (commonPrefix a b) b
      have hb := hafter b rfl
      exact hsmall (by omega)

variable (hsha : ∀ bytes, (sha256 bytes).utf8ByteSize = 64) (hlimit : limit ≤ maxFileBytes)

include hsha hlimit

theorem small_record (hplanned : step.Planned limit) (haccepted : step.Accepted limit) :
    (step.record sha256).Small :=
  small_change hsha hlimit _ haccepted.path haccepted.destination haccepted.before hplanned.after
    haccepted.destinationBefore

theorem small_splitRecord (hplanned : step.Planned limit) (haccepted : step.Accepted limit) :
    (step.splitRecord sha256).Small := by
  refine small_change hsha hlimit _ ?_ (fun path hpath => by cases hpath)
    haccepted.destinationBefore hplanned.after fun bytes hbytes => by cases hbytes
  cases hdestination : step.destination with
  | none => exact Nat.zero_le _
  | some destination => exact haccepted.destination destination hdestination

/-- The receipt after the steps is small, as there are no more steps than files. -/
theorem ensures_commitSteps (henv : Accepting env) {steps : List Step}
    (hplanned : ∀ step ∈ steps, step.Planned limit) (hsmall : receipt.Small)
    (hlength : receipt.changes.length + steps.length ≤ maxPatchFiles) (s : σ) :
    (commitSteps sha256 limit steps receipt).Ensures env s fun r _ => r.Small := by
  induction steps generalizing receipt s with
  | nil => exact hsmall
  | cons step steps ih =>
    rw [List.length_cons] at hlength
    have hstep := hplanned step List.mem_cons_self
    have hindex : ∀ n ∈ some step.sectionIndex, n < numberMax := forall_mem_some hstep.sectionIndex
    have hnone : ∀ n ∈ (none : Option ℕ), n < numberMax := fun n hn => by cases hn
    rw [commitSteps]
    refine ensures_bind.mpr (Ensures.mono (ends_verifyStep s henv hstep) fun r t hr => ?_)
    cases r with
    | error e => exact hsmall.fail hr hindex hnone false
    | ok _ =>
      refine ensures_bind.mpr (Ensures.mono (ensures_commitStep t henv sha256 limit step)
        fun r u hcommit => ?_)
      obtain ⟨written, result⟩ := r
      cases result with
      | error e =>
        cases written with
        | false => exact hsmall.fail (hcommit e rfl) hindex hnone _
        | true =>
          exact (hsmall.append (by omega) (small_splitRecord hsha hlimit hstep hr)).fail
            (hcommit e rfl) hindex hnone _
      | ok _ =>
        have hdiff : (appendDiff receipt step.shown).Small := by
          rw [← PatchReceipt.small_withoutDiff, withoutDiff_appendDiff,
            PatchReceipt.small_withoutDiff]
          exact hsmall
        have hframe := congrArg PatchReceipt.changes (withoutDiff_appendDiff receipt step.shown)
        have hchanges : (appendDiff receipt step.shown).changes = receipt.changes := hframe
        refine ih (fun step' hmem => hplanned step' (List.mem_cons_of_mem _ hmem))
          (hdiff.append (by rw [hchanges]; omega) (small_record hsha hlimit hstep hr)) ?_ u
        show ((appendDiff receipt step.shown).changes ++ [_]).length + steps.length ≤ _
        rw [hchanges, List.length_append, List.length_singleton]
        omega

omit hsha hlimit

theorem PatchReceipt.Small.new {id : String} (h : id.utf8ByteSize ≤ 256) :
    (PatchReceipt.new id).Small :=
  ⟨h, Nat.zero_le _, fun c hc => (by cases hc), fun f hf => (by cases hf)⟩

theorem PatchReceipt.Small.size_value_bounded_le (h : receipt.Small) :
    receipt.bounded.value.size ≤ maxPatchResultBytes := by
  rw [PatchReceipt.bounded]
  split_ifs with hlarge
  · exact (PatchReceipt.small_withoutDiff.mpr h).size_value_le rfl
  · exact Nat.not_lt.mp hlarge

theorem PatchReceipt.Small.size_fail_new_le {id : String} (h : id.utf8ByteSize ≤ 256) {e : Error}
    (he : e.Short) {sectionIndex edit : Option ℕ} (hsection : ∀ n ∈ sectionIndex, n < numberMax)
    (hedit : ∀ n ∈ edit, n < numberMax) :
    ((PatchReceipt.new id).fail e sectionIndex edit false).value.size ≤ maxPatchResultBytes :=
  ((PatchReceipt.Small.new h).fail he hsection hedit false).size_value_le rfl

theorem utf8ByteSize_le_of_validateMutationId {id : String} (h : validateMutationId id = .ok ()) :
    id.utf8ByteSize ≤ 256 := by
  rw [validateMutationId] at h
  split_ifs at h with hid
  omega

theorem ensures_execute (henv : Accepting env)
    (hsha : ∀ bytes, (sha256 bytes).utf8ByteSize = 64) {request : ApplyPatchRequest}
    (hid : validateMutationId request.mutationId = .ok ()) (hlimit : limit ≤ maxFileBytes)
    (cwd : String) (s : σ) :
    (execute sha256 request cwd limit).Ensures env s fun receipt _ =>
      receipt.value.size ≤ maxPatchResultBytes := by
  have hid := utf8ByteSize_le_of_validateMutationId hid
  have hnone : ∀ n ∈ (none : Option ℕ), n < numberMax := fun n hn => by cases hn
  rw [execute]
  split
  · next e hsections =>
    exact PatchReceipt.Small.size_fail_new_le hid (patchSections_short hsections) hnone hnone
  · next sections hsections =>
    split
    · exact PatchReceipt.Small.size_fail_new_le hid (by decide) hnone hnone
    · next hlimits =>
      rw [not_or, not_or, Nat.not_lt, Nat.not_lt] at hlimits
      obtain ⟨-, hcount, hsum⟩ := hlimits
      have hedits : ∀ sect ∈ sections, sect.edits < numberMax := fun sect hsect =>
        ((List.single_le_sum (fun _ _ => Nat.zero_le _) _
          (List.mem_map_of_mem hsect)).trans hsum).trans_lt (by decide)
      have hcountMax : 0 + sections.length < numberMax :=
        (Nat.zero_add _).symm ▸ hcount.trans_lt (by decide)
      refine ensures_bind.mpr (Ensures.mono (ends_planSections henv Aliases.short_empty hedits
        hcountMax s) fun r t hr => ?_)
      cases r with
      | error e =>
        obtain ⟨e, index, edit⟩ := e
        exact PatchReceipt.Small.size_fail_new_le hid hr.1 (forall_mem_some hr.2.1) hr.2.2
      | ok planned =>
        obtain ⟨steps, plan⟩ := planned
        refine ensures_bind.mpr (Ensures.mono (shortly_verifyAll henv limit plan.files t)
          fun r u hverify => ?_)
        cases r with
        | error e => exact PatchReceipt.Small.size_fail_new_le hid hverify hnone hnone
        | ok _ =>
          have hlength : (PatchReceipt.new request.mutationId).changes.length + steps.length ≤
              maxPatchFiles := by
            show 0 + steps.length ≤ _
            rw [hr.1, Nat.zero_add]
            exact hcount
          refine ensures_bind.mpr (Ensures.mono (ensures_commitSteps hsha hlimit henv hr.2
            (PatchReceipt.Small.new hid) hlength u) fun r v hsmall => ?_)
          exact hsmall.size_value_bounded_le

/-- **The size of receipts.** Whatever the operating system answers, the receipt of a patch is
written with at most as many bytes as a result may have: of a patch that was applied, rejected, or
applied in part. -/
theorem execute_text_le (henv : Accepting env)
    (hsha : ∀ bytes, (sha256 bytes).utf8ByteSize = 64) {request : ApplyPatchRequest}
    (hid : validateMutationId request.mutationId = .ok ()) (hlimit : limit ≤ maxFileBytes)
    (cwd : String) (s : σ) :
    (execute sha256 request cwd limit).Ensures env s fun receipt _ =>
      receipt.value.text.utf8ByteSize ≤ maxPatchResultBytes :=
  Ensures.mono (ensures_execute henv hsha hid hlimit cwd s) fun receipt _ h =>
    receipt.value.utf8ByteSize_text.trans_le h

end Receipts

/-! ### A patch of an empty directory -/

/-- What is answered when there is only the root. -/
def emptyRoot : (c : SysCall) → c.Answer
  | .symlinkMetadata path | .metadata path =>
    if pathMax < path.utf8ByteSize then .error ⟨false, "File name too long (os error 36)"⟩
    else if path = "/" then .ok ⟨false, true, false, 4096, 493⟩
    else .error ⟨true, "No such file or directory (os error 2)"⟩
  | .readLink _ => .error ⟨false, "Invalid argument (os error 22)"⟩
  | .canonicalize path => .ok path
  | .currentDir => .ok "/"
  | .openFile _ | .removeFile _ => .error ⟨true, "No such file or directory (os error 2)"⟩
  | .createNew _ => .ok 3
  | .readUpTo _ _ => .ok []
  | .createDirAll _ | .writeAll _ _ | .syncAll _ | .setPermissions _ _ | .rename _ _ => .ok ()
  | .newUuid => "8c7b6a5f-4e3d-4c2b-9a19-08f7e6d5c4b3"

theorem accepting_emptyRoot : Accepting fun (_ : Unit) c r _ => r = emptyRoot c where
  path := by
    rintro _ path _ _ rfl hlong
    exact ⟨_, if_pos hlong, rfl⟩
  message := by
    rintro _ c _ _ e rfl hfailure
    cases c with
    | symlinkMetadata path =>
      simp only [emptyRoot] at hfailure
      split_ifs at hfailure
      all_goals
        cases hfailure
        try decide
    | metadata path =>
      simp only [emptyRoot] at hfailure
      split_ifs at hfailure
      all_goals
        cases hfailure
        try decide
    | readLink path =>
      cases hfailure
      decide
    | openFile path =>
      cases hfailure
      decide
    | removeFile path =>
      cases hfailure
      decide
    | _ => cases hfailure

/-- The addition of a file to it. -/
theorem execute_text_le_add :
    (execute (fun _ => "87428fc522803d31065e7bce3cf03fe475096631e5e07bbd7a0fde60c4cf25c7")
      ⟨"m", none, .codex "*** Begin Patch\n*** Add File: a\n+a\n*** End Patch"⟩ "/"
      maxFileBytes).Ensures (fun (_ : Unit) c r _ => r = emptyRoot c) () fun receipt _ =>
        receipt.value.text.utf8ByteSize ≤ maxPatchResultBytes :=
  execute_text_le accepting_emptyRoot (fun _ => by decide) (by decide) le_rfl "/" ()

end ExecutionProvider.Patch

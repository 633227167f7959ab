import ExecutionProvider.Filesystem.Files
import ExecutionProvider.Filesystem.Resolution

/-!
# Reading files when calls fail

Whatever calls fail, what is read stands on the disk: the hash of a file is that of its content,
and a file is said to be absent only when its path leads to nothing.

## Main definitions

* `Disk.Hashed`: the hash of the file to which a path leads, if there is one.
* `Disk.Follows`: the path that is left when the links at the end of a path are followed.

## Main results

* `Answers.eq_of_changes`, `Answers.exists_perform`: what a call is answered.
* `ends_existingHash`, `ends_readableExistingHash`, `ends_followFinalSymlinks`: what is read of a
  disk.
-/

namespace ExecutionProvider.Filesystem

open Disk Program

namespace Disk

variable {d d' : Disk} {c : SysCall} {r : c.Answer}

theorem Answers.eq_of_changes (h : d.Answers c r d') (hc : c.changes = false) : d' = d := by
  cases h with
  | performed _ _ _ =>
    cases c with
    | createDirAll _ => cases hc
    | createNew _ => cases hc
    | writeAll _ _ => cases hc
    | setPermissions _ _ => cases hc
    | rename _ _ => cases hc
    | removeFile _ => cases hc
    | _ => rfl
  | failed _ _ hspoils =>
    cases hspoils with
    | nothing _ => rfl
    | directories _ => cases hc
    | part _ => cases hc

/-- A call that succeeds, or that does not find a file, was performed. -/
theorem Answers.exists_perform (h : d.Answers c r d')
    (hr : ∀ e, c.failure r = some e → e.notFound = true) :
    ∃ links unique fresh, d.Unused unique ∧ d.Fresh fresh ∧
      r = (d.perform links unique fresh c).1 ∧ d' = (d.perform links unique fresh c).2 := by
  cases h with
  | performed _ hunused hfresh => exact ⟨_, _, _, hunused, hfresh, rfl, rfl⟩
  | failed hfailure he _ =>
    rw [hr _ hfailure] at he
    cases he

section Answered

variable {path : String} {e : IoError}

theorem Answers.of_symlinkMetadata {metadata : Metadata}
    (h : d.Answers (.symlinkMetadata path) (.ok metadata) d') :
    ∃ links q node, d.found (d.entry links path) = .ok (q, node) ∧
      d.metadataOf node = metadata := by
  obtain ⟨links, _, _, _, _, hr, _⟩ := h.exists_perform (fun e he => by cases he)
  obtain ⟨found, hfound, hmetadata⟩ := map_eq_ok_iff.mp hr.symm
  exact ⟨links, found.1, found.2, hfound, hmetadata⟩

theorem Answers.missing (h : d.Answers (.symlinkMetadata path) (.error e) d')
    (he : e.notFound = true) : d.Missing path := by
  obtain ⟨links, _, _, _, _, hr, _⟩ := h.exists_perform (fun e' he' => by
    rwa [← Option.some.inj he'])
  exact ⟨links, e, map_eq_error_iff.mp hr.symm, he⟩

theorem Answers.absent_of_metadata (h : d.Answers (.metadata path) (.error e) d')
    (he : e.notFound = true) : d.Absent path := by
  obtain ⟨links, _, _, _, _, hr, _⟩ := h.exists_perform (fun e' he' => by
    rwa [← Option.some.inj he'])
  exact absent_of_resolve (map_eq_error_iff.mp hr.symm) he

theorem Answers.of_readLink {text : String} (h : d.Answers (.readLink path) (.ok text) d') :
    ∃ q, d.Names path q ∧ d.node q = some (.link text) := by
  obtain ⟨links, _, _, _, _, hr, _⟩ := h.exists_perform (fun e he => by cases he)
  obtain ⟨⟨q, node⟩, hfound, htext⟩ := bind_eq_ok_iff.mp hr.symm
  cases node with
  | dir => cases htext
  | file i => cases htext
  | link text' =>
    obtain rfl := Except.ok.inj htext
    exact ⟨q, found_link hfound⟩

theorem Answers.of_openFile {i : ℕ} (h : d.Answers (.openFile path) (.ok i) d') :
    ∃ q, d.Leads path q ∧ d.node q = some (.file i) := by
  obtain ⟨links, _, _, _, _, hr, _⟩ := h.exists_perform (fun e he => by cases he)
  obtain ⟨⟨q, node⟩, hfound, hid⟩ := bind_eq_ok_iff.mp hr.symm
  obtain ⟨hresolve, hnode⟩ := found_eq_ok hfound
  cases node with
  | dir => cases hid
  | link text => cases hid
  | file i' =>
    obtain rfl := Except.ok.inj hid
    exact ⟨q, resolve_eq_ok hresolve, hnode⟩

theorem Answers.absent_of_openFile (h : d.Answers (.openFile path) (.error e) d')
    (he : e.notFound = true) : d.Absent path := by
  obtain ⟨links, _, _, _, _, hr, _⟩ := h.exists_perform (fun e' he' => by
    rwa [← Option.some.inj he'])
  obtain hfound | ⟨⟨q, node⟩, -, hid⟩ := bind_eq_error_iff.mp hr.symm
  · exact absent_of_resolve hfound he
  · cases node with
    | file i => cases hid
    | dir =>
      obtain rfl := Except.error.inj hid
      cases he
    | link text =>
      obtain rfl := Except.error.inj hid
      cases he

theorem Answers.of_readUpTo {i limit : ℕ} {data : List UInt8}
    (h : d.Answers (.readUpTo i limit) (.ok data) d') : data = (d.files i).content.take limit := by
  obtain ⟨links, _, _, _, _, hr, _⟩ := h.exists_perform (fun e he => by cases he)
  exact Except.ok.inj hr

theorem Answers.readUpTo_error {i limit : ℕ} (h : d.Answers (.readUpTo i limit) (.error e) d') :
    e.notFound = false := by
  cases h with
  | failed hr he _ =>
    obtain rfl := Option.some.inj hr
    exact he

end Answered

end Disk

namespace Disk

/-- The hash of the file to which a path leads, or nothing when it leads to nothing. -/
def Hashed (d : Disk) (sha256 : List UInt8 → String) (path : String) : Option String → Prop
  | some hash => ∃ content, d.Reads path content ∧ sha256 content = hash
  | none => d.Absent path

/-- The path to which a link leads that a path names. -/
def linkTarget (path text : String) : Option String :=
  if Path.isAbsolute text then some text else (Path.parent path).map fun par => Path.join par text

/-- The path that is left when links at the end of a path are followed, fewer than given. -/
inductive Follows (d : Disk) : ℕ → String → String → Prop
  | here (n : ℕ) (target : String) : Follows d (n + 1) target target
  | link {n path q text next target} (hq : d.Names path q) (hlink : d.node q = some (.link text))
      (hnext : linkTarget path text = some next) (h : Follows d n next target) :
      Follows d (n + 1) path target

end Disk

/-! ### Reading -/

section Reading

variable {s : Disk × List SysCall} {path : String}

theorem ends_metadata : Ends faulty s (fun _ t => t.1 = s.1)
    (fun e t => t.1 = s.1 ∧ (e.code = .notFound → s.1.Absent path)) (metadata path) := by
  refine ends_bind.mpr (ends_io.mpr fun r t ⟨hr, _⟩ => ?_)
  have ht := hr.eq_of_changes rfl
  cases r with
  | error e => exact ⟨ht, fun he => (hr.missing (notFound_mapIo_iff.mp he)).absent⟩
  | ok link =>
    refine ends_bind.mpr (ends_io.mpr fun r t' ⟨hr', _⟩ => ?_)
    have ht' := hr'.eq_of_changes rfl
    rw [ht] at hr' ht'
    cases r with
    | error e => exact ⟨ht', fun he => hr'.absent_of_metadata (notFound_mapIo_iff.mp he)⟩
    | ok followed => exact ht'

/-- **What is read is the content of the file.** -/
theorem ends_readFileAt (limit : ℕ) : Ends faulty s
    (fun data t => t.1 = s.1 ∧ s.1.Reads path data)
    (fun e t => t.1 = s.1 ∧ (e.code = .notFound → s.1.Absent path)) (readFileAt path limit) := by
  refine ends_bind.mpr (ends_metadata.mono (fun metadata t ht => ?_) fun _ _ => id)
  dsimp only
  split
  · exact ⟨ht, fun he => by cases he⟩
  split
  · exact ⟨ht, fun he => by cases he⟩
  refine ends_bind.mpr (ends_io.mpr fun r u ⟨hr, _⟩ => ?_)
  have hu := hr.eq_of_changes rfl
  rw [ht] at hr hu
  cases r with
  | error e => exact ⟨hu, fun he => hr.absent_of_openFile (notFound_mapIo_iff.mp he)⟩
  | ok file =>
    obtain ⟨q, hq, hfile⟩ := hr.of_openFile
    refine ends_bind.mpr (ends_io.mpr fun r v ⟨hr', _⟩ => ?_)
    have hv := hr'.eq_of_changes rfl
    rw [hu] at hr' hv
    cases r with
    | error e =>
      refine ⟨hv, fun he => ?_⟩
      rw [notFound_mapIo_iff, hr'.readUpTo_error] at he
      cases he
    | ok data =>
      have hdata := hr'.of_readUpTo
      rw [ensures_done]
      dsimp only
      split_ifs with hlong
      · exact ⟨hv, fun he => by cases he⟩
      · refine ⟨hv, q, file, hq, hfile, ?_⟩
        -- fewer bytes were read than asked for
        rw [hdata, List.take_of_length_le]
        rw [hdata, List.length_take] at hlong
        omega

section Hashes

variable (sha256 : List UInt8 → String)

theorem ends_existingHash (limit : ℕ) : Ends faulty s
    (fun existing t => t.1 = s.1 ∧ s.1.Hashed sha256 path existing) (fun _ t => t.1 = s.1)
    (existingHash sha256 path limit) := by
  refine ends_tryCatch.mpr (ends_bind.mpr ((ends_readFileAt limit).mono (fun data t h => ?_)
    fun e t h => ?_))
  · exact ⟨h.1, data, h.2, rfl⟩
  · split_ifs with he
    · exact ⟨h.1, h.2 he⟩
    · exact h.1

theorem ends_readableExistingHash (limit : ℕ) : Ends faulty s
    (fun existing t => t.1 = s.1 ∧ ∀ h, existing = some h → s.1.Hashed sha256 path (some h))
    (fun _ t => t.1 = s.1) (readableExistingHash sha256 path limit) := by
  refine ends_bind.mpr (ends_attempt.mpr fun r t ⟨hr, _⟩ => ?_)
  have ht := hr.eq_of_changes rfl
  cases r with
  | error e =>
    rw [ensures_done]
    dsimp only
    split_ifs
    · exact ⟨ht, fun h hh => by cases hh⟩
    · exact ht
  | ok metadata =>
    rw [ensures_done]
    dsimp only
    split_ifs
    · exact ht
    · exact ⟨ht, fun h hh => by cases hh⟩
    · refine ends_tryCatch.mpr (ends_bind.mpr ((ends_readFileAt limit).mono (fun data u h => ?_)
        fun e u h => ?_))
      · rw [ht] at h
        exact ⟨h.1, fun hash hhash => ⟨data, h.2, Option.some.inj hhash⟩⟩
      · rw [ht] at h
        split_ifs
        · exact ⟨h.1, fun h hh => by cases hh⟩
        · exact h.1

end Hashes

theorem ends_followFinalSymlinks (n : ℕ) : Ends faulty s
    (fun target t => t.1 = s.1 ∧ s.1.Follows n path target ∧
      (s.1.Missing target ∨ ∃ q i, s.1.Names target q ∧ s.1.node q = some (.file i)))
    (fun _ t => t.1 = s.1) (followFinalSymlinks n path) := by
  induction n generalizing s path with
  | zero => exact rfl
  | succ n ih =>
    rw [followFinalSymlinks]
    refine ends_bind.mpr (ends_attempt.mpr fun r t ⟨hr, _⟩ => ?_)
    have ht := hr.eq_of_changes rfl
    cases r with
    | error e =>
      rw [ensures_done]
      dsimp only
      split_ifs with he
      · exact ⟨ht, .here n path, .inl (hr.missing he)⟩
      · exact ht
    | ok metadata =>
      rw [ensures_done]
      dsimp only
      split_ifs with hlink hfile
      · obtain ⟨links, q, node, hfound, rfl⟩ := hr.of_symlinkMetadata
        refine ⟨ht, .here n path, .inr ?_⟩
        cases node with
        | dir => cases hfile
        | link text => cases hfile
        | file i => exact ⟨q, i, found_file hfound⟩
      · exact ht
      · refine ends_bind.mpr (ends_io.mpr fun r u ⟨hr', _⟩ => ?_)
        have hu := hr'.eq_of_changes rfl
        rw [ht] at hr' hu
        cases r with
        | error e => exact hu
        | ok text =>
          obtain ⟨q, hq, hnode⟩ := hr'.of_readLink
          rw [ensures_done]
          dsimp only
          split_ifs with habsolute
          · have h := @ih u text
            rw [hu] at h
            refine h.mono (fun target v h => ⟨h.1, .link hq hnode ?_ h.2.1, h.2.2⟩) fun _ _ => id
            rw [linkTarget, if_pos habsolute]
          · cases hpar : Path.parent path with
            | none => exact hu
            | some par =>
              have h := @ih u (Path.join par text)
              rw [hu] at h
              refine h.mono (fun target v h => ⟨h.1, .link hq hnode ?_ h.2.1, h.2.2⟩) fun _ _ => id
              rw [linkTarget, if_neg habsolute, hpar]
              rfl

end Reading

end ExecutionProvider.Filesystem

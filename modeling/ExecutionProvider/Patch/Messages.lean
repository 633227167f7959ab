import ExecutionProvider.Filesystem.Messages
import ExecutionProvider.Patch.Execute

/-!
# What the errors of a patch say

An error of a patch is one of the parser, of matching, or of the work on files. Those that quote a
number or a path quote small numbers and at most two paths. Of a step that is made, both paths were
accepted by the operating system.

## Main definitions

* `Aliases.Short`: the paths by which files were named are short.
* `Step.Planned`, `Step.Accepted`: what is known of a step that was planned, and of one that is
  made.

## Main results

* `patchSections_short`: the errors of the parser are short.
* `ends_planSections`: so are those of the plan, which has as many steps as there are sections.
* `ends_verifyStep`, `ensures_commitStep`: the errors of a step are short.
-/

namespace ExecutionProvider.Patch

open Filesystem Program

variable {σ : Type} {env : Environment σ SysCall SysCall.Answer}

/-! ### Sections -/

theorem length_patchLines_le (text : String) :
    (patchLines text).length ≤ text.utf8ByteSize + 1 := by
  have hlines := length_lines_le (trim text)
  have htrim := length_trim_le text
  have hbytes := String.length_le_utf8ByteSize text
  rw [patchLines, List.length_map]
  omega

namespace ReadState

variable {s : ReadState} {number : ℕ} {line : String} {e : Error}

theorem close_short (h : s.close = .error e) : e.Short := by
  have hempty : (Error.invalid "update section has no changes").Short := by decide
  cases s with
  | between => cases h
  | adding path added => cases h
  | opened path =>
    obtain rfl := Except.error.inj h
    exact hempty
  | updating path moveTo lines =>
    rw [close] at h
    split_ifs at h
    obtain rfl := Except.error.inj h
    exact hempty

theorem header_short (hn : number < numberMax) (h : header number line = .error e) : e.Short := by
  unfold header at h
  split_ifs at h
  · obtain rfl := Except.error.inj h
    decide
  · split at h
    · cases h
    · cases h
    · cases h
    · obtain rfl := Except.error.inj h
      exact Error.short_last_number hn (by decide)

theorem update_short {path : String} {moveTo : Option String} {lines : List UpdateLine}
    (hn : number < numberMax) (h : update number path moveTo lines line = .error e) : e.Short := by
  unfold update at h
  split at h
  · cases h
  · obtain rfl := Except.error.inj h
    exact Error.short_last_number hn (by decide)

theorem content_short (hn : number < numberMax) (h : s.content number line = .error e) :
    e.Short := by
  cases s with
  | between => cases h
  | adding path added =>
    simp only [content] at h
    split at h
    · cases h
    · obtain rfl := Except.error.inj h
      exact Error.short_last_number hn (by decide)
  | opened path =>
    simp only [content] at h
    split at h
    · cases h
    · exact update_short hn h
  | updating path moveTo lines => exact update_short hn h

/-- The error of a line is short if its number is not too large. -/
theorem step_short (hn : number < numberMax) (h : s.step number line = .error e) : e.Short := by
  rw [step] at h
  split_ifs at h
  · split at h
    · next e' hclose =>
      obtain rfl := Except.error.inj h
      exact close_short hclose
    · cases hheader : header number line with
      | error e' =>
        rw [hheader] at h
        obtain rfl := Except.error.inj h
        exact header_short hn hheader
      | ok r =>
        rw [hheader] at h
        cases h
  · cases hcontent : s.content number line with
    | error e' =>
      rw [hcontent] at h
      obtain rfl := Except.error.inj h
      exact content_short hn hcontent
    | ok r =>
      rw [hcontent] at h
      cases h

end ReadState

theorem read_short {s : ReadState} {number : ℕ} {rest : List String} {e : Error}
    (hn : number + rest.length < numberMax) (h : read number s rest = .error e) : e.Short := by
  induction rest generalizing number s with
  | nil => exact ReadState.close_short h
  | cons line rest ih =>
    rw [List.length_cons] at hn
    rw [read] at h
    split at h
    · next e' hstep =>
      obtain rfl := Except.error.inj h
      exact ReadState.step_short (by omega) hstep
    · next done s' hstep =>
      cases hread : read (number + 1) s' rest with
      | error e' =>
        rw [hread] at h
        obtain rfl := Except.error.inj h
        exact ih (by omega) hread
      | ok texts =>
        rw [hread] at h
        cases h

theorem readCodex_short {text : String} {e : Error} (hsize : text.utf8ByteSize ≤ maxPatchBytes)
    (h : readCodex text = .error e) : e.Short := by
  have hlines := length_patchLines_le text
  simp only [readCodex] at h
  split_ifs at h
  · obtain rfl := Except.error.inj h
    decide
  · refine read_short ?_ h
    rw [maxPatchBytes] at hsize
    rw [numberMax]
    rw [List.length_tail, List.length_dropLast]
    omega

theorem parseCodex_get (text : String) :
    (parseCodex text).get (parseCodex_isSome text) =
      (readCodex text).map (List.map SectionText.parsed) :=
  Option.get_of_eq_some _ (parseCodex_eq_read text)

/-- The errors of the sections of a patch are short. -/
theorem patchSections_short {patch : PatchInput} {e : Error} (h : patchSections patch = .error e) :
    e.Short := by
  cases patch with
  | codex text =>
    simp only [patchSections] at h
    split_ifs at h with hsize
    · obtain rfl := Except.error.inj h
      decide
    · rw [parseCodex_get] at h
      cases hread : readCodex text with
      | error e' =>
        rw [hread] at h
        obtain rfl := Except.error.inj h
        exact readCodex_short (Nat.not_lt.mp hsize) hread
      | ok texts =>
        rw [hread] at h
        cases h
  | textReplacements files =>
    simp only [patchSections] at h
    split_ifs at h
    obtain rfl := Except.error.inj h
    decide


/-! ### Chunks -/

section Chunks

variable {lines pattern : List String} {n work : ℕ} {chunk : Chunk} {e : Error}

/-- The error of a search. -/
def workExceeded : Error := ⟨.resourceLimit, "patch matching work limit exceeded"⟩

theorem seekPass_error {pass : MatchPass} {i : ℕ}
    (h : seekPass lines pattern pass i n work = .error e) : e = workExceeded := by
  induction n generalizing i work with
  | zero => cases h
  | succ n ih =>
    rw [seekPass] at h
    split_ifs at h
    · exact (Except.error.inj h).symm
    · exact ih h

theorem seekPasses_error {passes : List MatchPass} {i : ℕ}
    (h : seekPasses lines pattern i n passes work = .error e) : e = workExceeded := by
  induction passes generalizing work with
  | nil => cases h
  | cons pass passes ih =>
    rw [seekPasses] at h
    split at h
    · next e' hpass =>
      obtain rfl := Except.error.inj h
      exact seekPass_error hpass
    · cases h
    · exact ih h

theorem seek_short {start : ℕ} {eof : Bool} (h : seek lines pattern start eof work = .error e) :
    e.Short := by
  simp only [seek] at h
  split_ifs at h
  all_goals
    obtain rfl := seekPasses_error h
    decide

theorem seekAnchor_short {cursor : ℕ} (hn : n < numberMax)
    (h : seekAnchor lines n chunk cursor work = .error e) : e.Short := by
  rw [seekAnchor] at h
  split at h
  · cases h
  · split at h
    · next e' hseek =>
      obtain rfl := Except.error.inj h
      exact seek_short hseek
    · obtain rfl := Except.error.inj h
      exact Error.short_number hn (by decide)
    · cases h

theorem seekOld_short {cursor : ℕ} (hn : n < numberMax)
    (h : seekOld lines n chunk cursor work = .error e) : e.Short := by
  have hnotFound : (Error.invalid s!"hunk {n}: expected lines not found").Short :=
    Error.short_number hn (by decide)
  rw [seekOld] at h
  split at h
  · next e' hseek =>
    obtain rfl := Except.error.inj h
    exact seek_short hseek
  · cases h
  · split_ifs at h
    · split at h
      · next e' hseek =>
        obtain rfl := Except.error.inj h
        exact seek_short hseek
      · cases h
      · obtain rfl := Except.error.inj h
        exact hnotFound
    · obtain rfl := Except.error.inj h
      exact hnotFound

theorem matchChunk_short {s : MatchState} (hn : n < numberMax)
    (h : matchChunk lines n chunk s = .error e) : e.Short := by
  rw [matchChunk] at h
  split at h
  · next e' hanchor =>
    obtain rfl := Except.error.inj h
    exact seekAnchor_short hn hanchor
  · split_ifs at h
    split at h
    · next e' hold =>
      obtain rfl := Except.error.inj h
      exact seekOld_short hn hold
    · split_ifs at h
      obtain rfl := Except.error.inj h
      exact Error.short_number hn (by decide)

theorem matchLoop_short {chunks : List Chunk} {s : MatchState}
    (hn : n + chunks.length < numberMax) (h : matchLoop lines n chunks s = .error e) : e.Short := by
  induction chunks generalizing n s with
  | nil => cases h
  | cons chunk chunks ih =>
    rw [List.length_cons] at hn
    rw [matchLoop] at h
    split at h
    · next e' hchunk =>
      obtain rfl := Except.error.inj h
      exact matchChunk_short (by omega) hchunk
    · exact ih (by omega) h

/-- The errors of an update are short. -/
theorem applyCodex_short {text : String} {chunks : List Chunk} (hn : chunks.length < numberMax)
    (h : applyCodex text chunks work = .error e) : e.Short := by
  rw [applyCodex] at h
  split at h
  · next e' hmatch =>
    obtain rfl := Except.error.inj h
    rw [matchChunks] at hmatch
    split at hmatch
    · next e'' hloop =>
      obtain rfl := Except.error.inj hmatch
      exact matchLoop_short (by omega) hloop
    · cases hmatch
  · cases h

end Chunks

/-! ### Replacements -/

section Replacements

variable {base : List Char} {edits : List TextEdit} {work i edit : ℕ} {e : Error}

/-- The errors of edits are short, and name one of them. -/
theorem findRanges_short (h : (findRanges base i edits work).1 = .error (e, edit)) :
    e.Short ∧ edit < i + edits.length := by
  induction edits generalizing i work with
  | nil => cases h
  | cons first edits ih =>
    have hhere : i < i + (first :: edits).length := by
      rw [List.length_cons]
      omega
    rw [findRanges] at h
    dsimp only at h
    split_ifs at h
    · obtain ⟨rfl, rfl⟩ := Prod.mk.inj (Except.error.inj h)
      exact ⟨by decide, hhere⟩
    · obtain ⟨rfl, rfl⟩ := Prod.mk.inj (Except.error.inj h)
      exact ⟨by decide, hhere⟩
    · split at h
      · obtain ⟨rfl, rfl⟩ := Prod.mk.inj (Except.error.inj h)
        exact ⟨by decide, hhere⟩
      · split_ifs at h
        · obtain ⟨rfl, rfl⟩ := Prod.mk.inj (Except.error.inj h)
          exact ⟨by decide, hhere⟩
        · split at h
          · next e' work' hrest =>
            obtain rfl := Except.error.inj h
            obtain ⟨hshort, hlt⟩ := ih (congrArg Prod.fst hrest)
            rw [List.length_cons]
            exact ⟨hshort, by omega⟩
          · cases h

theorem mem_of_overlapping {ranges : List (List.Replacement Char × ℕ)}
    {r : List.Replacement Char × ℕ} (h : overlapping ranges = some r) : r ∈ ranges := by
  induction ranges with
  | nil => cases h
  | cons first ranges ih =>
    cases ranges with
    | nil => cases h
    | cons second ranges =>
      rw [overlapping] at h
      split_ifs at h
      · obtain rfl := Option.some.inj h
        exact List.mem_cons_of_mem _ List.mem_cons_self
      · exact List.mem_cons_of_mem _ (ih h)

theorem applyReplacements_short {text : String}
    (h : (applyReplacements text edits work).1 = .error (e, edit)) :
    e.Short ∧ edit ≤ edits.length := by
  rw [applyReplacements] at h
  dsimp only at h
  split at h
  · next e' work' hfind =>
    obtain rfl := Except.error.inj h
    have hshort := findRanges_short (congrArg Prod.fst hfind)
    rw [Nat.zero_add] at hshort
    exact ⟨hshort.1, hshort.2.le⟩
  · next ranges work' hfind =>
    obtain ⟨-, -, rfl⟩ := findRanges_eq_ok_iff.mp (congrArg Prod.fst hfind)
    split at h
    · next r hr =>
      obtain ⟨rfl, rfl⟩ := Prod.mk.inj (Except.error.inj h)
      have hmem := (List.mem_insertionSort _).mp (mem_of_overlapping hr)
      have hlt := List.snd_lt_of_mem_zipIdx hmem
      rw [List.length_map] at hlt
      exact ⟨by decide, hlt.le⟩
    · split_ifs at h
      obtain ⟨rfl, rfl⟩ := Prod.mk.inj (Except.error.inj h)
      exact ⟨by decide, Nat.zero_le _⟩

end Replacements

/-! ### Targets -/

section Target

theorem shortly_followLinks (henv : Accepting env) (n : ℕ) (resolved : String) :
    Shortly env (followLinks n resolved) := by
  induction n generalizing resolved with
  | zero => exact shortly_pure _
  | succ n ih =>
    rw [followLinks]
    refine Shortly.bind (shortly_attempt _) fun answer => ?_
    cases answer with
    | error e => exact shortly_pure _
    | ok metadata =>
      dsimp only
      split
      · exact shortly_pure _
      refine Shortly.bind (shortly_io fun s r t hr e he => henv.message hr (by rw [he]; rfl))
        fun link => ?_
      split
      · exact ih link
      · split
        · exact shortly_throw (by decide)
        · exact ih _

theorem shortly_canonicalIfExists (henv : Accepting env) (resolved : String) :
    Shortly env (canonicalIfExists resolved) := by
  refine Shortly.bind (shortly_attempt _) fun answer => ?_
  cases answer with
  | error e => exact shortly_pure _
  | ok metadata => exact shortly_io fun s r t hr e he => henv.message hr (by rw [he]; rfl)

theorem shortly_resolveEnd (henv : Accepting env) (path : String) :
    Shortly env (resolveEnd path) := by
  refine Shortly.bind (shortly_followLinks henv maxLinks path) fun resolved => ?_
  refine Shortly.bind (shortly_attempt _) fun link => ?_
  exact Shortly.ite_bind (shortly_throw (by decide)) (shortly_canonicalIfExists henv resolved)

theorem shortly_resolveComponent (henv : Accepting env) (resolved : String) (c : Path.Component) :
    Shortly env (resolveComponent resolved c) := by
  cases c with
  | parentDir => exact shortly_pure _
  | curDir => exact shortly_pure _
  | rootDir => exact shortly_resolveEnd henv _
  | normal name => exact shortly_resolveEnd henv _

theorem shortly_absolute (henv : Accepting env) (cwd input : String) :
    Shortly env (absolute cwd input) := by
  have hcwd (joined : String) : Shortly env (do
      return Path.join (← io (sys .currentDir)) joined : FileM String) :=
    Shortly.bind (shortly_io fun s r t hr e he => henv.message hr (by rw [he]; rfl))
      fun _ => shortly_pure _
  rw [absolute]
  split_ifs
  · exact shortly_pure _
  · exact shortly_pure _
  · exact hcwd _

/-- The paths by which files were named are short. -/
def Aliases.Short (aliases : Aliases) : Prop :=
  ∀ key prior, aliases.lookup key = some prior → prior.utf8ByteSize ≤ maxPathBytes + 2

theorem Aliases.short_empty : Aliases.Short ∅ := by
  intro key prior h
  cases h

/-- A conflict of paths is reported shortly. -/
theorem conflict_short {prior normalized : String} (h : prior.utf8ByteSize ≤ maxPathBytes + 2)
    (h' : normalized.utf8ByteSize ≤ maxPathBytes + 2) :
    (Error.invalid ("conflicting path aliases: " ++ prior ++ " and " ++ normalized)).Short := by
  have hstart : "conflicting path aliases: ".utf8ByteSize = 26 := by decide
  have hand : " and ".utf8ByteSize = 5 := by decide
  have hmax : maxPathBytes = 4096 := rfl
  rw [Error.Short, Error.invalid, String.utf8ByteSize_append, String.utf8ByteSize_append,
    String.utf8ByteSize_append, hstart, hand, pathMax]
  omega

/-- A file that is named keeps the paths short. -/
theorem Aliases.Short.name {aliases aliases' : Aliases} (h : aliases.Short)
    {resolved normalized : String} (hnormal : normalized.utf8ByteSize ≤ maxPathBytes + 2)
    (hname : aliases.name resolved normalized = .ok aliases') : aliases'.Short := by
  have hinsert : Aliases.Short (aliases.insert (Path.components resolved) normalized) := by
    intro key prior hprior
    obtain ⟨-, rfl⟩ | ⟨-, hold⟩ := Table.lookup_insert_eq_some.mp hprior
    · exact hnormal
    · exact h key prior hold
  rw [Aliases.name] at hname
  split at hname
  · split_ifs at hname
    obtain rfl := Except.ok.inj hname
    exact hinsert
  · obtain rfl := Except.ok.inj hname
    exact hinsert

theorem Aliases.Short.name_error {aliases : Aliases} (h : aliases.Short) {e : Error}
    {resolved normalized : String} (hnormal : normalized.utf8ByteSize ≤ maxPathBytes + 2)
    (hname : aliases.name resolved normalized = .error e) : e.Short := by
  rw [Aliases.name] at hname
  split at hname
  · next prior hprior =>
    split_ifs at hname
    obtain rfl := Except.error.inj hname
    exact conflict_short (h _ prior hprior) hnormal
  · cases hname

/-- The file that a path leads to is found with a short error, and the paths stay short. -/
theorem ends_target (henv : Accepting env) {aliases : Aliases} (h : aliases.Short)
    (cwd input : String) (s : σ) :
    Ends env s (fun r _ => r.2.Short) (fun e _ => e.Short) (target cwd input aliases) := by
  rw [target]
  split_ifs
  · exact (by decide : (Error.invalid "empty patch path").Short)
  refine ends_bind.mpr (Ends.mono (shortly_absolute henv cwd input s)
    (fun joined t _ => ?_) fun _ _ => id)
  dsimp only
  split_ifs with hlen
  · exact (by decide : (Error.mk .resourceLimit "patch path exceeds 4096 bytes").Short)
  refine ends_bind.mpr (Ends.mono (Shortly.foldlM (shortly_resolveComponent henv) _ _ t)
    (fun resolved u _ => ?_) fun _ _ => id)
  have hnormal : (Path.normalize joined).utf8ByteSize ≤ maxPathBytes + 2 :=
    (Path.utf8ByteSize_normalize_le joined).trans (by omega)
  cases hname : aliases.name resolved (Path.normalize joined) with
  | error e => exact h.name_error hnormal hname
  | ok aliases' => exact h.name hnormal hname

end Target

/-! ### Reading -/

section Reading

variable (path : String) (limit : ℕ) (s : σ)

/-- What is read of a file that may be missing was asked for by a path that was accepted. -/
theorem ends_readOptional (henv : Accepting env) :
    Ends env s (fun data _ => path.utf8ByteSize ≤ pathMax ∧ ∀ bytes ∈ data, bytes.length ≤ limit)
      (fun e _ => e.Short) (readOptional path limit) := by
  refine ends_tryCatch.mpr (ends_bind.mpr (Ends.mono (henv.readFileAt s path limit)
    (fun data t h => ⟨h.2, fun bytes hbytes => ?_⟩) fun e t h => ?_))
  · obtain rfl := Option.some.inj hbytes
    exact h.1
  · split_ifs with hcode
    · exact ⟨h.2 hcode, fun bytes hbytes => by cases hbytes⟩
    · exact h.1

/-- Of a file that is as it was expected the path was accepted. -/
theorem ends_verify (henv : Accepting env) (expected : Option (List UInt8)) :
    Ends env s (fun _ _ => path.utf8ByteSize ≤ pathMax ∧ ∀ bytes ∈ expected, bytes.length ≤ limit)
      (fun e _ => e.Short) (verify path expected limit) := by
  refine ends_bind.mpr (Ends.mono (ends_readOptional path limit s henv) (fun current t h => ?_)
    fun e t he => he)
  split_ifs with hsame
  · have hstart : "file changed before commit: ".utf8ByteSize = 28 := by decide
    have hpath := h.1
    rw [ends_throw, Error.Short, String.utf8ByteSize_append, hstart]
    omega
  · rw [Decidable.not_not] at hsame
    obtain rfl := hsame
    exact h

end Reading

/-! ### The plan -/

section Plan

/-- An error of a plan is short, and the number of its edit is small. -/
def ShortAt (e : Error × Option ℕ) : Prop := e.1.Short ∧ ∀ edit ∈ e.2, edit < numberMax

variable {s : σ} {α : Type} {plan : PlanState} {cwd path : String} {limit : ℕ}

theorem shortAt_none {e : Error} (h : e.Short) : ShortAt (e, none) :=
  ⟨h, fun edit hedit => by cases hedit⟩

theorem ends_withoutEdit {Q : α → σ → Prop} {p : FileM α}
    (h : Ends env s Q (fun e _ => e.Short) p) :
    Ends env s Q (fun e _ => ShortAt e) (withoutEdit p) :=
  ends_adapt.mpr (h.mono (fun _ _ => id) fun _ _ => shortAt_none)

theorem ends_planTarget (henv : Accepting env) (h : plan.aliases.Short) (cwd input : String) :
    Ends env s (fun r _ => r.2.aliases.Short) (fun e _ => e.Short) (plan.target cwd input) :=
  ends_bind.mpr (ends_target henv h cwd input s)

theorem ends_state (henv : Accepting env) (h : plan.aliases.Short) (path : String) (limit : ℕ) :
    Ends env s (fun r _ => r.2.aliases.Short) (fun e _ => e.Short) (plan.state path limit) := by
  rw [PlanState.state]
  split
  · exact h
  · refine ends_bind.mpr (Ends.mono (ends_readOptional path limit s henv) (fun original t _ => ?_)
      fun _ _ => id)
    dsimp only
    split_ifs
    · exact (by decide : (Error.mk .resourceLimit "aggregate original bytes exceed 20 MiB").Short)
    · exact h

theorem ends_sourceText (before : Option (List UInt8)) {missing encoding : String}
    (hmissing : (Error.mk .notFound missing).Short) (hencoding : (Error.invalid encoding).Short) :
    Ends env s (fun _ _ => True) (fun e _ => ShortAt e) (sourceText before missing encoding) := by
  cases before with
  | none => exact shortAt_none hmissing
  | some data =>
    rw [sourceText]
    cases String.ofUtf8? data with
    | none => exact shortAt_none hencoding
    | some text => trivial

theorem ends_planMove (henv : Accepting env) (h : plan.aliases.Short) (moveTo : Option String) :
    Ends env s (fun r _ => r.2.aliases.Short) (fun e _ => ShortAt e)
      (planMove cwd path moveTo limit plan) := by
  cases moveTo with
  | none => exact h
  | some moveTo =>
    refine ends_bind.mpr ((ends_withoutEdit (ends_planTarget henv h cwd moveTo)).mono
      (fun r t hr => ?_) fun _ _ => id)
    obtain ⟨destination, plan⟩ := r
    dsimp only at hr ⊢
    split_ifs
    · exact shortAt_none (by decide : (Error.invalid "move destination is the source").Short)
    · exact ends_bind.mpr (ends_withoutEdit (ends_state henv hr destination limit))

theorem ends_planChange (henv : Accepting env) (h : plan.aliases.Short) {sect : Section}
    (hedits : sect.edits < numberMax) (before : Option (List UInt8)) :
    Ends env s (fun r _ => r.2.2.2.aliases.Short) (fun e _ => ShortAt e)
      (planChange sect cwd path before limit plan) := by
  cases sect with
  | add file content => exact h
  | delete file =>
    rw [planChange]
    split_ifs
    · exact shortAt_none (by decide : (Error.mk .notFound "file to delete does not exist").Short)
    · exact h
  | update file moveTo chunks =>
    refine ends_bind.mpr ((ends_sourceText before (by decide) (by decide)).mono
      (fun text t _ => ?_) fun _ _ => id)
    dsimp only
    split
    · next e happly => exact shortAt_none (applyCodex_short hedits happly)
    · refine ends_bind.mpr (ends_planMove henv ?_ moveTo)
      exact h
  | replace file =>
    refine ends_bind.mpr ((ends_sourceText before (by decide) (by decide)).mono
      (fun text t _ => ?_) fun _ _ => id)
    split
    · next e edit work happly =>
      obtain ⟨hshort, hle⟩ := applyReplacements_short (congrArg Prod.fst happly)
      refine ⟨hshort, fun n hn => ?_⟩
      obtain rfl := Option.some.inj hn
      exact hle.trans_lt hedits
    · exact h

theorem ends_checkSource (cwd : String) (sect : Section) :
    Ends env s (fun _ _ => True) (fun e _ => ShortAt e) (checkSource cwd sect) := by
  rw [checkSource]
  split
  · refine ends_bind.mpr (Ends.mono (ends_withoutEdit (shortly_attempt _ s))
      (fun answer t _ => ?_) fun _ _ => id)
    split
    · exact shortAt_none
        (by decide : (Error.invalid "delete and move source must not be a symlink").Short)
    · trivial
  · trivial

/-- What a step writes is not too large, the number of its section is small, and there is nothing in
the destination of a step that has none. -/
structure Step.Planned (limit : ℕ) (step : Step) : Prop where
  after : ∀ bytes ∈ step.after, bytes.length ≤ limit
  sectionIndex : step.sectionIndex < numberMax
  destination : step.destination = none → step.destinationBefore = none

theorem ends_planSection (henv : Accepting env) (h : plan.aliases.Short) {sect : Section}
    (hedits : sect.edits < numberMax) {index : ℕ} (hindex : index < numberMax) (s : σ) :
    Ends env s (fun r _ => r.1.Planned limit ∧ r.2.aliases.Short) (fun e _ => ShortAt e)
      (planSection sect index cwd limit plan) := by
  refine ends_bind.mpr ((ends_withoutEdit (ends_planTarget henv h cwd sect.path)).mono
    (fun r t hr => ?_) fun _ _ => id)
  obtain ⟨path, plan⟩ := r
  dsimp only at hr ⊢
  split
  · exact shortAt_none (by decide : (Error.invalid "replacement file appears more than once").Short)
  refine ends_bind.mpr ((ends_checkSource cwd sect).mono (fun _ t _ => ?_) fun _ _ => id)
  refine ends_bind.mpr ((ends_withoutEdit (ends_state henv hr path limit)).mono
    (fun r t hr => ?_) fun _ _ => id)
  obtain ⟨view, plan⟩ := r
  refine ends_bind.mpr ((ends_planChange henv hr hedits view.current).mono
    (fun r t hr => ?_) fun _ _ => id)
  obtain ⟨kind, destination, after, plan⟩ := r
  dsimp only at hr ⊢
  split
  · exact shortAt_none (by decide : (Error.mk .resourceLimit
      "resulting file exceeds the configured limit (at most 5 MiB)").Short)
  next hafter =>
  have hlen : ∀ bytes ∈ after, bytes.length ≤ limit := by
    rintro bytes rfl
    simpa using hafter
  split
  · exact shortAt_none
      (by decide : (Error.mk .resourceLimit "aggregate planned bytes exceed 20 MiB").Short)
  refine ends_bind.mpr (Ends.mono (ends_withoutEdit (ends_state henv ?_ path limit))
    (fun r t hr => ?_) fun _ _ => id)
  · exact hr
  cases destination with
  | none => exact ⟨⟨hlen, hindex, fun _ => rfl⟩, hr⟩
  | some move =>
    refine ends_bind.mpr (Ends.mono (ends_withoutEdit (ends_state henv ?_ move.1 limit))
      (fun r t hr => ?_) fun _ _ => id)
    · exact hr
    · exact ⟨⟨hlen, hindex, fun h => by cases h⟩, hr⟩

/-- An error of sections is short, and its numbers are small. -/
def ShortIn (e : Error × ℕ × Option ℕ) : Prop :=
  e.1.Short ∧ e.2.1 < numberMax ∧ ∀ edit ∈ e.2.2, edit < numberMax

/-- The steps of sections are as many as the sections. -/
theorem ends_planSections (henv : Accepting env) (h : plan.aliases.Short)
    {sections : List Section} (hedits : ∀ sect ∈ sections, sect.edits < numberMax) {index : ℕ}
    (hindex : index + sections.length < numberMax) (s : σ) :
    Ends env s (fun r _ => r.1.length = sections.length ∧ ∀ step ∈ r.1, step.Planned limit)
      (fun e _ => ShortIn e) (planSections cwd limit index sections plan) := by
  induction sections generalizing index plan s with
  | nil => exact ⟨rfl, fun step hstep => by cases hstep⟩
  | cons sect sections ih =>
    rw [List.length_cons] at hindex
    refine ends_bind.mpr (ends_adapt.mpr (Ends.mono (ends_planSection henv h
      (hedits sect List.mem_cons_self) (show index < numberMax by omega) s) (fun r t hr => ?_)
      fun e t he => ⟨he.1, (by omega : index < numberMax), he.2⟩))
    obtain ⟨step, plan⟩ := r
    refine ends_bind.mpr (Ends.mono (ih hr.2
      (fun sect' hsect => hedits sect' (List.mem_cons_of_mem _ hsect)) (by omega) t)
      (fun r u hrest => ?_) fun _ _ => id)
    refine ⟨congrArg Nat.succ hrest.1, fun step' hstep => ?_⟩
    obtain rfl | hmem := List.mem_cons.mp hstep
    · exact hr.1
    · exact hrest.2 step' hmem

end Plan

/-! ### The commit -/

section Commit

variable {limit : ℕ} {step : Step} (s : σ)

/-- The paths of a step were accepted, and what was read of its files is not too large. -/
structure Step.Accepted (limit : ℕ) (step : Step) : Prop where
  path : step.path.utf8ByteSize ≤ pathMax
  destination : ∀ destination ∈ step.destination, destination.utf8ByteSize ≤ pathMax
  before : ∀ bytes ∈ step.before, bytes.length ≤ limit
  destinationBefore : ∀ bytes ∈ step.destinationBefore, bytes.length ≤ limit

/-- The paths of a step whose files are as they were planned were accepted. -/
theorem ends_verifyStep (henv : Accepting env) (h : step.Planned limit) :
    Ends env s (fun _ _ => step.Accepted limit) (fun e _ => e.Short) (verifyStep limit step) := by
  refine ends_bind.mpr ((ends_verify step.path limit s henv step.before).mono
    (fun _ t hsource => ?_) fun _ _ => id)
  cases hdestination : step.destination with
  | none =>
    have hnone := h.destination hdestination
    exact ⟨hsource.1, by simp [hdestination], hsource.2, by simp [hnone]⟩
  | some destination =>
    refine (ends_verify destination limit t henv step.destinationBefore).mono
      (fun _ u hmove => ⟨hsource.1, ?_, hsource.2, hmove.2⟩) fun _ _ => id
    rw [hdestination]
    rintro _ ⟨⟩
    exact hmove.1

theorem shortly_commitPlannedWrite (henv : Accepting env) (sha256 : List UInt8 → String)
    (path : String) (after : List UInt8) (before : Option (List UInt8))
    (createParentDirectories : Bool) (limit : ℕ) :
    Shortly env (commitPlannedWrite sha256 path after before createParentDirectories limit) :=
  (henv.shortly_writeFileAt sha256 _ path after _ _ limit).bind fun _ => shortly_pure _

/-- The error of a step is short. -/
theorem ensures_commitStep (henv : Accepting env) (sha256 : List UInt8 → String) (limit : ℕ)
    (step : Step) :
    (commitStep sha256 limit step).Ensures env s fun r _ => ∀ e, r.2 = .error e → e.Short := by
  have hremove : Shortly env (io (sys (.removeFile step.path))) :=
    shortly_io fun s r t hr e he => henv.message hr (by rw [he]; rfl)
  have hresult {p : FileM Unit} (hp : Shortly env p) (written : Bool) (s : σ) :
      (do return (written, ← p.run) : FileWork (Bool × Result Unit)).Ensures env s
        fun r _ => ∀ e, r.2 = .error e → e.Short := by
    refine ensures_bind.mpr (Ensures.mono (hp s) fun r t hr => ?_)
    rintro e he
    obtain rfl : r = .error e := he
    exact hr
  rw [commitStep]
  cases step.kind with
  | delete => exact hresult hremove false s
  | move =>
    refine ensures_bind.mpr (Ensures.mono (shortly_commitPlannedWrite henv sha256 _ _ _ _ _ s)
      fun r t hr => ?_)
    cases r with
    | error e =>
      rintro _ ⟨⟩
      exact hr
    | ok written =>
      refine hresult (Shortly.bind (fun s => ?_) fun _ => hremove) true t
      exact (ends_verify step.path limit s henv step.before).mono (fun _ _ _ => trivial)
        fun _ _ => id
  | add => exact hresult (shortly_commitPlannedWrite henv sha256 _ _ _ _ _) false s
  | update => exact hresult (shortly_commitPlannedWrite henv sha256 _ _ _ _ _) false s

theorem shortly_verifyAll (henv : Accepting env) (limit : ℕ) (files : List (String × View)) :
    Shortly env (verifyAll limit files) := by
  induction files with
  | nil => exact shortly_pure _
  | cons file files ih =>
    obtain ⟨path, view⟩ := file
    exact Shortly.bind (fun s => (ends_verify path limit s henv view.original).mono
      (fun _ _ _ => trivial) fun _ _ => id) fun _ => ih

end Commit

end ExecutionProvider.Patch

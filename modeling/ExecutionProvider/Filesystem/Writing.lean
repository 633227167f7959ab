import ExecutionProvider.Filesystem.Staging

/-!
# A write is all or nothing

Whatever calls fail, a write that fails leaves every file and link as it was, apart from a new file
beside the target that could not be removed; and a write that succeeds leaves a file with the new
content where the path leads.

There is one exception: an overwrite whose target is not found because a directory on the way is
missing. Once the directories are created, the target may turn out to be a link through which the
path itself leads. The new file takes its place, and the path leads nowhere.

## Main definitions

* `Disk.Fulfils`: the precondition of a write holds for what stands on a disk.
* `Disk.Written`, `Disk.Unchanged`: what a write leaves that succeeds, or that fails.
* `Disk.Strays`: the target of an overwrite is a link through which the path leads.
* `AllOrNothing`: what is proved of a write.

## Main results

* `Follows.leads`, `Follows.meets`: the links at the end of a path lead to its target.
* `ends_replaceContent`: the new content takes the place of the target, or nothing changes.
* `allOrNothing_of_not_strays`: a write is all or nothing unless its target strays.
-/

namespace ExecutionProvider.Filesystem

open Disk Program Protocol

namespace Disk

variable {d d' : Disk} {t t' : FileTree String ℕ String} {path target : String}
  {q x z : List String} {n : ℕ}

/-! ### The links at the end of a path -/

/-- The path to which a link leads is that of the place where the link stands, and its text. -/
theorem exists_steps_linkTarget {l : List (FileStep String)} {name text next : String}
    (hsteps : Path.steps path = l ++ [.down name]) (hnext : linkTarget path text = some next) :
    ∃ l', Path.steps next = l' ++ Path.steps text ∧
      ∀ {t : FileTree String ℕ String} {z}, t.parse = Path.readLink → t.node z = some .dir →
        t.Enters (d.origin path) l z → t.Enters (d.origin next) l' (t.start z text) := by
  rw [linkTarget] at hnext
  split_ifs at hnext with habsolute
  · obtain rfl := Option.some.inj hnext
    refine ⟨[], rfl, fun {t z} hparse _ _ => ?_⟩
    rw [origin, if_pos habsolute, FileTree.start, hparse]
    change t.Enters [] [] (if Path.isAbsolute text then [] else z)
    rw [if_pos habsolute]
    exact .done []
  · obtain ⟨par, hpar, rfl⟩ := Option.map_eq_some_iff.mp hnext
    obtain ⟨par', l', hpar', hl', hjoin, henters⟩ :=
      Path.exists_steps_beside hsteps (Bool.eq_false_iff.mpr habsolute)
    obtain rfl := Option.some.inj (hpar.symm.trans hpar')
    refine ⟨l', hl', fun {t z} hparse hdir hz => ?_⟩
    rw [origin, hjoin, ← origin, FileTree.start, hparse]
    change t.Enters _ l' (if Path.isAbsolute text = true then [] else z)
    rw [if_neg habsolute]
    exact henters hdir hz

/-- The links at the end of a path lead to where its target leads, and so in a tree with more
directories. -/
theorem Follows.enters (h : d.Follows n path target) (hgrows : d.tree.Grows t)
    (htarget : t.Enters (d.origin target) (Path.steps target) q) :
    t.Enters (d.origin path) (Path.steps path) q := by
  induction h with
  | here n target => exact htarget
  | link hq hlink hnext h ih =>
    obtain ⟨-, l, name, z, hsteps, henters, hdir, rfl⟩ := hq
    obtain ⟨l', hl', hstart⟩ := exists_steps_linkTarget (d := d) hsteps hnext
    have htext := ih htarget
    have hz := henters.grows hgrows
    have hdir' := hgrows.dir hdir
    rw [hl'] at htext
    obtain ⟨z', hz', htext⟩ := FileTree.enters_append.mp htext
    obtain rfl := hz'.unique (hstart hgrows.parse hdir' hz)
    rw [hsteps]
    refine FileTree.enters_append.mpr ⟨_, hz, .link hdir' (hgrows.link.mpr hlink) ?_⟩
    rw [FileTree.behind, List.append_nil, hgrows.parse]
    exact htext

theorem Follows.ne_empty (h : d.Follows n path target) (htarget : target ≠ "") : path ≠ "" := by
  cases h with
  | here n target => exact htarget
  | link hq _ _ _ => exact hq.1

theorem Follows.leads (h : d.Follows n path target) (hgrows : d.tree.Grows d'.tree)
    (hcwd : d'.cwd = d.cwd) (htarget : d'.Leads target q) : d'.Leads path q := by
  refine ⟨h.ne_empty htarget.1, ?_⟩
  rw [origin_eq hcwd]
  refine h.enters hgrows ?_
  rw [← origin_eq hcwd]
  exact htarget.2

/-- A file in the place of the target: the links at the end of a path lead to it, or the path goes
through its place. -/
theorem Follows.meets (h : d.Follows n path target) (hgrows : d.tree.Grows t)
    (hreplaces : t.Replaces t' q) {l : List (FileStep String)} {name : String}
    (hsteps : Path.steps target = l ++ [.down name]) (hl : t.Enters (d.origin target) l z)
    (hdir : t.node z = some .dir) (hq : q = name :: z) :
    t'.Enters (d.origin path) (Path.steps path) q ∨
      t.Meets q (d.origin path) (Path.steps path) := by
  have hfile : ∀ text, t'.node q ≠ some (.link text) := by
    obtain ⟨i, hi⟩ := hreplaces.after
    intro text hlink
    rw [hi] at hlink
    cases hlink
  -- where the directory of a path stands after the change
  have hdirectory {p y : List String} {l : List (FileStep String)} (name : String)
      (hy : t.Enters p l y) (hydir : t.node y = some .dir) :
      t'.Enters p l y ∧ t'.node y = some .dir ∨ t.Meets q p (l ++ [.down name]) :=
    (hy.replaces hreplaces hydir (List.cons_ne_nil _ _)).imp_left fun hy' =>
      ⟨hy', (hreplaces.dir (hreplaces.ne_of_dir hydir)).mpr hydir⟩
  induction h with
  | here n target =>
    rw [hsteps]
    refine (hdirectory name hl hdir).imp_left fun ⟨hl', hdir'⟩ => ?_
    refine FileTree.enters_append.mpr ⟨z, hl', ?_⟩
    rw [hq] at hfile ⊢
    exact .down hdir' hfile (.done _)
  | @link n path q' text next target hq' hlink hnext h ih =>
    obtain ⟨-, k, name', y, hsteps', henters, hydir, rfl⟩ := hq'
    rw [hsteps']
    obtain ⟨hy', hydir'⟩ | hmeets := hdirectory name' (henters.grows hgrows)
      (hgrows.dir hydir)
    · by_cases hself : name' :: y = q
      · -- the link is the target itself
        refine .inl (FileTree.enters_append.mpr ⟨y, hy', ?_⟩)
        rw [← hself] at hfile ⊢
        exact .down hydir' hfile (.done _)
      · obtain ⟨k', hk', hstart⟩ := exists_steps_linkTarget (d := d) hsteps' hnext
        have hparse : t'.parse = Path.readLink := hreplaces.parse.trans hgrows.parse
        have hlink' := hgrows.link.mpr hlink
        have hnext' := hstart hparse hydir' hy'
        have hih := ih hsteps hl
        rw [hk'] at hih
        obtain htext | hmeets := hih
        · obtain ⟨y', hstart', htext⟩ := FileTree.enters_append.mp htext
          obtain rfl := hstart'.unique hnext'
          refine .inl (FileTree.enters_append.mpr ⟨y, hy', ?_⟩)
          refine .link hydir' ((hreplaces.link hself).mpr hlink') ?_
          rw [FileTree.behind, List.append_nil, hparse]
          exact htext
        · have hstart' : t'.start y text ≠ q := by
            rw [FileTree.start, hq]
            split_ifs
            · exact (List.cons_ne_nil _ _).symm
            · exact hq ▸ hreplaces.ne_of_dir (hgrows.dir hydir)
          have htext := hreplaces.meets_of_append hnext' hstart' hmeets
          refine .inr ((henters.grows hgrows).meets (.link (hgrows.dir hydir) hself hlink' ?_))
          rw [FileTree.behind, List.append_nil, ← hreplaces.start_eq, ← hreplaces.parse, hparse]
          exact htext
    · exact .inr hmeets

/-! ### What a write leaves -/

/-- The precondition of a write holds for what stands on a disk. -/
def Fulfils (d : Disk) (sha256 : List UInt8 → String) (path : String)
    (precondition : FilePrecondition) : Prop :=
  ∃ existing, d.Hashed sha256 path existing ∧ checkPrecondition existing precondition = .ok ()

/-- What a write leaves that succeeds: where the path leads stands a file with the data, and
elsewhere what stood there, apart from directories that were created before. A conditional write
that changed the file did so when its precondition held. -/
structure Written (d d' m : Disk) (sha256 : List UInt8 → String) (path : String)
    (data : List UInt8) (mode : WriteFileMode) (disposition : MutationDisposition)
    (q : List String) : Prop where
  grown : d.Grown m
  node : ∀ p, p ≠ q → d'.node p = m.node p
  leaf : ∀ p, p ≠ q → d'.leaf p = d.leaf p
  leads : d'.Leads path q
  data : d'.leaf q = some (.inl data)
  fulfils : disposition = .applied → ∀ precondition, mode = .conditional precondition →
    m.Fulfils sha256 path precondition

/-- What a write leaves that fails: every file and link, and perhaps a new file that could not be
removed. -/
def Unchanged (d : Disk) (t : Disk × List SysCall) : Prop :=
  (∀ p, t.1.leaf p = d.leaf p) ∨ ∃ temporary x, .removeFile temporary ∈ t.2 ∧
    t.1.Names temporary x ∧ d.node x = none ∧ ∀ p, p ≠ x → t.1.leaf p = d.leaf p

/-- The target of an overwrite is not found, and when the directories above it are created, it is a
link through which the path leads. -/
def Strays (d : Disk) (path : String) : Prop :=
  ∃ target parent links m q text, d.Follows maxLinks path target ∧ d.Missing target ∧
    (Path.parent target).filter (· ≠ "") = some parent ∧
    d.createDirAll links parent = (.ok (), m) ∧ m.Names target q ∧
    m.node q = some (.link text) ∧ m.tree.Meets q (m.origin path) (Path.steps path)

end Disk

/-! ### The new content -/

section Replacing

variable {s : Disk × List SysCall} {sha256 : List UInt8 → String} {temporary target : String}
  {data : List UInt8}

/-- A new file stands beside the target. -/
structure Staged (d : Disk) (temporary : String) (x : List String) (i : ℕ) (d' : Disk) : Prop where
  vacant : d.node x = none
  put : d.Put d' x i
  names : d'.Names temporary x

/-- What is left when the new content does not take the place of the target. -/
def Abandoned (d : Disk) (temporary : String) (d' : Disk) : Prop :=
  d' = d ∨ ∃ x i, Staged d temporary x i d'

/-- The new content has taken the place of the target. A precondition held before. -/
def Replaced (d : Disk) (sha256 : List UInt8 → String) (temporary target : String)
    (data : List UInt8) (mode : WriteFileMode) (d' : Disk) : Prop :=
  ∃ q i, d.Names target q ∧ d.Put d' q i ∧ (d'.files i).content = data ∧
    ∀ precondition, mode = .conditional precondition →
      ∃ m x, Staged d temporary x i m ∧ m.Fulfils sha256 target precondition

namespace Staged

variable {d d' d'' : Disk} {x : List String} {i : ℕ}

theorem grows (h : Staged d temporary x i d') :
    d.tree.Grows d'.tree ∧ d'.tree.Grows d.tree :=
  h.put.grows fun text hlink => by
    rw [h.vacant] at hlink
    cases hlink

theorem congr (h : Staged d temporary x i d') (hput : d.Put d'' x i) :
    Staged d temporary x i d'' := by
  have hgrows : d.tree.Grows d''.tree := (hput.grows fun text hlink => by
    rw [h.vacant] at hlink
    cases hlink).1
  exact ⟨h.vacant, hput, h.names.mono (h.grows.2.trans hgrows) (hput.cwd.trans h.put.cwd.symm)⟩

end Staged

theorem staged_of_createNew {d d' : Disk} {i : ℕ}
    (h : d.Answers (.createNew temporary) (.ok i) d') :
    ∃ x, Staged d temporary x i d' ∧ (d'.files i).content = [] := by
  obtain ⟨x, hx, hnone, hput, hcontent⟩ := h.put
  have hgrows : d.tree.Grows d'.tree := (hput.grows fun text hlink => by
    rw [hnone] at hlink
    cases hlink).1
  exact ⟨x, ⟨hnone, hput, hx.mono hgrows hput.cwd⟩, hcontent⟩

variable {x : List String} {i : ℕ} {d : Disk} {mode : WriteFileMode}

/-- The new content takes the place of the target. -/
theorem ends_rename (h : Staged d temporary x i s.1) (hdata : (s.1.files i).content = data)
    (hmode : ∀ precondition, mode = .conditional precondition →
      s.1.Fulfils sha256 target precondition) :
    Ends faulty s (fun _ t => Replaced d sha256 temporary target data mode t.1)
      (fun _ t => Abandoned d temporary t.1) (io (sys (.rename temporary target))) := by
  refine ends_io.mpr fun r t ⟨hr, _⟩ => ?_
  cases r with
  | error e =>
    rw [← hr.not_renamed] at h
    exact .inr ⟨x, i, h⟩
  | ok u =>
    obtain ⟨q, hq, hput, hfiles⟩ := h.put.rename h.vacant h.names hr
    refine ⟨q, i, hq.mono h.grows.2 h.put.cwd.symm, hput, ?_, fun precondition hp => ?_⟩
    · rw [hfiles, hdata]
    · exact ⟨s.1, x, h, hmode precondition hp⟩

/-- The precondition is looked at once more before that. -/
theorem ends_check_rename {precondition : FilePrecondition} (limit : ℕ)
    (h : Staged d temporary x i s.1) (hdata : (s.1.files i).content = data) :
    Ends faulty s
      (fun _ t => Replaced d sha256 temporary target data (.conditional precondition) t.1)
      (fun _ t => Abandoned d temporary t.1) (do
        checkPrecondition (← existingHash sha256 target limit) precondition
        io (sys (.rename temporary target))) := by
  refine ends_bind.mpr ((ends_existingHash sha256 limit).mono (fun existing t ⟨ht, hhash⟩ => ?_)
    fun e t ht => ?_)
  · rw [← ht] at h hdata hhash
    cases hcheck : checkPrecondition existing precondition with
    | error e => exact .inr ⟨x, i, h⟩
    | ok u =>
      refine ends_rename h hdata fun precondition' hp => ?_
      rw [← WriteFileMode.conditional.inj hp]
      exact ⟨existing, hhash, hcheck⟩
  · rw [ht]
    exact .inr ⟨x, i, h⟩

/-- **The new content takes the place of the target, or everything is left as it was.** -/
theorem ends_replaceContent (permissions : Option ℕ) (mode : WriteFileMode) (limit : ℕ) :
    Ends faulty s (fun _ t => Replaced s.1 sha256 temporary target data mode t.1)
      (fun _ t => Abandoned s.1 temporary t.1)
      (replaceContent sha256 temporary target data permissions mode limit) := by
  refine ends_bind.mpr (ends_io.mpr fun r t ⟨hr, _⟩ => ?_)
  cases r with
  | error e => exact .inl hr.not_put
  | ok i =>
    obtain ⟨x, hstaged, hempty⟩ := staged_of_createNew hr
    refine ends_bind.mpr (ends_io.mpr fun r t' ⟨hr, _⟩ => ?_)
    obtain ⟨hput, hdata⟩ := hstaged.put.write hr
    have hstaged' := hstaged.congr hput
    cases r with
    | error e => exact .inr ⟨x, i, hstaged'⟩
    | ok u =>
      have hdata := hdata rfl
      rw [hempty, List.nil_append] at hdata
      refine ends_bind.mpr (ends_io.mpr fun r u' ⟨hr, _⟩ => ?_)
      have hu' := hr.eq_of_changes rfl
      rw [← hu'] at hstaged' hdata
      cases r with
      | error e => exact .inr ⟨x, i, hstaged'⟩
      | ok u =>
        -- the permissions are those of the target, if it has any
        have hpermissions {k : FileM Unit} (permissions : ℕ)
            (hk : ∀ v : Disk × List SysCall, Staged s.1 temporary x i v.1 →
              (v.1.files i).content = data → Ends faulty v
                (fun _ t => Replaced s.1 sha256 temporary target data mode t.1)
                (fun _ t => Abandoned s.1 temporary t.1) k) :
            Ends faulty u' (fun _ t => Replaced s.1 sha256 temporary target data mode t.1)
              (fun _ t => Abandoned s.1 temporary t.1)
              (io (sys (.setPermissions temporary permissions)) >>= fun _ => k) := by
          refine ends_bind.mpr (ends_io.mpr fun r v ⟨hr, _⟩ => ?_)
          obtain ⟨hput, hcontent⟩ := hstaged'.put.chmod hr
          have hv := hstaged'.congr hput
          cases r with
          | error e => exact .inr ⟨x, i, hv⟩
          | ok u => exact hk v hv (hcontent.trans hdata)
        cases mode with
        | overwrite =>
          cases permissions with
          | none => exact ends_rename hstaged' hdata fun precondition hp => by cases hp
          | some permissions =>
            exact hpermissions permissions fun v hv hvdata =>
              ends_rename hv hvdata fun precondition hp => by cases hp
        | conditional precondition =>
          cases permissions with
          | none => exact ends_check_rename limit hstaged' hdata
          | some permissions =>
            exact hpermissions permissions fun v hv hvdata => ends_check_rename limit hv hvdata

end Replacing

/-! ### All or nothing -/

section Whole

variable {d d' m : Disk} {sha256 : List UInt8 → String} {path target temporary parent : String}
  {data : List UInt8} {mode : WriteFileMode} {n : ℕ} {q : List String}

theorem eq_missing_of_check {precondition : FilePrecondition}
    (h : checkPrecondition none precondition = .ok ()) : precondition = .missing := by
  cases precondition with
  | missing => rfl
  | sha256 hash => cases h

theorem eq_none_of_check {existing : Option String}
    (h : checkPrecondition existing .missing = .ok ()) : existing = none := by
  cases existing with
  | none => rfl
  | some hash => cases h

/-- What is left of a write that fails, when the new file is removed. -/
theorem unchanged_of_abandoned {unique : String} {t u : Disk × List SysCall}
    {r : Except IoError Unit} (hgrown : d.Grown m) (hunused : m.Unused unique)
    (h : Abandoned m (temporaryPath parent target unique) t.1)
    (hr : faulty t (.removeFile (temporaryPath parent target unique)) r u) : Unchanged d u := by
  obtain ⟨hr, hlog⟩ := hr
  obtain hsame | ⟨x, i, hstaged⟩ := h
  · rw [hsame] at hr
    refine .inl fun p => ?_
    obtain ⟨-, hu⟩ | ⟨p', node, hp', hnode, -, -, -⟩ := hr.removed
    · rw [hu, hgrown.leaf]
    · rw [node_eq_none_of_unused hunused hp'] at hnode
      cases hnode
  · obtain ⟨⟨e, rfl⟩, hu⟩ | hsame := hstaged.put.remove hstaged.vacant hstaged.names hr
    · refine .inr ⟨_, x, ?_, hu ▸ hstaged.names, hgrown.node_eq_none hstaged.vacant,
        fun p hp => ?_⟩
      · rw [hlog]
        exact List.mem_append_right _ (List.mem_singleton_self _)
      · rw [hu, hstaged.put.leaf_of_ne hp, hgrown.leaf]
    · exact .inl fun p => (hsame p).trans (hgrown.leaf p)

/-- A path that goes through the link that it names leads to a directory. -/
theorem exists_directory_of_meets {text : String} (hq : d.Names path q)
    (hlink : d.node q = some (.link text))
    (hmeets : d.tree.Meets q (d.origin path) (Path.steps path)) :
    ∃ y, d.Leads path y ∧ d.node y = some .dir := by
  obtain ⟨hne, l, name, z, hsteps, henters, hdir, rfl⟩ := hq
  rw [hsteps] at hmeets
  obtain hlast | ⟨rest, hrest⟩ := hmeets.of_append henters hlink
  · cases hlast with
    | here _ _ hrest => exact absurd rfl hrest
    | down _ hname _ _ => exact absurd rfl hname
    | link _ hname _ _ => exact absurd rfl hname
  · rw [FileTree.behind, List.tail_cons] at hrest
    obtain ⟨y, hy, hyz⟩ := FileTree.enters_append.mp hrest
    refine ⟨y, ⟨hne, ?_⟩, ?_⟩
    · rw [hsteps]
      refine FileTree.enters_append.mpr ⟨z, henters, .link hdir hlink ?_⟩
      rwa [FileTree.behind, List.append_nil]
    · cases rest with
      | nil => rwa [FileTree.enters_nil_iff.mp hyz]
      | cons step rest => exact FileTree.dir_of_enters_cons hyz

/-- What is known of the target before the new content is written. -/
structure Aimed (d : Disk) (sha256 : List UInt8 → String) (path : String) (mode : WriteFileMode)
    (target : String) (existing : Option String) : Prop where
  follows : d.Follows maxLinks path target
  hashed : ∀ hash, existing = some hash → d.Hashed sha256 target (some hash)
  conditional : ∀ precondition, mode = .conditional precondition → target = path
  overwrite : mode = .overwrite →
    d.Missing target ∨ ∃ q i, d.Names target q ∧ d.node q = some (.file i)

/-- What a conditional write found at first is what its path leads to when the content is
replaced. -/
theorem hashed_of_fulfils {existing : Option String} {precondition : FilePrecondition}
    {x : List String} {i : ℕ} {m' : Disk} (hgrown : d.Grown m)
    (hhashed : ∀ hash, existing = some hash → d.Hashed sha256 path (some hash))
    (hcheck : checkPrecondition existing precondition = .ok ())
    (hstaged : Staged m temporary x i m') (hfulfils : m'.Fulfils sha256 path precondition) :
    m.Hashed sha256 path existing := by
  cases existing with
  | some hash =>
    obtain ⟨content, hcontent, hhash⟩ := hhashed hash rfl
    exact ⟨content, hcontent.grown hgrown, hhash⟩
  | none =>
    obtain rfl := eq_missing_of_check hcheck
    obtain ⟨existing', habsent, hcheck'⟩ := hfulfils
    obtain rfl := eq_none_of_check hcheck'
    -- nothing was found where the path leads after the new file was created
    intro y hy
    have hnone := habsent y (hy.mono hstaged.grows.1 hstaged.put.cwd)
    by_cases hyx : y = x
    · rw [hyx, hstaged.vacant]
    · rw [← hstaged.put.node_of_ne hyx, hnone]

theorem ne_dir_of_hashed {existing : Option String} {y : List String}
    (h : d.Hashed sha256 path existing) (hy : d.Leads path y) : d.node y ≠ some .dir := by
  intro hdir
  cases existing with
  | none =>
    rw [h y hy] at hdir
    cases hdir
  | some hash =>
    obtain ⟨content, ⟨q, i, hq, hfile, -⟩, -⟩ := h
    rw [← hq.unique hy, hfile] at hdir
    cases hdir

/-- The file in the place of the target is where the path leads. -/
theorem leads_of_put {existing : Option String} {i : ℕ} {links : ℕ} {create : Bool}
    (haimed : Aimed d sha256 path mode target existing)
    (hstray : ¬ (create = true ∧ mode = .overwrite ∧ d.Strays path))
    (hparent : (Path.parent target).filter (· ≠ "") = some parent)
    (hcreated : create = true ∧ d.createDirAll links parent = (.ok (), m) ∨
      create = false ∧ m = d)
    (hgrown : d.Grown m) (hq : m.Names target q) (hput : m.Put d' q i)
    (hconditional : ∀ precondition, mode = .conditional precondition →
      m.Hashed sha256 path existing) : d'.Leads path q := by
  have hgrows := hgrown.tree
  by_cases hlink : ∃ text, m.node q = some (.link text)
  · obtain ⟨text, hlink⟩ := hlink
    obtain ⟨hne, l, name, z, hsteps, henters, hdir, hname⟩ := id hq
    rw [origin_eq hgrown.cwd] at henters
    obtain hleads | hmeets :=
      haimed.follows.meets hgrows hput.replaces hsteps henters hdir hname
    · refine ⟨haimed.follows.ne_empty hne, ?_⟩
      rwa [origin_eq (hput.cwd.trans hgrown.cwd)]
    · exfalso
      rw [← origin_eq hgrown.cwd] at hmeets
      cases hmode : mode with
      | conditional precondition =>
        obtain rfl := haimed.conditional precondition hmode
        obtain ⟨y, hy, hydir⟩ := exists_directory_of_meets hq hlink hmeets
        exact ne_dir_of_hashed (hconditional precondition hmode) hy hydir
      | overwrite =>
        obtain hmissing | ⟨q', i', hq', hfile⟩ := haimed.overwrite hmode
        · obtain ⟨hcreate, hcreated⟩ | ⟨-, rfl⟩ := hcreated
          · exact hstray ⟨hcreate, hmode, target, parent, links, m, q, text, haimed.follows,
              hmissing, hparent, hcreated, hq, hlink, hmeets⟩
          · rw [hmissing.node_eq_none hq] at hlink
            cases hlink
        · rw [hq.unique (hq'.mono hgrows hgrown.cwd), hgrown.node_eq hfile] at hlink
          cases hlink
  · have hgrows' := (hput.grows fun text htext => hlink ⟨text, htext⟩).1
    refine haimed.follows.leads (hgrows.trans hgrows') (hput.cwd.trans hgrown.cwd) ?_
    refine (hq.mono hgrows' hput.cwd).leads fun text htext => ?_
    rw [hput.node_self] at htext
    cases htext

/-- What a write leaves that succeeds. -/
theorem written_of_replaced {existing : Option String} {links : ℕ} {create : Bool}
    (haimed : Aimed d sha256 path mode target existing)
    (hcheck : ∀ precondition, mode = .conditional precondition →
      checkPrecondition existing precondition = .ok ())
    (hstray : ¬ (create = true ∧ mode = .overwrite ∧ d.Strays path))
    (hparent : (Path.parent target).filter (· ≠ "") = some parent)
    (hcreated : create = true ∧ d.createDirAll links parent = (.ok (), m) ∨
      create = false ∧ m = d)
    (hgrown : d.Grown m) (h : Replaced m sha256 temporary target data mode d') :
    ∃ q, Written d d' m sha256 path data mode .applied q := by
  obtain ⟨q, i, hq, hput, hdata, hfulfils⟩ := h
  have hhashed : ∀ precondition, mode = .conditional precondition →
      m.Hashed sha256 path existing := fun precondition hmode => by
    obtain ⟨m', x, hstaged, hm'⟩ := hfulfils precondition hmode
    rw [haimed.conditional precondition hmode] at hm'
    refine hashed_of_fulfils hgrown (fun hash hhash => ?_) (hcheck precondition hmode) hstaged hm'
    rw [← haimed.conditional precondition hmode]
    exact haimed.hashed hash hhash
  refine ⟨q, hgrown, fun p hp => hput.node_of_ne hp, fun p hp => ?_, ?_, ?_,
    fun _ precondition hmode => ⟨existing, hhashed precondition hmode, hcheck precondition hmode⟩⟩
  · rw [hput.leaf_of_ne hp, hgrown.leaf]
  · exact leads_of_put haimed hstray hparent hcreated hgrown hq hput hhashed
  · rw [leaf_of_file hput.node_self, hdata]

/-- A file that has the content already. -/
theorem written_of_hashed {existing : Option String}
    (hclash : ∀ i, sha256 (d.files i).content = sha256 data → (d.files i).content = data)
    (haimed : Aimed d sha256 path mode target existing)
    (hexisting : existing = some (sha256 data)) :
    ∃ q, Written d d d sha256 path data mode .alreadyApplied q := by
  obtain ⟨content, ⟨q, i, hq, hfile, rfl⟩, hhash⟩ := haimed.hashed _ hexisting
  refine ⟨q, .refl d, fun _ _ => rfl, fun _ _ => rfl,
    haimed.follows.leads (.refl _) rfl hq, ?_, fun h => by cases h⟩
  rw [leaf_of_file hfile, hclash i hhash]

section Commit

variable {α : Type} {s : Disk × List SysCall} {Q : α → Disk × List SysCall → Prop}
  {E : Error → Disk × List SysCall → Prop} {limit : ℕ} {k : String → Except Error Unit → FileM α}

/-- The new content takes the place of the target. What follows is told what came of it. -/
theorem ends_stage
    (hdone : ∀ unique t, s.1.Unused unique →
      Replaced s.1 sha256 (temporaryPath parent target unique) target data mode t.1 →
      Ends faulty t Q E (k unique (.ok ())))
    (hleft : ∀ unique e t, s.1.Unused unique →
      Abandoned s.1 (temporaryPath parent target unique) t.1 →
      Ends faulty t Q E (k unique (.error e))) :
    Ends faulty s Q E (attempt (sys (.metadata target)) >>= fun metadata =>
      ExceptT.lift (sys .newUuid) >>= fun unique =>
      ExceptT.lift (replaceContent sha256 (temporaryPath parent target unique) target data
        (metadata.toOption.map Metadata.permissions) mode limit) >>= k unique) := by
  refine ends_bind.mpr (ends_attempt.mpr fun metadata t ⟨hr, _⟩ => ?_)
  have ht := hr.eq_of_changes rfl
  refine ends_bind.mpr (ends_lift.mpr fun unique u ⟨hr, _⟩ => ?_)
  have hu := (hr.eq_of_changes rfl).trans ht
  obtain ⟨_, _, _, hunused, _, hunique, _⟩ := hr.exists_perform (fun e he => by cases he)
  obtain rfl : unique = _ := hunique
  rw [ht] at hunused
  refine ends_bind.mpr (ends_lift.mpr ?_)
  refine Ensures.mono (ends_replaceContent _ mode limit) fun r v hr => ?_
  rw [hu] at hr
  cases r with
  | ok u => exact hdone unique v hunused hr
  | error e => exact hleft unique e v hunused hr

/-- The directories above the target are created before that. -/
theorem ends_commit {create : Bool} (hfail : ∀ e t, s.1.Grown t.1 → E e t)
    (hdone : ∀ links m unique t, create = true ∧ s.1.createDirAll links parent = (.ok (), m) ∨
        create = false ∧ m = s.1 → s.1.Grown m →
      Replaced m sha256 (temporaryPath parent target unique) target data mode t.1 →
      Ends faulty t Q E (k unique (.ok ())))
    (hleft : ∀ m unique e t, s.1.Grown m → m.Unused unique →
      Abandoned m (temporaryPath parent target unique) t.1 →
      Ends faulty t Q E (k unique (.error e))) :
    Ends faulty s Q E (if create = true then io (sys (.createDirAll parent)) >>= fun _ =>
        attempt (sys (.metadata target)) >>= fun metadata =>
        ExceptT.lift (sys .newUuid) >>= fun unique =>
        ExceptT.lift (replaceContent sha256 (temporaryPath parent target unique) target data
          (metadata.toOption.map Metadata.permissions) mode limit) >>= k unique
      else
        attempt (sys (.metadata target)) >>= fun metadata =>
        ExceptT.lift (sys .newUuid) >>= fun unique =>
        ExceptT.lift (replaceContent sha256 (temporaryPath parent target unique) target data
          (metadata.toOption.map Metadata.permissions) mode limit) >>= k unique) := by
  split_ifs with hcreate
  · refine ends_bind.mpr (ends_io.mpr fun r t ⟨hr, _⟩ => ?_)
    cases r with
    | error e => exact hfail _ t hr.grown
    | ok u =>
      obtain ⟨links, hlinks⟩ := hr.of_createDirAll
      exact ends_stage (fun unique v _ hv => hdone links t.1 unique v (.inl ⟨hcreate, hlinks⟩)
        hr.grown hv) fun unique e v hunused hv => hleft t.1 unique e v hr.grown hunused hv
  · exact ends_stage (fun unique v _ hv => hdone 0 s.1 unique v
      (.inr ⟨Bool.eq_false_iff.mpr hcreate, rfl⟩) (.refl _) hv)
      fun unique e v hunused hv => hleft s.1 unique e v (.refl _) hunused hv

end Commit

end Whole

section AllOrNothing

variable (sha256 : List UInt8 → String) (d : Disk) (mutationId path : String) (data : List UInt8)
  (createParentDirectories : Bool) (mode : WriteFileMode) (readLimit : ℕ)

/-- A write is all or nothing. -/
def AllOrNothing : Prop :=
  Ends faulty (d, [])
    (fun receipt t => ∃ m q, Written d t.1 m sha256 path data mode receipt.disposition q)
    (fun _ t => Unchanged d t)
    (writeFileAt sha256 mutationId path data createParentDirectories mode readLimit)

variable {sha256 d path data createParentDirectories mode}

theorem allOrNothing_of_not_strays
    (hclash : ∀ i, sha256 (d.files i).content = sha256 data → (d.files i).content = data)
    (hstray : ¬ (createParentDirectories = true ∧ mode = .overwrite ∧ d.Strays path)) :
    AllOrNothing sha256 d mutationId path data createParentDirectories mode readLimit := by
  have hsame : ∀ e : Error, ∀ t : Disk × List SysCall, t.1 = d → Unchanged d t := fun e t ht =>
    .inl fun p => by rw [ht]
  cases mode with
  | overwrite =>
    refine ends_bind.mpr ((ends_followFinalSymlinks maxLinks).mono (fun target t h => ?_) hsame)
    obtain ⟨ht, hfollows, htarget⟩ := h
    obtain rfl : t.1 = d := ht
    refine ends_bind.mpr ((ends_readableExistingHash sha256 readLimit).mono
      (fun existing u h => ?_) hsame)
    obtain ⟨hu, hhashed⟩ := h
    have haimed : Aimed t.1 sha256 path .overwrite target existing :=
      ⟨hfollows, hhashed, fun precondition h => (by cases h), fun _ => htarget⟩
    dsimp only
    split
    · next hexisting =>
      obtain ⟨q, hq⟩ := written_of_hashed hclash haimed hexisting
      refine ⟨t.1, q, ?_⟩
      rwa [hu]
    split
    · exact hsame (.invalid "file path has no parent directory") u hu
    · next parent hparent =>
      rw [← hu] at haimed hstray hsame ⊢
      refine ends_commit (fun e v hv => .inl hv.leaf) (fun links m unique v hcreated hm h => ?_)
        fun m unique e v hm hunused h => ?_
      · exact ⟨m, written_of_replaced haimed (fun precondition h => by cases h) hstray hparent
          hcreated hm h⟩
      · exact ends_bind.mpr (ends_attempt.mpr fun r w hw =>
          unchanged_of_abandoned hm hunused h hw)
  | conditional precondition =>
    refine ends_bind.mpr (ends_pure.mpr ?_)
    refine ends_bind.mpr ((ends_existingHash sha256 readLimit).mono (fun existing u h => ?_) hsame)
    obtain ⟨hu, hhashed⟩ := h
    obtain rfl : u.1 = d := hu
    have haimed : Aimed u.1 sha256 path (.conditional precondition) path existing :=
      ⟨.here _ path, fun hash hhash => hhash ▸ hhashed, fun _ _ => rfl, fun h => (by cases h)⟩
    dsimp only
    split
    · next hexisting =>
      obtain ⟨q, hq⟩ := written_of_hashed hclash haimed hexisting
      exact ⟨u.1, q, hq⟩
    cases hcheck : checkPrecondition existing precondition with
    | error e => exact hsame e u rfl
    | ok _ =>
      refine ends_bind.mpr (ends_pure.mpr ?_)
      split
      · exact hsame (.invalid "file path has no parent directory") u rfl
      · next parent hparent =>
        refine ends_commit (fun e v hv => .inl hv.leaf)
          (fun links m unique v hcreated hm h => ?_) fun m unique e v hm hunused h => ?_
        · refine ⟨m, written_of_replaced haimed (fun precondition' h => ?_) hstray hparent
            hcreated hm h⟩
          rw [← WriteFileMode.conditional.inj h, hcheck]
        · exact ends_bind.mpr (ends_attempt.mpr fun r w hw =>
            unchanged_of_abandoned hm hunused h hw)

end AllOrNothing

end ExecutionProvider.Filesystem

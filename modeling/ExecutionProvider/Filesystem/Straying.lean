import ExecutionProvider.Filesystem.Writing
import Mathlib.Algebra.GroupWithZero.Nat
import Mathlib.Algebra.Order.BigOperators.Group.List

/-!
# A write that loses its path

An overwrite whose target strays succeeds when no call fails, and then its path leads nowhere. So
the exception to a write being all or nothing is a real one.

## Main results

* `exists_unused`, `exists_fresh`: the operating system has identifiers for a new file.
* `ends_of_follows`, `ends_of_missing`, `ends_of_replaced`: what a call may be answered.
* `allOrNothing_iff_not_strays`: a write is all or nothing exactly when its target does not stray.
-/

namespace ExecutionProvider.Filesystem

open Disk Program Protocol

namespace Disk

variable {d d' : Disk} {path : String} {q : List String} {links : ℕ}

/-! ### What a call may be answered -/

theorem exists_unused (d : Disk) : ∃ unique, d.Unused unique := by
  let size : (Sigma fun _ : List String => FileNode ℕ String) → ℕ := fun e =>
    e.1.head?.elim 0 fun name => name.toList.length
  refine ⟨String.ofList (List.replicate ((d.nodes.entries.map size).sum + 1) 'a'), ?_,
    fun name p hnode hinfix => ?_⟩
  · rw [String.toList_ofList]
    intro h
    cases (List.mem_replicate.mp h).2
  · obtain ⟨node, hnode⟩ := Option.ne_none_iff_exists'.mp hnode
    have hmem := List.mem_map_of_mem (f := size) (AList.mem_lookup_iff.mp hnode)
    have hle := List.single_le_sum (fun _ _ => Nat.zero_le _) _ hmem
    have hlength := hinfix.length_le
    rw [String.toList_ofList, List.length_replicate] at hlength
    have hsize : size ⟨name :: p, node⟩ = name.toList.length := rfl
    omega

/-- The identity of a file. -/
def identity : FileNode ℕ String → ℕ
  | .file i => i
  | _ => 0

theorem exists_fresh (d : Disk) : ∃ i, d.Fresh i := by
  refine ⟨(d.nodes.entries.map fun e => identity e.2).sum + 1, fun p hnode => ?_⟩
  have hmem := List.mem_map_of_mem (f := fun e => identity e.2) (AList.mem_lookup_iff.mp hnode)
  exact absurd (List.single_le_sum (fun _ _ => Nat.zero_le _) _ hmem) (Nat.not_succ_le_self _)

/-- Any call may be performed. -/
theorem exists_answers (d : Disk) (links : ℕ) (c : SysCall) : ∃ unique fresh,
    d.Unused unique ∧ d.Fresh fresh ∧
      d.Answers c (d.perform links unique fresh c).1 (d.perform links unique fresh c).2 := by
  obtain ⟨unique, hunused⟩ := d.exists_unused
  obtain ⟨fresh, hfresh⟩ := d.exists_fresh
  exact ⟨unique, fresh, hunused, hfresh, .performed c hunused hfresh⟩

theorem Names.entry_eq_ok (h : d.Names path q) : ∃ links, d.entry links path = .ok q := by
  obtain ⟨n, hn⟩ := h.exists_named
  obtain ⟨-, l, name, z, hsteps, -, -, -⟩ := h
  refine ⟨n, ?_⟩
  rw [entry, hsteps, List.getLast?_concat]
  exact hn n n.le_refl _

theorem found_of_node {place : Except IoError (List String)} {node : FileNode ℕ String}
    (hplace : place = .ok q) (hnode : d.node q = some node) : d.found place = .ok (q, node) := by
  refine bind_eq_ok_iff.mpr ⟨q, hplace, ?_⟩
  rw [standing, hnode]

/-- A link that a path names is found. -/
theorem answers_of_link {text : String} (hq : d.Names path q)
    (hlink : d.node q = some (.link text)) :
    (∃ metadata, d.Answers (.symlinkMetadata path) (.ok metadata) d ∧
      metadata.isSymlink = true) ∧ d.Answers (.readLink path) (.ok text) d := by
  obtain ⟨links, hlinks⟩ := hq.entry_eq_ok
  have hfound := found_of_node hlinks hlink
  constructor
  · obtain ⟨unique, fresh, -, -, hanswer⟩ := d.exists_answers links (.symlinkMetadata path)
    refine ⟨d.metadataOf (.link text), ?_, rfl⟩
    have hr : (d.perform links unique fresh (.symlinkMetadata path)).1 =
        .ok (d.metadataOf (.link text)) := map_eq_ok_iff.mpr ⟨_, hfound, rfl⟩
    rwa [hr] at hanswer
  · obtain ⟨unique, fresh, -, -, hanswer⟩ := d.exists_answers links (.readLink path)
    have hr : (d.perform links unique fresh (.readLink path)).1 = .ok text :=
      bind_eq_ok_iff.mpr ⟨_, hfound, rfl⟩
    rwa [hr] at hanswer

/-- A path that is not found. -/
theorem Missing.answers (h : d.Missing path) :
    (∃ e, d.Answers (.symlinkMetadata path) (.error e) d ∧ e.notFound = true) ∧
      ∃ e, d.Answers (.metadata path) (.error e) d ∧ e.notFound = true := by
  obtain ⟨links, e, hentry, he⟩ := h
  constructor
  · obtain ⟨unique, fresh, -, -, hanswer⟩ := d.exists_answers links (.symlinkMetadata path)
    refine ⟨e, ?_, he⟩
    have hr : (d.perform links unique fresh (.symlinkMetadata path)).1 = .error e :=
      map_eq_error_iff.mpr hentry
    rwa [hr] at hanswer
  · obtain ⟨unique, fresh, -, -, hanswer⟩ := d.exists_answers links (.metadata path)
    refine ⟨failureError .notFound, ?_, rfl⟩
    have hr : (d.perform links unique fresh (.metadata path)).1 = .error (failureError .notFound) :=
      map_eq_error_iff.mpr (found_resolve_of_entry hentry he)
    rwa [hr] at hanswer

/-- A file is created where nothing stands. -/
theorem answers_of_vacant (hq : d.Names path q) (hnone : d.node q = none) :
    ∃ i d', d.Answers (.createNew path) (.ok i) d' := by
  obtain ⟨n, hn⟩ := hq.exists_named
  obtain ⟨unique, fresh, -, -, hanswer⟩ := d.exists_answers n (.createNew path)
  have hplace : (d.named n directoryError path).bind d.vacant = .ok q := by
    refine bind_eq_ok_iff.mpr ⟨q, hn n n.le_refl _, ?_⟩
    rw [vacant, hnone]
  have hr : (d.perform n unique fresh (.createNew path)).1 = .ok fresh := by
    change (d.createNew n fresh path).1 = .ok fresh
    rw [createNew, hplace]
  rw [hr] at hanswer
  exact ⟨fresh, _, hanswer⟩

/-- A new file that takes the place of a link. -/
theorem answers_of_put {source destination text : String} {x : List String} {i : ℕ}
    (hx : d.Names source x) (hfile : d.node x = some (.file i)) (hq : d.Names destination q)
    (hlink : d.node q = some (.link text)) :
    ∃ d', d.Answers (.rename source destination) (.ok ()) d' := by
  obtain ⟨m, hm⟩ := hx.exists_named
  obtain ⟨n, hn⟩ := hq.exists_named
  obtain ⟨unique, fresh, -, -, hanswer⟩ :=
    d.exists_answers (max m n) (.rename source destination)
  have hsource : d.leafNamed (max m n) source = .ok (x, .file i) :=
    bind_eq_ok_iff.mpr ⟨_, found_of_node (hm _ (le_max_left _ _) _) hfile, rfl⟩
  have hr : (d.perform (max m n) unique fresh (.rename source destination)).1 = .ok () := by
    change (d.renamed (max m n) source destination).1 = .ok ()
    rw [renamed, hsource, hn _ (le_max_right _ _) _]
    dsimp only
    rw [if_neg (by rw [hlink]; exact fun h => by cases h)]
    rw [if_neg (by rw [hlink]; exact fun h => by cases h.2)]
  rw [hr] at hanswer
  exact ⟨_, hanswer⟩

/-- The permissions of a file are set. -/
theorem answers_of_chmod {x : List String} {i : ℕ} (permissions : ℕ) (hx : d.Names path x)
    (hfile : d.node x = some (.file i)) :
    ∃ d', d.Answers (.setPermissions path permissions) (.ok ()) d' := by
  obtain ⟨hne, henters⟩ := hx.leads fun text hlink => by
    rw [hlink] at hfile
    cases hfile
  obtain ⟨n, hn⟩ := henters.exists_enter_eq_ok
  obtain ⟨unique, fresh, -, -, hanswer⟩ := d.exists_answers n (.setPermissions path permissions)
  have hr : (d.perform n unique fresh (.setPermissions path permissions)).1 = .ok () := by
    change (d.chmod n path permissions).1 = .ok ()
    rw [chmod, resolve, found_of_node (follow_of_enter hne hn) hfile]
  rw [hr] at hanswer
  exact ⟨_, hanswer⟩

end Disk

/-! ### A run -/

section Run

variable {s : Disk × List SysCall} {sha256 : List UInt8 → String} {path target : String} {n : ℕ}

theorem exists_step {c : SysCall} {r : c.Answer} {d : Disk} (h : s.1.Answers c r d) :
    ∃ t, faulty s c r t ∧ t.1 = d :=
  ⟨(d, _), ⟨h, rfl⟩, rfl⟩

theorem ends_of_follows {d : Disk} {Q : String → Disk × List SysCall → Prop}
    {E : Error → Disk × List SysCall → Prop} (h : d.Follows n path target)
    (hmissing : d.Missing target) (hd : s.1 = d)
    (hends : Ends faulty s Q E (followFinalSymlinks n path)) : ∃ t, t.1 = d ∧ Q target t := by
  induction h generalizing s with
  | here n target =>
    obtain ⟨⟨e, hanswer, he⟩, -⟩ := hmissing.answers
    rw [← hd] at hanswer
    obtain ⟨t, ht, htd⟩ := exists_step hanswer
    rw [followFinalSymlinks] at hends
    have hrest := ends_attempt.mp (ends_bind.mp hends) (.error e) t ht
    rw [ensures_done] at hrest
    dsimp only at hrest
    rw [if_pos he] at hrest
    exact ⟨t, htd.trans hd, hrest⟩
  | @link n path q text next target hq hlink hnext h ih =>
    obtain ⟨⟨metadata, hanswer, hsymlink⟩, hread⟩ := answers_of_link hq hlink
    rw [← hd] at hanswer
    obtain ⟨t, ht, htd⟩ := exists_step hanswer
    rw [followFinalSymlinks] at hends
    have hrest := ends_attempt.mp (ends_bind.mp hends) (.ok metadata) t ht
    rw [ensures_done] at hrest
    dsimp only at hrest
    rw [if_neg (by rw [hsymlink]; exact Bool.false_ne_true)] at hrest
    rw [← htd.trans hd] at hread
    obtain ⟨u, hu, hud⟩ := exists_step hread
    have hlast := ends_io.mp (ends_bind.mp hrest) (.ok text) u hu
    rw [ensures_done] at hlast
    dsimp only at hlast
    rw [linkTarget] at hnext
    split_ifs at hnext with habsolute
    · rw [if_pos habsolute] at hlast
      obtain rfl := Option.some.inj hnext
      exact ih hmissing (hud.trans (htd.trans hd)) hlast
    · obtain ⟨par, hpar, rfl⟩ := Option.map_eq_some_iff.mp hnext
      rw [if_neg habsolute, hpar] at hlast
      exact ih hmissing (hud.trans (htd.trans hd)) hlast

theorem ends_of_missing {Q : Option String → Disk × List SysCall → Prop}
    {E : Error → Disk × List SysCall → Prop} {limit : ℕ} (hmissing : s.1.Missing target)
    (hends : Ends faulty s Q E (readableExistingHash sha256 target limit)) :
    ∃ t, t.1 = s.1 ∧ Q none t := by
  obtain ⟨-, e, hanswer, he⟩ := hmissing.answers
  obtain ⟨t, ht, htd⟩ := exists_step hanswer
  have hrest := ends_attempt.mp (ends_bind.mp hends) (.error e) t ht
  rw [ensures_done] at hrest
  dsimp only at hrest
  rw [if_pos he] at hrest
  exact ⟨t, htd, hrest⟩

/-- The path beside a target names a place in its directory. -/
theorem names_temporaryPath {d : Disk} {q : List String} {parent unique : String}
    (hq : d.Names target q) (hparent : Path.parent target = some parent)
    (hunique : '/' ∉ unique.toList) : ∃ x, d.Names (temporaryPath parent target unique) x := by
  obtain ⟨-, l, name, z, hsteps, henters, hdir, -⟩ := hq
  obtain ⟨par, hpar, habsolute, hz⟩ := Path.exists_parent hsteps
  obtain rfl := Option.some.inj (hparent.symm.trans hpar)
  obtain ⟨name', l', -, hsteps', habsolute', hz'⟩ :=
    exists_steps_temporaryPath hunique parent target
  refine ⟨name' :: z, ?_, l', name', z, hsteps', ?_, hdir, rfl⟩
  · intro hempty
    rw [hempty, show Path.steps "" = [] ++ [.stay] by decide] at hsteps'
    obtain ⟨-, hlast⟩ := List.append_inj' hsteps' rfl
    cases hlast
  · rw [origin, habsolute', habsolute, ← origin]
    exact hz' (hz hdir henters)

/-- A new file that takes the place of a link. -/
theorem ends_of_renamed {Q : Unit → Disk × List SysCall → Prop}
    {E : Error → Disk × List SysCall → Prop} {v : Disk × List SysCall} {q x : List String} {i : ℕ}
    {text temporary : String} (hq : s.1.Names target q) (hlink : s.1.node q = some (.link text))
    (hstaged : Staged s.1 temporary x i v.1)
    (hends : Ends faulty v Q E (io (sys (.rename temporary target)))) :
    ∃ t, s.1.Put t.1 q i ∧ Q () t := by
  have hqx : q ≠ x := by
    rintro rfl
    rw [hstaged.vacant] at hlink
    cases hlink
  have hput := hstaged.put
  have hq' := hq.mono hstaged.grows.1 hput.cwd
  obtain ⟨d', hrename⟩ := answers_of_put hstaged.names hput.node_self hq'
    ((hput.node_of_ne hqx).trans hlink)
  obtain ⟨w, hw, rfl⟩ := exists_step hrename
  obtain ⟨q', hq'', hput', -⟩ := hput.rename hstaged.vacant hstaged.names hrename
  obtain rfl := hq'.unique hq''
  exact ⟨w, hput', ends_io.mp hends (.ok ()) w hw⟩

/-- When no call fails, the new content takes the place of a link. -/
theorem ends_of_replaced {Q : Unit → Disk × List SysCall → Prop}
    {E : Error → Disk × List SysCall → Prop} {q : List String} {text parent unique : String}
    {data : List UInt8} {permissions : Option ℕ} {limit : ℕ} (hq : s.1.Names target q)
    (hlink : s.1.node q = some (.link text)) (hparent : Path.parent target = some parent)
    (hunused : s.1.Unused unique)
    (hends : Ends faulty s Q E (replaceContent sha256 (temporaryPath parent target unique) target
      data permissions .overwrite limit)) :
    ∃ t i, s.1.Put t.1 q i ∧ Q () t := by
  obtain ⟨x, hx⟩ := names_temporaryPath hq hparent hunused.1
  obtain ⟨i, d, hcreate⟩ := answers_of_vacant hx (node_eq_none_of_unused hunused hx)
  obtain ⟨t, ht, rfl⟩ := exists_step hcreate
  obtain ⟨x, hstaged, -⟩ := staged_of_createNew hcreate
  have hrest := ends_io.mp (ends_bind.mp hends) (.ok i) t ht
  -- the data are written
  obtain ⟨unique', fresh', -, -, hwrite⟩ := t.1.exists_answers 0 (.writeAll i data)
  obtain ⟨u, hu, hud⟩ := exists_step hwrite
  have hput := (hstaged.put.write hwrite).1
  rw [← hud] at hput
  have hrest := ends_io.mp (ends_bind.mp hrest) (.ok ()) u hu
  obtain ⟨unique', fresh', -, -, hsync⟩ := u.1.exists_answers 0 (.syncAll i)
  obtain ⟨v, hv, hvd⟩ := exists_step hsync
  change v.1 = u.1 at hvd
  rw [← hvd] at hput
  have hrest := ends_io.mp (ends_bind.mp hrest) (.ok ()) v hv
  rw [ensures_done] at hrest
  have hstaged := hstaged.congr hput
  cases permissions with
  | none =>
    obtain ⟨w, hw⟩ := ends_of_renamed hq hlink hstaged hrest
    exact ⟨w, i, hw⟩
  | some permissions =>
    -- the permissions are those of what the link leads to
    obtain ⟨d', hchmod⟩ := answers_of_chmod permissions hstaged.names hstaged.put.node_self
    obtain ⟨w, hw, rfl⟩ := exists_step hchmod
    have hrest := ends_io.mp (ends_bind.mp hrest) (.ok ()) w hw
    rw [ensures_done] at hrest
    obtain ⟨y, hy⟩ := ends_of_renamed hq hlink (hstaged.congr (hput.chmod hchmod).1) hrest
    exact ⟨y, i, hy⟩

end Run

section AllOrNothing

variable {sha256 : List UInt8 → String} {d : Disk} {path : String} {data : List UInt8}

/-- A target that strays: when no call fails, the write succeeds, and the path leads nowhere. -/
theorem not_allOrNothing_of_strays (mutationId : String) (readLimit : ℕ)
    (hstrays : d.Strays path) :
    ¬ AllOrNothing sha256 d mutationId path data true .overwrite readLimit := by
  intro hends
  obtain ⟨target, parent, links, m, q, text, hfollows, hmissing, hparent, hcreate, hq, hlink,
    hmeets⟩ := hstrays
  rw [AllOrNothing, writeFileAt.eq_def] at hends
  obtain ⟨s, hs, hends⟩ := ends_of_follows hfollows hmissing rfl (ends_bind.mp hends)
  rw [← hs] at hmissing
  obtain ⟨t, ht, hends⟩ := ends_of_missing hmissing (ends_bind.mp hends)
  have htd := ht.trans hs
  dsimp only at hends
  rw [if_neg (fun h => by cases h), hparent] at hends
  dsimp only at hends
  rw [if_pos rfl] at hends
  -- the directories are created
  obtain ⟨unique', fresh', -, -, hanswer⟩ := d.exists_answers links (.createDirAll parent)
  have hr : d.perform links unique' fresh' (.createDirAll parent) = (.ok (), m) := hcreate
  rw [hr, ← htd] at hanswer
  obtain ⟨u, hu, hum⟩ := exists_step hanswer
  have hends := ends_io.mp (ends_bind.mp hends) (.ok ()) u hu
  -- the permissions are those of what the target leads to, if it leads anywhere
  obtain ⟨unique', fresh', -, -, hmetadata⟩ := u.1.exists_answers links (.metadata target)
  obtain ⟨v, hv, hvu⟩ := exists_step hmetadata
  change v.1 = u.1 at hvu
  generalize (u.1.perform links unique' fresh' (.metadata target)).1 = metadata at hv
  have hends := ends_attempt.mp (ends_bind.mp hends) metadata v hv
  obtain ⟨unique, _, hunused, -, huuid⟩ := v.1.exists_answers 0 .newUuid
  obtain ⟨w, hw, hwv⟩ := exists_step huuid
  change w.1 = v.1 at hwv
  rw [← hwv] at hunused
  have hends := ends_lift.mp (ends_bind.mp hends) unique w hw
  have hwm : w.1 = m := hwv.trans (hvu.trans hum)
  have hwritten : Ends faulty w
      (fun _ t => ∃ m' q', Written d t.1 m' sha256 path data .overwrite .applied q')
      (fun _ _ => True) (replaceContent sha256 (temporaryPath parent target unique) target data
        (Except.toOption metadata |>.map Metadata.permissions) .overwrite readLimit) := by
    refine Ensures.mono (ends_lift.mp (ends_bind.mp hends)) fun r x hr => ?_
    cases r with
    | ok _ => exact hr
    | error e => trivial
  rw [← hwm] at hq hlink hmeets
  obtain ⟨x, i, hput, m', q', h⟩ := ends_of_replaced hq hlink
    (Option.filter_eq_some_iff.mp hparent).1 hunused hwritten
  -- the path goes through the link that was replaced
  have hleads := h.leads.2
  rw [origin_eq hput.cwd] at hleads
  exact hput.replaces.not_enters hmeets hleads

/-- **A write is all or nothing exactly when its target does not stray.** Whatever calls fail, and
whatever number of links the system follows: if the write fails, every file and link is as it was,
apart from a new file that could not be removed; if it succeeds, the path leads to a file with the
data, nothing else has changed, and a precondition held for what was replaced. -/
theorem allOrNothing_iff_not_strays (mutationId : String) (createParentDirectories : Bool)
    (mode : WriteFileMode) (readLimit : ℕ)
    (hclash : ∀ i, sha256 (d.files i).content = sha256 data → (d.files i).content = data) :
    AllOrNothing sha256 d mutationId path data createParentDirectories mode readLimit ↔
      ¬ (createParentDirectories = true ∧ mode = .overwrite ∧ d.Strays path) := by
  refine ⟨?_, allOrNothing_of_not_strays mutationId readLimit hclash⟩
  rintro h ⟨rfl, rfl, hstrays⟩
  exact not_allOrNothing_of_strays mutationId readLimit hstrays h

/-- A file that a path names is no link that strays. -/
theorem not_strays_of_file {q : List String} {i : ℕ} (hq : d.Names path q)
    (hfile : d.node q = some (.file i)) : ¬ d.Strays path := by
  rintro ⟨target, -, -, -, -, -, hfollows, hmissing, -⟩
  cases hfollows with
  | here n _ =>
    rw [hmissing.node_eq_none hq] at hfile
    cases hfile
  | link hq' hlink _ _ =>
    rw [hq.unique hq', hlink] at hfile
    cases hfile

end AllOrNothing

/-! ### An example -/

/-- A directory with a file, another directory and a link to it. -/
def linkedDisk : Disk where
  nodes := [⟨[], .dir⟩, ⟨["a"], .dir⟩, ⟨["b", "a"], .dir⟩, ⟨["f", "a"], .file 0⟩,
    ⟨["l", "a"], .link "b"⟩].toAList
  files := fun _ => ⟨[111, 108, 100], 420⟩
  cwd := []

/-- The hashes of two contents, of the file and of what is written. -/
def twoHashes (data : List UInt8) : String :=
  if data = [104, 105] then "8f434346648f6b96df89dda901c5176b10a6d83961dd3c1ac88b59b2dc327aa4"
  else "cba06b5736faf67e54b07b561eae94395e774c517a7d910a54369e1263ccfbd4"

theorem strays_linkedDisk : linkedDisk.Strays "/a/l/../missing/../l" := by
  have hsteps : Path.steps "/a/l/../missing/../l" =
      [.stay, .down "a", .down "l", .up, .down "missing", .up, .down "l"] := by decide
  have hdir : (linkedDisk.createDirAll 40 "/a/l/../missing/..").2.node ["a"] = some .dir := by rfl
  have hnamed : (linkedDisk.createDirAll 40 "/a/l/../missing/..").2.named 40 directoryError
      "/a/l/../missing/../l" = .ok ["l", "a"] := by rfl
  refine ⟨_, "/a/l/../missing/..", 40, (linkedDisk.createDirAll 40 "/a/l/../missing/..").2,
    ["l", "a"], "b", .here _ _, ⟨40, failureError .notFound, by rfl, rfl⟩, by decide,
    Prod.ext (by rfl) rfl, named_eq_ok hnamed,
    by rfl, ?_⟩
  rw [hsteps]
  refine .stay (by rfl) (.down (by rfl) (by decide) (fun text hlink => ?_)
    (.here hdir rfl (List.cons_ne_nil _ _)))
  have hsame : some FileNode.dir = some (FileNode.link text) := hdir.symm.trans hlink
  cases hsame

/-- An overwrite that succeeds and leaves a path that leads nowhere. -/
theorem not_allOrNothing_linkedDisk : ¬ AllOrNothing twoHashes linkedDisk "m"
    "/a/l/../missing/../l" [104, 105] true .overwrite 1024 :=
  not_allOrNothing_of_strays "m" 1024 strays_linkedDisk

/-- A write of the file in the directory. -/
theorem allOrNothing_linkedDisk : AllOrNothing twoHashes linkedDisk "m" "/a/f" [104, 105] true
    .overwrite 1024 := by
  have hne : twoHashes [111, 108, 100] ≠ twoHashes [104, 105] := by decide
  have hnamed : linkedDisk.named 40 directoryError "/a/f" = .ok ["f", "a"] := rfl
  refine (allOrNothing_iff_not_strays "m" true .overwrite 1024 fun _ h => absurd h hne).mpr
    fun h => not_strays_of_file (i := 0) (named_eq_ok hnamed) rfl h.2.2

end ExecutionProvider.Filesystem

import Mathlib.Data.String.Basic
import ExecutionProvider.Core.Text
import ExecutionProvider.Foundation.Occurrences
import ExecutionProvider.Foundation.Table
import ExecutionProvider.Foundation.Utf8

/-!
# Shell snapshots

A snapshot of a shell is its state, a script that restores it, and its environment. A capture
prints both, with a marker between them. For a command that starts from a snapshot the state is
put into variables of its environment, piece by piece, and the command is wrapped in a script that
puts the pieces together.

## Main definitions

* `parse`: the snapshot that a capture printed.
* `utf8Chunks`: a text in pieces of a limited size.
* `installState`: the environment and the script of a command that starts from a state.
* `captureOutput`: what a capture prints.
* `references`: the variables that a script expands, in order.

## Main results

* `parse_captureOutput`: a snapshot is read off what a capture prints.
* `utf8Chunks_spec`: the pieces make up the text.
* `snapshot_exact`: snapshots are exact.
-/

namespace ExecutionProvider.Runtime.ShellSnapshot

open String (utf8Len)

/-- What stands between the state and the environment in what a capture prints. -/
def sectionMarker : List UInt8 := "\x00PROCESS_EXECUTION_SNAPSHOT_ENV\x00".utf8

/-- The size of the largest piece of a state. -/
def envChunkBytes : ℕ := 48 * 1024

/-- What the names of the variables of a snapshot begin with. -/
def envPrefix : String := "__PROCESS_EXECUTION_SNAPSHOT_"

/-- The variable that holds the command. -/
def commandEnv : String := "__PROCESS_EXECUTION_SNAPSHOT_COMMAND"

/-- The size of the largest state. -/
structure ShellSnapshotConfig where
  maxStateBytes : ℕ

/-- The state and the environment of a shell. -/
structure Snapshot where
  env : Table String String
  state : String

/-! ### Reading a snapshot -/

/-- The variables that a shell sets for itself. -/
def shellVariables : List String := ["PWD", "OLDPWD", "SHLVL", "_"]

/-- The environment that records describe. -/
def readRecords (debug : String → String) (env : Table String String) :
    List (List UInt8) → Except String (Table String String)
  | [] => .ok env
  | record :: records =>
    if record = [] then readRecords debug env records
    else
      match record.idxOf? 61 with
      | none => .error "shell snapshot contained a malformed environment record"
      | some separator =>
        match String.ofUtf8? (record.take separator) with
        | none => .error "shell snapshot environment key was not UTF-8"
        | some key =>
          match String.ofUtf8? (record.drop (separator + 1)) with
          | none => .error ("shell snapshot environment value for " ++ debug key ++
              " was not UTF-8")
          | some value =>
            readRecords debug
              (if key = "" ∨ key ∈ shellVariables then env else env.insert key value) records

/-- The snapshot that a capture printed. -/
def parse (debug : String → String) (config : ShellSnapshotConfig) (bytes : List UInt8) :
    Except String Snapshot :=
  match List.nextMatch sectionMarker bytes 0 with
  | none => .error "shell snapshot response was malformed"
  | some marker =>
    match String.ofUtf8? (bytes.take marker) with
    | none => .error "shell snapshot state was not UTF-8"
    | some state =>
      if config.maxStateBytes < state.utf8ByteSize then
        .error ("shell snapshot state exceeded " ++ toString config.maxStateBytes ++ " bytes")
      else
        (readRecords debug ∅
          ((bytes.drop (marker + sectionMarker.length)).splitOn 0)).map fun env => ⟨env, state⟩

/-! ### Installing a state -/

/-- Whether a character begins, or the text ends, at a byte. -/
def isCharBoundary : List Char → ℕ → Bool
  | _, 0 => true
  | [], _ + 1 => false
  | c :: cs, n + 1 => c.utf8Size ≤ n + 1 && isCharBoundary cs (n + 1 - c.utf8Size)

/-- The last boundary up to a byte. -/
def floorBoundary (value : List Char) : ℕ → ℕ
  | 0 => 0
  | n + 1 => if isCharBoundary value (n + 1) then n + 1 else floorBoundary value n

/-- The text before a boundary, and the text behind it. -/
def splitAtByte : List Char → ℕ → List Char × List Char
  | [], _ => ([], [])
  | c :: cs, n =>
    if c.utf8Size ≤ n then
      let (chunk, rest) := splitAtByte cs (n - c.utf8Size)
      (c :: chunk, rest)
    else ([], c :: cs)

/-- The next piece of a text, and what remains. -/
def nextChunk (maxBytes : ℕ) (remaining : List Char) : Option (List Char × List Char) :=
  if remaining = [] then none
  else some (splitAtByte remaining (floorBoundary remaining (min (utf8Len remaining) maxBytes)))

/-- The pieces of a text. -/
def utf8Chunks (maxBytes : ℕ) : ℕ → List Char → Option (List String)
  | 0, _ => none
  | fuel + 1, remaining =>
    match nextChunk maxBytes remaining with
    | none => some []
    | some (chunk, rest) => (utf8Chunks maxBytes fuel rest).map (String.ofList chunk :: ·)

/-- The variable that holds a piece. -/
def chunkName (index : ℕ) : String := envPrefix ++ toString index

/-- An environment with pieces of a state, and their variables. -/
def placeChunks (env : Table String String) : ℕ → List String → Table String String × List String
  | _, [] => (env, [])
  | index, chunk :: chunks =>
    let (env, names) := placeChunks (env.insert (chunkName index) chunk) (index + 1) chunks
    (env, chunkName index :: names)

/-- A variable as a script expands it. -/
def expansion (name : String) : String := "$\x7b" ++ name ++ "\x7d"

/-- The script that puts the pieces in the given variables together, and runs the command. -/
def wrapper (names : List String) : String :=
  "__process_execution_snapshot_command=\"" ++ expansion commandEnv ++ "\"\nunset " ++ commandEnv ++
    "\n__process_execution_snapshot_state=\"" ++ String.join (names.map expansion) ++
    "\"\nunset " ++ String.intercalate " " names ++
    "\neval \"$__process_execution_snapshot_state\"\nunset __process_execution_snapshot_state\n" ++
    "eval \"$__process_execution_snapshot_command\""

/-- An environment with a command, and without the variables of another snapshot. -/
def placeCommand (env : Table String String) (script : String) : Table String String :=
  (env.retain fun key _ => !startsWith envPrefix key).insert commandEnv script

/-- The environment of a command that starts from a state, and its script. -/
def installState (fuel : ℕ) (env : Table String String) (state script : String) :
    Option (Table String String × String) :=
  (utf8Chunks envChunkBytes fuel state.toList).map fun chunks =>
    let placed := placeChunks (placeCommand env script) 0 chunks
    (placed.1, wrapper placed.2)

/-! ### What a capture prints -/

/-- A variable as a capture prints it, without the byte that ends it. -/
def environmentRecord (key value : String) : List UInt8 := key.utf8 ++ 61 :: value.utf8

/-- What a capture of a shell with the given state and environment prints. -/
def captureOutput (state : String) (env : Table String String) : List UInt8 :=
  state.utf8 ++ sectionMarker ++ env.entries.flatMap fun e => environmentRecord e.1 e.2 ++ [0]

/-- Whether a variable can be part of an environment. -/
structure IsVariable (key value : String) : Prop where
  key_ne : key ≠ ""
  separator_notMem : '=' ∉ key.toList
  nul_notMem_key : '\x00' ∉ key.toList
  nul_notMem_value : '\x00' ∉ value.toList

variable {debug : String → String} {key value : String}

theorem zero_mem_utf8_iff {s : String} : 0 ∈ s.utf8 ↔ '\x00' ∈ s.toList :=
  String.mem_utf8_iff (c := '\x00') (by decide)

theorem separator_mem_utf8_iff {s : String} : 61 ∈ s.utf8 ↔ '=' ∈ s.toList :=
  String.mem_utf8_iff (c := '=') (by decide)

theorem IsVariable.zero_notMem (h : IsVariable key value) :
    0 ∉ environmentRecord key value := by
  rw [environmentRecord, List.mem_append, List.mem_cons, zero_mem_utf8_iff, zero_mem_utf8_iff]
  rintro (hkey | heq | hvalue)
  · exact h.nul_notMem_key hkey
  · exact absurd heq (by decide)
  · exact h.nul_notMem_value hvalue

/-- The first separator of a record is the one behind the key. -/
theorem IsVariable.idxOf?_eq (h : IsVariable key value) :
    (environmentRecord key value).idxOf? 61 = some key.utf8.length :=
  List.idxOf?_append_cons (fun hmem => h.separator_notMem (separator_mem_utf8_iff.mp hmem)) _

/-- The record of a variable is read. -/
theorem IsVariable.readRecords_cons (h : IsVariable key value) (env : Table String String)
    (records : List (List UInt8)) :
    readRecords debug env (environmentRecord key value :: records) =
      readRecords debug (if key ∈ shellVariables then env else env.insert key value) records := by
  have hne : environmentRecord key value ≠ [] := List.append_ne_nil_of_right_ne_nil _ (by simp)
  have hkey : (environmentRecord key value).take key.utf8.length = key.utf8 := List.take_left
  have hvalue : (environmentRecord key value).drop (key.utf8.length + 1) = value.utf8 := by
    rw [environmentRecord, List.drop_length_add_append]
    rfl
  rw [readRecords, if_neg hne, h.idxOf?_eq]
  dsimp only
  rw [hkey, String.ofUtf8?_utf8]
  dsimp only
  rw [hvalue, String.ofUtf8?_utf8]
  simp only [h.key_ne, false_or]

/-- The records of variables with different names are read as these variables, without those that
a shell sets for itself. -/
theorem readRecords_map (debug : String → String) {l : List (Sigma fun _ : String => String)}
    (hn : l.NodupKeys) (h : ∀ e ∈ l, IsVariable e.1 e.2) (env : Table String String) :
    ∃ env', readRecords debug env (l.map (fun e => environmentRecord e.1 e.2) ++ [[]]) = .ok env' ∧
      ∀ k, env'.lookup k =
        if k ∈ shellVariables then env.lookup k else (l.dlookup k).or (env.lookup k) := by
  induction l generalizing env with
  | nil => exact ⟨env, rfl, fun k => by simp⟩
  | cons e l ih =>
    obtain ⟨key, value⟩ := e
    obtain ⟨hnot, hn⟩ := List.nodupKeys_cons.mp hn
    have hvar : IsVariable key value := h _ List.mem_cons_self
    obtain ⟨env', hread, hlookup⟩ := ih hn (fun e he => h e (List.mem_cons_of_mem _ he))
      (if key ∈ shellVariables then env else env.insert key value)
    refine ⟨env', by rw [List.map_cons, List.cons_append, hvar.readRecords_cons, hread],
      fun k => ?_⟩
    rw [hlookup]
    by_cases hk : k = key
    · subst hk
      have hnone : l.dlookup k = none := List.dlookup_eq_none.mpr hnot
      split_ifs with hshell <;> simp [hnone, List.dlookup_cons_eq]
    · rw [List.dlookup_cons_ne _ _ hk]
      split_ifs <;> simp [AList.lookup_insert_ne hk]

theorem sectionMarker_eq : sectionMarker = 0 :: sectionMarker.tail := rfl

/-- **A snapshot is read off what a capture prints.** -/
theorem parse_captureOutput {config : ShellSnapshotConfig} {state : String}
    {env : Table String String} (hstate : '\x00' ∉ state.toList)
    (hsize : state.utf8ByteSize ≤ config.maxStateBytes)
    (henv : ∀ k v, env.lookup k = some v → IsVariable k v) :
    ∃ snapshot, parse debug config (captureOutput state env) = .ok snapshot ∧
      snapshot.state = state ∧
      ∀ k, snapshot.env.lookup k = if k ∈ shellVariables then none else env.lookup k := by
  have hmarker : List.nextMatch sectionMarker (captureOutput state env) 0 =
      some state.utf8.length := by
    rw [captureOutput, sectionMarker_eq]
    exact List.nextMatch_of_notMem (fun hmem => hstate (zero_mem_utf8_iff.mp hmem)) _
  have hbefore : (captureOutput state env).take state.utf8.length = state.utf8 := by
    rw [captureOutput, List.append_assoc, List.take_left]
  have hbehind : (captureOutput state env).drop (state.utf8.length + sectionMarker.length) =
      env.entries.flatMap fun e => environmentRecord e.1 e.2 ++ [0] := by
    rw [captureOutput, ← List.length_append, List.drop_left]
  have hvars (e) (he : e ∈ env.entries) : IsVariable e.1 e.2 :=
    henv _ _ (AList.mem_lookup_iff.mpr he)
  have hsplit : (env.entries.flatMap fun e => environmentRecord e.1 e.2 ++ [0]).splitOn 0 =
      env.entries.map (fun e => environmentRecord e.1 e.2) ++ [[]] :=
    List.splitOn_flatMap_append_singleton fun e he => (hvars e he).zero_notMem
  obtain ⟨env', hread, hlookup⟩ := readRecords_map debug env.nodupKeys hvars ∅
  refine ⟨⟨env', state⟩, ?_, rfl, fun k => ?_⟩
  · rw [parse, hmarker]
    dsimp only
    rw [hbefore, String.ofUtf8?_utf8]
    dsimp only
    rw [if_neg (Nat.not_lt.mpr hsize), hbehind, hsplit, hread]
    rfl
  · rw [hlookup]
    simp [AList.lookup]

/-! ### Pieces -/

section Chunks

variable {value chunk rest : List Char} {m n maxBytes fuel : ℕ}

@[simp] theorem isCharBoundary_zero (value : List Char) : isCharBoundary value 0 = true := by
  cases value <;> rfl

theorem isCharBoundary_cons (c : Char) (value : List Char) (h : 0 < n) :
    isCharBoundary (c :: value) n =
      (c.utf8Size ≤ n && isCharBoundary value (n - c.utf8Size)) := by
  obtain ⟨n, rfl⟩ := Nat.exists_eq_succ_of_ne_zero (Nat.ne_of_gt h)
  rfl

theorem floorBoundary_succ (value : List Char) (n : ℕ) : floorBoundary value (n + 1) =
    if isCharBoundary value (n + 1) then n + 1 else floorBoundary value n := rfl

/-- A text ends at a boundary. -/
theorem isCharBoundary_floorBoundary (value : List Char) (n : ℕ) :
    isCharBoundary value (floorBoundary value n) = true := by
  induction n with
  | zero => exact isCharBoundary_zero value
  | succ n ih =>
    rw [floorBoundary_succ]
    split_ifs with h
    · exact h
    · exact ih

theorem floorBoundary_le (value : List Char) (n : ℕ) : floorBoundary value n ≤ n := by
  induction n with
  | zero => exact Nat.le_refl 0
  | succ n ih =>
    rw [floorBoundary_succ]
    split_ifs
    · exact Nat.le_refl _
    · omega

theorem le_floorBoundary (h : isCharBoundary value m = true) (hle : m ≤ n) :
    m ≤ floorBoundary value n := by
  induction n with
  | zero => exact hle
  | succ n ih =>
    rw [floorBoundary_succ]
    split_ifs with hn
    · exact hle
    · refine ih ?_
      have hne : m ≠ n + 1 := fun heq => hn (heq ▸ h)
      omega

theorem splitAtByte_append (value : List Char) (n : ℕ) :
    (splitAtByte value n).1 ++ (splitAtByte value n).2 = value := by
  induction value generalizing n with
  | nil => rfl
  | cons c value ih =>
    rw [splitAtByte]
    split_ifs
    · exact congrArg (c :: ·) (ih _)
    · rfl

/-- What stands before a boundary reaches up to it. -/
theorem utf8Len_splitAtByte (h : isCharBoundary value n = true) :
    utf8Len (splitAtByte value n).1 = n := by
  induction value generalizing n with
  | nil =>
    cases n with
    | zero => rfl
    | succ n => cases h
  | cons c value ih =>
    rcases Nat.eq_zero_or_pos n with rfl | hpos
    · rw [splitAtByte, if_neg (Nat.not_le.mpr c.utf8Size_pos)]
      rfl
    · rw [isCharBoundary_cons c value hpos, Bool.and_eq_true, decide_eq_true_eq] at h
      rw [splitAtByte, if_pos h.1]
      dsimp only
      rw [String.utf8Len_cons, ih h.2]
      omega

/-- A piece is not empty and not too large. -/
theorem nextChunk_spec (hmax : 4 ≤ maxBytes) (h : nextChunk maxBytes value = some (chunk, rest)) :
    chunk ≠ [] ∧ chunk ++ rest = value ∧ utf8Len chunk ≤ maxBytes := by
  rw [nextChunk, Option.ite_none_left_eq_some] at h
  obtain ⟨hne, h⟩ := h
  obtain ⟨rfl, rfl⟩ := Prod.ext_iff.mp (Option.some.inj h)
  have hlen := utf8Len_splitAtByte
    (isCharBoundary_floorBoundary value (min (utf8Len value) maxBytes))
  have hle := floorBoundary_le value (min (utf8Len value) maxBytes)
  refine ⟨fun hnil => ?_, splitAtByte_append _ _, by omega⟩
  -- The first character fits, and a boundary stands behind it.
  obtain ⟨c, cs, rfl⟩ := List.exists_cons_of_ne_nil hne
  have hboundary : isCharBoundary (c :: cs) c.utf8Size = true := by
    rw [isCharBoundary_cons c cs c.utf8Size_pos, Nat.sub_self, isCharBoundary_zero]
    simp
  have hfits : c.utf8Size ≤ min (utf8Len (c :: cs)) maxBytes := by
    have hfour := c.utf8Size_le_four
    rw [String.utf8Len_cons]
    omega
  have hfloor := le_floorBoundary hboundary hfits
  have hpos := c.utf8Size_pos
  rw [hnil, String.utf8Len_nil] at hlen
  omega

/-- The pieces of a text make up the text, and none is empty or too large. -/
theorem utf8Chunks_spec (hmax : 4 ≤ maxBytes) (hfuel : value.length < fuel) :
    ∃ chunks, utf8Chunks maxBytes fuel value = some chunks ∧
      (String.join chunks).toList = value ∧
      ∀ chunk ∈ chunks, chunk ≠ "" ∧ chunk.utf8ByteSize ≤ maxBytes := by
  induction fuel generalizing value with
  | zero => omega
  | succ fuel ih =>
    rw [utf8Chunks]
    cases hnext : nextChunk maxBytes value with
    | none =>
      rw [nextChunk, ite_eq_left_iff] at hnext
      have hnil : value = [] := by
        by_contra hne
        cases hnext hne
      exact ⟨[], rfl, hnil ▸ rfl, nofun⟩
    | some next =>
      obtain ⟨chunk, rest⟩ := next
      obtain ⟨hne, happend, hsize⟩ := nextChunk_spec hmax hnext
      have hpos := List.length_pos_iff.mpr hne
      have hlength : chunk.length + rest.length = value.length := by
        rw [← happend, List.length_append]
      obtain ⟨chunks, hchunks, hjoin, hall⟩ := ih (by omega : rest.length < fuel)
      refine ⟨String.ofList chunk :: chunks, by dsimp only; rw [hchunks]; rfl, ?_, ?_⟩
      · rw [String.join_cons, String.toList_append, hjoin, String.toList_ofList, happend]
      · intro chunk' hmem
        rcases List.mem_cons.mp hmem with rfl | hmem
        · refine ⟨fun heq => hne ?_, by rwa [String.utf8ByteSize_ofList]⟩
          rw [← String.toList_ofList (l := chunk), heq]
          rfl
        · exact hall chunk' hmem

end Chunks

/-! ### Variables -/

/-- The variables that a script expands, in order. A name that has begun is given in reverse. -/
def references : Option (List Char) → List Char → List String
  | none, '$' :: '\x7b' :: cs => references (some []) cs
  | none, _ :: cs => references none cs
  | some name, '\x7d' :: cs => String.ofList name.reverse :: references none cs
  | some name, c :: cs => references (some (c :: name)) cs
  | _, [] => []

section References

variable {pre rest : List Char} {name : String} {names : List String}

theorem references_open (cs : List Char) :
    references none ('$' :: '\x7b' :: cs) = references (some []) cs := rfl

theorem references_skip {c : Char} {cs : List Char} (h : c ≠ '$' ∨ cs.head? ≠ some '\x7b') :
    references none (c :: cs) = references none cs := by
  rw [references]
  rintro cs' rfl rfl
  exact h.elim (· rfl) (· rfl)

theorem references_close (begun cs : List Char) : references (some begun) ('\x7d' :: cs) =
    String.ofList begun.reverse :: references none cs := rfl

theorem references_push {c : Char} (h : c ≠ '\x7d') (begun cs : List Char) :
    references (some begun) (c :: cs) = references (some (c :: begun)) cs := by
  rw [references]
  exact h

/-- Nothing is expanded where no brace is opened. -/
theorem references_of_notMem (h : '\x7b' ∉ pre) (hlast : pre.getLast? ≠ some '$')
    (rest : List Char) : references none (pre ++ rest) = references none rest := by
  induction pre with
  | nil => rfl
  | cons c pre ih =>
    obtain ⟨-, hpre⟩ := not_or.mp (List.mem_cons.not.mp h)
    cases pre with
    | nil =>
      exact references_skip (.inl fun heq => hlast (congrArg some heq))
    | cons d pre =>
      have hd : (d :: pre ++ rest).head? ≠ some '\x7b' := fun heq =>
        hpre (Option.some.inj heq ▸ List.mem_cons_self)
      rw [List.getLast?_cons_cons] at hlast
      rw [List.cons_append, references_skip (.inr hd), ih hpre hlast]

theorem references_eq_nil {cs : List Char} (h : '\x7b' ∉ cs) : references none cs = [] := by
  induction cs with
  | nil => rfl
  | cons c cs ih =>
    obtain ⟨-, hcs⟩ := not_or.mp (List.mem_cons.not.mp h)
    have hhead : cs.head? ≠ some '\x7b' := fun heq => hcs (List.mem_of_mem_head? heq)
    rw [references_skip (.inr hhead), ih hcs]

/-- A name ends at the brace that closes it. -/
theorem references_some {cs : List Char} (h : '\x7d' ∉ cs) (begun rest : List Char) :
    references (some begun) (cs ++ '\x7d' :: rest) =
      String.ofList (begun.reverse ++ cs) :: references none rest := by
  induction cs generalizing begun with
  | nil => rw [List.nil_append, references_close, List.append_nil]
  | cons c cs ih =>
    obtain ⟨hc, hcs⟩ := not_or.mp (List.mem_cons.not.mp h)
    rw [List.cons_append, references_push (Ne.symm hc), ih hcs, List.reverse_cons,
      List.append_assoc, List.singleton_append]

theorem references_expansion (h : '\x7d' ∉ name.toList) (rest : List Char) :
    references none ((expansion name).toList ++ rest) = name :: references none rest := by
  have htext : (expansion name).toList ++ rest =
      '$' :: '\x7b' :: (name.toList ++ '\x7d' :: rest) := by
    rw [expansion, String.toList_append, String.toList_append, List.append_assoc,
      List.append_assoc]
    rfl
  rw [htext, references_open, references_some h]
  simp

theorem references_join (h : ∀ name ∈ names, '\x7d' ∉ name.toList) (rest : List Char) :
    references none ((String.join (names.map expansion)).toList ++ rest) =
      names ++ references none rest := by
  induction names with
  | nil => rfl
  | cons name names ih =>
    rw [List.map_cons, String.join_cons, String.toList_append, List.append_assoc,
      references_expansion (h name List.mem_cons_self),
      ih fun n hn => h n (List.mem_cons_of_mem _ hn)]
    rfl

/-- No brace stands in a list of names. -/
theorem notMem_intercalate (h : ∀ name ∈ names, '\x7b' ∉ name.toList) :
    '\x7b' ∉ (String.intercalate " " names).toList := by
  induction names with
  | nil => exact List.not_mem_nil
  | cons name names ih =>
    have hrest := ih fun n hn => h n (List.mem_cons_of_mem _ hn)
    cases names with
    | nil =>
      rw [String.toList_intercalate, List.map_singleton, List.intercalate_singleton]
      exact h name List.mem_cons_self
    | cons name' names =>
      rw [String.intercalate_cons_cons, String.toList_append, String.toList_append]
      simp only [List.mem_append, not_or]
      exact ⟨⟨h name List.mem_cons_self, by decide⟩, hrest⟩

/-- The wrapper expands the command, and then the pieces in their order. -/
theorem references_wrapper (hopen : ∀ name ∈ names, '\x7b' ∉ name.toList)
    (hclose : ∀ name ∈ names, '\x7d' ∉ name.toList) :
    references none (wrapper names).toList = commandEnv :: names := by
  unfold wrapper
  simp only [String.toList_append, List.append_assoc]
  refine (references_of_notMem (by decide) (by decide) _).trans ?_
  refine (references_expansion (by decide) _).trans (congrArg (commandEnv :: ·) ?_)
  refine (references_of_notMem (by decide) (by decide) _).trans ?_
  refine (references_of_notMem (by decide) (by decide) _).trans ?_
  refine (references_of_notMem (by decide) (by decide) _).trans ?_
  refine (references_join hclose _).trans ?_
  rw [references_eq_nil, List.append_nil]
  simp only [List.mem_append, not_or]
  exact ⟨by decide, notMem_intercalate hopen, by decide, by decide⟩

end References

theorem toList_chunkName (index : ℕ) :
    (chunkName index).toList = envPrefix.toList ++ Nat.toDigits 10 index := by
  rw [chunkName, String.toList_append]
  exact congrArg (envPrefix.toList ++ ·) Nat.toList_repr

theorem chunkName_injective : Function.Injective chunkName := by
  intro i j h
  have hdigits : Nat.toDigits 10 i = Nat.toDigits 10 j := by
    have hlist := congrArg String.toList h
    rwa [toList_chunkName, toList_chunkName, List.append_cancel_left_eq] at hlist
  rw [← Nat.ofDigitChars_toDigits (b := 10) (n := i) (by decide) (by decide), hdigits,
    Nat.ofDigitChars_toDigits (by decide) (by decide)]

/-- A character of the name of a piece belongs to the prefix, or is a digit. -/
theorem isDigit_of_mem_chunkName {c : Char} {index : ℕ} (hc : c ∈ (chunkName index).toList) :
    c ∈ envPrefix.toList ∨ c.isDigit := by
  rw [toList_chunkName, List.mem_append] at hc
  exact hc.imp_right (Nat.isDigit_of_mem_toDigits (by decide) (by decide))

theorem commandEnv_eq : commandEnv = envPrefix ++ "COMMAND" := rfl

theorem chunkName_ne_commandEnv (index : ℕ) : chunkName index ≠ commandEnv := by
  intro h
  have hdigits : "COMMAND".toList = Nat.toDigits 10 index := by
    have hlist := congrArg String.toList h
    rw [toList_chunkName, commandEnv_eq, String.toList_append,
      List.append_cancel_left_eq] at hlist
    exact hlist.symm
  have hmem : 'C' ∈ Nat.toDigits 10 index := hdigits ▸ (by decide : 'C' ∈ "COMMAND".toList)
  exact absurd (Nat.isDigit_of_mem_toDigits (by decide) (by decide) hmem) (by decide)

/-- The pieces are found under their names, and nothing else is changed. -/
theorem placeChunks_spec (env : Table String String) (index : ℕ) (chunks : List String) :
    (placeChunks env index chunks).2 = (List.range' index chunks.length).map chunkName ∧
      (placeChunks env index chunks).2.map (placeChunks env index chunks).1.lookup =
        chunks.map some ∧
      ∀ key ∉ (placeChunks env index chunks).2,
        (placeChunks env index chunks).1.lookup key = env.lookup key := by
  induction chunks generalizing env index with
  | nil => exact ⟨rfl, rfl, fun _ _ => rfl⟩
  | cons chunk chunks ih =>
    obtain ⟨hnames, hchunks, hothers⟩ := ih (env.insert (chunkName index) chunk) (index + 1)
    have hnot : chunkName index ∉
        (placeChunks (env.insert (chunkName index) chunk) (index + 1) chunks).2 := by
      rw [hnames, List.mem_map]
      rintro ⟨i, hi, heq⟩
      obtain rfl := chunkName_injective heq
      exact absurd (List.mem_range'_1.mp hi).1 (Nat.not_succ_le_self _)
    rw [placeChunks]
    dsimp only
    refine ⟨?_, ?_, fun key hkey => ?_⟩
    · rw [hnames, List.length_cons, List.range'_succ, List.map_cons]
    · rw [List.map_cons, hchunks, hothers _ hnot, AList.lookup_insert]
      rfl
    · obtain ⟨hne, hkey⟩ := not_or.mp (List.mem_cons.not.mp hkey)
      rw [hothers key hkey, AList.lookup_insert_ne hne]

theorem lookup_placeCommand {key script : String} {env : Table String String}
    (h : key ≠ commandEnv) : (placeCommand env script).lookup key =
      (env.lookup key).filter fun _ => !startsWith envPrefix key := by
  rw [placeCommand, AList.lookup_insert_ne h, Table.lookup_retain]

/-- What an environment and a script hold of a state and a command: the command is in its variable,
the other variables that the script expands hold the state, in their order, and there are no
variables of another snapshot. All other variables are those of the environment before. -/
structure Holds (before env : Table String String) (state script wrapper : String) : Prop where
  command : env.lookup commandEnv = some script
  state : ∃ names chunks, references none wrapper.toList = commandEnv :: names ∧
    names.map env.lookup = chunks.map some ∧ String.join chunks = state ∧
    ∀ chunk ∈ chunks, chunk.utf8ByteSize ≤ envChunkBytes
  stale : ∀ key, startsWith envPrefix key = true → key ∉ references none wrapper.toList →
    env.lookup key = none
  kept : ∀ key, startsWith envPrefix key = false → env.lookup key = before.lookup key

/-- A state is installed. -/
theorem installState_holds {fuel : ℕ} (before : Table String String) (state script : String)
    (hfuel : state.length < fuel) :
    ∃ env wrapper, installState fuel before state script = some (env, wrapper) ∧
      Holds before env state script wrapper := by
  have hlength : state.toList.length < fuel := by rwa [String.length_toList]
  obtain ⟨chunks, hchunks, hjoin, hall⟩ :=
    utf8Chunks_spec (by decide : 4 ≤ envChunkBytes) hlength
  obtain ⟨hnames, hplaced, hothers⟩ := placeChunks_spec (placeCommand before script) 0 chunks
  generalize hplace : placeChunks (placeCommand before script) 0 chunks = placed at *
  obtain ⟨env, names⟩ := placed
  dsimp only at hnames hplaced hothers
  have hname {name : String} (hmem : name ∈ names) : ∃ index, chunkName index = name := by
    obtain ⟨index, -, heq⟩ := List.mem_map.mp (hnames ▸ hmem)
    exact ⟨index, heq⟩
  have hbrace (c : Char) (hc : ¬(c ∈ envPrefix.toList ∨ c.isDigit)) (name) (hmem : name ∈ names) :
      c ∉ name.toList := by
    obtain ⟨index, rfl⟩ := hname hmem
    exact fun h => hc (isDigit_of_mem_chunkName h)
  have href : references none (wrapper names).toList = commandEnv :: names :=
    references_wrapper (hbrace _ (by decide)) (hbrace _ (by decide))
  refine ⟨env, wrapper names, by rw [installState, hchunks, Option.map_some, hplace], ?_⟩
  constructor
  case command =>
    have hnot : commandEnv ∉ names := by
      intro hmem
      obtain ⟨index, heq⟩ := hname hmem
      exact chunkName_ne_commandEnv index heq
    rw [hothers _ hnot, placeCommand, AList.lookup_insert]
  case state =>
    refine ⟨names, chunks, href, hplaced, String.toList_inj.mp hjoin, fun chunk hmem => ?_⟩
    exact (hall chunk hmem).2
  case stale =>
    intro key hkey hnot
    obtain ⟨hcommand, hnot⟩ := not_or.mp (List.mem_cons.not.mp (href ▸ hnot))
    rw [hothers key hnot, lookup_placeCommand hcommand, hkey]
    cases before.lookup key <;> rfl
  case kept =>
    intro key hkey
    have hstarts {k : String} (hk : ∃ t, k = envPrefix ++ t) : key ≠ k := by
      rintro rfl
      rw [startsWith_iff.mpr hk] at hkey
      cases hkey
    have hnot : key ∉ names := by
      intro hmem
      obtain ⟨index, heq⟩ := hname hmem
      exact hstarts ⟨_, heq.symm⟩ rfl
    rw [hothers key hnot, lookup_placeCommand (hstarts ⟨_, commandEnv_eq⟩), hkey]
    cases before.lookup key <;> rfl

/-- **Snapshots are exact.** What a capture prints is read as the state and the environment of the
shell, without the variables that a shell sets for itself. A state that is installed is what the
pieces make up in the order in which the script expands them. -/
theorem snapshot_exact (debug : String → String) {config : ShellSnapshotConfig} {state : String}
    {env : Table String String} (hstate : '\x00' ∉ state.toList)
    (hsize : state.utf8ByteSize ≤ config.maxStateBytes)
    (henv : ∀ k v, env.lookup k = some v → IsVariable k v) :
    (∃ snapshot, parse debug config (captureOutput state env) = .ok snapshot ∧
      snapshot.state = state ∧
      ∀ k, snapshot.env.lookup k = if k ∈ shellVariables then none else env.lookup k) ∧
    ∀ fuel > state.length, ∀ before script, ∃ env' wrapper,
      installState fuel before state script = some (env', wrapper) ∧
        Holds before env' state script wrapper :=
  ⟨parse_captureOutput hstate hsize henv, fun _ hfuel before script =>
    installState_holds before state script hfuel⟩

/-- A shell with a function, an alias, and a variable whose value has two lines. -/
theorem snapshot_exact_lines :
    (∃ snapshot, parse id ⟨16⟩ (captureOutput "alias l=ls\n"
        ((∅ : Table String String).insert "PATHS" "a=b\nc")) = .ok snapshot ∧
      snapshot.state = "alias l=ls\n" ∧
      ∀ k, snapshot.env.lookup k = if k ∈ shellVariables then none else
        ((∅ : Table String String).insert "PATHS" "a=b\nc").lookup k) ∧
    ∀ fuel > "alias l=ls\n".length, ∀ before script, ∃ env' wrapper,
      installState fuel before "alias l=ls\n" script = some (env', wrapper) ∧
        Holds before env' "alias l=ls\n" script wrapper := by
  refine snapshot_exact id (by decide) (by decide) fun k v h => ?_
  rw [Table.lookup_insert_eq_some] at h
  obtain ⟨rfl, rfl⟩ | ⟨-, h⟩ := h
  · exact ⟨by decide, by decide, by decide, by decide⟩
  · cases h

end ExecutionProvider.Runtime.ShellSnapshot

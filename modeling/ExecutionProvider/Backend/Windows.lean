import ExecutionProvider.Core.Error
import ExecutionProvider.Foundation.CommandLine

/-!
# Command lines on Windows

A process is launched with a command line in UTF-16: the name of the executable and its arguments,
each quoted for the C runtime. Only the last argument of a command interpreter that is told to
run a command stands between bare quotation marks. The service installer quotes paths in a
text, with a function of its own.

The executable of a launch was resolved before; whether it is a command interpreter is given.

## Main definitions

* `quote`, `commandLine`: the command line of a launch.
* `windowsQuote`: what the service installer writes.

## Main results

* `split_quoted`: the C runtime splits what was quoted into the arguments.
-/

namespace ExecutionProvider.Backend

/-- The characters with a meaning in a command line in UTF-16. -/
def wideSyntax : CommandLine.Syntax UInt16 where
  backslash := 92
  quote := 34
  space := 32
  tab := 9
  quote_ne_backslash := by decide
  space_ne_backslash := by decide
  space_ne_quote := by decide

/-- The characters with a meaning in a command line. -/
def charSyntax : CommandLine.Syntax Char where
  backslash := '\\'
  quote := '"'
  space := ' '
  tab := '\t'
  quote_ne_backslash := by decide
  space_ne_backslash := by decide
  space_ne_quote := by decide

/-- A text with the character that ends it, which must not occur in it. -/
def wide (value : List UInt16) : Result (List UInt16) :=
  if 0 ∈ value then .error (.invalid "process arguments contain a NUL character")
  else .ok (value ++ [0])

/-- White space and quotation marks. -/
def needsQuotes (ch : UInt16) : Bool :=
  ch = 9 || ch = 10 || ch = 11 || ch = 13 || ch = 32 || ch = 34

/-- An argument between quotation marks, unless it has no need of them. -/
def quote (value : List UInt16) : Result (List UInt16) :=
  (wide value).map fun value =>
    let value := value.dropLast
    if !value.isEmpty && !value.any needsQuotes then value else wideSyntax.quoted value

/-- An ASCII letter in lower case. -/
def lowercase (ch : UInt16) : UInt16 := if 65 ≤ ch && ch ≤ 90 then ch + 32 else ch

/-- Whether an argument tells a command interpreter to run a command. -/
def isRun (arg : List UInt16) : Bool := arg.map lowercase = [47, 99]

/-- The arguments of a command line, given whether the last of them is a command to be run. -/
def commandArgs (runs : Bool) : List (List UInt16) → Result (List UInt16)
  | [] => .ok []
  | arg :: args =>
    let text := if runs && args.isEmpty then
        (wide arg).map fun text => 34 :: text.takeWhile (· ≠ 0) ++ [34]
      else quote arg
    match text, commandArgs runs args with
    | .error e, _ => .error e
    | .ok _, .error e => .error e
    | .ok text, .ok rest => .ok (32 :: text ++ rest)

/-- The command line of a launch. -/
def commandLine (isCmd : Bool) (executable : List UInt16) (args : List (List UInt16)) :
    Result (List UInt16) :=
  match quote executable, commandArgs (isCmd && args.any isRun) args with
  | .error e, _ => .error e
  | .ok _, .error e => .error e
  | .ok name, .ok rest => .ok (name ++ rest ++ [0])

/-- A path between quotation marks, as the service installer writes it. -/
def windowsQuote (value : String) : String := String.ofList (charSyntax.quoted value.toList)

/-! ### Splitting what was quoted -/

/-- What an argument without NUL is written as. -/
def quoteText (value : List UInt16) : List UInt16 :=
  if !value.isEmpty && !value.any needsQuotes then value else wideSyntax.quoted value

theorem quote_eq_ok {value : List UInt16} (h : 0 ∉ value) :
    quote value = .ok (quoteText value) := by
  rw [quote, wide, if_neg h, Except.map, List.dropLast_concat]
  rfl

/-- An argument is read back from what it is written as. -/
theorem isQuoting_quoteText (arg : List UInt16) : wideSyntax.IsQuoting quoteText arg := by
  intro rest hrest
  rw [quoteText]
  split_ifs with hplain
  · obtain ⟨hne, hany⟩ := Bool.and_eq_true_iff.mp hplain
    refine CommandLine.Syntax.scan_plain hrest (by simpa using hne) fun c hc => ?_
    have hneeds : needsQuotes c = false := by
      have hall : arg.any needsQuotes = false := by simpa using hany
      simpa using List.any_eq_false.mp hall c hc
    simp only [needsQuotes, Bool.or_eq_false_iff, decide_eq_false_iff_not] at hneeds
    obtain ⟨⟨⟨⟨⟨htab, -⟩, -⟩, -⟩, hspace⟩, hquote⟩ := hneeds
    refine ⟨?_, hquote⟩
    simp [CommandLine.Syntax.isBlank, wideSyntax, hspace, htab]
  · exact CommandLine.Syntax.scan_quoted hrest arg

theorem commandArgs_eq_ok {args : List (List UInt16)} (h : ∀ arg ∈ args, 0 ∉ arg) :
    commandArgs false args = .ok (args.flatMap fun arg => 32 :: quoteText arg) := by
  induction args with
  | nil => rfl
  | cons arg args ih =>
    obtain ⟨harg, hargs⟩ := List.forall_mem_cons.mp h
    rw [commandArgs, ih hargs, Bool.false_and, if_neg Bool.false_ne_true, quote_eq_ok harg]
    rfl

/-- **Quoting and splitting.** Unless a command interpreter is told to run a command, a launch
whose name and arguments have no NUL character gets a command line, and what stands behind the
name in it is split into the arguments; so are the quoted arguments joined with blanks. The
quoting of the service installer has the same property. -/
theorem split_quoted :
    (∀ (isCmd : Bool) (executable : List UInt16) (args : List (List UInt16)), 0 ∉ executable →
      (∀ arg ∈ args, 0 ∉ arg) → (isCmd && args.any isRun) = false →
      ∃ name quoted rest, quote executable = .ok name ∧ args.mapM quote = .ok quoted ∧
        commandLine isCmd executable args = .ok (name ++ rest ++ [0]) ∧
        rest = quoted.flatMap (32 :: ·) ∧ wideSyntax.split rest = args ∧
        wideSyntax.split ([32].intercalate quoted) = args) ∧
    ∀ args : List String,
      charSyntax.split ((" ".intercalate (args.map windowsQuote)).toList) =
        args.map String.toList := by
  constructor
  · intro isCmd executable args hname hargs hcmd
    have hmap : args.mapM quote = .ok (args.map quoteText) := by
      induction args with
      | nil => rfl
      | cons arg args ih =>
        obtain ⟨harg, hargs'⟩ := List.forall_mem_cons.mp hargs
        have hcmd' : (isCmd && args.any isRun) = false := by
          cases isCmd
          · rfl
          · exact (Bool.or_eq_false_iff.mp hcmd).2
        rw [List.mapM_cons, quote_eq_ok harg, ih hargs' hcmd']
        rfl
    refine ⟨_, _, args.flatMap fun arg => 32 :: quoteText arg, quote_eq_ok hname, hmap,
      ?_, ?_, ?_, ?_⟩
    · rw [commandLine, quote_eq_ok hname, hcmd, commandArgs_eq_ok hargs]
    · rw [List.flatMap_map]
    · exact CommandLine.Syntax.split_flatMap fun arg _ => isQuoting_quoteText arg
    · exact CommandLine.Syntax.split_intercalate fun arg _ => isQuoting_quoteText arg
  · intro args
    have hquoting (arg : List Char) : charSyntax.IsQuoting charSyntax.quoted arg :=
      fun rest hrest => CommandLine.Syntax.scan_quoted hrest arg
    have hlist : (" ".intercalate (args.map windowsQuote)).toList =
        [charSyntax.space].intercalate ((args.map String.toList).map charSyntax.quoted) := by
      rw [String.toList_intercalate, List.map_map, List.map_map]
      refine congrArg _ (List.map_congr_left fun arg _ => ?_)
      exact String.toList_ofList
    rw [hlist]
    exact CommandLine.Syntax.split_intercalate fun arg _ => hquoting arg

/-- Two arguments, the first of which ends in a backslash behind a blank. -/
theorem split_quoted_backslash :
    ∃ name quoted rest, quote [97] = .ok name ∧ [[98, 32, 92], [34]].mapM quote = .ok quoted ∧
      commandLine false [97] [[98, 32, 92], [34]] = .ok (name ++ rest ++ [0]) ∧
      rest = quoted.flatMap (32 :: ·) ∧ wideSyntax.split rest = [[98, 32, 92], [34]] ∧
      wideSyntax.split ([32].intercalate quoted) = [[98, 32, 92], [34]] :=
  split_quoted.1 false [97] [[98, 32, 92], [34]] (by decide) (by decide) rfl

end ExecutionProvider.Backend

import Mathlib.Data.List.Basic

/-!
# Command lines and their arguments

The C runtime of Windows splits the command line of a process into arguments. Blanks and tabs
stand between arguments, except inside quotation marks. Backslashes stand for themselves unless a
quotation mark follows: then every two of them stand for one, and a backslash that is left over
makes the quotation mark a character of the argument. Inside quotation marks, two of them in a row
are one character as well.

An argument is quoted by doubling the backslashes before each quotation mark, those at its end
included, and putting one more before a quotation mark of its own. Splitting a command line of
quoted arguments gives the arguments back.

## Main definitions

* `Syntax`: the characters with a meaning.
* `Syntax.split`: the arguments of a command line.
* `Syntax.quoted`: an argument between quotation marks.

## Main results

* `split_flatMap`: splitting what was quoted.
-/

namespace CommandLine

/-- The characters with a meaning in a command line. -/
structure Syntax (α : Type*) where
  backslash : α
  quote : α
  space : α
  tab : α
  quote_ne_backslash : quote ≠ backslash
  space_ne_backslash : space ≠ backslash
  space_ne_quote : space ≠ quote

namespace Syntax

variable {α : Type*} [DecidableEq α] (S : Syntax α)

/-- Whether a character stands between arguments. -/
def isBlank (c : α) : Bool := c = S.space || c = S.tab

/-- A number of backslashes. -/
def slashes (n : ℕ) : List α := List.replicate n S.backslash

/-- The arguments of the rest of a command line, given the argument that was begun, whether a
quotation mark is open, and how many backslashes were read last. -/
def scan : Option (List α) → Bool → ℕ → List α → List (List α)
  | none, _, _, [] => []
  | some arg, _, n, [] => [arg ++ S.slashes n]
  | arg, isOpen, n, c :: cs =>
    if c = S.backslash then scan (some (arg.getD [])) isOpen (n + 1) cs
    else if c = S.quote then
      let read := arg.getD [] ++ S.slashes (n / 2)
      if n % 2 = 1 then scan (some (read ++ [S.quote])) isOpen 0 cs
      else
        match isOpen, cs with
        | true, d :: cs =>
          if d = S.quote then scan (some (read ++ [S.quote])) true 0 cs
          else scan (some read) false 0 (d :: cs)
        | _, cs => scan (some read) (!isOpen) 0 cs
    else if S.isBlank c && !isOpen then
      match arg with
      | none => scan none false 0 cs
      | some arg => (arg ++ S.slashes n) :: scan none false 0 cs
    else scan (some (arg.getD [] ++ S.slashes n ++ [c])) isOpen 0 cs

/-- The arguments of a command line. -/
def split (line : List α) : List (List α) := S.scan none false 0 line

/-- The characters of an argument between quotation marks, given how many backslashes stand
before them. -/
def escape : ℕ → List α → List α
  | n, [] => S.slashes (n * 2)
  | n, c :: cs =>
    if c = S.backslash then escape (n + 1) cs
    else S.slashes (if c = S.quote then n * 2 + 1 else n) ++ c :: escape 0 cs

/-- An argument between quotation marks. -/
def quoted (arg : List α) : List α := S.quote :: S.escape 0 arg ++ [S.quote]

variable {S}

omit [DecidableEq α] in
theorem slashes_add (m n : ℕ) : S.slashes (m + n) = S.slashes m ++ S.slashes n :=
  List.replicate_add m n S.backslash

omit [DecidableEq α] in
@[simp] theorem slashes_zero : S.slashes 0 = [] := rfl

/-! ### What single characters do -/

section Scan

variable {arg rest : List α} {isOpen : Bool} {n : ℕ}

/-- What a character does. -/
theorem scan_cons (arg : Option (List α)) (isOpen : Bool) (n : ℕ) (c : α) (cs : List α) :
    S.scan arg isOpen n (c :: cs) =
      if c = S.backslash then S.scan (some (arg.getD [])) isOpen (n + 1) cs
      else if c = S.quote then
        let read := arg.getD [] ++ S.slashes (n / 2)
        if n % 2 = 1 then S.scan (some (read ++ [S.quote])) isOpen 0 cs
        else
          match isOpen, cs with
          | true, d :: cs =>
            if d = S.quote then S.scan (some (read ++ [S.quote])) true 0 cs
            else S.scan (some read) false 0 (d :: cs)
          | _, cs => S.scan (some read) (!isOpen) 0 cs
      else if S.isBlank c && !isOpen then
        match arg with
        | none => S.scan none false 0 cs
        | some arg => (arg ++ S.slashes n) :: S.scan none false 0 cs
      else S.scan (some (arg.getD [] ++ S.slashes n ++ [c])) isOpen 0 cs := by
  cases arg with
  | none => rw [scan]
  | some arg => rw [scan]

/-- Backslashes are counted. -/
theorem scan_slashes (k : ℕ) :
    S.scan (some arg) isOpen n (S.slashes k ++ rest) = S.scan (some arg) isOpen (n + k) rest := by
  induction k generalizing n with
  | zero => rfl
  | succ k ih =>
    have hcons : S.slashes (k + 1) ++ rest = S.backslash :: (S.slashes k ++ rest) := rfl
    rw [hcons, scan_cons, if_pos rfl, Option.getD_some, ih, Nat.add_assoc, Nat.add_comm 1]

/-- A quotation mark behind an odd number of backslashes is a character. -/
theorem scan_quote_odd :
    S.scan (some arg) isOpen (n * 2 + 1) (S.quote :: rest) =
      S.scan (some (arg ++ S.slashes n ++ [S.quote])) isOpen 0 rest := by
  have hdiv : (n * 2 + 1) / 2 = n := by omega
  have hmod : (n * 2 + 1) % 2 = 1 := by omega
  rw [scan_cons, if_neg S.quote_ne_backslash, if_pos rfl, hdiv, if_pos hmod, Option.getD_some]

/-- A quotation mark behind an even number of backslashes closes, unless another one follows. -/
theorem scan_quote_even (hrest : rest.head? ≠ some S.quote) :
    S.scan (some arg) true (n * 2) (S.quote :: rest) =
      S.scan (some (arg ++ S.slashes n)) false 0 rest := by
  have hdiv : n * 2 / 2 = n := by omega
  have hmod : ¬ n * 2 % 2 = 1 := by omega
  rw [scan_cons, if_neg S.quote_ne_backslash, if_pos rfl, hdiv, if_neg hmod, Option.getD_some]
  cases rest with
  | nil => rfl
  | cons d rest => exact if_neg fun h => hrest (congrArg some h)

/-- Any other character inside quotation marks is one of the argument. -/
theorem scan_open {c : α} (hb : c ≠ S.backslash) (hq : c ≠ S.quote) :
    S.scan (some arg) true n (c :: rest) =
      S.scan (some (arg ++ S.slashes n ++ [c])) true 0 rest := by
  rw [scan_cons, if_neg hb, if_neg hq, Bool.not_true, Bool.and_false, if_neg Bool.false_ne_true,
    Option.getD_some]

/-- Blanks before an argument are skipped. -/
theorem scan_space : S.scan none false 0 (S.space :: rest) = S.scan none false 0 rest := by
  have hblank : (S.isBlank S.space && !false) = true := by simp [isBlank]
  rw [scan_cons, if_neg S.space_ne_backslash, if_neg S.space_ne_quote, if_pos hblank]

/-- A blank ends an argument. -/
theorem scan_end (hrest : ∀ c ∈ rest.head?, c = S.space) :
    S.scan (some arg) false n rest = (arg ++ S.slashes n) :: S.scan none false 0 rest := by
  cases rest with
  | nil => rfl
  | cons c rest =>
    obtain rfl : c = S.space := hrest c rfl
    have hblank : (S.isBlank S.space && !false) = true := by simp [isBlank]
    rw [scan_space, scan_cons, if_neg S.space_ne_backslash, if_neg S.space_ne_quote, if_pos hblank]

end Scan

/-! ### Quoted arguments -/

section Quoted

variable {rest : List α}

/-- Reading an argument that is escaped. The induction is on its characters, given the backslashes
that were read last. -/
theorem scan_escape (hrest : rest.head? ≠ some S.quote) (arg : List α) (n : ℕ) (v : List α) :
    S.scan (some arg) true 0 (S.escape n v ++ S.quote :: rest) =
      S.scan (some (arg ++ S.slashes n ++ v)) false 0 rest := by
  induction v generalizing arg n with
  | nil => rw [escape, scan_slashes, Nat.zero_add, scan_quote_even hrest, List.append_nil]
  | cons c v ih =>
    by_cases hb : c = S.backslash
    · have hslashes : S.slashes (n + 1) ++ v = S.slashes n ++ c :: v := by
        rw [slashes_add, hb, List.append_assoc]
        rfl
      rw [escape, if_pos hb, ih, List.append_assoc, hslashes, List.append_assoc]
    · rw [escape, if_neg hb, List.append_assoc, List.cons_append]
      by_cases hq : c = S.quote
      · rw [if_pos hq, scan_slashes, Nat.zero_add, hq, scan_quote_odd, ih]
        simp
      · rw [if_neg hq, scan_slashes, Nat.zero_add, scan_open hb hq, ih]
        simp

/-- Reading an argument between quotation marks. -/
theorem scan_quoted (hrest : ∀ c ∈ rest.head?, c = S.space) (arg : List α) :
    S.scan none false 0 (S.quoted arg ++ rest) = arg :: S.scan none false 0 rest := by
  have hquote : rest.head? ≠ some S.quote := fun h => S.space_ne_quote (hrest _ h).symm
  have hopen : S.scan none false 0 (S.quoted arg ++ rest) =
      S.scan (some []) true 0 (S.escape 0 arg ++ S.quote :: rest) := by
    rw [quoted, List.append_assoc, List.cons_append, scan_cons, if_neg S.quote_ne_backslash,
      if_pos rfl]
    rfl
  rw [hopen, scan_escape hquote, scan_end hrest]
  simp

/-- Reading an argument that needs no quotation marks. -/
theorem scan_plain (hrest : ∀ c ∈ rest.head?, c = S.space) {arg : List α} (hne : arg ≠ [])
    (hplain : ∀ c ∈ arg, S.isBlank c = false ∧ c ≠ S.quote) :
    S.scan none false 0 (arg ++ rest) = arg :: S.scan none false 0 rest := by
  -- what was read, with the backslashes counted last, is a part of the argument
  have hscan (v : List α) (hv : ∀ c ∈ v, S.isBlank c = false ∧ c ≠ S.quote) (read : List α)
      (n : ℕ) :
      S.scan (some read) false n (v ++ rest) =
        (read ++ S.slashes n ++ v) :: S.scan none false 0 rest := by
    induction v generalizing read n with
    | nil => rw [List.nil_append, scan_end hrest, List.append_nil]
    | cons c v ih =>
      obtain ⟨⟨hblank, hq⟩, hv⟩ := List.forall_mem_cons.mp hv
      rw [List.cons_append, scan_cons]
      by_cases hb : c = S.backslash
      · rw [if_pos hb, Option.getD_some, ih hv, slashes_add, hb]
        simp [slashes]
      · rw [if_neg hb, if_neg hq, hblank, Bool.false_and, if_neg Bool.false_ne_true,
          Option.getD_some, ih hv]
        simp
  obtain ⟨c, v, rfl⟩ := List.exists_cons_of_ne_nil hne
  obtain ⟨⟨hblank, hq⟩, hv⟩ := List.forall_mem_cons.mp hplain
  rw [List.cons_append, scan_cons]
  by_cases hb : c = S.backslash
  · rw [if_pos hb, hscan v hv, hb]
    rfl
  · rw [if_neg hb, if_neg hq, hblank, Bool.false_and, if_neg Bool.false_ne_true, hscan v hv]
    simp

end Quoted

/-! ### Command lines -/

/-- A way of writing arguments that is read back before a blank and at the end of the line. -/
def IsQuoting (S : Syntax α) (write : List α → List α) (arg : List α) : Prop :=
  ∀ rest : List α, (∀ c ∈ rest.head?, c = S.space) →
    S.scan none false 0 (write arg ++ rest) = arg :: S.scan none false 0 rest

/-- **Splitting a command line.** Arguments that were quoted, each behind a blank, are split
into themselves. -/
theorem split_flatMap {write : List α → List α} {args : List (List α)}
    (h : ∀ arg ∈ args, S.IsQuoting write arg) :
    S.split (args.flatMap fun arg => S.space :: write arg) = args := by
  induction args with
  | nil => rfl
  | cons arg args ih =>
    have hrest : ∀ c ∈ (args.flatMap fun arg => S.space :: write arg).head?, c = S.space := by
      intro c hc
      cases args with
      | nil => cases hc
      | cons arg' args => exact (Option.some.inj hc).symm
    rw [split, List.flatMap_cons, List.cons_append, scan_space,
      h arg List.mem_cons_self _ hrest]
    exact congrArg (arg :: ·) (ih fun arg' h' => h arg' (List.mem_cons_of_mem _ h'))

/-- Arguments that were quoted and joined with blanks are split into themselves. -/
theorem split_intercalate {write : List α → List α} {args : List (List α)}
    (h : ∀ arg ∈ args, S.IsQuoting write arg) :
    S.split ([S.space].intercalate (args.map write)) = args := by
  cases args with
  | nil => rfl
  | cons arg args =>
    have hjoin (l : List α) (ls : List (List α)) :
        S.space :: [S.space].intercalate ((l :: ls).map write) =
          (l :: ls).flatMap fun arg => S.space :: write arg := by
      induction ls generalizing l with
      | nil => simp
      | cons l' ls ih =>
        rw [List.map_cons, List.map_cons, List.intercalate_cons_cons, List.flatMap_cons,
          ← ih l', List.map_cons]
        simp
    have hflat := split_flatMap h
    rwa [← hjoin, split, scan_space] at hflat

end Syntax

end CommandLine

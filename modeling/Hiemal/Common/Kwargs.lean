import Hiemal.Foundation.MachineInteger
import Hiemal.Foundation.MaximalRuns
import Mathlib.Logic.Function.Basic

/-!
# Keyword arguments

Translation of `next_arg` and `kwargs_unpack` of `core/common.c`. A pointer into a
string is given by the characters from there to the terminator, so that the
terminator is read where the list is empty; a function is `none` when it reads
past it, or past the last argument.

The keys of a format string are the maximal runs of identifier characters in it;
`next_arg` goes from one to the next, and stays within the string exactly if there
is one at all.
-/

namespace Hiemal

open Foundation

/-- `isvarchar`, in the C locale. -/
def isvarchar (char : Char) : Bool :=
  char.isAlphanum || char == '_'

/-- The characters of `delim_opt`: what begins the optional arguments, and what
ends them. -/
structure DelimOpt where
  opening : Char
  closing : Char

/-- `"()"`. -/
def defaultDelimOpt : DelimOpt where
  opening := '('
  closing := ')'

/-- `if (*next == delim_opt[0]) *optional = true; else if (*next == delim_opt[1])
*optional = false;` -/
def DelimOpt.update (delimOpt : DelimOpt) (char : Char) (optional : Bool) : Bool :=
  if char = delimOpt.opening then true
  else if char = delimOpt.closing then false
  else optional

/-! ## Scanning -/

/-- The first loop of `next_arg`, which does not ask for the terminator. -/
def skipLeading (delimOpt : DelimOpt) :
    (next : List Char) → (optional : Bool) → Option (List Char × Bool)
  | [], _ => none
  | char :: next, optional =>
      if isvarchar char then some (char :: next, optional)
      else skipLeading delimOpt next (delimOpt.update char optional)

/-- The loop over the characters of a key, with their number. -/
def skipKey (delim : Char) :
    (next : List Char) → (arglen : Nat) → List Char × Nat
  | [], arglen => ([], arglen)
  | char :: next, arglen =>
      if isvarchar char ∧ char ≠ delim then skipKey delim next (arglen + 1)
      else (char :: next, arglen)

/-- The loop over the characters behind a key. -/
def skipDelimiters (delimOpt : DelimOpt) :
    (next : List Char) → (optional : Bool) → List Char × Bool
  | [], optional => ([], optional)
  | char :: next, optional =>
      if isvarchar char then (char :: next, optional)
      else skipDelimiters delimOpt next (delimOpt.update char optional)

/-- The loop that looks for another key. -/
def scanEnd : (ending : List Char) → (lastArg : Bool) → Bool
  | [], lastArg => lastArg
  | char :: ending, lastArg =>
      scanEnd ending (if isvarchar char then false else lastArg)

/-- What `next_arg` returns, and what it leaves in `*arglen` and `*optional`. -/
structure NextArg where
  next : Option (List Char)
  arglen : Int
  optional : Bool
  deriving DecidableEq

/-- `next_arg`; `none` for `delim_opt` stands for `NULL`. -/
def nextArg
    (str : List Char)
    (delim : Char)
    (delimOpt : Option DelimOpt)
    (optional : Bool) : Option NextArg :=
  let delim := if delim = Char.ofNat 0 then ';' else delim
  let delimOpt := delimOpt.getD defaultDelimOpt
  if ¬str.head?.any isvarchar then do
    let (next, optional) ← skipLeading delimOpt str optional
    return { next := some next, arglen := -1, optional := optional }
  else
    let (next, arglen) := skipKey delim str 0
    let (next, optional) := skipDelimiters delimOpt next optional
    some
      { next := if scanEnd next true then none else some next
        -- the difference of the pointers, as an `int`
        arglen := toSigned 32 arglen
        optional := optional }

/-! ## Unpacking -/

/-- `kwargs_t`, for pointers of any type. -/
structure Kwargs (Value : Type) where
  argc : Nat
  argNames : List (List Char)
  args : List Value
  length_argNames : argNames.length = argc
  length_args : args.length = argc

/-- The loop that compares a key with the argument names, up to the first equal
one. -/
def Kwargs.lookup {Value : Type} (kwargs : Kwargs Value) (key : List Char) :
    Option Value :=
  ((kwargs.argNames.zip kwargs.args).find? fun entry => key = entry.1).map
    Prod.snd

/-- The table with its pointers taken as values of another type. -/
def Kwargs.map
    {Value Other : Type}
    (f : Value → Other)
    (kwargs : Kwargs Value) : Kwargs Other where
  argc := kwargs.argc
  argNames := kwargs.argNames
  args := kwargs.args.map f
  length_argNames := kwargs.length_argNames
  length_args := by rw [List.length_map, kwargs.length_args]

/-- The address of a pointer that an argument is stored in. -/
abbrev ArgAddress := Nat

section Unpacking

variable {Value : Type}

/-- The loop of `kwargs_unpack`. The rest of the variable arguments are the
addresses of the pointers still to be stored, and `m` holds the pointers. -/
def kwargsLoop (kwargs : Kwargs Value) :
    (fuel : Nat) → (fmtItr : Option (List Char)) → (opt : Bool) →
      (vars : List ArgAddress) → (m : ArgAddress → Value) →
        Option ((ArgAddress → Value) × Int)
  | _, none, _, _, m => some (m, 0)
  | 0, some _, _, _, _ => none
  | fuel + 1, some fmtItr, opt, vars, m => do
      let result ← nextArg fmtItr ';' none opt
      if result.arglen < 1 then
        kwargsLoop kwargs fuel result.next result.optional vars m
      else
        match vars with
        | [] => none
        | argItr :: vars =>
            let key := fmtItr.take result.arglen.toNat
            match kwargs.lookup key with
            | some arg =>
                kwargsLoop kwargs fuel result.next result.optional vars
                  (Function.update m argItr arg)
            | none =>
                -- the flag from before the key was scanned
                if opt then
                  kwargsLoop kwargs fuel result.next result.optional vars m
                else some (m, -1)

def kwargsUnpack
    (kwargs : Kwargs Value)
    (fuel : Nat)
    (fmt : List Char)
    (vars : List ArgAddress)
    (m : ArgAddress → Value) : Option ((ArgAddress → Value) × Int) :=
  kwargsLoop kwargs fuel (some fmt) false vars m

end Unpacking

/-! ## The keys of a format string -/

/-- A key of a format string. -/
structure Key where
  name : List Char
  optional : Bool
  deriving DecidableEq

/-- The last parenthesis, if there is one, is an opening one. -/
def opensOptional (before : List Char) : Bool :=
  (before.filter fun char => char = '(' ∨ char = ')').getLast? = some '('

/-- A run of identifier characters as a key. -/
def Key.ofRun (run : List Char × List Char) : Key where
  name := run.2
  optional := opensOptional run.1

/-- The keys of a format string, in order. -/
def formatKeys (fmt : List Char) : List Key :=
  (maximalRuns isvarchar fmt).map Key.ofRun

example : formatKeys "(a;ph;)arg".toList =
    [⟨['a'], true⟩, ⟨['p', 'h'], true⟩, ⟨['a', 'r', 'g'], false⟩] := by
  decide

/-! ## What scanning finds -/

section Scanning

variable {lead key gap next : List Char}

/-- The flag after some characters. -/
def DelimOpt.scan (delimOpt : DelimOpt) (chars : List Char) (optional : Bool) :
    Bool :=
  chars.foldl (fun optional char => delimOpt.update char optional) optional

theorem skipLeading_eq
    (delimOpt : DelimOpt)
    (outside : ∀ char ∈ lead, isvarchar char = false)
    (next : List Char)
    (optional : Bool) :
    skipLeading delimOpt (lead ++ next) optional =
      skipLeading delimOpt next (delimOpt.scan lead optional) := by
  induction lead generalizing optional with
  | nil => rfl
  | cons char lead inductionHypothesis =>
      rw [List.forall_mem_cons] at outside
      rw [List.cons_append, skipLeading, outside.1, if_neg Bool.false_ne_true,
        inductionHypothesis outside.2]
      rfl

theorem skipDelimiters_eq
    (delimOpt : DelimOpt)
    (outside : ∀ char ∈ gap, isvarchar char = false)
    (ends : ∀ char ∈ next.head?, isvarchar char)
    (optional : Bool) :
    skipDelimiters delimOpt (gap ++ next) optional =
      (next, delimOpt.scan gap optional) := by
  induction gap generalizing optional with
  | nil =>
      cases next with
      | nil => rfl
      | cons char next =>
          rw [List.nil_append, skipDelimiters, if_pos (ends char rfl)]
          rfl
  | cons char gap inductionHypothesis =>
      rw [List.forall_mem_cons] at outside
      rw [List.cons_append, skipDelimiters, outside.1,
        if_neg Bool.false_ne_true, inductionHypothesis outside.2]
      rfl

theorem skipKey_eq
    {delim : Char}
    (inside : ∀ char ∈ key, isvarchar char ∧ char ≠ delim)
    (ends : ∀ char ∈ next.head?, isvarchar char = false)
    (arglen : Nat) :
    skipKey delim (key ++ next) arglen = (next, arglen + key.length) := by
  induction key generalizing arglen with
  | nil =>
      cases next with
      | nil => simp [skipKey]
      | cons char next => simp [skipKey, ends char rfl]
  | cons char key inductionHypothesis =>
      rw [List.forall_mem_cons] at inside
      rw [List.cons_append, skipKey, if_pos inside.1,
        inductionHypothesis inside.2, List.length_cons, Nat.add_right_comm,
        Nat.add_assoc]

theorem scanEnd_eq (ending : List Char) (lastArg : Bool) :
    scanEnd ending lastArg = (lastArg && !ending.any isvarchar) := by
  induction ending generalizing lastArg with
  | nil => simp [scanEnd]
  | cons char ending inductionHypothesis =>
      rw [scanEnd, inductionHypothesis, List.any_cons]
      cases isvarchar char <;> simp

/-- The default delimiters are no identifier characters. -/
theorem isvarchar_delimiters {char : Char} (inside : isvarchar char) :
    char ≠ ';' ∧ char ≠ '(' ∧ char ≠ ')' := by
  refine ⟨?_, ?_, ?_⟩ <;>
  · rintro rfl
    exact absurd inside (by decide)

/-- At a key, with a gap behind it: the key is measured, and the gap is scanned. -/
theorem nextArg_key
    (nonempty : key ≠ [])
    (inside : ∀ char ∈ key, isvarchar char)
    (outside : ∀ char ∈ gap, isvarchar char = false)
    (separated : gap = [] → next = [])
    (ends : ∀ char ∈ next.head?, isvarchar char)
    (optional : Bool) :
    nextArg (key ++ gap ++ next) ';' none optional =
      some
        { next := if next = [] then none else some next
          arglen := toSigned 32 key.length
          optional := defaultDelimOpt.scan gap optional } := by
  have atKey : (key ++ gap ++ next).head?.any isvarchar := by
    obtain ⟨first, key, rfl⟩ := List.exists_cons_of_ne_nil nonempty
    exact inside first List.mem_cons_self
  have behind := head?_gap outside separated
  have apart : ∀ char ∈ key, isvarchar char ∧ char ≠ ';' := fun char member =>
    ⟨inside char member, (isvarchar_delimiters (inside char member)).1⟩
  have measured := skipKey_eq apart behind 0
  have last : scanEnd next true = decide (next = []) := by
    rw [scanEnd_eq]
    cases next with
    | nil => rfl
    | cons char next => simp [ends char rfl]
  have scanned :=
    skipDelimiters_eq defaultDelimOpt outside ends optional
  have separator : ';' ≠ Char.ofNat 0 := by decide
  rw [List.append_assoc] at atKey ⊢
  simp only [nextArg, atKey, not_true_eq_false, if_false, Option.getD_none,
    measured, scanned, last, Nat.zero_add, decide_eq_true_eq,
    if_neg separator]

/-- Before the first key: everything up to it is scanned. -/
theorem nextArg_leading
    (nonempty : lead ≠ [])
    (outside : ∀ char ∈ lead, isvarchar char = false)
    (found : next ≠ [])
    (ends : ∀ char ∈ next.head?, isvarchar char)
    (optional : Bool) :
    nextArg (lead ++ next) ';' none optional =
      some
        { next := some next
          arglen := -1
          optional := defaultDelimOpt.scan lead optional } := by
  have notAtKey : ¬(lead ++ next).head?.any isvarchar := by
    obtain ⟨first, lead, rfl⟩ := List.exists_cons_of_ne_nil nonempty
    simp [outside first List.mem_cons_self]
  obtain ⟨first, next, rfl⟩ := List.exists_cons_of_ne_nil found
  have scanned :
      skipLeading defaultDelimOpt (lead ++ first :: next) optional =
        some (first :: next, defaultDelimOpt.scan lead optional) := by
    rw [skipLeading_eq defaultDelimOpt outside, skipLeading, if_pos (ends first rfl)]
  simp only [nextArg]
  rw [if_pos notAtKey, Option.getD_none, scanned]
  rfl

/-- Scanning for the first key stays within the string exactly if there is one. -/
theorem isSome_skipLeading_iff
    (delimOpt : DelimOpt)
    (next : List Char)
    (optional : Bool) :
    (skipLeading delimOpt next optional).isSome ↔
      ∃ char ∈ next, isvarchar char := by
  induction next generalizing optional with
  | nil => simp [skipLeading]
  | cons char next inductionHypothesis =>
      rw [skipLeading, List.exists_mem_cons_iff]
      by_cases inside : isvarchar char
      · simp [inside]
      · rw [if_neg inside, inductionHypothesis, or_iff_right inside]

/-- Anywhere in a string, `next_arg` returns exactly if there is an identifier
character from there on. -/
theorem isSome_nextArg_iff
    (str : List Char)
    (delim : Char)
    (delimOpt : Option DelimOpt)
    (optional : Bool) :
    (nextArg str delim delimOpt optional).isSome ↔
      ∃ char ∈ str, isvarchar char := by
  by_cases atKey : str.head?.any isvarchar
  · obtain ⟨first, rest, rfl⟩ : ∃ first rest, str = first :: rest := by
      cases str with
      | nil => cases atKey
      | cons first rest => exact ⟨first, rest, rfl⟩
    have inside : isvarchar first := atKey
    simp [nextArg, inside]
  · rw [← isSome_skipLeading_iff (delimOpt.getD defaultDelimOpt) str optional]
    simp only [nextArg]
    rw [if_pos atKey]
    cases skipLeading (delimOpt.getD defaultDelimOpt) str optional <;> rfl

end Scanning

end Hiemal

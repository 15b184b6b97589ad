import Hiemal.Foundation.Loop
import Hiemal.Foundation.MachineInteger
import Mathlib.Data.List.Basic

/-!
# Command-line arguments

Translation of `util/args.c`. A string is the list of its characters without the
terminator, and `argv` is the list of the words before its `NULL`, so that `argc`
is its length. A table is the list of its entries before the one with a `NULL`
name.

A `NULL` pointer that is dereferenced, be it a missing default option or the end of
`argv`, is an outcome of its own, and so is an `int` of `_parse_arg_seq` that overflows.
-/

namespace Hiemal

open Foundation

/-- A string of the command line or of the table. -/
abbrev Word := List Char

/-- The name of an option: `HM_ARG_DEFAULT` or a string. -/
inductive ArgName
  | default
  | named (name : Word)
  deriving DecidableEq

/-- `enum arg_action`. -/
inductive ArgAction
  | collect
  | setTrue
  | setFalse
  | separate
  deriving DecidableEq

/-- What the `result` of an option points to. -/
inductive ArgResult
  | null
  | flag (value : Bool)
  | strings (values : List Word)
  deriving DecidableEq

/-- `hm_arg`. An `arg_check` is a predicate on words; `none` is `NULL`. -/
structure HmArg where
  name : ArgName
  shortName : Char
  sig : Word
  action : ArgAction
  result : ArgResult
  argCheck : Option (Word → Bool)

/-! ## Tables -/

/-- The body of `args_init`. -/
def argInit (arg : HmArg) : HmArg :=
  match arg.action with
  | .setTrue => { arg with result := .flag false }
  | .setFalse => { arg with result := .flag true }
  | _ => arg

def argsInit (args : List HmArg) : List HmArg :=
  args.map argInit

/-! ## Signatures -/

def isIntStr (s : Word) : Bool :=
  s.all fun c => '0' ≤ c ∧ c ≤ '9'

/-- The value of a string of decimal digits. -/
def digitsValue (s : Word) : Nat :=
  s.foldl (fun value c => 10 * value + (c.toNat - '0'.toNat)) 0

/-- `atoi` of a string of decimal digits: `strtol`, which saturates, converted to
`int`. -/
def atoi (s : Word) : Int :=
  toSigned 32 (min (digitsValue s) (2 ^ 63 - 1) : Nat)

/-- `_parse_arg_sig`: the range, if the signature is accepted. -/
def parseArgSig (sig : Word) : Option (Int × Int) :=
  if sig = ['*'] then some (0, 2 ^ 31 - 1)
  else if sig = ['+'] then some (1, 2 ^ 31 - 1)
  else if isIntStr sig then some (atoi sig, atoi sig)
  else if sig.getLast? = some '+' then
    if isIntStr sig.dropLast then some (atoi sig.dropLast, 2 ^ 31 - 1)
    else none
  else none

/-! ## The words of one option -/

/-- The loop over `argv`: the words found and the words parsed; `none` if one of the
two counters overflows. -/
def countWords (arg : HmArg) : List Word → Int × Int → Option (Int × Int)
  | [], counts => some counts
  | word :: argv, (nFound, nParsed) =>
      if arg.name ≠ .default ∧ word.head? = some '-' then some (nFound, nParsed)
      else if arg.argCheck.any fun argCheck => argCheck word = false then
        some (nFound, nParsed)
      else if nFound + 1 < 2 ^ 31 ∧ nParsed + 1 < 2 ^ 31 then
        countWords arg argv (nFound + 1, nParsed + 1)
      else none

/-- `strcpy` of a word into a block of `len` bytes; `none` if `len` is not its size. -/
def copyWord (word : Word) : Option Word :=
  let len := toSigned 32 (word.length + 1 : Nat)
  if len = (word.length + 1 : Nat) then some word else none

/-- The loop that copies the first words; `none` if it reads the `NULL` behind the
last one, or cannot copy one. -/
def copyWords (argv : List Word) : Nat → Option (List Word)
  | 0 => some []
  | count + 1 => do
      let copied ← copyWords argv count
      let word ← argv[count]?
      let copy ← copyWord word
      return copied ++ [copy]

/-- The end of the `COLLECT` branch: the words found are copied, if there are any,
into an array of one cell more. -/
def storeWords
    (arg : HmArg)
    (argv : List Word)
    (nFound nParsed : Int) : Option (Int × HmArg) :=
  if nFound > 0 then
    if nFound + 1 < 2 ^ 31 then do
      let copied ← copyWords argv nFound.toNat
      return (nParsed, { arg with result := .strings copied })
    else none
  else some (nParsed, arg)

/-- `_parse_arg_seq` with its counters and its loops: the value returned and the
option with its new result; `none` if an `int` does not hold what it counts. -/
def parseArgSeqCounted (arg : HmArg) (argv : List Word) : Option (Int × HmArg) :=
  match parseArgSig arg.sig with
  | none => some (-1, arg)
  | some (lower, upper) =>
      let nParsed := if arg.name ≠ .default then 1 else 0
      match arg.action with
      | .setTrue =>
          if arg.result = .null then some (-1, arg)
          else some (nParsed, { arg with result := .flag true })
      | .setFalse =>
          if arg.result = .null then some (-1, arg)
          else some (nParsed, { arg with result := .flag false })
      | .collect =>
          match countWords arg argv (0, nParsed) with
          | none => none
          | some (nFound, nParsed) =>
              if nFound > upper then
                storeWords arg argv upper
                  (if arg.name = .default then upper else upper + 1)
              else if nFound < lower then some (-1, arg)
              else storeWords arg argv nFound nParsed
      | .separate => some (-1, arg)

/-! ## The table and the command line -/

/-- `long_opt`. -/
def longOpt (name : Word) : Word :=
  '-' :: '-' :: name

/-- `short_opt`, a string that ends before a `NUL` short name. -/
def shortOpt (shortName : Char) : Word :=
  if shortName = '\x00' then ['-'] else ['-', shortName]

/-- What `parse_args` comes to, with the table as it is then. -/
inductive ParseOutcome
  | returned (rc : Int) (args : List HmArg)
  /-- `strcmp` with the `NULL` at the end of `argv`. -/
  | nullArgv
  /-- `_parse_arg_seq` with the `NULL` default option. -/
  | nullDefault
  /-- An `int` of `_parse_arg_seq` does not hold what it counts. -/
  | overflow

/-- What the loop over the table comes to. -/
inductive ScanOutcome
  /-- `parse_args` returns. -/
  | returned (rc : Int) (args : List HmArg)
  | nullArgv
  | overflow
  /-- The table and `argv` after the last entry. -/
  | scanned (args : List HmArg) (argv : List Word)

/-- The entry before those the rest of the loop is over. -/
def ScanOutcome.cons (arg : HmArg) : ScanOutcome → ScanOutcome
  | .returned rc args => .returned rc (arg :: args)
  | .nullArgv => .nullArgv
  | .overflow => .overflow
  | .scanned args argv => .scanned (arg :: args) argv

/-- The loop over the table. -/
def scanArgs : List HmArg → List Word → ScanOutcome
  | [], argv => .scanned [] argv
  | arg :: args, argv =>
      match arg.name, argv with
      | .default, argv => (scanArgs args argv).cons arg
      | .named _, [] => .nullArgv
      | .named name, word :: argv =>
          if longOpt name = word ∨ shortOpt arg.shortName = word then
            match parseArgSeqCounted arg argv with
            | none => .overflow
            | some (nParsed, arg) =>
                if nParsed < 0 then .returned nParsed (arg :: args)
                else (scanArgs args ((word :: argv).drop nParsed.toNat)).cons arg
          else (scanArgs args (word :: argv)).cons arg

/-- What `_parse_arg_seq` of the default option comes to. -/
inductive DefaultOutcome
  | nullDefault
  | overflow
  /-- The number of words parsed and the table afterwards. -/
  | parsed (nParsed : Int) (args : List HmArg)

/-- `_parse_arg_seq` of the default option, the last one of the table. -/
def parseDefault : List HmArg → List Word → DefaultOutcome
  | [], _ => .nullDefault
  | arg :: args, argv =>
      match parseDefault args argv with
      | .parsed nParsed args => .parsed nParsed (arg :: args)
      | .overflow => .overflow
      | .nullDefault =>
          if arg.name = .default then
            match parseArgSeqCounted arg argv with
            | none => .overflow
            | some (nParsed, arg) => .parsed nParsed (arg :: args)
          else .nullDefault

/-- The body of the loop of `parse_args`, over the table and `argv`. -/
def parseArgsPass :
    List HmArg × List Word → LoopStep (List HmArg × List Word) ParseOutcome
  | (args, []) => .stop (.returned 0 args)
  | (args, argv) =>
      match scanArgs args argv with
      | .returned rc args => .stop (.returned rc args)
      | .nullArgv => .stop .nullArgv
      | .overflow => .stop .overflow
      | .scanned args [] => .goOn (args, [])
      | .scanned args argv =>
          match parseDefault args argv with
          | .nullDefault => .stop .nullDefault
          | .overflow => .stop .overflow
          | .parsed nParsed args =>
              if nParsed < 0 then .stop (.returned nParsed args)
              else .goOn (args, argv.drop nParsed.toNat)

/-- `parse_args`, for at most `fuel` passes over the table. -/
def parseArgs
    (fuel : Nat)
    (args : List HmArg)
    (argv : List Word) : Option ParseOutcome :=
  runLoop parseArgsPass fuel (args, argv)

end Hiemal

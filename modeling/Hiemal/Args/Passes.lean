import Hiemal.Args.Collect
import Mathlib.Data.List.Forall2
import Mathlib.Logic.Relation

/-!
# Passes over the table

`parse_args` passes over the table again and again until `argv` is used up. What a
pass does with the words depends on the options alone, not on the results they have
by then. This module follows the words from pass to pass and says exactly when
`parse_args` ends without dereferencing a `NULL` pointer or overflowing an `int`.
-/

namespace Hiemal

open Foundation

/-! ## The words of a pass -/

/-- The number of words an option parses, once `args_init` has been called. -/
def HmArg.takes (arg : HmArg) (argv : List Word) : Int :=
  (parseArgSeq (argInit arg) argv).1

/-- The words that are left when an option is compared with the first one; `none`
if `_parse_arg_seq` fails. -/
def HmArg.offer (arg : HmArg) (argv : List Word) : Option (List Word) :=
  match arg.name, argv with
  | .named name, word :: rest =>
      if longOpt name = word ∨ shortOpt arg.shortName = word then
        if arg.takes rest < 0 then none
        else some ((word :: rest).drop (arg.takes rest).toNat)
      else some (word :: rest)
  | _, argv => some argv

/-- The words that are left after some entries of the table. -/
def wordsAfter (args : List HmArg) (argv : List Word) : Option (List Word) :=
  args.foldlM (fun argv arg => arg.offer argv) argv

/-- The default option, the last one of the table. -/
def defaultOption (args : List HmArg) : Option HmArg :=
  args.findRev? fun arg => arg.name = .default

/-- The words a pass leaves for the next one. -/
def NextPass (args : List HmArg) (argv next : List Word) : Prop :=
  argv ≠ [] ∧
    ∃ rest, wordsAfter args argv = some rest ∧
      (rest = [] ∧ next = [] ∨
        rest ≠ [] ∧ ∃ arg, defaultOption args = some arg ∧
          0 ≤ arg.takes rest ∧ next = rest.drop (arg.takes rest).toNat)

/-- Some entry of the table is reached with words as described. -/
def Reaches
    (condition : HmArg → List Word → Prop)
    (args : List HmArg)
    (argv : List Word) : Prop :=
  ∃ before arg after words, args = before ++ arg :: after ∧
    wordsAfter before argv = some words ∧ condition arg words

/-- A named option is compared although the options before it have used up the
words. -/
def Overruns (args : List HmArg) (argv : List Word) : Prop :=
  Reaches (fun arg words => arg.name ≠ .default ∧ words = []) args argv

/-- The option answers to the first word, and the `int`s of `_parse_arg_seq` do not
hold what they count. -/
def HmArg.Overflows (arg : HmArg) (argv : List Word) : Prop :=
  match arg.name, argv with
  | .named name, word :: rest =>
      (longOpt name = word ∨ shortOpt arg.shortName = word) ∧ ¬arg.IntsHold rest
  | _, _ => False

/-- An `int` does not hold what is counted in the pass, for a named option or the
default one. -/
def PassOverflows (args : List HmArg) (argv : List Word) : Prop :=
  Reaches HmArg.Overflows args argv ∨
    ∃ rest arg, wordsAfter args argv = some rest ∧ rest ≠ [] ∧
      defaultOption args = some arg ∧ ¬arg.IntsHold rest

/-- What a pass needs: no named option follows the one that takes the last word, a
default option is there for the words the named ones leave, it takes one where they
take none, and what is counted on the way is held by the `int`s. -/
structure PassProceeds (args : List HmArg) (argv : List Word) : Prop where
  compares : ¬Overruns args argv
  holds : ¬PassOverflows args argv
  hasDefault : ∀ rest, wordsAfter args argv = some rest → rest ≠ [] →
    ∃ arg, defaultOption args = some arg
  advances : wordsAfter args argv = some argv →
    ∀ arg, defaultOption args = some arg → arg.takes argv ≠ 0

/-- `parse_args` returns, and returns 0 or a negative error. -/
def ParsesSafely (args : List HmArg) (argv : List Word) : Prop :=
  ∃ fuel rc parsed,
    parseArgs fuel (argsInit args) argv = some (.returned rc parsed) ∧ rc ≤ 0

/-! ## Results do not matter -/

/-- An entry of the table after `args_init`, with any result it may have by then. -/
def Prepared (option arg : HmArg) : Prop :=
  ∃ result, arg = { option with result := result } ∧
    (result = .null → option.action ≠ .setTrue ∧ option.action ≠ .setFalse)

theorem prepared_argInit (option : HmArg) : Prepared option (argInit option) := by
  unfold argInit
  split
  · exact ⟨_, rfl, fun null => by cases null⟩
  · exact ⟨_, rfl, fun null => by cases null⟩
  · rename_i notTrue notFalse
    exact ⟨option.result, rfl, fun _ => ⟨notTrue, notFalse⟩⟩

theorem prepared_argsInit (args : List HmArg) :
    List.Forall₂ Prepared args (argsInit args) := by
  rw [argsInit, List.forall₂_map_right_iff]
  exact List.forall₂_same.mpr fun option _ => prepared_argInit option

/-- What `_parse_arg_seq` returns depends on the option alone, and it changes the
result alone. -/
theorem parseArgSeq_uniform (option : HmArg) (argv : List Word) :
    ∃ count, ∀ arg, Prepared option arg →
      (parseArgSeq arg argv).1 = count ∧
        Prepared option (parseArgSeq arg argv).2 := by
  obtain ⟨name, shortName, sig, action, initial, argCheck⟩ := option
  cases signature : parseArgSig sig with
  | none =>
      refine ⟨-1, ?_⟩
      rintro _ ⟨result, rfl, ready⟩
      simp only [parseArgSeq, signature]
      exact ⟨trivial, result, rfl, ready⟩
  | some range =>
      obtain ⟨lower, upper⟩ := range
      cases action with
      | setTrue =>
          refine ⟨if name = .default then 0 else 1, ?_⟩
          rintro _ ⟨result, rfl, ready⟩
          have filled : result ≠ .null := fun null => (ready null).1 rfl
          simp only [parseArgSeq, signature, filled, if_false]
          exact ⟨trivial, .flag true, rfl, fun null => by cases null⟩
      | setFalse =>
          refine ⟨if name = .default then 0 else 1, ?_⟩
          rintro _ ⟨result, rfl, ready⟩
          have filled : result ≠ .null := fun null => (ready null).2 rfl
          simp only [parseArgSeq, signature, filled, if_false]
          exact ⟨trivial, .flag false, rfl, fun null => by cases null⟩
      | collect =>
          -- Which words are collected does not depend on the result.
          let option : HmArg := ⟨name, shortName, sig, .collect, initial, argCheck⟩
          have ready (result : ArgResult) :
              Prepared option { option with result := result } :=
            ⟨result, rfl, fun _ => ⟨by simp [option], by simp [option]⟩⟩
          let nFound : Int := (argv.takeWhile option.collects).length
          by_cases few : nFound < lower ∧ nFound ≤ upper
          · refine ⟨-1, ?_⟩
            rintro _ ⟨result, rfl, _⟩
            have returned :
                parseArgSeq { option with result := result } argv =
                  (-1, { option with result := result }) := by
              simp only [parseArgSeq, option, signature]
              exact if_pos few
            rw [returned]
            exact ⟨rfl, ready result⟩
          · let taken : Int := if upper < nFound then upper else nFound
            refine ⟨(if name = .default then 0 else 1) + taken, ?_⟩
            rintro _ ⟨result, rfl, _⟩
            have returned :
                parseArgSeq { option with result := result } argv =
                  ((if name = .default then 0 else 1) + taken,
                    if 0 < taken then
                      { option with
                        result := .strings (argv.take taken.toNat) }
                    else { option with result := result }) := by
              simp only [parseArgSeq, option, signature]
              exact if_neg few
            rw [returned]
            refine ⟨rfl, ?_⟩
            dsimp only
            split_ifs
            · exact ready _
            · exact ready result
      | separate =>
          refine ⟨-1, ?_⟩
          rintro _ ⟨result, rfl, ready⟩
          simp only [parseArgSeq, signature]
          exact ⟨trivial, result, rfl, ready⟩

theorem Prepared.parseArgSeq
    {option arg : HmArg}
    (prepared : Prepared option arg)
    (argv : List Word) :
    (Hiemal.parseArgSeq arg argv).1 = option.takes argv ∧
      Prepared option (Hiemal.parseArgSeq arg argv).2 := by
  obtain ⟨count, uniform⟩ := parseArgSeq_uniform option argv
  obtain ⟨counts, after⟩ := uniform arg prepared
  obtain ⟨takes, _⟩ := uniform (argInit option) (prepared_argInit option)
  exact ⟨counts.trans takes.symm, after⟩

/-- Nor does what its `int`s have to hold depend on the result. -/
theorem Prepared.intsHold
    {option arg : HmArg}
    (prepared : Prepared option arg)
    (argv : List Word) :
    arg.IntsHold argv ↔ option.IntsHold argv := by
  obtain ⟨result, rfl, _⟩ := prepared
  exact Iff.rfl

/-! ## The loop over the table -/

section Scan

variable {options args : List HmArg} {argv : List Word}

theorem wordsAfter_cons (option : HmArg) :
    wordsAfter (option :: options) argv =
      (option.offer argv).bind (wordsAfter options) :=
  List.foldlM_cons

/-- The first entry is reached with all words, the others with those it leaves. -/
theorem reaches_cons_iff
    {condition : HmArg → List Word → Prop}
    (option : HmArg) :
    Reaches condition (option :: options) argv ↔
      condition option argv ∨
        ∃ left, option.offer argv = some left ∧ Reaches condition options left := by
  constructor
  · rintro ⟨before, arg, after, words, split, reached, meets⟩
    cases before with
    | nil =>
        cases split
        cases reached
        exact Or.inl meets
    | cons first before =>
        cases split
        rw [wordsAfter_cons] at reached
        obtain ⟨left, offered, later⟩ := Option.bind_eq_some_iff.mp reached
        exact Or.inr ⟨left, offered, before, arg, after, words, rfl, later, meets⟩
  · rintro (meets | ⟨left, offered, before, arg, after, words, rfl, reached, meets⟩)
    · exact ⟨[], option, options, argv, rfl, rfl, meets⟩
    · refine ⟨option :: before, arg, after, words, rfl, ?_, meets⟩
      rw [wordsAfter_cons, offered]
      exact reached

theorem reaches_cons_of_offer
    {condition : HmArg → List Word → Prop}
    {option : HmArg}
    {left : List Word}
    (fails : ¬condition option argv)
    (offered : option.offer argv = some left) :
    Reaches condition (option :: options) argv ↔ Reaches condition options left := by
  rw [reaches_cons_iff, offered]
  constructor
  · rintro (meets | ⟨_, ⟨⟩, later⟩)
    · exact absurd meets fails
    · exact later
  · exact fun later => Or.inr ⟨left, rfl, later⟩

theorem not_reaches_cons_of_none
    {condition : HmArg → List Word → Prop}
    {option : HmArg}
    (fails : ¬condition option argv)
    (offered : option.offer argv = none) :
    ¬Reaches condition (option :: options) argv := by
  rw [reaches_cons_iff, offered]
  rintro (meets | ⟨_, ⟨⟩, _⟩)
  exact fails meets

/-- What the loop over the table comes to, in terms of the words. -/
def ScanMeets (options : List HmArg) (argv : List Word) : ScanOutcome → Prop
  | .nullArgv => Overruns options argv
  | .overflow => Reaches HmArg.Overflows options argv
  | .returned rc _ =>
      ¬Overruns options argv ∧ ¬Reaches HmArg.Overflows options argv ∧
        wordsAfter options argv = none ∧ rc < 0
  | .scanned args rest =>
      ¬Overruns options argv ∧ ¬Reaches HmArg.Overflows options argv ∧
        wordsAfter options argv = some rest ∧ List.Forall₂ Prepared options args

/-- An entry that leaves the given words goes before what the rest of the loop comes
to. -/
theorem ScanMeets.cons
    {option arg : HmArg}
    {left : List Word}
    {outcome : ScanOutcome}
    (prepared : Prepared option arg)
    (present : option.name ≠ .default → argv ≠ [])
    (holds : ¬option.Overflows argv)
    (offered : option.offer argv = some left)
    (meets : ScanMeets options left outcome) :
    ScanMeets (option :: options) argv (outcome.cons arg) := by
  have overruns :
      Overruns (option :: options) argv ↔ Overruns options left :=
    reaches_cons_of_offer (fun both => present both.1 both.2) offered
  have overflows :
      Reaches HmArg.Overflows (option :: options) argv ↔
        Reaches HmArg.Overflows options left :=
    reaches_cons_of_offer holds offered
  have words : wordsAfter (option :: options) argv = wordsAfter options left := by
    rw [wordsAfter_cons, offered]
    rfl
  cases outcome with
  | nullArgv => exact overruns.mpr meets
  | overflow => exact overflows.mpr meets
  | returned rc args =>
      obtain ⟨compares, hold, failed, negative⟩ := meets
      exact ⟨overruns.not.mpr compares, overflows.not.mpr hold, words.trans failed,
        negative⟩
  | scanned args rest =>
      obtain ⟨compares, hold, scanned, allPrepared⟩ := meets
      exact ⟨overruns.not.mpr compares, overflows.not.mpr hold, words.trans scanned,
        .cons prepared allPrepared⟩

/-- The loop over the table does with the words what the options do one after the
other. -/
theorem scanArgs_meets
    (allPrepared : List.Forall₂ Prepared options args)
    (argv : List Word) :
    ScanMeets options argv (scanArgs args argv) := by
  induction allPrepared generalizing argv with
  | nil =>
      have nowhere {condition : HmArg → List Word → Prop} :
          ¬Reaches condition [] argv := by
        rintro ⟨before, arg, after, words, split, _⟩
        simp at split
      exact ⟨nowhere, nowhere, rfl, .nil⟩
  | cons prepared allPrepared inductionHypothesis =>
      rename_i option arg options args
      have same : arg.name = option.name ∧ arg.shortName = option.shortName := by
        obtain ⟨result, rfl, _⟩ := prepared
        exact ⟨rfl, rfl⟩
      cases name : option.name with
      | default =>
          simp only [scanArgs, same, name]
          apply ScanMeets.cons prepared _ _ _ (inductionHypothesis argv)
          · exact fun named => absurd name named
          · simp only [HmArg.Overflows, name, not_false_eq_true]
          · simp only [HmArg.offer, name]
      | named long =>
          cases argv with
          | nil =>
              simp only [scanArgs, same, name]
              exact (reaches_cons_iff option).mpr
                (Or.inl ⟨by simp [name], rfl⟩)
          | cons word rest =>
              have present : option.name ≠ .default → word :: rest ≠ [] :=
                fun _ => List.cons_ne_nil word rest
              simp only [scanArgs, same, name]
              by_cases answers :
                  longOpt long = word ∨ shortOpt option.shortName = word
              · rw [if_pos answers]
                by_cases holds : arg.IntsHold rest
                · have stays : ¬option.Overflows (word :: rest) := by
                    simp only [HmArg.Overflows, name, not_and_not_right]
                    exact fun _ => (prepared.intsHold rest).mp holds
                  obtain ⟨counts, after⟩ := prepared.parseArgSeq rest
                  rw [parseArgSeqCounted_eq holds]
                  dsimp only
                  rw [counts]
                  by_cases failed : option.takes rest < 0
                  · have offered : option.offer (word :: rest) = none := by
                      simp only [HmArg.offer, name, if_pos answers, if_pos failed]
                    rw [if_pos failed]
                    refine ⟨?_, ?_, ?_, failed⟩
                    · exact not_reaches_cons_of_none
                        (fun both => present both.1 both.2) offered
                    · exact not_reaches_cons_of_none stays offered
                    · rw [wordsAfter_cons, offered]
                      rfl
                  · rw [if_neg failed]
                    apply ScanMeets.cons after present stays _
                      (inductionHypothesis _)
                    simp only [HmArg.offer, name, if_pos answers, if_neg failed]
                · rw [parseArgSeqCounted_eq_none_iff.mpr holds]
                  apply (reaches_cons_iff option).mpr
                  left
                  simp only [HmArg.Overflows, name]
                  exact ⟨answers, (prepared.intsHold rest).not.mp holds⟩
              · rw [if_neg answers]
                apply ScanMeets.cons prepared present _ _
                  (inductionHypothesis (word :: rest))
                · simp only [HmArg.Overflows, name, answers, false_and,
                    not_false_eq_true]
                · simp only [HmArg.offer, name, if_neg answers]

/-- What the default option comes to, in terms of the words. -/
def DefaultMeets (options : List HmArg) (argv : List Word) : DefaultOutcome → Prop
  | .nullDefault => defaultOption options = none
  | .overflow =>
      ∃ option, defaultOption options = some option ∧ ¬option.IntsHold argv
  | .parsed nParsed args =>
      ∃ option, defaultOption options = some option ∧ option.IntsHold argv ∧
        nParsed = option.takes argv ∧ List.Forall₂ Prepared options args

theorem parseDefault_meets
    (allPrepared : List.Forall₂ Prepared options args)
    (argv : List Word) :
    DefaultMeets options argv (parseDefault args argv) := by
  induction allPrepared with
  | nil => rfl
  | cons prepared allPrepared inductionHypothesis =>
      rename_i option arg options args
      have name : arg.name = option.name := by
        obtain ⟨result, rfl, _⟩ := prepared
        rfl
      have later (last : HmArg) (found : defaultOption options = some last) :
          defaultOption (option :: options) = some last := by
        rw [defaultOption] at found ⊢
        rw [List.findRev?, found]
      have here (nothing : defaultOption options = none) :
          defaultOption (option :: options) =
            if option.name = .default then some option else none := by
        rw [defaultOption] at nothing ⊢
        rw [List.findRev?, nothing]
        by_cases isDefault : option.name = .default <;> simp [isDefault]
      rw [parseDefault]
      cases parsed : parseDefault args argv with
      | parsed nParsed after =>
          rw [parsed] at inductionHypothesis
          obtain ⟨last, found, holds, counts, prepares⟩ := inductionHypothesis
          exact ⟨last, later last found, holds, counts, .cons prepared prepares⟩
      | overflow =>
          rw [parsed] at inductionHypothesis
          obtain ⟨last, found, overflows⟩ := inductionHypothesis
          exact ⟨last, later last found, overflows⟩
      | nullDefault =>
          rw [parsed] at inductionHypothesis
          dsimp only
          rw [name]
          split_ifs with isDefault
          · have found := here inductionHypothesis
            rw [if_pos isDefault] at found
            by_cases holds : arg.IntsHold argv
            · obtain ⟨counts, after⟩ := prepared.parseArgSeq argv
              rw [parseArgSeqCounted_eq holds]
              exact ⟨option, found, (prepared.intsHold argv).mp holds, counts,
                .cons after allPrepared⟩
            · rw [parseArgSeqCounted_eq_none_iff.mpr holds]
              exact ⟨option, found, (prepared.intsHold argv).not.mp holds⟩
          · have found := here inductionHypothesis
            rw [if_neg isDefault] at found
            exact found

end Scan

/-! ## A pass -/

section Pass

variable {options args : List HmArg} {argv : List Word}

/-- `_parse_arg_seq` fails in the pass, for a named option or the default one. -/
def PassFails (options : List HmArg) (argv : List Word) : Prop :=
  wordsAfter options argv = none ∨
    ∃ rest option, wordsAfter options argv = some rest ∧ rest ≠ [] ∧
      defaultOption options = some option ∧ option.takes rest < 0

/-- What a pass over nonempty words comes to. -/
inductive PassMeets (options : List HmArg) (argv : List Word) :
    LoopStep (List HmArg × List Word) ParseOutcome → Prop
  | returned {rc : Int} {args : List HmArg}
      (compares : ¬Overruns options argv)
      (holds : ¬PassOverflows options argv)
      (failed : PassFails options argv)
      (negative : rc < 0) :
      PassMeets options argv (.stop (.returned rc args))
  | overflow (overflows : PassOverflows options argv) :
      PassMeets options argv (.stop .overflow)
  | nullArgv (overruns : Overruns options argv) :
      PassMeets options argv (.stop .nullArgv)
  | nullDefault {rest : List Word}
      (left : wordsAfter options argv = some rest)
      (nonempty : rest ≠ [])
      (noDefault : defaultOption options = none) :
      PassMeets options argv (.stop .nullDefault)
  | goOn {args : List HmArg} {next : List Word}
      (compares : ¬Overruns options argv)
      (holds : ¬PassOverflows options argv)
      (allPrepared : List.Forall₂ Prepared options args)
      (nextPass : NextPass options argv next) :
      PassMeets options argv (.goOn (args, next))

theorem parseArgsPass_meets
    (allPrepared : List.Forall₂ Prepared options args)
    (nonempty : argv ≠ []) :
    PassMeets options argv (parseArgsPass (args, argv)) := by
  obtain ⟨word, words, rfl⟩ := List.exists_cons_of_ne_nil nonempty
  have scan := scanArgs_meets allPrepared (word :: words)
  simp only [parseArgsPass]
  cases scanned : scanArgs args (word :: words) with
  | nullArgv =>
      rw [scanned] at scan
      exact .nullArgv scan
  | overflow =>
      rw [scanned] at scan
      exact .overflow (Or.inl scan)
  | returned rc args =>
      rw [scanned] at scan
      obtain ⟨compares, hold, failed, negative⟩ := scan
      refine .returned compares ?_ (Or.inl failed) negative
      rintro (overflows | ⟨rest, _, left, _⟩)
      · exact hold overflows
      · rw [failed] at left
        cases left
  | scanned after rest =>
      rw [scanned] at scan
      obtain ⟨compares, hold, left, afterPrepared⟩ := scan
      have holds (holdsDefault : rest ≠ [] → ∀ option,
          defaultOption options = some option → option.IntsHold rest) :
          ¬PassOverflows options (word :: words) := by
        rintro (overflows | ⟨other, option, otherLeft, some, found, overflows⟩)
        · exact hold overflows
        · rw [left] at otherLeft
          cases otherLeft
          exact overflows (holdsDefault some option found)
      cases rest with
      | nil =>
          exact .goOn compares (holds fun some => absurd rfl some) afterPrepared
            ⟨nonempty, [], left, Or.inl ⟨rfl, rfl⟩⟩
      | cons first rest =>
          have some := List.cons_ne_nil first rest
          have parsedDefault :=
            parseDefault_meets afterPrepared (first :: rest)
          dsimp only
          cases parsed : parseDefault after (first :: rest) with
          | nullDefault =>
              rw [parsed] at parsedDefault
              exact .nullDefault left some parsedDefault
          | overflow =>
              rw [parsed] at parsedDefault
              obtain ⟨option, found, overflows⟩ := parsedDefault
              exact .overflow (Or.inr ⟨_, option, left, some, found, overflows⟩)
          | parsed nParsed final =>
              rw [parsed] at parsedDefault
              obtain ⟨option, found, holdsHere, counts, finalPrepared⟩ :=
                parsedDefault
              have passHolds : ¬PassOverflows options (word :: words) := by
                apply holds
                intro _ other otherFound
                rw [found] at otherFound
                cases otherFound
                exact holdsHere
              dsimp only
              split_ifs with failed
              · exact .returned compares passHolds
                  (Or.inr ⟨_, option, left, some, found, counts ▸ failed⟩) failed
              · exact .goOn compares passHolds finalPrepared
                  ⟨nonempty, _, left,
                    Or.inr ⟨some, option, found, by omega, by rw [counts]⟩⟩

/-- What the options leave is the end of the words. -/
theorem offer_suffix
    {option : HmArg}
    {left : List Word}
    (offered : option.offer argv = some left) :
    left <:+ argv := by
  unfold HmArg.offer at offered
  split at offered
  · split_ifs at offered
    · cases offered
      exact List.drop_suffix _ _
    · cases offered
      exact List.suffix_rfl
  · cases offered
    exact List.suffix_rfl

theorem wordsAfter_suffix
    {left : List Word}
    (after : wordsAfter options argv = some left) :
    left <:+ argv := by
  induction options generalizing argv with
  | nil =>
      cases after
      exact List.suffix_rfl
  | cons option options inductionHypothesis =>
      rw [wordsAfter_cons] at after
      obtain ⟨between, offered, later⟩ := Option.bind_eq_some_iff.mp after
      exact (inductionHypothesis later).trans (offer_suffix offered)

/-- There is at most one next pass. -/
theorem NextPass.unique
    {next other : List Word}
    (nextPass : NextPass options argv next)
    (otherPass : NextPass options argv other) :
    next = other := by
  obtain ⟨_, rest, left, leaves⟩ := nextPass
  obtain ⟨_, otherRest, otherLeft, otherLeaves⟩ := otherPass
  rw [left] at otherLeft
  cases otherLeft
  rcases leaves with ⟨empty, rfl⟩ | ⟨nonempty, option, found, _, rfl⟩
  · rcases otherLeaves with ⟨_, rfl⟩ | ⟨nonempty, _⟩
    · rfl
    · exact absurd empty nonempty
  · rcases otherLeaves with ⟨empty, _⟩ | ⟨_, other, otherFound, _, rfl⟩
    · exact absurd empty nonempty
    · rw [found] at otherFound
      cases otherFound
      rfl

/-- Words left for a next pass go through the default option. -/
theorem NextPass.exists_default
    {next : List Word}
    (nextPass : NextPass options argv next)
    (rest : List Word)
    (left : wordsAfter options argv = some rest)
    (nonempty : rest ≠ []) :
    ∃ option, defaultOption options = some option := by
  obtain ⟨_, other, otherLeft, leaves⟩ := nextPass
  rw [left] at otherLeft
  cases otherLeft
  rcases leaves with ⟨empty, _⟩ | ⟨_, option, found, _⟩
  · exact absurd empty nonempty
  · exact ⟨option, found⟩

/-- The pass after one in which no word is taken is over the same words. -/
theorem NextPass.eq_of_stall
    {next : List Word}
    {option : HmArg}
    (nextPass : NextPass options argv next)
    (left : wordsAfter options argv = some argv)
    (found : defaultOption options = some option)
    (stalls : option.takes argv = 0) :
    next = argv := by
  apply nextPass.unique
  refine ⟨nextPass.1, argv, left,
    Or.inr ⟨nextPass.1, option, found, Int.le_of_eq stalls.symm, ?_⟩⟩
  rw [stalls]
  rfl

theorem not_nextPass_of_failed
    {next : List Word}
    (failed : PassFails options argv) :
    ¬NextPass options argv next := by
  rintro ⟨_, rest, left, leaves⟩
  rcases failed with
    none | ⟨other, option, otherLeft, nonempty, found, negative⟩
  · rw [left] at none
    cases none
  · rw [left] at otherLeft
    cases otherLeft
    rcases leaves with ⟨empty, _⟩ | ⟨_, other, otherFound, takes, _⟩
    · exact nonempty empty
    · rw [found] at otherFound
      cases otherFound
      omega

/-- A pass that fails returns the error. -/
theorem passProceeds_of_failed
    (compares : ¬Overruns options argv)
    (holds : ¬PassOverflows options argv)
    (failed : PassFails options argv) :
    PassProceeds options argv := by
  rcases failed with
    none | ⟨rest, option, left, nonempty, found, negative⟩
  · refine ⟨compares, holds, ?_, ?_⟩
    · intro rest left
      rw [none] at left
      cases left
    · intro left
      rw [none] at left
      cases left
  · refine ⟨compares, holds, fun _ _ _ => ⟨option, found⟩, ?_⟩
    intro otherLeft other otherFound
    rw [left] at otherLeft
    rw [found] at otherFound
    cases otherLeft
    cases otherFound
    omega

/-- A pass that proceeds leaves fewer words. -/
theorem PassProceeds.length_lt
    {next : List Word}
    (proceeds : PassProceeds options argv)
    (nextPass : NextPass options argv next) :
    next.length < argv.length := by
  obtain ⟨nonempty, rest, left, leaves⟩ := nextPass
  have suffix := wordsAfter_suffix left
  rcases leaves with ⟨_, rfl⟩ | ⟨_, option, found, takes, rfl⟩
  · exact List.length_pos_of_ne_nil nonempty
  · by_cases whole : rest.length = argv.length
    · obtain rfl := suffix.eq_of_length whole
      have advances := proceeds.advances left option found
      have length := List.length_pos_of_ne_nil nonempty
      rw [List.length_drop]
      omega
    · have le := suffix.length_le
      rw [List.length_drop]
      omega

end Pass

/-! ## Whole runs -/

/-- The passes of `parse_args` proceed as long as words are left. -/
def PassesProceed (args : List HmArg) (argv : List Word) : Prop :=
  ∀ words, Relation.ReflTransGen (NextPass args) argv words → words ≠ [] →
    PassProceeds args words

section Runs

variable {options args : List HmArg} {argv : List Word}

/-- No pass follows the one that used up the words. -/
theorem reached_of_nil
    {words : List Word}
    (reached : Relation.ReflTransGen (NextPass options) [] words) :
    words = [] := by
  rcases Relation.ReflTransGen.cases_head reached with same | ⟨next, step, _⟩
  · exact same.symm
  · exact absurd rfl step.1

/-- Passes that proceed end with 0 or a negative error. -/
theorem PassesProceed.loopEnds
    (proceed : PassesProceed options argv)
    (allPrepared : List.Forall₂ Prepared options args) :
    ∃ outcome, LoopEnds parseArgsPass (args, argv) outcome ∧
      ∃ rc parsed, outcome = .returned rc parsed ∧ rc ≤ 0 := by
  apply loopEnds_of_measure
    (fun state =>
      List.Forall₂ Prepared options state.1 ∧
        Relation.ReflTransGen (NextPass options) argv state.2)
    (fun state => state.2.length) _ ⟨allPrepared, .refl⟩
  rintro ⟨args, words⟩ ⟨prepared, reached⟩
  by_cases empty : words = []
  · subst empty
    exact Or.inl ⟨_, rfl, 0, args, rfl, Int.le_refl 0⟩
  · have proceeds := proceed words reached empty
    generalize step : parseArgsPass (args, words) = result
    have meets := parseArgsPass_meets prepared empty
    rw [step] at meets
    cases meets with
    | returned _ _ _ negative =>
        exact Or.inl ⟨_, rfl, _, _, rfl, Int.le_of_lt negative⟩
    | overflow overflows => exact absurd overflows proceeds.holds
    | nullArgv overruns => exact absurd overruns proceeds.compares
    | nullDefault left nonempty noDefault =>
        obtain ⟨option, found⟩ := proceeds.hasDefault _ left nonempty
        rw [noDefault] at found
        cases found
    | goOn _ _ nextPrepared nextPass =>
        exact Or.inr ⟨_, rfl, ⟨nextPrepared, reached.tail nextPass⟩,
          proceeds.length_lt nextPass⟩

/-- A pass in which neither the options nor the default option take a word is
followed by passes like it. -/
theorem not_loopEnds_of_stall
    {option : HmArg}
    {outcome : ParseOutcome}
    (compares : ¬Overruns options argv)
    (holds : ¬PassOverflows options argv)
    (nonempty : argv ≠ [])
    (left : wordsAfter options argv = some argv)
    (found : defaultOption options = some option)
    (stalls : option.takes argv = 0)
    (allPrepared : List.Forall₂ Prepared options args) :
    ¬LoopEnds parseArgsPass (args, argv) outcome := by
  apply not_loopEnds_of_invariant
    (fun state => List.Forall₂ Prepared options state.1 ∧ state.2 = argv) _
    ⟨allPrepared, rfl⟩
  rintro ⟨args, words⟩ ⟨prepared, same⟩
  dsimp only at prepared same
  subst same
  generalize step : parseArgsPass (args, words) = result
  have meets := parseArgsPass_meets prepared nonempty
  rw [step] at meets
  cases meets with
  | returned _ _ failed _ =>
      have nextPass : NextPass options words _ :=
        ⟨nonempty, words, left,
          Or.inr ⟨nonempty, option, found, Int.le_of_eq stalls.symm, rfl⟩⟩
      exact absurd nextPass (not_nextPass_of_failed failed)
  | overflow overflows => exact absurd overflows holds
  | nullArgv overruns => exact absurd overruns compares
  | nullDefault _ _ noDefault =>
      rw [found] at noDefault
      cases noDefault
  | goOn _ _ nextPrepared nextPass =>
      exact ⟨_, rfl, nextPrepared, nextPass.eq_of_stall left found stalls⟩

/-- In a run that returns every pass proceeds. -/
theorem passesProceed_of_loopEnds
    {rc : Int}
    {parsed : List HmArg}
    (allPrepared : List.Forall₂ Prepared options args)
    (ends : LoopEnds parseArgsPass (args, argv) (.returned rc parsed)) :
    PassesProceed options argv := by
  let motive (state : List HmArg × List Word) : Prop :=
    List.Forall₂ Prepared options state.1 → PassesProceed options state.2
  apply ends.induction (motive := motive) _ _ allPrepared
  · rintro ⟨args, argv⟩ stops prepared words reached nonempty
    have present : argv ≠ [] := by
      rintro rfl
      exact nonempty (reached_of_nil reached)
    have meets := parseArgsPass_meets prepared present
    rw [stops] at meets
    cases meets with
    | returned compares holds failed negative =>
        rcases Relation.ReflTransGen.cases_head reached with
          rfl | ⟨next, nextPass, _⟩
        · exact passProceeds_of_failed compares holds failed
        · exact absurd nextPass (not_nextPass_of_failed failed)
  · rintro ⟨args, argv⟩ ⟨after, next⟩ goes nextEnds inductionHypothesis prepared
      words reached nonempty
    have present : argv ≠ [] := by
      rintro rfl
      exact nonempty (reached_of_nil reached)
    have meets := parseArgsPass_meets prepared present
    rw [goes] at meets
    cases meets with
    | goOn compares holds afterPrepared nextPass =>
        rcases Relation.ReflTransGen.cases_head reached with
          rfl | ⟨other, otherPass, rest⟩
        · refine ⟨compares, holds, ?_, ?_⟩
          · exact nextPass.exists_default
          · intro left option found stalls
            have same : next = argv := nextPass.eq_of_stall left found stalls
            exact not_loopEnds_of_stall compares holds present left found stalls
              afterPrepared (same ▸ nextEnds)
        · obtain rfl := nextPass.unique otherPass
          exact inductionHypothesis afterPrepared words rest nonempty

/-- `parse_args` returns 0 or a negative error, without dereferencing `NULL`,
exactly when every pass over the table proceeds: no named option follows the one
that takes the last word, the words that the named options leave go to a default
option, each pass takes a word, and no `int` overflows. -/
theorem parsesSafely_iff (args : List HmArg) (argv : List Word) :
    ParsesSafely args argv ↔ PassesProceed args argv := by
  constructor
  · rintro ⟨fuel, rc, parsed, returns, _⟩
    exact passesProceed_of_loopEnds (prepared_argsInit args) ⟨fuel, returns⟩
  · intro proceed
    obtain ⟨outcome, ⟨fuel, ran⟩, rc, parsed, rfl, le⟩ :=
      proceed.loopEnds (prepared_argsInit args)
    exact ⟨fuel, rc, parsed, ran, le⟩

end Runs

/-- `--test hello` with the options `test` and `verbose`, in this order: `--verbose`
is compared with the end of `argv`. -/
theorem not_parsesSafely_test :
    ¬ParsesSafely
      [{ name := .named ['t', 'e', 's', 't'], shortName := 't', sig := ['+'],
         action := .collect, result := .null, argCheck := none },
       { name := .named ['v', 'e', 'r', 'b', 'o', 's', 'e'], shortName := 'v',
         sig := ['0'], action := .setTrue, result := .null, argCheck := none }]
      [['-', '-', 't', 'e', 's', 't'], ['h', 'e', 'l', 'l', 'o']] := by
  rintro ⟨fuel, rc, parsed, returns, _⟩
  have ends : LoopEnds parseArgsPass _ (.returned rc parsed) :=
    ⟨fuel, returns⟩
  have stopped :=
    (loopEnds_iff_of_stop (by rfl : _ = LoopStep.stop .nullArgv)).mp ends
  cases stopped

end Hiemal

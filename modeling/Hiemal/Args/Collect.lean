import Hiemal.Args.Numbers

/-!
# The words an option collects

`_parse_arg_seq` counts the words it finds and the words it parses apart, goes back
to the first word, clamps one count, computes the other one again, and copies. Here
its loops and its two counters are spelled out, and the two counts are shown to
belong to one prefix of the words.
-/

namespace Hiemal

open Foundation

/-! ## What the loops come to -/

/-- The loop over `argv` goes on with the word: it does not look like a switch, and
it passes the check. -/
def HmArg.collects (arg : HmArg) (word : Word) : Bool :=
  ¬(arg.name ≠ .default ∧ word.head? = some '-') ∧
    arg.argCheck.all fun argCheck => argCheck word

/-- What `_parse_arg_seq` comes to: the number of words parsed, or a negative error,
and the option with its new result. -/
def parseArgSeq (arg : HmArg) (argv : List Word) : Int × HmArg :=
  match parseArgSig arg.sig with
  | none => (-1, arg)
  | some (lower, upper) =>
      let nParsed := if arg.name = .default then 0 else 1
      match arg.action with
      | .setTrue =>
          if arg.result = .null then (-1, arg)
          else (nParsed, { arg with result := .flag true })
      | .setFalse =>
          if arg.result = .null then (-1, arg)
          else (nParsed, { arg with result := .flag false })
      | .collect =>
          let nFound : Int := (argv.takeWhile arg.collects).length
          if nFound < lower ∧ nFound ≤ upper then (-1, arg)
          else
            let nFound := if upper < nFound then upper else nFound
            (nParsed + nFound,
              if 0 < nFound then
                { arg with result := .strings (argv.take nFound.toNat) }
              else arg)
      | .separate => (-1, arg)

/-- What is needed to copy words: an array of one cell more, and the words. -/
def WordsFit (argv : List Word) (count : Int) : Prop :=
  0 < count →
    count + 1 < 2 ^ 31 ∧ ∀ word ∈ argv.take count.toNat, word.length + 1 < 2 ^ 31

/-- The `int`s of `_parse_arg_seq` hold what they count: the words found and parsed, the
cells of the array, and the size of each word that is copied. -/
def HmArg.IntsHold (arg : HmArg) (argv : List Word) : Prop :=
  match parseArgSig arg.sig, arg.action with
  | some (lower, upper), .collect =>
      let nFound : Int := (argv.takeWhile arg.collects).length
      (if arg.name = .default then 0 else 1) + nFound < 2 ^ 31 ∧
        (¬(nFound < lower ∧ nFound ≤ upper) → WordsFit argv (min nFound upper))
  | _, _ => True

/-- A word is rejected exactly where the loop leaves off. -/
theorem collects_eq_false_iff (arg : HmArg) (word : Word) :
    arg.collects word = false ↔
      arg.name ≠ .default ∧ word.head? = some '-' ∨
        (arg.argCheck.any fun argCheck => argCheck word = false) = true := by
  unfold HmArg.collects
  cases arg.argCheck <;> simp [imp_iff_not_or, or_comm, and_comm]

/-- Both counters are advanced by the number of words in front that pass, as long as
the greater one stays an `int`. -/
theorem countWords_eq
    (arg : HmArg)
    (argv : List Word)
    {nFound nParsed : Int}
    (ordered : nFound ≤ nParsed)
    (small : nParsed < 2 ^ 31) :
    countWords arg argv (nFound, nParsed) =
      if nParsed + (argv.takeWhile arg.collects).length < 2 ^ 31 then
        some (nFound + (argv.takeWhile arg.collects).length,
          nParsed + (argv.takeWhile arg.collects).length)
      else none := by
  have stops {words : List Word} {nFound nParsed : Int} (small : nParsed < 2 ^ 31)
      (nothing : words.takeWhile arg.collects = []) :
      some (nFound, nParsed) =
        if nParsed + (words.takeWhile arg.collects).length < 2 ^ 31 then
          some (nFound + (words.takeWhile arg.collects).length,
            nParsed + (words.takeWhile arg.collects).length)
        else none := by
    rw [nothing, List.length_nil, Int.natCast_zero, Int.add_zero, Int.add_zero,
      if_pos small]
  induction argv generalizing nFound nParsed with
  | nil => exact stops small rfl
  | cons word argv inductionHypothesis =>
      have leaves := collects_eq_false_iff arg word
      rw [countWords]
      by_cases switch : arg.name ≠ .default ∧ word.head? = some '-'
      · rw [if_pos switch]
        apply stops small
        rw [List.takeWhile_cons, leaves.mpr (.inl switch)]
        rfl
      · rw [if_neg switch]
        by_cases fails : (arg.argCheck.any fun argCheck => argCheck word = false) = true
        · rw [if_pos fails]
          apply stops small
          rw [List.takeWhile_cons, leaves.mpr (.inr fails)]
          rfl
        · have goesOn : arg.collects word = true := by
            rw [← Bool.not_eq_false, leaves]
            exact not_or.mpr ⟨switch, fails⟩
          have counted :
              (((word :: argv).takeWhile arg.collects).length : Int) =
                1 + (argv.takeWhile arg.collects).length := by
            rw [List.takeWhile_cons, goesOn, if_pos rfl, List.length_cons,
              Int.natCast_succ, Int.add_comm]
          rw [if_neg fails, counted]
          by_cases counts : nFound + 1 < 2 ^ 31 ∧ nParsed + 1 < 2 ^ 31
          · rw [if_pos counts, inductionHypothesis (by omega) counts.2, Int.add_assoc,
              Int.add_assoc]
          · rw [if_neg counts, if_neg (by omega)]

/-- A word is copied whose size is an `int`. -/
theorem copyWord_eq_some_iff {word copied : Word} :
    copyWord word = some copied ↔ word.length + 1 < 2 ^ 31 ∧ word = copied := by
  rw [copyWord, ← toSigned_natCast_eq_iff 31]
  split
  · rename_i fits
    rw [Option.some.injEq, and_iff_right fits]
  · rename_i long
    constructor
    · intro copies
      cases copies
    · rintro ⟨fits, _⟩
      exact absurd fits long

/-- The loop that copies stays within the words. -/
theorem copyWords_eq_some_iff
    {argv copied : List Word}
    {count : Nat}
    (within : count ≤ argv.length) :
    copyWords argv count = some copied ↔
      (∀ word ∈ argv.take count, word.length + 1 < 2 ^ 31) ∧
        argv.take count = copied := by
  induction count generalizing copied with
  | zero =>
      rw [copyWords, List.take_zero, Option.some.injEq, and_iff_right]
      intro word member
      cases member
  | succ count inductionHypothesis =>
      have inside : count < argv.length := within
      have taken : argv.take (count + 1) = argv.take count ++ [argv[count]] := by
        rw [List.take_add_one, List.getElem?_eq_getElem inside]
        rfl
      rw [copyWords, taken, List.forall_mem_append, List.forall_mem_singleton]
      simp only [Option.bind_eq_bind, Option.bind_eq_some_iff,
        inductionHypothesis (Nat.le_of_lt inside), copyWord_eq_some_iff,
        List.getElem?_eq_getElem inside, Option.pure_def, Option.some.injEq]
      constructor
      · rintro ⟨_, ⟨short, rfl⟩, _, rfl, _, ⟨fits, rfl⟩, same⟩
        exact ⟨⟨short, fits⟩, same⟩
      · rintro ⟨⟨short, fits⟩, same⟩
        exact ⟨_, ⟨short, rfl⟩, _, rfl, _, ⟨fits, rfl⟩, same⟩

theorem storeWords_eq_some_iff
    {arg : HmArg}
    {argv : List Word}
    {nFound nParsed : Int}
    (within : nFound ≤ argv.length)
    (result : Int × HmArg) :
    storeWords arg argv nFound nParsed = some result ↔
      WordsFit argv nFound ∧
        (nParsed,
          if 0 < nFound then
            { arg with result := .strings (argv.take nFound.toNat) }
          else arg) = result := by
  unfold storeWords WordsFit
  by_cases found : 0 < nFound
  · rw [if_pos found, if_pos found]
    by_cases cells : nFound + 1 < 2 ^ 31
    · have copies (copied : List Word) :=
        @copyWords_eq_some_iff argv copied nFound.toNat (by omega)
      rw [if_pos cells]
      simp only [Option.bind_eq_bind, Option.bind_eq_some_iff, copies,
        Option.pure_def, Option.some.injEq]
      constructor
      · rintro ⟨copied, ⟨short, rfl⟩, same⟩
        exact ⟨fun _ => ⟨cells, short⟩, same⟩
      · rintro ⟨fit, same⟩
        exact ⟨_, ⟨(fit found).2, rfl⟩, same⟩
    · rw [if_neg cells]
      constructor
      · intro stored
        cases stored
      · rintro ⟨fit, _⟩
        exact absurd (fit found).1 cells
  · rw [if_neg found, if_neg found, Option.some.injEq]
    exact (and_iff_right fun positive => absurd positive found).symm

/-- The loops and the counters come to the same as the longest prefix that passes, as
long as the `int`s hold what they count. -/
theorem parseArgSeqCounted_eq_some_iff
    {arg : HmArg}
    {argv : List Word}
    {result : Int × HmArg} :
    parseArgSeqCounted arg argv = some result ↔
      arg.IntsHold argv ∧ parseArgSeq arg argv = result := by
  unfold parseArgSeqCounted parseArgSeq HmArg.IntsHold
  cases parseArgSig arg.sig with
  | none => simp
  | some range =>
      obtain ⟨lower, upper⟩ := range
      cases action : arg.action with
      | setTrue => by_cases empty : arg.result = .null <;> simp [empty]
      | setFalse => by_cases empty : arg.result = .null <;> simp [empty]
      | separate => simp
      | collect =>
          have within : ((argv.takeWhile arg.collects).length : Int) ≤ argv.length :=
            Int.ofNat_le.mpr (List.takeWhile_prefix _).length_le
          have start : (0 : Int) ≤ if arg.name ≠ .default then 1 else 0 := by
            split <;> omega
          have startSmall :
              (if arg.name ≠ .default then 1 else 0 : Int) < 2 ^ 31 := by
            split <;> omega
          have counted := countWords_eq arg argv start startSmall
          have named : (if arg.name ≠ .default then 1 else 0 : Int) =
              if arg.name = .default then 0 else 1 := ite_not ..
          dsimp only
          rw [counted, Int.zero_add, named]
          generalize ((argv.takeWhile arg.collects).length : Int) = found at within ⊢
          by_cases counts : (if arg.name = .default then 0 else 1) + found < 2 ^ 31
          · rw [if_pos counts, and_iff_right counts]
            dsimp only
            by_cases many : upper < found
            · have notFew : ¬(found < lower ∧ found ≤ upper) := by omega
              have clamped :
                  (if arg.name = .default then upper else upper + 1) =
                    (if arg.name = .default then 0 else 1) + upper := by
                split <;> omega
              rw [if_pos many, storeWords_eq_some_iff (by omega), if_neg notFew,
                if_pos many, min_eq_right (Int.le_of_lt many), clamped, action,
                imp_iff_right notFew]
            · rw [if_neg many, if_neg many]
              by_cases few : found < lower
              · have both : found < lower ∧ found ≤ upper := ⟨few, by omega⟩
                rw [if_pos few, if_pos both, Option.some.injEq]
                exact (and_iff_right fun notFew => absurd both notFew).symm
              · have notFew : ¬(found < lower ∧ found ≤ upper) := fun both => few both.1
                rw [if_neg few, if_neg notFew, storeWords_eq_some_iff (by omega),
                  min_eq_left (by omega), imp_iff_right notFew, action]
          · rw [if_neg counts]
            constructor
            · intro returned
              cases returned
            · rintro ⟨⟨held, _⟩, _⟩
              exact absurd held counts

/-- So `_parse_arg_seq` returns that. -/
theorem parseArgSeqCounted_eq
    {arg : HmArg}
    {argv : List Word}
    (holds : arg.IntsHold argv) :
    parseArgSeqCounted arg argv = some (parseArgSeq arg argv) :=
  parseArgSeqCounted_eq_some_iff.mpr ⟨holds, rfl⟩

theorem parseArgSeqCounted_eq_none_iff {arg : HmArg} {argv : List Word} :
    parseArgSeqCounted arg argv = none ↔ ¬arg.IntsHold argv := by
  constructor
  · intro overflows holds
    rw [parseArgSeqCounted_eq holds] at overflows
    cases overflows
  · intro overflows
    apply Option.eq_none_iff_forall_ne_some.mpr
    intro result returns
    exact overflows (parseArgSeqCounted_eq_some_iff.mp returns).1

/-! ## The longest prefix -/

/-- The word passes the check, if there is one, and for a named option it does not
start with a dash. -/
def HmArg.Passes (arg : HmArg) (word : Word) : Prop :=
  (arg.name ≠ .default → word.head? ≠ some '-') ∧
    ∀ argCheck, arg.argCheck = some argCheck → argCheck word = true

/-- The longest prefix of words that all pass has the given length. -/
structure LongestPrefix (arg : HmArg) (argv : List Word) (count : Nat) : Prop where
  within : count ≤ argv.length
  passes : ∀ word ∈ argv.take count, arg.Passes word
  longest : ∀ longer ≤ argv.length,
    (∀ word ∈ argv.take longer, arg.Passes word) → longer ≤ count

theorem collects_iff (arg : HmArg) (word : Word) :
    arg.collects word = true ↔ arg.Passes word := by
  rw [← Bool.not_eq_false, collects_eq_false_iff]
  unfold HmArg.Passes
  cases arg.argCheck <;> simp

theorem longestPrefix_collects (arg : HmArg) (argv : List Word) :
    LongestPrefix arg argv (argv.takeWhile arg.collects).length where
  within := (List.takeWhile_prefix arg.collects).length_le
  passes := by
    intro word member
    rw [← List.prefix_iff_eq_take.mp (List.takeWhile_prefix arg.collects)] at member
    apply (collects_iff arg word).mp
    exact List.all_eq_true.mp List.all_takeWhile word member
  longest := by
    intro longer within passes
    have pass : ∀ word ∈ argv.take longer, arg.collects word = true :=
      fun word member => (collects_iff arg word).mpr (passes word member)
    have split :
        (argv.take longer ++ argv.drop longer).takeWhile arg.collects =
          argv.take longer ++ (argv.drop longer).takeWhile arg.collects :=
      List.takeWhile_append_of_pos pass
    rw [List.take_append_drop] at split
    rw [split, List.length_append, List.length_take, Nat.min_eq_left within]
    exact Nat.le_add_right _ _

theorem LongestPrefix.unique
    {arg : HmArg}
    {argv : List Word}
    {count other : Nat}
    (longest : LongestPrefix arg argv count)
    (otherLongest : LongestPrefix arg argv other) :
    count = other :=
  Nat.le_antisymm (otherLongest.longest count longest.within longest.passes)
    (longest.longest other otherLongest.within otherLongest.passes)

/-- `_parse_arg_seq` makes of the longest prefix of words that pass what it should:
with too few words it fails and leaves the result as it is, and otherwise it copies as
many as the signature allows. -/
def CollectsPrefix
    (arg : HmArg)
    (argv : List Word)
    (lower upper : Int) : Prop :=
  ∃ m, LongestPrefix arg argv m ∧
    ((m : Int) < lower → parseArgSeqCounted arg argv = some (-1, arg)) ∧
      (lower ≤ m → ∃ k : Nat, (k : Int) = min (m : Int) upper ∧
        parseArgSeqCounted arg argv = some
          (if arg.name = .default then (k : Int) else k + 1,
            if 0 < k then { arg with result := .strings (argv.take k) } else arg))

section Prefix

variable {arg : HmArg} {argv : List Word} {lower upper : Int}

theorem intsHold_iff
    (action : arg.action = .collect)
    (signature : parseArgSig arg.sig = some (lower, upper))
    (ordered : lower ≤ upper)
    {m : Nat}
    (longest : LongestPrefix arg argv m) :
    arg.IntsHold argv ↔
      (if arg.name = .default then 0 else 1) + (m : Int) < 2 ^ 31 ∧
        (lower ≤ m → WordsFit argv (min m upper)) := by
  obtain rfl := longest.unique (longestPrefix_collects arg argv)
  rw [HmArg.IntsHold, signature, action]
  dsimp only
  have enough : ¬(((argv.takeWhile arg.collects).length : Int) < lower ∧
      ((argv.takeWhile arg.collects).length : Int) ≤ upper) ↔
        lower ≤ (argv.takeWhile arg.collects).length := by
    omega
  rw [enough]

/-- It does so as long as its `int`s hold what they count. -/
theorem collectsPrefix_iff_intsHold
    (action : arg.action = .collect)
    (signature : parseArgSig arg.sig = some (lower, upper))
    (nonnegative : 0 ≤ lower)
    (ordered : lower ≤ upper) :
    CollectsPrefix arg argv lower upper ↔ arg.IntsHold argv := by
  constructor
  · rintro ⟨m, _, few, enough⟩
    by_cases less : (m : Int) < lower
    · exact (parseArgSeqCounted_eq_some_iff.mp (few less)).1
    · obtain ⟨k, _, returned⟩ := enough (by omega)
      exact (parseArgSeqCounted_eq_some_iff.mp returned).1
  · intro holds
    refine ⟨_, longestPrefix_collects arg argv, ?_⟩
    rw [parseArgSeqCounted_eq holds, parseArgSeq, signature, action]
    dsimp only
    generalize (argv.takeWhile arg.collects).length = m
    constructor
    · intro few
      rw [if_pos ⟨few, by omega⟩]
    · intro enough
      refine ⟨(min (m : Int) upper).toNat, by omega, ?_⟩
      have clamped :
          (if upper < (m : Int) then upper else m) = min (m : Int) upper := by
        split <;> omega
      have notFew : ¬((m : Int) < lower ∧ (m : Int) ≤ upper) := by omega
      rw [if_neg notFew, clamped, Int.toNat_of_nonneg (by omega)]
      congr 2
      · by_cases unnamed : arg.name = .default
        · rw [if_pos unnamed, if_pos unnamed, Int.zero_add]
        · rw [if_neg unnamed, if_neg unnamed, Int.add_comm]
      · by_cases some : 0 < min (m : Int) upper
        · rw [if_pos some, if_pos (by omega)]
        · rw [if_neg some, if_neg (by omega)]

/-- What `_parse_arg_seq` makes of the longest prefix of words that pass, exactly if
the words it finds, the cells of its array and the sizes of the words it copies are
`int`s. -/
theorem parseArgSeqCounted_longestPrefix
    (action : arg.action = .collect)
    (signature : parseArgSig arg.sig = some (lower, upper))
    (nonnegative : 0 ≤ lower)
    (ordered : lower ≤ upper) :
    CollectsPrefix arg argv lower upper ↔
      ∀ m, LongestPrefix arg argv m →
        (if arg.name = .default then 0 else 1) + (m : Int) < 2 ^ 31 ∧
          (lower ≤ m → WordsFit argv (min m upper)) := by
  rw [collectsPrefix_iff_intsHold action signature nonnegative ordered]
  constructor
  · intro holds m longest
    exact (intsHold_iff action signature ordered longest).mp holds
  · intro fits
    have longest := longestPrefix_collects arg argv
    exact (intsHold_iff action signature ordered longest).mpr (fits _ longest)

end Prefix

/-- Of three words an option for two takes the first two. -/
theorem parseArgSeqCounted_longestPrefix_two :
    CollectsPrefix ⟨.named ['t'], 't', ['2'], .collect, .null, none⟩
      [['a'], ['b'], ['c'], ['-', 'd']] 2 2 := by
  apply (parseArgSeqCounted_longestPrefix rfl (by decide) (by decide)
    (by decide)).mpr
  intro m longest
  have three : m = 3 := longest.unique (longestPrefix_collects _ _)
  rw [three]
  refine ⟨by decide, fun _ _ => ⟨by decide, ?_⟩⟩
  intro word member
  have short : word.length = 1 := by
    revert word
    decide
  omega

/-- The size of a word of `INT_MAX` characters is no `int`. -/
theorem not_collectsPrefix_long :
    ¬CollectsPrefix ⟨.default, 't', ['+'], .collect, .null, none⟩
      [List.replicate (2 ^ 31 - 1) 'a'] 1 (2 ^ 31 - 1) := by
  have longest : LongestPrefix ⟨.default, 't', ['+'], .collect, .null, none⟩
      [List.replicate (2 ^ 31 - 1) 'a'] 1 :=
    longestPrefix_collects ⟨.default, 't', ['+'], .collect, .null, none⟩
      [List.replicate (2 ^ 31 - 1) 'a']
  rw [collectsPrefix_iff_intsHold rfl rfl (by decide) (by decide),
    intsHold_iff rfl rfl (by decide) longest]
  rintro ⟨_, fits⟩
  have short := (fits (by decide) (by decide)).2 _ List.mem_cons_self
  rw [List.length_replicate] at short
  omega

end Hiemal

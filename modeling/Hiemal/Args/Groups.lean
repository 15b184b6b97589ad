import Hiemal.Args.Passes
import Mathlib.Data.List.Nodup

/-!
# Groups of words

A command line made of complete groups, each a switch with values of its option. The
table is passed over once, and an option is compared with one word only, so the
groups have to come in the order of the table, and the last option of the table has
to be among those chosen.
-/

namespace Hiemal

open Foundation

/-! ## Groups -/

/-- The words an option answers to. -/
def HmArg.switches (arg : HmArg) : List Word :=
  match arg.name with
  | .default => []
  | .named name => [longOpt name, shortOpt arg.shortName]

/-- An option that is chosen on the command line. -/
structure ArgGroup where
  arg : HmArg
  switch : Word
  values : List Word

/-- The switch is one of the option, and its signature and its check allow the
values, none of which starts with `-`. -/
structure ArgGroup.Complete (group : ArgGroup) : Prop where
  answers : group.switch ∈ group.arg.switches
  allowed : ∃ lower upper, parseArgSig group.arg.sig = some (lower, upper) ∧
    lower ≤ group.values.length ∧ group.values.length ≤ upper
  plain : ∀ value ∈ group.values, value.head? ≠ some '-'
  checked : ∀ value ∈ group.values,
    group.arg.argCheck.all fun argCheck => argCheck value

/-- The `int`s of `_parse_arg_seq` hold the number of the values and their sizes, where
they are collected. -/
def ArgGroup.Fits (group : ArgGroup) : Prop :=
  group.arg.action = .collect →
    group.values.length + 1 < 2 ^ 31 ∧
      ∀ value ∈ group.values, value.length + 1 < 2 ^ 31

/-- The words of some groups. -/
def commandLine (groups : List ArgGroup) : List Word :=
  groups.flatMap fun group => group.switch :: group.values

/-- A table of named options that differ in their long and in their short names. -/
structure NamedTable (args : List HmArg) : Prop where
  named : ∀ arg ∈ args, arg.name ≠ .default
  longNames : (args.map HmArg.name).Nodup
  shortNames : (args.map HmArg.shortName).Nodup
  notNul : ∀ arg ∈ args, arg.shortName ≠ '\x00'

/-- One complete group for each of some options of a table. -/
structure Chosen (args : List HmArg) (groups : List ArgGroup) : Prop where
  fromTable : ∀ group ∈ groups, group.arg ∈ args
  once : (groups.map fun group => group.arg.name).Nodup
  complete : ∀ group ∈ groups, group.Complete

/-- The option with the values of its group. An option without values keeps its
result. -/
def ArgGroup.served (group : ArgGroup) (arg : HmArg) : HmArg :=
  match arg.action with
  | .setTrue => { arg with result := .flag true }
  | .setFalse => { arg with result := .flag false }
  | .collect =>
      if group.values = [] then arg
      else { arg with result := .strings group.values }
  | .separate => arg

/-- An option of the table with the values of its group, wherever that is, or
without any. -/
def servedBy (groups : List ArgGroup) (arg : HmArg) : HmArg :=
  match groups.find? fun group => group.arg.name = arg.name with
  | some group => group.served (argInit arg)
  | none => argInit arg

/-- `parse_args` returns 0 and gives each chosen option exactly its own values. -/
def GivesOwnValues (args : List HmArg) (groups : List ArgGroup) : Prop :=
  ∃ fuel,
    parseArgs fuel (argsInit args) (commandLine groups) =
      some (.returned 0 (args.map (servedBy groups)))

/-- No option but that of the group answers to the switch of a group. -/
def OwnSwitches (args : List HmArg) (groups : List ArgGroup) : Prop :=
  ∀ group ∈ groups, ∀ arg ∈ args, group.switch ∈ arg.switches →
    arg = group.arg

/-- On the way through the table each switch finds the option of its group, before any
other that answers to it. -/
def FindsOwn : List HmArg → List ArgGroup → Prop
  | arg :: args, group :: groups =>
      if arg.name = group.arg.name then FindsOwn args groups
      else group.switch ∉ arg.switches ∧ FindsOwn args (group :: groups)
  | _, _ => True

/-- The groups come in the order of the table, and the last one is that of its last
option; options that collect nothing have no values, and the others have no more and no
longer ones than an `int` counts; and no other option is in the way of a switch. -/
structure InTableOrder (args : List HmArg) (groups : List ArgGroup) : Prop where
  order : (groups.map ArgGroup.arg).Sublist args
  last : (groups.map ArgGroup.arg).getLast? = args.getLast?
  bare : ∀ group ∈ groups,
    group.arg.action ≠ .separate ∧
      (group.arg.action ≠ .collect → group.values = [])
  fits : ∀ group ∈ groups, group.Fits
  own : FindsOwn args groups

/-! ## What the options should get -/

section Served

variable {groups permuted : List ArgGroup} {group : ArgGroup} {arg : HmArg}

/-- A chosen option gets its own group. -/
theorem servedBy_of_mem
    (once : (groups.map fun group => group.arg.name).Nodup)
    (member : group ∈ groups)
    (name : group.arg.name = arg.name) :
    servedBy groups arg = group.served (argInit arg) := by
  cases found : groups.find? fun group => group.arg.name = arg.name with
  | none =>
      have other := List.find?_eq_none.mp found group member
      simp [name] at other
  | some first =>
      have firstName : first.arg.name = arg.name := by
        simpa using List.find?_some found
      have same : first = group :=
        List.inj_on_of_nodup_map once (List.mem_of_find?_eq_some found) member
          (firstName.trans name.symm)
      rw [servedBy, found, same]

theorem servedBy_of_not_mem
    (absent : ∀ group ∈ groups, group.arg.name ≠ arg.name) :
    servedBy groups arg = argInit arg := by
  have none : (groups.find? fun group => group.arg.name = arg.name) = none := by
    apply List.find?_eq_none.mpr
    intro group member
    simpa using absent group member
  rw [servedBy, none]

/-- Where the groups stand on the command line does not matter. -/
theorem servedBy_perm
    (once : (groups.map fun group => group.arg.name).Nodup)
    (perm : groups.Perm permuted) :
    servedBy permuted = servedBy groups := by
  funext arg
  by_cases chosen : ∃ group ∈ groups, group.arg.name = arg.name
  · obtain ⟨group, member, name⟩ := chosen
    rw [servedBy_of_mem once member name,
      servedBy_of_mem ((perm.map _).nodup_iff.mp once) (perm.mem_iff.mp member)
        name]
  · have absent (group : ArgGroup) (member : group ∈ groups) :
        group.arg.name ≠ arg.name :=
      fun name => chosen ⟨group, member, name⟩
    rw [servedBy_of_not_mem absent, servedBy_of_not_mem fun group member =>
      absent group (perm.mem_iff.mpr member)]

/-- Groups of other options do not matter for an option. -/
theorem servedBy_cons_of_ne (apart : group.arg.name ≠ arg.name) :
    servedBy (group :: groups) arg = servedBy groups arg := by
  rw [servedBy, servedBy, List.find?_cons_of_neg (by simpa using apart)]

end Served

/-! ## The words of a group -/

section Words

variable {arg : HmArg} {args : List HmArg} {group : ArgGroup}
variable {groups : List ArgGroup} {word : Word} {words : List Word}

theorem head?_of_mem_switches (switch : word ∈ arg.switches) :
    word.head? = some '-' := by
  unfold HmArg.switches at switch
  split at switch
  · cases switch
  · rename_i name _
    have either : word = longOpt name ∨ word = shortOpt arg.shortName := by
      simpa using switch
    rcases either with rfl | rfl
    · rfl
    · unfold shortOpt
      split <;> rfl

theorem commandLine_cons (group : ArgGroup) (groups : List ArgGroup) :
    commandLine (group :: groups) =
      group.switch :: (group.values ++ commandLine groups) :=
  rfl

/-- What follows the values of a group is the end of the words or a switch. -/
theorem head?_commandLine
    (complete : ∀ group ∈ groups, group.Complete)
    (head : (commandLine groups).head? = some word) :
    word.head? = some '-' := by
  cases groups with
  | nil => cases head
  | cons group groups =>
      cases head
      exact head?_of_mem_switches
        (complete group List.mem_cons_self).answers

/-- An option collects the values of its group and stops there. -/
theorem takeWhile_collects
    (named : group.arg.name ≠ .default)
    (complete : group.Complete)
    (stops : ∀ word, words.head? = some word → word.head? = some '-') :
    (group.values ++ words).takeWhile group.arg.collects = group.values := by
  have collected (value : Word) (member : value ∈ group.values) :
      group.arg.collects value = true := by
    simp only [HmArg.collects, complete.checked value member]
    simp [complete.plain value member]
  have stopped : words.takeWhile group.arg.collects = [] := by
    cases words with
    | nil => rfl
    | cons word words =>
        have switch := stops word rfl
        rw [List.takeWhile_cons_of_neg]
        simp [HmArg.collects, named, switch]
  rw [List.takeWhile_append_of_pos collected, stopped, List.append_nil]

/-- A chosen option that collects parses its switch and its values. -/
theorem parseArgSeq_collect
    (named : group.arg.name ≠ .default)
    (complete : group.Complete)
    (action : group.arg.action = .collect)
    (stops : ∀ word, words.head? = some word → word.head? = some '-') :
    parseArgSeq (argInit group.arg) (group.values ++ words) =
      ((1 + group.values.length : Int), group.served (argInit group.arg)) := by
  have initial : argInit group.arg = group.arg := by
    rw [argInit, action]
  obtain ⟨lower, upper, signature, least, most⟩ := complete.allowed
  rw [initial, parseArgSeq, signature, action]
  dsimp only
  rw [takeWhile_collects named complete stops, if_neg (by omega), if_neg named,
    if_neg (by omega), ArgGroup.served, action]
  dsimp only
  by_cases bare : group.values = []
  · rw [bare, if_neg (by simp), if_pos rfl]
  · have some : 0 < group.values.length := List.length_pos_of_ne_nil bare
    rw [if_pos (by omega), if_neg bare, Int.toNat_natCast, List.take_left]

/-- Behind a group come the others. -/
theorem drop_group (group : ArgGroup) (words : List Word) :
    (group.switch :: (group.values ++ words)).drop
        (1 + group.values.length : Int).toNat = words := by
  rw [show (1 + group.values.length : Int).toNat = group.values.length + 1 by
    omega, List.drop_succ_cons, List.drop_left]

/-- A chosen flag parses its switch only. -/
theorem parseArgSeq_flag
    (named : group.arg.name ≠ .default)
    (complete : group.Complete)
    (collects : group.arg.action ≠ .collect)
    (separates : group.arg.action ≠ .separate) :
    parseArgSeq (argInit group.arg) words =
      (1, group.served (argInit group.arg)) := by
  obtain ⟨lower, upper, signature, _⟩ := complete.allowed
  cases action : group.arg.action with
  | collect => exact absurd action collects
  | separate => exact absurd action separates
  | setTrue => simp [argInit, parseArgSeq, ArgGroup.served, action, signature, named]
  | setFalse => simp [argInit, parseArgSeq, ArgGroup.served, action, signature, named]

/-- An option that separates fails. -/
theorem parseArgSeq_separate
    (complete : group.Complete)
    (action : group.arg.action = .separate) :
    parseArgSeq (argInit group.arg) words = (-1, argInit group.arg) := by
  obtain ⟨lower, upper, signature, _⟩ := complete.allowed
  simp [argInit, parseArgSeq, action, signature]

/-- A chosen option that can be served parses its group. -/
theorem parseArgSeq_group
    (named : group.arg.name ≠ .default)
    (complete : group.Complete)
    (others : ∀ group ∈ groups, group.Complete)
    (bare : group.arg.action ≠ .separate ∧
      (group.arg.action ≠ .collect → group.values = [])) :
    parseArgSeq (argInit group.arg) (group.values ++ commandLine groups) =
      ((1 + group.values.length : Int), group.served (argInit group.arg)) := by
  by_cases action : group.arg.action = .collect
  · exact parseArgSeq_collect named complete action fun _ =>
      head?_commandLine others
  · rw [parseArgSeq_flag named complete action bare.1, bare.2 action]
    rfl

/-- The `int`s hold what is counted of a group exactly if it fits. -/
theorem intsHold_group
    (named : group.arg.name ≠ .default)
    (complete : group.Complete)
    (others : ∀ group ∈ groups, group.Complete) :
    (argInit group.arg).IntsHold (group.values ++ commandLine groups) ↔
      group.Fits := by
  obtain ⟨lower, upper, signature, least, most⟩ := complete.allowed
  by_cases action : group.arg.action = .collect
  · have initial : argInit group.arg = group.arg := by
      rw [argInit, action]
    rw [initial, HmArg.IntsHold, signature, action]
    dsimp only
    rw [takeWhile_collects named complete fun _ => head?_commandLine others,
      if_neg named, min_eq_left most, WordsFit, Int.toNat_natCast, List.take_left,
      ArgGroup.Fits, imp_iff_right action]
    constructor
    · rintro ⟨counts, fits⟩
      refine ⟨by omega, fun value member => ?_⟩
      have some : 0 < group.values.length := List.length_pos_of_mem member
      exact (fits (by omega) (by omega)).2 value member
    · rintro ⟨counts, short⟩
      exact ⟨by omega, fun _ _ => ⟨by omega, short⟩⟩
  · have other : (argInit group.arg).IntsHold (group.values ++ commandLine groups) := by
      unfold argInit HmArg.IntsHold
      cases kind : group.arg.action <;> simp_all
    exact iff_of_true other fun collects => absurd collects action

/-- A chosen option that can be served parses its group, if that fits. -/
theorem parseArgSeqCounted_group
    (named : group.arg.name ≠ .default)
    (complete : group.Complete)
    (others : ∀ group ∈ groups, group.Complete)
    (bare : group.arg.action ≠ .separate ∧
      (group.arg.action ≠ .collect → group.values = []))
    (fits : group.Fits) :
    parseArgSeqCounted (argInit group.arg) (group.values ++ commandLine groups) =
      some ((1 + group.values.length : Int),
        group.served (argInit group.arg)) := by
  rw [parseArgSeqCounted_eq ((intsHold_group named complete others).mpr fits),
    parseArgSeq_group named complete others bare]

/-- In a table of named options only `--` can be a switch of two of them: of one with
an empty long name and of one with the short name `-`. -/
theorem NamedTable.ownSwitches
    (table : NamedTable args)
    (chosen : Chosen args groups)
    (noDashes : ∀ arg ∈ args, arg.shortName = '-' →
      ∀ group ∈ groups, group.switch ≠ ['-', '-']) :
    OwnSwitches args groups := by
  have short {option : HmArg} (member : option ∈ args) :
      shortOpt option.shortName = ['-', option.shortName] :=
    if_neg (table.notNul option member)
  -- A long switch that is also a short one is `--`.
  have apart {option : HmArg} (member : option ∈ args) {group : ArgGroup}
      (groupMember : group ∈ groups) {name : Word}
      (isLong : group.switch = longOpt name)
      (isShort : group.switch = shortOpt option.shortName) : False := by
    rw [isShort, short member, longOpt] at isLong
    simp only [List.cons.injEq, true_and] at isLong
    apply noDashes option member isLong.1 group groupMember
    rw [isShort, short member, isLong.1]
  intro group groupMember arg argMember ofArg
  have optionMember := chosen.fromTable group groupMember
  have ofGroup := (chosen.complete group groupMember).answers
  unfold HmArg.switches at ofArg ofGroup
  cases argName : arg.name with
  | default => exact absurd argName (table.named arg argMember)
  | named argLong =>
      cases groupName : group.arg.name with
      | default => exact absurd groupName (table.named group.arg optionMember)
      | named groupLong =>
          rw [argName] at ofArg
          rw [groupName] at ofGroup
          simp only [List.mem_cons, List.not_mem_nil, or_false] at ofArg ofGroup
          rcases ofArg with argIsLong | argIsShort
          · rcases ofGroup with groupIsLong | groupIsShort
            · have names : arg.name = group.arg.name := by
                rw [argName, groupName]
                simpa [longOpt] using argIsLong.symm.trans groupIsLong
              exact List.inj_on_of_nodup_map table.longNames argMember
                optionMember names
            · exact (apart optionMember groupMember argIsLong groupIsShort).elim
          · rcases ofGroup with groupIsLong | groupIsShort
            · exact (apart argMember groupMember groupIsLong argIsShort).elim
            · have names : arg.shortName = group.arg.shortName := by
                have same := argIsShort.symm.trans groupIsShort
                rw [short argMember, short optionMember] at same
                simpa using same
              exact List.inj_on_of_nodup_map table.shortNames argMember
                optionMember names

end Words

/-! ## The loop over the table -/

section Scan

variable {arg : HmArg} {args : List HmArg} {word : Word} {words rest : List Word}

theorem argInit_name (arg : HmArg) : (argInit arg).name = arg.name := by
  unfold argInit
  split <;> rfl

theorem argInit_shortName (arg : HmArg) :
    (argInit arg).shortName = arg.shortName := by
  unfold argInit
  split <;> rfl

/-- A named option is compared with the end of `argv`. -/
theorem scanArgs_nil (named : arg.name ≠ .default) :
    scanArgs (argInit arg :: args) [] = .nullArgv := by
  cases name : arg.name with
  | default => exact absurd name named
  | named long => simp [scanArgs, argInit_name, name]

/-- An option that does not answer is passed over. -/
theorem scanArgs_of_not_mem
    (named : arg.name ≠ .default)
    (silent : word ∉ arg.switches) :
    scanArgs (argInit arg :: args) (word :: words) =
      (scanArgs args (word :: words)).cons (argInit arg) := by
  cases name : arg.name with
  | default => exact absurd name named
  | named long =>
      have differs : ¬(longOpt long = word ∨ shortOpt arg.shortName = word) := by
        simpa [HmArg.switches, name, eq_comm] using silent
      simp only [scanArgs, argInit_name, argInit_shortName, name, if_neg differs]

/-- An option that answers parses its words. -/
theorem scanArgs_of_mem (switch : word ∈ arg.switches) :
    scanArgs (argInit arg :: args) (word :: words) =
      match parseArgSeqCounted (argInit arg) words with
      | none => .overflow
      | some (nParsed, parsed) =>
          if nParsed < 0 then .returned nParsed (parsed :: args)
          else (scanArgs args ((word :: words).drop nParsed.toNat)).cons parsed := by
  cases name : arg.name with
  | default => simp [HmArg.switches, name] at switch
  | named long =>
      have answers : longOpt long = word ∨ shortOpt arg.shortName = word := by
        simpa [HmArg.switches, name, eq_comm] using switch
      cases counted : parseArgSeqCounted (argInit arg) words with
      | none =>
          simp only [scanArgs, argInit_name, argInit_shortName, name, if_pos answers,
            counted]
      | some result =>
          simp only [scanArgs, argInit_name, argInit_shortName, name, if_pos answers,
            counted]

/-- Where the loop over the table goes on, the `int`s hold what is counted. -/
theorem intsHold_of_scanned
    {after : List HmArg}
    (switch : word ∈ arg.switches)
    (scanned : scanArgs (argInit arg :: args) (word :: words) =
      .scanned after rest) :
    (argInit arg).IntsHold words := by
  by_contra overflows
  rw [scanArgs_of_mem switch, parseArgSeqCounted_eq_none_iff.mpr overflows] at scanned
  cases scanned

/-- Words that begin with no switch stay. -/
theorem scanArgs_plain
    (named : ∀ arg ∈ args, arg.name ≠ .default)
    (plain : word.head? ≠ some '-') :
    scanArgs (args.map argInit) (word :: words) =
      .scanned (args.map argInit) (word :: words) := by
  induction args with
  | nil => rfl
  | cons arg args inductionHypothesis =>
      rw [List.forall_mem_cons] at named
      rw [List.map_cons, scanArgs_of_not_mem named.1
        fun switch => plain (head?_of_mem_switches switch),
        inductionHypothesis named.2, ScanOutcome.cons]

theorem ScanOutcome.cons_eq_scanned
    {outcome : ScanOutcome}
    (scanned : outcome.cons arg = .scanned args rest) :
    ∃ after, outcome = .scanned after rest ∧ args = arg :: after := by
  cases outcome with
  | scanned after left =>
      cases scanned
      exact ⟨after, rfl, rfl⟩
  | returned rc after => cases scanned
  | nullArgv => cases scanned
  | overflow => cases scanned

end Scan

/-! ## The order of the groups -/

/-- Some of the entries of a list, in order, the last one among them. -/
inductive ReachesEnd {α : Type} : List α → List α → Prop
  | done : ReachesEnd [] []
  | skip {first chosen : α} {rest others : List α}
      (later : ReachesEnd rest (chosen :: others)) :
      ReachesEnd (first :: rest) (chosen :: others)
  | choose {first : α} {rest others : List α}
      (later : ReachesEnd rest others) :
      ReachesEnd (first :: rest) (first :: others)

theorem ReachesEnd.sublist
    {α : Type}
    {entries chosen : List α}
    (reaches : ReachesEnd entries chosen) :
    chosen.Sublist entries := by
  induction reaches with
  | done => exact .slnil
  | skip _ inductionHypothesis => exact .cons _ inductionHypothesis
  | choose _ inductionHypothesis => exact .cons_cons _ inductionHypothesis

theorem reachesEnd_iff
    {α : Type}
    {entries chosen : List α}
    (distinct : entries.Nodup) :
    ReachesEnd entries chosen ↔
      chosen.Sublist entries ∧ chosen.getLast? = entries.getLast? := by
  constructor
  · intro reaches
    refine ⟨reaches.sublist, ?_⟩
    clear distinct
    induction reaches with
    | done => rfl
    | skip later inductionHypothesis =>
        rename_i first chosen rest others
        cases rest with
        | nil => cases later
        | cons next rest => rw [inductionHypothesis, List.getLast?_cons_cons]
    | choose later inductionHypothesis =>
        rename_i first rest others
        cases others with
        | nil =>
            cases later
            rfl
        | cons chosen others =>
            cases rest with
            | nil => cases later
            | cons next rest =>
                rw [List.getLast?_cons_cons, List.getLast?_cons_cons,
                  inductionHypothesis]
  · rintro ⟨sublist, last⟩
    induction sublist with
    | slnil => exact .done
    | cons first sublist inductionHypothesis =>
        rename_i chosen rest
        cases chosen with
        | nil =>
            rw [List.getLast?_cons] at last
            cases last
        | cons chosen others =>
            obtain ⟨next, rest, rfl⟩ :=
              List.exists_cons_of_ne_nil (List.ne_nil_of_mem
                (sublist.subset List.mem_cons_self))
            rw [List.getLast?_cons_cons] at last
            exact .skip (inductionHypothesis distinct.of_cons last)
    | cons_cons first sublist inductionHypothesis =>
        rename_i others rest
        apply ReachesEnd.choose
        apply inductionHypothesis distinct.of_cons
        cases others with
        | nil =>
            cases rest with
            | nil => rfl
            | cons next rest =>
                -- The first entry would be the last one again.
                rw [List.getLast?_cons_cons] at last
                have again : first ∈ next :: rest :=
                  List.mem_of_getLast? last.symm
                exact absurd again (List.nodup_cons.mp distinct).1
        | cons chosen others =>
            obtain ⟨next, rest, rfl⟩ :=
              List.exists_cons_of_ne_nil (List.ne_nil_of_mem
                (sublist.subset List.mem_cons_self))
            rwa [List.getLast?_cons_cons, List.getLast?_cons_cons] at last

/-! ## A whole command line -/

section CommandLine

variable {args after : List HmArg} {groups : List ArgGroup}

/-- What holds of the switches holds of some of the groups and of some of the
table. -/
theorem OwnSwitches.mono
    {fewer : List HmArg}
    {some : List ArgGroup}
    (own : OwnSwitches args groups)
    (entries : fewer ⊆ args)
    (members : some ⊆ groups) : OwnSwitches fewer some :=
  fun group member arg argMember =>
    own group (members member) arg (entries argMember)

/-- Where only the option of a group answers to its switch, none is in the way. -/
theorem OwnSwitches.findsOwn (own : OwnSwitches args groups) : FindsOwn args groups := by
  induction args generalizing groups with
  | nil =>
      cases groups <;> trivial
  | cons arg args inductionHypothesis =>
      cases groups with
      | nil => trivial
      | cons group groups =>
          rw [FindsOwn]
          split
          · exact inductionHypothesis
              (own.mono (List.subset_cons_self _ _) (List.subset_cons_self _ _))
          · rename_i differs
            refine ⟨fun switch => differs ?_, inductionHypothesis
              (own.mono (List.subset_cons_self _ _) (List.Subset.refl _))⟩
            rw [own group List.mem_cons_self arg List.mem_cons_self switch]

/-- Groups in the order of the table are served in one pass. -/
theorem scanArgs_served
    (named : ∀ arg ∈ args, arg.name ≠ .default)
    (names : (args.map HmArg.name).Nodup)
    (once : (groups.map fun group => group.arg.name).Nodup)
    (complete : ∀ group ∈ groups, group.Complete)
    (bare : ∀ group ∈ groups,
      group.arg.action ≠ .separate ∧
        (group.arg.action ≠ .collect → group.values = []))
    (fits : ∀ group ∈ groups, group.Fits)
    (own : FindsOwn args groups)
    (order : ReachesEnd args (groups.map ArgGroup.arg)) :
    scanArgs (args.map argInit) (commandLine groups) =
      .scanned (args.map (servedBy groups)) [] := by
  induction args generalizing groups with
  | nil =>
      cases groups with
      | nil => rfl
      | cons group groups => cases order
  | cons arg args inductionHypothesis =>
      rw [List.forall_mem_cons] at named
      rw [List.map_cons, List.nodup_cons] at names
      cases groups with
      | nil => cases order
      | cons group groups =>
          rw [List.forall_mem_cons] at complete bare fits
          rw [FindsOwn] at own
          cases order with
          | skip later =>
              have chosen : group.arg ∈ args :=
                later.sublist.subset List.mem_cons_self
              have differs : arg.name ≠ group.arg.name :=
                fun same => names.1 (same ▸ List.mem_map_of_mem chosen)
              rw [if_neg differs] at own
              have absent : ∀ other ∈ group :: groups,
                  other.arg.name ≠ arg.name := by
                intro other member same
                have inRest : other.arg ∈ args :=
                  later.sublist.subset
                    (List.mem_map_of_mem (f := ArgGroup.arg) member)
                exact names.1 (same ▸ List.mem_map_of_mem inRest)
              rw [List.map_cons, commandLine_cons,
                scanArgs_of_not_mem named.1 own.1, ← commandLine_cons,
                inductionHypothesis named.2 names.2 once
                  (List.forall_mem_cons.mpr complete)
                  (List.forall_mem_cons.mpr bare)
                  (List.forall_mem_cons.mpr fits) own.2 later,
                ScanOutcome.cons, List.map_cons, servedBy_of_not_mem absent]
          | choose later =>
              have others : args.map (servedBy (group :: groups)) =
                  args.map (servedBy groups) := by
                apply List.map_congr_left
                intro entry member
                apply servedBy_cons_of_ne
                intro same
                exact names.1 (same ▸ List.mem_map_of_mem member)
              rw [if_pos rfl] at own
              rw [List.map_cons, commandLine_cons,
                scanArgs_of_mem complete.1.answers,
                parseArgSeqCounted_group named.1 complete.1 complete.2 bare.1 fits.1]
              dsimp only
              rw [if_neg (by omega), drop_group,
                inductionHypothesis named.2 names.2 once.of_cons complete.2
                  bare.2 fits.2 own later,
                ScanOutcome.cons, List.map_cons, others,
                servedBy_of_mem once List.mem_cons_self rfl]

/-- A pass that uses up all words gets past a group only if its option does not
separate, and has no values that the option does not collect. -/
theorem bare_of_scanned
    {group : ArgGroup}
    (named : group.arg.name ≠ .default ∧ ∀ arg ∈ args, arg.name ≠ .default)
    (complete : group.Complete)
    (switch : group.switch ∈ group.arg.switches)
    (holds : (argInit group.arg).IntsHold (group.values ++ commandLine groups))
    (scanned : scanArgs (argInit group.arg :: args.map argInit)
        (group.switch :: (group.values ++ commandLine groups)) =
      .scanned after []) :
    group.arg.action ≠ .separate ∧
      (group.arg.action ≠ .collect → group.values = []) := by
  rw [scanArgs_of_mem switch, parseArgSeqCounted_eq holds] at scanned
  have separates : group.arg.action ≠ .separate := by
    intro action
    rw [parseArgSeq_separate complete action] at scanned
    cases scanned
  refine ⟨separates, ?_⟩
  intro collects
  by_contra nonempty
  obtain ⟨value, values, split⟩ := List.exists_cons_of_ne_nil nonempty
  have plain := complete.plain value (by simp [split])
  rw [parseArgSeq_flag named.1 complete collects separates] at scanned
  obtain ⟨rest, scannedRest, _⟩ := ScanOutcome.cons_eq_scanned scanned
  rw [split] at scannedRest
  -- the first value is left in front of the other options
  have stuck := scannedRest.symm.trans (scanArgs_plain named.2 plain)
  cases stuck

/-- The groups that are used up in one pass are in the order of the table. -/
theorem reachesEnd_of_scanned
    (named : ∀ arg ∈ args, arg.name ≠ .default)
    (complete : ∀ group ∈ groups, group.Complete)
    (own : OwnSwitches args groups)
    (scanned : scanArgs (args.map argInit) (commandLine groups) =
      .scanned after []) :
    ReachesEnd args (groups.map ArgGroup.arg) ∧
      (∀ group ∈ groups,
        group.arg.action ≠ .separate ∧
          (group.arg.action ≠ .collect → group.values = [])) ∧
        ∀ group ∈ groups, group.Fits := by
  induction args generalizing groups after with
  | nil =>
      cases groups with
      | nil => exact ⟨.done, by simp, by simp⟩
      | cons group groups => cases scanned
  | cons arg args inductionHypothesis =>
      rw [List.forall_mem_cons] at named
      cases groups with
      | nil =>
          rw [List.map_cons, commandLine, List.flatMap_nil, scanArgs_nil named.1]
            at scanned
          cases scanned
      | cons group groups =>
          rw [List.map_cons, commandLine_cons] at scanned
          by_cases switch : group.switch ∈ arg.switches
          · obtain rfl :=
              own group List.mem_cons_self arg List.mem_cons_self switch
            obtain ⟨complete, others⟩ := List.forall_mem_cons.mp complete
            have holds := intsHold_of_scanned switch scanned
            have fits : group.Fits :=
              (intsHold_group named.1 complete others).mp holds
            have bare := bare_of_scanned named complete switch holds scanned
            rw [scanArgs_of_mem switch, parseArgSeqCounted_eq holds] at scanned
            rw [parseArgSeq_group named.1 complete others bare] at scanned
            dsimp only at scanned
            rw [if_neg (by omega), drop_group] at scanned
            obtain ⟨rest, scannedRest, _⟩ := ScanOutcome.cons_eq_scanned scanned
            obtain ⟨order, othersBare, othersFit⟩ :=
              inductionHypothesis named.2 others
                (own.mono (List.subset_cons_self _ _)
                  (List.subset_cons_self _ _))
                scannedRest
            exact ⟨.choose order,
              List.forall_mem_cons.mpr ⟨bare, othersBare⟩,
              List.forall_mem_cons.mpr ⟨fits, othersFit⟩⟩
          · rw [scanArgs_of_not_mem named.1 switch] at scanned
            obtain ⟨rest, scannedRest, _⟩ := ScanOutcome.cons_eq_scanned scanned
            rw [← commandLine_cons] at scannedRest
            obtain ⟨order, both⟩ :=
              inductionHypothesis named.2 complete
                (own.mono (List.subset_cons_self _ _) (List.Subset.refl _))
                scannedRest
            exact ⟨.skip order, both⟩

theorem defaultOption_named (named : ∀ arg ∈ args, arg.name ≠ .default) :
    defaultOption args = none := by
  rw [defaultOption, List.findRev?_eq_find?_reverse]
  apply List.find?_eq_none.mpr
  intro arg member
  simpa using named arg (List.mem_reverse.mp member)

/-- Where `parse_args` returns 0 without a default option, the first pass has used up
the words. -/
theorem scanArgs_of_loopEnds
    {argv : List Word}
    (named : ∀ arg ∈ args, arg.name ≠ .default)
    (nonempty : argv ≠ [])
    (ends : LoopEnds parseArgsPass (argsInit args, argv) (.returned 0 after)) :
    ∃ scanned, scanArgs (argsInit args) argv = .scanned scanned [] := by
  have proceeds : PassProceeds args argv :=
    passesProceed_of_loopEnds (prepared_argsInit args) ends argv .refl nonempty
  have meets := scanArgs_meets (prepared_argsInit args) argv
  cases scan : scanArgs (argsInit args) argv with
  | nullArgv =>
      rw [scan] at meets
      exact absurd meets proceeds.compares
  | returned rc parsed =>
      rw [scan] at meets
      obtain ⟨word, words, rfl⟩ := List.exists_cons_of_ne_nil nonempty
      have stops : parseArgsPass (argsInit args, word :: words) =
          .stop (.returned rc parsed) := by
        simp only [parseArgsPass, scan]
      have same := (loopEnds_iff_of_stop stops).mp ends
      cases same
      exact absurd meets.2.2.2 (Int.lt_irrefl 0)
  | overflow =>
      rw [scan] at meets
      exact absurd (Or.inl meets) proceeds.holds
  | scanned parsed rest =>
      rw [scan] at meets
      by_cases empty : rest = []
      · exact ⟨parsed, by rw [empty]⟩
      · obtain ⟨option, found⟩ := proceeds.hasDefault rest meets.2.2.1 empty
        rw [defaultOption_named named] at found
        cases found

/-- Groups that are in the order of the table get their own values; and where only
the option of a group answers to its switch, only those do. -/
theorem givesOwnValues_iff_inTableOrder
    (table : NamedTable args)
    (chosen : Chosen args groups) :
    (groups = [] ∨ InTableOrder args groups → GivesOwnValues args groups) ∧
      (OwnSwitches args groups →
        (GivesOwnValues args groups ↔
          groups = [] ∨ InTableOrder args groups)) := by
  have distinct : args.Nodup := table.longNames.of_map
  have sufficient (order : groups = [] ∨ InTableOrder args groups) :
      GivesOwnValues args groups := by
    cases groups with
    | nil => exact ⟨1, rfl⟩
    | cons group groups =>
        have order := order.resolve_left (List.cons_ne_nil group groups)
        have scanned :=
          scanArgs_served table.named table.longNames chosen.once chosen.complete
            order.bare order.fits order.own
            ((reachesEnd_iff distinct).mpr ⟨order.order, order.last⟩)
        have goes : parseArgsPass (argsInit args, commandLine (group :: groups)) =
            .goOn (args.map (servedBy (group :: groups)), []) := by
          rw [commandLine_cons] at scanned ⊢
          simp only [parseArgsPass, argsInit, scanned]
        exact (loopEnds_iff_of_goOn goes).mpr ⟨1, rfl⟩
  refine ⟨sufficient, fun own => ⟨fun returns => ?_, sufficient⟩⟩
  cases groups with
  | nil => exact Or.inl rfl
  | cons group groups =>
      right
      obtain ⟨after, scanned⟩ :=
        scanArgs_of_loopEnds table.named (List.cons_ne_nil _ _) returns
      obtain ⟨reaches, bare, fits⟩ :=
        reachesEnd_of_scanned table.named chosen.complete own scanned
      obtain ⟨order, last⟩ := (reachesEnd_iff distinct).mp reaches
      exact ⟨order, last, bare, fits, own.findsOwn⟩

end CommandLine

section InOut

/-- An option that collects one word or more. -/
def collectOption (name : Word) (shortName : Char) : HmArg where
  name := .named name
  shortName := shortName
  sig := ['+']
  action := .collect
  result := .null
  argCheck := none

/-- A group of one word. -/
theorem complete_collectOption
    {name switch value : Word}
    {shortName : Char}
    (answers : switch ∈ (collectOption name shortName).switches)
    (plain : value.head? ≠ some '-') :
    ArgGroup.Complete
      { arg := collectOption name shortName
        switch := switch
        values := [value] } where
  answers := answers
  allowed := ⟨1, 2 ^ 31 - 1, rfl, by simp, by simp⟩
  plain := by simpa using plain
  checked := by simp [collectOption]

/-- Two options that collect, and a group of one word for each. -/
theorem chosen_collectOptions :
    let input := collectOption ['i', 'n'] 'i'
    let output := collectOption ['o', 'u', 't'] 'o'
    NamedTable [input, output] ∧
      ∀ groups : List ArgGroup,
        groups.Perm
            [{ arg := input, switch := ['-', '-', 'i', 'n'], values := [['x']] },
             { arg := output, switch := ['-', 'o'], values := [['y']] }] →
          Chosen [input, output] groups := by
  intro input output
  refine ⟨⟨?_, ?_, ?_, ?_⟩, fun groups perm => ⟨?_, ?_, ?_⟩⟩
  · simp [input, output, collectOption]
  · decide
  · decide
  · simp [input, output, collectOption]
  · intro group member
    have either := perm.mem_iff.mp member
    simp only [List.mem_cons, List.not_mem_nil, or_false] at either
    rcases either with rfl | rfl
    · exact List.mem_cons_self
    · exact List.mem_cons_of_mem _ List.mem_cons_self
  · apply ((perm.map _).nodup_iff).mpr
    decide
  · intro group member
    have either := perm.mem_iff.mp member
    simp only [List.mem_cons, List.not_mem_nil, or_false] at either
    rcases either with rfl | rfl
    · exact complete_collectOption (by decide) (by decide)
    · exact complete_collectOption (by decide) (by decide)

/-- `--in x -o y` with the options `in` and `out`, in this order. -/
theorem givesOwnValues_inOut :
    let input := collectOption ['i', 'n'] 'i'
    let output := collectOption ['o', 'u', 't'] 'o'
    GivesOwnValues [input, output]
      [{ arg := input, switch := ['-', '-', 'i', 'n'], values := [['x']] },
       { arg := output, switch := ['-', 'o'], values := [['y']] }] := by
  intro input output
  have table := chosen_collectOptions.1
  have chosen := chosen_collectOptions.2 _ (List.Perm.refl _)
  have own := table.ownSwitches chosen (by simp [collectOption])
  apply ((givesOwnValues_iff_inTableOrder table chosen).2 own).mpr
  right
  refine ⟨List.Sublist.refl _, rfl, ?_, ?_, own.findsOwn⟩
  · simp [collectOption]
  · simp [ArgGroup.Fits]

/-- `-o y --in x` with the same options: `in` is compared with `-o` only, and no
default option is there for `--in`. -/
theorem not_givesOwnValues_outIn :
    let input := collectOption ['i', 'n'] 'i'
    let output := collectOption ['o', 'u', 't'] 'o'
    let groups : List ArgGroup :=
      [{ arg := output, switch := ['-', 'o'], values := [['y']] },
       { arg := input, switch := ['-', '-', 'i', 'n'], values := [['x']] }]
    NamedTable [input, output] ∧ Chosen [input, output] groups ∧
      ¬GivesOwnValues [input, output] groups := by
  intro input output groups
  refine ⟨chosen_collectOptions.1, chosen_collectOptions.2 _ (.swap _ _ _), ?_⟩
  rintro ⟨fuel, returns⟩
  have ends :
      LoopEnds parseArgsPass (argsInit [input, output], commandLine groups)
        (.returned 0 ([input, output].map (servedBy groups))) :=
    ⟨fuel, returns⟩
  have stopped :=
    (loopEnds_iff_of_stop (by rfl : _ = LoopStep.stop .nullDefault)).mp ends
  cases stopped

end InOut

end Hiemal

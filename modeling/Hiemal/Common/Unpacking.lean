import Hiemal.Common.Kwargs

/-!
# Unpacking keyword arguments

`kwargs_unpack` serves the keys of its format string in order, and stops at the
first required one that has no argument. A key is optional when the last
parenthesis before it is an opening one, which the loop knows from the scan behind
the key before. The length of a key is an `int`, so that a key of `2 ^ 31` characters
is not served.
-/

namespace Hiemal

open Foundation

/-! ## The keys are served in order -/

section Serving

variable {Value : Type} (kwargs : Kwargs Value)

/-- The number of characters that `next_arg` measures of a key. -/
def Key.arglen (key : Key) : Int :=
  toSigned 32 key.name.length

/-- What unpacking does with the keys, one after the other. -/
def unpackKeys : List Key → List ArgAddress → (ArgAddress → Value) →
    Option ((ArgAddress → Value) × Int)
  | [], _, m => some (m, 0)
  | key :: keys, vars, m =>
      if key.arglen < 1 then unpackKeys keys vars m
      else
        match vars with
        | [] => none
        | argItr :: vars =>
            match kwargs.lookup (key.name.take key.arglen.toNat) with
            | some arg => unpackKeys keys vars (Function.update m argItr arg)
            | none =>
                if key.optional then unpackKeys keys vars m else some (m, -1)

/-- The flag says whether the last parenthesis so far is an opening one. -/
theorem opensOptional_append (before chars : List Char) :
    defaultDelimOpt.scan chars (opensOptional before) =
      opensOptional (before ++ chars) := by
  induction chars generalizing before with
  | nil => rw [List.append_nil]; rfl
  | cons char chars inductionHypothesis =>
      rw [List.append_cons, ← inductionHypothesis, DelimOpt.scan,
        List.foldl_cons, ← DelimOpt.scan]
      congr 1
      simp only [opensOptional, DelimOpt.update, defaultDelimOpt,
        List.filter_append, List.filter_cons, List.filter_nil]
      by_cases opening : char = '('
      · simp [opening]
      · by_cases closing : char = ')'
        · simp [closing]
        · simp [opening, closing]

/-- No parenthesis is an identifier character. -/
theorem opensOptional_key
    {key : List Char}
    (inside : ∀ char ∈ key, isvarchar char)
    (before : List Char) :
    opensOptional (before ++ key) = opensOptional before := by
  have none : key.filter (fun char => char = '(' ∨ char = ')') = [] := by
    rw [List.filter_eq_nil_iff]
    intro char member
    obtain ⟨_, opening, closing⟩ := isvarchar_delimiters (inside char member)
    simp [opening, closing]
  rw [opensOptional, List.filter_append, none, List.append_nil, opensOptional]

variable {kwargs}

/-- Run of the loop from a key on: a round for every key. -/
theorem kwargsLoop_eq
    {before rest : List Char}
    (starts : EndsOutside isvarchar before)
    (nonempty : rest ≠ [])
    (atKey : ∀ char ∈ rest.head?, isvarchar char)
    {fuel : Nat}
    (enough : rest.length ≤ fuel)
    (vars : List ArgAddress)
    (m : ArgAddress → Value) :
    kwargsLoop kwargs fuel (some rest) (opensOptional before) vars m =
      unpackKeys kwargs ((runsBehind isvarchar before rest).map Key.ofRun) vars
        m := by
  induction fuel generalizing before rest vars m with
  | zero =>
      exact absurd (List.eq_nil_of_length_eq_zero (Nat.le_zero.mp enough)) nonempty
  | succ fuel inductionHypothesis =>
      obtain ⟨key, gap, next, rfl, keyNonempty, inside, outside, separated, ends⟩ :=
        exists_run_gap nonempty atKey
      have runs :=
        runsBehind_run_gap starts keyNonempty inside outside separated
      have opt :
          defaultDelimOpt.scan gap (opensOptional before) =
            opensOptional (before ++ key ++ gap) := by
        rw [← opensOptional_key inside before, opensOptional_append]
      -- the rounds for the other keys, whatever is stored by then
      have others (vars : List ArgAddress) (m : ArgAddress → Value) :
          kwargsLoop kwargs fuel (if next = [] then none else some next)
              (opensOptional (before ++ key ++ gap)) vars m =
            unpackKeys kwargs
              ((runsBehind isvarchar (before ++ key ++ gap) next).map Key.ofRun)
              vars m := by
        by_cases last : next = []
        · subst last
          cases fuel <;> rfl
        · rw [if_neg last]
          have gapNonempty : gap ≠ [] := fun none => last (separated none)
          have keyLength := List.length_pos_iff.mpr keyNonempty
          apply inductionHypothesis
            (endsOutside_append gapNonempty outside _) last ends
          simp only [List.length_append] at enough
          omega
      obtain ⟨first, firstOfRun⟩ : ∃ first, first = Key.ofRun (before, key) :=
        ⟨_, rfl⟩
      have firstName : first.name = key := by rw [firstOfRun, Key.ofRun]
      have firstOptional : first.optional = opensOptional before := by
        rw [firstOfRun, Key.ofRun]
      have arglen : toSigned 32 key.length = first.arglen := by
        rw [Key.arglen, firstName]
      have name :
          (key ++ gap ++ next).take first.arglen.toNat =
            key.take first.arglen.toNat := by
        have short := toSigned_natCast_le 32 key.length
        rw [List.append_assoc, List.take_append_of_le_length]
        omega
      rw [runs, List.map_cons, kwargsLoop, ← firstOfRun,
        nextArg_key keyNonempty inside outside separated ends, opt, arglen]
      rw [Option.bind_eq_bind, Option.bind_some]
      dsimp only
      simp only [name, others]
      cases vars with
      | nil => rw [unpackKeys]
      | cons argItr vars =>
          cases found : kwargs.lookup (key.take first.arglen.toNat) with
          | none => rw [unpackKeys, firstName, firstOptional, found]
          | some arg => rw [unpackKeys, firstName, firstOptional, found]

/-- `kwargs_unpack` serves the keys of the format string in order. -/
theorem kwargsUnpack_eq
    {fmt : List Char}
    (identifier : ∃ char ∈ fmt, isvarchar char)
    {fuel : Nat}
    (enough : fmt.length < fuel)
    (vars : List ArgAddress)
    (m : ArgAddress → Value) :
    kwargsUnpack kwargs fuel fmt vars m =
      unpackKeys kwargs (formatKeys fmt) vars m := by
  obtain ⟨lead, next, rfl, outside, ends⟩ := exists_gap isvarchar fmt
  have nonempty : next ≠ [] := by
    rintro rfl
    obtain ⟨char, member, inside⟩ := identifier
    rw [List.append_nil] at member
    rw [outside char member] at inside
    cases inside
  rw [formatKeys, maximalRuns, runsBehind_gap outside, List.nil_append,
    kwargsUnpack]
  rw [List.length_append] at enough
  by_cases first : lead = []
  · subst first
    exact kwargsLoop_eq endsOutside_nil nonempty ends (by omega) vars m
  · obtain ⟨fuel, rfl⟩ : ∃ more, fuel = more + 1 :=
      Nat.exists_eq_succ_of_ne_zero (by omega)
    have leadLength := List.length_pos_iff.mpr first
    have opt : defaultDelimOpt.scan lead false = opensOptional lead :=
      opensOptional_append [] lead
    rw [kwargsLoop, nextArg_leading first outside nonempty ends, opt]
    exact kwargsLoop_eq (endsOutside_append first outside []) nonempty ends
      (by omega) vars m

/-- With a destination for every key, unpacking comes to an end. -/
theorem exists_unpackKeys
    {keys : List Key}
    {vars : List ArgAddress}
    (enough : keys.length ≤ vars.length)
    (m : ArgAddress → Value) :
    ∃ result, unpackKeys kwargs keys vars m = some result := by
  induction keys generalizing vars m with
  | nil => exact ⟨_, rfl⟩
  | cons key keys inductionHypothesis =>
      cases vars with
      | nil => exact absurd enough (Nat.not_succ_le_zero _)
      | cons argItr vars =>
          rw [List.length_cons, List.length_cons] at enough
          rw [unpackKeys]
          by_cases unmeasured : key.arglen < 1
          · rw [if_pos unmeasured]
            apply inductionHypothesis
            rw [List.length_cons]
            omega
          · rw [if_neg unmeasured]
            have rest (m : ArgAddress → Value) :=
              inductionHypothesis (Nat.le_of_succ_le_succ enough) m
            cases kwargs.lookup (key.name.take key.arglen.toNat) with
            | some arg => exact rest _
            | none =>
                cases key.optional
                · exact ⟨_, rfl⟩
                · exact rest m

/-- No number of rounds is enough where the format string has no identifier. -/
theorem kwargsUnpack_eq_none
    {fmt : List Char}
    (blank : ¬∃ char ∈ fmt, isvarchar char)
    (fuel : Nat)
    (vars : List ArgAddress)
    (m : ArgAddress → Value) :
    kwargsUnpack kwargs fuel fmt vars m = none := by
  rw [← isSome_nextArg_iff fmt ';' none false, Option.not_isSome_iff_eq_none]
    at blank
  cases fuel with
  | zero => rfl
  | succ fuel =>
      rw [kwargsUnpack, kwargsLoop, blank]
      rfl

/-- Anywhere in a string, `next_arg` stays within the string exactly if there is
an identifier character from there on, and `kwargs_unpack` comes to an end exactly
on the format strings that have one. -/
theorem nextArg_within_iff_identifier :
    (∀ (str : List Char) (delim : Char) (delimOpt : Option DelimOpt)
      (optional : Bool),
      (nextArg str delim delimOpt optional).isSome ↔
        ∃ char ∈ str, isvarchar char) ∧
      ∀ (kwargs : Kwargs Value) (fmt : List Char) (vars : List ArgAddress)
        (m : ArgAddress → Value),
        (formatKeys fmt).length ≤ vars.length →
          ((∃ fuel, (kwargsUnpack kwargs fuel fmt vars m).isSome) ↔
            ∃ char ∈ fmt, isvarchar char) := by
  apply And.intro isSome_nextArg_iff
  intro kwargs fmt vars m enough
  constructor
  · rintro ⟨fuel, returns⟩
    by_contra blank
    rw [kwargsUnpack_eq_none blank] at returns
    cases returns
  · intro identifier
    obtain ⟨result, unpacked⟩ := exists_unpackKeys enough m
    use fmt.length + 1
    rw [kwargsUnpack_eq identifier (Nat.lt_succ_self _), unpacked]
    rfl

end Serving

/-- A table without arguments. -/
def noKwargs : Kwargs Nat where
  argc := 0
  argNames := []
  args := []
  length_argNames := rfl
  length_args := rfl

theorem nextArg_within_iff_identifier_single :
    (nextArg ['a'] ';' none false).isSome ∧
      ∃ fuel, (kwargsUnpack noKwargs fuel ['a'] [0] fun _ => 0).isSome := by
  have within := @nextArg_within_iff_identifier Nat
  have identifier : ∃ char ∈ ['a'], isvarchar char :=
    ⟨'a', List.mem_cons_self, by decide⟩
  refine ⟨(within.1 _ _ _ _).mpr identifier, ?_⟩
  exact (within.2 noKwargs ['a'] [0] _ (by decide)).mpr identifier

/-- On the empty string the scan for the first key passes the terminator. -/
theorem not_nextArg_within_empty :
    ¬(nextArg [] ';' none false).isSome ∧
      ¬∃ fuel, (kwargsUnpack noKwargs fuel [] [] fun _ => 0).isSome := by
  have blank : ¬∃ char ∈ [], isvarchar char := by simp
  refine ⟨fun returns => blank ((isSome_nextArg_iff _ _ _ _).mp returns), ?_⟩
  rintro ⟨fuel, returns⟩
  rw [kwargsUnpack_eq_none blank] at returns
  cases returns

/-! ## What is stored -/

section Storing

variable {Value : Type}

/-- A required key without an argument. -/
def Kwargs.missing (kwargs : Kwargs Value) (key : Key) : Bool :=
  !key.optional && !kwargs.argNames.contains key.name

/-- A value stands at one position of a list, and at no other. -/
def OnlyAt {α : Type} (list : List α) (index : Nat) (value : α) : Prop :=
  ∀ other, list[other]? = some value ↔ other = index

/-- Unpacking returns zero exactly if every required key is among the argument
names. The destination of each key before the first missing one takes the argument
of the first equal name, or is left as it was where no name is equal; nothing else
is written. -/
structure Unpacks
    (kwargs : Kwargs Value)
    (keys : List Key)
    (vars : List ArgAddress)
    (m m' : ArgAddress → Value)
    (rc : Int) : Prop where
  returns_zero_iff :
    rc = 0 ↔ ∀ key ∈ keys, key.optional = false → key.name ∈ kwargs.argNames
  returns : rc = 0 ∨ rc = -1
  present :
    ∀ index key dest arg, keys[index]? = some key → OnlyAt vars index dest →
      index < keys.findIdx kwargs.missing →
        kwargs.args[kwargs.argNames.idxOf key.name]? = some arg → m' dest = arg
  absent :
    ∀ index key dest, keys[index]? = some key → OnlyAt vars index dest →
      key.name ∉ kwargs.argNames → m' dest = m dest
  untouched :
    ∀ dest, dest ∉ vars.take (keys.findIdx kwargs.missing) → m' dest = m dest

variable {kwargs : Kwargs Value}

/-- The first equal name decides. -/
theorem Kwargs.lookup_eq (kwargs : Kwargs Value) (key : List Char) :
    kwargs.lookup key = kwargs.args[kwargs.argNames.idxOf key]? := by
  have entries (names : List (List Char)) (args : List Value)
      (sameLength : names.length = args.length) :
      ((names.zip args).find? fun entry => key = entry.1).map Prod.snd =
        args[names.idxOf key]? := by
    induction names generalizing args with
    | nil => simp [List.length_eq_zero_iff.mp sameLength.symm]
    | cons name names inductionHypothesis =>
        cases args with
        | nil => cases sameLength
        | cons arg args =>
            rw [List.zip_cons_cons, List.find?_cons, List.idxOf_cons]
            by_cases equal : key = name
            · simp [equal]
            · have other : (name == key) = false := by simpa using Ne.symm equal
              simp [equal, other,
                inductionHypothesis args (Nat.succ.inj sameLength)]
  exact entries _ _ (kwargs.length_argNames.trans kwargs.length_args.symm)

theorem Kwargs.lookup_map
    {Other : Type}
    (f : Value → Other)
    (kwargs : Kwargs Value)
    (key : List Char) :
    (kwargs.map f).lookup key = (kwargs.lookup key).map f := by
  rw [Kwargs.lookup_eq, Kwargs.lookup_eq, Kwargs.map, List.getElem?_map]

theorem Kwargs.lookup_eq_none_iff {key : List Char} :
    kwargs.lookup key = none ↔ key ∉ kwargs.argNames := by
  rw [kwargs.lookup_eq, List.getElem?_eq_none_iff, kwargs.length_args,
    ← kwargs.length_argNames, ← List.idxOf_lt_length_iff, not_lt]

theorem Kwargs.missing_iff {key : Key} :
    kwargs.missing key ↔ key.optional = false ∧ key.name ∉ kwargs.argNames := by
  simp [Kwargs.missing]

theorem onlyAt_zero_iff
    {vars : List ArgAddress}
    {argItr dest : ArgAddress} :
    OnlyAt (argItr :: vars) 0 dest ↔ dest = argItr ∧ argItr ∉ vars := by
  constructor
  · intro only
    have equal : argItr = dest := by simpa using (only 0).mpr rfl
    refine ⟨equal.symm, fun member => ?_⟩
    obtain ⟨other, stands⟩ := List.mem_iff_getElem?.mp member
    rw [equal] at stands
    exact Nat.succ_ne_zero other ((only (other + 1)).mp stands)
  · rintro ⟨rfl, fresh⟩ other
    cases other with
    | zero => simp
    | succ other =>
        simpa using fun stands => fresh (List.mem_of_getElem? stands)

theorem OnlyAt.of_succ
    {vars : List ArgAddress}
    {argItr dest : ArgAddress}
    {index : Nat}
    (only : OnlyAt (argItr :: vars) (index + 1) dest) :
    OnlyAt vars index dest ∧ dest ≠ argItr := by
  refine ⟨fun other => ?_, ?_⟩
  · rw [← Nat.succ_inj, ← only (other + 1), List.getElem?_cons_succ]
  · rintro rfl
    exact Nat.succ_ne_zero index ((only 0).mp rfl).symm

/-- What is stored for a key that is served. -/
def Kwargs.serve
    (kwargs : Kwargs Value)
    (key : Key)
    (argItr : ArgAddress)
    (m : ArgAddress → Value) : ArgAddress → Value :=
  Function.update m argItr ((kwargs.lookup key.name).getD (m argItr))

/-- A key whose length an `int` holds is measured as it is. -/
theorem unpackKeys_cons
    {key : Key}
    (nonempty : key.name ≠ [])
    (short : key.name.length < 2 ^ 31)
    (keys : List Key)
    (argItr : ArgAddress)
    (vars : List ArgAddress)
    (m : ArgAddress → Value) :
    unpackKeys kwargs (key :: keys) (argItr :: vars) m =
      if kwargs.missing key then some (m, -1)
      else unpackKeys kwargs keys vars (kwargs.serve key argItr m) := by
  have arglen : key.arglen = key.name.length := toSigned_of_lt 31 short
  have measured : ¬(key.name.length : Int) < 1 := by
    have nameLength := List.length_pos_iff.mpr nonempty
    omega
  rw [unpackKeys, arglen, if_neg measured, Int.toNat_natCast, List.take_length,
    Kwargs.serve]
  by_cases named : key.name ∈ kwargs.argNames
  · have notMissing : ¬kwargs.missing key := by simp [Kwargs.missing, named]
    cases found : kwargs.lookup key.name with
    | none => exact absurd named (Kwargs.lookup_eq_none_iff.mp found)
    | some arg => rw [if_neg notMissing, Option.getD_some]
  · rw [Kwargs.lookup_eq_none_iff.mpr named, Option.getD_none,
      Function.update_eq_self]
    cases optional : key.optional <;> simp [Kwargs.missing, named, optional]

section Steps

variable {key : Key} {keys : List Key} {argItr : ArgAddress}
  {vars : List ArgAddress} {m m' : ArgAddress → Value} {rc : Int}

theorem unpacks_nil : Unpacks kwargs [] vars m m 0 where
  returns_zero_iff := by simp
  returns := Or.inl rfl
  present := by simp
  absent := by simp
  untouched _ _ := rfl

/-- At a missing key nothing is written any more. -/
theorem unpacks_missing (missing : kwargs.missing key) :
    Unpacks kwargs (key :: keys) vars m m (-1) where
  returns_zero_iff := by
    rw [Kwargs.missing_iff] at missing
    simp [missing]
  returns := Or.inr rfl
  present := by simp [List.findIdx_cons, missing]
  absent _ _ _ _ _ _ := rfl
  untouched _ _ := rfl

/-- Step lemma: serving a key keeps what the keys behind it promise. -/
theorem Unpacks.cons
    (served : ¬kwargs.missing key)
    (unpacks : Unpacks kwargs keys vars (kwargs.serve key argItr m) m' rc) :
    Unpacks kwargs (key :: keys) (argItr :: vars) m m' rc where
  returns_zero_iff := by
    rw [Kwargs.missing_iff, not_and_not_right] at served
    rw [unpacks.returns_zero_iff, List.forall_mem_cons, and_iff_right served]
  returns := unpacks.returns
  present := by
    intro index other dest arg atIndex only before stored
    rw [List.findIdx_cons, cond_eq_ite, if_neg served] at before
    cases index with
    | zero =>
        obtain ⟨rfl, fresh⟩ := onlyAt_zero_iff.mp only
        obtain rfl : key = other := by simpa using atIndex
        rw [unpacks.untouched dest fun member => fresh (List.mem_of_mem_take member),
          Kwargs.serve, Function.update_self, kwargs.lookup_eq, stored,
          Option.getD_some]
    | succ index =>
        exact unpacks.present index other dest arg atIndex only.of_succ.1
          (Nat.lt_of_succ_lt_succ before) stored
  absent := by
    intro index other dest atIndex only unnamed
    cases index with
    | zero =>
        obtain ⟨rfl, fresh⟩ := onlyAt_zero_iff.mp only
        obtain rfl : key = other := by simpa using atIndex
        rw [unpacks.untouched dest fun member => fresh (List.mem_of_mem_take member),
          Kwargs.serve, Function.update_self,
          Kwargs.lookup_eq_none_iff.mpr unnamed, Option.getD_none]
    | succ index =>
        obtain ⟨only, apart⟩ := only.of_succ
        rw [unpacks.absent index other dest atIndex only unnamed, Kwargs.serve,
          Function.update_of_ne apart]
  untouched := by
    intro dest fresh
    rw [List.findIdx_cons, cond_eq_ite, if_neg served, List.take_succ_cons,
      List.mem_cons, not_or] at fresh
    rw [unpacks.untouched dest fresh.2, Kwargs.serve,
      Function.update_of_ne fresh.1]

end Steps

/-- The keys that a call comes to: those up to the first one that is missing. -/
def Kwargs.keysMet (kwargs : Kwargs Value) (keys : List Key) : List Key :=
  keys.take (keys.findIdx kwargs.missing + 1)

theorem Kwargs.keysMet_cons (kwargs : Kwargs Value) (key : Key) (keys : List Key) :
    kwargs.keysMet (key :: keys) =
      key :: if kwargs.missing key then [] else kwargs.keysMet keys := by
  rw [Kwargs.keysMet, List.findIdx_cons, cond_eq_ite, List.take_succ_cons]
  split
  · rfl
  · rfl

/-- Run lemma: the keys are served as they should be when an `int` holds the lengths of
those that the call comes to. -/
theorem exists_unpacks
    {keys : List Key}
    (nonempty : ∀ key ∈ keys, key.name ≠ [])
    (short : ∀ key ∈ kwargs.keysMet keys, key.name.length < 2 ^ 31)
    {vars : List ArgAddress}
    (matching : keys.length ≤ vars.length)
    (m : ArgAddress → Value) :
    ∃ m' rc, unpackKeys kwargs keys vars m = some (m', rc) ∧
      Unpacks kwargs keys vars m m' rc := by
  induction keys generalizing vars m with
  | nil => exact ⟨m, 0, rfl, unpacks_nil⟩
  | cons key keys inductionHypothesis =>
      rw [List.forall_mem_cons] at nonempty
      rw [kwargs.keysMet_cons, List.forall_mem_cons] at short
      cases vars with
      | nil => exact absurd matching (Nat.not_succ_le_zero _)
      | cons argItr vars =>
          rw [unpackKeys_cons nonempty.1 short.1]
          by_cases missing : kwargs.missing key
          · rw [if_pos missing]
            exact ⟨m, -1, rfl, unpacks_missing missing⟩
          · rw [if_neg missing] at short ⊢
            obtain ⟨m', rc, unpacked, unpacks⟩ :=
              inductionHypothesis nonempty.2 short.2
                (Nat.le_of_succ_le_succ matching) (kwargs.serve key argItr m)
            exact ⟨m', rc, unpacked, unpacks.cons missing⟩

/-! ## Keys that an `int` does not measure -/

/-- A table for some keys, with one argument for the names whose length an `int`
holds and another one for the others. -/
def Kwargs.ofLengths (keys : List Key) (short long : Value) : Kwargs Value where
  argc := keys.length
  argNames := keys.map Key.name
  args := keys.map fun key => if key.name.length < 2 ^ 31 then short else long
  length_argNames := List.length_map _
  length_args := List.length_map _

theorem Kwargs.ofLengths_lookup
    {keys : List Key}
    {short long arg : Value}
    {name : List Char}
    (found : (Kwargs.ofLengths keys short long).lookup name = some arg) :
    arg = if name.length < 2 ^ 31 then short else long := by
  rw [Kwargs.lookup_eq, Kwargs.ofLengths, List.getElem?_map,
    Option.map_eq_some_iff] at found
  obtain ⟨key, atIndex, rfl⟩ := found
  have inside := (List.getElem?_eq_some_iff.mp atIndex).1
  have named : (keys.map Key.name)[(keys.map Key.name).idxOf name]? = some name :=
    List.getElem?_idxOf (List.idxOf_lt_length_iff.mp
      (by rw [List.length_map]; exact inside))
  rw [List.getElem?_map, atIndex, Option.map_some, Option.some_inj] at named
  rw [named]

/-- Only arguments of names whose length an `int` holds are ever stored. -/
theorem unpackKeys_stores
    (stored : Value → Prop)
    (arguments : ∀ name arg, name.length < 2 ^ 31 →
      kwargs.lookup name = some arg → stored arg)
    {keys : List Key}
    {vars : List ArgAddress}
    {m m' : ArgAddress → Value}
    (initially : ∀ dest, stored (m dest))
    {rc : Int}
    (unpacked : unpackKeys kwargs keys vars m = some (m', rc))
    (dest : ArgAddress) :
    stored (m' dest) := by
  induction keys generalizing vars m with
  | nil =>
      obtain ⟨rfl, _⟩ := Prod.mk.inj (Option.some.inj unpacked)
      exact initially dest
  | cons key keys inductionHypothesis =>
      cases vars with
      | nil =>
          rw [unpackKeys] at unpacked
          split at unpacked
          · exact inductionHypothesis initially unpacked
          · cases unpacked
      | cons argItr vars =>
          rw [unpackKeys] at unpacked
          split at unpacked
          · exact inductionHypothesis initially unpacked
          · cases found : kwargs.lookup (key.name.take key.arglen.toNat) with
            | some arg =>
                rw [found] at unpacked
                have bounded : (key.name.take key.arglen.toNat).length < 2 ^ 31 := by
                  have upper : key.arglen < 2 ^ 31 := toSigned_lt 31 _
                  rw [List.length_take]
                  omega
                refine inductionHypothesis (fun other => ?_) unpacked
                rw [Function.update_apply]
                split
                · exact arguments _ arg bounded found
                · exact initially other
            | none =>
                rw [found] at unpacked
                dsimp only at unpacked
                split at unpacked
                · exact inductionHypothesis initially unpacked
                · obtain ⟨rfl, _⟩ := Prod.mk.inj (Option.some.inj unpacked)
                  exact initially dest

theorem formatKeys_nonempty
    {fmt : List Char}
    {key : Key}
    (member : key ∈ formatKeys fmt) :
    key.name ≠ [] := by
  obtain ⟨run, isRun, rfl⟩ := List.mem_map.mp member
  exact runsBehind_nonempty isRun

theorem onlyAt_range
    {count index : Nat}
    (inside : index < count) :
    OnlyAt (List.range count) index index := by
  intro other
  rw [List.getElem?_eq_some_iff]
  constructor
  · rintro ⟨_, equal⟩
    rw [← equal, List.getElem_range]
  · rintro rfl
    exact ⟨by rw [List.length_range]; exact inside, List.getElem_range _⟩

section Long

variable {keys : List Key} {key : Key} {low high : Value}

theorem Kwargs.name_mem_ofLengths
    (low high : Value)
    (member : key ∈ keys) :
    key.name ∈ (Kwargs.ofLengths keys low high).argNames :=
  List.mem_map_of_mem member

theorem findIdx_missing_ofLengths (keys : List Key) (low high : Value) :
    keys.findIdx (Kwargs.ofLengths keys low high).missing = keys.length := by
  rw [List.findIdx_eq_length]
  intro key member
  simp [Kwargs.missing, Kwargs.name_mem_ofLengths low high member]

/-- The argument of a long key, which the other keys do not have, is not stored in
its destination. -/
theorem not_unpacks_ofLengths
    (distinct : low ≠ high)
    (member : key ∈ keys)
    (long : ¬key.name.length < 2 ^ 31)
    {m' : ArgAddress → Value}
    {rc : Int}
    (unpacked :
      unpackKeys (Kwargs.ofLengths keys low high) keys (List.range keys.length)
        (fun _ => low) = some (m', rc)) :
    ¬Unpacks (Kwargs.ofLengths keys low high) keys (List.range keys.length)
      (fun _ => low) m' rc := by
  intro unpacks
  obtain ⟨index, atIndex⟩ := List.mem_iff_getElem?.mp member
  have inside := (List.getElem?_eq_some_iff.mp atIndex).1
  obtain ⟨arg, found⟩ :
      ∃ arg, (Kwargs.ofLengths keys low high).lookup key.name = some arg := by
    rw [← Option.ne_none_iff_exists']
    intro absent
    exact Kwargs.lookup_eq_none_iff.mp absent
      (Kwargs.name_mem_ofLengths low high member)
  have isHigh : arg = high := by
    rw [Kwargs.ofLengths_lookup found, if_neg long]
  have storesHigh : m' index = high := by
    rw [Kwargs.lookup_eq] at found
    rw [← isHigh]
    apply unpacks.present index key index arg atIndex (onlyAt_range inside) _ found
    rw [findIdx_missing_ofLengths]
    exact inside
  have storesLow : m' index = low := by
    apply unpackKeys_stores (· = low) _ (fun _ => rfl) unpacked index
    intro name arg short stored
    rw [Kwargs.ofLengths_lookup stored, if_pos short]
  exact distinct (storesLow.symm.trans storesHigh)

end Long

/-- `kwargs_unpack` returns from a call and serves the keys as it should. -/
def CallUnpacks
    (kwargs : Kwargs Value)
    (fmt : List Char)
    (vars : List ArgAddress)
    (m : ArgAddress → Value) : Prop :=
  ∃ m' rc,
    (∀ fuel, fmt.length < fuel →
      kwargsUnpack kwargs fuel fmt vars m = some (m', rc)) ∧
    Unpacks kwargs (formatKeys fmt) vars m m' rc

/-- On a format string with an identifier, `kwargs_unpack` serves the keys of a call as
it should if an `int` holds the length of every key that the call comes to. For every
table and every list of destinations, it does so exactly if an `int` holds the length
of every key. -/
theorem kwargsUnpack_unpacks_iff_short
    [Nontrivial Value]
    {fmt : List Char}
    (identifier : ∃ char ∈ fmt, isvarchar char) :
    (∀ (kwargs : Kwargs Value) (vars : List ArgAddress) (m : ArgAddress → Value),
      (formatKeys fmt).length ≤ vars.length →
        (∀ key ∈ kwargs.keysMet (formatKeys fmt), key.name.length < 2 ^ 31) →
          CallUnpacks kwargs fmt vars m) ∧
      ((∀ (kwargs : Kwargs Value) (vars : List ArgAddress) (m : ArgAddress → Value),
        (formatKeys fmt).length ≤ vars.length → CallUnpacks kwargs fmt vars m) ↔
          ∀ key ∈ formatKeys fmt, key.name.length < 2 ^ 31) := by
  have served (kwargs : Kwargs Value) (vars : List ArgAddress)
      (m : ArgAddress → Value) (matching : (formatKeys fmt).length ≤ vars.length)
      (short : ∀ key ∈ kwargs.keysMet (formatKeys fmt), key.name.length < 2 ^ 31) :
      CallUnpacks kwargs fmt vars m := by
    obtain ⟨m', rc, unpacked, unpacks⟩ :=
      exists_unpacks (fun _ => formatKeys_nonempty) short matching m
    refine ⟨m', rc, fun fuel enough => ?_, unpacks⟩
    rw [kwargsUnpack_eq identifier enough, unpacked]
  refine ⟨served, ?_, ?_⟩
  · intro serves key member
    by_contra long
    obtain ⟨low, high, distinct⟩ := exists_pair_ne Value
    obtain ⟨m', rc, unpacked, unpacks⟩ :=
      serves (Kwargs.ofLengths (formatKeys fmt) low high)
        (List.range (formatKeys fmt).length) (fun _ => low)
        (Nat.le_of_eq List.length_range.symm)
    have run := unpacked _ (Nat.lt_succ_self _)
    rw [kwargsUnpack_eq identifier (Nat.lt_succ_self _)] at run
    exact not_unpacks_ofLengths distinct member long run unpacks
  · intro short kwargs vars m matching
    apply served kwargs vars m matching
    intro key member
    exact short key (List.mem_of_mem_take member)

end Storing

/-- A table with the arguments 5 for `b` and 3 for `b_order`. -/
def orderKwargs : Kwargs Nat where
  argc := 2
  argNames := ["b".toList, "b_order".toList]
  args := [5, 3]
  length_argNames := rfl
  length_args := rfl

/-- The optional keys are absent, and their destinations left alone. -/
theorem kwargsUnpack_unpacks_iff_short_order :
    CallUnpacks orderKwargs "(a;a_order;)b;b_order;".toList [0, 1, 2, 3]
      (fun _ => 0) := by
  have identifier : ∃ char ∈ "(a;a_order;)b;b_order;".toList, isvarchar char :=
    ⟨'a', by decide, by decide⟩
  exact (kwargsUnpack_unpacks_iff_short identifier).1 orderKwargs [0, 1, 2, 3]
    (fun _ => 0) (by decide) (by decide)

theorem formatKeys_run
    {run : List Char}
    (nonempty : run ≠ [])
    (inside : ∀ char ∈ run, isvarchar char) :
    formatKeys run = [⟨run, false⟩] := by
  have whole : runsBehind isvarchar [] (run ++ []) = [([], run)] := by
    rw [runsBehind_run endsOutside_nil nonempty inside (by simp)]
    rfl
  rw [List.append_nil] at whole
  rw [formatKeys, maximalRuns, whole]
  rfl

/-- The length of the only key is negative as an `int`, so that the required key is
passed over. -/
theorem not_kwargsUnpack_unpacks_long :
    ¬∀ (fmt : List Char), (∃ char ∈ fmt, isvarchar char) →
      ∀ (kwargs : Kwargs Nat) (vars : List ArgAddress) (m : ArgAddress → Nat),
        (formatKeys fmt).length ≤ vars.length → CallUnpacks kwargs fmt vars m := by
  intro serves
  obtain ⟨count, isCount⟩ : ∃ count, count = 2 ^ 31 := ⟨_, rfl⟩
  have nonempty : List.replicate count 'a' ≠ [] := by
    rw [ne_eq, List.replicate_eq_nil_iff, isCount]
    decide
  have inside : ∀ char ∈ List.replicate count 'a', isvarchar char := by
    intro char member
    rw [List.eq_of_mem_replicate member]
    decide
  have identifier : ∃ char ∈ List.replicate count 'a', isvarchar char :=
    ⟨_, List.head_mem nonempty, inside _ (List.head_mem nonempty)⟩
  have keys := formatKeys_run nonempty inside
  obtain ⟨m', rc, unpacked, unpacks⟩ :=
    serves _ identifier noKwargs [0] (fun _ => 0) (by rw [keys]; exact le_rfl)
  have unmeasured : (⟨List.replicate count 'a', false⟩ : Key).arglen < 1 := by
    rw [Key.arglen, List.length_replicate, isCount]
    decide
  have run := unpacked _ (Nat.lt_succ_self _)
  rw [kwargsUnpack_eq identifier (Nat.lt_succ_self _), keys, unpackKeys,
    if_pos unmeasured] at run
  obtain ⟨_, returned⟩ := Prod.mk.inj (Option.some.inj run)
  rw [keys] at unpacks
  have named := unpacks.returns_zero_iff.mp returned.symm _
    List.mem_cons_self rfl
  cases named

end Hiemal

import Hiemal.Args.Defs

/-!
# Numbers in strings

The range signatures of the options (`_parse_arg_sig`) and the ranges of
`util/str.c` are read by a digit predicate that holds of the empty string as well,
and by `atoi`, whose value is the decimal one only where an `int` holds it. This
module says which strings are meant and exactly where the code agrees.
-/

namespace Hiemal

open Foundation

/-! ## Decimal numbers -/

/-- A decimal number: at least one digit, with a value that an `int` holds. -/
structure IsNumber (s : Word) : Prop where
  nonempty : s ≠ []
  digits : isIntStr s = true
  fits : digitsValue s < 2 ^ 31

theorem atoi_of_lt
    {s : Word}
    (fits : digitsValue s < 2 ^ 31) :
    atoi s = digitsValue s := by
  have small : min (digitsValue s) (2 ^ 63 - 1) = digitsValue s := by
    apply Nat.min_eq_left
    omega
  rw [atoi, small]
  exact toSigned_of_lt 31 fits

theorem isIntStr_append (left right : Word) :
    isIntStr (left ++ right) = (isIntStr left && isIntStr right) := by
  apply List.all_append

/-- A digit string contains digits only. -/
theorem not_mem_of_isIntStr
    {s : Word}
    {c : Char}
    (digits : isIntStr s = true)
    (other : ¬('0' ≤ c ∧ c ≤ '9')) :
    c ∉ s := by
  intro member
  have digit := List.all_eq_true.mp digits c member
  exact other (of_decide_eq_true digit)

/-! ## Signatures -/

/-- The signatures and their ranges: any number of words, at least one, exactly so
many, or at least so many. -/
inductive SignatureRange : Word → Int → Int → Prop
  | star : SignatureRange ['*'] 0 (2 ^ 31 - 1)
  | plus : SignatureRange ['+'] 1 (2 ^ 31 - 1)
  | exactly {number : Word} (isNumber : IsNumber number) :
      SignatureRange number (digitsValue number) (digitsValue number)
  | atLeast {number : Word} (isNumber : IsNumber number) :
      SignatureRange (number ++ ['+']) (digitsValue number) (2 ^ 31 - 1)

theorem SignatureRange.ordered
    {sig : Word}
    {lower upper : Int}
    (range : SignatureRange sig lower upper) :
    0 ≤ lower ∧ lower ≤ upper := by
  cases range with
  | star => omega
  | plus => omega
  | exactly isNumber => omega
  | atLeast isNumber =>
      have fits := isNumber.fits
      omega

/-- `_parse_arg_sig` accepts the string exactly if it is a signature, with the range
of the signature, which is one of non-negative numbers. -/
def ReadsSignature (sig : Word) : Prop :=
  (∀ lower upper,
    parseArgSig sig = some (lower, upper) ↔ SignatureRange sig lower upper) ∧
  ∀ lower upper, parseArgSig sig = some (lower, upper) → 0 ≤ lower ∧ lower ≤ upper

/-- The string is not empty, and the number in it is one that an `int` holds. -/
def SignatureFits (sig : Word) : Prop :=
  sig ≠ [] ∧
    ∀ digits, sig = digits ∨ sig = digits ++ ['+'] →
      isIntStr digits = true → digitsValue digits < 2 ^ 31

/-- `_parse_arg_sig` of a digit string. -/
theorem parseArgSig_digits
    {digits : Word}
    (isDigits : isIntStr digits = true) :
    parseArgSig digits = some (atoi digits, atoi digits) := by
  have notStar : digits ≠ ['*'] := by
    rintro rfl
    exact absurd isDigits (by decide)
  have notPlus : digits ≠ ['+'] := by
    rintro rfl
    exact absurd isDigits (by decide)
  rw [parseArgSig, if_neg notStar, if_neg notPlus, if_pos isDigits]

/-- `_parse_arg_sig` of a string of at least one character before a final `+`. -/
theorem parseArgSig_append_plus
    {digits : Word}
    (nonempty : digits ≠ []) :
    parseArgSig (digits ++ ['+']) =
      if isIntStr digits then some (atoi digits, 2 ^ 31 - 1) else none := by
  have notStar : digits ++ ['+'] ≠ ['*'] := by
    intro equal
    have last := congrArg List.getLast? equal
    simp at last
  have notPlus : digits ++ ['+'] ≠ ['+'] := by
    intro equal
    exact nonempty (List.append_cancel_right (equal.trans (List.nil_append _).symm))
  have notDigits : isIntStr (digits ++ ['+']) = false := by
    rw [isIntStr_append]
    simp [isIntStr]
  rw [parseArgSig, if_neg notStar, if_neg notPlus, notDigits, if_neg (by decide),
    if_pos (List.getLast?_concat), List.dropLast_concat]

theorem parseArgSig_of_range
    {sig : Word}
    {lower upper : Int}
    (range : SignatureRange sig lower upper) :
    parseArgSig sig = some (lower, upper) := by
  cases range with
  | star => rfl
  | plus => rfl
  | exactly isNumber =>
      rw [parseArgSig_digits isNumber.digits, atoi_of_lt isNumber.fits]
  | atLeast isNumber =>
      rw [parseArgSig_append_plus isNumber.nonempty, if_pos isNumber.digits,
        atoi_of_lt isNumber.fits]

/-- What an accepted string is, one case for each branch of `_parse_arg_sig`. -/
theorem parseArgSig_cases
    {sig : Word}
    {lower upper : Int}
    (accepted : parseArgSig sig = some (lower, upper)) :
    (sig = ['*'] ∧ lower = 0 ∧ upper = 2 ^ 31 - 1) ∨
    (sig = ['+'] ∧ lower = 1 ∧ upper = 2 ^ 31 - 1) ∨
    (isIntStr sig = true ∧ lower = atoi sig ∧ upper = atoi sig) ∨
    ∃ digits, sig = digits ++ ['+'] ∧ digits ≠ [] ∧ isIntStr digits = true ∧
      lower = atoi digits ∧ upper = 2 ^ 31 - 1 := by
  by_cases star : sig = ['*']
  · rw [parseArgSig, if_pos star] at accepted
    have range := Prod.mk.inj (Option.some.inj accepted)
    exact .inl ⟨star, range.1.symm, range.2.symm⟩
  by_cases plus : sig = ['+']
  · rw [parseArgSig, if_neg star, if_pos plus] at accepted
    have range := Prod.mk.inj (Option.some.inj accepted)
    exact .inr (.inl ⟨plus, range.1.symm, range.2.symm⟩)
  by_cases digits : isIntStr sig = true
  · rw [parseArgSig_digits digits] at accepted
    have range := Prod.mk.inj (Option.some.inj accepted)
    exact .inr (.inr (.inl ⟨digits, range.1.symm, range.2.symm⟩))
  rw [parseArgSig, if_neg star, if_neg plus, if_neg digits] at accepted
  by_cases last : sig.getLast? = some '+'
  · obtain ⟨front, shape⟩ := List.getLast?_eq_some_iff.mp last
    have nonempty : front ≠ [] := by
      rintro rfl
      exact plus shape
    rw [if_pos last, shape, List.dropLast_concat] at accepted
    by_cases frontDigits : isIntStr front = true
    · rw [if_pos frontDigits] at accepted
      have range := Prod.mk.inj (Option.some.inj accepted)
      exact .inr (.inr (.inr
        ⟨front, shape, nonempty, frontDigits, range.1.symm, range.2.symm⟩))
    · rw [if_neg frontDigits] at accepted
      cases accepted
  · rw [if_neg last] at accepted
    cases accepted

/-- Where the number fits, an accepted string is a signature. -/
theorem SignatureFits.range
    {sig : Word}
    {lower upper : Int}
    (fits : SignatureFits sig)
    (accepted : parseArgSig sig = some (lower, upper)) :
    SignatureRange sig lower upper := by
  obtain ⟨nonempty, small⟩ := fits
  rcases parseArgSig_cases accepted with
    ⟨shape, least, most⟩ | ⟨shape, least, most⟩ | ⟨digits, least, most⟩ |
      ⟨digits, shape, filled, isDigits, least, most⟩
  · rw [shape, least, most]
    exact .star
  · rw [shape, least, most]
    exact .plus
  · have representable := small sig (.inl rfl) digits
    rw [least, most, atoi_of_lt representable]
    exact .exactly ⟨nonempty, digits, representable⟩
  · have representable := small digits (.inr shape) isDigits
    rw [shape, least, most, atoi_of_lt representable]
    exact .atLeast ⟨filled, isDigits, representable⟩

/-- The number of a signature is one that an `int` holds. -/
theorem SignatureRange.fits
    {sig : Word}
    {lower upper : Int}
    (range : SignatureRange sig lower upper) :
    SignatureFits sig := by
  cases range with
  | star =>
      refine ⟨by decide, ?_⟩
      rintro digits (shape | shape) isDigits
      · exact absurd (shape ▸ isDigits) (by decide)
      · have last := congrArg List.getLast? shape
        simp at last
  | plus =>
      refine ⟨by decide, ?_⟩
      rintro digits (shape | shape) isDigits
      · exact absurd (shape ▸ isDigits) (by decide)
      · have empty : [] = digits :=
          List.append_cancel_right ((List.nil_append _).trans shape)
        rw [← empty]
        decide
  | exactly isNumber =>
      refine ⟨isNumber.nonempty, ?_⟩
      rintro digits (shape | shape) isDigits
      · exact shape ▸ isNumber.fits
      · have all := isNumber.digits
        rw [shape, isIntStr_append] at all
        simp [isIntStr] at all
  | @atLeast number isNumber =>
      refine ⟨by simp, ?_⟩
      rintro digits (shape | shape) isDigits
      · rw [← shape, isIntStr_append] at isDigits
        simp [isIntStr] at isDigits
      · have same : number = digits := List.append_cancel_right shape
        exact same ▸ isNumber.fits

/-- `_parse_arg_sig` reads a string as it is meant exactly if the string is not empty
and an `int` holds the number in it. -/
theorem parseArgSig_reads_iff (sig : Word) :
    ReadsSignature sig ↔ SignatureFits sig := by
  constructor
  · rintro ⟨reads, -⟩
    constructor
    · rintro rfl
      have accepted : parseArgSig [] = some (atoi [], atoi []) :=
        parseArgSig_digits rfl
      exact ((reads _ _).mp accepted).fits.1 rfl
    · rintro digits shape isDigits
      rcases shape with same | plus
      · have accepted := same ▸ parseArgSig_digits isDigits
        exact ((reads _ _).mp accepted).fits.2 digits (.inl same) isDigits
      · by_cases nonempty : digits = []
        · rw [nonempty]
          decide
        · have accepted := parseArgSig_append_plus nonempty
          rw [if_pos isDigits, ← plus] at accepted
          exact ((reads _ _).mp accepted).fits.2 digits (.inr plus) isDigits
  · intro fits
    refine ⟨fun lower upper => ⟨fits.range, parseArgSig_of_range⟩, ?_⟩
    intro lower upper accepted
    exact (fits.range accepted).ordered

/-- The empty string is accepted, although there is no number in it. -/
theorem not_readsSignature_nil : ¬ReadsSignature [] := by
  rintro ⟨reads, -⟩
  have accepted : parseArgSig [] = some (atoi [], atoi []) :=
    parseArgSig_digits rfl
  exact ((reads _ _).mp accepted).fits.1 rfl

/-! ## Ranges -/

/-- `strchr`: the place of the first `c`; `none` is `NULL`. -/
def strchr (s : Word) (c : Char) : Option Nat :=
  s.findIdx? fun d => d = c

/-- `strrchr`: the place of the last `c`; `none` is `NULL`. -/
def strrchr : Word → Char → Option Nat
  | [], _ => none
  | d :: s, c =>
      match strrchr s c with
      | some place => some (place + 1)
      | none => if d = c then some 0 else none

/-- `is_int_range`. The string ends before the dash, and another one starts behind
it, once the dash is overwritten. -/
def isIntRange (s : Word) : Bool :=
  match strchr s '-', strrchr s '-' with
  | some first, some last =>
      if first ≠ last then false
      else if ¬isIntStr (s.take first) ∨ ¬isIntStr (s.drop (first + 1)) then false
      else if atoi (s.take first) > atoi (s.drop (first + 1)) then false
      else true
  | _, _ => false

/-- `parse_int_range`: the value returned and the range afterwards; `none` if a
`NULL` pointer is dereferenced. -/
def parseIntRange (s : Word) (range : Int × Int) : Option (Int × (Int × Int)) :=
  if ¬isIntRange s then some (-1, range)
  else
    match strchr s '-' with
    | none => none
    | some dash => some (0, (atoi (s.take dash), atoi (s.drop (dash + 1))))

theorem strchr_append_cons
    {before after : Word}
    {c : Char}
    (fresh : c ∉ before) :
    strchr (before ++ c :: after) c = some before.length := by
  induction before with
  | nil =>
      rw [strchr, List.nil_append, List.findIdx?_cons, if_pos (decide_eq_true rfl)]
      rfl
  | cons d before inductionHypothesis =>
      have other : d ≠ c := fun same => fresh (same ▸ List.mem_cons_self)
      have rest := inductionHypothesis fun member =>
        fresh (List.mem_cons_of_mem d member)
      unfold strchr at rest ⊢
      rw [List.cons_append, List.findIdx?_cons, if_neg (by simpa using other), rest]
      rfl

theorem strrchr_eq_none
    {s : Word}
    {c : Char}
    (fresh : c ∉ s) :
    strrchr s c = none := by
  induction s with
  | nil => rfl
  | cons d s inductionHypothesis =>
      have other : d ≠ c := fun same => fresh (same ▸ List.mem_cons_self)
      have rest := inductionHypothesis fun member =>
        fresh (List.mem_cons_of_mem d member)
      rw [strrchr, rest]
      exact if_neg other

theorem exists_strrchr_of_mem
    {s : Word}
    {c : Char}
    (member : c ∈ s) :
    ∃ place, strrchr s c = some place := by
  induction s with
  | nil => cases member
  | cons d s inductionHypothesis =>
      rw [strrchr]
      rcases List.mem_cons.mp member with same | later
      · cases strrchr s c with
        | some place => exact ⟨place + 1, rfl⟩
        | none => exact ⟨0, if_pos same.symm⟩
      · obtain ⟨place, found⟩ := inductionHypothesis later
        exact ⟨place + 1, by rw [found]⟩

/-- The last occurrence stays the last one behind any other string. -/
theorem strrchr_append
    (before : Word)
    {after : Word}
    {c : Char}
    {place : Nat}
    (found : strrchr after c = some place) :
    strrchr (before ++ after) c = some (before.length + place) := by
  induction before with
  | nil => rw [List.nil_append, found, List.length_nil, Nat.zero_add]
  | cons d before inductionHypothesis =>
      rw [List.cons_append, strrchr, inductionHypothesis, List.length_cons,
        Nat.add_right_comm]

theorem strrchr_cons
    {after : Word}
    {c : Char}
    (fresh : c ∉ after) :
    strrchr (c :: after) c = some 0 := by
  rw [strrchr, strrchr_eq_none fresh]
  exact if_pos rfl

/-- `is_int_range` around a single dash. -/
theorem isIntRange_single
    {before after : Word}
    (freshBefore : '-' ∉ before)
    (freshAfter : '-' ∉ after) :
    isIntRange (before ++ '-' :: after) = true ↔
      isIntStr before = true ∧ isIntStr after = true ∧ atoi before ≤ atoi after := by
  have first := @strchr_append_cons before after '-' freshBefore
  have last := strrchr_append before (strrchr_cons freshAfter)
  have left : (before ++ '-' :: after).take before.length = before :=
    List.take_left
  have right : (before ++ '-' :: after).drop (before.length + 1) = after := by
    rw [← List.drop_drop, List.drop_left]
    rfl
  unfold isIntRange
  rw [first, last]
  simp only [Nat.add_zero, left, right]
  cases isIntStr before <;> cases isIntStr after <;> simp

/-- Two dashes are not a range. -/
theorem isIntRange_double
    {before after : Word}
    (freshBefore : '-' ∉ before)
    (another : '-' ∈ after) :
    isIntRange (before ++ '-' :: after) = false := by
  obtain ⟨place, found⟩ := exists_strrchr_of_mem another
  have first := @strchr_append_cons before after '-' freshBefore
  have last : strrchr (before ++ '-' :: after) '-' =
      some (before.length + (place + 1)) := by
    apply strrchr_append
    rw [strrchr, found]
  unfold isIntRange
  rw [first, last]
  exact if_pos (by omega)

/-- The strings that `is_int_range` accepts. -/
theorem isIntRange_iff (s : Word) :
    isIntRange s = true ↔
      ∃ before after, s = before ++ '-' :: after ∧
        isIntStr before = true ∧ isIntStr after = true ∧
          atoi before ≤ atoi after := by
  constructor
  · intro accepted
    by_cases dash : '-' ∈ s
    · obtain ⟨before, after, rfl, freshBefore⟩ := List.eq_append_cons_of_mem dash
      by_cases another : '-' ∈ after
      · rw [isIntRange_double freshBefore another] at accepted
        cases accepted
      · exact ⟨before, after, rfl, (isIntRange_single freshBefore another).mp accepted⟩
    · unfold isIntRange at accepted
      rw [strrchr_eq_none dash] at accepted
      cases first : strchr s '-' with
      | none =>
          rw [first] at accepted
          cases accepted
      | some place =>
          rw [first] at accepted
          cases accepted
  · rintro ⟨before, after, rfl, left, right, ordered⟩
    have freshBefore := not_mem_of_isIntStr left (by decide : ¬('0' ≤ '-' ∧ '-' ≤ '9'))
    have freshAfter := not_mem_of_isIntStr right (by decide : ¬('0' ≤ '-' ∧ '-' ≤ '9'))
    exact (isIntRange_single freshBefore freshAfter).mpr ⟨left, right, ordered⟩

/-- `parse_int_range` of two digit strings around a dash. -/
theorem parseIntRange_single
    {before after : Word}
    (left : isIntStr before = true)
    (right : isIntStr after = true)
    (range : Int × Int) :
    parseIntRange (before ++ '-' :: after) range =
      if atoi before ≤ atoi after then some (0, (atoi before, atoi after))
      else some (-1, range) := by
  have freshBefore := not_mem_of_isIntStr left (by decide : ¬('0' ≤ '-' ∧ '-' ≤ '9'))
  have freshAfter := not_mem_of_isIntStr right (by decide : ¬('0' ≤ '-' ∧ '-' ≤ '9'))
  have accepts := isIntRange_single freshBefore freshAfter
  unfold parseIntRange
  by_cases ordered : atoi before ≤ atoi after
  · rw [if_pos ordered, if_neg (not_not.mpr (accepts.mpr ⟨left, right, ordered⟩)),
      strchr_append_cons freshBefore]
    simp only [List.take_left]
    rw [← List.drop_drop, List.drop_left]
    rfl
  · rw [if_neg ordered, if_pos fun accepted => ordered (accepts.mp accepted).2.2]

/-- The strings that are meant: two numbers around a dash, the first one not the
larger one. -/
def IsRange (s : Word) (lower upper : Int) : Prop :=
  ∃ before after, s = before ++ '-' :: after ∧ IsNumber before ∧ IsNumber after ∧
    digitsValue before ≤ digitsValue after ∧
      lower = digitsValue before ∧ upper = digitsValue after

/-- `parse_int_range` returns 0 and stores the range if the string is one, and
otherwise returns -1 and leaves the range as it was. -/
def ReadsRange (s : Word) : Prop :=
  ∀ range,
    (∀ lower upper, IsRange s lower upper →
      parseIntRange s range = some (0, (lower, upper))) ∧
    ((∀ lower upper, ¬IsRange s lower upper) →
      parseIntRange s range = some (-1, range))

/-- Where the string is two digit strings around a dash, both are numbers, or
`atoi` makes the first one the larger one. -/
def RangeFits (s : Word) : Prop :=
  ∀ before after, s = before ++ '-' :: after →
    isIntStr before = true → isIntStr after = true →
      IsNumber before ∧ IsNumber after ∨ atoi after < atoi before

/-- There is one way to read a string as two digit strings around a dash. -/
theorem dash_unique
    {before after left right : Word}
    (same : before ++ '-' :: after = left ++ '-' :: right)
    (beforeDigits : isIntStr before = true)
    (leftDigits : isIntStr left = true) :
    before = left ∧ after = right := by
  have first := @strchr_append_cons before after '-'
    (not_mem_of_isIntStr beforeDigits (by decide))
  rw [same, strchr_append_cons (not_mem_of_isIntStr leftDigits (by decide))] at first
  have parts := List.append_inj same (Option.some.inj first).symm
  exact ⟨parts.1, (List.cons.inj parts.2).2⟩

/-- `parse_int_range` reads a string as it is meant exactly if the two sides of its
dash are numbers, or the first one is the larger one in any case. -/
theorem parseIntRange_reads_iff (s : Word) :
    ReadsRange s ↔ RangeFits s := by
  constructor
  · rintro reads before after rfl left right
    by_contra unfit
    rw [not_or, not_lt] at unfit
    obtain ⟨notNumbers, ordered⟩ := unfit
    have rejected := (reads (-1, -1)).2 (by
      rintro lower upper ⟨first, second, same, isFirst, isSecond, -⟩
      obtain ⟨rfl, rfl⟩ := dash_unique same left isFirst.digits
      exact notNumbers ⟨isFirst, isSecond⟩)
    rw [parseIntRange_single left right, if_pos ordered] at rejected
    cases rejected
  · intro fits range
    constructor
    · rintro lower upper ⟨before, after, rfl, isBefore, isAfter, ordered, rfl, rfl⟩
      rw [parseIntRange_single isBefore.digits isAfter.digits,
        atoi_of_lt isBefore.fits, atoi_of_lt isAfter.fits,
        if_pos (Int.ofNat_le.mpr ordered)]
    · intro noRange
      unfold parseIntRange
      by_cases accepted : isIntRange s = true
      · obtain ⟨before, after, rfl, left, right, ordered⟩ :=
          (isIntRange_iff s).mp accepted
        rcases fits before after rfl left right with ⟨isBefore, isAfter⟩ | larger
        · rw [atoi_of_lt isBefore.fits, atoi_of_lt isAfter.fits] at ordered
          exact absurd
            ⟨before, after, rfl, isBefore, isAfter, Int.ofNat_le.mp ordered, rfl, rfl⟩
            (noRange _ _)
        · omega
      · exact if_pos accepted

/-- A single dash is read as the range from 0 to 0. -/
theorem not_readsRange_dash : ¬ReadsRange ['-'] := by
  intro reads
  have rejected := (reads (-1, -1)).2 (by
    rintro lower upper ⟨before, after, same, isBefore, -⟩
    cases before with
    | nil => exact isBefore.nonempty rfl
    | cons c before =>
        have parts := List.cons.inj same
        cases before <;> cases parts.2)
  exact absurd rejected (by decide)

end Hiemal

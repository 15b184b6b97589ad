import Hiemal.Generator.Defs

/-!
# The state of an op

The struct type of an op's state is named by three format strings: the typedef
declares it, the unpack macro casts to it, and the constructor allocates an object for
it. The constructor names the type of the parameters instead, whatever the op is.
-/

namespace Hiemal

open Foundation

variable (opType : OpType) (op : OpDescription)

/-- The typedef declares a struct type with fields. -/
def Declares (typedef type : String) : Prop :=
  ∃ fields, typedef = "typedef struct \x7b " ++ fields ++ "; \x7d " ++ type ++ ";"

/-- The macro reads the state through a pointer to the type. -/
def CastsTo (macroDef type : String) : Prop :=
  ∃ before after, macroDef = before ++ " = ((" ++ type ++ "*)(name))->" ++ after

/-- The end of a constructor, behind the statement for the state. -/
def constructorEnd : String :=
  "\n  (new_op->init)(new_op->state, new_op->kwargs);\n  return new_op;\n\x7d\n"

/-- The constructor allocates an object of the type for the state, right before it
calls `init`. -/
def AllocatesState (constructor type : String) : Prop :=
  ∃ before, constructor =
    before ++ "  new_op->state = calloc(sizeof(" ++ type ++
      ("),1);" ++ constructorEnd)

/-- The emitted constructor allocates the type that the emitted typedef declares and
that the emitted macro casts to. -/
def StateAllocated : Prop :=
  ∃ type, Declares (genWrapper opType op).stateTypedef type ∧
    CastsTo (genWrapper opType op).opStateMacroDef type ∧
      AllocatesState (genWrapper opType op).opStructWrapperDef type

/-- The type that is named after the state. -/
def stateType : String :=
  op.name ++ "_" ++ opType.text ++ "_state_t"

/-- The type that is named after the parameters. -/
def kwargsType : String :=
  op.name ++ "_" ++ opType.text ++ "_kwargs_t"

/-! ## What is emitted -/

/-- The lines of a constructor from its arguments on. -/
theorem intercalate_constructor
    (head : List String)
    (kwargsFill stateMalloc : String) :
    "\n".intercalate
        (head ++
          [ kwargsFill,
            "  new_op->kwargs = (void*)op_args;",
            stateMalloc,
            "  (new_op->init)(new_op->state, new_op->kwargs);",
            "  return new_op;",
            "\x7d",
            "" ]) =
      "\n".intercalate (head ++ [kwargsFill, "  new_op->kwargs = (void*)op_args;"]) ++
        "\n" ++ stateMalloc ++ constructorEnd := by
  rw [List.append_cons, List.append_cons _ "  new_op->kwargs = (void*)op_args;",
    String.intercalate_append_of_ne_nil (by simp) (by simp), List.append_assoc head]
  simp only [String.intercalate_cons_cons, String.intercalate_singleton,
    String.append_assoc, List.cons_append, List.nil_append, String.append_empty]
  rfl

/-- The statement stands in the constructor, in front of the call of `init`. -/
theorem opStructWrapperDefStr_malloc
    (name params kwargsFill stateMalloc : String) :
    ∃ before, opStructWrapperDefStr opType name params kwargsFill stateMalloc =
      before ++ stateMalloc ++ constructorEnd := by
  unfold opStructWrapperDefStr
  cases opType with
  | source =>
      dsimp only
      exact ⟨_, intercalate_constructor _ kwargsFill stateMalloc⟩
  | sink =>
      dsimp only
      exact ⟨_, intercalate_constructor _ kwargsFill stateMalloc⟩
  | dsp =>
      dsimp only
      exact ⟨_, intercalate_constructor _ kwargsFill stateMalloc⟩

variable {opType op}

/-- The statement allocates the type that is named after the parameters. -/
theorem opStateMalloc_eq (stateful : op.state ≠ []) :
    opStateMalloc opType op =
      "  new_op->state = calloc(sizeof(" ++ kwargsType opType op ++ "),1);" := by
  rw [opStateMalloc, if_neg stateful, kwargsType]
  simp only [String.append_assoc]
  rfl

/-- The typedef declares the type that is named after the state. -/
theorem declares_stateTypedef (stateful : op.state ≠ []) :
    Declares (genWrapper opType op).stateTypedef (stateType opType op) := by
  refine ⟨fieldList op.state, ?_⟩
  rw [genWrapper, stateTypedef, if_neg stateful, stateType]
  simp only [String.append_assoc]
  rfl

/-- The macro casts to the same type. -/
theorem castsTo_opStateMacroDef (stateful : op.state ≠ []) :
    CastsTo (genWrapper opType op).opStateMacroDef (stateType opType op) := by
  obtain ⟨⟨name, type⟩, fields, state⟩ := List.exists_cons_of_ne_nil stateful
  rw [CastsTo, genWrapper, opStateMacroDef, opStateMacroBody, if_neg stateful, state,
    stateType, List.map_cons]
  generalize List.map _ fields = others
  have split : "_state_t*)(name))->" = "_state_t" ++ "*)(name))->" := rfl
  refine ⟨"#define __" ++ opType.text.toUpper ++ "_" ++ op.name.toUpper ++
    "_STATE_UNPACK(name) " ++ type ++ " state_" ++ name,
    "; ".intercalate (name :: others) ++ ";\n", ?_⟩
  dsimp only
  rw [String.intercalate_cons_append, split]
  simp only [String.append_assoc]

/-- With parameters, their type is declared as well, with the parameters as fields. -/
theorem declares_kwargsTypedef (parametric : op.params ≠ []) :
    Declares (genWrapper opType op).kwargsTypedef (kwargsType opType op) := by
  refine ⟨fieldList op.params, ?_⟩
  rw [genWrapper, kwargsTypedef, if_neg parametric, kwargsType]
  simp only [String.append_assoc]
  rfl

/-- With parameters, the emitted constructor has the statement as it is. -/
theorem allocatesState_kwargs
    (stateful : op.state ≠ [])
    (parametric : op.params ≠ []) :
    AllocatesState (genWrapper opType op).opStructWrapperDef
      (kwargsType opType op) := by
  rw [genWrapper]
  dsimp only
  rw [if_neg parametric]
  obtain ⟨before, text⟩ := opStructWrapperDefStr_malloc opType op.name _ _ _
  refine ⟨before, text.trans ?_⟩
  rw [opStateMalloc_eq stateful]
  simp only [String.append_assoc]

/-- Dropping the comma in front of no parameters leaves an end without a brace. -/
theorem strReplace_append
    {text back : String}
    (absent : '\x7b' ∉ back.toList) :
    strReplace (text ++ back) ", ) \x7b" ") \x7b" =
      strReplace text ", ) \x7b" ") \x7b" ++ back := by
  have pattern : ", ) \x7b".toList = [',', ' ', ')', ' '] ++ ['\x7b'] := rfl
  apply String.toList_inj.mp
  unfold strReplace
  rw [pattern]
  simp only [String.toList_append, String.toList_ofList]
  exact replaceFrom_append absent (Nat.zero_le text.toList.length)

/-- With or without parameters, the name of the allocated type ends as that of the
parameters. -/
theorem genWrapper_kwargs (stateful : op.state ≠ []) :
    ∃ before, (genWrapper opType op).opStructWrapperDef =
      before ++ "_kwargs_t" ++ ("),1);" ++ constructorEnd) := by
  by_cases parametric : op.params = []
  · rw [genWrapper]
    dsimp only
    rw [if_pos parametric]
    obtain ⟨before, text⟩ := opStructWrapperDefStr_malloc opType op.name
      (strReplace (fieldList op.params) ";" ",")
      (strReplace (opWrapperKwargsFill op) "." "->") (opStateMalloc opType op)
    have split :
        before ++ opStateMalloc opType op ++ constructorEnd =
          before ++ "  new_op->state = calloc(sizeof(" ++ op.name ++ "_" ++
            opType.text ++ ("_kwargs_t" ++ ("),1);" ++ constructorEnd)) := by
      rw [opStateMalloc_eq stateful, kwargsType]
      simp only [String.append_assoc]
    rw [text, split, strReplace_append (by decide), ← String.append_assoc]
    exact ⟨_, rfl⟩
  · obtain ⟨before, text⟩ := @allocatesState_kwargs opType op stateful parametric
    refine ⟨before ++ "  new_op->state = calloc(sizeof(" ++ op.name ++ "_" ++
      opType.text, text.trans ?_⟩
    rw [kwargsType]
    simp only [String.append_assoc]

/-! ## The two types -/

/-- Equal texts with the same end start in the same way. -/
theorem suffix_cancel
    {left right back : String}
    (same : left ++ back = right ++ back) :
    left = right := by
  apply String.toList_inj.mp
  have characters := congrArg String.toList same
  rw [String.toList_append, String.toList_append] at characters
  exact List.append_cancel_right characters

/-- The name of a type cannot end both as that of the state and as that of the
parameters, with a blank before it in one text and a bracket in the other. -/
theorem not_stateEnd_kwargsEnd
    {type declared allocated before after : String}
    (declares : declared ++ " " ++ type = before ++ "_state_t")
    (allocates : allocated ++ "(" ++ type = after ++ "_kwargs_t") : False := by
  have stateEnd := congrArg (fun text => text.toList.reverse) declares
  have kwargsEnd := congrArg (fun text => text.toList.reverse) allocates
  simp only [String.toList_append, List.reverse_append] at stateEnd kwargsEnd
  generalize type.toList.reverse = ending at stateEnd kwargsEnd
  -- the third character from the end is an `e` in one text and an `s` in the other
  rcases ending with _ | ⟨_, _ | ⟨_, _ | ⟨third, ending⟩⟩⟩
  · cases stateEnd
  · cases stateEnd
  · cases stateEnd
  · have inState : some third = some 'e' :=
      congrArg (fun text => text[2]?) stateEnd
    have inKwargs : some third = some 's' :=
      congrArg (fun text => text[2]?) kwargsEnd
    exact absurd (inState.symm.trans inKwargs) (by decide)

/-- A type that is declared for the state is not the one that is allocated: the names
end differently. -/
theorem Declares.not_allocatesState
    {type : String}
    (stateful : op.state ≠ [])
    (declares : Declares (genWrapper opType op).stateTypedef type) :
    ¬AllocatesState (genWrapper opType op).opStructWrapperDef type := by
  rintro ⟨before, allocates⟩
  obtain ⟨fields, declared⟩ := declares
  obtain ⟨stateFields, state⟩ := @declares_stateTypedef opType op stateful
  obtain ⟨beforeKwargs, kwargs⟩ := @genWrapper_kwargs opType op stateful
  have typedefs := suffix_cancel (declared.symm.trans state)
  have constructors := suffix_cancel (allocates.symm.trans kwargs)
  have blank : "; \x7d " = "; \x7d" ++ " " := rfl
  have bracket : "  new_op->state = calloc(sizeof(" =
      "  new_op->state = calloc(sizeof" ++ "(" := rfl
  apply @not_stateEnd_kwargsEnd type ("typedef struct \x7b " ++ fields ++ "; \x7d")
    (before ++ "  new_op->state = calloc(sizeof")
    ("typedef struct \x7b " ++ stateFields ++ "; \x7d " ++ op.name ++ "_" ++
      opType.text) beforeKwargs
  · simpa only [blank, stateType, String.append_assoc] using typedefs
  · simpa only [bracket, String.append_assoc] using constructors

variable (opType op)

/-- For no op with a state does the constructor allocate the type that the typedef
declares and that the macro casts to: that is the type named after the state, and the
constructor allocates the one named after the parameters. -/
theorem not_stateAllocated (stateful : op.state ≠ []) :
    (Declares (genWrapper opType op).stateTypedef (stateType opType op) ∧
      CastsTo (genWrapper opType op).opStateMacroDef (stateType opType op)) ∧
    (op.params ≠ [] →
      Declares (genWrapper opType op).kwargsTypedef (kwargsType opType op) ∧
        AllocatesState (genWrapper opType op).opStructWrapperDef
          (kwargsType opType op)) ∧
    ¬StateAllocated opType op := by
  refine ⟨⟨declares_stateTypedef stateful, castsTo_opStateMacroDef stateful⟩, ?_, ?_⟩
  · intro parametric
    exact ⟨declares_kwargsTypedef parametric,
      allocatesState_kwargs stateful parametric⟩
  · rintro ⟨type, declares, -, allocates⟩
    exact declares.not_allocatesState stateful allocates

/-- The source op for files: its state is one pointer, and so are its parameters. -/
def fileSource : OpDescription where
  name := "file"
  params := [("filename", "const char*")]
  state := [("fp", "FILE*")]

/-- The typedef declares the type for the state, and the constructor allocates the one
for the parameters. -/
theorem not_stateAllocated_file :
    Declares (genWrapper .source fileSource).stateTypedef
        (stateType .source fileSource) ∧
      AllocatesState (genWrapper .source fileSource).opStructWrapperDef
        (kwargsType .source fileSource) ∧
      ¬StateAllocated .source fileSource := by
  obtain ⟨⟨declares, -⟩, allocates, mismatch⟩ :=
    not_stateAllocated .source fileSource (by decide)
  exact ⟨declares, (allocates (by decide)).2, mismatch⟩

/-- The source op for devices: its state is two pointers, and its parameters are
one. -/
def ioDeviceSource : OpDescription where
  name := "io_device"
  params := [("backend_name", "const char*")]
  state :=
    [ ("backend", "hm_backend_connection_t*"),
      ("src_connection", "hm_device_io_connection_t*") ]

theorem not_stateAllocated_ioDevice : ¬StateAllocated .source ioDeviceSource := by
  rintro ⟨type, declares, -, allocates⟩
  exact @Declares.not_allocatesState .source ioDeviceSource type (by decide)
    declares allocates

end Hiemal

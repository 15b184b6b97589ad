import Hiemal.Foundation.Replacing
import Hiemal.Foundation.Segments

/-!
# The generator of the ops

Translation of `core/ops/util/gen_ops.py`, which reads a description of the ops and
fills in `core/ops/ops.c.in` and two headers. The description is a JSON object: an
op type is a key of it, and a parameter or a field of the state is a name with a C
type. A missing list of parameters or of fields counts as an empty one.

The C text is built by the same format strings as in the source; `\x7b` and `\x7d` are
the curly brackets.
-/

namespace Hiemal

open Foundation

/-- The keys of the description. -/
inductive OpType
  | source
  | sink
  | dsp
  deriving DecidableEq

def OpType.text : OpType → String
  | .source => "source"
  | .sink => "sink"
  | .dsp => "dsp"

/-- One op. A parameter and a field are a name and a type. -/
structure OpDescription where
  name : String
  params : List (String × String)
  state : List (String × String)
  deriving DecidableEq

/-- `json.load`: each of the three keys once, in the order of the file. -/
structure OpsDescription where
  items : List (OpType × List OpDescription)
  keys : (items.map Prod.fst).Perm [.source, .sink, .dsp]

/-- `ops[key]`. -/
def OpsDescription.get (ops : OpsDescription) (key : OpType) : List OpDescription :=
  match ops.items.find? fun item => item.1 = key with
  | some item => item.2
  | none => []

/-! ## The table of names -/

/-- An array of the declared size: initializers that do not fit are left out, and
pointers without one are `NULL`. -/
def initializedArray (size : Nat) (initializers : List (Option String)) :
    List (Option String) :=
  (initializers ++ List.replicate (size - initializers.length) none).take size

/-- The size `ops_list` is declared with. -/
def opsListSize (ops : OpsDescription) : Nat :=
  (ops.get .source).length + (ops.get .sink).length + (ops.get .dsp).length + 3

/-- `ops_list`: the names of each list, in the order of the file, and a `NULL`. -/
def opsList (ops : OpsDescription) : List (Option String) :=
  initializedArray (opsListSize ops)
    (ops.items.flatMap fun item => item.2.map (fun op => some op.name) ++ [none])

/-- `SINK_LIST_START`. -/
def sinkListStart (ops : OpsDescription) : Nat :=
  (ops.get .source).length + 1

/-- `DSP_LIST_START`. -/
def dspListStart (ops : OpsDescription) : Nat :=
  (ops.get .source).length + (ops.get .sink).length + 2

/-- `hm_source_list`, and what is in the table from there on. -/
def hmSourceList (ops : OpsDescription) : List (Option String) :=
  opsList ops

def hmSinkList (ops : OpsDescription) : List (Option String) :=
  (opsList ops).drop (sinkListStart ops)

def hmDspList (ops : OpsDescription) : List (Option String) :=
  (opsList ops).drop (dspListStart ops)

/-! ## The wrappers of an op -/

/-- `str.replace`, for a text to replace that is not empty. -/
def strReplace (text old new : String) : String :=
  String.ofList (replaceFrom old.toList new.toList 0 text.toList)

/-- `op_param_list` and `op_state_list`. -/
def fieldList (fields : List (String × String)) : String :=
  "; ".intercalate (fields.map fun (name, type) => type ++ " " ++ name)

/-- `kwargs_typedef`. -/
def kwargsTypedef (opType : OpType) (op : OpDescription) : String :=
  if op.params = [] then
    "typedef struct \x7b\x7d " ++ op.name ++ "_" ++ opType.text ++ "_kwargs_t;"
  else
    "typedef struct \x7b " ++ fieldList op.params ++ "; \x7d " ++ op.name ++ "_" ++
      opType.text ++ "_kwargs_t;"

/-- `op_wrapper_kwargs_fill`. -/
def opWrapperKwargsFill (op : OpDescription) : String :=
  "\n".intercalate (op.params.map fun (name, _) =>
    "  op_args." ++ name ++ " = " ++ name ++ ";")

/-- `state_typedef`. -/
def stateTypedef (opType : OpType) (op : OpDescription) : String :=
  if op.state = [] then
    "typedef struct \x7b\x7d " ++ op.name ++ "_" ++ opType.text ++ "_state_t;"
  else
    "typedef struct \x7b " ++ fieldList op.state ++ "; \x7d " ++ op.name ++ "_" ++
      opType.text ++ "_state_t;"

/-- `op_state_macro_def`, the text of the macro. -/
def opStateMacroBody (opType : OpType) (op : OpDescription) : String :=
  if op.state = [] then ""
  else
    "; ".intercalate (op.state.map fun (name, type) =>
      type ++ " state_" ++ name ++ " = ((" ++ op.name ++ "_" ++ opType.text ++
        "_state_t*)(name))->" ++ name) ++ ";\n"

/-- `op_state_macro_def`, the definition of the macro. -/
def opStateMacroDef (opType : OpType) (op : OpDescription) : String :=
  "#define __" ++ opType.text.toUpper ++ "_" ++ op.name.toUpper ++
    "_STATE_UNPACK(name) " ++ opStateMacroBody opType op

/-- `op_state_malloc`. -/
def opStateMalloc (opType : OpType) (op : OpDescription) : String :=
  if op.state = [] then "new_op->state = NULL;"
  else
    "  new_op->state = calloc(sizeof(" ++ op.name ++ "_" ++ opType.text ++
      "_kwargs_t),1);"

/-- `op_wrapper_def_str`: the wrapper that runs an op once. -/
def opWrapperDefStr (opType : OpType) (params name kwargsFill : String) : String :=
  let head :=
    match opType with
    | .source => "int hm_source_" ++ name ++ "(void *dest, unsigned int n_bytes, "
    | .sink => "int hm_sink_" ++ name ++ "(void *src, unsigned int n_bytes, "
    | .dsp =>
        "int hm_dsp_" ++ name ++ "(void *src, void *dest, unsigned int n_bytes, "
  let call :=
    match opType with
    | .source => "_source_impl(dest, n_bytes, &op_args, &op_state);"
    | .sink => "_sink_impl(src, n_bytes, &op_args, &op_state);"
    | .dsp => "_dsp_impl(src, dest, n_bytes, &op_args, &op_state);"
  "\n".intercalate
    [ "",
      head ++ params ++ ") \x7b",
      "  " ++ name ++ "_" ++ opType.text ++ "_kwargs_t op_args;",
      kwargsFill,
      "  " ++ name ++ "_" ++ opType.text ++ "_state_t op_state;",
      "  " ++ name ++ "_" ++ opType.text ++ "_init(&op_state, &op_args);",
      "  int rc = " ++ name ++ call,
      "  " ++ name ++ "_" ++ opType.text ++ "_fini(&op_state, &op_args);",
      "  return rc;",
      "\x7d",
      "" ]

/-- `op_struct_wrapper_def_str`: the constructor of an op. -/
def opStructWrapperDefStr
    (opType : OpType)
    (name params kwargsFill stateMalloc : String) : String :=
  let head :=
    match opType with
    | .source =>
        [ "",
          "hm_source_op* hm_source_" ++ name ++
            "_op(hm_format_signature output_type, " ++ params ++ ") \x7b",
          "  " ++ name ++ "_source_kwargs_t* op_args = malloc(sizeof(" ++ name ++
            "_source_kwargs_t));",
          "  hm_source_op* new_op = (hm_source_op*)malloc(sizeof(hm_source_op));",
          "  new_op->op_fn = " ++ name ++ "_source_impl;",
          "  new_op->bytes_readable_fn = " ++ name ++ "_bytes_readable;",
          "  new_op->init = " ++ name ++ "_source_init;",
          "  new_op->fini = " ++ name ++ "_source_fini;",
          "  new_op->output_type = output_type;" ]
    | .sink =>
        [ "",
          "hm_sink_op* hm_sink_" ++ name ++
            "_op(hm_format_signature input_type, " ++ params ++ ") \x7b",
          "  " ++ name ++ "_sink_kwargs_t* op_args = malloc(sizeof(" ++ name ++
            "_sink_kwargs_t));",
          "  hm_sink_op* new_op = (hm_sink_op*)malloc(sizeof(hm_sink_op));",
          "  new_op->op_fn = " ++ name ++ "_sink_impl;",
          "  new_op->init = " ++ name ++ "_sink_init;",
          "  new_op->fini = " ++ name ++ "_sink_fini;",
          "  new_op->bytes_writable_fn = " ++ name ++ "_bytes_writable;",
          "  new_op->input_type = input_type;" ]
    | .dsp =>
        [ "",
          "hm_dsp_op* hm_dsp_" ++ name ++
            "_op(hm_format_signature input_type, hm_format_signature output_type, " ++
            params ++ ") \x7b",
          "  " ++ name ++ "_dsp_kwargs_t* op_args = malloc(sizeof(" ++ name ++
            "_dsp_kwargs_t));",
          "  hm_dsp_op* new_op = (hm_dsp_op*)malloc(sizeof(hm_dsp_op));",
          "  new_op->op_fn = " ++ name ++ "_dsp_impl;",
          "  new_op->init = " ++ name ++ "_dsp_init;",
          "  new_op->fini = " ++ name ++ "_dsp_fini;",
          "  new_op->input_type = input_type;",
          "  new_op->output_type = output_type;" ]
  "\n".intercalate
    (head ++
      [ kwargsFill,
        "  new_op->kwargs = (void*)op_args;",
        stateMalloc,
        "  (new_op->init)(new_op->state, new_op->kwargs);",
        "  return new_op;",
        "\x7d",
        "" ])

/-- What `_gen_wrapper` emits for an op: its types, the macro for its state, the
wrapper that runs it once and its constructor. -/
structure OpWrapper where
  kwargsTypedef : String
  stateTypedef : String
  opStateMacroDef : String
  opWrapperDef : String
  opStructWrapperDef : String
  deriving DecidableEq

/-- `_gen_wrapper`. Without parameters the comma in front of them goes. -/
def genWrapper (opType : OpType) (op : OpDescription) : OpWrapper :=
  let params := strReplace (fieldList op.params) ";" ","
  let wrapper := opWrapperDefStr opType params op.name (opWrapperKwargsFill op)
  let constructor :=
    opStructWrapperDefStr opType op.name params
      (strReplace (opWrapperKwargsFill op) "." "->") (opStateMalloc opType op)
  { kwargsTypedef := kwargsTypedef opType op
    stateTypedef := stateTypedef opType op
    opStateMacroDef := opStateMacroDef opType op
    opWrapperDef :=
      if op.params = [] then strReplace wrapper ", ) \x7b" ") \x7b" else wrapper
    opStructWrapperDef :=
      if op.params = [] then strReplace constructor ", ) \x7b" ") \x7b"
      else constructor }

end Hiemal

import Teuton.GraphEval

/-! The graph builder: the registry of operations with their signatures, the typed methods that
put operations together, and the session of a caller, who keeps the references that the builder
returned. The evaluator's table of functions is a list of names here; the functions are those of
the tensor library. -/
namespace GraphBuilder

open PyJson PyText GraphIr ComputeUnits GraphEval

/-! ### References -/

section References

def refInput (name : String) : Fields := mkFields [("kind", .str "input"), ("name", .str name)]

def refOp (opId idx : ℕ) : Fields :=
  mkFields [("kind", .str "op"), ("id", .int opId), ("idx", .int idx)]

def refParam (name : String) : Fields := mkFields [("kind", .str "param"), ("name", .str name)]

def refConst (value : Json) : Fields := mkFields [("kind", .str "const"), ("value", value)]

def refConstBlob (uri : String) (shape : List ℤ) (dtype : String) : Fields :=
  mkFields [("kind", .str "const_blob"), ("uri", .str uri), ("shape", .arr (shape.map .int)),
    ("dtype", .str dtype)]

end References

/-! ### The registry -/

section Registry

/-- A negative number of arguments leaves their number open. -/
structure OpSig where
  name : String
  nArgs : ℤ
  kwargs : List String := []

def registry : List OpSig :=
  ["add", "sub", "mul", "div", "pow"].map (fun name => ⟨name, 2, []⟩) ++
  ["neg", "exp", "log", "sqrt", "abs", "round", "relu", "gelu", "silu", "sin", "cos", "sigmoid",
    "tanh", "identity"].map (fun name => ⟨name, 1, []⟩) ++
  ["gt", "lt", "ge", "le", "eq"].map (fun name => ⟨name, 2, []⟩) ++
  [⟨"clamp", 1, ["min", "max"]⟩, ⟨"where", 3, []⟩, ⟨"cast", 1, ["dtype"]⟩, ⟨"sign", 1, []⟩,
    ⟨"matmul", 2, []⟩, ⟨"transpose", 1, ["dims"]⟩, ⟨"reshape", 1, ["shape"]⟩,
    ⟨"einsum", 2, ["equation"]⟩] ++
  ["sum", "mean", "max", "min"].map (fun name => ⟨name, 1, ["dim", "keepdim"]⟩) ++
  [⟨"concat", -1, ["dim"]⟩, ⟨"split", 1, ["sizes", "dim"]⟩, ⟨"broadcast", 1, ["shape"]⟩,
    ⟨"squeeze", 1, ["dim"]⟩, ⟨"unsqueeze", 1, ["dim"]⟩, ⟨"slice", 1, ["dim", "start", "end"]⟩,
    ⟨"stack", -1, ["dim"]⟩, ⟨"gather", 2, ["dim"]⟩, ⟨"scatter", 3, ["dim"]⟩,
    ⟨"arange", 0, ["start", "end", "step", "dtype"]⟩, ⟨"normal", 0, ["seed", "shape", "dtype"]⟩,
    ⟨"uniform", 0, ["seed", "shape", "dtype"]⟩, ⟨"sort", 1, ["dim", "descending"]⟩,
    ⟨"topk", 1, ["k", "dim"]⟩, ⟨"softmax", 1, ["dim"]⟩, ⟨"log_softmax", 1, ["dim"]⟩,
    ⟨"layer_norm", 3, ["eps"]⟩, ⟨"rmsnorm", 2, ["eps"]⟩, ⟨"cross_entropy", 2, ["ignore_index"]⟩,
    ⟨"embedding", 2, []⟩, ⟨"tril", 1, ["diagonal"]⟩, ⟨"triu", 1, ["diagonal"]⟩,
    ⟨"full", 0, ["shape", "value", "dtype"]⟩, ⟨"quantize_int8_per_channel", 1, ["dim"]⟩,
    ⟨"dequantize_int8_per_channel", 2, []⟩, ⟨"quantize_pack_int8", 1, ["dim"]⟩,
    ⟨"unpack_dequantize_int8", 1, ["dim", "shape", "scale_dim"]⟩, ⟨"qr", 1, []⟩,
    ⟨"data_indexer", 1, ["B", "T", "mb_seed"]⟩]

def opSignature (name : String) : Py OpSig :=
  match registry.find? (·.name = name) with
  | some sig => .ok sig
  | none => .error (.keyError ("unknown op: " ++ quoted name))

/-- The names in the evaluator's table `_DISPATCH`. -/
def dispatchNames : List String :=
  ["add", "sub", "mul", "div", "pow", "neg", "exp", "log", "sqrt", "abs", "round", "relu", "gelu",
    "silu", "sin", "cos", "sigmoid", "tanh", "identity", "sign", "clamp", "where", "cast", "gt",
    "lt", "ge", "le", "eq", "matmul", "transpose", "reshape", "einsum", "sum", "mean", "max",
    "min", "concat", "stack", "split", "broadcast", "squeeze", "unsqueeze", "slice", "gather",
    "scatter", "arange", "normal", "uniform", "sort", "topk", "softmax", "log_softmax",
    "layer_norm", "rmsnorm", "cross_entropy", "embedding", "tril", "triu", "full",
    "data_indexer", "quantize_int8_per_channel", "dequantize_int8_per_channel",
    "quantize_pack_int8", "unpack_dequantize_int8", "qr"]

theorem registered_has_evaluator : ∀ sig ∈ registry, sig.name ∈ dispatchNames := by decide

end Registry

/-! ### The builder -/

section Builder

structure Builder where
  inputs : List TensorSpec := []
  outputs : List GraphOutput := []
  params : List ParamSpec := []
  ops : List Op := []

def Builder.build (b : Builder) : Graph where
  inputs := b.inputs
  outputs := b.outputs
  params := b.params
  ops := b.ops

def intList (l : Json) : Py (List ℤ) := do (← l.toList).mapM Json.toInt

def Builder.input (b : Builder) (name : String) (shape : Json) (dtype : String) :
    Py (Fields × Builder) := do
  if b.inputs.any (·.name = name) then
    .error (.valueError ("duplicate input name: " ++ quoted name))
  else
    let spec : TensorSpec := { name := name, shape := ← intList shape, dtype := dtype }
    return (refInput name, { b with inputs := b.inputs ++ [spec] })

def Builder.param (b : Builder) (name type : String) : Py (Fields × Builder) :=
  if b.params.any (·.name = name) then
    .error (.valueError ("duplicate param name: " ++ quoted name))
  else .ok (refParam name, { b with params := b.params ++ [⟨name, type⟩] })

def Builder.output (b : Builder) (name : String) (ref : Fields) : Builder :=
  { b with outputs := b.outputs ++ [⟨name, ref⟩] }

/-- An operation as a method hands it on; `emit` is called without a number of outputs. -/
structure OpCall where
  op : String
  args : List Fields := []
  kwargs : Fields := []
  nOutputs : Option ℕ := none

/-- The methods `emit` and `emit_multi`: check the signature and append the operation. -/
def Builder.emit (b : Builder) (c : OpCall) : Py (List Fields × Builder) := do
  let sig ← opSignature c.op
  if 0 ≤ sig.nArgs ∧ (c.args.length : ℤ) ≠ sig.nArgs then
    .error (.valueError ("op " ++ quoted c.op ++ " expects " ++ toString sig.nArgs ++
      " args, got " ++ toString c.args.length))
  else
    match c.kwargs.find? (·.1 ∉ sig.kwargs) with
    | some kwarg => .error (.valueError ("op " ++ quoted c.op ++ " got unexpected kwarg: " ++
        quoted kwarg.1))
    | none =>
      let opId := b.ops.length
      let op : Op := { id := opId, op := c.op, args := c.args, kwargs := c.kwargs }
      return ((List.range (c.nOutputs.getD 1)).map (refOp opId), { b with ops := b.ops ++ [op] })

end Builder

/-! ### The typed methods -/

section Methods

inductive Unary where
  | neg | exp | log | sqrt | abs | round | relu | gelu | silu | sin | cos | sigmoid | tanh
  | identity | sign
  deriving DecidableEq

def Unary.op : Unary → String
  | .neg => "neg"
  | .exp => "exp"
  | .log => "log"
  | .sqrt => "sqrt"
  | .abs => "abs"
  | .round => "round"
  | .relu => "relu"
  | .gelu => "gelu"
  | .silu => "silu"
  | .sin => "sin"
  | .cos => "cos"
  | .sigmoid => "sigmoid"
  | .tanh => "tanh"
  | .identity => "identity"
  | .sign => "sign"

inductive Binary where
  | add | sub | mul | div | pow | gt | lt | ge | le | eq | matmul | embedding
  | dequantizeInt8PerChannel
  deriving DecidableEq

def Binary.op : Binary → String
  | .add => "add"
  | .sub => "sub"
  | .mul => "mul"
  | .div => "div"
  | .pow => "pow"
  | .gt => "gt"
  | .lt => "lt"
  | .ge => "ge"
  | .le => "le"
  | .eq => "eq"
  | .matmul => "matmul"
  | .embedding => "embedding"
  | .dequantizeInt8PerChannel => "dequantize_int8_per_channel"

inductive Reduction where
  | sum | mean | max | min
  deriving DecidableEq

def Reduction.op : Reduction → String
  | .sum => "sum"
  | .mean => "mean"
  | .max => "max"
  | .min => "min"

inductive Join where
  | concat | stack
  deriving DecidableEq

def Join.op : Join → String
  | .concat => "concat"
  | .stack => "stack"

inductive Along where
  | squeeze | unsqueeze | softmax | logSoftmax | quantizePackInt8
  deriving DecidableEq

def Along.op : Along → String
  | .squeeze => "squeeze"
  | .unsqueeze => "unsqueeze"
  | .softmax => "softmax"
  | .logSoftmax => "log_softmax"
  | .quantizePackInt8 => "quantize_pack_int8"

inductive Shaped where
  | reshape | broadcast
  deriving DecidableEq

def Shaped.op : Shaped → String
  | .reshape => "reshape"
  | .broadcast => "broadcast"

inductive Random where
  | normal | uniform
  deriving DecidableEq

def Random.op : Random → String
  | .normal => "normal"
  | .uniform => "uniform"

inductive Triangle where
  | tril | triu
  deriving DecidableEq

def Triangle.op : Triangle → String
  | .tril => "tril"
  | .triu => "triu"

inductive Method where
  | unary (f : Unary) (a : Fields)
  | binary (f : Binary) (a b : Fields)
  | clamp (a : Fields) (min max : Json)
  | «where» (cond a b : Fields)
  | cast (a : Fields) (dtype : Json)
  | transpose (a : Fields) (dims : Json)
  | shaped (f : Shaped) (a : Fields) (shape : Json)
  | einsum (a b : Fields) (equation : Json)
  | reduce (f : Reduction) (a : Fields) (dim keepdim : Json)
  | join (f : Join) (tensors : List Fields) (dim : Json)
  | split (a : Fields) (sizes dim : Json)
  | along (f : Along) (a : Fields) (dim : Json)
  | slice (a : Fields) (dim start stop : Json)
  | gather (a index : Fields) (dim : Json)
  | scatter (a index src : Fields) (dim : Json)
  | arange (start stop step dtype : Json)
  | random (f : Random) (seed shape dtype : Json)
  | sort (a : Fields) (dim descending : Json)
  | topk (a : Fields) (k dim : Json)
  | layerNorm (a weight bias : Fields) (eps : Json)
  | rmsnorm (a weight : Fields) (eps : Json)
  | triangle (f : Triangle) (a : Fields) (diagonal : Json)
  | full (shape value dtype : Json)
  | crossEntropy (logits targets : Fields) (ignoreIndex : Json)
  | quantizeInt8PerChannel (x : Fields) (dim : Json)
  | unpackDequantizeInt8 (blob : Fields) (shape dim : Json)
  | qr (a : Fields)
  | dataIndexer (tokens : Fields) (b t mbSeed : Json)

def intJson (x : Json) : Py Json := do return .int (← x.toInt)

def floatJson (x : Json) : Py Json := do return .float (← x.toFloat)

def listJson (x : Json) : Py Json := do return .arr (← x.toList)

def boolJson (x : Json) : Json := .bool x.truthy

/-- A keyword of `slice`: a dictionary is handed on, everything else becomes an integer. -/
def bound : Json → Py Json
  | .obj fields => .ok (.obj fields)
  | x => intJson x

def optional (name : String) : Json → Fields
  | .null => []
  | x => [(name, x)]

def Method.call : Method → Py OpCall
  | .unary f a => .ok { op := f.op, args := [a] }
  | .binary f a b => .ok { op := f.op, args := [a, b] }
  | .clamp a min max =>
    .ok { op := "clamp", args := [a], kwargs := optional "min" min ++ optional "max" max }
  | .where cond a b => .ok { op := "where", args := [cond, a, b] }
  | .cast a dtype => .ok { op := "cast", args := [a], kwargs := [("dtype", dtype)] }
  | .transpose a dims => do
    return { op := "transpose", args := [a], kwargs := [("dims", ← listJson dims)] }
  | .shaped f a shape => do
    return { op := f.op, args := [a], kwargs := [("shape", ← listJson shape)] }
  | .einsum a b equation =>
    .ok { op := "einsum", args := [a, b], kwargs := [("equation", equation)] }
  | .reduce f a dim keepdim =>
    .ok { op := f.op, args := [a], kwargs := [("dim", dim), ("keepdim", boolJson keepdim)] }
  | .join f tensors dim => do
    return { op := f.op, args := tensors, kwargs := [("dim", ← intJson dim)] }
  | .split a sizes dim => do
    let items ← sizes.toList
    return { op := "split", args := [a], kwargs := [("sizes", .arr items), ("dim", ← intJson dim)],
             nOutputs := some items.length }
  | .along f a dim => do return { op := f.op, args := [a], kwargs := [("dim", ← intJson dim)] }
  | .slice a dim start stop => do
    return { op := "slice", args := [a],
             kwargs := [("dim", ← intJson dim), ("start", ← bound start), ("end", ← bound stop)] }
  | .gather a index dim => do
    return { op := "gather", args := [a, index], kwargs := [("dim", ← intJson dim)] }
  | .scatter a index src dim => do
    return { op := "scatter", args := [a, index, src], kwargs := [("dim", ← intJson dim)] }
  | .arange start stop step dtype =>
    .ok { op := "arange",
          kwargs := [("start", start), ("end", stop), ("step", step), ("dtype", dtype)] }
  | .random f seed shape dtype => do
    return { op := f.op,
             kwargs := [("seed", seed), ("shape", ← listJson shape), ("dtype", dtype)] }
  | .sort a dim descending => do
    return { op := "sort", args := [a],
             kwargs := [("dim", ← intJson dim), ("descending", boolJson descending)] }
  | .topk a k dim => do
    return { op := "topk", args := [a], kwargs := [("k", ← intJson k), ("dim", ← intJson dim)],
             nOutputs := some 2 }
  | .layerNorm a weight bias eps => do
    return { op := "layer_norm", args := [a, weight, bias], kwargs := [("eps", ← floatJson eps)] }
  | .rmsnorm a weight eps => do
    return { op := "rmsnorm", args := [a, weight], kwargs := [("eps", ← floatJson eps)] }
  | .triangle f a diagonal => do
    return { op := f.op, args := [a], kwargs := [("diagonal", ← intJson diagonal)] }
  | .full shape value dtype => do
    return { op := "full",
             kwargs := [("shape", ← listJson shape), ("value", value), ("dtype", dtype)] }
  | .crossEntropy logits targets ignoreIndex => do
    return { op := "cross_entropy", args := [logits, targets],
             kwargs := [("ignore_index", ← intJson ignoreIndex)] }
  | .quantizeInt8PerChannel x dim => do
    return { op := "quantize_int8_per_channel", args := [x], kwargs := [("dim", ← intJson dim)],
             nOutputs := some 2 }
  | .unpackDequantizeInt8 blob shape dim => do
    return { op := "unpack_dequantize_int8", args := [blob],
             kwargs := [("dim", ← intJson dim), ("shape", ← listJson shape),
               ("scale_dim", ← intJson dim)] }
  | .qr a => .ok { op := "qr", args := [a], nOutputs := some 2 }
  | .dataIndexer tokens b t mbSeed => do
    return { op := "data_indexer", args := [tokens],
             kwargs := [("B", ← intJson b), ("T", ← intJson t), ("mb_seed", mbSeed)],
             nOutputs := some 2 }

end Methods

/-! ### Sessions -/

section Sessions

inductive Call where
  | input (name : String) (shape : Json) (dtype : String)
  | param (name type : String)
  | const (value : Json)
  | constBlob (uri : String) (shape : Json) (dtype : String)
  | output (name : String) (ref : Fields)
  | method (m : Method)

structure Session where
  builder : Builder := {}
  refs : List Fields := []

/-- A call that raises leaves the builder as it is and is no step of a session. -/
def Call.run (s : Session) : Call → Py Session
  | .input name shape dtype => do
    let (ref, b) ← s.builder.input name shape dtype
    return ⟨b, ref :: s.refs⟩
  | .param name type => do
    let (ref, b) ← s.builder.param name type
    return ⟨b, ref :: s.refs⟩
  | .const value => .ok { s with refs := refConst value :: s.refs }
  | .constBlob uri shape dtype => do
    return { s with refs := refConstBlob uri (← intList shape) dtype :: s.refs }
  | .output name ref => .ok { s with builder := s.builder.output name ref }
  | .method m => do
    let (refs, b) ← s.builder.emit (← m.call)
    return ⟨b, refs ++ s.refs⟩

/-- The references of an operation, as arguments and as whole keyword values. -/
def UsesOnly (refs : List Fields) (args : List Fields) (kwargs : Fields) : Prop :=
  (∀ arg ∈ args, arg ∈ refs) ∧
  ∀ kwarg ∈ kwargs, isRefDict kwarg.2 = .ok true → ∃ ref ∈ refs, kwarg.2 = .obj ref

def Call.Uses (refs : List Fields) : Call → Prop
  | .output _ ref => ref ∈ refs
  | .method m => ∀ c, m.call = .ok c → UsesOnly refs c.args c.kwargs
  | _ => True

/-- The sessions of callers that use only references of their builder. -/
inductive Made : Session → Prop where
  | start : Made {}
  | call {s s' : Session} {c : Call} : Made s → c.Uses s.refs → c.run s = .ok s' → Made s'

end Sessions

end GraphBuilder

import Teuton.ObjectStore

/-! The tensor graph intermediate representation and its content address. References inside a
graph stay dictionaries, as in the source: which keys of one are read depends on its kind. -/
namespace GraphIr

open PyJson PyText Signatures ObjectStore

variable {β : Type}

structure TensorSpec where
  name : String
  shape : List ℤ
  dtype : String
  deriving DecidableEq, Repr

def TensorSpec.toDict (t : TensorSpec) : Json :=
  mkObj [("name", .str t.name), ("shape", .arr (t.shape.map .int)), ("dtype", .str t.dtype)]

def TensorSpec.fromDict (d : Json) : Py TensorSpec := do
  return {
    name := ← (← d.getItem "name").asStr
    shape := ← (← (← d.getItem "shape").toList).mapM Json.toInt
    dtype := ← (← d.getItem "dtype").asStr }

structure ParamSpec where
  name : String
  type : String
  deriving DecidableEq, Repr

def ParamSpec.toDict (s : ParamSpec) : Json := mkObj [("name", .str s.name), ("type", .str s.type)]

def ParamSpec.fromDict (d : Json) : Py ParamSpec := do
  return {
    name := ← (← d.getItem "name").asStr
    type := ← (← d.getItem "type").asStr }

structure Op where
  id : ℤ
  op : String
  args : List Fields := []
  kwargs : Fields := []
  out : List TensorSpec := []

def Op.toDict (o : Op) : Json :=
  mkObj
    [("id", .int o.id),
     ("op", .str o.op),
     ("args", .arr (o.args.map .obj)),
     ("kwargs", .obj o.kwargs),
     ("out", .arr (o.out.map TensorSpec.toDict))]

def Op.fromDict (d : Json) : Py Op := do
  return {
    id := ← (← d.getItem "id").toInt
    op := ← (← d.getItem "op").asStr
    args := ← (← (← d.get "args" (.arr [])).toList).mapM Json.toFields
    kwargs := ← (← d.get "kwargs").fieldsOrEmpty
    out := ← (← (← d.get "out" (.arr [])).toList).mapM TensorSpec.fromDict }

structure GraphOutput where
  name : String
  ref : Fields

def GraphOutput.toDict (o : GraphOutput) : Json := mkObj [("name", .str o.name), ("ref", .obj o.ref)]

def GraphOutput.fromDict (d : Json) : Py GraphOutput := do
  return {
    name := ← (← d.getItem "name").asStr
    ref := ← (← d.getItem "ref").toFields }

structure Graph where
  inputs : List TensorSpec := []
  outputs : List GraphOutput := []
  params : List ParamSpec := []
  ops : List Op := []
  irVersion : ℤ := 1

def Graph.toDict (g : Graph) : Json :=
  mkObj
    [("ir_version", .int g.irVersion),
     ("inputs", .arr (g.inputs.map TensorSpec.toDict)),
     ("outputs", .arr (g.outputs.map GraphOutput.toDict)),
     ("params", .arr (g.params.map ParamSpec.toDict)),
     ("ops", .arr (g.ops.map Op.toDict))]

def Graph.fromDict (d : Json) : Py Graph := do
  return {
    irVersion := ← (← d.get "ir_version" (.int 1)).toInt
    inputs := ← (← (← d.get "inputs" (.arr [])).toList).mapM TensorSpec.fromDict
    outputs := ← (← (← d.get "outputs" (.arr [])).toList).mapM GraphOutput.fromDict
    params := ← (← (← d.get "params" (.arr [])).toList).mapM ParamSpec.fromDict
    ops := ← (← (← d.get "ops" (.arr [])).toList).mapM Op.fromDict }

def Graph.toCanonicalJson (p : Platform β) (g : Graph) : β := p.dumpsUtf8 g.toDict

def Graph.graphId (p : Platform β) (g : Graph) : String := hexEncode (p.sha256 (g.toCanonicalJson p))

/-- Load a graph and compare its content address; `mismatch` is the text of the refusal. -/
def fetchGraph (p : Platform β) (sha uri mismatch : String) : Fetch β Graph := do
  let graph ← Graph.fromDict (← fetchJson p uri)
  if graph.graphId p = sha then return graph
  else ReadProgram.done (.error (.valueError mismatch))

theorem fetchGraph_of_stored {p : Platform β} (hp : p.Lawful) {s : String → Py β} {g : Graph}
    {uri : String} (hget : s uri = .ok (p.dumps g.toDict)) (hcanonical : Canonical g.toDict)
    (hread : Graph.fromDict g.toDict = .ok g) (mismatch : String) :
    (fetchGraph p (g.graphId p) uri mismatch).run s = .ok g := by
  simp [fetchGraph, fetchJson, hget, hp.loads_dumps _ hcanonical, hread]

end GraphIr

import Teuton.GraphIr
import Mathlib.Algebra.BigOperators.Group.List.Basic

/-! Expected compute units of a graph. Shapes are propagated op by op, with the declared
output shapes taking precedence, and each op is charged by its shapes. Costs are exact
rationals; the base-two logarithm of `sort` and `topk` is the platform's. -/
namespace ComputeUnits

open PyJson Signatures GraphIr

variable {α β : Type}

def opsPerCu : ℚ := 1000000

def minCu : ℚ := 1 / 1000000

/-- Position of a Python index in a sequence; negative indices count from the end. -/
def position (i : ℤ) (length : ℕ) : Option ℕ :=
  let j := if i < 0 then i + length else i
  if 0 ≤ j ∧ j < length then some j.toNat else none

def item (l : List α) (i : ℤ) : Py α :=
  match (position i l.length).bind (l[·]?) with
  | some x => .ok x
  | none => .error .indexError

def setItem (l : List α) (i : ℤ) (x : α) : Py (List α) :=
  match position i l.length with
  | some j => .ok (l.set j x)
  | none => .error .indexError

/-- The method `list.insert`, which clamps its index. -/
def insertItem (l : List α) (i : ℤ) (x : α) : List α :=
  let j := if i < 0 then max 0 (i + l.length) else min i l.length
  l.take j.toNat ++ x :: l.drop j.toNat

def dropLast (l : List α) (n : ℕ) : List α := l.take (l.length - n)

structure TensorInfo where
  shape : List ℤ
  dtype : String := "float32"
  deriving DecidableEq, Repr

def kwarg (op : Op) (k : String) (default : Json := .null) : Json :=
  (field? k op.kwargs).getD default

def intKwarg (op : Op) (k : String) (default : ℤ) : Py ℤ := (kwarg op k (.int default)).toInt

def shapeKwarg (op : Op) (k : String) : Py (List ℤ) := do
  (← (kwarg op k (.arr [])).toList).mapM Json.toInt

def dim (value : ℤ) : ℤ := max 1 value

def numel (shape : List ℤ) : ℤ := shape.foldl (fun total d => total * dim d) 1

def broadcastTwo (a b : List ℤ) : List ℤ :=
  ((List.range (max a.length b.length)).map fun i =>
    max (dim (a.reverse[i]?.getD 1)) (dim (b.reverse[i]?.getD 1))).reverse

def broadcastAll (shapes : List (List ℤ)) : List ℤ := shapes.foldl broadcastTwo []

def normalizeDim (d : ℤ) (rank : ℕ) : ℤ :=
  if rank = 0 then 0 else if d < 0 then d + rank else d

def matmulShape (a b : List ℤ) : Py (List ℤ) := do
  if a.length = 1 ∧ b.length = 1 then return []
  else if a.length = 1 then return broadcastTwo [] (dropLast b 2) ++ [← item b (-1)]
  else if b.length = 1 then return broadcastTwo (dropLast a 2) [] ++ [← item a (-2)]
  else return broadcastTwo (dropLast a 2) (dropLast b 2) ++ [← item a (-2), ← item b (-1)]

def matmulOps (a b : List ℤ) : Py ℚ := do
  if a.length = 1 ∧ b.length = 1 then return 2 * dim (a.headD 1)
  else if a.length = 1 then
    return 2 * numel (dropLast b 2) * dim (a.headD 1) * dim (← item b (-1))
  else if b.length = 1 then
    return 2 * numel (dropLast a 2) * dim (← item a (-2)) * dim (b.headD 1)
  else
    return 2 * numel (broadcastTwo (dropLast a 2) (dropLast b 2)) * dim (← item a (-2)) *
      dim (← item a (-1)) * dim (← item b (-1))

def reduceShape (shape : List ℤ) (d : Json) (keepdim : Bool) : Py (List ℤ) := do
  match d with
  | .null => return if keepdim then shape.map fun _ => 1 else []
  | _ =>
    let dims ← match d with
      | .arr items => items.mapM Json.toInt
      | _ => do pure [← d.toInt]
    let reduced := dims.map (normalizeDim · shape.length)
    return shape.zipIdx.filterMap fun (size, i) =>
      if (i : ℤ) ∈ reduced then (if keepdim then some 1 else none) else some size

def splitOnce (sep : List Char) : List Char → Option (List Char × List Char)
  | [] => none
  | c :: l =>
    if sep.isPrefixOf (c :: l) then some ([], (c :: l).drop sep.length)
    else (splitOnce sep l).map fun parts => (c :: parts.1, parts.2)

/-- Labels of the two operands and of the result, if the equation has that form. -/
def einsumLabels (equation : String) : Option (List Char × List Char × List Char) := do
  let (lhs, out) ← splitOnce "->".toList equation.toList
  let (a, b) ← splitOnce ",".toList lhs
  return (a, b, out)

def einsumSizes (aLabels bLabels : List Char) (a b : List ℤ) : SortedDict Char ℤ :=
  let sizes := (aLabels.zip a).foldl (fun d p => d.insert p.1 (dim p.2)) SortedDict.empty
  (bLabels.zip b).foldl
    (fun d p => d.insert p.1 (max ((d.find? p.1).getD 1) (dim p.2))) sizes

def einsumShape (equation : String) (a b : List ℤ) : List ℤ :=
  match einsumLabels equation with
  | none => []
  | some (aLabels, bLabels, out) =>
    out.map fun label => ((einsumSizes aLabels bLabels a b).find? label).getD 1

def einsumOps (equation : String) (a b out : List ℤ) : Py ℚ :=
  match einsumLabels equation with
  | none => return (max (max (numel a) (numel b)) (numel out) : ℤ)
  | some (aLabels, bLabels, outLabels) => do
    let sizes := einsumSizes aLabels bLabels a b
    let contracted := aLabels.dedup.filter fun c => c ∈ bLabels ∧ c ∉ outLabels
    let lengths ← contracted.mapM fun c =>
      match sizes.find? c with
      | some size => (.ok size : Py ℤ)
      | none => .error (.keyError (String.singleton c))
    return 2 * numel out * (lengths.prod : ℤ)

def infoForRef (ref : Fields) (inputs : List TensorSpec) (opInfos : List (List TensorInfo)) :
    Py TensorInfo := do
  match (field? "kind" ref).getD .null with
  | .str "input" =>
    let name := text ((field? "name" ref).getD .null)
    match inputs.reverse.find? (·.name = name) with
    | some spec => return ⟨spec.shape, spec.dtype⟩
    | none => return ⟨[], "float32"⟩
  | .str "op" =>
    let id ← ((field? "id" ref).getD (.int 0)).toInt
    let idx ← ((field? "idx" ref).getD (.int 0)).toInt
    if 0 ≤ id ∧ 0 ≤ idx then
      return ((opInfos[id.toNat]?).bind (·[idx.toNat]?)).getD ⟨[], "float32"⟩
    else return ⟨[], "float32"⟩
  | .str "const_blob" =>
    let shape ← (← ((field? "shape" ref).getD (.arr [])).toList).mapM Json.toInt
    return ⟨shape, text ((field? "dtype" ref).getD (.str "float32"))⟩
  -- a kind that cannot be hashed fails the membership test on the set of literal kinds
  | .arr _ | .obj _ => .error .typeError
  | _ => return ⟨[], "float32"⟩

def elementwiseBinary : List String :=
  ["add", "sub", "mul", "div", "pow", "gt", "lt", "ge", "le", "eq"]

def elementwiseUnary : List String :=
  ["neg", "exp", "log", "sqrt", "abs", "round", "relu", "gelu", "silu", "sin", "cos", "sigmoid",
   "tanh", "identity", "sign", "clamp", "cast", "tril", "triu", "dequantize_int8_per_channel"]

def isObject : Json → Bool
  | .obj _ => true
  | _ => false

/-- The extent of `slice` along its dimension; a bound given as a reference is not known. -/
def sliceLength (op : Op) (s : List ℤ) (d : ℤ) : Py ℤ := do
  let startValue := kwarg op "start" (.int 0)
  let start ← if isObject startValue then pure 0 else startValue.toInt
  let size ← item s d
  let endValue := kwarg op "end" (.int size)
  let stop ← if isObject endValue then pure (dim size) else endValue.toInt
  return max 0 (stop - start)

def qrDims (shape : List ℤ) : Py (ℤ × ℤ × List ℤ) := do
  let m ← if 2 ≤ shape.length then do pure (dim (← item shape (-2))) else pure (numel shape)
  let n ← if shape.isEmpty then pure 1 else do pure (dim (← item shape (-1)))
  return (m, n, if 2 ≤ shape.length then dropLast shape 2 else [])

def inferFromFirst (op : Op) (shapes : List (List ℤ)) (s : List ℤ) (dtype : String) :
    Py (List TensorInfo) := do
  let name := op.op
  if name = "matmul" ∧ 2 ≤ shapes.length then
    return [⟨← matmulShape s (← item shapes 1), dtype⟩]
  else if name = "transpose" then
    let dims ← (← (kwarg op "dims" (.arr ((List.range s.length).map fun i => .int i))).toList).mapM
      Json.toInt
    return [⟨← dims.mapM (item s), dtype⟩]
  else if name = "einsum" ∧ 2 ≤ shapes.length then
    return [⟨einsumShape (text (kwarg op "equation" (.str ""))) s (← item shapes 1), dtype⟩]
  else if name ∈ ["sum", "mean", "max", "min"] then
    return [⟨← reduceShape s (kwarg op "dim") (kwarg op "keepdim" (.bool false)).truthy, dtype⟩]
  else if name = "split" then
    let d := normalizeDim (← intKwarg op "dim" 0) s.length
    let sizes ← (kwarg op "sizes" (.arr [])).toList
    let outs ← sizes.mapM fun size => do
      pure ((⟨← setItem s d (← size.toInt), dtype⟩ : TensorInfo))
    return if outs.isEmpty then [⟨s, dtype⟩] else outs
  else if name = "squeeze" then
    let d := normalizeDim (← intKwarg op "dim" 0) s.length
    return [⟨s.zipIdx.filterMap fun (x, i) => if (i : ℤ) ≠ d then some x else none, dtype⟩]
  else if name = "unsqueeze" then
    let d := normalizeDim (← intKwarg op "dim" 0) (s.length + 1)
    return [⟨insertItem s d 1, dtype⟩]
  else if name = "slice" then
    let d := normalizeDim (← intKwarg op "dim" 0) s.length
    return [⟨← setItem s d (← sliceLength op s d), dtype⟩]
  else if name = "topk" then
    let d := normalizeDim (← intKwarg op "dim" (-1)) s.length
    let out ← setItem s d (← intKwarg op "k" (← item s d))
    return [⟨out, dtype⟩, ⟨out, "int64"⟩]
  else if name = "embedding" ∧ 2 ≤ shapes.length then
    return [⟨(← item shapes 1) ++ s.drop 1, dtype⟩]
  else if name = "quantize_int8_per_channel" then
    let d := normalizeDim (← intKwarg op "dim" (-1)) s.length
    return [⟨s, "int8"⟩,
      ⟨s.zipIdx.map fun (size, i) => if (i : ℤ) = d then size else 1, "float32"⟩]
  else if name = "quantize_pack_int8" then
    let d := normalizeDim (← intKwarg op "dim" (-1)) s.length
    return [⟨[numel s + 4 * dim (← item s d)], "uint8"⟩]
  else if name = "qr" then
    let (m, n, batch) ← qrDims s
    return [⟨batch ++ [m, min m n], dtype⟩, ⟨batch ++ [min m n, n], dtype⟩]
  else return [⟨s, dtype⟩]

def inferOutputs (op : Op) (args : List TensorInfo) : Py (List TensorInfo) := do
  let name := op.op
  let shapes := args.map TensorInfo.shape
  let first := shapes.headD []
  let dtype := match args with
    | a :: _ => a.dtype
    | [] => text (kwarg op "dtype" (.str "float32"))
  if name ∈ elementwiseBinary then return [⟨broadcastAll shapes, dtype⟩]
  else if name ∈ elementwiseUnary then return [⟨first, text (kwarg op "dtype" (.str dtype))⟩]
  else if name = "where" then return [⟨broadcastAll shapes, dtype⟩]
  else if name = "reshape" ∨ name = "broadcast" then return [⟨← shapeKwarg op "shape", dtype⟩]
  else if name = "concat" then
    let d := normalizeDim (← intKwarg op "dim" 0) first.length
    let parts ← (shapes.filter fun s => d < s.length).mapM fun s => do pure (dim (← item s d))
    return [⟨← setItem first d parts.sum, dtype⟩]
  else if name = "stack" then
    let d := normalizeDim (← intKwarg op "dim" 0) (first.length + 1)
    return [⟨insertItem first d shapes.length, dtype⟩]
  else if name = "gather" ∧ 1 < shapes.length then return [⟨← item shapes 1, dtype⟩]
  else if name = "gather" ∨ name = "scatter" then return [⟨← item shapes 0, dtype⟩]
  else if name = "arange" then
    let start ← intKwarg op "start" 0
    let stop ← intKwarg op "end" start
    let step := max 1 |← intKwarg op "step" 1|
    return [⟨[max 0 ⌈((stop - start : ℤ) : ℚ) / step⌉],
      text (kwarg op "dtype" (.str "int64"))⟩]
  else if name ∈ ["normal", "uniform", "full"] then
    return [⟨← shapeKwarg op "shape", text (kwarg op "dtype" (.str "float32"))⟩]
  else if name = "cross_entropy" then return [⟨[], dtype⟩]
  else if name = "data_indexer" then
    let b ← intKwarg op "B" 1
    let t ← intKwarg op "T" 1
    return [⟨[b, t], "int64"⟩, ⟨[b, t], "int64"⟩]
  else if name = "unpack_dequantize_int8" then return [⟨← shapeKwarg op "shape", "float32"⟩]
  else
    match shapes with
    | s :: _ => inferFromFirst op shapes s dtype
    | [] => return [⟨[], dtype⟩]

def orInt (n default : ℤ) : ℤ := if n = 0 then default else n

def opCost (p : Platform β) (op : Op) (args outs : List TensorInfo) : Py ℚ := do
  let name := op.op
  let outNumel := orInt (outs.map fun t => numel t.shape).sum 1
  let inNumel := orInt (args.map fun t => numel t.shape).sum outNumel
  match args with
  | a :: b :: _ =>
    if name = "matmul" then return ← matmulOps a.shape b.shape
    if name = "einsum" then
      return ← einsumOps (text (kwarg op "equation" (.str ""))) a.shape b.shape
        (← item outs 0).shape
  | _ => pure ()
  if name ∈ ["exp", "log", "sqrt", "gelu", "silu", "sin", "cos", "sigmoid", "tanh"] then
    return 4 * outNumel
  if name ∈ ["softmax", "log_softmax", "layer_norm", "rmsnorm"] then return 5 * inNumel
  if name = "cross_entropy" then return 3 * inNumel
  if let a :: _ := args then
    if name = "qr" then
      let (m, n, batch) ← qrDims a.shape
      return 2 * numel batch * m * n * min m n
    if name = "sort" ∨ name = "topk" then
      let d := normalizeDim (← intKwarg op "dim" (-1)) a.shape.length
      let axis ← if a.shape.isEmpty then pure 1 else do pure (dim (← item a.shape d))
      return inNumel * max 1 (p.log2 (max 2 axis))
  if name ∈ ["normal", "uniform"] then return 2 * outNumel
  if name ∈ ["quantize_int8_per_channel", "dequantize_int8_per_channel", "quantize_pack_int8",
      "unpack_dequantize_int8"] then
    return 2 * max inNumel outNumel
  return max inNumel outNumel

/-- One iteration of the loop over the ops: the infos known so far and the running total. -/
def estimateOp (p : Platform β) (graph : Graph) (state : List (List TensorInfo) × ℚ) (op : Op) :
    Py (List (List TensorInfo) × ℚ) := do
  let argInfos ← op.args.mapM fun arg => infoForRef arg graph.inputs state.1
  let inferred ← inferOutputs op argInfos
  let outInfos := if op.out.isEmpty then inferred
    else op.out.map fun spec => ⟨spec.shape, spec.dtype⟩
  return (← setItem state.1 op.id outInfos, state.2 + (← opCost p op argInfos outInfos))

def estimateGraphOps (p : Platform β) (graph : Graph) : Py ℚ := do
  let start := graph.ops.map fun _ => [(⟨[], "float32"⟩ : TensorInfo)]
  return (← graph.ops.foldlM (estimateOp p graph) (start, 0)).2

def expectedComputeUnits (p : Platform β) (graph : Graph) : Py ℚ := do
  return max minCu ((← estimateGraphOps p graph) / opsPerCu)

theorem expectedComputeUnits_ge {p : Platform β} {graph : Graph} {cu : ℚ}
    (h : expectedComputeUnits p graph = .ok cu) : minCu ≤ cu := by
  unfold expectedComputeUnits at h
  cases hops : estimateGraphOps p graph with
  | error e => simp [hops] at h
  | ok ops =>
    rw [hops] at h
    cases h
    exact le_max_left _ _

/-- A product of two matrices is charged two operations per multiply-add. -/
example : (matmulOps [2, 3] [3, 5]) = .ok 60 := by decide +kernel

end ComputeUnits

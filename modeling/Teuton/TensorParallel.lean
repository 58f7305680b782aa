import Teuton.Collectives
import Teuton.DistributedExecution
import Teuton.SplitMatrices

/-! The runner of tensor-parallel jobs. Each process of a group computes with its parts of the
weights, and sums or gathers complete the results; an audit runs the same code in a group of one.
Tensors have entries in a commutative ring. The leading dimensions of an activation are taken
together as rows, weights are matrices, and a bias is a matrix with one row. -/
namespace TensorParallel

open PyJson GraphEval Collectives

variable {R : Type} [CommRing R]

/-! ### Tensors -/

section Tensors

def matmul (A B : Mat R) : Py (Mat R) :=
  if A.cols = B.rows then .ok (A.mul B)
  else .error (.runtimeError ("mat1 and mat2 shapes cannot be multiplied (" ++ toString A.rows ++
    "x" ++ toString A.cols ++ " and " ++ toString B.rows ++ "x" ++ toString B.cols ++ ")"))

def commonSize (a b : ℕ) : Py ℕ :=
  if a = b then .ok a
  else if a = 1 then .ok b
  else if b = 1 then .ok a
  else .error (.runtimeError ("The size of tensor a (" ++ toString a ++
    ") must match the size of tensor b (" ++ toString b ++ ") at non-singleton dimension"))

def stretch (rows cols : ℕ) (A : Mat R) : Mat R :=
  .ofFn rows cols fun i j =>
    A.get (if A.rows = 1 then 0 else i) (if A.cols = 1 then 0 else j)

def elementwise (op : R → R → R) (A B : Mat R) : Py (Mat R) := do
  let rows ← commonSize A.rows B.rows
  let cols ← commonSize A.cols B.cols
  return .zipWith op (stretch rows cols A) (stretch rows cols B)

theorem matmul_eq_ok {A B C : Mat R} : matmul A B = .ok C ↔ A.cols = B.rows ∧ A.mul B = C := by
  unfold matmul
  split_ifs with h
  · simp [h]
  · simp [h]

theorem stretch_self (A : Mat R) : stretch A.rows A.cols A = A := by
  refine Mat.ext_of_lt rfl rfl fun i hi j hj => ?_
  replace hi : i < A.rows := hi
  replace hj : j < A.cols := hj
  rw [stretch, Mat.get_ofFn hi hj]
  have hrow : (if A.rows = 1 then 0 else i) = i := by
    split_ifs
    · omega
    · rfl
  have hcol : (if A.cols = 1 then 0 else j) = j := by
    split_ifs
    · omega
    · rfl
  rw [hrow, hcol]

theorem commonSize_self (a : ℕ) : commonSize a a = .ok a := if_pos rfl

theorem elementwise_same {op : R → R → R} {A B : Mat R} (hrows : B.rows = A.rows)
    (hcols : B.cols = A.cols) : elementwise op A B = .ok (.zipWith op A B) := by
  have hB : stretch A.rows A.cols B = B := by
    rw [← hrows, ← hcols, stretch_self]
  rw [elementwise, hrows, hcols, commonSize_self, commonSize_self, ok_bind, ok_bind, stretch_self,
    hB]
  rfl

end Tensors

/-! ### Processes -/

structure TensorParallelContext where
  rank : ℕ
  worldSize : ℕ

inductive Axis where
  | rows
  | cols

abbrev Rank (R : Type) [CommRing R] (α : Type) : Type := Process PyErr (Mat R) α

section Primitives

variable (ctx : TensorParallelContext)

def splitForRank (t : Mat R) : Axis → Mat R
  | .rows => t.rowsPart ctx.worldSize ctx.rank
  | .cols => t.colsPart ctx.worldSize ctx.rank

def maybeAllReduce (t : Mat R) : Rank R (Mat R) :=
  if ctx.worldSize ≤ 1 then .ret t else .allReduce t .ret

def maybeAllGather (t : Mat R) : Rank R (Mat R) :=
  if ctx.worldSize ≤ 1 then .ret t else .allGather t fun parts => .ret (Mat.hcatAll parts)

def biasAxis (b : Mat R) : Axis := if b.rows = 1 then .cols else .rows

def addBias (y : Mat R) : Option (Mat R) → Py (Mat R)
  | none => .ok y
  | some b => elementwise (· + ·) y b

def columnParallel (weight : Mat R) (bias : Option (Mat R)) (x : Mat R) (gatherOutput : Bool) :
    Rank R (Mat R) := do
  let w := splitForRank ctx weight .cols
  let b := bias.map fun b => splitForRank ctx b (biasAxis b)
  let y ← .lift (matmul x w)
  let y ← .lift (addBias y b)
  if gatherOutput then maybeAllGather ctx y else return y

def rowParallel (weight : Mat R) (bias : Option (Mat R)) (x : Mat R) (inputIsParallel : Bool) :
    Rank R (Mat R) := do
  let w := splitForRank ctx weight .rows
  let xPart := if inputIsParallel then x else splitForRank ctx x .cols
  let y ← .lift (matmul xPart w)
  let y ← maybeAllReduce ctx y
  .lift (addBias y bias)

end Primitives

/-! ### The runner -/

/-- The pointwise functions of the activations and the numbers in `_gelu_grad`. -/
structure Activations (R : Type) where
  gelu : R → R
  silu : R → R
  sigmoid : R → R
  erf : R → R
  exp : R → R
  divSqrtTwo : R → R
  half : R
  sqrtTwoOverPi : R

def Activations.geluGrad (T : Activations R) (x : R) : R :=
  T.half * (1 + T.erf (T.divSqrtTwo x)) +
    T.half * x * T.sqrtTwoOverPi * T.exp (-(T.half * x * x))

def Activations.siluGrad (T : Activations R) (pre : R) : R :=
  T.sigmoid pre * (1 + pre * (1 - T.sigmoid pre))

section Runner

variable (T : Activations R) (ctx : TensorParallelContext)
variable (inputs : SortedDict String (Mat R)) (params : Fields)

def nameParam (key default : String) : Py String :=
  ((field? key params).getD (.str default)).asStr

def flagParam (key : String) (default : Bool) : Bool :=
  ((field? key params).getD (.bool default)).truthy

def inputNamed (name : String) : Py (Mat R) :=
  match inputs.find? name with
  | some t => .ok t
  | none => .error (.keyError name)

def inputParam (key default : String) : Py (Mat R) := do
  inputNamed inputs (← nameParam params key default)

def biasParam : Py (Option (Mat R)) :=
  match (field? "bias" params).getD .null with
  | .str name => if name = "" then .ok none else return some (← inputNamed inputs name)
  | other => if other.truthy then .error .typeError else .ok none

def unsupported (what : String) (value : Json) : PyErr :=
  .valueError ("unsupported " ++ what ++ ": " ++
    match value with
    | .str s => quoted s
    | _ => "")

def parallelMode : Json := (field? "parallel_mode" params).getD (.str "column")

def runLinear : Rank R (SortedDict String (Mat R)) := do
  let x ← .lift (inputParam inputs params "x" "x")
  let w ← .lift (inputParam inputs params "weight" "W")
  let bias ← .lift (biasParam inputs params)
  let y ← match parallelMode params with
    | .str "row" => rowParallel ctx w bias x (flagParam params "input_is_parallel" false)
    | .str "column" => columnParallel ctx w bias x (flagParam params "gather_output" true)
    | mode => .raise (unsupported "linear parallel_mode" mode)
  let output ← .lift (nameParam params "output" "y")
  return .ofEntries [(output, y)]

def activate : Py (R → R) :=
  match (field? "activation" params).getD (.str "gelu") with
  | .str "gelu" => .ok T.gelu
  | .str "silu" => .ok T.silu
  | .str "identity" => .ok id
  | other => .error (unsupported "activation" other)

def runMlp : Rank R (SortedDict String (Mat R)) := do
  let x ← .lift (inputParam inputs params "x" "x")
  let w1 ← .lift (inputParam inputs params "w1" "W1")
  let w2 ← .lift (inputParam inputs params "w2" "W2")
  let hidden ← columnParallel ctx w1 none x false
  let activation ← .lift (activate T params)
  let y ← rowParallel ctx w2 none (hidden.map activation) true
  let output ← .lift (nameParam params "output" "y")
  return .ofEntries [(output, y)]

def flatOuter (x dy : Mat R) : Py (Mat R) := matmul x.transpose dy

def sumRows (dy : Mat R) : Mat R :=
  .ofFn 1 dy.cols fun _ j => ∑ i ∈ Finset.range dy.rows, dy.get i j

def linearGradients (x w dy : Mat R) : Rank R (Mat R × Mat R) :=
  match parallelMode params with
  | .str "column" => do
    let wPart := splitForRank ctx w .cols
    let dyPart := splitForRank ctx dy .cols
    let dx ← .lift (matmul dyPart wPart.transpose)
    let dx ← maybeAllReduce ctx dx
    let dw ← .lift (flatOuter x dyPart)
    return (dx, dw)
  | .str "row" => do
    let xPart := splitForRank ctx x .cols
    let wPart := splitForRank ctx w .rows
    let dxPart ← .lift (matmul dy wPart.transpose)
    let dx ← if flagParam params "gather_dx" true then maybeAllGather ctx dxPart else pure dxPart
    let dw ← .lift (flatOuter xPart dy)
    return (dx, dw)
  | mode => .raise (unsupported "linear backward parallel_mode" mode)

def biasGradient (dy : Mat R) : Py (List (String × Mat R)) :=
  let db := (field? "db" params).getD .null
  if db.truthy then return [(← db.toStr, sumRows dy)] else .ok []

def runLinearBackward : Rank R (SortedDict String (Mat R)) := do
  let x ← .lift (inputParam inputs params "x" "x")
  let w ← .lift (inputParam inputs params "weight" "W")
  let dy ← .lift (inputParam inputs params "dy" "dY")
  let (dx, dw) ← linearGradients ctx params x w dy
  let dxName ← .lift (nameParam params "dx" "dX")
  let dwName ← .lift (nameParam params "dw" "dW")
  let db ← .lift (biasGradient params dy)
  return .ofEntries ([(dxName, dx), (dwName, dw)] ++ db)

def hiddenGradients (pre dy w2Part : Mat R) : Py (Mat R × Mat R) :=
  match (field? "activation" params).getD (.str "gelu") with
  | .str "gelu" => do
    let dHidden ← matmul dy w2Part.transpose
    return (pre.map T.gelu, ← elementwise (· * ·) dHidden (pre.map T.geluGrad))
  | .str "silu" => do
    let dHidden ← matmul dy w2Part.transpose
    return (pre.map T.silu, ← elementwise (· * ·) dHidden (pre.map T.siluGrad))
  | .str "identity" => do return (pre, ← matmul dy w2Part.transpose)
  | other => .error (unsupported "activation" other)

def mlpGradients (x w1 w2 dy : Mat R) : Rank R (Mat R × Mat R × Mat R) := do
  let w1Part := splitForRank ctx w1 .cols
  let w2Part := splitForRank ctx w2 .rows
  let pre ← .lift (matmul x w1Part)
  let (hidden, dPre) ← .lift (hiddenGradients T params pre dy w2Part)
  let dw2 ← .lift (flatOuter hidden dy)
  let dw1 ← .lift (flatOuter x dPre)
  let dx ← .lift (matmul dPre w1Part.transpose)
  let dx ← maybeAllReduce ctx dx
  return (dx, dw1, dw2)

def runMlpBackward : Rank R (SortedDict String (Mat R)) := do
  let x ← .lift (inputParam inputs params "x" "x")
  let w1 ← .lift (inputParam inputs params "w1" "W1")
  let w2 ← .lift (inputParam inputs params "w2" "W2")
  let dy ← .lift (inputParam inputs params "dy" "dY")
  let (dx, dw1, dw2) ← mlpGradients T ctx params x w1 w2 dy
  let dxName ← .lift (nameParam params "dx" "dX")
  let dw1Name ← .lift (nameParam params "dw1" "dW1")
  let dw2Name ← .lift (nameParam params "dw2" "dW2")
  return .ofEntries [(dxName, dx), (dw1Name, dw1), (dw2Name, dw2)]

def run : Rank R (SortedDict String (Mat R)) :=
  match (field? "tp_op" params).getD (.str "linear") with
  | .str "linear" => runLinear ctx inputs params
  | .str "linear_backward" => runLinearBackward ctx inputs params
  | .str "mlp" => runMlp T ctx inputs params
  | .str "mlp_backward" => runMlpBackward T ctx inputs params
  | op => .raise (unsupported "gpt tensor-parallel op" op)

end Runner

/-! ### The group -/

def sameShape (A : Mat R) (l : List (Mat R)) : Bool :=
  l.all fun B => B.rows = A.rows && B.cols = A.cols

def medium : Medium PyErr (Mat R) where
  reduce
    | [] => .error (.runtimeError "empty group")
    | A :: l =>
      if sameShape A l then .ok (.sum A.rows A.cols (A :: l))
      else .error (.runtimeError "tensor sizes differ between ranks")
  gather
    | [] => .error (.runtimeError "empty group")
    | A :: l =>
      if sameShape A l then .ok (A :: l)
      else .error (.runtimeError "tensor sizes differ between ranks")
  stuck := .runtimeError "ranks in different collectives"

variable {α : Type}

def ranks (world : ℕ) (program : TensorParallelContext → Rank R α) : Py (List α) :=
  runGroup medium ((List.range world).map fun rank => program ⟨rank, world⟩)

def alone (program : TensorParallelContext → Rank R α) : Py α :=
  atReturn medium (program ⟨0, 1⟩)

def rankZero (world : ℕ) (program : TensorParallelContext → Rank R α) : Py α := do
  match ← ranks world program with
  | result :: _ => .ok result
  | [] => .error (.runtimeError "distributed rank failed")

def withRunner {β : Type} (torch : Torch β (Mat R)) (T : Activations R) : Torch β (Mat R) :=
  { torch with tensorParallel := fun inputs params => alone fun ctx => run T ctx inputs params }

def withRanks {β : Type} (W : DistributedExecution.GroupLibraries β (Mat R)) (T : Activations R) :
    DistributedExecution.GroupLibraries β (Mat R) :=
  { W with
    torch := withRunner W.torch T
    ranks := fun devices inputs params =>
      rankZero devices.length fun ctx => run T ctx inputs params }

end TensorParallel

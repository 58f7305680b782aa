import Teuton.ComputeUnits

/-! Evaluation of a graph. The loop over the ops, the resolution of references and the checks on
inputs and constants follow the source; what one op computes on tensors is the tensor
library's. Moving a tensor to another device does not change it and is not represented. -/
namespace GraphEval

open PyJson ObjectStore GraphIr ComputeUnits

variable {β τ : Type}

inductive Value (τ : Type) where
  | tensor (t : τ)
  | tensors (l : List τ)
  | json (j : Json)

/-- Tensor library functions, on tensors `τ` stored as byte strings `β`. -/
structure Torch (β τ : Type) where
  decodeTensor : β → Py τ
  asTensor : Json → Py τ
  shape : τ → List ℤ
  wireDtype : τ → Py String
  isFloatingPoint : τ → Bool
  dispatch : String → Option (List τ → List (String × Value τ) → Py (Value τ))
  tensorParallel : SortedDict String τ → Fields → Py (SortedDict String τ)
  cat : List τ → ℤ → Py τ
  flatten : τ → τ
  numel : τ → ℕ
  sampleIndices : ℤ → ℕ → ℕ → List ℕ
  indexSelect : τ → List ℕ → Py τ
  equal : τ → τ → Py Bool
  allclose : τ → τ → PyFloat → PyFloat → Py Bool
  maxAbsDiff : τ → τ → Py PyFloat

/-- The text `repr(s)` of a string without quotes and escapes. -/
def quoted (s : String) : String := "'" ++ s ++ "'"

def reprInts (l : List ℤ) : String := "[" ++ ", ".intercalate (l.map toString) ++ "]"

def intEq (n : ℤ) : Json → Bool
  | .int m => n = m
  | .float (.finite q) => (n : ℚ) = q
  | .bool b => n = if b then 1 else 0
  | _ => false

def shapeEq (shape : List ℤ) (declared : List Json) : Bool :=
  shape.length = declared.length && (shape.zip declared).all fun p => intEq p.1 p.2

def refKinds : List String := ["input", "op", "param", "const", "const_blob"]

def isRefDict : Json → Py Bool
  | .obj fields =>
    match (field? "kind" fields).getD .null with
    | .str kind => .ok (kind ∈ refKinds)
    | .arr _ | .obj _ => .error .typeError
    | _ => .ok false
  | _ => .ok false

/-- The state of an evaluation: tensors read for `const_blob` references and op results. -/
structure EvalState (τ : Type) where
  blobs : SortedDict String τ := .empty
  results : List (Value τ)

def resolveBlob (T : Torch β τ) (ref : Fields) (blobs : SortedDict String τ) :
    Fetch β (τ × SortedDict String τ) := do
  let uri ← (← (Json.obj ref).getItem "uri").asStr
  match blobs.find? uri with
  | some value => return (value, blobs)
  | none =>
    let value ← T.decodeTensor (← ReadProgram.ask uri)
    let declaredShape ← (((field? "shape" ref).getD .null).orElse (.arr [])).toList
    if !declaredShape.isEmpty && !shapeEq (T.shape value) declaredShape then
      ReadProgram.done (.error (.valueError ("const_blob " ++ quoted uri ++ ": shape " ++
        reprInts (T.shape value) ++ " != declared")))
    else
      let declaredDtype := (field? "dtype" ref).getD .null
      if declaredDtype.truthy && text declaredDtype ≠ (← T.wireDtype value) then
        ReadProgram.done (.error .typeError)
      else return (value, blobs.insert uri value)

def resolveRef (T : Torch β τ) (inputs : SortedDict String τ) (params : Fields) (ref : Fields)
    (s : EvalState τ) : Fetch β (Value τ × EvalState τ) := do
  match ← (Json.obj ref).getItem "kind" with
  | .str "input" =>
    let name ← (← (Json.obj ref).getItem "name").asStr
    match inputs.find? name with
    | some t => return (.tensor t, s)
    | none => ReadProgram.done (.error (.keyError ("missing graph input: " ++ quoted name)))
  | .str "op" =>
    let id ← (← (Json.obj ref).getItem "id").toInt
    let idx ← ((field? "idx" ref).getD (.int 0)).toInt
    match ← item s.results id with
    | .tensors l => return (.tensor (← item l idx), s)
    | result =>
      if idx = 0 then return (result, s) else ReadProgram.done (.error .indexError)
  | .str "param" =>
    let name ← (← (Json.obj ref).getItem "name").asStr
    match field? name params with
    | some v => return (.json v, s)
    | none => ReadProgram.done (.error (.keyError ("missing param: " ++ quoted name)))
  | .str "const" => return (.json (← (Json.obj ref).getItem "value"), s)
  | .str "const_blob" =>
    let (value, blobs) ← resolveBlob T ref s.blobs
    return (.tensor value, { s with blobs := blobs })
  | kind => ReadProgram.done (.error (.valueError ("unknown ref kind: " ++ quoted (text kind))))

def toTensor (T : Torch β τ) : Value τ → Py τ
  | .tensor t => .ok t
  | .json j => T.asTensor j
  | .tensors _ => .error .typeError

def resolveArgs (T : Torch β τ) (inputs : SortedDict String τ) (params : Fields) :
    List Fields → EvalState τ → Fetch β (List (Value τ) × EvalState τ)
  | [], s => return ([], s)
  | ref :: refs, s => do
    let (v, s₁) ← resolveRef T inputs params ref s
    let (vs, s₂) ← resolveArgs T inputs params refs s₁
    return (v :: vs, s₂)

def resolveKwargs (T : Torch β τ) (inputs : SortedDict String τ) (params : Fields) :
    Fields → EvalState τ → Fetch β (List (String × Value τ) × EvalState τ)
  | [], s => return ([], s)
  | (k, v) :: kwargs, s => do
    let (value, s₁) ← if ← isRefDict v then
        (do resolveRef T inputs params (← v.toFields) s)
      else pure (.json v, s)
    let (rest, s₂) ← resolveKwargs T inputs params kwargs s₁
    return ((k, value) :: rest, s₂)

def evaluateOp (T : Torch β τ) (inputs : SortedDict String τ) (params : Fields) (s : EvalState τ)
    (op : Op) : Fetch β (EvalState τ) := do
  match T.dispatch op.op with
  | none => ReadProgram.done (.error (.keyError ("evaluator missing op: " ++ quoted op.op)))
  | some fn =>
    let (values, s₁) ← resolveArgs T inputs params op.args s
    let args ← (values.mapM (toTensor T) : Py (List τ))
    let (kwargs, s₂) ← resolveKwargs T inputs params op.kwargs s₁
    return { s₂ with results := ← setItem s₂.results op.id (← fn args kwargs) }

/-- The declared dtype and shape of a graph input; `-1` leaves a dimension open. -/
def checkInput (T : Torch β τ) (inputs : SortedDict String τ) (spec : TensorSpec) : Py Unit := do
  match inputs.find? spec.name with
  | none => .error (.keyError ("missing input tensor: " ++ quoted spec.name))
  | some value =>
    if (← T.wireDtype value) ≠ spec.dtype then .error .typeError
    let actual := T.shape value
    if spec.shape.length ≠ actual.length ∨
        (spec.shape.zip actual).any (fun p => p.1 ≠ -1 && p.1 ≠ p.2) then
      .error (.valueError ("input " ++ quoted spec.name ++ ": shape " ++ reprInts actual ++
        " != declared " ++ reprInts spec.shape))

def checkParam (params : Fields) (spec : ParamSpec) : Py Unit :=
  if (field? spec.name params).isSome then .ok ()
  else .error (.keyError ("missing param: " ++ quoted spec.name))

def evaluateOutput (T : Torch β τ) (inputs : SortedDict String τ) (params : Fields)
    (s : EvalState τ × SortedDict String τ) (output : GraphOutput) :
    Fetch β (EvalState τ × SortedDict String τ) := do
  let (value, s₁) ← resolveRef T inputs params output.ref s.1
  return (s₁, s.2.insert output.name (← toTensor T value))

def evaluate (T : Torch β τ) (graph : Graph) (inputs : SortedDict String τ) (params : Fields) :
    Fetch β (SortedDict String τ) := do
  graph.inputs.forM fun spec => ReadProgram.done (checkInput T inputs spec)
  graph.params.forM fun spec => ReadProgram.done (checkParam params spec)
  let start : EvalState τ := { results := graph.ops.map fun _ => .json .null }
  let s ← graph.ops.foldlM (evaluateOp T inputs params) start
  return (← graph.outputs.foldlM (evaluateOutput T inputs params) (s, .empty)).2

section Reads

open ReadProgram

def blobUris (ref : Fields) : List String :=
  match field? "kind" ref, field? "uri" ref with
  | some (.str "const_blob"), some (.str uri) => [uri]
  | _, _ => []

def kwargBlobUris : Json → List String
  | .obj ref => blobUris ref
  | _ => []

def graphBlobUris (graph : Graph) : List String :=
  graph.ops.flatMap (fun op => op.args.flatMap blobUris ++
    op.kwargs.flatMap fun kwarg => kwargBlobUris kwarg.2) ++
  graph.outputs.flatMap fun output => blobUris output.ref

variable (T : Torch β τ) (inputs : SortedDict String τ) (params : Fields)

theorem mem_blobUris {ref : Fields} {j : Json} {uri : String}
    (hkind : (Json.obj ref).getItem "kind" = .ok (.str "const_blob"))
    (hj : (Json.obj ref).getItem "uri" = .ok j) (huri : j.asStr = .ok uri) :
    uri ∈ blobUris ref := by
  have hstr : j = .str uri := by
    cases j <;> simp_all [Json.asStr]
  have hfield {k : String} {v : Json} (h : (Json.obj ref).getItem k = .ok v) :
      field? k ref = some v := by
    cases hv : field? k ref <;> simp_all [Json.getItem]
  simp [blobUris, hfield hkind, hfield hj, hstr]

theorem resolveBlob_readsOnly {ref : Fields}
    (hkind : (Json.obj ref).getItem "kind" = .ok (.str "const_blob"))
    (blobs : SortedDict String τ) : (resolveBlob T ref blobs).ReadsOnly (· ∈ blobUris ref) := by
  unfold resolveBlob
  refine readsOnly_lift_bind fun j hj => readsOnly_lift_bind fun uri huri => ?_
  cases blobs.find? uri with
  | some value => exact readsOnly_pure _
  | none =>
    refine (readsOnly_ask (mem_blobUris hkind hj huri)).bind fun body => ?_
    refine readsOnly_lift_bind fun value _ => readsOnly_lift_bind fun shape _ => ?_
    split_ifs
    · trivial
    · refine readsOnly_lift_bind fun dtype _ => ?_
      split_ifs <;> trivial

theorem resolveRef_readsOnly (ref : Fields) (s : EvalState τ) :
    (resolveRef T inputs params ref s).ReadsOnly (· ∈ blobUris ref) := by
  unfold resolveRef
  refine readsOnly_lift_bind fun kind hkind => ?_
  split
  · refine readsOnly_lift_bind fun j _ => readsOnly_lift_bind fun name _ => ?_
    cases inputs.find? name <;> trivial
  · refine readsOnly_lift_bind fun j _ => readsOnly_lift_bind fun id _ => ?_
    refine readsOnly_lift_bind fun idx _ => readsOnly_lift_bind fun result _ => ?_
    split
    · exact readsOnly_lift_bind fun _ _ => trivial
    · split_ifs <;> trivial
  · refine readsOnly_lift_bind fun j _ => readsOnly_lift_bind fun name _ => ?_
    cases field? name params <;> trivial
  · exact readsOnly_lift_bind fun j _ => trivial
  · exact (resolveBlob_readsOnly T hkind s.blobs).bind fun r => trivial
  · trivial

theorem resolveArgs_readsOnly (refs : List Fields) (s : EvalState τ) :
    (resolveArgs T inputs params refs s).ReadsOnly (· ∈ refs.flatMap blobUris) := by
  induction refs generalizing s with
  | nil => trivial
  | cons ref refs ih =>
    rw [resolveArgs]
    refine ((resolveRef_readsOnly T inputs params ref s).mono ?_).bind fun r =>
      ((ih r.2).mono ?_).bind fun _ => trivial
    · intro uri huri
      exact List.mem_append_left _ huri
    · intro uri huri
      exact List.mem_append_right _ huri

theorem resolveKwargs_readsOnly (kwargs : Fields) (s : EvalState τ) :
    (resolveKwargs T inputs params kwargs s).ReadsOnly
      (· ∈ kwargs.flatMap fun kwarg => kwargBlobUris kwarg.2) := by
  induction kwargs generalizing s with
  | nil => trivial
  | cons kwarg kwargs ih =>
    obtain ⟨k, v⟩ := kwarg
    rw [resolveKwargs]
    refine readsOnly_lift_bind fun isRef hisRef => ?_
    have hrest (r : Value τ × EvalState τ) : (do
        let (rest, s₂) ← resolveKwargs T inputs params kwargs r.2
        return ((k, r.1) :: rest, s₂) : Fetch β _).ReadsOnly
        (· ∈ ((k, v) :: kwargs).flatMap fun kwarg => kwargBlobUris kwarg.2) := by
      refine ((ih r.2).mono fun uri huri => ?_).bind fun _ => trivial
      exact List.mem_append_right _ huri
    cases isRef with
    | false => exact hrest (.json v, s)
    | true =>
      refine ReadsOnly.bind (readsOnly_lift_bind fun ref href => ?_) hrest
      refine (resolveRef_readsOnly T inputs params ref s).mono fun uri huri => ?_
      have hobj : v = .obj ref := by
        cases v <;> simp_all [Json.toFields, isRefDict]
      exact List.mem_append_left _ (by simpa [hobj, kwargBlobUris] using huri)

theorem evaluateOp_readsOnly (s : EvalState τ) (op : Op) :
    (evaluateOp T inputs params s op).ReadsOnly (· ∈ op.args.flatMap blobUris ++
      op.kwargs.flatMap fun kwarg => kwargBlobUris kwarg.2) := by
  unfold evaluateOp
  cases T.dispatch op.op with
  | none => trivial
  | some fn =>
    refine ((resolveArgs_readsOnly T inputs params op.args s).mono ?_).bind fun r => ?_
    · intro uri huri
      exact List.mem_append_left _ huri
    refine readsOnly_lift_bind fun args _ =>
      ((resolveKwargs_readsOnly T inputs params op.kwargs r.2).mono ?_).bind fun r' => ?_
    · intro uri huri
      exact List.mem_append_right _ huri
    · exact readsOnly_lift_bind fun _ _ => readsOnly_lift_bind fun _ _ => trivial

theorem evaluate_readsOnly (graph : Graph) :
    (evaluate T graph inputs params).ReadsOnly (· ∈ graphBlobUris graph) := by
  unfold evaluate
  refine (readsOnly_forM fun _ _ => readsOnly_done _).bind fun _ =>
    (readsOnly_forM fun _ _ => readsOnly_done _).bind fun _ =>
    (readsOnly_foldlM (fun s op hop => ?_) _).bind fun s =>
    (readsOnly_foldlM (fun s output houtput => ?_) _).bind fun _ => trivial
  · refine (evaluateOp_readsOnly T inputs params s op).mono fun uri huri => ?_
    exact List.mem_append_left _ (List.mem_flatMap.mpr ⟨op, hop, huri⟩)
  · refine ((resolveRef_readsOnly T inputs params output.ref s.1).mono fun uri huri => ?_).bind
      fun r => readsOnly_lift_bind fun _ _ => trivial
    exact List.mem_append_right _ (List.mem_flatMap.mpr ⟨output, houtput, huri⟩)

end Reads

end GraphEval

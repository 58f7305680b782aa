import Teuton.Effects
import Teuton.StreamEmission

/-! The start of a streaming run. The task `gpt_pipe` seeds a run with its state, its
configuration, the static matrices, the initial weights and a corpus, and builds the stages of the
pipeline from the configuration that it finds. It writes below `runs/`, the layout of the previous
version; the run manager looks below `v3/` whether a run was seeded already. The hyperparameters
are global variables of the task, which the environment and the configuration overwrite. -/
namespace GptPipeTask

open PyJson (Py PyErr PyFloat Json Fields field? mkObj)
open Signatures ObjectStore BucketPaths StreamEmission Effects

variable {β : Type}

structure Hyperparameters where
  vocab : ℤ := 50304
  d : ℤ := 384
  nHead : ℤ := 6
  dFf : ℤ := 1024
  t : ℤ := 128
  b : ℤ := 4
  nStages : ℤ := 4
  nBlocksPerStage : ℤ := 1
  nMicrobatches : ℤ := 16
  maxEpochs : ℤ := 5
  lr : PyFloat := .finite (3 / 10000)
  tokensUri : String := ""
  subspaceK : Option ℤ := none
  subspaceKDy : Option ℤ := none
  wireInt8 : Bool := false
  tiedEmbed : Bool := false
  kInner : ℤ := 1
  locoEtaInner : PyFloat := .finite 0
  locoEtaOut : PyFloat := .finite 1

def subspaceSeed : ℤ := 31415

def subspaceDySeed : ℤ := 41718

/-- The tensors of the task in their stored form, and the graphs of its stages. -/
structure TaskLibraries (β : Type) where
  platform : Platform β
  makeUk : ℤ → ℤ → ℤ → Py β
  tokEmb : Hyperparameters → Py β
  initialBlob : Hyperparameters → ℤ → Py β
  randomTokens : ℤ → ℤ → Py β
  buildStage : Hyperparameters → (String → String) → String → ℤ → ℤ → Py PipelineStage

/-- The bucket and the global variables, with a record of the objects that were written. -/
structure TaskWorld (β : Type) where
  bucket : Bucket β
  globals : Hyperparameters := {}
  written : List String := []

/-! ### The previous layout -/

section LegacyPaths

def legacyRunRoot (runId : String) : String := "runs/" ++ runId

def legacyStateKey (runId : String) : String := legacyRunRoot runId ++ "/state.json"

def legacyManifestConfigKey (runId : String) : String :=
  legacyRunRoot runId ++ "/manifest/config.json"

def staticKey (runId name : String) : String := legacyRunRoot runId ++ "/static/" ++ name

def stageWeightsKey (runId : String) (stage : ℤ) : String :=
  legacyRunRoot runId ++ "/weights/epoch=0/stage_" ++ toString stage ++ "_W.bin"

end LegacyPaths

/-! ### Bootstrap -/

section Bootstrap

variable (L : TaskLibraries β) (env : String → Option String)

def put (key : String) (body : β) : EStateM PyErr (TaskWorld β) PUnit :=
  update fun w => do
    let uri := w.bucket.uriForKey key
    return (⟨⟩, { w with bucket := ← w.bucket.put uri body, written := w.written ++ [uri] })

def putUnlessPresent (key : String) (body : Py β) : EStateM PyErr (TaskWorld β) PUnit := do
  let body ← lift body
  let w ← get
  if ← lift (w.bucket.exists (w.bucket.uriForKey key)) then pure ⟨⟩ else put key body

def override (name : String) (set : String → Hyperparameters → Py Hyperparameters) :
    EStateM PyErr (TaskWorld β) PUnit :=
  match env name with
  | none => pure ⟨⟩
  | some text =>
    if text = "" then pure ⟨⟩
    else update fun w => do return (⟨⟩, { w with globals := ← set text w.globals })

def intOfText (text : String) : Py ℤ := (Json.str text).toInt

def floatOfText (text : String) : Py PyFloat := (Json.str text).toFloat

/-- The text `0` switches a subspace off. -/
def subspaceOfText (text : String) : Py (Option ℤ) :=
  if text = "0" then .ok none else return some (← intOfText text)

def flagOfText (text : String) : Bool := !(["", "0", "false", "False"].contains text)

def envOverrides : List (String × (String → Hyperparameters → Py Hyperparameters)) :=
  [("GPT_PIPE_SUBSPACE_K", fun text h => do return { h with subspaceK := ← subspaceOfText text }),
    ("GPT_PIPE_SUBSPACE_K_DY", fun text h => do
      return { h with subspaceKDy := ← subspaceOfText text }),
    ("GPT_PIPE_WIRE_INT8", fun text h => .ok { h with wireInt8 := flagOfText text }),
    ("GPT_PIPE_TIED_EMBED", fun text h => .ok { h with tiedEmbed := flagOfText text }),
    ("GPT_PIPE_K_INNER", fun text h => do return { h with kInner := max (← intOfText text) 1 }),
    ("GPT_PIPE_LOCO_ETA_INNER", fun text h => do
      return { h with locoEtaInner := ← floatOfText text }),
    ("GPT_PIPE_LOCO_ETA_OUT", fun text h => do return { h with locoEtaOut := ← floatOfText text }),
    ("GPT_PIPE_N_BLOCKS_PER_STAGE", fun text h => do
      return { h with nBlocksPerStage := max (← intOfText text) 1 }),
    ("GPT_PIPE_D", fun text h => do return { h with d := ← intOfText text }),
    ("GPT_PIPE_N_HEAD", fun text h => do return { h with nHead := ← intOfText text }),
    ("GPT_PIPE_D_FF", fun text h => do return { h with dFf := ← intOfText text }),
    ("GPT_PIPE_B", fun text h => do return { h with b := ← intOfText text }),
    ("GPT_PIPE_T", fun text h => do return { h with t := ← intOfText text }),
    ("GPT_PIPE_N_MICROBATCHES", fun text h => do
      return { h with nMicrobatches := max (← intOfText text) 1 }),
    ("GPT_PIPE_N_STAGES", fun text h => do return { h with nStages := max (← intOfText text) 1 })]

def optInt : Option ℤ → Json
  | none => .null
  | some n => .int n

def initialState (runId : String) (maxRounds : ℤ) : Json :=
  mkObj [("run_id", .str runId), ("current_round", .int 0), ("max_rounds", .int maxRounds),
    ("completed_rounds", .arr []), ("failed_rounds", .arr [])]

def runConfig (h : Hyperparameters) (maxRounds : ℤ) (tokensUri : String) : Json :=
  mkObj [("task", .str "gpt_pipe"), ("n_stages", .int h.nStages), ("d", .int h.d),
    ("vocab", .int h.vocab), ("n_head", .int h.nHead), ("d_ff", .int h.dFf), ("B", .int h.b),
    ("T", .int h.t), ("n_microbatches", .int h.nMicrobatches), ("max_epochs", .int maxRounds),
    ("lr", .float h.lr), ("tokens_uri", .str tokensUri), ("subspace_k", optInt h.subspaceK),
    ("subspace_k_dy", optInt h.subspaceKDy), ("wire_int8", .bool h.wireInt8),
    ("tied_embed", .bool h.tiedEmbed), ("k_inner", .int h.kInner),
    ("loco_eta_inner", .float h.locoEtaInner), ("loco_eta_out", .float h.locoEtaOut),
    ("n_blocks_per_stage", .int h.nBlocksPerStage)]

def putSubspaces (runId : String) (h : Hyperparameters) : EStateM PyErr (TaskWorld β) PUnit :=
  match h.subspaceK with
  | none => pure ⟨⟩
  | some k =>
    if 0 < k then do
      putUnlessPresent (staticKey runId "u_k.bin") (L.makeUk h.d k subspaceSeed)
      putUnlessPresent (staticKey runId "u_k_dy.bin")
        (L.makeUk h.d (h.subspaceKDy.getD k) subspaceDySeed)
    else pure ⟨⟩

def putStageWeights (runId : String) (h : Hyperparameters) (stage : ℕ) :
    EStateM PyErr (TaskWorld β) PUnit := do
  let blob ← lift (L.initialBlob h stage)
  put (stageWeightsKey runId stage) blob

def putTokens (runId tokensUri : String) (h : Hyperparameters) :
    EStateM PyErr (TaskWorld β) PUnit := do
  let key := staticKey runId "tokens.bin"
  let w ← get
  if tokensUri ≠ "" then pure ⟨⟩
  else if ← lift (w.bucket.exists (w.bucket.uriForKey key)) then pure ⟨⟩
  else do
    let tokens ← lift (L.randomTokens (max (h.vocab * 100) 100000) h.vocab)
    put key tokens

def bootstrap (runId : String) (maxRounds : ℤ) : EStateM PyErr (TaskWorld β) PUnit := do
  let tokensUri := (env "GPT_PIPE_TOKENS_URI").getD ""
  put (legacyStateKey runId) (L.platform.dumps (initialState runId maxRounds))
  envOverrides.forM fun entry => override env entry.1 entry.2
  let w ← get
  let h := w.globals
  put (legacyManifestConfigKey runId) (L.platform.dumps (runConfig h maxRounds tokensUri))
  putSubspaces L runId h
  if h.tiedEmbed then putUnlessPresent (staticKey runId "tok_emb.bin") (L.tokEmb h)
  (List.range h.nStages.toNat).forM (putStageWeights L runId h)
  putTokens L runId tokensUri h

end Bootstrap

/-! ### Stages -/

section Stages

variable (L : TaskLibraries β)

def subspaceOfJson (value : Json) : Py (Option ℤ) :=
  if value.truthy then return some (← value.toInt) else .ok none

def presentReads : List (String × (Json → Hyperparameters → Py Hyperparameters)) :=
  [("d", fun v h => do return { h with d := ← v.toInt }),
    ("T", fun v h => do return { h with t := ← v.toInt }),
    ("B", fun v h => do return { h with b := ← v.toInt }),
    ("n_head", fun v h => do return { h with nHead := ← v.toInt }),
    ("d_ff", fun v h => do return { h with dFf := ← v.toInt }),
    ("vocab", fun v h => do return { h with vocab := ← v.toInt }),
    ("n_stages", fun v h => do return { h with nStages := ← v.toInt }),
    ("lr", fun v h => do return { h with lr := ← v.toFloat })]

def nonNullReads : List (String × (Json → Hyperparameters → Py Hyperparameters)) :=
  [("subspace_k", fun v h => do return { h with subspaceK := ← subspaceOfJson v }),
    ("subspace_k_dy", fun v h => do return { h with subspaceKDy := ← subspaceOfJson v }),
    ("wire_int8", fun v h => .ok { h with wireInt8 := v.truthy }),
    ("tied_embed", fun v h => .ok { h with tiedEmbed := v.truthy }),
    ("k_inner", fun v h => do return { h with kInner := max (← v.toInt) 1 }),
    ("loco_eta_inner", fun v h => do return { h with locoEtaInner := ← v.toFloat }),
    ("loco_eta_out", fun v h => do return { h with locoEtaOut := ← v.toFloat }),
    ("n_blocks_per_stage", fun v h => do return { h with nBlocksPerStage := max (← v.toInt) 1 })]

def setGlobals (value : Option Json) (set : Json → Hyperparameters → Py Hyperparameters) :
    EStateM PyErr (TaskWorld β) PUnit :=
  match value with
  | none => pure ⟨⟩
  | some v => update fun w => do return (⟨⟩, { w with globals := ← set v w.globals })

def nonNull : Option Json → Option Json
  | some .null => none
  | value => value

def tensorParallelParams (tpSize : ℤ) : Fields :=
  let parallelism := mkObj [("tensor_parallel_size", .int tpSize), ("scope", .str "stage")]
  [("distributed_runner", .str "gpt_tensor_parallel_v1"), ("tp_world_size", .int tpSize),
    ("parallelism", parallelism),
    ("resource_requirements", mkObj [("min_gpus", .int tpSize), ("placement", .str "single_host"),
      ("parallelism", parallelism)])]

def manifestConfig (b : Bucket β) (runId : String) : Py Json := do
  let uri := b.uriForKey (legacyManifestConfigKey runId)
  if ← b.exists uri then b.getJson L.platform uri else .ok (.obj [])

def buildStreamingInputs (runId : String) :
    EStateM PyErr (TaskWorld β) (List PipelineStage × StreamingParams) := do
  let w ← get
  let cfg ← lift (manifestConfig L w.bucket runId)
  let _ ← lift ((← lift (cfg.get "max_epochs" (.int w.globals.maxEpochs))).toInt)
  let fields ← lift cfg.toFields
  let nMicrobatches ← lift
    ((field? "n_microbatches" fields).getD (.int w.globals.nMicrobatches)).toInt
  presentReads.forM fun entry => setGlobals (field? entry.1 fields) entry.2
  nonNullReads.forM fun entry => setGlobals (nonNull (field? entry.1 fields)) entry.2
  let w ← get
  let h := w.globals
  let stages ← (List.range h.nStages.toNat).mapM fun (stage : ℕ) =>
    lift (L.buildStage h w.bucket.uriForKey runId stage nMicrobatches)
  let tokens ← lift ((((field? "tokens_uri" fields).getD .null).orElse
    ((Json.str h.tokensUri).orElse
      (.str (w.bucket.uriForKey (staticKey runId "tokens.bin"))))).asStr)
  let tpSize ← lift
    ((((field? "tensor_parallel_size" fields).getD (.int 1)).orElse (.int 1)).toInt)
  let tensorParallel := ((field? "enable_tensor_parallel_runner" fields).getD (.bool false)).truthy
  return (stages,
    { nStages := h.nStages
      nMicrobatches := nMicrobatches.toNat
      commonParams := if tensorParallel ∧ 1 < tpSize then tensorParallelParams tpSize else []
      training := true
      staticInputs := [⟨"tokens", tokens, "head_and_tail"⟩] })

end Stages

/-! ### The run manager -/

section Manager

structure BootstrapConfig where
  netuid : ℤ
  runId : String
  maxEpochs : ℤ := 1
  stressEmit : Bool := false
  stressSkipBootstrapIfPresent : Bool := true

variable (L : TaskLibraries β) (env : String → Option String) (cfg : BootstrapConfig)

def manifestUri (b : Bucket β) : String :=
  b.uriForKey (manifestConfigKey cfg.netuid cfg.runId)

def bootstrapArtifactsPresent (b : Bucket β) : Bool :=
  cfg.stressSkipBootstrapIfPresent &&
    match b.exists (manifestUri cfg b) with
    | .ok present => present
    | .error _ => false

/-- The method `StreamingRunManager.bootstrap` for the task `gpt_pipe`. -/
def managerBootstrap : EStateM PyErr (TaskWorld β) (List PipelineStage × StreamingParams) := do
  let w ← get
  if cfg.stressEmit && bootstrapArtifactsPresent cfg w.bucket then pure ⟨⟩
  else bootstrap L env cfg.runId cfg.maxEpochs
  buildStreamingInputs L cfg.runId

end Manager

end GptPipeTask

import Teuton.ExecutionSteps
import Teuton.MinerWorker

/-! Execution on a group of devices, and the transport that needs a grant for every object. A
tensor-parallel job is run by one process for each device; its inputs may be stored as shards, and
its outputs are stored as shards where the parameters say so. Other jobs run on the first device. -/
namespace DistributedExecution

open PyJson PyText Signatures ObjectStore Protocol ArtifactCrypto GraphEval TensorIo
open AuditReplay AssignmentGrants JobExecution Effects

variable {β τ σ : Type}

section Transport

/-- The method `PresignedArtifactTransport._validate`. -/
def validate (now : ℤ) (grant : Option PresignedUrlGrant) (method uri : String) :
    Py PresignedUrlGrant :=
  match grant with
  | none => .error (.valueError (method ++ " grant required for " ++ uri))
  | some g =>
    if g.method ≠ method then
      .error (.valueError ("grant method mismatch: " ++ g.method ++ " != " ++ method))
    else if g.canonicalUri ≠ uri then .error (.valueError "grant canonical URI mismatch")
    else if g.expiresUnix < now then .error (.valueError "grant expired")
    else .ok g

theorem validate_eq_ok {now : ℤ} {grant : Option PresignedUrlGrant} {method uri : String}
    {g : PresignedUrlGrant} : validate now grant method uri = .ok g ↔
      grant = some g ∧ g.method = method ∧ g.canonicalUri = uri ∧ now ≤ g.expiresUnix := by
  unfold validate
  cases grant with
  | none => simp
  | some h =>
    simp only
    constructor
    · intro hok
      split_ifs at hok with hmethod huri hexpired
      cases hok
      exact ⟨rfl, not_not.mp hmethod, not_not.mp huri, not_lt.mp hexpired⟩
    · rintro ⟨heq, rfl, rfl, hle⟩
      cases heq
      rw [if_neg (not_not.mpr rfl), if_neg (not_not.mpr rfl), if_neg (not_lt.mpr hle)]

end Transport

/-- The libraries of a device group. Beside those of a worker there are the split of a tensor, the
processes of a tensor-parallel job, and the hash of its sharding plan. -/
structure GroupLibraries (β τ : Type) extends WorkerLibraries β τ where
  tensorSplit : τ → ℕ → ℕ → List τ
  ranks : List String → SortedDict String τ → Fields → Py (SortedDict String τ)
  cudaAvailable : Bool
  planHash : Json → String

def secretVerify (p : Platform β) : Verifier β := fun payload signature _ =>
  match signature with
  | .str s => verifyPayload p payload "miner-dev-secret" s
  | _ => .error .typeError

section Sharding

variable (W : GroupLibraries β τ) (S : Stores σ β) (grants : String → Option PresignedUrlGrant)

def runReads {α : Type} : Fetch β α → EStateM PyErr (JobExecutor σ τ) α
  | .done result => lift result
  | .read uri next => do
    let body ← attempt (onStore (S.get uri (grants uri)))
    runReads (next body)

def shardTensor (t : τ) (worldSize d : ℤ) : Py (List τ) := do
  if worldSize ≤ 0 then .error (.valueError "world_size must be positive")
  let dims : ℤ := (W.torch.shape t).length
  let dim := if d < 0 then d + dims else d
  if dim < 0 ∨ dims ≤ dim then
    .error (.valueError ("invalid shard dim " ++ toString dim ++ " for tensor with " ++
      toString dims ++ " dims"))
  return W.tensorSplit t worldSize.toNat dim.toNat

def shardLength (shape : List ℤ) (d : ℤ) : ℤ :=
  if shape.isEmpty then 1 else shape.getD (if d < 0 then d + shape.length else d).toNat 0

def putShard (uri : String) (d : ℤ) (shard : τ × ℕ) :
    EStateM PyErr (JobExecutor σ τ) ShardSpec := do
  let target := shardUri uri shard.2
  let body ← lift (encodeTensor W.platform W.torch W.buffers shard.1)
  onStore (S.put target body (grants target))
  return {
    rank := shard.2
    uri := target
    length := some (shardLength (W.torch.shape shard.1) d)
    sha256 := some (sha256Hex W.platform body)
    sizeBytes := some (W.platform.toBytes body).length }

def encodeManifest (manifest : ShardedTensorManifest) : β := W.platform.dumps manifest.toDict

def putShardedTensor (uri : String) (value : τ) (name : String) (worldSize d : ℤ) :
    EStateM PyErr (JobExecutor σ τ) ShardedTensorManifest := do
  let parts ← lift (shardTensor W value worldSize d)
  let shards ← parts.zipIdx.mapM (putShard W S grants uri d)
  let dtype ← lift (W.torch.wireDtype value)
  let manifest : ShardedTensorManifest :=
    { name := name, shape := W.torch.shape value, dtype := dtype, partitionDim := d
      worldSize := worldSize, shards := shards }
  onStore (S.put uri (encodeManifest W manifest) (grants uri))
  return manifest

end Sharding

section Executor

variable (W : GroupLibraries β τ) (S : Stores σ β) (cfg : ExecutorConfig) (devices : List String)
variable (grants : String → Option PresignedUrlGrant)

/-- The stored object says of itself that it is the manifest of a sharded tensor. -/
def isShardManifest (p : Platform β) (body : β) : Py Bool := do
  let header ← p.loads body
  if ← containsKey "shards" header then containsKey "world_size" header else return false

def joinedInput (uri : String) (body : β) : EStateM PyErr (JobExecutor σ τ) τ := do
  if ← lift (isShardManifest W.platform body) then
    runReads S grants (getShardedTensor W.toLibraries uri)
  else lift (.error (.valueError "not sharded"))

def decodeGroupInput (body : β) (ref : ArtifactRef) : Py τ := do
  let plain ← decodeEnvelope W.platform W.timelock (some (secretVerify W.platform))
    cfg.encryptionSecret body ref.crypto
  W.torch.decodeTensor plain

/-- The `try` statement in `_load_inputs`. -/
def tryJoin (uri : String) (body : β) : EStateM PyErr (JobExecutor σ τ) (Py τ) :=
  if endsWith uri ".json" then attempt (joinedInput W S grants uri body)
  else pure (.error (.valueError "no manifest"))

/-- The body of the loop in `_load_inputs`: whatever goes wrong with the shards, the object is
then taken for a plain artifact. -/
def loadGroupInput (ref : ArtifactRef) : EStateM PyErr (JobExecutor σ τ) τ := do
  let body ← onStore (S.get ref.uri (grants ref.uri))
  match ← tryJoin W S grants ref.uri body with
  | .ok value => return value
  | .error _ => lift (decodeGroupInput W cfg body ref)

def loadGroupInputs (refs : List ArtifactRef) :
    EStateM PyErr (JobExecutor σ τ) (SortedDict String τ) := do
  let values ← refs.mapM (loadGroupInput W S cfg grants)
  return .ofEntries ((refs.map ArtifactRef.name).zip values)

def shardConfig (sharding : Fields) (ref : ArtifactRef) : Json :=
  (field? ref.name sharding).getD .null

def worldSizeOf (shardCfg : Json) : Py ℤ := do
  (← shardCfg.get "world_size" (.int devices.length)).toInt

def putSharded (ref : ArtifactRef) (value : τ) (shardCfg : Json) :
    EStateM PyErr (JobExecutor σ τ) ArtifactDigest := do
  if ref.crypto.isSome then
    lift (.error (.valueError "sharded output artifacts do not yet support crypto envelopes"))
  let worldSize ← lift (worldSizeOf devices shardCfg)
  let d ← lift (do (← shardCfg.get "partition_dim" (.int 0)).toInt)
  let sharded ← putShardedTensor W S grants ref.uri value ref.name worldSize d
  let body := encodeManifest W sharded
  return {
    name := ref.name
    uri := ref.uri
    sha256 := sha256Hex W.platform body
    sizeBytes := (W.platform.toBytes body).length +
      (sharded.shards.map fun shard => shard.sizeBytes.getD 0).sum
    sharded := some sharded }

/-- One round of the loop over the outputs: a sharded output is uploaded, another one is kept for
the upload that follows. -/
def placeOutput (signer : Signer β) (outputs : SortedDict String τ) (sharding : Fields)
    (ref : ArtifactRef) :
    EStateM PyErr (JobExecutor σ τ) (Option (SealedOutput β) × ArtifactDigest) := do
  match outputs.find? ref.name with
  | none => lift (.error (.keyError
      ("distributed runner did not produce output " ++ quoted ref.name)))
  | some value =>
    if (shardConfig sharding ref).truthy then
      let digest ← putSharded W S devices grants ref value (shardConfig sharding ref)
      return (none, digest)
    else
      let sealed ← lift (sealOutput W.toWorkerLibraries cfg signer outputs ref)
      return (some sealed, sealed.digest)

def executionFields (manifest : JobManifestV3) : Fields :=
  mkFields
    [("mode", .str "gpt_tensor_parallel_v1"), ("world_size", .int devices.length),
     ("device_group", .arr (devices.map .str)), ("rank_backend", .str "nccl"),
     ("sharding_plan_hash", .str (W.planHash
       ((field? "parallelism" manifest.params).getD (.obj []))))]

def checkDevices : Py Unit := do
  if !devices.all (startsWith · "cuda") then
    .error (.valueError "gpt_tensor_parallel_v1 requires CUDA devices")
  if !W.cudaAvailable then .error (.valueError "CUDA is not available")

def executeTensorParallel (miner : Miner β) (times : ExecutionTimes) (manifest : JobManifestV3) :
    EStateM PyErr (JobExecutor σ τ) JobReceiptV3 := do
  lift (checkDevices W devices)
  let e ← get
  let _ ← lift ((S.bucket e.store).get manifest.graphRef.uri)
  let inputs ← loadGroupInputs W S cfg grants manifest.inputs
  let outputs ← lift (W.ranks devices inputs manifest.params)
  let sharding ← lift ((field? "output_sharding" manifest.params).getD .null).fieldsOrEmpty
  let signer := miner.artifactSigner W.toWorkerLibraries
  let placed ← manifest.outputs.mapM (placeOutput W S cfg devices grants signer outputs sharding)
  (placed.filterMap Prod.fst).forM (putOutput S grants)
  let inputDigests ← manifest.inputs.mapM (digestInput W.toWorkerLibraries S grants)
  let receipt := receiptOf W.toWorkerLibraries miner times manifest inputDigests
    (placed.map Prod.snd)
  return { receipt with execution := executionFields W devices manifest }.sign W.platform
    (.signer signer)

def fallbackFields : Fields :=
  [("mode", .str "distributed_fallback_single_rank"), ("world_size", .int devices.length),
   ("device_group", .arr (devices.map .str)),
   ("reason", .str "manifest did not request gpt_tensor_parallel_v1")]

def markFallback (miner : Miner β) (receipt : JobReceiptV3) : JobReceiptV3 :=
  { receipt with
    execution := (fallbackFields devices).foldl (fun d f => SortedDict.insertEntry f d)
      receipt.execution }.sign W.platform
    (match miner.signer with
    | some signer => .signer signer
    | none => .secret miner.secret)

/-- The executor of a worker with these devices. With one device it is a `JobExecutor`. -/
def execute (miner : Miner β) (times : ExecutionTimes) (manifest : JobManifestV3) :
    EStateM PyErr (JobExecutor σ τ) JobReceiptV3 := do
  if devices.length ≤ 1 ∨ !isTensorParallel manifest then
    let receipt ← JobExecution.execute W.toWorkerLibraries S cfg grants miner times manifest
    return if 1 < devices.length then markFallback W devices miner receipt else receipt
  else executeTensorParallel W S cfg devices grants miner times manifest

end Executor

end DistributedExecution

import Teuton.Signatures

/-! Wire records of protocol version 3. Each record is a structure with the source's fields
and defaults; `toDict` and `fromDict` follow the dictionary built and read by the source,
entry by entry and with the same omissions. -/
namespace Protocol

open PyJson Signatures

variable {β : Type}

inductive CryptoMode where
  | none
  | signed
  | encrypted
  | drandTimelock
  deriving DecidableEq, Repr

def CryptoMode.value : CryptoMode → String
  | .none => "none"
  | .signed => "signed"
  | .encrypted => "encrypted"
  | .drandTimelock => "drand_timelock"

structure ArtifactCryptoPolicy where
  mode : String := "none"
  requiredSigner : Option String := none
  recipient : Option String := none
  cipherSuite : String := "xor-dev-v1"
  keyId : Option String := none
  drandRound : Option ℤ := none
  drandChainHash : Option String := none
  drandPublicKey : Option String := none
  deriving DecidableEq, Repr

def ArtifactCryptoPolicy.toDict (c : ArtifactCryptoPolicy) : Json :=
  mkObj <|
    [("mode", .str c.mode), ("cipher_suite", .str c.cipherSuite)] ++
    optField "required_signer" (c.requiredSigner.map .str) ++
    optField "recipient" (c.recipient.map .str) ++
    optField "key_id" (c.keyId.map .str) ++
    optField "drand_round" (c.drandRound.map .int) ++
    optField "drand_chain_hash" (c.drandChainHash.map .str) ++
    optField "drand_public_key" (c.drandPublicKey.map .str)

def ArtifactCryptoPolicy.fromDict (x : Json) : Py ArtifactCryptoPolicy := do
  let d := Json.obj (← x.fieldsOrEmpty)
  return {
    mode := ← (← d.get "mode" (.str "none")).asStr
    requiredSigner := ← (← d.get "required_signer").asOptStr
    recipient := ← (← d.get "recipient").asOptStr
    cipherSuite := ← (← d.get "cipher_suite" (.str "xor-dev-v1")).asStr
    keyId := ← (← d.get "key_id").asOptStr
    drandRound := ← (← d.get "drand_round").asOptInt
    drandChainHash := ← (← d.get "drand_chain_hash").asOptStr
    drandPublicKey := ← (← d.get "drand_public_key").asOptStr }

/-- An envelope is read from bytes that anybody may have stored, and its fields are used as they
are found: they hold any JSON value. -/
structure ArtifactEnvelope where
  cryptoMode : Json
  payloadB64 : Json
  plaintextSha256 : Json
  ciphertextSha256 : Json
  signer : Json := .null
  signature : Json := .null
  cipherSuite : Json := .null
  keyId : Json := .null
  drandRound : Json := .null
  drandChainHash : Json := .null
  drandPublicKey : Json := .null
  schemaVersion : ℤ := 1

def ArtifactEnvelope.signedPayloadFields (e : ArtifactEnvelope) : Fields :=
  [("schema_version", .int e.schemaVersion),
   ("crypto_mode", e.cryptoMode),
   ("payload_b64", e.payloadB64),
   ("plaintext_sha256", e.plaintextSha256),
   ("ciphertext_sha256", e.ciphertextSha256),
   ("signer", e.signer),
   ("cipher_suite", e.cipherSuite),
   ("key_id", e.keyId),
   ("drand_round", e.drandRound),
   ("drand_chain_hash", e.drandChainHash),
   ("drand_public_key", e.drandPublicKey)]

def ArtifactEnvelope.signedPayloadDict (e : ArtifactEnvelope) : Json :=
  mkObj e.signedPayloadFields

def ArtifactEnvelope.toDict (e : ArtifactEnvelope) : Json :=
  mkObj (e.signedPayloadFields ++ [("signature", e.signature)])

def ArtifactEnvelope.fromDict (d : Json) : Py ArtifactEnvelope := do
  return {
    schemaVersion := ← (← d.get "schema_version" (.int 1)).toInt
    cryptoMode := ← d.get "crypto_mode" (.str "none")
    payloadB64 := ← d.getItem "payload_b64"
    plaintextSha256 := ← d.getItem "plaintext_sha256"
    ciphertextSha256 := ← d.getItem "ciphertext_sha256"
    signer := ← d.get "signer"
    signature := ← d.get "signature"
    cipherSuite := ← d.get "cipher_suite"
    keyId := ← d.get "key_id"
    drandRound := ← d.get "drand_round"
    drandChainHash := ← d.get "drand_chain_hash"
    drandPublicKey := ← d.get "drand_public_key" }

structure ArtifactRef where
  name : String
  uri : String
  sha256 : Option String := none
  sizeBytes : Option ℤ := none
  crypto : Option ArtifactCryptoPolicy := none
  deriving DecidableEq, Repr

def ArtifactRef.toDict (r : ArtifactRef) : Json :=
  mkObj <|
    [("name", .str r.name), ("uri", .str r.uri)] ++
    optField "sha256" (r.sha256.map .str) ++
    optField "size_bytes" (r.sizeBytes.map .int) ++
    optField "crypto" (r.crypto.map ArtifactCryptoPolicy.toDict)

def optRecord {α : Type} (fromDict : Json → Py α) (x : Json) : Py (Option α) :=
  if x.truthy then do return some (← fromDict x) else .ok none

def ArtifactRef.fromDict (d : Json) : Py ArtifactRef := do
  return {
    name := ← (← d.getItem "name").asStr
    uri := ← (← d.getItem "uri").asStr
    sha256 := ← (← d.get "sha256").asOptStr
    sizeBytes := ← (← d.get "size_bytes").asOptInt
    crypto := ← optRecord ArtifactCryptoPolicy.fromDict (← d.get "crypto") }

structure ShardSpec where
  rank : ℤ
  uri : String
  offset : ℤ := 0
  length : Option ℤ := none
  sha256 : Option String := none
  sizeBytes : Option ℤ := none
  deriving DecidableEq, Repr

def ShardSpec.toDict (s : ShardSpec) : Json :=
  mkObj <|
    [("rank", .int s.rank), ("uri", .str s.uri), ("offset", .int s.offset)] ++
    optField "length" (s.length.map .int) ++
    optField "sha256" (s.sha256.map .str) ++
    optField "size_bytes" (s.sizeBytes.map .int)

def optToInt : Json → Py (Option ℤ)
  | .null => .ok none
  | x => do return some (← x.toInt)

def ShardSpec.fromDict (d : Json) : Py ShardSpec := do
  return {
    rank := ← (← d.getItem "rank").toInt
    uri := ← (← d.getItem "uri").asStr
    offset := ← (← d.get "offset" (.int 0)).toInt
    length := ← optToInt (← d.get "length")
    sha256 := ← (← d.get "sha256").asOptStr
    sizeBytes := ← optToInt (← d.get "size_bytes") }

structure ShardedTensorManifest where
  name : String
  shape : List ℤ
  dtype : String
  partitionDim : ℤ
  worldSize : ℤ
  shards : List ShardSpec
  layout : String := "rank_sharded_v1"
  deriving DecidableEq, Repr

def ShardedTensorManifest.toDict (m : ShardedTensorManifest) : Json :=
  mkObj
    [("name", .str m.name),
     ("shape", .arr (m.shape.map .int)),
     ("dtype", .str m.dtype),
     ("partition_dim", .int m.partitionDim),
     ("world_size", .int m.worldSize),
     ("layout", .str m.layout),
     ("shards", .arr (m.shards.map ShardSpec.toDict))]

def ShardedTensorManifest.fromDict (d : Json) : Py ShardedTensorManifest := do
  return {
    name := ← (← d.getItem "name").asStr
    shape := ← (← (← d.get "shape" (.arr [])).toList).mapM Json.toInt
    dtype := ← (← d.getItem "dtype").asStr
    partitionDim := ← (← d.get "partition_dim" (.int 0)).toInt
    worldSize := ← (← d.getItem "world_size").toInt
    layout := ← (← d.get "layout" (.str "rank_sharded_v1")).asStr
    shards := ← (← (← d.get "shards" (.arr [])).toList).mapM ShardSpec.fromDict }

structure ArtifactDigest where
  name : String
  uri : String
  sha256 : String
  sizeBytes : ℤ
  plaintextSha256 : Option String := none
  ciphertextSha256 : Option String := none
  envelopeSha256 : Option String := none
  signature : Option String := none
  cryptoMode : String := "none"
  sharded : Option ShardedTensorManifest := none
  deriving DecidableEq, Repr

def ArtifactDigest.toDict (a : ArtifactDigest) : Json :=
  mkObj <|
    [("name", .str a.name),
     ("uri", .str a.uri),
     ("sha256", .str a.sha256),
     ("size_bytes", .int a.sizeBytes),
     ("crypto_mode", .str a.cryptoMode)] ++
    optField "plaintext_sha256" (a.plaintextSha256.map .str) ++
    optField "ciphertext_sha256" (a.ciphertextSha256.map .str) ++
    optField "envelope_sha256" (a.envelopeSha256.map .str) ++
    optField "signature" (a.signature.map .str) ++
    optField "sharded" (a.sharded.map ShardedTensorManifest.toDict)

def ArtifactDigest.fromDict (d : Json) : Py ArtifactDigest := do
  return {
    name := ← (← d.getItem "name").asStr
    uri := ← (← d.getItem "uri").asStr
    sha256 := ← (← d.getItem "sha256").asStr
    sizeBytes := ← (← d.getItem "size_bytes").toInt
    plaintextSha256 := ← (← d.get "plaintext_sha256").asOptStr
    ciphertextSha256 := ← (← d.get "ciphertext_sha256").asOptStr
    envelopeSha256 := ← (← d.get "envelope_sha256").asOptStr
    signature := ← (← d.get "signature").asOptStr
    cryptoMode := ← (← d.get "crypto_mode" (.str "none")).asStr
    sharded := ← optRecord ShardedTensorManifest.fromDict (← d.get "sharded") }

structure GraphRef where
  sha256 : String
  uri : String
  deriving DecidableEq, Repr

def GraphRef.toDict (g : GraphRef) : Json := mkObj [("sha256", .str g.sha256), ("uri", .str g.uri)]

def GraphRef.fromDict (d : Json) : Py GraphRef := do
  return {
    sha256 := ← (← d.getItem "sha256").asStr
    uri := ← (← d.getItem "uri").asStr }

structure WorkerIdentity where
  hotkeySs58 : String
  workerId : String
  hostId : String
  gpuIndex : Option ℤ
  sessionNonce : String
  softwareHash : String := "dev"
  deviceGroup : List ℤ := []
  workerGroupId : Option String := none
  capabilities : Fields := []

/-- An entry that is written only when the list or dictionary it holds is not empty. -/
def nonEmpty {α : Type} (l : List α) (j : Json) : Option Json := if l.isEmpty then none else some j

def WorkerIdentity.toDict (w : WorkerIdentity) : Json :=
  mkObj <|
    [("hotkey_ss58", .str w.hotkeySs58),
     ("worker_id", .str w.workerId),
     ("host_id", .str w.hostId),
     ("gpu_index", ofOptInt w.gpuIndex),
     ("session_nonce", .str w.sessionNonce),
     ("software_hash", .str w.softwareHash)] ++
    optField "device_group" (nonEmpty w.deviceGroup (.arr (w.deviceGroup.map .int))) ++
    optField "worker_group_id" (w.workerGroupId.map .str) ++
    optField "capabilities" (nonEmpty w.capabilities (.obj w.capabilities))

def WorkerIdentity.fromDict (d : Json) : Py WorkerIdentity := do
  return {
    hotkeySs58 := ← (← d.getItem "hotkey_ss58").asStr
    workerId := ← (← d.getItem "worker_id").asStr
    hostId := ← (← d.get "host_id" (.str "unknown")).asStr
    gpuIndex := ← (← d.get "gpu_index").asOptInt
    sessionNonce := ← (← d.get "session_nonce" (.str "unknown")).asStr
    softwareHash := ← (← d.get "software_hash" (.str "dev")).asStr
    deviceGroup := ← (← (← d.get "device_group" (.arr [])).toList).mapM Json.toInt
    workerGroupId := ← (← d.get "worker_group_id").asOptStr
    capabilities := ← (← d.get "capabilities").fieldsOrEmpty }

structure ResourceRequirements where
  minGpus : ℤ := 1
  placement : String := "single_worker"
  parallelism : Fields := []

def ResourceRequirements.isDefault (r : ResourceRequirements) : Bool :=
  r.minGpus == 1 && r.placement == "single_worker" && r.parallelism.isEmpty

def ResourceRequirements.toDict (r : ResourceRequirements) : Json :=
  mkObj <|
    [("min_gpus", .int r.minGpus), ("placement", .str r.placement)] ++
    optField "parallelism" (nonEmpty r.parallelism (.obj r.parallelism))

def ResourceRequirements.fromDict (x : Json) : Py ResourceRequirements := do
  let d := Json.obj (← x.fieldsOrEmpty)
  return {
    minGpus := ← (← d.get "min_gpus" (.int 1)).toInt
    placement := ← (← d.get "placement" (.str "single_worker")).asStr
    parallelism := ← (← d.get "parallelism").fieldsOrEmpty }

structure VerificationPolicy where
  method : String := "replay_ir_v1"
  comparator : String := "auto"
  rtol : PyFloat := .finite (1 / 1000)
  atol : PyFloat := .finite (1 / 10000)
  maxSampleElements : ℤ := 4096
  sampleSeed : ℤ := 0
  critical : Bool := false
  deriving DecidableEq, Repr

def VerificationPolicy.toDict (v : VerificationPolicy) : Json :=
  mkObj
    [("method", .str v.method),
     ("comparator", .str v.comparator),
     ("rtol", .float v.rtol),
     ("atol", .float v.atol),
     ("max_sample_elements", .int v.maxSampleElements),
     ("sample_seed", .int v.sampleSeed),
     ("critical", .bool v.critical)]

def VerificationPolicy.fromDict (x : Json) : Py VerificationPolicy := do
  let d := Json.obj (← x.fieldsOrEmpty)
  return {
    method := ← (← d.get "method" (.str "replay_ir_v1")).asStr
    comparator := ← (← d.get "comparator" (.str "auto")).asStr
    rtol := ← (← d.get "rtol" (.float (.finite (1 / 1000)))).toFloat
    atol := ← (← d.get "atol" (.float (.finite (1 / 10000)))).toFloat
    maxSampleElements := ← (← d.get "max_sample_elements" (.int 4096)).toInt
    sampleSeed := ← (← d.get "sample_seed" (.int 0)).toInt
    critical := (← d.get "critical" (.bool false)).truthy }

structure JobManifestV3 where
  jobId : String
  runId : String
  stepId : ℤ
  kind : String
  graphRef : GraphRef
  params : Fields
  inputs : List ArtifactRef
  outputs : List ArtifactRef
  assignedHotkey : String
  assignedWorker : Option String
  attempt : ℤ
  deadlineUnix : ℤ
  createdUnix : ℤ
  resourceRequirements : ResourceRequirements := {}
  verificationPolicy : VerificationPolicy := {}
  ownerSignature : Option String := none
  schemaVersion : ℤ := 3

def JobManifestV3.unsignedFields (m : JobManifestV3) : Fields :=
  [("schema_version", .int m.schemaVersion),
   ("job_id", .str m.jobId),
   ("run_id", .str m.runId),
   ("step_id", .int m.stepId),
   ("kind", .str m.kind),
   ("graph_ref", m.graphRef.toDict),
   ("params", .obj m.params),
   ("inputs", .arr (m.inputs.map ArtifactRef.toDict)),
   ("outputs", .arr (m.outputs.map ArtifactRef.toDict)),
   ("assigned_hotkey", .str m.assignedHotkey),
   ("assigned_worker", ofOptStr m.assignedWorker),
   ("attempt", .int m.attempt),
   ("deadline_unix", .int m.deadlineUnix),
   ("created_unix", .int m.createdUnix),
   ("verification_policy", m.verificationPolicy.toDict)] ++
  optField "resource_requirements"
    (if m.resourceRequirements.isDefault then none else some m.resourceRequirements.toDict)

def JobManifestV3.unsignedDict (m : JobManifestV3) : Json := mkObj m.unsignedFields

def JobManifestV3.manifestHash (p : Platform β) (m : JobManifestV3) : String :=
  digestDict p m.unsignedDict

def JobManifestV3.sign (p : Platform β) (m : JobManifestV3) (key : SignerOrSecret β) :
    JobManifestV3 :=
  { m with ownerSignature := some (recordSignature p m.unsignedDict key) }

def JobManifestV3.toDict (p : Platform β) (m : JobManifestV3) : Json :=
  mkObj (m.unsignedFields ++
    [("manifest_hash", .str (m.manifestHash p)), ("owner_signature", ofOptStr m.ownerSignature)])

def JobManifestV3.fromDict (d : Json) : Py JobManifestV3 := do
  return {
    schemaVersion := ← (← d.get "schema_version" (.int 3)).toInt
    jobId := ← (← d.getItem "job_id").asStr
    runId := ← (← d.getItem "run_id").asStr
    stepId := ← (← d.getItem "step_id").toInt
    kind := ← (← d.getItem "kind").asStr
    graphRef := ← GraphRef.fromDict (← d.getItem "graph_ref")
    params := ← (← d.get "params").fieldsOrEmpty
    inputs := ← (← (← d.getItem "inputs").toList).mapM ArtifactRef.fromDict
    outputs := ← (← (← d.getItem "outputs").toList).mapM ArtifactRef.fromDict
    assignedHotkey := ← (← d.getItem "assigned_hotkey").asStr
    assignedWorker := ← (← d.get "assigned_worker").asOptStr
    attempt := ← (← d.get "attempt" (.int 0)).toInt
    deadlineUnix := ← (← d.getItem "deadline_unix").toInt
    createdUnix := ← (← d.getItem "created_unix").toInt
    resourceRequirements := ← ResourceRequirements.fromDict (← d.get "resource_requirements")
    verificationPolicy := ← VerificationPolicy.fromDict (← d.get "verification_policy")
    ownerSignature := ← (← d.get "owner_signature").asOptStr }

structure JobReceiptV3 where
  receiptId : String
  manifestHash : String
  jobId : String
  runId : String
  stepId : ℤ
  kind : String
  worker : WorkerIdentity
  inputDigests : List ArtifactDigest
  outputDigests : List ArtifactDigest
  startedUnix : PyFloat
  finishedUnix : PyFloat
  computeSec : PyFloat
  claimedBytesRead : ℤ
  claimedBytesWritten : ℤ
  execution : Fields := []
  minerSignature : Option String := none
  schemaVersion : ℤ := 3

def JobReceiptV3.unsignedFields (r : JobReceiptV3) : Fields :=
  [("schema_version", .int r.schemaVersion),
   ("receipt_id", .str r.receiptId),
   ("manifest_hash", .str r.manifestHash),
   ("job_id", .str r.jobId),
   ("run_id", .str r.runId),
   ("step_id", .int r.stepId),
   ("kind", .str r.kind),
   ("worker", r.worker.toDict),
   ("input_digests", .arr (r.inputDigests.map ArtifactDigest.toDict)),
   ("output_digests", .arr (r.outputDigests.map ArtifactDigest.toDict)),
   ("started_unix", .float r.startedUnix),
   ("finished_unix", .float r.finishedUnix),
   ("compute_sec", .float r.computeSec),
   ("claimed_bytes_read", .int r.claimedBytesRead),
   ("claimed_bytes_written", .int r.claimedBytesWritten)] ++
  optField "execution" (nonEmpty r.execution (.obj r.execution))

def JobReceiptV3.unsignedDict (r : JobReceiptV3) : Json := mkObj r.unsignedFields

def JobReceiptV3.sign (p : Platform β) (r : JobReceiptV3) (key : SignerOrSecret β) :
    JobReceiptV3 :=
  { r with minerSignature := some (recordSignature p r.unsignedDict key) }

def JobReceiptV3.toDict (r : JobReceiptV3) : Json :=
  mkObj (r.unsignedFields ++ [("miner_signature", ofOptStr r.minerSignature)])

def JobReceiptV3.fromDict (d : Json) : Py JobReceiptV3 := do
  return {
    schemaVersion := ← (← d.get "schema_version" (.int 3)).toInt
    receiptId := ← (← d.getItem "receipt_id").asStr
    manifestHash := ← (← d.getItem "manifest_hash").asStr
    jobId := ← (← d.getItem "job_id").asStr
    runId := ← (← d.getItem "run_id").asStr
    stepId := ← (← d.getItem "step_id").toInt
    kind := ← (← d.getItem "kind").asStr
    worker := ← WorkerIdentity.fromDict (← d.getItem "worker")
    inputDigests := ← (← (← d.get "input_digests" (.arr [])).toList).mapM ArtifactDigest.fromDict
    outputDigests := ← (← (← d.get "output_digests" (.arr [])).toList).mapM ArtifactDigest.fromDict
    startedUnix := ← (← d.get "started_unix" (.float (.finite 0))).toFloat
    finishedUnix := ← (← d.get "finished_unix" (.float (.finite 0))).toFloat
    computeSec := ← (← d.get "compute_sec" (.float (.finite 0))).toFloat
    claimedBytesRead := ← (← d.get "claimed_bytes_read" (.int 0)).toInt
    claimedBytesWritten := ← (← d.get "claimed_bytes_written" (.int 0)).toInt
    execution := ← (← d.get "execution").fieldsOrEmpty
    minerSignature := ← (← d.get "miner_signature").asOptStr }

structure VerificationVerdictV3 where
  verdictId : String
  receiptId : String
  manifestHash : String
  jobId : String
  runId : String
  minerHotkey : String
  validatorHotkey : String
  status : String
  reason : String
  estimatedCu : PyFloat
  replayComputeSec : PyFloat
  checkedUnix : PyFloat
  comparison : Fields := []
  validatorSignature : Option String := none
  schemaVersion : ℤ := 3

def VerificationVerdictV3.unsignedFields (v : VerificationVerdictV3) : Fields :=
  [("schema_version", .int v.schemaVersion),
   ("verdict_id", .str v.verdictId),
   ("receipt_id", .str v.receiptId),
   ("manifest_hash", .str v.manifestHash),
   ("job_id", .str v.jobId),
   ("run_id", .str v.runId),
   ("miner_hotkey", .str v.minerHotkey),
   ("validator_hotkey", .str v.validatorHotkey),
   ("status", .str v.status),
   ("reason", .str v.reason),
   ("estimated_cu", .float v.estimatedCu),
   ("replay_compute_sec", .float v.replayComputeSec),
   ("checked_unix", .float v.checkedUnix),
   ("comparison", .obj v.comparison)]

def VerificationVerdictV3.unsignedDict (v : VerificationVerdictV3) : Json := mkObj v.unsignedFields

def VerificationVerdictV3.sign (p : Platform β) (v : VerificationVerdictV3)
    (key : SignerOrSecret β) : VerificationVerdictV3 :=
  { v with validatorSignature := some (recordSignature p v.unsignedDict key) }

def VerificationVerdictV3.toDict (v : VerificationVerdictV3) : Json :=
  mkObj (v.unsignedFields ++ [("validator_signature", ofOptStr v.validatorSignature)])

def VerificationVerdictV3.fromDict (d : Json) : Py VerificationVerdictV3 := do
  return {
    schemaVersion := ← (← d.get "schema_version" (.int 3)).toInt
    verdictId := ← (← d.getItem "verdict_id").asStr
    receiptId := ← (← d.getItem "receipt_id").asStr
    manifestHash := ← (← d.getItem "manifest_hash").asStr
    jobId := ← (← d.getItem "job_id").asStr
    runId := ← (← d.getItem "run_id").asStr
    minerHotkey := ← (← d.getItem "miner_hotkey").asStr
    validatorHotkey := ← (← d.getItem "validator_hotkey").asStr
    status := ← (← d.getItem "status").asStr
    reason := ← (← d.get "reason" (.str "")).asStr
    estimatedCu := ← (← d.get "estimated_cu" (.float (.finite 0))).toFloat
    replayComputeSec := ← (← d.get "replay_compute_sec" (.float (.finite 0))).toFloat
    checkedUnix := ← (← d.get "checked_unix" (.float (.finite 0))).toFloat
    comparison := ← (← d.get "comparison").fieldsOrEmpty
    validatorSignature := ← (← d.get "validator_signature").asOptStr }

structure AuditResultV3 where
  auditId : String
  receiptId : String
  manifestHash : String
  jobId : String
  runId : String
  minerHotkey : String
  auditorHotkey : String
  status : String
  reason : String
  replayComputeSec : PyFloat
  checkedUnix : PyFloat
  comparison : Fields := []
  auditorSignature : Option String := none
  schemaVersion : ℤ := 1

def AuditResultV3.unsignedFields (a : AuditResultV3) : Fields :=
  [("schema_version", .int a.schemaVersion),
   ("audit_id", .str a.auditId),
   ("receipt_id", .str a.receiptId),
   ("manifest_hash", .str a.manifestHash),
   ("job_id", .str a.jobId),
   ("run_id", .str a.runId),
   ("miner_hotkey", .str a.minerHotkey),
   ("auditor_hotkey", .str a.auditorHotkey),
   ("status", .str a.status),
   ("reason", .str a.reason),
   ("replay_compute_sec", .float a.replayComputeSec),
   ("checked_unix", .float a.checkedUnix),
   ("comparison", .obj a.comparison)]

def AuditResultV3.unsignedDict (a : AuditResultV3) : Json := mkObj a.unsignedFields

def AuditResultV3.sign (p : Platform β) (a : AuditResultV3) (key : SignerOrSecret β) :
    AuditResultV3 :=
  { a with auditorSignature := some (recordSignature p a.unsignedDict key) }

def AuditResultV3.toDict (a : AuditResultV3) : Json :=
  mkObj (a.unsignedFields ++ [("auditor_signature", ofOptStr a.auditorSignature)])

def AuditResultV3.fromDict (d : Json) : Py AuditResultV3 := do
  return {
    schemaVersion := ← (← d.get "schema_version" (.int 1)).toInt
    auditId := ← (← d.getItem "audit_id").asStr
    receiptId := ← (← d.getItem "receipt_id").asStr
    manifestHash := ← (← d.getItem "manifest_hash").asStr
    jobId := ← (← d.getItem "job_id").asStr
    runId := ← (← d.getItem "run_id").asStr
    minerHotkey := ← (← d.getItem "miner_hotkey").asStr
    auditorHotkey := ← (← d.getItem "auditor_hotkey").asStr
    status := ← (← d.getItem "status").asStr
    reason := ← (← d.get "reason" (.str "")).asStr
    replayComputeSec := ← (← d.get "replay_compute_sec" (.float (.finite 0))).toFloat
    checkedUnix := ← (← d.get "checked_unix" (.float (.finite 0))).toFloat
    comparison := ← (← d.get "comparison").fieldsOrEmpty
    auditorSignature := ← (← d.get "auditor_signature").asOptStr }

structure MinerScoreWindow where
  netuid : ℤ
  windowId : String
  hotkeySs58 : String
  receipts : ℤ := 0
  verdicts : ℤ := 0
  passCu : ℚ := 0
  failCu : ℚ := 0
  unsampledCu : ℚ := 0
  trustMultiplier : ℚ := 1
  score : ℚ := 0
  deriving DecidableEq, Repr

def MinerScoreWindow.toDict (w : MinerScoreWindow) : Json :=
  mkObj
    [("netuid", .int w.netuid),
     ("window_id", .str w.windowId),
     ("hotkey_ss58", .str w.hotkeySs58),
     ("receipts", .int w.receipts),
     ("verdicts", .int w.verdicts),
     ("pass_cu", .float (.finite w.passCu)),
     ("fail_cu", .float (.finite w.failCu)),
     ("unsampled_cu", .float (.finite w.unsampledCu)),
     ("trust_multiplier", .float (.finite w.trustMultiplier)),
     ("score", .float (.finite w.score))]

end Protocol

import Teuton.AssignmentGrants
import Teuton.AuditReplay
import Teuton.Effects
import Teuton.KeyedDict
import Teuton.TensorIo

/-! The execution of a job on one worker: fetch the graph, open and decode the inputs, evaluate,
seal and upload the outputs, and sign a receipt with the digests of both. The executor lives
longer than a job and keeps graphs, inputs that are worth keeping, and the outputs it has
produced. -/
namespace JobExecution

open PyJson PyText Signatures ObjectStore GraphIr Protocol ArtifactCrypto GraphEval TensorIo
open AuditReplay AssignmentGrants Effects

variable {β τ σ : Type}

section Cache

/-- Tensors by URI, the order in which they came, and the number of bytes they take. -/
structure TensorCache (τ : Type) where
  cache : KeyedDict (Prod.fst : String × τ → String) := KeyedDict.empty
  order : List String := []
  bytes : ℤ := 0

namespace TensorCache

def find? (c : TensorCache τ) (uri : String) : Option τ := (c.cache.get? uri).map Prod.snd

def drop (size : τ → ℤ) (c : TensorCache τ) (uri : String) : TensorCache τ :=
  { c with
    cache := c.cache.erase uri
    bytes := c.bytes - ((c.find? uri).map size).getD 0 }

def evict (size : τ → ℤ) (maxBytes incoming : ℤ) : List String → TensorCache τ → TensorCache τ
  | [], c => { c with order := [] }
  | uri :: order, c =>
    if c.bytes + incoming > maxBytes then evict size maxBytes incoming order (c.drop size uri)
    else { c with order := uri :: order }

def append (size : τ → ℤ) (c : TensorCache τ) (uri : String) (value : τ) : TensorCache τ where
  cache := c.cache.set (uri, value)
  order := c.order ++ [uri]
  bytes := c.bytes + size value

def remove (size : τ → ℤ) (c : TensorCache τ) (uri : String) : Py (TensorCache τ) :=
  match c.find? uri with
  | none => .ok c
  | some _ =>
    if uri ∈ c.order then .ok { c.drop size uri with order := c.order.erase uri }
    else .error (.valueError "list.remove(x): x not in list")

def cacheTensor (size : τ → ℤ) (maxBytes : ℤ) (c : TensorCache τ) (uri : String) (value : τ) :
    Py (TensorCache τ) := do
  if size value > maxBytes / 2 then return c
  let c ← c.remove size uri
  return (evict size maxBytes (size value) c.order c).append size uri value

variable {size : τ → ℤ} {maxBytes : ℤ}

theorem find?_drop (c : TensorCache τ) (uri u : String) :
    (c.drop size uri).find? u = if uri = u then none else c.find? u := by
  rw [find?, drop, KeyedDict.get?_erase]
  split_ifs
  · rfl
  · rfl

theorem find?_append (c : TensorCache τ) (uri u : String) (value : τ) :
    (c.append size uri value).find? u = if uri = u then some value else c.find? u := by
  rw [find?, append, KeyedDict.get?_set]
  split_ifs
  · rfl
  · rfl

theorem find?_of_evict {incoming : ℤ} {order : List String} {c : TensorCache τ} {u : String} {t : τ}
    (h : (evict size maxBytes incoming order c).find? u = some t) : c.find? u = some t := by
  induction order generalizing c with
  | nil => exact h
  | cons uri order ih =>
    rw [evict] at h
    split_ifs at h
    · have hdrop := ih h
      rw [find?_drop] at hdrop
      split_ifs at hdrop
      exact hdrop
    · exact h

theorem find?_of_remove {c c' : TensorCache τ} {uri u : String} {t : τ}
    (h : c.remove size uri = .ok c') (ht : c'.find? u = some t) : c.find? u = some t := by
  unfold remove at h
  cases hfind : c.find? uri with
  | none =>
    rw [hfind] at h
    cases h
    exact ht
  | some old =>
    rw [hfind] at h
    simp only at h
    split_ifs at h
    cases h
    have hdrop : (c.drop size uri).find? u = some t := ht
    rw [find?_drop] at hdrop
    split_ifs at hdrop
    exact hdrop

theorem find?_of_cacheTensor {c c' : TensorCache τ} {uri u : String} {value t : τ}
    (h : c.cacheTensor size maxBytes uri value = .ok c') (ht : c'.find? u = some t) :
    uri = u ∧ value = t ∨ c.find? u = some t := by
  unfold cacheTensor at h
  split_ifs at h
  · cases h
    exact Or.inr ht
  · obtain ⟨c₁, hremove, hc'⟩ := PyJson.bind_eq_ok.mp h
    cases hc'
    rw [find?_append] at ht
    split_ifs at ht with huri
    · exact Or.inl ⟨huri, Option.some.inj ht⟩
    · exact Or.inr (find?_of_remove hremove (find?_of_evict ht))

end TensorCache

end Cache

/-- The libraries of a worker. Beside those of an audit there are the buffers of tensors, their
element size and values, and what the fault injection of the tests does to a tensor. -/
structure WorkerLibraries (β τ : Type) extends Libraries β τ where
  buffers : Buffers τ
  elementSize : τ → ℕ
  tolist : τ → Json
  randnLike : ℕ → τ → τ
  zerosLike : τ → τ
  increment : ℕ → τ → τ

namespace WorkerLibraries

def size (W : WorkerLibraries β τ) (t : τ) : ℤ := W.elementSize t * W.torch.numel t

end WorkerLibraries

/-- The bucket of the executor and its transport for artifacts, in a world that others may change
as well. -/
structure Stores (σ β : Type) where
  bucket : σ → Bucket β
  get : String → Option PresignedUrlGrant → EStateM PyErr σ β
  put : String → β → Option PresignedUrlGrant → EStateM PyErr σ PUnit

def directStores : Stores (Bucket β) β where
  bucket := id
  get := fun uri _ b => lift (b.get uri) b
  put := fun uri body _ => update fun b => do return (⟨⟩, ← b.put uri body)

structure ExecutorConfig where
  inputCacheMb : ℤ := 1024
  outputCacheMb : ℤ := 256
  encryptionSecret : String := "teuton-dev-encryption"

def ExecutorConfig.inputMax (cfg : ExecutorConfig) : ℤ := cfg.inputCacheMb * 1024 * 1024

def ExecutorConfig.outputMax (cfg : ExecutorConfig) : ℤ := cfg.outputCacheMb * 1024 * 1024

structure JobExecutor (σ τ : Type) where
  store : σ
  graphs : KeyedDict (Prod.fst : String × Graph → String) := KeyedDict.empty
  inputCache : TensorCache τ := {}
  outputCache : TensorCache τ := {}

def onStore {α : Type} (x : EStateM PyErr σ α) : EStateM PyErr (JobExecutor σ τ) α :=
  zoom JobExecutor.store (fun e s => { e with store := s }) x

structure ExecutionTimes where
  startedUnix : PyFloat
  finishedUnix : PyFloat
  computeSec : PyFloat

section Digests

variable (p : Platform β)

def digestBody (name uri : String) (body : β) (policy : Option ArtifactCryptoPolicy) :
    Py ArtifactDigest := do
  let mode := (defaultPolicy policy).mode
  let sha := sha256Hex p body
  let size : ℤ := (p.toBytes body).length
  if mode = CryptoMode.none.value then
    return { name := name, uri := uri, sha256 := sha, sizeBytes := size, cryptoMode := mode }
  else
    let envelope ← ArtifactEnvelope.fromDict (← p.loads body)
    return {
      name := name
      uri := uri
      sha256 := sha
      sizeBytes := size
      plaintextSha256 := ← envelope.plaintextSha256.asOptStr
      ciphertextSha256 := ← envelope.ciphertextSha256.asOptStr
      envelopeSha256 := some sha
      signature := ← envelope.signature.asOptStr
      cryptoMode := ← envelope.cryptoMode.asStr }

end Digests

def isInputCacheable (uri : String) : Bool :=
  isInText "/weights/" uri || isInText "/static/" uri || isInText "/data/tokens.bin" uri

section Executor

variable (W : WorkerLibraries β τ) (S : Stores σ β) (cfg : ExecutorConfig)
variable (grants : String → Option PresignedUrlGrant)

def readGraph (sha : String) (body : β) : Py Graph := do
  let graph ← Graph.fromDict (← W.platform.loads body)
  let actual := graph.graphId W.platform
  if actual ≠ sha then
    .error (.valueError ("graph hash mismatch: declared " ++ sha ++ ", computed " ++ actual))
  return graph

def fetchGraph (sha uri : String) : EStateM PyErr (JobExecutor σ τ) Graph := do
  let e ← get
  match e.graphs.get? sha with
  | some (_, graph) => return graph
  | none =>
    let graph ← lift ((S.bucket e.store).get uri >>= readGraph W sha)
    modify fun e => { e with graphs := e.graphs.set (sha, graph) }
    return graph

def openInput (body : β) (ref : ArtifactRef) : Py τ := do
  let plain ← decodeEnvelope W.platform W.timelock (some (identityVerify W.platform))
    cfg.encryptionSecret body ref.crypto
  W.torch.decodeTensor plain

def cacheInput (uri : String) (value : τ) : EStateM PyErr (JobExecutor σ τ) PUnit :=
  update fun e => do
    return (⟨⟩, { e with
      inputCache := ← e.inputCache.cacheTensor W.size cfg.inputMax uri value })

def cacheOutput (uri : String) (value : τ) : EStateM PyErr (JobExecutor σ τ) PUnit :=
  update fun e => do
    return (⟨⟩, { e with
      outputCache := ← e.outputCache.cacheTensor W.size cfg.outputMax uri value })

def isCached (e : JobExecutor σ τ) (uri : String) : Bool :=
  (e.inputCache.find? uri).isSome || (e.outputCache.find? uri).isSome

def loadInput (ref : ArtifactRef) : EStateM PyErr (JobExecutor σ τ) τ := do
  let body ← onStore (S.get ref.uri (grants ref.uri))
  let value ← lift (openInput W cfg body ref)
  if isInputCacheable ref.uri then cacheInput W cfg ref.uri value
  return value

def decodeInput (ref : ArtifactRef) : EStateM PyErr (JobExecutor σ τ) τ := do
  let e ← get
  match (e.outputCache.find? ref.uri).or (e.inputCache.find? ref.uri) with
  | some value => return value
  | none => loadInput W S cfg grants ref

def decodeInputs (refs : List ArtifactRef) :
    EStateM PyErr (JobExecutor σ τ) (SortedDict String τ) := do
  let e ← get
  let (cached, missing) := refs.partition fun ref => isCached e ref.uri
  let values ← (cached ++ missing).mapM (decodeInput W S cfg grants)
  return .ofEntries (((cached ++ missing).map ArtifactRef.name).zip values)

def encodeOutput (value : τ) (jsonUri : Bool) : Py β :=
  if jsonUri then .ok (W.platform.dumps (mkObj [("value", W.tolist value)]))
  else encodeTensor W.platform W.torch W.buffers value

structure SealedOutput (β : Type) where
  uri : String
  body : β
  digest : ArtifactDigest

def sealOutput (signer : Signer β) (outputs : SortedDict String τ) (ref : ArtifactRef) :
    Py (SealedOutput β) := do
  match outputs.find? ref.name with
  | none => .error (.keyError ("graph did not produce output " ++ quoted ref.name))
  | some value =>
    let plain ← encodeOutput W value (endsWith ref.uri ".json")
    let body ← encodeEnvelope W.platform W.timelock (some signer) cfg.encryptionSecret plain
      ref.crypto
    return ⟨ref.uri, body, ← digestBody W.platform ref.name ref.uri body ref.crypto⟩

/-- The tensors that fault injection puts in the place of the computed ones. -/
def faultyTensor (mode jobId name : String) (value : τ) : τ :=
  let seed (text : String) : ℕ :=
    bigEndian (W.platform.sha256 (W.platform.ofBytes text.toUTF8.toList))
  if mode = "wrong_output" ∨ mode = "skip_compute" then
    if W.torch.isFloatingPoint value then
      W.randnLike (seed (jobId ++ ":" ++ name) % (2 ^ 31 - 1)) value
    else W.zerosLike value
  else if mode = "partial_corrupt" then
    let n := W.torch.numel value
    if 0 < n then W.increment (seed (jobId ++ ":" ++ name ++ ":partial") % n) value else value
  else value

def applyFaults (manifest : JobManifestV3) (outputs : SortedDict String τ) (workerId mode : String)
    (rate : ℚ) : SortedDict String τ :=
  if mode = "" ∨ mode = "none" then outputs
  else
    let seed := W.platform.ofBytes (workerId ++ ":" ++ manifest.jobId ++ ":" ++ mode).toUTF8.toList
    if (bigEndian ((W.platform.sha256 seed).take 8) : ℚ) / 2 ^ 64 < rate then
      .ofEntries (outputs.entries.map fun entry =>
        (entry.1, faultyTensor W mode manifest.jobId entry.1 entry.2))
    else outputs

def artifactSigner (minerSigner : Option (Signer β)) (minerSecret hotkey : String) : Signer β :=
  minerSigner.getD (hmacSigner W.platform minerSecret hotkey)

/-- How a miner runs its jobs: its identity, its key and, in tests, its faults. -/
structure Miner (β : Type) where
  worker : WorkerIdentity
  secret : String := "miner-dev-secret"
  signer : Option (Signer β) := none
  faultMode : String := ""
  faultRate : ℚ := 1

def Miner.artifactSigner (miner : Miner β) : Signer β :=
  JobExecution.artifactSigner W miner.signer miner.secret miner.worker.hotkeySs58

def receiptOf (miner : Miner β) (times : ExecutionTimes) (manifest : JobManifestV3)
    (inputDigests outputDigests : List ArtifactDigest) : JobReceiptV3 where
  receiptId := manifest.runId ++ ":" ++ manifest.jobId ++ ":" ++ miner.worker.hotkeySs58 ++ ":" ++
    miner.worker.workerId ++ ":" ++ toString manifest.attempt
  manifestHash := manifest.manifestHash W.platform
  jobId := manifest.jobId
  runId := manifest.runId
  stepId := manifest.stepId
  kind := manifest.kind
  worker := miner.worker
  inputDigests := inputDigests
  outputDigests := outputDigests
  startedUnix := times.startedUnix
  finishedUnix := times.finishedUnix
  computeSec := times.computeSec
  claimedBytesRead := (inputDigests.map ArtifactDigest.sizeBytes).sum
  claimedBytesWritten := (outputDigests.map ArtifactDigest.sizeBytes).sum

def digestInput (ref : ArtifactRef) : EStateM PyErr (JobExecutor σ τ) ArtifactDigest := do
  let body ← onStore (S.get ref.uri (grants ref.uri))
  lift (digestBody W.platform ref.name ref.uri body ref.crypto)

def putOutput (sealed : SealedOutput β) : EStateM PyErr (JobExecutor σ τ) PUnit :=
  onStore (S.put sealed.uri sealed.body (grants sealed.uri))

def cacheOutputs (outputs : SortedDict String τ) (refs : List ArtifactRef) :
    EStateM PyErr (JobExecutor σ τ) PUnit :=
  refs.forM fun ref =>
    match outputs.find? ref.name with
    | none => lift (.error (.keyError ref.name))
    | some value => cacheOutput W cfg ref.uri value

def execute (miner : Miner β) (times : ExecutionTimes) (manifest : JobManifestV3) :
    EStateM PyErr (JobExecutor σ τ) JobReceiptV3 := do
  let graph ← fetchGraph W S manifest.graphRef.sha256 manifest.graphRef.uri
  let inputs ← decodeInputs W S cfg grants manifest.inputs
  let e ← get
  let computed ← lift ((evaluate W.torch graph inputs manifest.params).run (S.bucket e.store).get)
  let outputs := applyFaults W manifest computed miner.worker.workerId miner.faultMode
    miner.faultRate
  let sealed ← lift (manifest.outputs.mapM (sealOutput W cfg (miner.artifactSigner W) outputs))
  sealed.forM (putOutput S grants)
  cacheOutputs W cfg outputs manifest.outputs
  let inputDigests ← manifest.inputs.mapM (digestInput W S grants)
  return (receiptOf W miner times manifest inputDigests (sealed.map SealedOutput.digest)).sign
    W.platform (.signer (miner.artifactSigner W))

end Executor

end JobExecution

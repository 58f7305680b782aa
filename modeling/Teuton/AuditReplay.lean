import Teuton.ArtifactCrypto
import Teuton.GraphEval

/-! The audit replay of a receipt: signature and hash checks, replay of the manifest's graph on
its inputs, comparison of the outputs. The audit keeps a comparison record as it goes, which
stays in the result when a later step raises; whatever raises becomes a status of the result. -/
namespace AuditReplay

open PyJson PyText Signatures ObjectStore GraphIr Protocol ArtifactCrypto GraphEval

variable {β τ α γ : Type}

structure AuditReplayConfig where
  ownerSecret : String := "owner-dev-secret"
  ownerHotkey : String := ""
  minerSecret : String := "miner-dev-secret"
  encryptionSecret : String := "teuton-dev-encryption"

structure Libraries (β τ : Type) where
  platform : Platform β
  torch : Torch β τ
  timelock : TimelockProvider β

/-- Clock readings of one audit: seconds spent on the replay, and when it was over. -/
structure Times where
  replaySec : PyFloat
  checkedUnix : PyFloat

structure Comparison where
  receiptUri : String
  inputs : Fields := []
  outputs : Fields := []
  notes : Fields := []

def Comparison.toFields (c : Comparison) : Fields :=
  mkFields ([("receipt_uri", .str c.receiptUri), ("inputs", .obj c.inputs),
    ("outputs", .obj c.outputs)] ++ c.notes)

def Comparison.noteInput (c : Comparison) (name : String) (entry : Json) : Comparison :=
  { c with inputs := SortedDict.insertEntry (name, entry) c.inputs }

def Comparison.noteOutput (c : Comparison) (name : String) (entry : Json) : Comparison :=
  { c with outputs := SortedDict.insertEntry (name, entry) c.outputs }

def Comparison.note (c : Comparison) (key : String) (entry : Json) : Comparison :=
  { c with notes := c.notes ++ [(key, entry)] }

/-- Text `str(e)` of an error. The wording of errors the interpreter raises itself is not
represented. -/
def errorText : PyErr → String
  | .keyError key => quoted key
  | .valueError message => message
  | .runtimeError message => message
  | .fileNotFoundError uri => uri
  | .preconditionFailed message => message
  | .timelockPending message => message
  | .timeoutError message => message
  | .assertionError message => message
  | _ => ""

/-- A step of the audit: it reads objects, extends the comparison and may raise; the comparison
survives. -/
def Audit (β α : Type) := Comparison → Fetch β (Py α × Comparison)

instance : Monad (Audit β) where
  pure a := fun c => pure (.ok a, c)
  bind x f := fun c => do
    match ← x c with
    | (.ok a, c') => f a c'
    | (.error e, c') => pure (.error e, c')

instance : MonadLift (Fetch β) (Audit β) where
  monadLift x := fun c => do return (← x.attempt, c)

def extend (f : Comparison → Comparison) : Audit β Unit := fun c => pure (.ok (), f c)

def raise (e : PyErr) : Audit β α := fun c => pure (.error e, c)

theorem run_liftM (x : Fetch β α) (s : String → Py β) (c : Comparison) :
    ((liftM x : Audit β α) c).run s = .ok (x.run s, c) := by
  change (x.attempt >>= fun r => pure (r, c)).run s = _
  rw [ReadProgram.run_bind, ReadProgram.run_attempt]
  rfl

theorem run_bind (x : Audit β α) (f : α → Audit β γ) (s : String → Py β) (c : Comparison) :
    ((x >>= f) c).run s = (x c).run s >>= fun out =>
      match out with
      | (.ok a, c₁) => (f a c₁).run s
      | (.error e, c₁) => .ok (.error e, c₁) := by
  change (x c >>= fun out => (match out with
    | (.ok a, c₁) => f a c₁
    | (.error e, c₁) => pure (.error e, c₁) : Fetch β (Py γ × Comparison))).run s = _
  rw [ReadProgram.run_bind]
  congr
  funext out
  obtain ⟨r, c₁⟩ := out
  cases r <;> rfl

section Checks

variable (p : Platform β) (cfg : AuditReplayConfig)

def verifyManifestSignature (manifest : JobManifestV3) : Py Bool :=
  if cfg.ownerSecret = "skip" then .ok true
  else
    let signature := strOr manifest.ownerSignature ""
    if signature = "" then .ok false
    else if cfg.ownerHotkey ≠ "" then
      verifyIdentityDict p manifest.unsignedDict cfg.ownerHotkey signature
    else verifyDict p manifest.unsignedDict cfg.ownerSecret signature

def minerSigningSecret (receipt : JobReceiptV3) : String :=
  if cfg.minerSecret = "hotkey" then receipt.worker.hotkeySs58 else cfg.minerSecret

def verifyReceiptSignature (receipt : JobReceiptV3) : Py Bool := do
  let signature := strOr receipt.minerSignature ""
  if signature = "" then return false
  if ← verifyIdentityDict p receipt.unsignedDict receipt.worker.hotkeySs58 signature then
    return true
  verifyDict p receipt.unsignedDict (minerSigningSecret cfg receipt) signature

variable {p cfg}

theorem verifyManifestSignature_sign (hp : p.Lawful) (hhotkey : cfg.ownerHotkey = "")
    (manifest : JobManifestV3) :
    verifyManifestSignature p cfg (manifest.sign p (.secret cfg.ownerSecret)) = .ok true := by
  have hne : signDict p manifest.unsignedDict cfg.ownerSecret ≠ "" := signPayload_ne_empty hp _ _
  have hsignature : strOr (manifest.sign p (.secret cfg.ownerSecret)).ownerSignature "" =
      signDict p manifest.unsignedDict cfg.ownerSecret := by
    simp [JobManifestV3.sign, recordSignature, strOr, hne]
  unfold verifyManifestSignature
  simp only [hsignature, hne, hhotkey, ne_eq, not_true_eq_false, if_false]
  split_ifs
  · rfl
  · exact verifyPayload_signPayload p _ _

theorem verifyReceiptSignature_signed (hp : p.Lawful) {receipt : JobReceiptV3} {secret : String}
    (hsigned : receipt.minerSignature =
      some (signPayload p (canonicalJson p receipt.unsignedDict) secret))
    (hsecret : secret = receipt.worker.hotkeySs58 ∨ secret = minerSigningSecret cfg receipt) :
    verifyReceiptSignature p cfg receipt = .ok true := by
  have hne := signPayload_ne_empty hp (canonicalJson p receipt.unsignedDict) secret
  have hask : ∀ other, verifyDict p receipt.unsignedDict other
      (signPayload p (canonicalJson p receipt.unsignedDict) secret) =
      .ok (signDict p receipt.unsignedDict other == signDict p receipt.unsignedDict secret) := by
    intro other
    simp [verifyDict, compareDigest, signDict, signPayload, isAscii_hexEncode]
  have hidentity : verifyIdentityDict p receipt.unsignedDict receipt.worker.hotkeySs58
      (signPayload p (canonicalJson p receipt.unsignedDict) secret) = verifyDict p
        receipt.unsignedDict receipt.worker.hotkeySs58
        (signPayload p (canonicalJson p receipt.unsignedDict) secret) := by
    rw [verifyIdentityDict, verifyIdentityPayload, not_verifyHotkeyPayload_signPayload hp]
    rfl
  simp only [verifyReceiptSignature, hsigned, strOr, hne, if_false, hidentity, hask, ok_bind]
  rcases hsecret with rfl | rfl
  · simp
  · split_ifs
    · rfl
    · simp

end Checks

def cryptoModeOf (ref : ArtifactRef) : String :=
  match ref.crypto with
  | some policy => policy.mode
  | none => "none"

section Replay

variable (L : Libraries β τ) (cfg : AuditReplayConfig)

def joinShards (shards : List τ) (d : ℤ) : Py τ :=
  if shards.isEmpty then .error (.valueError "cannot join empty shard list")
  else L.torch.cat shards d

/-- What is read of a shard in the manifest of a sharded tensor. The manifest is stored by the
miner, and what stands in it is used as it is found. -/
structure StoredShard where
  rank : ℤ
  uri : Json
  sha256 : Json

def StoredShard.read (d : Json) : Py StoredShard := do
  let rank ← (← d.getItem "rank").toInt
  let uri ← d.getItem "uri"
  let _ ← (← d.get "offset" (.int 0)).toInt
  let _ ← optToInt (← d.get "length")
  let sha256 ← d.get "sha256"
  let _ ← optToInt (← d.get "size_bytes")
  return ⟨rank, uri, sha256⟩

structure StoredSharding where
  shape : List ℤ
  partitionDim : ℤ
  shards : List StoredShard

/-- The function `ShardedTensorManifest.from_dict`; name, dtype and layout are required or
defaulted and not looked at. -/
def StoredSharding.read (d : Json) : Py StoredSharding := do
  let _ ← d.getItem "name"
  let shape ← (← (← d.get "shape" (.arr [])).toList).mapM Json.toInt
  let _ ← d.getItem "dtype"
  let partitionDim ← (← d.get "partition_dim" (.int 0)).toInt
  let _ ← (← d.getItem "world_size").toInt
  let shards ← (← (← d.get "shards" (.arr [])).toList).mapM StoredShard.read
  return ⟨shape, partitionDim, shards⟩

def StoredShard.hasDigest (shard : StoredShard) (sha : String) : Bool :=
  match shard.sha256 with
  | .null => true
  | digest => digest.eqStr sha

def loadShard (shard : StoredShard) : Fetch β τ := do
  let uri ← shard.uri.asStr
  let body ← ReadProgram.ask uri
  if shard.hasDigest (sha256Hex L.platform body) then L.torch.decodeTensor body
  else ReadProgram.done (.error (.valueError ("shard digest mismatch for " ++ uri)))

def getShardedTensor (manifestUri : String) : Fetch β τ := do
  let manifest ← StoredSharding.read (← fetchJson L.platform manifestUri)
  let shards ← (manifest.shards.insertionSort fun a b => a.rank ≤ b.rank).mapM (loadShard L)
  let out ← joinShards L shards manifest.partitionDim
  if L.torch.shape out ≠ manifest.shape then
    ReadProgram.done (.error (.valueError ("joined sharded tensor shape " ++
      reprInts (L.torch.shape out) ++ " != manifest shape " ++ reprInts manifest.shape)))
  else return out

def openArtifact (body : β) (ref : ArtifactRef) : Py β :=
  decodeEnvelope L.platform L.timelock (some (identityVerify L.platform)) cfg.encryptionSecret
    body ref.crypto

def digestNamed (digests : List ArtifactDigest) (name : String) : Option ArtifactDigest :=
  digests.reverse.find? fun d => d.name = name

def digestMatches (d : ArtifactDigest) (sha : String) : Bool :=
  d.sha256 = sha || d.envelopeSha256 = some sha

def inputEntry (digest : Option ArtifactDigest) (sha : String) (size : ℕ) (ref : ArtifactRef) :
    Json :=
  mkObj
    [("sha256", .str sha),
     ("size_bytes", .int size),
     ("matches_receipt", .bool (digest.all (digestMatches · sha))),
     ("crypto_mode", .str (cryptoModeOf ref))]

def loadInput (digests : List ArtifactDigest) (ref : ArtifactRef) : Audit β τ := do
  let body ← (ReadProgram.ask ref.uri : Fetch β β)
  let sha := sha256Hex L.platform body
  let digest := digestNamed digests ref.name
  extend (Comparison.noteInput · ref.name
    (inputEntry digest sha (L.platform.toBytes body).length ref))
  if digest.all (digestMatches · sha) then
    if (digest.bind ArtifactDigest.sharded).isSome then
      (getShardedTensor L ref.uri : Fetch β τ)
    else
      let plain ← (ReadProgram.done (openArtifact L cfg body ref) : Fetch β β)
      (ReadProgram.done (L.torch.decodeTensor plain) : Fetch β τ)
  else raise (.valueError ("input changed: " ++ ref.name))

def loadInputs (digests : List ArtifactDigest) :
    List ArtifactRef → SortedDict String τ → Audit β (SortedDict String τ)
  | [], inputs => pure inputs
  | ref :: refs, inputs => do
    let t ← loadInput L cfg digests ref
    loadInputs digests refs (inputs.insert ref.name t)

def containsKey (key : String) : Json → Py Bool
  | .obj fields => .ok (field? key fields).isSome
  | .arr items => .ok (items.any fun j => match j with
    | .str s => s = key
    | _ => false)
  | .str s => .ok (s.toList.tails.any (key.toList.isPrefixOf ·))
  | _ => .error .typeError

/-- An output stored as JSON: the manifest of a sharded tensor, or an object with the value. -/
def observedJson (uri : String) (observed : Json) : Fetch β τ := do
  let isSharded ← if ← containsKey "shards" observed then containsKey "world_size" observed
    else pure false
  if isSharded then getShardedTensor L uri
  else L.torch.asTensor (← observed.get "value")

/-- The stored output of the miner: sharded, a JSON value, or an encoded tensor. -/
def observedOutput (ref : ArtifactRef) (digest : Option ArtifactDigest) : Fetch β τ := do
  if (digest.bind ArtifactDigest.sharded).isSome then getShardedTensor L ref.uri
  else
    let body ← openArtifact L cfg (← ReadProgram.ask ref.uri) ref
    if endsWith ref.uri ".json" then observedJson L ref.uri (← L.platform.loads body)
    else L.torch.decodeTensor body

structure OutputComparison where
  ok : Bool
  entry : Fields

def failedOutput (reason : String) : OutputComparison :=
  ⟨false, [("reason", .str reason), ("status", .str "fail")]⟩

/-- Compare two tensors of one shape under the policy, on all elements or on a sample. -/
def compareTensors (policy : VerificationPolicy) (observed expected : τ) :
    Py (Bool × String × PyFloat × ℕ × ℕ) := do
  let T := L.torch
  let obs := T.flatten observed
  let exp := T.flatten expected
  let total := T.numel obs
  let sampled := 0 < policy.maxSampleElements ∧ policy.maxSampleElements < total
  let idx := T.sampleIndices policy.sampleSeed total policy.maxSampleElements.toNat
  let obs ← if sampled then T.indexSelect obs idx else pure obs
  let exp ← if sampled then T.indexSelect exp idx else pure exp
  let comparator := if policy.comparator = "auto" then
      (if T.isFloatingPoint expected then "allclose" else "exact")
    else policy.comparator
  if comparator = "exact" then
    let ok ← T.equal obs exp
    let maxAbs ← if ok then pure (.finite 0) else T.maxAbsDiff obs exp
    return (ok, comparator, maxAbs, T.numel obs, total)
  else
    let ok ← T.allclose obs exp policy.rtol policy.atol
    let maxAbs ← if T.numel obs = 0 then pure (.finite 0) else T.maxAbsDiff obs exp
    return (ok, comparator, maxAbs, T.numel obs, total)

def compareOutput (ref : ArtifactRef) (expectedValue : Option τ) (manifest : JobManifestV3)
    (receipt : JobReceiptV3) : Fetch β OutputComparison := do
  match expectedValue with
  | none => return failedOutput "missing replay output"
  | some expected =>
    let digest := receipt.outputDigests.find? fun d => d.name = ref.name ∧ d.uri = ref.uri
    let observed ← observedOutput L cfg ref digest
    if L.torch.shape observed ≠ L.torch.shape expected then return failedOutput "shape mismatch"
    let (ok, comparator, maxAbs, checked, total) ←
      compareTensors L manifest.verificationPolicy observed expected
    return ⟨ok, mkFields
      [("status", .str (if ok then "pass" else "fail")),
       ("reason", .str (if ok then "matched" else "tensor mismatch")),
       ("comparator", .str comparator),
       ("checked_elements", .int checked),
       ("total_elements", .int total),
       ("max_abs_error", .float maxAbs),
       ("crypto_mode", .str (cryptoModeOf ref)),
       ("sharded", ((digest.bind ArtifactDigest.sharded).map
         ShardedTensorManifest.toDict).getD .null)]⟩

/-- Compare the outputs in order; the reasons of those that differ are collected. -/
def compareOutputs (outputs : SortedDict String τ) (manifest : JobManifestV3)
    (receipt : JobReceiptV3) : List ArtifactRef → Audit β (List String)
  | [] => pure []
  | ref :: refs => do
    let cmp ← (compareOutput L cfg ref (outputs.find? ref.name) manifest receipt :
      Fetch β OutputComparison)
    extend (Comparison.noteOutput · ref.name (.obj cmp.entry))
    let reasons ← compareOutputs outputs manifest receipt refs
    return if cmp.ok then reasons
      else (ref.name ++ ": " ++ text ((field? "reason" cmp.entry).getD .null)) :: reasons

def isTensorParallel (manifest : JobManifestV3) : Bool :=
  match ((field? "distributed_runner" manifest.params).getD .null).orElse
      ((field? "runner" manifest.params).getD .null) with
  | .str s => s = "gpt_tensor_parallel_v1"
  | _ => false

def replay (graph : Graph) (inputs : SortedDict String τ) (manifest : JobManifestV3)
    (receipt : JobReceiptV3) : Audit β (SortedDict String τ) := do
  if isTensorParallel manifest then
    let outputs ← (ReadProgram.done (L.torch.tensorParallel inputs manifest.params) :
      Fetch β (SortedDict String τ))
    extend (Comparison.note · "distributed_replay" (mkObj
      [("mode", .str "single_rank_functional"),
       ("receipt_world_size", (field? "world_size" receipt.execution).getD .null),
       ("sharding_plan_hash", (field? "sharding_plan_hash" receipt.execution).getD .null)]))
    return outputs
  else (evaluate L.torch graph inputs manifest.params : Fetch β (SortedDict String τ))

structure Outcome where
  status : String
  reason : String
  replaySec : PyFloat

/-- The body of the `try` statement. -/
def checkReceipt (times : Times) (manifest : JobManifestV3) (receipt : JobReceiptV3) :
    Audit β Outcome := do
  let p := L.platform
  if !(← (ReadProgram.done (verifyManifestSignature p cfg manifest) : Fetch β Bool)) then
    return ⟨"fail", "bad owner signature", .finite 0⟩
  else if !(← (ReadProgram.done (verifyReceiptSignature p cfg receipt) : Fetch β Bool)) then
    return ⟨"fail", "bad miner signature", .finite 0⟩
  else if manifest.manifestHash p ≠ receipt.manifestHash then
    return ⟨"fail", "manifest hash mismatch", .finite 0⟩
  else
    let graph ← (fetchGraph p manifest.graphRef.sha256 manifest.graphRef.uri
      "graph hash mismatch" : Fetch β Graph)
    let inputs ← loadInputs L cfg receipt.inputDigests manifest.inputs .empty
    let outputs ← replay L graph inputs manifest receipt
    let reasons ← compareOutputs L cfg outputs manifest receipt manifest.outputs
    if reasons.isEmpty then return ⟨"pass", "all outputs matched", times.replaySec⟩
    else return ⟨"fail", "; ".intercalate (reasons.take 4), times.replaySec⟩

/-- The `except` clauses: what an error makes of the audit. -/
def outcomeOf : Py Outcome → Comparison → Outcome × Comparison
  | .ok outcome, c => (outcome, c)
  | .error (.timelockPending message), c =>
    (⟨"inconclusive", message, .finite 0⟩, c.note "crypto_pending" (.str message))
  | .error (.valueError message), c =>
    (⟨"fail", message, .finite 0⟩, c.note "verification_error" (.str message))
  | .error e, c => (⟨"inconclusive", errorText e, .finite 0⟩, c.note "error" (.str (errorText e)))

def result (receipt : JobReceiptV3) (auditorHotkey : String) (outcome : Outcome) (c : Comparison)
    (times : Times) : AuditResultV3 where
  auditId := auditorHotkey ++ ":" ++ receipt.receiptId
  receiptId := receipt.receiptId
  manifestHash := receipt.manifestHash
  jobId := receipt.jobId
  runId := receipt.runId
  minerHotkey := receipt.worker.hotkeySs58
  auditorHotkey := auditorHotkey
  status := outcome.status
  reason := outcome.reason
  replayComputeSec := outcome.replaySec
  checkedUnix := times.checkedUnix
  comparison := c.toFields

def run (times : Times) (receiptUri : String) (manifest : JobManifestV3) (receipt : JobReceiptV3)
    (auditorHotkey : String) : Fetch β AuditResultV3 := do
  let (outcome, c) ← checkReceipt L cfg times manifest receipt { receiptUri := receiptUri }
  let (outcome, c) := outcomeOf outcome c
  return result receipt auditorHotkey outcome c times

end Replay

end AuditReplay

import Teuton.AuditJobs
import Teuton.IdentityChecks

/-! The worker process of a miner. A tick reads the queue, takes the newest entry that names this
worker and passes the checks, runs its job and writes the receipt. Queue entries are not signed:
everything is checked again on the manifest they point to. The jobs that are done are remembered
in memory and in a file that survives the process. -/
namespace MinerWorker

open PyJson PyText Signatures ObjectStore BucketPaths Protocol AssignmentGrants Effects
open OrchestratorQueue IdentityChecks
open AuditJobs (Halt)

variable {β ε : Type}

structure WorkerConfig where
  netuid : ℤ
  runId : String
  hotkeySs58 : String
  workerId : String
  device : String := "cpu"
  deviceGroup : List String := []
  heartbeatInterval : ℚ := 1
  grantMode : String := "direct"
  maxIdleIters : Option ℕ := none
  auditEligibleHotkeys : List String := []
  ownerSecret : String := "owner-dev-secret"
  ownerHotkey : String := ""

def WorkerConfig.devices (cfg : WorkerConfig) : List String :=
  if cfg.deviceGroup.isEmpty then [cfg.device] else cfg.deviceGroup

def WorkerConfig.owner (cfg : WorkerConfig) : MinerWorkerConfig where
  ownerSecret := cfg.ownerSecret
  ownerHotkey := cfg.ownerHotkey

abbrev Grants := SortedDict String PresignedUrlGrant

def grantsByUri (grant : AssignmentGrantV3) : Grants :=
  .ofEntries ((grant.inputGets ++ grant.outputPuts ++ grant.receiptPut.toList).map
    fun item => (item.canonicalUri, item))

/-- What the process is built from: its identity, the executor with the state `ε` it keeps, the
transport, the decryption of grants, the audit replay, and the text of an exception. -/
structure Services (β ε : Type) where
  platform : Platform β
  identity : WorkerIdentity
  newExecutor : ε
  execute : JobManifestV3 → Option Grants → EStateM Halt (Bucket β × ε) JobReceiptV3
  put : String → β → Option PresignedUrlGrant → Bucket β → Py (Bucket β)
  decrypt : Json → String → Py AssignmentGrantV3
  auditReplay : JobManifestV3 → Option Grants → Bucket β → Py AuditResultV3
  describe : PyErr → String

inductive Role where
  | train
  | audit
  deriving DecidableEq

/-- The points before an upload or an update of the memory, where the process may stop. -/
inductive Point where
  | receipt (jobId : String)
  | remember (jobId : String)
  deriving DecidableEq

/-- What a tick meets: the clock, the two queue objects, where the process stops, and whether the
file of completed jobs can be written. -/
structure Surroundings (β : Type) where
  heartbeatUnix : ℚ
  trainQueue : CasCell β
  auditQueue : CasCell β
  grantUnix : String → ℤ
  skipUnix : String → ℤ
  stops : Point → Bool := fun _ => false
  writable : Bool := true

inductive LogEntry where
  | executed (entry : QueueEntry) (manifest : JobManifestV3) (grant : Option AssignmentGrantV3)
  | wrote (jobId : String)

/-- The bucket, the file, and the fields of the process. The log is a history variable: no step
reads it. -/
structure Station (β ε : Type) where
  bucket : Bucket β
  cacheFile : String := ""
  completedJobs : List String := []
  trainQueueEtag : Option String := none
  trainQueue : Option QueueState := none
  auditQueueEtag : Option String := none
  auditQueue : Option QueueState := none
  lastHeartbeat : ℚ := 0
  idleIters : ℕ := 0
  stopEvent : Bool := false
  executor : ε
  log : List LogEntry := []

abbrev Program (β ε α : Type) := EStateM Halt (Station β ε) α

section CompletedCache

/-- The characters at which `splitlines` cuts. -/
def isLineBreak (c : Char) : Bool :=
  c.toNat ∈ [10, 11, 12, 13, 28, 29, 30, 133, 8232, 8233]

def loadCompletedCache (text : String) : List String :=
  (((text.toList.splitOnP isLineBreak).map strip).filter (!·.isEmpty)).map String.ofList

def appendCompletedCache (text jobId : String) : String := text ++ jobId ++ "\n"

end CompletedCache

section Checks

variable (S : Services β ε) (cfg : WorkerConfig)

def eligible (manifest : JobManifestV3) : Bool :=
  let req := manifest.resourceRequirements
  if manifest.assignedHotkey ≠ cfg.hotkeySs58 then false
  else if req.minGpus > 1 ∧ (cfg.devices.length : ℤ) < req.minGpus then false
  else if req.placement = "single_host" ∧ (cfg.devices.length : ℤ) < req.minGpus then false
  else manifest.assignedWorker = none ∨ manifest.assignedWorker = some cfg.workerId

def validateAssignmentGrant (now : ℤ) (manifest : JobManifestV3) (grant : AssignmentGrantV3) :
    Py Unit := do
  if grant.jobId ≠ manifest.jobId ∨ grant.runId ≠ manifest.runId then
    .error (.valueError "assignment grant job mismatch")
  if grant.assignedHotkey ≠ cfg.hotkeySs58 then
    .error (.valueError "assignment grant hotkey mismatch")
  if grant.expiresUnix < now then .error (.valueError "assignment grant expired")
  if ¬ ∀ ref ∈ manifest.outputs, ref.uri ∈ grant.outputPuts.map PresignedUrlGrant.canonicalUri then
    .error (.valueError "assignment grant output URI mismatch")
  if grant.receiptPut.isNone then .error (.valueError "assignment grant missing receipt PUT")

def openGrant (b : Bucket β) (uri missing : String) : Py AssignmentGrantV3 := do
  if ← b.exists uri then S.decrypt (← b.getJson S.platform uri) cfg.hotkeySs58
  else .error (.fileNotFoundError missing)

def loadAssignmentGrant (now : ℤ) (b : Bucket β) (manifest : JobManifestV3) :
    Py AssignmentGrantV3 := do
  let grant ← openGrant S cfg b
    (b.uriForKey (assignmentKey cfg.netuid cfg.runId manifest.jobId cfg.hotkeySs58))
    ("missing assignment grant for " ++ manifest.jobId)
  validateAssignmentGrant cfg now manifest grant
  return grant

def loadAuditAssignmentGrant (now : ℤ) (b : Bucket β) (manifest : JobManifestV3) :
    Py AssignmentGrantV3 := do
  let grant ← openGrant S cfg b
    (b.uriForKey (auditAssignmentKey cfg.netuid cfg.runId manifest.jobId cfg.hotkeySs58))
    ("missing audit assignment grant for " ++ manifest.jobId)
  if grant.jobId ≠ manifest.jobId ∨ grant.runId ≠ manifest.runId then
    .error (.valueError "audit assignment grant job mismatch")
  if grant.assignedHotkey ≠ cfg.hotkeySs58 then
    .error (.valueError "audit assignment grant hotkey mismatch")
  if grant.expiresUnix < now then .error (.valueError "audit assignment grant expired")
  return grant

def loadGrant (role : Role) (now : ℤ) (b : Bucket β) (manifest : JobManifestV3) :
    Py (Option AssignmentGrantV3) :=
  if cfg.grantMode = "direct" then .ok none
  else
    match role with
    | .audit => some <$> loadAuditAssignmentGrant S cfg now b manifest
    | .train => some <$> loadAssignmentGrant S cfg now b manifest

def allExist (b : Bucket β) : List ArtifactRef → Py Bool
  | [] => .ok true
  | ref :: refs => do if ← b.exists ref.uri then allExist b refs else return false

/-- What `_execute_queue_entry` comes to before it runs anything. -/
inductive Decision where
  | skip (jobId reason : String)
  | done (jobId : String)
  | run (manifest : JobManifestV3) (grant : Option AssignmentGrantV3)

def screenManifest (role : Role) (now : String → ℤ) (b : Bucket β) (manifest : JobManifestV3) :
    Py Decision := do
  let skip (reason : String) : Py Decision := .ok (.skip manifest.jobId reason)
  if !eligible cfg manifest then skip "not_eligible"
  else if !(← MinerWorker.verifyManifestSignature S.platform cfg.owner manifest) then
    skip "bad_owner_signature"
  else if ← (if cfg.grantMode = "direct" then allExist b manifest.outputs else .ok false) then
    return .done manifest.jobId
  else if !(← (if cfg.grantMode = "direct" then allExist b manifest.inputs else .ok true)) then
    skip "missing_input_artifacts"
  else if !(← (if manifest.graphRef.uri ≠ "" then b.exists manifest.graphRef.uri else .ok true)) then
    skip "missing_graph_artifact"
  else
    match loadGrant S cfg role (now manifest.jobId) b manifest with
    | .error (.fileNotFoundError _) => skip "missing_assignment_grant"
    | .error (.valueError message) => skip ("bad_assignment_grant: " ++ message)
    | .error e => skip ("grant_load_err: " ++ S.describe e)
    | .ok grant => return .run manifest grant

def screen (role : Role) (now : String → ℤ) (b : Bucket β) (entry : QueueEntry) : Py Decision :=
  match b.getJson S.platform entry.manifestUri with
  | .error (.fileNotFoundError _) => .ok (.skip entry.jobId "missing_manifest")
  | .error e => .ok (.skip entry.jobId ("manifest_load_err: " ++ S.describe e))
  | .ok payload =>
    match JobManifestV3.fromDict payload with
    | .error e => .ok (.skip entry.jobId ("manifest_parse_err: " ++ S.describe e))
    | .ok manifest => screenManifest S cfg role now b manifest

end Checks

section Process

variable (S : Services β ε) (cfg : WorkerConfig) (around : Surroundings β)

def onBucket (f : Bucket β → Py (Bucket β)) : Program β ε PUnit :=
  update fun s =>
    match f s.bucket with
    | .ok b => .ok (⟨⟩, { s with bucket := b })
    | .error e => .error (.raised e)

def reach (point : Point) : Program β ε PUnit :=
  if around.stops point then throw .stopped else pure ⟨⟩

def record (entry : LogEntry) : Program β ε PUnit :=
  modify fun s => { s with log := s.log ++ [entry] }

def heartbeatBody (now : ℚ) : Json :=
  mkObj
    [("miner", mkObj
      [("netuid", .int cfg.netuid), ("hotkey_ss58", .str cfg.hotkeySs58), ("uid", .null),
       ("endpoint", .null), ("commitment_hash", .null),
       ("capabilities", .obj S.identity.capabilities)]),
     ("worker", S.identity.toDict), ("run_id", .str cfg.runId), ("role", .str "train"),
     ("last_seen_unix", .int ⌊now⌋)]

def heartbeatUri (bucket : String) : String :=
  joinUri bucket (minersPrefix cfg.netuid ++ S.identity.hotkeySs58 ++ "/workers/" ++
    S.identity.workerId ++ "/heartbeat.json")

def heartbeat (force : Bool) : Program β ε PUnit := do
  let now := around.heartbeatUnix
  if force || !decide (now - (← get).lastHeartbeat < cfg.heartbeatInterval) then
    modify fun s => { s with lastHeartbeat := now }
    onBucket fun b => b.putJson S.platform (heartbeatUri S cfg b.name) (heartbeatBody S cfg now)

def skipUri (bucket jobId : String) : String :=
  joinUri bucket (jobsPrefix cfg.netuid cfg.runId ++ jobId ++ "/skip-" ++ cfg.hotkeySs58 ++ "-" ++
    cfg.workerId ++ ".json")

def markSkipped (jobId reason : String) : Program β ε PUnit :=
  modify fun s =>
    match s.bucket.putJson S.platform (skipUri cfg s.bucket.name jobId) (mkObj
      [("job_id", .str jobId), ("hotkey", .str cfg.hotkeySs58), ("worker_id", .str cfg.workerId),
       ("reason", .str reason), ("skip_unix", .int (around.skipUnix jobId))]) with
    | .ok b => { s with bucket := b }
    | .error _ => s

def remember (jobId : String) : Program β ε PUnit :=
  modify fun s =>
    { s with
      completedJobs := jobId :: s.completedJobs
      cacheFile := if around.writable then appendCompletedCache s.cacheFile jobId else s.cacheFile }

/-- The exceptions that a failed execution may raise without ending the tick. -/
def isSoft : PyErr → Bool
  | .fileNotFoundError _ => true
  | .valueError _ => true
  | _ => false

def callExecutor (manifest : JobManifestV3) (grant : Option AssignmentGrantV3) :
    Program β ε (Except PyErr JobReceiptV3) := fun s =>
  match S.execute manifest (grant.map grantsByUri) (s.bucket, s.executor) with
  | .ok receipt (b, x) => .ok (.ok receipt) { s with bucket := b, executor := x }
  | .error (.raised e) (b, x) =>
    if isSoft e then .ok (.error e) { s with bucket := b, executor := x }
    else .error (.raised e) { s with bucket := b, executor := x }
  | .error .stopped (b, x) => .error .stopped { s with bucket := b, executor := x }

def receiptUri (bucket : String) (manifest : JobManifestV3) : String :=
  joinUri bucket (receiptKey cfg.netuid cfg.runId cfg.hotkeySs58 manifest.jobId manifest.attempt)

def putReceipt (manifest : JobManifestV3) (grant : Option AssignmentGrantV3)
    (receipt : JobReceiptV3) (b : Bucket β) : Py (Bucket β) :=
  match grant.bind AssignmentGrantV3.receiptPut with
  | some receiptPut =>
    S.put (receiptUri cfg b.name manifest) (S.platform.dumps receipt.toDict) (some receiptPut) b
  | none => b.putJson S.platform (receiptUri cfg b.name manifest) receipt.toDict

def executeJob (entry : QueueEntry) (manifest : JobManifestV3) (grant : Option AssignmentGrantV3) :
    Program β ε Bool := do
  record (.executed entry manifest grant)
  match ← callExecutor S manifest grant with
  | .error e =>
    markSkipped S cfg around manifest.jobId ("execute_err: " ++ S.describe e)
    return false
  | .ok receipt =>
    reach around (.receipt manifest.jobId)
    onBucket (putReceipt S cfg manifest grant receipt)
    record (.wrote manifest.jobId)
    reach around (.remember manifest.jobId)
    remember around manifest.jobId
    return true

/-- The place that the manifest gives to the result, if there is a grant for it. -/
def resultGrant (manifest : JobManifestV3) (grants : Option Grants) :
    Option (String × PresignedUrlGrant) := do
  let ref ← manifest.outputs.head?
  let grant ← (← grants).find? ref.uri
  return (ref.uri, grant)

def putAuditResult (manifest : JobManifestV3) (grants : Option Grants) (audit : AuditResultV3)
    (b : Bucket β) : Py (Bucket β) :=
  match resultGrant manifest grants with
  | some (uri, grant) => S.put uri (S.platform.dumps audit.toDict) (some grant) b
  | none => do
    let receipt ← JobReceiptV3.fromDict (← (Json.obj manifest.params).getItem "receipt")
    b.putJson S.platform
      (b.uriForKey (auditResultKey cfg.netuid cfg.runId cfg.hotkeySs58 receipt.receiptId))
      audit.toDict

def executeAuditReplay (manifest : JobManifestV3) (grant : Option AssignmentGrantV3) :
    Program β ε Bool := do
  match S.auditReplay manifest (grant.map grantsByUri) (← get).bucket with
  | .error e =>
    markSkipped S cfg around manifest.jobId ("audit_err: " ++ S.describe e)
    return false
  | .ok audit =>
    reach around (.receipt manifest.jobId)
    onBucket (putAuditResult S cfg manifest (grant.map grantsByUri) audit)
    reach around (.remember manifest.jobId)
    remember around manifest.jobId
    return true

def executeQueueEntry (role : Role) (entry : QueueEntry) : Program β ε Bool := do
  match ← lift ((screen S cfg role around.grantUnix (← get).bucket entry).mapError Halt.raised) with
  | .skip jobId reason =>
    markSkipped S cfg around jobId reason
    return false
  | .done jobId =>
    remember around jobId
    return false
  | .run manifest grant =>
    match role with
    | .audit => executeAuditReplay S cfg around manifest grant
    | .train => executeJob S cfg around entry manifest grant

def isAssigned (entry : QueueEntry) : Bool :=
  entry.assignedHotkey = cfg.hotkeySs58 ∧
    (entry.assignedWorker = none ∨ entry.assignedWorker = some "" ∨
      entry.assignedWorker = some cfg.workerId)

def executeEntries (role : Role) : List QueueEntry → Program β ε Bool
  | [] => return false
  | entry :: rest => do
    if entry.jobId ∈ (← get).completedJobs then executeEntries role rest
    else if !isAssigned cfg entry then executeEntries role rest
    else if ← executeQueueEntry S cfg around role entry then return true
    else executeEntries role rest

def fetchTrainQueueEntries : Program β ε (List QueueEntry) := fun s =>
  match readQueue S.platform around.trainQueue s.trainQueueEtag with
  | .ok (some state) =>
    .ok state.outstanding { s with trainQueue := some state, trainQueueEtag := state.etag }
  | _ => .ok ((s.trainQueue.map QueueState.outstanding).getD []) s

def tickAuditJobs : Program β ε Bool := do
  let s ← get
  match readQueue S.platform around.auditQueue s.auditQueueEtag with
  | .error _ => return false
  | .ok none =>
    executeEntries S cfg around .audit ((s.auditQueue.map QueueState.outstanding).getD [])
  | .ok (some state) =>
    modify fun s => { s with auditQueue := some state, auditQueueEtag := state.etag }
    executeEntries S cfg around .audit state.outstanding

def isAuditEligible : Bool := cfg.hotkeySs58 ∈ cfg.auditEligibleHotkeys

def auditOtherwise (trained : Bool) : Program β ε Bool :=
  if trained then pure true
  else if isAuditEligible cfg then tickAuditJobs S cfg around
  else pure false

def idle : Program β ε PUnit :=
  modify fun s =>
    { s with
      idleIters := s.idleIters + 1
      stopEvent := s.stopEvent || cfg.maxIdleIters.any (· ≤ s.idleIters + 1) }

def tick : Program β ε Bool := do
  heartbeat S cfg around false
  let entries ← fetchTrainQueueEntries S around
  let trained ← executeEntries S cfg around .train entries.reverse
  let done ← auditOtherwise S cfg around trained
  if done then modify fun s => { s with idleIters := 0 }
  else idle cfg
  return done

def construct (readable : Bool) : Program β ε PUnit := do
  modify fun s =>
    { bucket := s.bucket
      cacheFile := s.cacheFile
      completedJobs := if readable then loadCompletedCache s.cacheFile else []
      executor := S.newExecutor
      log := s.log }
  heartbeat S cfg around true

end Process

end MinerWorker

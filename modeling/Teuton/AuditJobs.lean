import Teuton.AssignmentGrants
import Teuton.Discovery
import Teuton.Effects
import Teuton.QueueWriters
import Teuton.ReplayVerifier

/-! The audit job manager. A pass looks at the sampled receipts that have neither a verdict nor
an audit result and emits an audit job for each one that has no audit manifest yet: it picks an
auditor, stores the signed manifest, stores a grant and puts the job into the audit queue, which
is published once, at the end of the pass. Several managers may exist; the calls of a process
follow each other. Every operation may raise and the process may stop before any of them. -/
namespace AuditJobs

open PyJson PyText Signatures ObjectStore BucketPaths Protocol Scheduler AssignmentGrants
open Discovery Effects OrchestratorQueue QueueWriters ScoreWindows ReplayVerifier

variable {β τ ω : Type}

structure AuditJobConfig (β : Type) where
  netuid : ℤ
  runId : String
  validatorHotkey : String
  ownerSecret : String := "owner-dev-secret"
  ownerSigner : Option (Signer β) := none
  grantBroker : Option GrantBroker := none
  grantTtlSec : ℤ := 600
  sampleRate : ℚ := 1
  discoveryHeartbeatTtlSec : Option ℚ := some 30
  auditEligibleHotkeys : List String := []

inductive Halt where
  | raised (e : PyErr)
  | stopped
  deriving DecidableEq

/-- The points of a call before an operation that may fail; a receipt is named by its URI. -/
inductive Point where
  | reconcile
  | discover
  | list
  | check (receiptUri : String)
  | findManifest (receiptUri : String)
  | pickWorker (receiptUri : String)
  | putManifest (receiptUri : String)
  | grant (receiptUri : String)
  | enqueue (receiptUri : String)
  | flush
  | readForMerge
  | putAgain
  | finishFlush
  deriving DecidableEq

abbrev Faults := Point → Option Halt

/-- Clock readings of a call, and the tag that the bucket gives to a new queue snapshot. -/
structure Readings where
  discover : ℚ
  emit : String → ℤ
  flush : ℤ
  newTag : String

/-- The bucket, the audit queue object with its writers, and for each manager its quota book.
`emitted` is the counter of the pass that is running. -/
structure Office (β ω : Type) where
  bucket : Bucket β
  queues : System β ω Unit
  quotas : ω → QuotaBook
  emitted : ℕ := 0

abbrev Program (β ω α : Type) := EStateM Halt (Office β ω) α

section Manager

variable (H : Host β τ) (cfg : AuditJobConfig β)

def useAllowlist : Bool := !cfg.auditEligibleHotkeys.isEmpty

def verifierConfig : ValidatorConfig β where
  netuid := cfg.netuid
  runId := cfg.runId
  validatorHotkey := cfg.validatorHotkey
  ownerSecret := cfg.ownerSecret
  sampleRate := cfg.sampleRate

def ownerKey : SignerOrSecret β :=
  match cfg.ownerSigner with
  | some signer => .signer signer
  | none => .secret cfg.ownerSecret

def auditJobId (p : Platform β) (receipt : JobReceiptV3) : String :=
  let digest := hexEncode (p.sha256 (p.ofBytes receipt.receiptId.toUTF8.toList))
  "audit-" ++ receipt.jobId ++ "-" ++ String.ofList (digest.toList.take 16)

def manifestUri (bucket jobId : String) : String :=
  joinUri bucket (auditJobManifestKey cfg.netuid cfg.runId jobId)

def uniqueRefs (refs : List ArtifactRef) : List ArtifactRef :=
  refs.foldl (fun out ref => if out.any (·.uri = ref.uri) then out else out ++ [ref]) []

/-- The quota book after the auditors have been discovered: with an allowlist, the miners on it;
without, the workers of the separate auditor plane. -/
def discoverAuditors (now : ℚ) (b : Bucket β) (quota : QuotaBook) : QuotaBook :=
  let role : DiscoveryRole := if useAllowlist cfg then .train else .audit
  let records := Discovery.discoverWorkers H.libraries.platform b cfg.netuid role cfg.runId
    cfg.discoveryHeartbeatTtlSec now
  let eligible := if useAllowlist cfg then
      records.filter fun r => r.worker.hotkeySs58 ∈ cfg.auditEligibleHotkeys
    else records
  quota.updateWorkers (eligible.map DiscoveryRecord.miner) (eligible.map DiscoveryRecord.worker)

def auditManifest (bucket : String) (now : ℤ) (worker : WorkerIdentity) (receiptUri : String)
    (receipt : JobReceiptV3) (target : JobManifestV3) (jobId : String) : JobManifestV3 :=
  let p := H.libraries.platform
  JobManifestV3.sign p
    { jobId := jobId
      runId := cfg.runId
      stepId := target.stepId
      kind := "audit_replay"
      graphRef := { sha256 := target.graphRef.sha256, uri := target.graphRef.uri }
      params := [("receipt", receipt.toDict), ("receipt_uri", .str receiptUri),
        ("target_manifest", target.toDict p)]
      inputs := uniqueRefs (target.inputs ++ target.outputs)
      outputs := [{ name := "audit_result"
                    uri := joinUri bucket
                      (auditResultKey cfg.netuid cfg.runId worker.hotkeySs58 receipt.receiptId) }]
      assignedHotkey := worker.hotkeySs58
      assignedWorker := some worker.workerId
      attempt := 0
      deadlineUnix := now + cfg.grantTtlSec
      createdUnix := now
      verificationPolicy := { critical := false } }
    (ownerKey cfg)

def emitAssignmentGrant (now : ℤ) (manifest : JobManifestV3) (b : Bucket β) :
    Py (Option String × Bucket β) :=
  match cfg.grantBroker with
  | none => .ok (none, b)
  | some broker => do
    let grantUri := b.uriForKey
      (auditAssignmentKey cfg.netuid manifest.runId manifest.jobId manifest.assignedHotkey)
    let b' ← storeGrant H.libraries.platform broker cfg.grantTtlSec now manifest
      ⟨manifest.inputs.map ArtifactRef.uri, .ok (manifest.outputs.map ArtifactRef.uri), none⟩
      grantUri b
    return (some grantUri, b')

/-- The tests of the loop: no verdict, no audit result and no audit manifest yet. -/
def needsAudit (b : Bucket β) (receipt : JobReceiptV3) : Py Bool := do
  if ← hasVerdict (verifierConfig cfg) b receipt then return false
  if (findAuditResult H (verifierConfig cfg) b receipt).isSome then return false
  let found ← b.exists (manifestUri cfg b.name (auditJobId H.libraries.platform receipt))
  return !found

section Calls

variable [DecidableEq ω] (faults : Faults) (w : ω)

def reach (point : Point) : Program β ω PUnit :=
  match faults point with
  | some halt => throw halt
  | none => pure ⟨⟩

def attempt {α : Type} (f : Office β ω → Py (α × Office β ω)) : Program β ω α :=
  update fun s => (f s).mapError Halt.raised

def perform (event : Event ω Unit) : Program β ω PUnit :=
  attempt fun s =>
    match exec H.libraries.platform .audit s.queues event with
    | some queues => .ok (⟨⟩, { s with queues := queues })
    | none => .error (.runtimeError "queue operation refused")

def abandonFlush (s : Office β ω) : Office β ω :=
  { s with queues := s.queues.act w (s.queues.writers w) () none }

def flushStep (point : Point) (event : Event ω Unit) : Program β ω PUnit := fun s =>
  match (reach faults point >>= fun _ => perform H event) s with
  | .ok u t => .ok u t
  | .error e t => .error e (abandonFlush w t)

/-- A forced flush. A snapshot that has been overtaken is merged and put once more. -/
def flush (now : ℤ) (newTag : String) : Program β ω PUnit := do
  perform H (.flushStart () w true now)
  let s ← get
  if Writer.ifMatch (s.queues.writers w).etag = s.queues.cell.currentTag then
    flushStep H faults w .flush (.put () newTag)
  else do
    flushStep H faults w .flush (.putRefused ())
    flushStep H faults w .readForMerge (.readForMerge ())
    perform H (.merge ())
    perform H (.rebuild () now)
    flushStep H faults w .putAgain (.put () newTag)
  flushStep H faults w .finishFlush (.finish ())

def pickWorker (receiptUri : String) : Program β ω WorkerIdentity := do
  reach faults (.pickWorker receiptUri)
  attempt fun s => do
    let (worker, quota) ← (s.quotas w).pickWorker
    return (worker, { s with quotas := Function.update s.quotas w quota })

def emitAuditJob (now : ℤ) (receiptUri : String) (receipt : JobReceiptV3) (target : JobManifestV3)
    (jobId : String) : Program β ω JobManifestV3 := do
  let worker ← pickWorker faults w receiptUri
  let bucket := (← get).bucket.name
  let manifest := auditManifest H cfg bucket now worker receiptUri receipt target jobId
  let uri := manifestUri cfg bucket jobId
  reach faults (.putManifest receiptUri)
  attempt fun s => do
    let b ← s.bucket.putJson H.libraries.platform uri (manifest.toDict H.libraries.platform)
    return (⟨⟩, { s with bucket := b })
  reach faults (.grant receiptUri)
  let grantUri ← attempt fun s => do
    let (grantUri, b) ← emitAssignmentGrant H cfg now manifest s.bucket
    return (grantUri, { s with bucket := b })
  reach faults (.enqueue receiptUri)
  modify fun s =>
    { s with queues := s.queues.mutate w (.add (.fromManifest manifest uri grantUri)) }
  return manifest

def auditReceipt (clock : Readings) (receiptUri : String) (receipt : JobReceiptV3) :
    Program β ω PUnit := do
  reach faults (.check receiptUri)
  let needed ← attempt fun s => do return (← needsAudit H cfg s.bucket receipt, s)
  if needed then
    reach faults (.findManifest receiptUri)
    let target ← attempt fun s => do
      let target ← (findManifest H.libraries.platform s.bucket.name cfg.netuid receipt).run
        s.bucket.get
      return (target, s)
    let _ ← emitAuditJob H cfg faults w (clock.emit receiptUri) receiptUri receipt target
      (auditJobId H.libraries.platform receipt)
    modify fun s => { s with emitted := s.emitted + 1 }

def auditReceipts (clock : Readings) (maxJobs : Option ℤ) :
    List (String × JobReceiptV3) → Program β ω PUnit
  | [] => pure ⟨⟩
  | (receiptUri, receipt) :: rest => do
    if maxJobs.any (· ≤ ((← get).emitted : ℤ)) then pure ⟨⟩
    else do
      auditReceipt H cfg faults w clock receiptUri receipt
      auditReceipts clock maxJobs rest

/-- The `finally` branch: the queue is published if the pass has emitted a job. -/
def publishIfEmitted (clock : Readings) : Program β ω PUnit := do
  if 0 < (← get).emitted then flush H faults w clock.flush clock.newTag

/-- The loop with its `finally` branch, which does not run when the process stops. -/
def emitAndPublish (clock : Readings) (maxJobs : Option ℤ)
    (receipts : List (String × JobReceiptV3)) : Program β ω ℕ := fun s =>
  match auditReceipts H cfg faults w clock maxJobs receipts s with
  | .ok _ t =>
    match publishIfEmitted H faults w clock t with
    | .ok _ u => .ok u.emitted u
    | .error h u => .error h u
  | .error (.raised e) t =>
    match publishIfEmitted H faults w clock t with
    | .ok _ u => .error (.raised e) u
    | .error h u => .error h u
  | .error .stopped t => .error .stopped t

def runOnce (clock : Readings) (maxJobs : Option ℤ := none) : Program β ω ℕ := do
  modify fun s => { s with emitted := 0 }
  reach faults .discover
  modify fun s =>
    let quota := discoverAuditors H cfg clock.discover s.bucket (s.quotas w)
    { s with quotas := Function.update s.quotas w quota }
  reach faults .list
  let receipts := sampleReceipts H (verifierConfig cfg) (← get).bucket
  emitAndPublish H cfg faults w clock maxJobs receipts

/-- The construction of a manager: an empty quota book and the queue as it is published. -/
def construct : Program β ω PUnit := do
  modify fun s =>
    { s with queues := s.queues.restart w, quotas := Function.update s.quotas w {} }
  reach faults .reconcile
  perform H (.readForReconcile () w [])
  perform H (.reconcile ())

end Calls

end Manager

section Inversion

variable {H : Host β τ} {cfg : AuditJobConfig β} {faults : Faults}

theorem reach_eq_ok {point : Point} {s t : Office β ω} {u : PUnit} :
    reach faults point s = .ok u t ↔ faults point = none ∧ s = t := by
  rw [reach]
  cases faults point with
  | none =>
    change EStateM.Result.ok PUnit.unit s = .ok u t ↔ _
    simp
  | some halt =>
    change EStateM.Result.error halt s = .ok u t ↔ _
    simp

theorem reach_eq_error {point : Point} {s t : Office β ω} {h : Halt} :
    reach faults point s = .error h t ↔ faults point = some h ∧ s = t := by
  rw [reach]
  cases faults point with
  | none =>
    change EStateM.Result.ok PUnit.unit s = .error h t ↔ _
    simp
  | some halt =>
    change EStateM.Result.error halt s = .error h t ↔ _
    simp

theorem attempt_eq_ok {α : Type} {f : Office β ω → Py (α × Office β ω)} {s t : Office β ω}
    {a : α} : attempt f s = .ok a t ↔ f s = .ok (a, t) := by
  rw [attempt, update_eq_ok]
  cases f s <;> simp [Except.mapError]

theorem attempt_eq_error {α : Type} {f : Office β ω → Py (α × Office β ω)} {s t : Office β ω}
    {h : Halt} : attempt f s = .error h t ↔ (∃ e, f s = .error e ∧ h = .raised e) ∧ t = s := by
  rw [attempt, update_eq_error]
  cases f s <;> simp [Except.mapError, eq_comm]

variable [DecidableEq ω] {w : ω} {now : ℤ} {receiptUri jobId : String} {receipt : JobReceiptV3}
variable {target m : JobManifestV3} {s t : Office β ω} {halt : Halt}

theorem pickWorker_ok {worker : WorkerIdentity}
    (h : pickWorker faults w receiptUri s = .ok worker t) :
    ∃ quota, (s.quotas w).pickWorker = .ok (worker, quota) ∧
      t = { s with quotas := Function.update s.quotas w quota } := by
  obtain ⟨_, _, hreach, h⟩ := Effects.bind_eq_ok.mp h
  obtain ⟨-, rfl⟩ := reach_eq_ok.mp hreach
  obtain ⟨⟨worker', quota⟩, hpick, hdone⟩ := PyJson.bind_eq_ok.mp (attempt_eq_ok.mp h)
  cases hdone
  exact ⟨quota, hpick, rfl⟩

theorem pickWorker_error (h : pickWorker faults w receiptUri s = .error halt t) : t = s := by
  rcases Effects.bind_eq_error.mp h with hreach | ⟨_, _, hreach, h⟩
  · exact (reach_eq_error.mp hreach).2.symm
  · obtain ⟨-, rfl⟩ := reach_eq_ok.mp hreach
    exact (attempt_eq_error.mp h).2

theorem emitAuditJob_ok
    (h : emitAuditJob H cfg faults w now receiptUri receipt target jobId s = .ok m t) :
    ∃ worker quota grantUri b b', (s.quotas w).pickWorker = .ok (worker, quota) ∧
      m = auditManifest H cfg s.bucket.name now worker receiptUri receipt target jobId ∧
      s.bucket.putJson H.libraries.platform (manifestUri cfg s.bucket.name jobId)
        (m.toDict H.libraries.platform) = .ok b ∧
      emitAssignmentGrant H cfg now m b = .ok (grantUri, b') ∧
      t = { s with
        bucket := b'
        quotas := Function.update s.quotas w quota
        queues := s.queues.mutate w
          (.add (.fromManifest m (manifestUri cfg s.bucket.name jobId) grantUri)) } := by
  obtain ⟨worker, _, hrun, h⟩ := Effects.bind_eq_ok.mp h
  obtain ⟨quota, hpick, rfl⟩ := pickWorker_ok hrun
  obtain ⟨_, _, hget, h⟩ := Effects.bind_eq_ok.mp h
  obtain ⟨rfl, rfl⟩ := get_eq_ok.mp hget
  obtain ⟨_, _, hreach, h⟩ := Effects.bind_eq_ok.mp h
  obtain ⟨-, rfl⟩ := reach_eq_ok.mp hreach
  obtain ⟨_, _, hstore, h⟩ := Effects.bind_eq_ok.mp h
  obtain ⟨b, hput, hdone⟩ := PyJson.bind_eq_ok.mp (attempt_eq_ok.mp hstore)
  cases hdone
  obtain ⟨_, _, hreach, h⟩ := Effects.bind_eq_ok.mp h
  obtain ⟨-, rfl⟩ := reach_eq_ok.mp hreach
  obtain ⟨grantUri, _, hminted, h⟩ := Effects.bind_eq_ok.mp h
  obtain ⟨⟨_, b'⟩, hgrant, hdone⟩ := PyJson.bind_eq_ok.mp (attempt_eq_ok.mp hminted)
  cases hdone
  obtain ⟨_, _, hreach, h⟩ := Effects.bind_eq_ok.mp h
  obtain ⟨-, rfl⟩ := reach_eq_ok.mp hreach
  obtain ⟨_, _, hadd, h⟩ := Effects.bind_eq_ok.mp h
  cases modify_eq_ok.mp hadd
  cases h
  exact ⟨worker, quota, grantUri, b, b', hpick, rfl, hput, hgrant, rfl⟩

theorem auditReceipt_ok {clock : Readings}
    (h : auditReceipt H cfg faults w clock receiptUri receipt s = .ok ⟨⟩ t) :
    needsAudit H cfg s.bucket receipt = .ok false ∧ t = s ∨
    needsAudit H cfg s.bucket receipt = .ok true ∧ ∃ target m u,
      emitAuditJob H cfg faults w (clock.emit receiptUri) receiptUri receipt target
        (auditJobId H.libraries.platform receipt) s = .ok m u ∧
      t = { u with emitted := u.emitted + 1 } := by
  obtain ⟨_, _, hreach, h⟩ := Effects.bind_eq_ok.mp h
  obtain ⟨-, rfl⟩ := reach_eq_ok.mp hreach
  obtain ⟨needed, _, hneeded, h⟩ := Effects.bind_eq_ok.mp h
  obtain ⟨needed', htest, hdone⟩ := PyJson.bind_eq_ok.mp (attempt_eq_ok.mp hneeded)
  cases hdone
  cases needed with
  | false =>
    cases h
    exact Or.inl ⟨htest, rfl⟩
  | true =>
    obtain ⟨_, _, hreach, h⟩ := Effects.bind_eq_ok.mp h
    obtain ⟨-, rfl⟩ := reach_eq_ok.mp hreach
    obtain ⟨target, _, htarget, h⟩ := Effects.bind_eq_ok.mp h
    obtain ⟨_, -, hdone⟩ := PyJson.bind_eq_ok.mp (attempt_eq_ok.mp htarget)
    cases hdone
    obtain ⟨m, u, hemit, h⟩ := Effects.bind_eq_ok.mp h
    exact Or.inr ⟨htest, target, m, u, hemit, Effects.modify_eq_ok.mp h⟩

theorem auditReceipt_error {clock : Readings}
    (h : auditReceipt H cfg faults w clock receiptUri receipt s = .error halt t) :
    t = s ∧ (faults (.check receiptUri) = some halt ∨ faults (.findManifest receiptUri) = some halt ∨
      ∃ e, halt = .raised e) ∨
    ∃ target, emitAuditJob H cfg faults w (clock.emit receiptUri) receiptUri receipt target
      (auditJobId H.libraries.platform receipt) s = .error halt t := by
  rcases Effects.bind_eq_error.mp h with hreach | ⟨_, _, hreach, h⟩
  · obtain ⟨hfault, rfl⟩ := reach_eq_error.mp hreach
    exact Or.inl ⟨rfl, Or.inl hfault⟩
  obtain ⟨-, rfl⟩ := reach_eq_ok.mp hreach
  rcases Effects.bind_eq_error.mp h with hneeded | ⟨needed, _, hneeded, h⟩
  · obtain ⟨⟨e, -, rfl⟩, rfl⟩ := attempt_eq_error.mp hneeded
    exact Or.inl ⟨rfl, Or.inr (Or.inr ⟨e, rfl⟩)⟩
  obtain ⟨needed', -, hdone⟩ := PyJson.bind_eq_ok.mp (attempt_eq_ok.mp hneeded)
  cases hdone
  cases needed with
  | false => cases h
  | true =>
    rcases Effects.bind_eq_error.mp h with hreach | ⟨_, _, hreach, h⟩
    · obtain ⟨hfault, rfl⟩ := reach_eq_error.mp hreach
      exact Or.inl ⟨rfl, Or.inr (Or.inl hfault)⟩
    obtain ⟨-, rfl⟩ := reach_eq_ok.mp hreach
    rcases Effects.bind_eq_error.mp h with htarget | ⟨target, _, htarget, h⟩
    · obtain ⟨⟨e, -, rfl⟩, rfl⟩ := attempt_eq_error.mp htarget
      exact Or.inl ⟨rfl, Or.inr (Or.inr ⟨e, rfl⟩)⟩
    obtain ⟨_, -, hdone⟩ := PyJson.bind_eq_ok.mp (attempt_eq_ok.mp htarget)
    cases hdone
    rcases Effects.bind_eq_error.mp h with hemit | ⟨_, _, _, h⟩
    · exact Or.inr ⟨target, hemit⟩
    · exact absurd h Effects.modify_ne_error

end Inversion

end AuditJobs

import Teuton.AssignmentGrants
import Teuton.Discovery
import Teuton.Effects
import Teuton.JobEmission
import Teuton.OrchestratorQueue

/-! What both run managers do with a job: pick a worker whose queue has room, which reserves
quota for it, then store the signed manifest, store a grant and put the job into the queue. Each
of these steps may raise, and what the steps before it have done stays done. -/
namespace Dispatch

open PyJson Signatures ObjectStore BucketPaths Protocol JobEmission OrchestratorQueue Scheduler
open AssignmentGrants Discovery Effects

variable {β : Type}

structure DispatchConfig where
  grantBroker : Option GrantBroker := none
  grantTtlSec : ℤ := 600
  discoveryHeartbeatTtlSec : Option ℚ := some 30
  maxInflightPerHotkey : ℤ := 8

structure Desk (β : Type) where
  bucket : Bucket β
  quota : QuotaBook := {}
  queue : Writer := {}

def discoverWorkers (p : Platform β) (cfg : RunConfig β) (d : DispatchConfig) (now : ℚ)
    (s : Desk β) : Desk β :=
  let records := Discovery.discoverWorkers p s.bucket cfg.netuid .train cfg.runId
    d.discoveryHeartbeatTtlSec now
  let miners := records.map DiscoveryRecord.miner
  let workers := records.map DiscoveryRecord.worker
  { s with quota := s.quota.updateWorkers miners workers }

def hasRoom (d : DispatchConfig) (queue : Writer) (hotkey : String) : Bool :=
  (queue.depth (some hotkey) : ℤ) < d.maxInflightPerHotkey

def pickWorker (d : DispatchConfig) (requirements : ResourceRequirements := {}) :
    EStateM PyErr (Desk β) WorkerIdentity :=
  update fun s => do
    let (worker, quota) ← s.quota.pickWorker requirements (hasRoom d s.queue)
    return (worker, { s with quota := quota })

def putJson (p : Platform β) (uri : String) (value : Json) : EStateM PyErr (Desk β) PUnit :=
  update fun s => do
    let b ← s.bucket.putJson p uri value
    return (⟨⟩, { s with bucket := b })

def emitAssignmentGrant (p : Platform β) (cfg : RunConfig β) (d : DispatchConfig) (now : ℤ)
    (manifest : JobManifestV3) : EStateM PyErr (Desk β) (Option String) :=
  update fun s =>
    match d.grantBroker with
    | none => .ok (none, s)
    | some broker => do
      let hotkey := manifest.assignedHotkey
      let receiptUri := s.bucket.uriForKey
        (receiptKey cfg.netuid manifest.runId hotkey manifest.jobId manifest.attempt)
      let grantUri := s.bucket.uriForKey
        (assignmentKey cfg.netuid manifest.runId manifest.jobId hotkey)
      let b ← storeGrant p broker d.grantTtlSec now manifest
        ⟨manifest.inputs.map ArtifactRef.uri, outputGrantUris manifest, some receiptUri⟩
        grantUri s.bucket
      return (some grantUri, { s with bucket := b })

def enqueue (entry : QueueEntry) (s : Desk β) : Desk β := { s with queue := s.queue.add entry }

/-- The end of `emit_job`, from the signed manifest on. -/
def publishJob (p : Platform β) (cfg : RunConfig β) (d : DispatchConfig) (now : ℤ)
    (manifest : JobManifestV3) : EStateM PyErr (Desk β) PUnit := do
  let s ← get
  let uri := manifestUri cfg s.bucket.name manifest.jobId
  putJson p uri (manifest.toDict p)
  let grantUri ← emitAssignmentGrant p cfg d now manifest
  modify (enqueue (.fromManifest manifest uri grantUri))

def Picks (d : DispatchConfig) (s : Desk β) (requirements : Py ResourceRequirements)
    (worker : WorkerIdentity) : Prop :=
  ∃ r t, requirements = .ok r ∧ pickWorker d r s = .ok worker t

variable {now : ℤ} {s t : Desk β} {p : Platform β} {cfg : RunConfig β} {manifest : JobManifestV3}
variable {d : DispatchConfig} {worker : WorkerIdentity} {requirements : Py ResourceRequirements}

theorem pickWorker_ok {requirements : ResourceRequirements}
    {w : WorkerIdentity} (h : pickWorker d requirements s = .ok w t) :
    hasRoom d s.queue w.hotkeySs58 = true ∧ w.hotkeySs58 ∈ s.quota.accounts.keys ∧
      t = { s with quota := s.quota.changeInflight w.hotkeySs58 (· + 1) } := by
  obtain ⟨⟨worker, quota⟩, hpick, h⟩ := PyJson.bind_eq_ok.mp (update_eq_ok.mp h)
  cases h
  obtain ⟨a, ha, heligible, -, hhotkey, -, rfl⟩ := pickWorker_eq_ok hpick
  have hroom : hasRoom d s.queue a.hotkey = true := by
    simp only [QuotaBook.eligible, decide_eq_true_eq] at heligible
    exact heligible.1
  refine ⟨hhotkey ▸ hroom, ?_, rfl⟩
  rw [hhotkey]
  exact List.mem_map_of_mem ha

theorem picks_iff : Picks d s requirements worker ↔ ∃ r quota, requirements = .ok r ∧
      s.quota.pickWorker r (hasRoom d s.queue) = .ok (worker, quota) := by
  constructor
  · rintro ⟨r, t, hr, hpick⟩
    obtain ⟨⟨worker', quota⟩, hquota, h⟩ := PyJson.bind_eq_ok.mp (update_eq_ok.mp hpick)
    cases h
    exact ⟨r, quota, hr, hquota⟩
  · rintro ⟨r, quota, hr, hquota⟩
    exact ⟨r, { s with quota := quota }, hr,
      update_eq_ok.mpr (PyJson.bind_eq_ok.mpr ⟨(worker, quota), hquota, rfl⟩)⟩

theorem Picks.room (h : Picks d s requirements worker) :
    hasRoom d s.queue worker.hotkeySs58 = true := by
  obtain ⟨_, _, -, hpick⟩ := h
  exact (pickWorker_ok hpick).1

theorem Picks.account (h : Picks d s requirements worker) :
    worker.hotkeySs58 ∈ s.quota.accounts.keys := by
  obtain ⟨_, _, -, hpick⟩ := h
  exact (pickWorker_ok hpick).2.1

theorem pickWorker_error {requirements : ResourceRequirements}
    {e : PyErr} (h : pickWorker d requirements s = .error e t) : t = s :=
  (update_eq_error.mp h).2

theorem putJson_ok {uri : String} {value : Json} {u : PUnit}
    (h : putJson p uri value s = .ok u t) :
    ∃ b, s.bucket.putJson p uri value = .ok b ∧ t = { s with bucket := b } := by
  obtain ⟨b, hput, h⟩ := PyJson.bind_eq_ok.mp (update_eq_ok.mp h)
  cases h
  exact ⟨b, hput, rfl⟩

theorem emitAssignmentGrant_ok {grantUri : Option String}
    (h : emitAssignmentGrant p cfg d now manifest s = .ok grantUri t) :
    ∃ b, b.name = s.bucket.name ∧ t = { s with bucket := b } := by
  have hgrant := update_eq_ok.mp h
  cases hbroker : d.grantBroker with
  | none =>
    simp only [hbroker] at hgrant
    cases hgrant
    exact ⟨s.bucket, rfl, rfl⟩
  | some broker =>
    simp only [hbroker] at hgrant
    obtain ⟨b, hstore, hgrant⟩ := PyJson.bind_eq_ok.mp hgrant
    cases hgrant
    obtain ⟨_, -, hstore⟩ := PyJson.bind_eq_ok.mp hstore
    obtain ⟨_, -, hput⟩ := PyJson.bind_eq_ok.mp hstore
    exact ⟨b, Bucket.name_of_put hput, rfl⟩

theorem publishJob_ok {u : PUnit}
    (h : publishJob p cfg d now manifest s = .ok u t) : ∃ grantUri b,
      s.bucket.putJson p (manifestUri cfg s.bucket.name manifest.jobId) (manifest.toDict p) =
        .ok b ∧
      t.bucket.name = s.bucket.name ∧ t.quota = s.quota ∧
      t.queue = s.queue.add
        (.fromManifest manifest (manifestUri cfg s.bucket.name manifest.jobId) grantUri) := by
  obtain ⟨_, _, hget, h⟩ := Effects.bind_eq_ok.mp h
  obtain ⟨rfl, rfl⟩ := get_eq_ok.mp hget
  obtain ⟨_, _, hput, h⟩ := Effects.bind_eq_ok.mp h
  obtain ⟨b, hb, rfl⟩ := putJson_ok hput
  obtain ⟨grantUri, _, hgrant, h⟩ := Effects.bind_eq_ok.mp h
  obtain ⟨b', hname, rfl⟩ := emitAssignmentGrant_ok hgrant
  cases modify_eq_ok.mp h
  exact ⟨grantUri, b, hb, hname.trans (Bucket.name_of_put hb), rfl, rfl⟩

theorem publishJob_error {e : PyErr}
    (h : publishJob p cfg d now manifest s = .error e t) :
    ∃ b, b.name = s.bucket.name ∧ t = { s with bucket := b } := by
  rcases Effects.bind_eq_error.mp h with hget | ⟨_, _, hget, h⟩
  · exact absurd hget get_ne_error
  obtain ⟨rfl, rfl⟩ := get_eq_ok.mp hget
  rcases Effects.bind_eq_error.mp h with hput | ⟨_, _, hput, h⟩
  · exact ⟨s.bucket, rfl, (update_eq_error.mp hput).2⟩
  obtain ⟨b, hb, rfl⟩ := putJson_ok hput
  rcases Effects.bind_eq_error.mp h with hgrant | ⟨_, _, _, h⟩
  · exact ⟨b, Bucket.name_of_put hb, (update_eq_error.mp hgrant).2⟩
  · exact absurd h modify_ne_error

end Dispatch

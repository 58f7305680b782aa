import Teuton.Dispatch
import Teuton.StreamEmission

/-! The streaming run manager with all its bookkeeping. The queue of outstanding jobs is the
backpressure signal: a job is emitted only to a hotkey whose queue has room, and receipts that
have landed, deadlines that have passed and epochs that are given up make room again. -/
namespace StreamManager

open PyJson PyText Signatures Protocol JobEmission OrchestratorQueue Scheduler
open Dispatch Effects StreamEmission

variable {β : Type}

/-- The desk, the manifests held in memory, all jobs emitted so far and the time up to which
receipts have been scanned. -/
structure Manager (β : Type) where
  desk : Desk β
  jobs : KeyedDict JobManifestV3.jobId := KeyedDict.empty
  log : List JobManifestV3 := []
  cursor : ℚ

namespace Manager

def stream (m : Manager β) : StreamState β := ⟨m.desk.bucket, m.jobs, m.log⟩

def queue (m : Manager β) : Writer := m.desk.queue

def quota (m : Manager β) : QuotaBook := m.desk.quota

def withDesk (m : Manager β) (desk : Desk β) : Manager β := { m with desk := desk }

def withQueue (m : Manager β) (queue : Writer) : Manager β :=
  { m with desk := { m.desk with queue := queue } }

def record (manifest : JobManifestV3) (m : Manager β) : Manager β :=
  { m with jobs := m.jobs.set manifest, log := m.log ++ [manifest] }

end Manager

def onDesk {α : Type} (x : EStateM PyErr (Desk β) α) : EStateM PyErr (Manager β) α :=
  zoom Manager.desk Manager.withDesk x

section Operations

variable (p : Platform β) (cfg : StreamingRunConfig β) (d : DispatchConfig)
  (params : StreamingParams)

def discoverWorkers (now : ℚ) (m : Manager β) : Manager β :=
  m.withDesk (Dispatch.discoverWorkers p cfg.toRunConfig d now m.desk)

def emitJob (now grantNow : ℤ) (spec : JobSpec) (forceWorker : Option WorkerIdentity := none) :
    EStateM PyErr (Manager β) JobManifestV3 := do
  let requirements ← lift (resourceRequirements spec.params)
  let worker ← match forceWorker with
    | some worker => pure worker
    | none => onDesk (pickWorker d requirements)
  let m ← get
  let manifest ← lift (signedManifest p cfg.toRunConfig m.desk.bucket.name spec worker now
    (now + params.deadlineSeconds) (spec.kind == "pipe_outer"))
  onDesk (publishJob p cfg.toRunConfig d grantNow manifest)
  modify (Manager.record manifest)
  return manifest

def emitOne (clock : ℤ × ℤ) (e : StreamJob) : EStateM PyErr (Manager β) PUnit := do
  let m ← get
  let spec ← lift (e.spec cfg params m.stream)
  let _ ← emitJob p cfg d params clock.1 clock.2 spec

def emitJobs (clock : ℕ → ℤ × ℤ) (jobs : List (StreamJob × ℕ)) :
    EStateM PyErr (Manager β) PUnit :=
  jobs.forM fun (e, i) => emitOne p cfg d params (clock i) e

def emitEpoch (stages : List PipelineStage) (epoch : ℤ) (forwardOnly : Bool)
    (clock : ℕ → ℤ × ℤ) : EStateM PyErr (Manager β) PUnit := do
  update fun m => do
    let b ← publishGraphs p cfg stages m.desk.bucket
    return (⟨⟩, m.withDesk { m.desk with bucket := b })
  let jobs := StreamEmission.emitEpoch stages params epoch forwardOnly
  emitJobs p cfg d params clock jobs.zipIdx

end Operations

structure ListedObject where
  uri : String
  mtime : ℤ

/-- What a listing of the receipts gives: a store without `list_with_meta` gives names only. -/
inductive Listing where
  | withMeta (entries : List ListedObject)
  | plain (uris : List String)

/-- The part after the first one that names a hotkey; an empty part names no job. -/
def jobIdFromParts : List String → Option String
  | part :: next :: rest =>
    if startsWith part "hotkey=" then if next = "" then none else some next
    else jobIdFromParts (next :: rest)
  | _ => none

def jobIdFromReceiptUri (uri : String) : Option String := jobIdFromParts (split '/' uri)

def listedJobId (since : Option ℤ) (e : ListedObject) : Option String :=
  if endsWith e.uri ".json" ∧ since.all (· ≤ e.mtime) then jobIdFromReceiptUri e.uri else none

/-- The job ids of the receipts written since a time; at most `limit` receipts are taken. -/
def scanRecentReceiptJobIds (since : Option ℤ) (limit : ℕ) : Listing → List String
  | .withMeta entries => (entries.filterMap (listedJobId since)).take limit
  | .plain uris =>
    ((uris.filter (endsWith · ".json")).filterMap jobIdFromReceiptUri).take limit

def scanLimit : ℕ := 50000

/-- The argument `since_unix`, five seconds before the cursor and rounded to whole seconds. -/
def scanSince (cursor : ℚ) : Option ℤ :=
  let since := max 0 (cursor - 5)
  if 0 < since then some (truncate since) else none

/-- A failed listing counts as an empty one. The two clock readings are those of the pruning and
of the new cursor. -/
def drainQueueViaReceipts (listing : Py Listing) (pruneNow cursorNow : ℚ) (m : Manager β) :
    ℕ × Manager β :=
  let doneIds := match listing with
    | .ok l => scanRecentReceiptJobIds (scanSince m.cursor) scanLimit l
    | .error _ => []
  let (removed, drained) := m.queue.removeMany doneIds
  let (expired, pruned) := drained.pruneExpired pruneNow
  (removed + expired.length, { m.withQueue pruned with cursor := cursorNow })

def epochPrefix (epoch : ℤ) : String := "j-e" ++ toString epoch ++ "-"

def ofEpoch (epoch : ℤ) (manifest : JobManifestV3) : Bool :=
  startsWith manifest.jobId (epochPrefix epoch)

def releaseEpochQuota (epoch : ℤ) (m : Manager β) : Manager β :=
  let released := m.jobs.vals.filter (ofEpoch epoch)
  let quota := released.foldl (fun q manifest => q.release manifest.assignedHotkey) m.quota
  m.withDesk { m.desk with quota := quota }

def forgetEpoch (epoch : ℤ) (m : Manager β) : Manager β :=
  { m with jobs := m.jobs.filter fun manifest => !ofEpoch epoch manifest }

def dropEpochJobs (epoch : ℤ) (m : Manager β) : Manager β :=
  let dropIds := (m.jobs.vals.filter (ofEpoch epoch)).map JobManifestV3.jobId
  forgetEpoch epoch (m.withQueue (m.queue.removeMany dropIds).2)

section Emission

variable {p : Platform β} {cfg : StreamingRunConfig β} {d : DispatchConfig}
  {params : StreamingParams}

theorem emitJob_ok {now grantNow : ℤ} {spec : JobSpec} {m m' : Manager β}
    {manifest : JobManifestV3}
    (h : emitJob p cfg d params now grantNow spec none m = .ok manifest m') :
    ∃ worker grantUri s, Picks d m.desk (resourceRequirements spec.params) worker ∧
      StreamEmission.emitJob p cfg params worker now m.stream spec = .ok s ∧
      signedManifest p cfg.toRunConfig m.desk.bucket.name spec worker now
        (now + params.deadlineSeconds) (spec.kind == "pipe_outer") = .ok manifest ∧
      m'.quota = m.quota.changeInflight worker.hotkeySs58 (· + 1) ∧
      m'.queue = m.queue.add (.fromManifest manifest
        (manifestUri cfg.toRunConfig m.desk.bucket.name manifest.jobId) grantUri) ∧
      m'.jobs = m.jobs.set manifest ∧ m'.log = m.log ++ [manifest] ∧
      m'.desk.bucket.name = m.desk.bucket.name := by
  obtain ⟨requirements, _, hlift, hrest⟩ := Effects.bind_eq_ok.mp h
  obtain ⟨hrequirements, rfl⟩ := lift_eq_ok.mp hlift
  obtain ⟨worker, _, hworker, hrest⟩ := Effects.bind_eq_ok.mp hrest
  obtain ⟨t, hpick, rfl⟩ := zoom_eq_ok.mp hworker
  have hpicks : Picks d m.desk (resourceRequirements spec.params) worker :=
    ⟨requirements, t, hrequirements, hpick⟩
  obtain ⟨-, -, rfl⟩ := pickWorker_ok hpick
  obtain ⟨_, _, hget, hrest⟩ := Effects.bind_eq_ok.mp hrest
  obtain ⟨rfl, rfl⟩ := get_eq_ok.mp hget
  obtain ⟨_, _, hlift, hrest⟩ := Effects.bind_eq_ok.mp hrest
  obtain ⟨hsigned, rfl⟩ := lift_eq_ok.mp hlift
  obtain ⟨_, _, hdesk, hrest⟩ := Effects.bind_eq_ok.mp hrest
  obtain ⟨t', hpublish, rfl⟩ := zoom_eq_ok.mp hdesk
  obtain ⟨grantUri, b, hput, hname, hquota, hqueue⟩ := publishJob_ok hpublish
  obtain ⟨_, _, hrecord, hrest⟩ := Effects.bind_eq_ok.mp hrest
  cases modify_eq_ok.mp hrecord
  cases hrest
  have hemit : StreamEmission.emitJob p cfg params worker now m.stream spec =
      .ok ⟨b, m.jobs.set manifest, m.log ++ [manifest]⟩ :=
    PyJson.bind_eq_ok.mpr ⟨manifest, hsigned, PyJson.bind_eq_ok.mpr ⟨b,
      (signedManifest_eq_ok hsigned).1 ▸ hput, rfl⟩⟩
  exact ⟨worker, grantUri, _, hpicks, hemit, hsigned, hquota, hqueue, rfl, rfl, hname⟩

/-- What an emission that raises leaves behind: the queue and the manifests in memory are as they
were, but the quota that a picked worker has reserved stays reserved. -/
structure Raised (d : DispatchConfig) (requirements : Py ResourceRequirements)
    (m m' : Manager β) : Prop where
  queue : m'.queue = m.queue
  log : m'.log = m.log
  quota : (m'.quota = m.quota ∧ ∀ worker, ¬ Picks d m.desk requirements worker) ∨
    ∃ worker, Picks d m.desk requirements worker ∧
      m'.quota = m.quota.changeInflight worker.hotkeySs58 (· + 1)

theorem emitJob_error {now grantNow : ℤ} {spec : JobSpec} {m m' : Manager β} {e : PyErr}
    (h : emitJob p cfg d params now grantNow spec none m = .error e m') :
    Raised d (resourceRequirements spec.params) m m' := by
  rcases Effects.bind_eq_error.mp h with hraise | ⟨requirements, _, hlift, hrest⟩
  · obtain ⟨hrequirements, rfl⟩ := lift_eq_error.mp hraise
    refine ⟨rfl, rfl, Or.inl ⟨rfl, ?_⟩⟩
    rintro worker ⟨r, t, hr, -⟩
    rw [hrequirements] at hr
    cases hr
  obtain ⟨hrequirements, rfl⟩ := lift_eq_ok.mp hlift
  rcases Effects.bind_eq_error.mp hrest with hraise | ⟨worker, _, hworker, hrest⟩
  · obtain ⟨t, hnone, rfl⟩ := zoom_eq_error.mp hraise
    have hnone' := hnone
    cases pickWorker_error hnone
    refine ⟨rfl, rfl, Or.inl ⟨rfl, ?_⟩⟩
    rintro worker ⟨r, t, hr, hpick⟩
    rw [hrequirements] at hr
    cases hr
    rw [hnone'] at hpick
    cases hpick
  obtain ⟨t, hpick, rfl⟩ := zoom_eq_ok.mp hworker
  have hpicks : Picks d m.desk (resourceRequirements spec.params) worker :=
    ⟨requirements, t, hrequirements, hpick⟩
  obtain ⟨-, -, rfl⟩ := pickWorker_ok hpick
  rcases Effects.bind_eq_error.mp hrest with hraise | ⟨_, _, hget, hrest⟩
  · exact absurd hraise get_ne_error
  obtain ⟨rfl, rfl⟩ := get_eq_ok.mp hget
  rcases Effects.bind_eq_error.mp hrest with hraise | ⟨manifest, _, hsigned, hrest⟩
  · obtain ⟨-, rfl⟩ := lift_eq_error.mp hraise
    exact ⟨rfl, rfl, Or.inr ⟨worker, hpicks, rfl⟩⟩
  obtain ⟨-, rfl⟩ := lift_eq_ok.mp hsigned
  rcases Effects.bind_eq_error.mp hrest with hraise | ⟨_, _, _, hrest⟩
  · obtain ⟨t, hpublish, rfl⟩ := zoom_eq_error.mp hraise
    obtain ⟨b, -, rfl⟩ := publishJob_error hpublish
    exact ⟨rfl, rfl, Or.inr ⟨worker, hpicks, rfl⟩⟩
  rcases Effects.bind_eq_error.mp hrest with hraise | ⟨_, _, _, hrest⟩
  · exact absurd hraise modify_ne_error
  · cases hrest

end Emission

end StreamManager

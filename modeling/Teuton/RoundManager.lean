import Teuton.Dispatch
import Teuton.RoundEmission

/-! The round-based run manager with its bookkeeping. A step goes through batches of jobs: all
jobs of a batch are emitted, then the manager waits for the outputs of one after the other. A
worker is picked, and quota reserved, before anything else is done for a job; waiting for the job
gives the reservation back, also when its outputs do not arrive in time. -/
namespace RoundManager

open PyJson Signatures ObjectStore BucketPaths Protocol JobEmission OrchestratorQueue Scheduler
open Dispatch Effects RoundEmission

variable {β : Type}

structure Manager (β : Type) where
  desk : Desk β
  jobs : List JobManifestV3 := []

namespace Manager

def run (m : Manager β) : RunState β := ⟨m.desk.bucket, m.jobs⟩

def queue (m : Manager β) : Writer := m.desk.queue

def quota (m : Manager β) : QuotaBook := m.desk.quota

def withDesk (m : Manager β) (desk : Desk β) : Manager β := { m with desk := desk }

def record (manifest : JobManifestV3) (m : Manager β) : Manager β :=
  { m with jobs := m.jobs ++ [manifest] }

end Manager

def onDesk {α : Type} (x : EStateM PyErr (Desk β) α) : EStateM PyErr (Manager β) α :=
  zoom Manager.desk Manager.withDesk x

/-- The clock readings for a job and what the bucket holds each time the manager looks for its
outputs before it stops waiting. Others write the bucket meanwhile. -/
structure Surroundings (β : Type) where
  now : ℤ
  grantNow : ℤ
  polls : List (Bucket β)
  staleUnix : ℤ

section Operations

variable (p : Platform β) (cfg : RunConfig β) (d : DispatchConfig) (task : RoundTask)
  (around : String → Surroundings β)

def storeGraph (graph : GraphIr.Graph) : EStateM PyErr (Desk β) PUnit :=
  update fun s => do
    let b ← publishGraph p cfg s.bucket graph
    return (⟨⟩, { s with bucket := b })

def emitJob (spec : JobSpec) (worker : WorkerIdentity) :
    EStateM PyErr (Manager β) JobManifestV3 := do
  let here := around spec.jobId
  onDesk (storeGraph p cfg spec.graph)
  let m ← get
  let manifest ← lift (signedManifest p cfg m.desk.bucket.name spec worker here.now
    (here.now + 600) (spec.kind == "outer_step"))
  onDesk (publishJob p cfg d here.grantNow manifest)
  modify (Manager.record manifest)
  return manifest

/-- One of `emit_forward`, `emit_inner`, `emit_reduce`, `emit_outer` and `emit_eval`. -/
def emitOne (e : RoundJob) : EStateM PyErr (Manager β) JobManifestV3 := do
  let worker ← onDesk (pickWorker d)
  let m ← get
  let spec ← lift (e.spec p cfg task worker m.run)
  emitJob p cfg d around spec worker

def outputsPresent (b : Bucket β) (manifest : JobManifestV3) : Py Bool :=
  manifest.outputs.allM fun ref => b.exists ref.uri

def releaseJob (manifest : JobManifestV3) (s : Desk β) : Desk β :=
  { s with quota := s.quota.release manifest.assignedHotkey
           queue := (s.queue.remove manifest.jobId).2 }

def staleUri (bucket jobId : String) : String :=
  joinUri bucket (jobsPrefix cfg.netuid cfg.runId ++ jobId ++ "/stale.json")

/-- The end of `wait_outputs` when the outputs are late. -/
def giveUp (staleUnix : ℤ) (manifest : JobManifestV3) : EStateM PyErr (Desk β) PUnit := do
  modify (releaseJob manifest)
  let s ← get
  putJson p (staleUri cfg s.bucket.name manifest.jobId)
    (mkObj [("job_id", .str manifest.jobId), ("stale_unix", .int staleUnix),
      ("reason", .str "output_timeout")])
  throw (.timeoutError ("timed out waiting for " ++ manifest.jobId))

/-- The loop of `wait_outputs` over what the manager finds in the bucket. -/
def pollOutputs (staleUnix : ℤ) (manifest : JobManifestV3) :
    List (Bucket β) → EStateM PyErr (Desk β) PUnit
  | [] => giveUp p cfg staleUnix manifest
  | b :: polls => do
    modify fun s => { s with bucket := b }
    if ← lift (outputsPresent b manifest) then modify (releaseJob manifest)
    else pollOutputs staleUnix manifest polls

def waitOutputs (manifest : JobManifestV3) : EStateM PyErr (Manager β) PUnit :=
  let here := around manifest.jobId
  onDesk (pollOutputs p cfg here.staleUnix manifest here.polls)

def runBatch (batch : List RoundJob) : EStateM PyErr (Manager β) PUnit := do
  let manifests ← batch.mapM (emitOne p cfg d task around)
  manifests.forM (waitOutputs p cfg around)

def batches (step : ℤ) : List (List RoundJob) :=
  [[.forward step],
   (List.range task.nUb).flatMap fun ub => (List.range task.innerReplicas).map (.inner step ub),
   (List.range task.nUb).map (.reduce step),
   (List.range task.nUb).map (.outer step),
   [.eval step]]

def runStep (step : ℤ) : EStateM PyErr (Manager β) PUnit :=
  (batches task step).forM (runBatch p cfg d task around)

end Operations

section Effects

variable {p : Platform β} {cfg : RunConfig β} {d : DispatchConfig} {task : RoundTask}
  {around : String → Surroundings β}

variable {staleUnix : ℤ} {e : PyErr} {s t : Desk β} {m m' : Manager β} {manifest : JobManifestV3}

theorem storeGraph_ok {graph : GraphIr.Graph} {u : PUnit}
    (h : storeGraph p cfg graph s = .ok u t) : ∃ b, t = { s with bucket := b } := by
  obtain ⟨b, -, h⟩ := PyJson.bind_eq_ok.mp (update_eq_ok.mp h)
  cases h
  exact ⟨b, rfl⟩

theorem emitJob_ok {spec : JobSpec} {worker : WorkerIdentity}
    (h : emitJob p cfg d around spec worker m = .ok manifest m') :
    manifest.assignedHotkey = worker.hotkeySs58 ∧ m'.quota = m.quota ∧
      (∃ uri grantUri, m'.queue = m.queue.add (.fromManifest manifest uri grantUri)) ∧
      m'.jobs = m.jobs ++ [manifest] := by
  obtain ⟨_, _, hdesk, hrest⟩ := Effects.bind_eq_ok.mp h
  obtain ⟨t, hgraph, rfl⟩ := zoom_eq_ok.mp hdesk
  obtain ⟨b, rfl⟩ := storeGraph_ok hgraph
  obtain ⟨_, _, hget, hrest⟩ := Effects.bind_eq_ok.mp hrest
  obtain ⟨rfl, rfl⟩ := get_eq_ok.mp hget
  obtain ⟨_, _, hlift, hrest⟩ := Effects.bind_eq_ok.mp hrest
  obtain ⟨hsigned, rfl⟩ := lift_eq_ok.mp hlift
  obtain ⟨_, _, hdesk, hrest⟩ := Effects.bind_eq_ok.mp hrest
  obtain ⟨t', hpublish, rfl⟩ := zoom_eq_ok.mp hdesk
  obtain ⟨grantUri, _, -, -, hquota, hqueue⟩ := publishJob_ok hpublish
  obtain ⟨_, _, hrecord, hrest⟩ := Effects.bind_eq_ok.mp hrest
  cases modify_eq_ok.mp hrecord
  cases hrest
  exact ⟨signedManifest_assigned hsigned, hquota, ⟨_, grantUri, hqueue⟩, rfl⟩

theorem emitJob_error {spec : JobSpec} {worker : WorkerIdentity}
    (h : emitJob p cfg d around spec worker m = .error e m') : m'.quota = m.quota := by
  rcases Effects.bind_eq_error.mp h with hraise | ⟨_, _, hdesk, hrest⟩
  · obtain ⟨t, hgraph, rfl⟩ := zoom_eq_error.mp hraise
    obtain ⟨-, rfl⟩ := update_eq_error.mp hgraph
    rfl
  obtain ⟨t, hgraph, rfl⟩ := zoom_eq_ok.mp hdesk
  obtain ⟨b, rfl⟩ := storeGraph_ok hgraph
  rcases Effects.bind_eq_error.mp hrest with hraise | ⟨_, _, hget, hrest⟩
  · exact absurd hraise get_ne_error
  obtain ⟨rfl, rfl⟩ := get_eq_ok.mp hget
  rcases Effects.bind_eq_error.mp hrest with hraise | ⟨_, _, hlift, hrest⟩
  · obtain ⟨-, rfl⟩ := lift_eq_error.mp hraise
    rfl
  obtain ⟨-, rfl⟩ := lift_eq_ok.mp hlift
  rcases Effects.bind_eq_error.mp hrest with hraise | ⟨_, _, _, hrest⟩
  · obtain ⟨t', hpublish, rfl⟩ := zoom_eq_error.mp hraise
    obtain ⟨b', -, rfl⟩ := publishJob_error hpublish
    rfl
  rcases Effects.bind_eq_error.mp hrest with hraise | ⟨_, _, _, hrest⟩
  · exact absurd hraise modify_ne_error
  · cases hrest

theorem emitOne_ok {e : RoundJob}
    (h : emitOne p cfg d task around e m = .ok manifest m') :
    ∃ worker, Picks d m.desk (.ok {}) worker ∧ manifest.assignedHotkey = worker.hotkeySs58 ∧
      m'.quota = m.quota.changeInflight worker.hotkeySs58 (· + 1) ∧
      (∃ uri grantUri, m'.queue = m.queue.add (.fromManifest manifest uri grantUri)) ∧
      m'.jobs = m.jobs ++ [manifest] := by
  obtain ⟨worker, _, hdesk, hrest⟩ := Effects.bind_eq_ok.mp h
  obtain ⟨t, hpick, rfl⟩ := zoom_eq_ok.mp hdesk
  have hpicks : Picks d m.desk (.ok {}) worker := ⟨{}, t, rfl, hpick⟩
  obtain ⟨-, -, rfl⟩ := pickWorker_ok hpick
  obtain ⟨_, _, hget, hrest⟩ := Effects.bind_eq_ok.mp hrest
  obtain ⟨rfl, rfl⟩ := get_eq_ok.mp hget
  obtain ⟨spec, _, hlift, hrest⟩ := Effects.bind_eq_ok.mp hrest
  obtain ⟨-, rfl⟩ := lift_eq_ok.mp hlift
  exact ⟨worker, hpicks, emitJob_ok hrest⟩

theorem emitOne_error {e : RoundJob} {err : PyErr}
    (h : emitOne p cfg d task around e m = .error err m') :
    (m' = m ∧ ∀ worker, ¬ Picks d m.desk (.ok {}) worker) ∨
      ∃ worker, Picks d m.desk (.ok {}) worker ∧
        m'.quota = m.quota.changeInflight worker.hotkeySs58 (· + 1) := by
  rcases Effects.bind_eq_error.mp h with hraise | ⟨worker, _, hdesk, hrest⟩
  · obtain ⟨t, hnone, rfl⟩ := zoom_eq_error.mp hraise
    left
    refine ⟨congrArg m.withDesk (pickWorker_error hnone), ?_⟩
    rintro worker ⟨r, t', hr, hpick⟩
    cases hr
    rw [hnone] at hpick
    cases hpick
  obtain ⟨t, hpick, rfl⟩ := zoom_eq_ok.mp hdesk
  have hpicks : Picks d m.desk (.ok {}) worker := ⟨{}, t, rfl, hpick⟩
  obtain ⟨-, -, rfl⟩ := pickWorker_ok hpick
  right
  refine ⟨worker, hpicks, ?_⟩
  rcases Effects.bind_eq_error.mp hrest with hraise | ⟨_, _, hget, hrest⟩
  · exact absurd hraise get_ne_error
  obtain ⟨rfl, rfl⟩ := get_eq_ok.mp hget
  rcases Effects.bind_eq_error.mp hrest with hraise | ⟨_, _, hlift, hrest⟩
  · obtain ⟨-, rfl⟩ := lift_eq_error.mp hraise
    rfl
  obtain ⟨-, rfl⟩ := lift_eq_ok.mp hlift
  exact emitJob_error hrest

/-- The end of a wait, in time or not: the reservation is released and the job leaves the queue. -/
structure Waited (manifest : JobManifestV3) (s t : Desk β) : Prop where
  quota : t.quota = s.quota.release manifest.assignedHotkey
  queue : t.queue = (s.queue.remove manifest.jobId).2

theorem outputsPresent_error {b : Bucket β}
    (h : outputsPresent b manifest = .error e) : ∃ message, e = .valueError message := by
  rw [outputsPresent] at h
  generalize manifest.outputs = refs at h
  induction refs with
  | nil => cases h
  | cons ref refs ih =>
    rcases PyJson.bind_eq_error.mp h with h | ⟨found, _, h⟩
    · exact Bucket.exists_error h
    · cases found with
      | true => exact ih h
      | false => cases h

theorem giveUp_error
    (h : giveUp p cfg staleUnix manifest s = .error e t) : Waited manifest s t := by
  rcases Effects.bind_eq_error.mp h with hraise | ⟨_, _, hrelease, hrest⟩
  · exact absurd hraise modify_ne_error
  cases modify_eq_ok.mp hrelease
  rcases Effects.bind_eq_error.mp hrest with hraise | ⟨_, _, hget, hrest⟩
  · exact absurd hraise get_ne_error
  obtain ⟨rfl, rfl⟩ := get_eq_ok.mp hget
  rcases Effects.bind_eq_error.mp hrest with hraise | ⟨_, _, hput, hrest⟩
  · obtain ⟨-, rfl⟩ := update_eq_error.mp hraise
    exact ⟨rfl, rfl⟩
  · obtain ⟨b, -, rfl⟩ := putJson_ok hput
    cases hrest
    exact ⟨rfl, rfl⟩

theorem giveUp_ne_ok {u : PUnit} :
    giveUp p cfg staleUnix manifest s ≠ .ok u t := by
  intro h
  obtain ⟨_, _, -, hrest⟩ := Effects.bind_eq_ok.mp h
  obtain ⟨_, _, -, hrest⟩ := Effects.bind_eq_ok.mp hrest
  obtain ⟨_, _, -, hrest⟩ := Effects.bind_eq_ok.mp hrest
  cases hrest

theorem pollOutputs_waited {polls : List (Bucket β)}
    (h : (∃ u, pollOutputs p cfg staleUnix manifest polls s = .ok u t) ∨
      ∃ message, pollOutputs p cfg staleUnix manifest polls s =
        .error (.timeoutError message) t) : Waited manifest s t := by
  induction polls generalizing s with
  | nil =>
    rcases h with ⟨u, h⟩ | ⟨message, h⟩
    · exact absurd h giveUp_ne_ok
    · exact giveUp_error h
  | cons b polls ih =>
    rcases h with ⟨u, h⟩ | ⟨message, h⟩
    · obtain ⟨_, _, hlook, hrest⟩ := Effects.bind_eq_ok.mp h
      cases modify_eq_ok.mp hlook
      obtain ⟨present, _, hlift, hrest⟩ := Effects.bind_eq_ok.mp hrest
      obtain ⟨-, rfl⟩ := lift_eq_ok.mp hlift
      cases present with
      | true =>
        cases modify_eq_ok.mp hrest
        exact ⟨rfl, rfl⟩
      | false =>
        obtain ⟨hquota, hqueue⟩ := ih (Or.inl ⟨u, hrest⟩)
        exact ⟨hquota, hqueue⟩
    · rcases Effects.bind_eq_error.mp h with hraise | ⟨_, _, hlook, hrest⟩
      · exact absurd hraise modify_ne_error
      cases modify_eq_ok.mp hlook
      rcases Effects.bind_eq_error.mp hrest with hraise | ⟨present, _, hlift, hrest⟩
      · obtain ⟨message', heq⟩ := outputsPresent_error (lift_eq_error.mp hraise).1
        cases heq
      obtain ⟨-, rfl⟩ := lift_eq_ok.mp hlift
      cases present with
      | true => exact absurd hrest modify_ne_error
      | false =>
        obtain ⟨hquota, hqueue⟩ := ih (Or.inr ⟨message, hrest⟩)
        exact ⟨hquota, hqueue⟩

theorem waitOutputs_waited (h : (∃ u, waitOutputs p cfg around manifest m = .ok u m') ∨
      ∃ message, waitOutputs p cfg around manifest m = .error (.timeoutError message) m') :
    Waited manifest m.desk m'.desk ∧ m'.jobs = m.jobs := by
  rcases h with ⟨u, h⟩ | ⟨message, h⟩
  · obtain ⟨t, hpoll, rfl⟩ := zoom_eq_ok.mp h
    exact ⟨pollOutputs_waited (Or.inl ⟨u, hpoll⟩), rfl⟩
  · obtain ⟨t, hpoll, rfl⟩ := zoom_eq_error.mp h
    exact ⟨pollOutputs_waited (Or.inr ⟨message, hpoll⟩), rfl⟩

end Effects

end RoundManager

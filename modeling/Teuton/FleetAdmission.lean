import Teuton.MinerWorker
import Teuton.StreamBackpressure

/-! Admission on both sides. The scheduler tests what a worker advertises in its heartbeat, the
worker tests its own list of devices. What a worker advertises is made from that list, so the two
tests can be compared. -/
namespace FleetAdmission

open PyJson PyText Signatures Protocol JobEmission Scheduler Dispatch
open Effects StreamEmission

variable {β : Type}

def gpuIndex (device : String) : Option ℤ :=
  if startsWith device "cuda:" then intOfStr (String.ofList (device.toList.drop 5))
  else if device = "cuda" then some 0
  else none

def deviceIndices (devices : List String) : List ℤ := devices.filterMap gpuIndex

/-- What the machine answers; `details` are the entries on its GPUs and on the bucket, which come
after the others. -/
structure Probe where
  cudaAvailable : Bool
  deviceCount : ℤ
  ncclAvailable : Bool
  hostname : Option String
  details : Fields

def probeNcclGroup (probe : Probe) (devices : List String) : Bool :=
  1 < devices.length && probe.cudaAvailable && probe.ncclAvailable

def detectCapabilities (probe : Probe) (workerId device : String) (deviceGroup : List String) :
    Fields :=
  let devices := if deviceGroup.isEmpty then [device] else deviceGroup
  [("device", .str device),
   ("worker_id", .str workerId),
   ("gpu_available", .bool probe.cudaAvailable),
   ("n_gpus", .int (if probe.cudaAvailable then probe.deviceCount else 0)),
   ("device_group", .arr (devices.map .str)),
   ("gpu_indices", .arr ((deviceIndices devices).map .int)),
   ("world_size", .int (max 1 devices.length)),
   ("placement", .str "single_host"),
   ("multi_gpu", .bool (1 < devices.length)),
   ("nccl_available", .bool (probeNcclGroup probe devices)),
   ("hostname", .str (probe.hostname.getD "unknown"))] ++ probe.details

/-- A worker of the fleet: its configuration, its machine and its process. -/
structure FleetWorker where
  config : MinerWorker.WorkerConfig
  probe : Probe
  sessionNonce : String
  softwareHash : String := "dev"

namespace FleetWorker

def identity (x : FleetWorker) : WorkerIdentity where
  hotkeySs58 := x.config.hotkeySs58
  workerId := x.config.workerId
  hostId := x.probe.hostname.getD "unknown"
  gpuIndex := gpuIndex x.config.device
  sessionNonce := x.sessionNonce
  softwareHash := x.softwareHash
  deviceGroup := deviceIndices x.config.devices
  workerGroupId := if 1 < x.config.devices.length then some x.config.workerId else none
  capabilities := detectCapabilities x.probe x.config.workerId x.config.device x.config.devices

def name (x : FleetWorker) : String × String := (x.config.hotkeySs58, x.config.workerId)

theorem devices_ne_nil (x : FleetWorker) : x.config.devices ≠ [] := by
  unfold MinerWorker.WorkerConfig.devices
  split_ifs with hempty
  · simp
  · simpa using hempty

theorem worldSize_identity (x : FleetWorker) :
    worldSize x.identity = .ok (x.config.devices.length : ℤ) := by
  have hpos : 0 < x.config.devices.length := List.length_pos_iff.mpr x.devices_ne_nil
  have hmax : max 1 (x.config.devices.length : ℤ) = x.config.devices.length := by omega
  have hfield : field? "world_size" x.identity.capabilities =
      some (.int (x.config.devices.length : ℤ)) := by
    simp [identity, detectCapabilities, field?_cons, x.devices_ne_nil, hmax]
  have htruthy : (Json.int (x.config.devices.length : ℤ)).truthy = true := by
    simpa [Json.truthy] using x.devices_ne_nil
  rw [worldSize, hfield, Option.getD_some, Json.orElse, if_pos htruthy]
  rfl

/-- The scheduler takes a worker for a job that its devices suffice for; on a single host the
worker group must have a name. -/
theorem workerSatisfies_identity {requirements : ResourceRequirements} (x : FleetWorker) :
    workerSatisfies requirements x.identity = .ok true ↔
      requirements.minGpus ≤ x.config.devices.length ∧
        (requirements.placement = "single_host" → 1 < requirements.minGpus →
          x.config.workerId ≠ "") := by
  rw [workerSatisfies, worldSize_identity]
  simp only [ok_bind, identity]
  constructor
  · intro h
    have htest := Except.ok.inj h
    simp only [Bool.not_eq_true', decide_eq_false_iff_not, not_or, not_lt, not_and] at htest
    refine ⟨htest.1, fun hplace hmany hid => ?_⟩
    have hgrouped := htest.2 hplace hmany
    split_ifs at hgrouped <;> simp [hid] at hgrouped
  · rintro ⟨hsize, hgroup⟩
    refine congrArg Except.ok ?_
    simp only [Bool.not_eq_true', decide_eq_false_iff_not, not_or, not_lt, not_and]
    refine ⟨hsize, fun hplace hmany => ?_⟩
    rw [if_pos (by omega)]
    simpa using hgroup hplace hmany

end FleetWorker

theorem eligible_iff {cfg : MinerWorker.WorkerConfig} {manifest : JobManifestV3} :
    MinerWorker.eligible cfg manifest = true ↔
      manifest.assignedHotkey = cfg.hotkeySs58 ∧
      (1 < manifest.resourceRequirements.minGpus ∨
          manifest.resourceRequirements.placement = "single_host" →
        manifest.resourceRequirements.minGpus ≤ cfg.devices.length) ∧
      (manifest.assignedWorker = none ∨ manifest.assignedWorker = some cfg.workerId) := by
  unfold MinerWorker.eligible
  simp only
  split_ifs with hhotkey hmany hhost
  · simp [hhotkey]
  · have hfew : ¬ manifest.resourceRequirements.minGpus ≤ cfg.devices.length := not_le.mpr hmany.2
    simp [hmany.1, hfew]
  · have hfew : ¬ manifest.resourceRequirements.minGpus ≤ cfg.devices.length := not_le.mpr hhost.2
    simp [hhost.1, hfew]
  · have hsame : manifest.assignedHotkey = cfg.hotkeySs58 := not_not.mp hhotkey
    have henough : 1 < manifest.resourceRequirements.minGpus ∨
        manifest.resourceRequirements.placement = "single_host" →
          manifest.resourceRequirements.minGpus ≤ cfg.devices.length := by
      rintro (h | h)
      · exact not_lt.mp fun hlt => hmany ⟨h, hlt⟩
      · exact not_lt.mp fun hlt => hhost ⟨h, hlt⟩
    simp only [hsame, decide_eq_true_eq, true_and]
    exact ⟨fun h => ⟨henough, h⟩, fun h => h.2⟩

/-- A quota book whose workers all come from heartbeats of the fleet. -/
inductive FedBy (fleet : Set FleetWorker) : QuotaBook → Prop where
  | fresh (baseQuota : ℚ) : FedBy fleet { baseQuota := baseQuota }
  | update {q} (identities : List MinerIdentity) {heard : List FleetWorker}
      (hheard : ∀ x ∈ heard, x ∈ fleet) (hq : FedBy fleet q) :
      FedBy fleet (q.updateWorkers identities (heard.map FleetWorker.identity))
  | change {q} (hotkey : String) (f : ℚ≥0 → ℚ≥0) (hq : FedBy fleet q) :
      FedBy fleet (q.changeInflight hotkey f)

def FromFleet (fleet : Set FleetWorker) (q : QuotaBook) : Prop :=
  ∀ a ∈ q.accounts.vals, ∀ w ∈ a.workers.vals, ∃ x ∈ fleet, w = x.identity

theorem FromFleet.setDefaults {fleet : Set FleetWorker} {q : QuotaBook} (h : FromFleet fleet q)
    (identities : List MinerIdentity) : FromFleet fleet { q with
      accounts := q.accounts.setDefaults (identities.map (MinerAccount.fresh · q.baseQuota)) } := by
  intro a ha w hw
  rcases KeyedDict.mem_vals_setDefaults ha with ha | ha
  · exact h a ha w hw
  · obtain ⟨identity, -, rfl⟩ := List.mem_map.mp ha
    cases hw

theorem FromFleet.register {fleet : Set FleetWorker} {q : QuotaBook} (h : FromFleet fleet q)
    {x : FleetWorker} (hx : x ∈ fleet) : FromFleet fleet (q.register x.identity) := by
  intro a ha w hw
  obtain ⟨a', ha', rfl⟩ := List.mem_map.mp ha
  have hold : ∀ v ∈ a'.workers.vals, ∃ y ∈ fleet, v = y.identity := by
    have hdefault : a' ∈ (q.accounts.setDefaults
        [MinerAccount.fresh ⟨0, x.identity.hotkeySs58⟩ q.baseQuota]).vals := ha'
    exact fun v hv => h.setDefaults [⟨0, x.identity.hotkeySs58⟩] a' hdefault v hv
  unfold MinerAccount.addWorker at hw
  split_ifs at hw with hown
  · rcases KeyedDict.mem_upsert hw with rfl | hw
    · exact ⟨x, hx, rfl⟩
    · exact hold w hw
  · exact hold w hw

theorem FedBy.fromFleet {fleet : Set FleetWorker} {q : QuotaBook} (h : FedBy fleet q) :
    FromFleet fleet q := by
  induction h with
  | fresh baseQuota => exact fun a ha => nomatch ha
  | @update q identities heard hheard _ ih =>
    have hregister : ∀ (l : List FleetWorker) (b : QuotaBook), (∀ x ∈ l, x ∈ fleet) →
        FromFleet fleet b →
        FromFleet fleet ((l.map FleetWorker.identity).foldl QuotaBook.register b) := by
      intro l
      induction l with
      | nil => exact fun b _ hb => hb
      | cons x l ihl =>
        exact fun b hl hb => ihl _ (fun y hy => hl y (List.mem_cons_of_mem x hy))
          (hb.register (hl x List.mem_cons_self))
    exact hregister heard _ hheard (ih.setDefaults identities)
  | change hotkey f _ ih =>
    intro a ha w hw
    obtain ⟨a', ha', rfl⟩ := List.mem_map.mp ha
    refine ih a' ha' w ?_
    unfold MinerAccount.addInflight at hw
    split_ifs at hw <;> exact hw

section Emission

variable {p : Platform β} {cfg : StreamingRunConfig β} {d : DispatchConfig}
  {params : StreamingParams}

/-- A job goes to a worker that admits it, and no worker of another name admits it. -/
theorem manifest_admitted_by_assignee_only {fleet : Set FleetWorker} {now grantNow : ℤ}
    {spec : JobSpec} {m m' : StreamManager.Manager β} {manifest : JobManifestV3}
    (hfed : FedBy fleet m.quota)
    (h : StreamManager.emitJob p cfg d params now grantNow spec none m = .ok manifest m') :
    ∃ x ∈ fleet, Picks d m.desk (resourceRequirements spec.params) x.identity ∧
      (manifest.assignedHotkey, manifest.assignedWorker) =
        (x.config.hotkeySs58, some x.config.workerId) ∧
      MinerWorker.eligible x.config manifest = true ∧
      ∀ y ∈ fleet, y.name ≠ x.name → MinerWorker.eligible y.config manifest = false := by
  obtain ⟨worker, _, _, hpicks, -, hsigned, -⟩ := StreamManager.emitJob_ok h
  obtain ⟨requirements, quota, hrequirements, hpick⟩ := picks_iff.mp hpicks
  obtain ⟨a, ha, -, hw, -, hsatisfies, -⟩ := pickWorker_eq_ok hpick
  obtain ⟨x, hx, rfl⟩ := hfed.fromFleet a ha worker hw
  obtain ⟨_, hread, hsigned⟩ := PyJson.bind_eq_ok.mp hsigned
  rw [hrequirements] at hread
  cases hread
  obtain ⟨_, -, hsigned⟩ := PyJson.bind_eq_ok.mp hsigned
  cases hsigned
  refine ⟨x, hx, hpicks, rfl, ?_, ?_⟩
  · have hsize := (x.workerSatisfies_identity.mp hsatisfies).1
    exact eligible_iff.mpr ⟨rfl, fun _ => hsize, Or.inr rfl⟩
  · intro y _ hname
    refine Bool.eq_false_iff.mpr fun hadmitted => ?_
    obtain ⟨hhotkey, -, hworker⟩ := eligible_iff.mp hadmitted
    have hid : x.config.workerId = y.config.workerId :=
      Option.some.inj (hworker.resolve_left (Option.some_ne_none _))
    exact hname (Prod.ext hhotkey.symm hid.symm)

end Emission

section TwoWorkers

open StreamBackpressure

def machine : Probe where
  cudaAvailable := true
  deviceCount := 2
  ncclAvailable := true
  hostname := none
  details := []

def pair : FleetWorker where
  config := { netuid := 0, runId := "r", hotkeySs58 := "A", workerId := "pair",
              deviceGroup := ["cuda:0", "cuda:1"] }
  probe := machine
  sessionNonce := "n"

def single : FleetWorker where
  config := { netuid := 0, runId := "r", hotkeySs58 := "A", workerId := "one", device := "cuda:2" }
  probe := machine
  sessionNonce := "n"

def twoGpuJob : JobSpec :=
  { forwardJob "j" with
    params := [("resource_requirements",
      mkObj [("min_gpus", .int 2), ("placement", .str "single_host")])] }

def heardBoth : StreamManager.Manager Json where
  desk := { bucket := oneMiner, queue := {}
            quota := ({} : QuotaBook).updateWorkers [] ([single, pair].map FleetWorker.identity) }
  cursor := 0

def emitTwoGpuJob : EStateM.Result PyErr (StreamManager.Manager Json) JobManifestV3 :=
  StreamManager.emitJob plainPlatform oneMinerConfig {} { nStages := 1, nMicrobatches := 1 } 0 0
    twoGpuJob none heardBoth

/-- The job is emitted; the worker with two devices admits it and the other does not. -/
theorem two_gpu_job_admitted : ∃ manifest m', emitTwoGpuJob = .ok manifest m' ∧
    ∃ x ∈ ({single, pair} : Set FleetWorker), MinerWorker.eligible x.config manifest = true ∧
      ∀ y ∈ ({single, pair} : Set FleetWorker), y.name ≠ x.name →
        MinerWorker.eligible y.config manifest = false := by
  have hemitted : (match emitTwoGpuJob with | .ok _ _ => true | .error _ _ => false) = true := by
    decide +kernel
  have hfed : FedBy {single, pair} heardBoth.quota := by
    refine FedBy.update [] ?_ (.fresh 5)
    intro x hx
    simpa using hx
  split at hemitted
  · next manifest m' hrun =>
    obtain ⟨x, hx, -, -, hadmits, hothers⟩ := manifest_admitted_by_assignee_only hfed hrun
    exact ⟨manifest, m', hrun, x, hx, hadmits, hothers⟩
  · cases hemitted

end TwoWorkers

end FleetAdmission

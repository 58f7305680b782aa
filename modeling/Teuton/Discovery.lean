import Teuton.BucketPaths
import Teuton.ObjectStore
import Teuton.Scheduler

/-! Worker discovery through heartbeat objects. Anyone who can write under the prefix can
advertise a worker; the miner and the worker of a record need not belong together. -/
namespace Discovery

open PyJson PyText Signatures ObjectStore BucketPaths Protocol Scheduler

variable {β : Type}

inductive DiscoveryRole where
  | train
  | audit
  deriving DecidableEq, Repr

def DiscoveryRole.value : DiscoveryRole → String
  | .train => "train"
  | .audit => "audit"

structure DiscoveryRecord where
  miner : MinerIdentity
  worker : WorkerIdentity
  runId : String
  lastSeenUnix : ℤ
  role : String := "train"

def minerFromDict (d : Json) : Py MinerIdentity := do
  let netuid ← (← d.getItem "netuid").toInt
  let hotkey ← (← d.getItem "hotkey_ss58").asStr
  let _ ← (← d.get "capabilities").fieldsOrEmpty
  return ⟨netuid, hotkey⟩

def recordFromDict (netuid : ℤ) (role : DiscoveryRole) (data : Json) : Py DiscoveryRecord := do
  let worker ← WorkerIdentity.fromDict (← data.getItem "worker")
  let minerData := (← data.get "miner").orElse (mkObj
    [("netuid", .int netuid), ("hotkey_ss58", .str worker.hotkeySs58),
     ("capabilities", .obj worker.capabilities)])
  return {
    miner := ← minerFromDict minerData
    worker := worker
    runId := ← (← data.get "run_id" (.str "")).asStr
    lastSeenUnix := ← ((← data.get "last_seen_unix").orElse (.int 0)).toInt
    role := ← ((← data.get "role").orElse (.str role.value)).asStr }

/-- The order of the sort keys `(role, run_id, hotkey, worker_id)`. -/
def DiscoveryRecord.le (r s : DiscoveryRecord) : Bool :=
  r.role < s.role ∨ r.role = s.role ∧
    (r.runId < s.runId ∨ r.runId = s.runId ∧
      (r.worker.hotkeySs58 < s.worker.hotkeySs58 ∨ r.worker.hotkeySs58 = s.worker.hotkeySs58 ∧
        r.worker.workerId ≤ s.worker.workerId))

/-- The record of a heartbeat object, if it can be read and counts for the run. -/
def liveRecord (p : Platform β) (b : Bucket β) (netuid : ℤ) (role : DiscoveryRole)
    (runId : String) (ttl : Option ℚ) (now : ℚ) (uri : String) : Option DiscoveryRecord :=
  match b.getJson p uri >>= recordFromDict netuid role with
  | .error _ => none
  | .ok record =>
    if record.runId = runId ∧ ttl.all fun t => now - record.lastSeenUnix ≤ t then some record
    else none

def discoverWorkers (p : Platform β) (b : Bucket β) (netuid : ℤ) (role : DiscoveryRole)
    (runId : String) (ttl : Option ℚ) (now : ℚ) : List DiscoveryRecord :=
  let heartbeats := match role with
    | .train => minersPrefix netuid
    | .audit => auditorsPrefix netuid
  let uris := (b.list (b.uriForKey heartbeats)).filter (endsWith · "/heartbeat.json")
  (uris.filterMap (liveRecord p b netuid role runId ttl now)).insertionSort
    fun r s => DiscoveryRecord.le r s

end Discovery

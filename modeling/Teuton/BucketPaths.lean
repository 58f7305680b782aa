import Teuton.PyJson
import Teuton.PyText

/-! The versioned bucket layout: every key the system writes is built here from the subnet,
the run and the identifiers of what is stored. -/
namespace BucketPaths

open PyJson PyText

def root (netuid : ℤ) : String := "v3/netuid=" ++ toString netuid

def runRoot (netuid : ℤ) (runId : String) : String := root netuid ++ "/runs/" ++ runId

def graphsPrefix (netuid : ℤ) (runId : String) : String := runRoot netuid runId ++ "/graphs/"

def graphKey (netuid : ℤ) (runId sha256 : String) : String :=
  graphsPrefix netuid runId ++ sha256 ++ ".json"

def stateKey (netuid : ℤ) (runId : String) : String := runRoot netuid runId ++ "/state.json"

def manifestConfigKey (netuid : ℤ) (runId : String) : String :=
  runRoot netuid runId ++ "/manifest/config.json"

def minersPrefix (netuid : ℤ) : String := root netuid ++ "/miners/"

def workerHeartbeatKey (netuid : ℤ) (hotkey workerId : String) : String :=
  minersPrefix netuid ++ hotkey ++ "/workers/" ++ workerId ++ "/heartbeat.json"

def auditorsPrefix (netuid : ℤ) : String := root netuid ++ "/auditors/"

def auditorHeartbeatKey (netuid : ℤ) (auditorHotkey workerId : String) : String :=
  auditorsPrefix netuid ++ auditorHotkey ++ "/workers/" ++ workerId ++ "/heartbeat.json"

def jobsPrefix (netuid : ℤ) (runId : String) : String := root netuid ++ "/jobs/" ++ runId ++ "/"

def jobManifestKey (netuid : ℤ) (runId jobId : String) : String :=
  jobsPrefix netuid runId ++ jobId ++ "/manifest.json"

def assignmentKey (netuid : ℤ) (runId jobId hotkey : String) : String :=
  root netuid ++ "/assignments/" ++ runId ++ "/" ++ jobId ++ "/hotkey=" ++ hotkey ++ ".json"

def weightsKey (netuid : ℤ) (runId : String) (stepId ub : ℤ) : String :=
  runRoot netuid runId ++ "/weights/step=" ++ toString stepId ++ "/UB-" ++ toString ub ++ ".bin"

def targetKey (netuid : ℤ) (runId : String) (stepId ub : ℤ) : String :=
  runRoot netuid runId ++ "/targets/step=" ++ toString stepId ++ "/cut-" ++ toString ub ++ ".bin"

def artifactPrefix (netuid : ℤ) (runId jobId hotkey workerId : String) (attempt : ℤ) : String :=
  root netuid ++ "/artifacts/" ++ runId ++ "/" ++ jobId ++ "/hotkey=" ++ hotkey ++
    "/worker=" ++ workerId ++ "/attempt=" ++ toString attempt ++ "/"

def artifactKey (netuid : ℤ) (runId jobId hotkey workerId : String) (attempt : ℤ)
    (name : String) (suffix : String := ".bin") : String :=
  artifactPrefix netuid runId jobId hotkey workerId attempt ++ name ++ suffix

def receiptsPrefix (netuid : ℤ) (runId : String) : String :=
  root netuid ++ "/receipts/" ++ runId ++ "/"

def receiptKey (netuid : ℤ) (runId hotkey jobId : String) (attempt : ℤ) : String :=
  receiptsPrefix netuid runId ++ "hotkey=" ++ hotkey ++ "/" ++ jobId ++ "/attempt=" ++
    toString attempt ++ ".json"

def verdictsPrefix (netuid : ℤ) (runId : String) : String :=
  root netuid ++ "/verdicts/" ++ runId ++ "/"

/-- A receipt id as it appears in a key: slashes and colons become underscores. -/
def safeId (receiptId : String) : String := replaceChar ':' '_' (replaceChar '/' '_' receiptId)

def verdictKey (netuid : ℤ) (runId validatorHotkey receiptId : String) : String :=
  verdictsPrefix netuid runId ++ "validator=" ++ validatorHotkey ++ "/" ++ safeId receiptId ++
    ".json"

def auditRoot (netuid : ℤ) (runId : String) : String := root netuid ++ "/audits/" ++ runId

def auditJobsPrefix (netuid : ℤ) (runId : String) : String := auditRoot netuid runId ++ "/jobs/"

def auditJobManifestKey (netuid : ℤ) (runId jobId : String) : String :=
  auditJobsPrefix netuid runId ++ jobId ++ "/manifest.json"

def queueKey (netuid : ℤ) (runId : String) (role : String := "train") : Py String :=
  if role = "train" then .ok (jobsPrefix netuid runId ++ "queue.json")
  else if role = "audit" then .ok (auditJobsPrefix netuid runId ++ "queue.json")
  else .error (.valueError ("queue_key: unknown role '" ++ role ++ "'"))

def auditAssignmentKey (netuid : ℤ) (runId jobId auditorHotkey : String) : String :=
  auditRoot netuid runId ++ "/assignments/" ++ jobId ++ "/hotkey=" ++ auditorHotkey ++ ".json"

def auditResultKey (netuid : ℤ) (runId auditorHotkey receiptId : String) : String :=
  auditRoot netuid runId ++ "/results/auditor=" ++ auditorHotkey ++ "/" ++ safeId receiptId ++
    ".json"

def auditResultsPrefix (netuid : ℤ) (runId : String) : String :=
  auditRoot netuid runId ++ "/results/"

def scoresKey (netuid : ℤ) (windowId : String) : String :=
  root netuid ++ "/scores/window=" ++ windowId ++ "/scores.json"

def telemetryRunPrefix (netuid : ℤ) (runId : String) : String :=
  root netuid ++ "/telemetry/" ++ runId ++ "/"

def telemetryStreamPrefix (netuid : ℤ) (runId stream : String) : String :=
  telemetryRunPrefix netuid runId ++ stream ++ "/"

def padded (n : ℤ) : String :=
  let digits := toString n.natAbs
  if n < 0 then "-" ++ String.ofList (List.replicate (9 - digits.length) '0') ++ digits
  else String.ofList (List.replicate (10 - digits.length) '0') ++ digits

def telemetryEventKey (netuid : ℤ) (runId stream : String) (whenUnix : ℤ) : String :=
  telemetryStreamPrefix netuid runId stream ++ padded whenUnix ++ ".json"

def telemetryChainKey (netuid : ℤ) (runId : String) (whenUnix : ℤ) : String :=
  telemetryEventKey netuid runId "chain" whenUnix

def telemetryScoresKey (netuid : ℤ) (runId : String) (whenUnix : ℤ) : String :=
  telemetryEventKey netuid runId "scores" whenUnix

def telemetryAuditsKey (netuid : ℤ) (runId : String) (whenUnix : ℤ) : String :=
  telemetryEventKey netuid runId "audits" whenUnix

def telemetryOrchestratorKey (netuid : ℤ) (runId : String) (whenUnix : ℤ) : String :=
  telemetryEventKey netuid runId "orchestrator" whenUnix

def telemetryMonitorKey (netuid : ℤ) (runId : String) (whenUnix : ℤ) : String :=
  telemetryEventKey netuid runId "monitor" whenUnix

def runPrefixes (netuid : ℤ) (runId : String) : List String :=
  [runRoot netuid runId ++ "/",
   jobsPrefix netuid runId,
   root netuid ++ "/artifacts/" ++ runId ++ "/",
   receiptsPrefix netuid runId,
   verdictsPrefix netuid runId,
   auditRoot netuid runId ++ "/",
   telemetryRunPrefix netuid runId]

end BucketPaths

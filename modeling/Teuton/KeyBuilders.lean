import Teuton.BucketPaths
import Teuton.PathSegments

/-! The key builders of the bucket layout, read backwards. From a key the builder that made it and
its arguments are recovered, so different objects have different keys. -/
namespace KeyBuilders

open PyJson PyText BucketPaths PathSegments

inductive KeyCall where
  | graph (netuid : ℤ) (runId sha256 : String)
  | state (netuid : ℤ) (runId : String)
  | manifestConfig (netuid : ℤ) (runId : String)
  | workerHeartbeat (netuid : ℤ) (hotkey workerId : String)
  | jobManifest (netuid : ℤ) (runId jobId : String)
  | queue (netuid : ℤ) (runId role : String)
  | assignment (netuid : ℤ) (runId jobId hotkey : String)
  | weights (netuid : ℤ) (runId : String) (stepId ub : ℤ)
  | target (netuid : ℤ) (runId : String) (stepId ub : ℤ)
  | artifact (netuid : ℤ) (runId jobId hotkey workerId : String) (attempt : ℤ) (name : String)
  | receipt (netuid : ℤ) (runId hotkey jobId : String) (attempt : ℤ)
  | auditorHeartbeat (netuid : ℤ) (auditorHotkey workerId : String)
  | auditJobManifest (netuid : ℤ) (runId jobId : String)
  | auditAssignment (netuid : ℤ) (runId jobId auditorHotkey : String)
  | scores (netuid : ℤ) (windowId : String)
  | telemetryEvent (netuid : ℤ) (runId stream : String) (whenUnix : ℤ)
  deriving DecidableEq

def KeyCall.key : KeyCall → Py String
  | .graph n r sha => .ok (graphKey n r sha)
  | .state n r => .ok (stateKey n r)
  | .manifestConfig n r => .ok (manifestConfigKey n r)
  | .workerHeartbeat n h w => .ok (workerHeartbeatKey n h w)
  | .jobManifest n r j => .ok (jobManifestKey n r j)
  | .queue n r role => queueKey n r role
  | .assignment n r j h => .ok (assignmentKey n r j h)
  | .weights n r s u => .ok (weightsKey n r s u)
  | .target n r s u => .ok (targetKey n r s u)
  | .artifact n r j h w a name => .ok (artifactKey n r j h w a name)
  | .receipt n r h j a => .ok (receiptKey n r h j a)
  | .auditorHeartbeat n h w => .ok (auditorHeartbeatKey n h w)
  | .auditJobManifest n r j => .ok (auditJobManifestKey n r j)
  | .auditAssignment n r j h => .ok (auditAssignmentKey n r j h)
  | .scores n window => .ok (scoresKey n window)
  | .telemetryEvent n r stream t => .ok (telemetryEventKey n r stream t)

def SlashFree (s : String) : Prop := '/' ∉ s.toList

instance (s : String) : Decidable (SlashFree s) := inferInstanceAs (Decidable (¬ _))

/-- Run ids, job ids, hotkeys, worker ids and names contain no slash. -/
def KeyCall.Plain : KeyCall → Prop
  | .graph _ r _ => SlashFree r
  | .state _ r => SlashFree r
  | .manifestConfig _ r => SlashFree r
  | .workerHeartbeat _ h w => SlashFree h ∧ SlashFree w
  | .jobManifest _ r j => SlashFree r ∧ SlashFree j
  | .queue _ r _ => SlashFree r
  | .assignment _ r j h => SlashFree r ∧ SlashFree j ∧ SlashFree h
  | .weights _ r _ _ => SlashFree r
  | .target _ r _ _ => SlashFree r
  | .artifact _ r j h w _ name =>
    SlashFree r ∧ SlashFree j ∧ SlashFree h ∧ SlashFree w ∧ SlashFree name
  | .receipt _ r h j _ => SlashFree r ∧ SlashFree h ∧ SlashFree j
  | .auditorHeartbeat _ h w => SlashFree h ∧ SlashFree w
  | .auditJobManifest _ r j => SlashFree r ∧ SlashFree j
  | .auditAssignment _ r j h => SlashFree r ∧ SlashFree j ∧ SlashFree h
  | .scores _ _ => True
  | .telemetryEvent _ r _ _ => SlashFree r

section Numbers

def readInt : List Char → ℤ
  | '-' :: digits => -digitsToNat digits
  | digits => digitsToNat digits

theorem digitsToNat_zeros (k : ℕ) (digits : List Char) :
    digitsToNat (List.replicate k '0' ++ digits) = digitsToNat digits := by
  induction k with
  | zero => rfl
  | succ k ih => exact ih

theorem digitsToNat_toString (n : ℕ) : digitsToNat (toString n).toList = n := by
  rw [Nat.toString_eq_repr, Nat.toList_repr]
  exact Nat.ofDigitChars_toDigits (by decide) (by decide)

theorem readInt_digits {digits : List Char} (h : '-' ∉ digits) :
    readInt digits = digitsToNat digits := by
  cases digits with
  | nil => rfl
  | cons c digits =>
    have hc : c ≠ '-' := fun hc => h (hc ▸ List.mem_cons_self)
    simp [readInt, hc]

theorem dash_not_mem (n : ℕ) : '-' ∉ (toString n).toList := by
  intro h
  exact absurd (mem_toString_nat h) (by decide)

theorem readInt_toString (n : ℤ) : readInt (toString n).toList = n := by
  cases n with
  | ofNat m => exact (readInt_digits (dash_not_mem m)).trans (by rw [digitsToNat_toString]; rfl)
  | negSucc m =>
    have htext : (toString (Int.negSucc m)).toList = '-' :: (toString (m + 1)).toList := by
      change ("-" ++ toString (m + 1)).toList = _
      rw [String.toList_append]
      rfl
    rw [htext, readInt, digitsToNat_toString]
    rfl

theorem readInt_padded (n : ℤ) : readInt (padded n).toList = n := by
  have hdash (k m : ℕ) : '-' ∉ List.replicate k '0' ++ (toString m).toList := by
    simp only [List.mem_append, List.mem_replicate, not_or]
    exact ⟨by simp, dash_not_mem m⟩
  unfold padded
  by_cases hn : n < 0
  · simp only [hn, if_true, String.toList_append, String.toList_ofList]
    change -((digitsToNat (List.replicate _ '0' ++ (toString n.natAbs).toList) : ℕ) : ℤ) = n
    rw [digitsToNat_zeros, digitsToNat_toString]
    omega
  · simp only [hn, if_false, String.toList_append, String.toList_ofList]
    rw [readInt_digits (hdash _ _), digitsToNat_zeros, digitsToNat_toString]
    omega

theorem slash_not_mem_toString (n : ℤ) : '/' ∉ (toString n).toList := by
  intro h
  rcases mem_toString_int h with h | h
  · exact absurd h (by decide)
  · exact absurd h (by decide)

theorem slash_not_mem_padded (n : ℤ) : '/' ∉ (padded n).toList := by
  have hdigits : '/' ∉ (toString n.natAbs).toList := slash_not_mem_toString n.natAbs
  unfold padded
  by_cases hn : n < 0
  · simp only [hn, if_true, String.toList_append, String.toList_ofList, List.mem_append,
      List.mem_replicate, not_or]
    exact ⟨⟨by decide, by simp⟩, hdigits⟩
  · simp only [hn, if_false, String.toList_append, String.toList_ofList, List.mem_append,
      List.mem_replicate, not_or]
    exact ⟨by simp, hdigits⟩

end Numbers

section Reading

def part (label text : String) (l : List Char) : List Char :=
  label.toList ++ (text.toList ++ '/' :: l)

def file (label text suffix : String) : List Char :=
  label.toList ++ (text.toList ++ suffix.toList)

def readPart (label : String) (l : List Char) : Option (String × List Char) := do
  let (text, l) ← cut '/' (← l.dropPrefix? label.toList)
  return (String.ofList text, l)

def readFile (label suffix : String) (l : List Char) : Option String := do
  let text ← (← l.dropPrefix? label.toList).dropSuffix? suffix.toList
  return String.ofList text

theorem readPart_part {label text : String} (h : SlashFree text) (l : List Char) :
    readPart label (part label text l) = some (text, l) := by
  simp [readPart, part, dropPrefix?_append, cut_append h]

theorem readPart_none {l : List Char} (h : '/' ∉ l) : readPart "" l = none := by
  simp [readPart, cut_eq_none h]

theorem readFile_file (label text suffix : String) :
    readFile label suffix (file label text suffix) = some text := by
  simp [readFile, file, dropPrefix?_append, dropSuffix?_append]

def readNumber (s : String) : ℤ := readInt s.toList

@[simp] theorem readNumber_toString (n : ℤ) : readNumber (toString n) = n := readInt_toString n

@[simp] theorem readNumber_padded (n : ℤ) : readNumber (padded n) = n := readInt_padded n

def readStepFile (label : String) (l : List Char) : Option (ℤ × ℤ) := do
  let (s, l) ← readPart "step=" l
  return (readNumber s, readNumber (← readFile label ".bin" l))

theorem readStepFile_text (label : String) (stepId ub : ℤ) :
    readStepFile label (part "step=" (toString stepId) (file label (toString ub) ".bin")) =
      some (stepId, ub) := by
  rw [readStepFile, readPart_part (slash_not_mem_toString stepId)]
  simp only [Option.bind_eq_bind, Option.bind_some, readFile_file, readNumber_toString]
  rfl

def readRunObject (n : ℤ) (r kind : String) (l : List Char) : Option KeyCall :=
  match kind with
  | "graphs" => (readFile "" ".json" l).map (.graph n r)
  | "manifest" => some (.manifestConfig n r)
  | "weights" => (readStepFile "UB-" l).map fun p => .weights n r p.1 p.2
  | "targets" => (readStepFile "cut-" l).map fun p => .target n r p.1 p.2
  | _ => none

def readRunKey (n : ℤ) (r : String) (l : List Char) : Option KeyCall :=
  match readPart "" l with
  | none => some (.state n r)
  | some (kind, l) => readRunObject n r kind l

def readJobKey (n : ℤ) (r : String) (l : List Char) : Option KeyCall :=
  match readPart "" l with
  | none => some (.queue n r "train")
  | some (j, _) => some (.jobManifest n r j)

def readAuditObject (n : ℤ) (r kind : String) (l : List Char) : Option KeyCall :=
  match kind with
  | "jobs" =>
    match readPart "" l with
    | none => some (.queue n r "audit")
    | some (j, _) => some (.auditJobManifest n r j)
  | "assignments" => do
    let (j, l) ← readPart "" l
    return .auditAssignment n r j (← readFile "hotkey=" ".json" l)
  | _ => none

def readAuditKey (n : ℤ) (r : String) (l : List Char) : Option KeyCall := do
  let (kind, l) ← readPart "" l
  readAuditObject n r kind l

def readArtifactKey (n : ℤ) (r : String) (l : List Char) : Option KeyCall := do
  let (j, l) ← readPart "" l
  let (h, l) ← readPart "hotkey=" l
  let (w, l) ← readPart "worker=" l
  let (a, l) ← readPart "attempt=" l
  return .artifact n r j h w (readNumber a) (← readFile "" ".bin" l)

def readReceiptKey (n : ℤ) (r : String) (l : List Char) : Option KeyCall := do
  let (h, l) ← readPart "hotkey=" l
  let (j, l) ← readPart "" l
  return .receipt n r h j (readNumber (← readFile "attempt=" ".json" l))

def readAssignmentKey (n : ℤ) (r : String) (l : List Char) : Option KeyCall := do
  let (j, l) ← readPart "" l
  return .assignment n r j (← readFile "hotkey=" ".json" l)

def readTelemetryKey (n : ℤ) (r : String) (l : List Char) : Option KeyCall := do
  let (stream, l) ← cutLast '/' l
  return .telemetryEvent n r (String.ofList stream) (readNumber (← readFile "" ".json" l))

def readHeartbeat (l : List Char) : Option (String × String) := do
  let (h, l) ← readPart "" l
  let (_, l) ← readPart "" l
  let (w, _) ← readPart "" l
  return (h, w)

def readOfRun (read : String → List Char → Option KeyCall) (l : List Char) : Option KeyCall := do
  let (r, l) ← readPart "" l
  read r l

def readBranch (n : ℤ) (branch : String) (l : List Char) : Option KeyCall :=
  match branch with
  | "miners" => (readHeartbeat l).map fun p => .workerHeartbeat n p.1 p.2
  | "auditors" => (readHeartbeat l).map fun p => .auditorHeartbeat n p.1 p.2
  | "scores" => (readFile "window=" "/scores.json" l).map (.scores n)
  | "runs" => readOfRun (readRunKey n) l
  | "jobs" => readOfRun (readJobKey n) l
  | "assignments" => readOfRun (readAssignmentKey n) l
  | "artifacts" => readOfRun (readArtifactKey n) l
  | "receipts" => readOfRun (readReceiptKey n) l
  | "audits" => readOfRun (readAuditKey n) l
  | "telemetry" => readOfRun (readTelemetryKey n) l
  | _ => none

def readKey (key : String) : Option KeyCall := do
  let (n, l) ← readPart "v3/netuid=" key.toList
  let (branch, l) ← readPart "" l
  readBranch (readNumber n) branch l

theorem readOfRun_part {r : String} (hr : SlashFree r) (read : String → List Char → Option KeyCall)
    (l : List Char) : readOfRun read (part "" r l) = read r l := by
  simp [readOfRun, readPart_part hr]

theorem readKey_of {key branch : String} {n : ℤ} {l : List Char} (hbranch : '/' ∉ branch.toList)
    (h : key.toList = part "v3/netuid=" (toString n) (part "" branch l)) :
    readKey key = readBranch n branch l := by
  rw [readKey, h, readPart_part (slash_not_mem_toString n)]
  simp only [Option.bind_eq_bind, Option.bind_some, readPart_part hbranch, readNumber_toString]

section Builders

variable {n : ℤ} {r j h w : String}

theorem toList_root (n : ℤ) : (root n).toList = "v3/netuid=".toList ++ (toString n).toList := by
  rw [root, String.toList_append]

theorem toList_runRoot (n : ℤ) (r : String) :
    (runRoot n r).toList = (root n).toList ++ ("/runs/".toList ++ r.toList) := by
  rw [runRoot, String.toList_append, String.toList_append, List.append_assoc]

theorem part_eq (label text : String) (l : List Char) :
    part label text l = label.toList ++ (text.toList ++ '/' :: l) := rfl

theorem file_eq (label text suffix : String) :
    file label text suffix = label.toList ++ (text.toList ++ suffix.toList) := rfl

theorem readKey_run {kind key : String} {l : List Char} (hr : SlashFree r)
    (hkind : SlashFree kind) (htext : key.toList =
      part "v3/netuid=" (toString n) (part "" "runs" (part "" r (part "" kind l)))) :
    readKey key = readRunObject n r kind l := by
  rw [readKey_of (by decide) htext]
  change readOfRun (readRunKey n) _ = _
  rw [readOfRun_part hr, readRunKey, readPart_part hkind]

theorem readKey_graph (sha : String) (hr : SlashFree r) :
    readKey (graphKey n r sha) = some (.graph n r sha) := by
  have htext : (graphKey n r sha).toList = part "v3/netuid=" (toString n)
      (part "" "runs" (part "" r (part "" "graphs" (file "" sha ".json")))) := by
    simp [graphKey, graphsPrefix, toList_runRoot, toList_root, part_eq, file_eq]
  rw [readKey_run hr (by decide) htext]
  change (readFile "" ".json" _).map _ = _
  rw [readFile_file]
  rfl

theorem readKey_state (hr : SlashFree r) : readKey (stateKey n r) = some (.state n r) := by
  have htext : (stateKey n r).toList = part "v3/netuid=" (toString n)
      (part "" "runs" (part "" r "state.json".toList)) := by
    simp [stateKey, toList_runRoot, toList_root, part_eq]
  rw [readKey_of (by decide) htext]
  change readOfRun (readRunKey n) _ = _
  rw [readOfRun_part hr, readRunKey, readPart_none (by decide)]

theorem readKey_manifestConfig (hr : SlashFree r) :
    readKey (manifestConfigKey n r) = some (.manifestConfig n r) := by
  have htext : (manifestConfigKey n r).toList = part "v3/netuid=" (toString n)
      (part "" "runs" (part "" r (part "" "manifest" "config.json".toList))) := by
    simp [manifestConfigKey, toList_runRoot, toList_root, part_eq]
  exact readKey_run hr (by decide) htext

theorem readKey_weights (stepId ub : ℤ) (hr : SlashFree r) :
    readKey (weightsKey n r stepId ub) = some (.weights n r stepId ub) := by
  have htext : (weightsKey n r stepId ub).toList = part "v3/netuid=" (toString n)
      (part "" "runs" (part "" r (part "" "weights" (part "step=" (toString stepId)
        (file "UB-" (toString ub) ".bin"))))) := by
    simp [weightsKey, toList_runRoot, toList_root, part_eq, file_eq]
  rw [readKey_run hr (by decide) htext]
  change (readStepFile "UB-" _).map _ = _
  rw [readStepFile_text]
  rfl

theorem readKey_target (stepId ub : ℤ) (hr : SlashFree r) :
    readKey (targetKey n r stepId ub) = some (.target n r stepId ub) := by
  have htext : (targetKey n r stepId ub).toList = part "v3/netuid=" (toString n)
      (part "" "runs" (part "" r (part "" "targets" (part "step=" (toString stepId)
        (file "cut-" (toString ub) ".bin"))))) := by
    simp [targetKey, toList_runRoot, toList_root, part_eq, file_eq]
  rw [readKey_run hr (by decide) htext]
  change (readStepFile "cut-" _).map _ = _
  rw [readStepFile_text]
  rfl

theorem readHeartbeat_text (hh : SlashFree h) (hw : SlashFree w) :
    readHeartbeat (part "" h (part "" "workers" (part "" w "heartbeat.json".toList))) =
      some (h, w) := by
  simp [readHeartbeat, readPart_part hh, readPart_part (show SlashFree "workers" by decide),
    readPart_part hw]

theorem readKey_workerHeartbeat (hh : SlashFree h) (hw : SlashFree w) :
    readKey (workerHeartbeatKey n h w) = some (.workerHeartbeat n h w) := by
  have htext : (workerHeartbeatKey n h w).toList = part "v3/netuid=" (toString n)
      (part "" "miners" (part "" h (part "" "workers" (part "" w "heartbeat.json".toList)))) := by
    simp [workerHeartbeatKey, minersPrefix, toList_root, part_eq]
  rw [readKey_of (by decide) htext]
  change (readHeartbeat _).map _ = _
  rw [readHeartbeat_text hh hw]
  rfl

theorem readKey_auditorHeartbeat (hh : SlashFree h) (hw : SlashFree w) :
    readKey (auditorHeartbeatKey n h w) = some (.auditorHeartbeat n h w) := by
  have htext : (auditorHeartbeatKey n h w).toList = part "v3/netuid=" (toString n)
      (part "" "auditors" (part "" h (part "" "workers" (part "" w "heartbeat.json".toList)))) := by
    simp [auditorHeartbeatKey, auditorsPrefix, toList_root, part_eq]
  rw [readKey_of (by decide) htext]
  change (readHeartbeat _).map _ = _
  rw [readHeartbeat_text hh hw]
  rfl

theorem readKey_scores (window : String) :
    readKey (scoresKey n window) = some (.scores n window) := by
  have htext : (scoresKey n window).toList = part "v3/netuid=" (toString n)
      (part "" "scores" (file "window=" window "/scores.json")) := by
    simp [scoresKey, toList_root, part_eq, file_eq]
  rw [readKey_of (by decide) htext]
  change (readFile "window=" "/scores.json" _).map _ = _
  rw [readFile_file]
  rfl

theorem readKey_jobManifest (hr : SlashFree r) (hj : SlashFree j) :
    readKey (jobManifestKey n r j) = some (.jobManifest n r j) := by
  have htext : (jobManifestKey n r j).toList = part "v3/netuid=" (toString n)
      (part "" "jobs" (part "" r (part "" j "manifest.json".toList))) := by
    simp [jobManifestKey, jobsPrefix, toList_root, part_eq]
  rw [readKey_of (by decide) htext]
  change readOfRun (readJobKey n) _ = _
  rw [readOfRun_part hr, readJobKey, readPart_part hj]

theorem readKey_audit {kind key : String} {l : List Char} (hr : SlashFree r)
    (hkind : SlashFree kind) (htext : key.toList =
      part "v3/netuid=" (toString n) (part "" "audits" (part "" r (part "" kind l)))) :
    readKey key = readAuditObject n r kind l := by
  rw [readKey_of (by decide) htext]
  change readOfRun (readAuditKey n) _ = _
  rw [readOfRun_part hr, readAuditKey, readPart_part hkind]
  rfl

theorem readKey_auditJobManifest (hr : SlashFree r) (hj : SlashFree j) :
    readKey (auditJobManifestKey n r j) = some (.auditJobManifest n r j) := by
  have htext : (auditJobManifestKey n r j).toList = part "v3/netuid=" (toString n)
      (part "" "audits" (part "" r (part "" "jobs" (part "" j "manifest.json".toList)))) := by
    simp [auditJobManifestKey, auditJobsPrefix, auditRoot, toList_root, part_eq]
  rw [readKey_audit hr (by decide) htext]
  simp [readAuditObject, readPart_part hj]

theorem readKey_queue {role key : String} (hr : SlashFree r) (hkey : queueKey n r role = .ok key) :
    readKey key = some (.queue n r role) := by
  unfold queueKey at hkey
  split_ifs at hkey with htrain haudit
  · have htext : key.toList = part "v3/netuid=" (toString n)
        (part "" "jobs" (part "" r "queue.json".toList)) := by
      simp [← Except.ok.inj hkey, jobsPrefix, root, part]
    rw [readKey_of (by decide) htext]
    change readOfRun (readJobKey n) _ = _
    rw [readOfRun_part hr, readJobKey, readPart_none (by decide), htrain]
  · have htext : key.toList = part "v3/netuid=" (toString n)
        (part "" "audits" (part "" r (part "" "jobs" "queue.json".toList))) := by
      simp [← Except.ok.inj hkey, auditJobsPrefix, auditRoot, root, part]
    have hnone : readPart "" "queue.json".toList = none := readPart_none (by decide)
    rw [readKey_audit hr (by decide) htext, haudit]
    change (match readPart "" "queue.json".toList with
      | none => some (.queue n r "audit")
      | some (j, _) => some (.auditJobManifest n r j)) = some (KeyCall.queue n r "audit")
    rw [hnone]

theorem readKey_assignment (hr : SlashFree r) (hj : SlashFree j) (hotkey : String) :
    readKey (assignmentKey n r j hotkey) = some (.assignment n r j hotkey) := by
  have htext : (assignmentKey n r j hotkey).toList = part "v3/netuid=" (toString n)
      (part "" "assignments" (part "" r (part "" j (file "hotkey=" hotkey ".json")))) := by
    simp [assignmentKey, toList_root, part_eq, file_eq]
  rw [readKey_of (by decide) htext]
  change readOfRun (readAssignmentKey n) _ = _
  rw [readOfRun_part hr]
  simp [readAssignmentKey, readPart_part hj, readFile_file]

theorem readKey_auditAssignment (hr : SlashFree r) (hj : SlashFree j) (hotkey : String) :
    readKey (auditAssignmentKey n r j hotkey) = some (.auditAssignment n r j hotkey) := by
  have htext : (auditAssignmentKey n r j hotkey).toList = part "v3/netuid=" (toString n)
      (part "" "audits" (part "" r (part "" "assignments" (part "" j
        (file "hotkey=" hotkey ".json"))))) := by
    simp [auditAssignmentKey, auditRoot, toList_root, part_eq, file_eq]
  rw [readKey_audit hr (by decide) htext]
  simp [readAuditObject, readPart_part hj, readFile_file]

theorem readKey_artifact (attempt : ℤ) (name : String) (hr : SlashFree r) (hj : SlashFree j)
    (hh : SlashFree h) (hw : SlashFree w) :
    readKey (artifactKey n r j h w attempt name) = some (.artifact n r j h w attempt name) := by
  have htext : (artifactKey n r j h w attempt name).toList = part "v3/netuid=" (toString n)
      (part "" "artifacts" (part "" r (part "" j (part "hotkey=" h (part "worker=" w
        (part "attempt=" (toString attempt) (file "" name ".bin"))))))) := by
    simp [artifactKey, artifactPrefix, toList_root, part_eq, file_eq]
  rw [readKey_of (by decide) htext]
  change readOfRun (readArtifactKey n) _ = _
  rw [readOfRun_part hr, readArtifactKey]
  simp only [readPart_part hj, readPart_part hh, readPart_part hw, Option.bind_eq_bind,
    Option.bind_some, readPart_part (slash_not_mem_toString attempt), readFile_file,
    readNumber_toString]
  rfl

theorem readKey_receipt (attempt : ℤ) (hr : SlashFree r) (hh : SlashFree h) (hj : SlashFree j) :
    readKey (receiptKey n r h j attempt) = some (.receipt n r h j attempt) := by
  have htext : (receiptKey n r h j attempt).toList = part "v3/netuid=" (toString n)
      (part "" "receipts" (part "" r (part "hotkey=" h (part "" j
        (file "attempt=" (toString attempt) ".json"))))) := by
    simp [receiptKey, receiptsPrefix, toList_root, part_eq, file_eq]
  rw [readKey_of (by decide) htext]
  change readOfRun (readReceiptKey n) _ = _
  rw [readOfRun_part hr, readReceiptKey]
  simp only [readPart_part hh, readPart_part hj, Option.bind_eq_bind, Option.bind_some,
    readFile_file, readNumber_toString]
  rfl

theorem readKey_telemetryEvent (stream : String) (whenUnix : ℤ) (hr : SlashFree r) :
    readKey (telemetryEventKey n r stream whenUnix) =
      some (.telemetryEvent n r stream whenUnix) := by
  have htext : (telemetryEventKey n r stream whenUnix).toList = part "v3/netuid=" (toString n)
      (part "" "telemetry" (part "" r (stream.toList ++ '/' ::
        file "" (padded whenUnix) ".json"))) := by
    simp [telemetryEventKey, telemetryStreamPrefix, telemetryRunPrefix, toList_root, part_eq, file_eq]
  have hfile : '/' ∉ file "" (padded whenUnix) ".json" := by
    simp only [file, List.mem_append, not_or]
    exact ⟨by decide, slash_not_mem_padded whenUnix, by decide⟩
  rw [readKey_of (by decide) htext]
  change readOfRun (readTelemetryKey n) _ = _
  rw [readOfRun_part hr, readTelemetryKey, cutLast_append hfile]
  simp only [Option.bind_eq_bind, Option.bind_some, readFile_file, readNumber_padded,
    String.ofList_toList]
  rfl

end Builders

theorem readKey_of_key {c : KeyCall} (hc : c.Plain) {key : String} (h : c.key = .ok key) :
    readKey key = some c := by
  cases c with
  | queue n r role => exact readKey_queue hc h
  | graph n r sha => exact Except.ok.inj h ▸ readKey_graph sha hc
  | state n r => exact Except.ok.inj h ▸ readKey_state hc
  | manifestConfig n r => exact Except.ok.inj h ▸ readKey_manifestConfig hc
  | workerHeartbeat n hotkey w => exact Except.ok.inj h ▸ readKey_workerHeartbeat hc.1 hc.2
  | jobManifest n r j => exact Except.ok.inj h ▸ readKey_jobManifest hc.1 hc.2
  | assignment n r j hotkey => exact Except.ok.inj h ▸ readKey_assignment hc.1 hc.2.1 hotkey
  | weights n r s u => exact Except.ok.inj h ▸ readKey_weights s u hc
  | target n r s u => exact Except.ok.inj h ▸ readKey_target s u hc
  | artifact n r j hotkey w a name =>
    exact Except.ok.inj h ▸ readKey_artifact a name hc.1 hc.2.1 hc.2.2.1 hc.2.2.2.1
  | receipt n r hotkey j a => exact Except.ok.inj h ▸ readKey_receipt a hc.1 hc.2.1 hc.2.2
  | auditorHeartbeat n hotkey w => exact Except.ok.inj h ▸ readKey_auditorHeartbeat hc.1 hc.2
  | auditJobManifest n r j => exact Except.ok.inj h ▸ readKey_auditJobManifest hc.1 hc.2
  | auditAssignment n r j hotkey =>
    exact Except.ok.inj h ▸ readKey_auditAssignment hc.1 hc.2.1 hotkey
  | scores n window => exact Except.ok.inj h ▸ readKey_scores window
  | telemetryEvent n r stream t => exact Except.ok.inj h ▸ readKey_telemetryEvent stream t hc

end Reading

/-- Calls that differ in the builder or in an argument never return the same key. -/
theorem bucket_layout_injective {c d : KeyCall} (hc : c.Plain) (hd : d.Plain) (hne : c ≠ d)
    (key : String) (hkey : c.key = .ok key) : d.key ≠ .ok key := by
  intro hkey'
  have hread := readKey_of_key hc hkey
  rw [readKey_of_key hd hkey'] at hread
  exact hne (Option.some.inj hread).symm

/-- The manifest of a job that is called like the queue's file is not the queue. -/
theorem queue_named_job_apart :
    (KeyCall.jobManifest 1 "r" "queue.json").Plain ∧ (KeyCall.queue 1 "r" "train").Plain ∧
      (KeyCall.queue 1 "r" "train").key ≠ .ok "v3/netuid=1/jobs/r/queue.json/manifest.json" := by
  have hjob : (KeyCall.jobManifest 1 "r" "queue.json").Plain := ⟨by decide, by decide⟩
  have hqueue : (KeyCall.queue 1 "r" "train").Plain := by unfold KeyCall.Plain; decide
  exact ⟨hjob, hqueue, bucket_layout_injective hjob hqueue (by decide) _ rfl⟩

end KeyBuilders

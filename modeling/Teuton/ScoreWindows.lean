import Teuton.BucketPaths
import Teuton.ComputeUnits
import Teuton.KeyedDict
import Teuton.ProtocolRoundTrip

/-! Score windows from the receipts and verdicts in the bucket. The receipts and the verdicts
that pass their signature check are collected in dictionaries by receipt id; a loop over the
receipts then adds the expected compute units of each to the window of the hotkey it names,
with the manifests and graphs it loads kept in two caches. -/
namespace ScoreWindows

open PyJson PyText Signatures ObjectStore BucketPaths GraphIr ComputeUnits Protocol

variable {β : Type}

structure ScoreArgs where
  netuid : ℤ
  runId : String
  windowId : Option String := none
  validatorSecret : String := "validator-dev-secret"
  validatorHotkey : String := ""

def ScoreArgs.window (a : ScoreArgs) : String :=
  match a.windowId with
  | some w => if w = "" then "run=" ++ a.runId else w
  | none => "run=" ++ a.runId

def jsonUris (b : Bucket β) (keyPrefix : String) : List String :=
  (b.list (b.uriForKey keyPrefix)).filter (endsWith · ".json")

def loadReceipt (p : Platform β) (b : Bucket β) (uri : String) : Py JobReceiptV3 := do
  JobReceiptV3.fromDict (← b.getJson p uri)

def loadReceipts (p : Platform β) (b : Bucket β) (a : ScoreArgs) : Py (List JobReceiptV3) :=
  (jsonUris b (receiptsPrefix a.netuid a.runId)).mapM (loadReceipt p b)

def verdictValid (p : Platform β) (a : ScoreArgs) (v : VerificationVerdictV3) : Py Bool :=
  match v.validatorSignature with
  | none => .ok false
  | some signature =>
    if signature = "" then .ok false
    else do
      let identity := if a.validatorHotkey = "" then v.validatorHotkey else a.validatorHotkey
      if ← verifyIdentityDict p v.unsignedDict identity signature then return true
      verifyDict p v.unsignedDict a.validatorSecret signature

def loadVerdict (p : Platform β) (b : Bucket β) (a : ScoreArgs) (uri : String) :
    Py (Option VerificationVerdictV3) := do
  let v ← VerificationVerdictV3.fromDict (← b.getJson p uri)
  return if ← verdictValid p a v then some v else none

def loadVerdicts (p : Platform β) (b : Bucket β) (a : ScoreArgs) :
    Py (List VerificationVerdictV3) := do
  let verdicts ← (jsonUris b (verdictsPrefix a.netuid a.runId)).mapM (loadVerdict p b a)
  return verdicts.filterMap id

abbrev Receipts := KeyedDict JobReceiptV3.receiptId
abbrev Verdicts := KeyedDict VerificationVerdictV3.receiptId
abbrev Windows := KeyedDict MinerScoreWindow.hotkeySs58

/-- Manifests by job id and graphs by content address, as far as they were loaded. -/
structure Caches where
  manifests : SortedDict String JobManifestV3 := .empty
  graphs : SortedDict String Graph := .empty

def findManifest (p : Platform β) (bucket : String) (netuid : ℤ) (receipt : JobReceiptV3) :
    Fetch β JobManifestV3 := do
  JobManifestV3.fromDict
    (← fetchJson p (joinUri bucket (jobManifestKey netuid receipt.runId receipt.jobId)))

def fetchManifestGraph (p : Platform β) (manifest : JobManifestV3) : Fetch β Graph :=
  fetchGraph p manifest.graphRef.sha256 manifest.graphRef.uri
    ("graph hash mismatch for job " ++ manifest.jobId)

def cachedManifest (p : Platform β) (b : Bucket β) (netuid : ℤ) (receipt : JobReceiptV3)
    (c : Caches) : Py (JobManifestV3 × Caches) :=
  match c.manifests.find? receipt.jobId with
  | some manifest => .ok (manifest, c)
  | none => do
    let manifest ← (findManifest p b.name netuid receipt).run b.get
    return (manifest, { c with manifests := c.manifests.insert receipt.jobId manifest })

def cachedGraph (p : Platform β) (b : Bucket β) (manifest : JobManifestV3) (c : Caches) :
    Py (Graph × Caches) :=
  match c.graphs.find? manifest.graphRef.sha256 with
  | some graph => .ok (graph, c)
  | none => do
    let graph ← (fetchManifestGraph p manifest).run b.get
    return (graph, { c with graphs := c.graphs.insert manifest.graphRef.sha256 graph })

/-- Compute units counted for a receipt, and the caches afterwards. Whatever fails while they
are looked up, the receipt counts one unit. -/
def expectedCuForReceipt (p : Platform β) (b : Bucket β) (netuid : ℤ) (receipt : JobReceiptV3)
    (c : Caches) : ℚ × Caches :=
  match cachedManifest p b netuid receipt c with
  | .error _ => (1, c)
  | .ok (manifest, c₁) =>
    match cachedGraph p b manifest c₁ with
    | .error _ => (1, c₁)
    | .ok (graph, c₂) =>
      match expectedComputeUnits p graph with
      | .error _ => (1, c₂)
      | .ok cu => (cu, c₂)

def creditWindow (verdict : Option VerificationVerdictV3) (cu : ℚ) (w : MinerScoreWindow) :
    MinerScoreWindow :=
  let w := { w with receipts := w.receipts + 1 }
  match verdict with
  | none => { w with unsampledCu := w.unsampledCu + cu }
  | some v =>
    let w := { w with verdicts := w.verdicts + 1 }
    if v.status = "pass" then { w with passCu := w.passCu + cu }
    else if v.status = "fail" then { w with failCu := w.failCu + cu }
    else { w with unsampledCu := w.unsampledCu + cu * (1 / 2) }

structure LoopState where
  caches : Caches := {}
  windows : Windows := .empty

def windowOf (a : ScoreArgs) (windows : Windows) (hotkey : String) : MinerScoreWindow :=
  (windows.get? hotkey).getD { netuid := a.netuid, windowId := a.window, hotkeySs58 := hotkey }

def scoreReceipt (p : Platform β) (b : Bucket β) (a : ScoreArgs) (verdicts : Verdicts)
    (s : LoopState) (receipt : JobReceiptV3) : LoopState :=
  let counted := expectedCuForReceipt p b a.netuid receipt s.caches
  let w := windowOf a s.windows receipt.worker.hotkeySs58
  { caches := counted.2
    windows := s.windows.set (creditWindow (verdicts.get? receipt.receiptId) counted.1 w) }

def scoreReceipts (p : Platform β) (b : Bucket β) (a : ScoreArgs) (verdicts : Verdicts)
    (receipts : List JobReceiptV3) : LoopState :=
  receipts.foldl (scoreReceipt p b a verdicts) {}

def finishWindow (w : MinerScoreWindow) : MinerScoreWindow :=
  let checked := w.passCu + w.failCu
  let trust :=
    if checked = 0 then 1 / 4
    else if 0 < w.failCu then max 0 ((w.passCu - 2 * w.failCu) / checked)
    else 1
  { w with trustMultiplier := trust, score := w.passCu + w.unsampledCu * trust }

theorem finishWindow_hotkey (w : MinerScoreWindow) :
    (finishWindow w).hotkeySs58 = w.hotkeySs58 := rfl

def summarizeScores (p : Platform β) (b : Bucket β) (a : ScoreArgs) : Py (Windows × Bucket β) := do
  let receipts : Receipts := .ofList (← loadReceipts p b a)
  let verdicts : Verdicts := .ofList (← loadVerdicts p b a)
  let looped := (scoreReceipts p b a verdicts receipts.vals).windows
  let windows := looped.mapVals finishWindow finishWindow_hotkey
  let body := mkObj (windows.vals.map fun w => (w.hotkeySs58, w.toDict))
  let b' ← b.putJson p (b.uriForKey (scoresKey a.netuid a.window)) body
  return (windows, b')

@[simp] theorem creditWindow_hotkey (verdict : Option VerificationVerdictV3) (cu : ℚ)
    (w : MinerScoreWindow) : (creditWindow verdict cu w).hotkeySs58 = w.hotkeySs58 := by
  unfold creditWindow
  cases verdict with
  | none => rfl
  | some v =>
    by_cases hpass : v.status = "pass"
    · simp [hpass]
    · by_cases hfail : v.status = "fail" <;> simp [hfail, hpass]

@[simp] theorem windowOf_hotkey (a : ScoreArgs) (windows : Windows) (hotkey : String) :
    (windowOf a windows hotkey).hotkeySs58 = hotkey := by
  unfold windowOf
  cases h : windows.get? hotkey with
  | none => rfl
  | some w => exact (KeyedDict.get?_eq_some.mp h).2

theorem get?_scoreReceipt (p : Platform β) (b : Bucket β) (a : ScoreArgs) (verdicts : Verdicts)
    (s : LoopState) (r : JobReceiptV3) (hotkey : String) :
    (scoreReceipt p b a verdicts s r).windows.get? hotkey =
      if r.worker.hotkeySs58 = hotkey then
        some (creditWindow (verdicts.get? r.receiptId)
          (expectedCuForReceipt p b a.netuid r s.caches).1 (windowOf a s.windows hotkey))
      else s.windows.get? hotkey := by
  rw [scoreReceipt, KeyedDict.get?_set, creditWindow_hotkey, windowOf_hotkey]
  by_cases h : r.worker.hotkeySs58 = hotkey
  · rw [if_pos h, if_pos h, h]
  · rw [if_neg h, if_neg h]

theorem expectedCuForReceipt_pos (p : Platform β) (b : Bucket β) (netuid : ℤ) (r : JobReceiptV3)
    (c : Caches) : 0 < (expectedCuForReceipt p b netuid r c).1 := by
  have hmin : (0 : ℚ) < minCu := by norm_num [minCu]
  unfold expectedCuForReceipt
  split
  · exact one_pos
  · split
    · exact one_pos
    · split
      · exact one_pos
      · next cu hcu => exact lt_of_lt_of_le hmin (expectedComputeUnits_ge hcu)

theorem scoreReceipts_append (p : Platform β) (b : Bucket β) (a : ScoreArgs) (verdicts : Verdicts)
    (l : List JobReceiptV3) (r : JobReceiptV3) :
    scoreReceipts p b a verdicts (l ++ [r]) =
      scoreReceipt p b a verdicts (scoreReceipts p b a verdicts l) r := by
  simp [scoreReceipts]

/-- The call returns when the receipts and the verdicts load and the scores have a valid key;
the windows then come from the loop. -/
theorem summarizeScores_eq_ok {p : Platform β} {b : Bucket β} {a : ScoreArgs} {windows : Windows} :
    (∃ b', summarizeScores p b a = .ok (windows, b')) ↔
      ∃ receipts verdicts, loadReceipts p b a = .ok receipts ∧ loadVerdicts p b a = .ok verdicts ∧
        (∃ parts, parseUri (b.uriForKey (scoresKey a.netuid a.window)) = .ok parts) ∧
        windows = (scoreReceipts p b a (.ofList verdicts)
          (KeyedDict.ofList receipts : Receipts).vals).windows.mapVals finishWindow
            finishWindow_hotkey := by
  unfold summarizeScores
  constructor
  · rintro ⟨b', h⟩
    obtain ⟨receipts, hreceipts, h⟩ := bind_eq_ok.mp h
    obtain ⟨verdicts, hverdicts, h⟩ := bind_eq_ok.mp h
    obtain ⟨b'', hput, h⟩ := bind_eq_ok.mp h
    obtain ⟨parts, hparts, -⟩ := bind_eq_ok.mp hput
    cases h
    exact ⟨receipts, verdicts, hreceipts, hverdicts, ⟨parts, hparts⟩, rfl⟩
  · rintro ⟨receipts, verdicts, hreceipts, hverdicts, ⟨parts, hparts⟩, rfl⟩
    rw [hreceipts, hverdicts]
    simp only [ok_bind, Bucket.putJson, Bucket.put, hparts]
    exact ⟨_, rfl⟩

theorem summarizeScores_ok {p : Platform β} {b b' : Bucket β} {a : ScoreArgs} {windows : Windows}
    (h : summarizeScores p b a = .ok (windows, b')) :
    ∃ receipts verdicts, loadReceipts p b a = .ok receipts ∧ loadVerdicts p b a = .ok verdicts ∧
      windows = (scoreReceipts p b a (.ofList verdicts)
        (KeyedDict.ofList receipts : Receipts).vals).windows.mapVals finishWindow
          finishWindow_hotkey := by
  obtain ⟨receipts, verdicts, hreceipts, hverdicts, -, hwindows⟩ :=
    summarizeScores_eq_ok.mp ⟨b', h⟩
  exact ⟨receipts, verdicts, hreceipts, hverdicts, hwindows⟩

def listStart (bucket keyPrefix : String) : String :=
  match parseUri (joinUri bucket keyPrefix) with
  | .ok _ => joinUri bucket keyPrefix
  | .error _ => joinUri bucket (joinUri bucket keyPrefix)

def isListed (bucket keyPrefix uri : String) : Bool :=
  endsWith uri ".json" && startsWith uri (listStart bucket keyPrefix)

theorem jsonUris_eq (b : Bucket β) (keyPrefix : String) :
    jsonUris b keyPrefix = b.objects.keys.filter (isListed b.name keyPrefix) := by
  unfold jsonUris Bucket.list
  rw [List.filter_filter]
  rfl

theorem mem_jsonUris {b : Bucket β} {keyPrefix uri : String} :
    uri ∈ jsonUris b keyPrefix ↔
      b.objects.find? uri ≠ none ∧ isListed b.name keyPrefix uri = true := by
  rw [jsonUris_eq, List.mem_filter, SortedDict.mem_keys]

section Written

open ProtocolRoundTrip

theorem getJson_written {p : Platform β} (hp : p.Lawful) {b : Bucket β} {uri : String} {j : Json}
    (h : b.get uri = .ok (p.dumps j)) (hc : Canonical j) : b.getJson p uri = .ok j := by
  rw [Bucket.getJson, h]
  exact hp.loads_dumps j hc

theorem loadVerdict_written {p : Platform β} (hp : p.Lawful) {b : Bucket β} {a : ScoreArgs}
    {uri : String} {v : VerificationVerdictV3} (h : b.get uri = .ok (p.dumps v.toDict))
    (hv : WellTypedVerdict v) : loadVerdict p b a uri =
      (verdictValid p a v >>= fun valid => .ok (if valid then some v else none)) := by
  have hc : Canonical v.toDict := (canonical_signed (verdict_unsignedFields_canonical hv) (by simp)).1
  rw [loadVerdict, getJson_written hp h hc, ok_bind, verdict_fromDict_toDict, ok_bind]
  rfl

end Written

section Plain

open ProtocolRoundTrip

def plainReceipt (receiptId hotkey jobId manifestHash : String) : JobReceiptV3 where
  receiptId := receiptId
  manifestHash := manifestHash
  jobId := jobId
  runId := "r"
  stepId := 0
  kind := "train"
  worker := { hotkeySs58 := hotkey, workerId := "w", hostId := "host", gpuIndex := none,
              sessionNonce := "nonce" }
  inputDigests := []
  outputDigests := []
  startedUnix := .finite 0
  finishedUnix := .finite 0
  computeSec := .finite 0
  claimedBytesRead := 0
  claimedBytesWritten := 0

theorem loadReceipt_plain {b : Bucket Json} {uri : String} {r : JobReceiptV3}
    (h : b.get uri = .ok r.toDict) (hr : WellTypedReceipt r) :
    loadReceipt plainPlatform b uri = .ok r := by
  have hc : Canonical r.toDict := (canonical_signed (receipt_unsignedFields_canonical hr) (by simp)).1
  rw [loadReceipt, getJson_written (j := r.toDict) plainPlatform_lawful h hc, ok_bind,
    receipt_fromDict_toDict]

theorem loadVerdict_plain {b : Bucket Json} {a : ScoreArgs} {uri : String}
    {v : VerificationVerdictV3} (h : b.get uri = .ok v.toDict) (hv : WellTypedVerdict v)
    (hvalid : verdictValid plainPlatform a v = .ok true) :
    loadVerdict plainPlatform b a uri = .ok (some v) := by
  rw [loadVerdict_written (v := v) plainPlatform_lawful h hv, hvalid]
  rfl

theorem plainReceipt_wellTyped (receiptId hotkey jobId manifestHash : String) :
    WellTypedReceipt (plainReceipt receiptId hotkey jobId manifestHash) := by
  constructor <;> exact canonical_obj_iff.mpr ⟨List.Pairwise.nil, by simp [plainReceipt]⟩

end Plain

end ScoreWindows

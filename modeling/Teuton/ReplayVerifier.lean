import Teuton.AuditReplay
import Teuton.ScoreWindows

/-! The replay verifier. A pass lists the receipts of the run, shuffles them and writes a signed
verdict for each receipt that has none: from an audit of its own, or from an audit result that
an eligible auditor has signed. -/
namespace ReplayVerifier

open PyJson PyText Signatures ObjectStore BucketPaths ComputeUnits Protocol AuditReplay
open ScoreWindows

variable {β τ α : Type}

structure ValidatorConfig (β : Type) where
  netuid : ℤ
  runId : String
  validatorHotkey : String
  validatorSecret : String := "validator-dev-secret"
  validatorSigner : Option (Signer β) := none
  ownerSecret : String := "owner-dev-secret"
  ownerHotkey : String := ""
  minerSecret : String := "miner-dev-secret"
  sampleRate : ℚ := 1
  encryptionSecret : String := "teuton-dev-encryption"
  auditEligibleHotkeys : List String := []

/-- What the verifier runs on. `draws n i` is what the seeded generator draws for position `i`
of a list of `n` items; the clock is read once for each audit and once for each verdict, and
the readings are indexed by the URI of the receipt. -/
structure Host (β τ : Type) where
  libraries : Libraries β τ
  draws : ℕ → ℕ → ℕ
  auditTimes : String → Times
  verdictUnix : String → PyFloat

def swapAt (l : List α) (i j : ℕ) : List α :=
  match l[i]?, l[j]? with
  | some x, some y => (l.set i y).set j x
  | _, _ => l

/-- The method `shuffle` of a generator: from the last position down, each item is swapped with
one that is not behind it. -/
def shuffle (draws : ℕ → ℕ → ℕ) (l : List α) : List α :=
  (List.range' 1 (l.length - 1)).reverse.foldl
    (fun m i => swapAt m i (draws l.length i % (i + 1))) l

theorem swapAt_perm (l : List α) (i j : ℕ) : (swapAt l i j).Perm l := by
  unfold swapAt
  by_cases hi : i < l.length
  · by_cases hj : j < l.length
    · rw [List.getElem?_eq_getElem hi, List.getElem?_eq_getElem hj]
      exact List.set_set_perm hi hj
    · rw [List.getElem?_eq_none (not_lt.mp hj)]
      cases l[i]? <;> rfl
  · rw [List.getElem?_eq_none (not_lt.mp hi)]

theorem shuffle_perm (draws : ℕ → ℕ → ℕ) (l : List α) : (shuffle draws l).Perm l := by
  have hfold : ∀ (is : List ℕ) (m : List α), m.Perm l →
      (is.foldl (fun m i => swapAt m i (draws l.length i % (i + 1))) m).Perm l := by
    intro is
    induction is with
    | nil => exact fun m hm => hm
    | cons i is ih => exact fun m hm => ih _ ((swapAt_perm m _ _).trans hm)
  exact hfold _ l (List.Perm.refl l)

section Verifier

variable (H : Host β τ) (V : ValidatorConfig β)

def inSample (receipt : JobReceiptV3) : Bool :=
  let p := H.libraries.platform
  let h := p.sha256 (p.ofBytes (V.validatorHotkey ++ ":" ++ receipt.receiptId).toUTF8.toList)
  1 ≤ V.sampleRate || (bigEndian (h.take 8) : ℚ) / 2 ^ 64 < V.sampleRate

def listedReceipts (b : Bucket β) : List (String × JobReceiptV3) :=
  (jsonUris b (receiptsPrefix V.netuid V.runId)).filterMap fun uri =>
    (loadReceipt H.libraries.platform b uri).toOption.map (uri, ·)

def sampleReceipts (b : Bucket β) : List (String × JobReceiptV3) :=
  shuffle H.draws ((listedReceipts H V b).filter fun item => inSample H V item.2)

def verdictUri (bucket : String) (receipt : JobReceiptV3) : String :=
  joinUri bucket (verdictKey V.netuid receipt.runId V.validatorHotkey receipt.receiptId)

def hasVerdict (b : Bucket β) (receipt : JobReceiptV3) : Py Bool :=
  b.exists (verdictUri V b.name receipt)

def auditConfig : AuditReplayConfig where
  ownerSecret := V.ownerSecret
  ownerHotkey := V.ownerHotkey
  minerSecret := V.minerSecret
  encryptionSecret := V.encryptionSecret

def verdictSigner : SignerOrSecret β :=
  match V.validatorSigner with
  | some signer => .signer signer
  | none => .secret V.validatorSecret

def unsignedVerdict (receiptUri : String) (receipt : JobReceiptV3) (audit : AuditResultV3)
    (estimatedCu : ℚ) : VerificationVerdictV3 where
  verdictId := V.validatorHotkey ++ ":" ++ receipt.receiptId
  receiptId := receipt.receiptId
  manifestHash := receipt.manifestHash
  jobId := receipt.jobId
  runId := receipt.runId
  minerHotkey := receipt.worker.hotkeySs58
  validatorHotkey := V.validatorHotkey
  status := audit.status
  reason := audit.reason
  estimatedCu := .finite estimatedCu
  replayComputeSec := audit.replayComputeSec
  checkedUnix := H.verdictUnix receiptUri
  comparison := [("audit", audit.toDict)]

def verdictFromAudit (receiptUri : String) (receipt : JobReceiptV3) (audit : AuditResultV3)
    (manifest : JobManifestV3) : Fetch β VerificationVerdictV3 := do
  let graph ← fetchManifestGraph H.libraries.platform manifest
  let estimatedCu ← expectedComputeUnits H.libraries.platform graph
  return VerificationVerdictV3.sign H.libraries.platform
    (unsignedVerdict H V receiptUri receipt audit estimatedCu) (verdictSigner V)

def verify (bucket receiptUri : String) (receipt : JobReceiptV3) :
    Fetch β VerificationVerdictV3 := do
  let manifest ← findManifest H.libraries.platform bucket V.netuid receipt
  let audit ← AuditReplay.run H.libraries (auditConfig V) (H.auditTimes receiptUri) receiptUri
    manifest receipt V.validatorHotkey
  verdictFromAudit H V receiptUri receipt audit manifest

/-- The first audit result for the receipt, from an eligible auditor if the list is not empty. -/
def findAuditResult (b : Bucket β) (receipt : JobReceiptV3) : Option AuditResultV3 :=
  (jsonUris b (auditResultsPrefix V.netuid receipt.runId)).findSome? fun uri =>
    match b.getJson H.libraries.platform uri >>= AuditResultV3.fromDict with
    | .error _ => none
    | .ok audit =>
      if audit.receiptId ≠ receipt.receiptId then none
      else if !V.auditEligibleHotkeys.isEmpty ∧ audit.auditorHotkey ∉ V.auditEligibleHotkeys then
        none
      else some audit

def verifyAuditResult (p : Platform β) (audit : AuditResultV3) (receipt : JobReceiptV3) :
    Py Bool :=
  match audit.auditorSignature with
  | none => .ok false
  | some signature =>
    if signature = "" then .ok false
    else if audit.receiptId ≠ receipt.receiptId ∨ audit.manifestHash ≠ receipt.manifestHash then
      .ok false
    else if !V.auditEligibleHotkeys.isEmpty ∧ audit.auditorHotkey ∉ V.auditEligibleHotkeys then
      .ok false
    else verifyIdentityDict p audit.unsignedDict audit.auditorHotkey signature

/-- The loop both passes share: skip receipts with a verdict, write the verdict where `judge`
returns one, stop at the cap. -/
def writeVerdicts (judge : Bucket β → String → JobReceiptV3 → Py (Option VerificationVerdictV3))
    (maxReceipts : Option ℤ) :
    List (String × JobReceiptV3) → ℤ → Bucket β → Py (ℤ × Bucket β)
  | [], checked, b => .ok (checked, b)
  | (uri, receipt) :: rest, checked, b =>
    if maxReceipts.any (· ≤ checked) then .ok (checked, b)
    else do
      if ← hasVerdict V b receipt then writeVerdicts judge maxReceipts rest checked b
      else
        match ← judge b uri receipt with
        | none => writeVerdicts judge maxReceipts rest checked b
        | some verdict =>
          let b' ← b.putJson H.libraries.platform (verdictUri V b.name receipt) verdict.toDict
          writeVerdicts judge maxReceipts rest (checked + 1) b'

def judgeByReplay (b : Bucket β) (uri : String) (receipt : JobReceiptV3) :
    Py (Option VerificationVerdictV3) := do
  return some (← (verify H V b.name uri receipt).run b.get)

def judgeByAuditResult (b : Bucket β) (uri : String) (receipt : JobReceiptV3) :
    Py (Option VerificationVerdictV3) := do
  match findAuditResult H V b receipt with
  | none => return none
  | some audit =>
    if ← verifyAuditResult V H.libraries.platform audit receipt then
      let manifest ← (findManifest H.libraries.platform b.name V.netuid receipt).run b.get
      return some (← (verdictFromAudit H V uri receipt audit manifest).run b.get)
    else return none

def runOnce (b : Bucket β) (maxReceipts : Option ℤ := none) : Py (ℤ × Bucket β) :=
  writeVerdicts H V (judgeByReplay H V) maxReceipts (sampleReceipts H V b) 0 b

def consumeAuditResults (b : Bucket β) (maxReceipts : Option ℤ := none) : Py (ℤ × Bucket β) :=
  writeVerdicts H V (judgeByAuditResult H V) maxReceipts (sampleReceipts H V b) 0 b

end Verifier

end ReplayVerifier

import Teuton.AuditReplay

/-! What a passed audit says about the receipt. A pass follows from the signature of the hotkey
that the receipt itself names, the owner's manifest and the replayed outputs. The assignment in
the manifest is not consulted, so a pass does not name the miner the job was given to. -/
namespace PassedReceipts

open PyJson Signatures ObjectStore GraphIr Protocol ArtifactCrypto GraphEval AuditReplay

variable {β τ α γ : Type}

/-- On the store `s` the step returns `a` and extends the comparison from `c` to `c'`. -/
def Yields (s : String → Py β) (x : Audit β α) (c : Comparison) (a : α) (c' : Comparison) : Prop :=
  (x c).run s = .ok (.ok a, c')

section Rules

variable {s : String → Py β} {c c' : Comparison}

theorem Yields.pure_inv {a b : α} (h : Yields s (pure a : Audit β α) c b c') : a = b := by
  unfold Yields at h
  cases h
  rfl

theorem Yields.bind_inv {x : Audit β α} {f : α → Audit β γ} {b : γ}
    (h : Yields s (x >>= f) c b c') :
    ∃ a c₁, Yields s x c a c₁ ∧ Yields s (f a) c₁ b c' := by
  unfold Yields at h
  rw [run_bind] at h
  cases hx : (x c).run s with
  | error e =>
    rw [hx] at h
    cases h
  | ok out =>
    obtain ⟨r, c₁⟩ := out
    rw [hx] at h
    cases r with
    | error e => cases h
    | ok a => exact ⟨a, c₁, hx, h⟩

theorem Yields.bind_run {x : Audit β α} {a : α} (h : Yields s x c a c') (f : α → Audit β γ) :
    ((x >>= f) c).run s = (f a c').run s := by
  rw [run_bind, h]
  rfl

theorem yields_lift {x : Fetch β α} {a : α} (h : x.run s = .ok a) (c : Comparison) :
    Yields s (liftM x : Audit β α) c a c := by
  rw [Yields, run_liftM, h]

theorem yields_done {x : Py α} {a : α} (h : x = .ok a) (c : Comparison) :
    Yields s (liftM (ReadProgram.done x : Fetch β α) : Audit β α) c a c := by
  apply yields_lift
  exact h

theorem Yields.lift_inv {x : Fetch β α} {a : α} (h : Yields s (liftM x : Audit β α) c a c') :
    x.run s = .ok a := by
  unfold Yields at h
  rw [run_liftM] at h
  exact (Prod.mk.inj (Except.ok.inj h)).1

theorem not_yields_raise {e : PyErr} {a : α} : ¬ Yields s (raise e : Audit β α) c a c' := by
  intro h
  cases h

end Rules

section Replay

variable {L : Libraries β τ} {cfg : AuditReplayConfig} {s : String → Py β} {c c' : Comparison}

/-- The object of an input was read, and a digest the receipt lists for it agrees with it. -/
def InputAgrees (L : Libraries β τ) (s : String → Py β) (digests : List ArtifactDigest)
    (ref : ArtifactRef) : Prop :=
  ∃ body, s ref.uri = .ok body ∧ ∀ d, digestNamed digests ref.name = some d →
    digestMatches d (sha256Hex L.platform body) = true

theorem loadInput_agrees {digests : List ArtifactDigest} {ref : ArtifactRef} {t : τ}
    (h : Yields s (loadInput L cfg digests ref) c t c') : InputAgrees L s digests ref := by
  unfold loadInput at h
  obtain ⟨body, c₁, hbody, h⟩ := h.bind_inv
  obtain ⟨-, c₂, -, h⟩ := h.bind_inv
  refine ⟨body, hbody.lift_inv, ?_⟩
  intro d hd
  by_contra hno
  rw [hd] at h
  simp only [Option.all_some, hno, Bool.false_eq_true, if_false] at h
  exact not_yields_raise h

theorem loadInputs_agree {digests : List ArtifactDigest} {refs : List ArtifactRef}
    {inputs out : SortedDict String τ}
    (h : Yields s (loadInputs L cfg digests refs inputs) c out c') :
    ∀ ref ∈ refs, InputAgrees L s digests ref := by
  induction refs generalizing inputs c with
  | nil => simp
  | cons ref refs ih =>
    rw [loadInputs] at h
    obtain ⟨t, c₁, hinput, hrest⟩ := h.bind_inv
    intro ref' href'
    rcases List.mem_cons.mp href' with rfl | href'
    · exact loadInput_agrees hinput
    · exact ih hrest ref' href'

def OutputMatches (L : Libraries β τ) (cfg : AuditReplayConfig) (s : String → Py β)
    (outputs : SortedDict String τ) (manifest : JobManifestV3) (receipt : JobReceiptV3)
    (ref : ArtifactRef) : Prop :=
  ∃ cmp, (compareOutput L cfg ref (outputs.find? ref.name) manifest receipt).run s = .ok cmp ∧
    cmp.ok = true

theorem compareOutputs_match {outputs : SortedDict String τ} {manifest : JobManifestV3}
    {receipt : JobReceiptV3} {refs : List ArtifactRef} {reasons : List String}
    (h : Yields s (compareOutputs L cfg outputs manifest receipt refs) c reasons c')
    (hempty : reasons = []) : ∀ ref ∈ refs, OutputMatches L cfg s outputs manifest receipt ref := by
  induction refs generalizing c c' reasons with
  | nil => simp
  | cons ref refs ih =>
    rw [compareOutputs] at h
    obtain ⟨cmp, c₁, hcmp, h⟩ := h.bind_inv
    obtain ⟨-, c₂, -, h⟩ := h.bind_inv
    obtain ⟨rest, c₃, hrest, h⟩ := h.bind_inv
    have hreasons := h.pure_inv
    rw [hempty] at hreasons
    by_cases hok : cmp.ok = true
    · rw [if_pos hok] at hreasons
      intro ref' href'
      rcases List.mem_cons.mp href' with rfl | href'
      · exact ⟨cmp, hcmp.lift_inv, hok⟩
      · exact ih hrest hreasons ref' href'
    · rw [if_neg hok] at hreasons
      cases hreasons

end Replay

/-- The receipt carries a signature of the hotkey it names, or one made with the miner secret
of the validator's configuration. -/
def SignedByNamedHotkey (p : Platform β) (cfg : AuditReplayConfig) (receipt : JobReceiptV3) :
    Prop :=
  ∃ signature, receipt.minerSignature = some signature ∧
    (verifyIdentityDict p receipt.unsignedDict receipt.worker.hotkeySs58 signature = .ok true ∨
      verifyDict p receipt.unsignedDict (minerSigningSecret cfg receipt) signature = .ok true)

/-- The manifest carries the owner's signature, unless the check is switched off. -/
def SignedByOwner (p : Platform β) (cfg : AuditReplayConfig) (manifest : JobManifestV3) : Prop :=
  cfg.ownerSecret = "skip" ∨ ∃ signature, manifest.ownerSignature = some signature ∧
    (verifyIdentityDict p manifest.unsignedDict cfg.ownerHotkey signature = .ok true ∨
      verifyDict p manifest.unsignedDict cfg.ownerSecret signature = .ok true)

theorem some_of_strOr {x : Option String} (h : strOr x "" ≠ "") : x = some (strOr x "") := by
  cases x with
  | none => exact absurd rfl h
  | some t =>
    by_cases ht : t = ""
    · simp [strOr, ht] at h
    · simp [strOr, ht]

theorem signedByOwner_of_verified {p : Platform β} {cfg : AuditReplayConfig}
    {manifest : JobManifestV3} (h : verifyManifestSignature p cfg manifest = .ok true) :
    SignedByOwner p cfg manifest := by
  unfold verifyManifestSignature at h
  by_cases hskip : cfg.ownerSecret = "skip"
  · exact Or.inl hskip
  rw [if_neg hskip] at h
  by_cases hempty : strOr manifest.ownerSignature "" = ""
  · simp [hempty] at h
  simp only [hempty, if_false] at h
  refine Or.inr ⟨_, some_of_strOr hempty, ?_⟩
  by_cases hhotkey : cfg.ownerHotkey = ""
  · exact Or.inr (by simpa [hhotkey] using h)
  · exact Or.inl (by simpa [hhotkey] using h)

theorem signedByNamedHotkey_of_verified {p : Platform β} {cfg : AuditReplayConfig}
    {receipt : JobReceiptV3} (h : verifyReceiptSignature p cfg receipt = .ok true) :
    SignedByNamedHotkey p cfg receipt := by
  unfold verifyReceiptSignature at h
  by_cases hempty : strOr receipt.minerSignature "" = ""
  · simp [hempty] at h
  simp only [hempty, if_false] at h
  refine ⟨_, some_of_strOr hempty, ?_⟩
  cases hidentity : verifyIdentityDict p receipt.unsignedDict receipt.worker.hotkeySs58
      (strOr receipt.minerSignature "") with
  | error e => simp [hidentity] at h
  | ok accepted =>
    cases accepted with
    | true => exact Or.inl rfl
    | false =>
      rw [hidentity] at h
      exact Or.inr h

structure PassEvidence (L : Libraries β τ) (cfg : AuditReplayConfig) (s : String → Py β)
    (manifest : JobManifestV3) (receipt : JobReceiptV3) : Prop where
  owner : SignedByOwner L.platform cfg manifest
  miner : SignedByNamedHotkey L.platform cfg receipt
  hash : manifest.manifestHash L.platform = receipt.manifestHash
  replayed : ∃ graph inputs outputs c₀ c₁ c₂,
    (fetchGraph L.platform manifest.graphRef.sha256 manifest.graphRef.uri
      "graph hash mismatch").run s = .ok graph ∧
    Yields s (loadInputs L cfg receipt.inputDigests manifest.inputs .empty) c₀ inputs c₁ ∧
    Yields s (replay L graph inputs manifest receipt) c₁ outputs c₂ ∧
    (∀ ref ∈ manifest.inputs, InputAgrees L s receipt.inputDigests ref) ∧
    ∀ ref ∈ manifest.outputs, OutputMatches L cfg s outputs manifest receipt ref

section Pass

variable {L : Libraries β τ} {cfg : AuditReplayConfig} {s : String → Py β} {times : Times}
variable {manifest : JobManifestV3} {receipt : JobReceiptV3}

theorem failed_of_early {c c' : Comparison} {reason : String} {outcome : Outcome}
    (h : Yields s (pure ⟨"fail", reason, .finite 0⟩ : Audit β Outcome) c outcome c') :
    outcome.status ≠ "pass" := by
  rw [← h.pure_inv]
  simp

theorem checkReceipt_pass {c c' : Comparison} {outcome : Outcome}
    (h : Yields s (checkReceipt L cfg times manifest receipt) c outcome c')
    (hpass : outcome.status = "pass") : PassEvidence L cfg s manifest receipt := by
  unfold checkReceipt at h
  obtain ⟨ownerOk, c₁, howner, h⟩ := h.bind_inv
  cases ownerOk with
  | false => exact absurd hpass (failed_of_early h)
  | true =>
    obtain ⟨minerOk, c₂, hminer, h⟩ := h.bind_inv
    cases minerOk with
    | false => exact absurd hpass (failed_of_early h)
    | true =>
      by_cases hhash : manifest.manifestHash L.platform = receipt.manifestHash
      · simp only [Bool.not_true, Bool.false_eq_true, if_false, hhash, ne_eq, not_true] at h
        obtain ⟨graph, c₃, hgraph, h⟩ := h.bind_inv
        obtain ⟨inputs, c₄, hinputs, h⟩ := h.bind_inv
        obtain ⟨outputs, c₅, houtputs, h⟩ := h.bind_inv
        obtain ⟨reasons, c₆, hreasons, h⟩ := h.bind_inv
        have hempty : reasons = [] := by
          cases reasons with
          | nil => rfl
          | cons reason reasons =>
            rw [← h.pure_inv] at hpass
            simp at hpass
        exact
          { owner := signedByOwner_of_verified howner.lift_inv
            miner := signedByNamedHotkey_of_verified hminer.lift_inv
            hash := hhash
            replayed := ⟨graph, inputs, outputs, c₃, c₄, c₅, hgraph.lift_inv, hinputs,
              houtputs, loadInputs_agree hinputs, compareOutputs_match hreasons hempty⟩ }
      · simp only [Bool.not_true, Bool.false_eq_true, if_false, hhash, ne_eq, not_false_eq_true,
          if_true] at h
        exact absurd hpass (failed_of_early h)

theorem outcomeOf_pass {r : Py Outcome} {c : Comparison} (h : (outcomeOf r c).1.status = "pass") :
    ∃ outcome, r = .ok outcome ∧ outcome.status = "pass" := by
  cases r with
  | ok outcome => exact ⟨outcome, rfl, h⟩
  | error e => cases e <;> simp [outcomeOf] at h

/-- A pass of the audit is a pass for the hotkey that the receipt names and that signed it, on
the manifest of the receipt's hash, with every listed input digest confirmed and every output
equal to the replay. -/
theorem pass_binds_named_hotkey {receiptUri auditorHotkey : String} {res : AuditResultV3}
    (hrun : (run L cfg times receiptUri manifest receipt auditorHotkey).run s = .ok res)
    (hpass : res.status = "pass") :
    res.minerHotkey = receipt.worker.hotkeySs58 ∧ res.jobId = receipt.jobId ∧
      res.receiptId = receipt.receiptId ∧ PassEvidence L cfg s manifest receipt := by
  unfold run at hrun
  rw [ReadProgram.run_bind] at hrun
  cases hcheck : (checkReceipt L cfg times manifest receipt { receiptUri := receiptUri }).run s with
  | error e =>
    rw [hcheck] at hrun
    cases hrun
  | ok out =>
    obtain ⟨r, c⟩ := out
    rw [hcheck] at hrun
    cases hrun
    obtain ⟨outcome, rfl, hstatus⟩ := outcomeOf_pass hpass
    exact ⟨rfl, rfl, rfl, checkReceipt_pass hcheck hstatus⟩

end Pass

/-- Every pass is a pass of the miner, and of the worker if one is set, that the manifest
assigns the job to. -/
def OnlyAssigneePasses (L : Libraries β τ) (cfg : AuditReplayConfig) : Prop :=
  ∀ (b : Bucket β) (times : Times) receiptUri manifest receipt auditorHotkey res,
    (run L cfg times receiptUri manifest receipt auditorHotkey).run b.get = .ok res →
    res.status = "pass" →
    receipt.worker.hotkeySs58 = manifest.assignedHotkey ∧
      ∀ worker, manifest.assignedWorker = some worker → receipt.worker.workerId = worker

section Borrowed

def walletSignature (identity : String) : List UInt8 :=
  identity.toList.map (fun ch => UInt8.ofNat ch.toNat) ++ List.replicate 64 0

def walletPlatform : Platform Json :=
  { plainPlatform with
    bittensorVerify := fun identity _ sig => .ok (sig = walletSignature identity) }

def scalarTorch : Torch Json ℤ where
  decodeTensor := Json.toInt
  asTensor := Json.toInt
  shape := fun _ => []
  wireDtype := fun _ => .ok "int64"
  isFloatingPoint := fun _ => false
  dispatch := fun _ => none
  tensorParallel := fun _ _ => .error (.runtimeError "no distributed runner")
  cat := fun _ _ => .error (.runtimeError "zero-dimensional tensor cannot be concatenated")
  flatten := id
  numel := fun _ => 1
  sampleIndices := fun _ _ _ => []
  indexSelect := fun t _ => .ok t
  equal := fun t u => .ok (t == u)
  allclose := fun t u _ _ => .ok (t == u)
  maxAbsDiff := fun t u => .ok (.finite |t - u|)

def scalarLibraries : Libraries Json ℤ where
  platform := walletPlatform
  torch := scalarTorch
  timelock := { encrypt := fun body _ _ => .ok body, decrypt := fun body _ _ => .ok body }

def constGraph : Graph where
  outputs := [⟨"y", [("kind", .str "const"), ("value", .int 7)]⟩]

def assignedManifest : JobManifestV3 :=
  JobManifestV3.sign walletPlatform
    { jobId := "j", runId := "r", stepId := 0, kind := "train"
      graphRef := { sha256 := constGraph.graphId walletPlatform, uri := "s3://b/g" }
      params := [], inputs := [], outputs := [{ name := "y", uri := "s3://b/y" }]
      assignedHotkey := "A", assignedWorker := some "wA", attempt := 0, deadlineUnix := 0
      createdUnix := 0 }
    (.secret "owner-dev-secret")

def borrowedReceipt : JobReceiptV3 :=
  { receiptId := "x", manifestHash := assignedManifest.manifestHash walletPlatform, jobId := "j"
    runId := "r", stepId := 0, kind := "train"
    worker := { hotkeySs58 := "B", workerId := "wB", hostId := "host", gpuIndex := none,
                sessionNonce := "nonce" }
    inputDigests := [], outputDigests := [], startedUnix := .finite 0, finishedUnix := .finite 0
    computeSec := .finite 0, claimedBytesRead := 0, claimedBytesWritten := 0
    minerSignature := some (PyText.hexEncode (walletSignature "B")) }

def finishedBucket : Bucket Json where
  name := "b"
  objects := .ofEntries [("s3://b/g", constGraph.toDict), ("s3://b/y", .int 7)]

def borrowedAudit : Py AuditResultV3 :=
  (run scalarLibraries {} ⟨.finite 1, .finite 2⟩ "s3://b/receipt" assignedManifest borrowedReceipt
    "v").run finishedBucket.get

theorem borrowedAudit_passes : ∃ res, borrowedAudit = .ok res ∧ res.status = "pass" := by
  have hstatus : borrowedAudit.toOption.map AuditResultV3.status = some "pass" := by
    decide +kernel
  cases hrun : borrowedAudit with
  | error e =>
    rw [hrun] at hstatus
    cases hstatus
  | ok res =>
    rw [hrun] at hstatus
    exact ⟨res, rfl, Option.some.inj hstatus⟩

theorem unassigned_hotkey_passes : ¬ OnlyAssigneePasses scalarLibraries {} := by
  intro honly
  obtain ⟨res, hrun, hpass⟩ := borrowedAudit_passes
  have hotkey := (honly _ _ _ _ _ _ _ hrun hpass).1
  exact absurd hotkey (by decide)

theorem borrowed_pass_binds_named_hotkey : ∃ res, borrowedAudit = .ok res ∧
    res.minerHotkey = "B" ∧
    PassEvidence scalarLibraries {} finishedBucket.get assignedManifest borrowedReceipt := by
  obtain ⟨res, hrun, hpass⟩ := borrowedAudit_passes
  obtain ⟨hminer, -, -, hevidence⟩ := pass_binds_named_hotkey hrun hpass
  exact ⟨res, hrun, hminer, hevidence⟩

end Borrowed

end PassedReceipts

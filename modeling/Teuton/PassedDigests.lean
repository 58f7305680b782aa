import Teuton.PassedReceipts

/-! What a passed audit says about the digests that the miner has signed. A digest that the
receipt lists for an input is compared with the bytes read; an input without one is taken as it
is. Of the digests of the outputs the audit only reads which outputs are stored in shards: the
outputs themselves are compared with the replay, not with their digests. -/
namespace PassedDigests

open PyJson Signatures ObjectStore GraphIr Protocol AuditReplay
open PassedReceipts

variable {β τ : Type}

section Inputs

theorem digestNamed_eq_some {digests : List ArtifactDigest} {name : String} {d : ArtifactDigest}
    (h : digestNamed digests name = some d) : d ∈ digests ∧ d.name = name := by
  have hname : d.name = name := by simpa using List.find?_some h
  exact ⟨List.mem_reverse.mp (List.mem_of_find?_eq_some h), hname⟩

theorem digestNamed_eq_none {digests : List ArtifactDigest} {name : String}
    (h : digestNamed digests name = none) : ∀ d ∈ digests, d.name ≠ name := by
  intro d hd hname
  have hno := List.find?_eq_none.mp h d (List.mem_reverse.mpr hd)
  simp [hname] at hno

/-- The receipt lists no digest for the input, or one with the hash of the bytes read for it. -/
def ListedDigestMatches (L : Libraries β τ) (s : String → Py β) (digests : List ArtifactDigest)
    (ref : ArtifactRef) : Prop :=
  ∃ body, s ref.uri = .ok body ∧
    ((∀ d ∈ digests, d.name ≠ ref.name) ∨
      ∃ d ∈ digests, d.name = ref.name ∧
        (d.sha256 = sha256Hex L.platform body ∨
          d.envelopeSha256 = some (sha256Hex L.platform body)))

theorem listedDigestMatches_of_agrees {L : Libraries β τ} {s : String → Py β}
    {digests : List ArtifactDigest} {ref : ArtifactRef} (h : InputAgrees L s digests ref) :
    ListedDigestMatches L s digests ref := by
  obtain ⟨body, hbody, hagrees⟩ := h
  refine ⟨body, hbody, ?_⟩
  cases hnamed : digestNamed digests ref.name with
  | none => exact Or.inl (digestNamed_eq_none hnamed)
  | some d =>
    obtain ⟨hmem, hname⟩ := digestNamed_eq_some hnamed
    have hmatches := hagrees d hnamed
    refine Or.inr ⟨d, hmem, hname, ?_⟩
    simpa [digestMatches] using hmatches

end Inputs

section Outputs

variable {L : Libraries β τ} {cfg : AuditReplayConfig} {s : String → Py β} {times : Times}
variable {manifest : JobManifestV3} {receipt : JobReceiptV3}

/-- The digest of the receipt for an output says that it is stored in shards. -/
def shardingOf (digests : List ArtifactDigest) (ref : ArtifactRef) : Option ShardedTensorManifest :=
  (digests.find? fun d => d.name = ref.name ∧ d.uri = ref.uri).bind ArtifactDigest.sharded

def Replayed (L : Libraries β τ) (cfg : AuditReplayConfig) (s : String → Py β)
    (manifest : JobManifestV3) (receipt : JobReceiptV3) (outputs : SortedDict String τ) : Prop :=
  ∃ graph inputs c₀ c₁ c₂,
    (fetchGraph L.platform manifest.graphRef.sha256 manifest.graphRef.uri
      "graph hash mismatch").run s = .ok graph ∧
    Yields s (loadInputs L cfg receipt.inputDigests manifest.inputs .empty) c₀ inputs c₁ ∧
    Yields s (replay L graph inputs manifest receipt) c₁ outputs c₂

/-- What is stored for the output equals the replayed value under the manifest's policy. -/
def StoredMatches (L : Libraries β τ) (cfg : AuditReplayConfig) (s : String → Py β)
    (outputs : SortedDict String τ) (manifest : JobManifestV3) (receipt : JobReceiptV3)
    (ref : ArtifactRef) : Prop :=
  ∃ expected observed details, outputs.find? ref.name = some expected ∧
    (observedOutput L cfg ref (receipt.outputDigests.find? fun d =>
      d.name = ref.name ∧ d.uri = ref.uri)).run s = .ok observed ∧
    L.torch.shape observed = L.torch.shape expected ∧
    compareTensors L manifest.verificationPolicy observed expected = .ok (true, details)

theorem storedMatches_of_matches {outputs : SortedDict String τ} {ref : ArtifactRef}
    (h : OutputMatches L cfg s outputs manifest receipt ref) :
    StoredMatches L cfg s outputs manifest receipt ref := by
  obtain ⟨cmp, hcmp, hok⟩ := h
  unfold compareOutput at hcmp
  cases hexpected : outputs.find? ref.name with
  | none =>
    rw [hexpected] at hcmp
    cases hcmp
    cases hok
  | some expected =>
    rw [hexpected] at hcmp
    simp only [ReadProgram.run_bind] at hcmp
    obtain ⟨observed, hobserved, hcmp⟩ := bind_eq_ok.mp hcmp
    by_cases hshape : L.torch.shape observed = L.torch.shape expected
    · simp only [hshape, ne_eq, not_true, if_false, ReadProgram.run_bind,
        ReadProgram.run_lift] at hcmp
      obtain ⟨⟨ok, details⟩, hdetails, hcmp⟩ := bind_eq_ok.mp hcmp
      cases hcmp
      cases hok
      exact ⟨expected, observed, details, hexpected, hobserved, hshape, hdetails⟩
    · simp only [ne_eq, hshape, not_false_eq_true, if_true] at hcmp
      cases hcmp
      cases hok

theorem compareOutput_congr {digests : List ArtifactDigest} {signature : Option String}
    {ref : ArtifactRef} (h : shardingOf digests ref = shardingOf receipt.outputDigests ref)
    (expected : Option τ) :
    compareOutput L cfg ref expected manifest
        { receipt with outputDigests := digests, minerSignature := signature } =
      compareOutput L cfg ref expected manifest receipt := by
  simp only [shardingOf] at h
  unfold compareOutput observedOutput
  simp only [h]

theorem compareOutputs_congr {digests : List ArtifactDigest} {signature : Option String}
    {refs : List ArtifactRef} (outputs : SortedDict String τ)
    (h : ∀ ref ∈ refs, shardingOf digests ref = shardingOf receipt.outputDigests ref) :
    compareOutputs L cfg outputs manifest
        { receipt with outputDigests := digests, minerSignature := signature } refs =
      compareOutputs L cfg outputs manifest receipt refs := by
  induction refs with
  | nil => rfl
  | cons ref refs ih =>
    rw [compareOutputs, compareOutputs, compareOutput_congr (h ref List.mem_cons_self),
      ih fun r hr => h r (List.mem_cons_of_mem ref hr)]

theorem checkReceipt_congr {digests : List ArtifactDigest} {signature : Option String}
    (hsharding : ∀ ref ∈ manifest.outputs,
      shardingOf digests ref = shardingOf receipt.outputDigests ref)
    (hsigned : verifyReceiptSignature L.platform cfg receipt = .ok true)
    (hresigned : verifyReceiptSignature L.platform cfg
      { receipt with outputDigests := digests, minerSignature := signature } = .ok true) :
    checkReceipt L cfg times manifest
        { receipt with outputDigests := digests, minerSignature := signature } =
      checkReceipt L cfg times manifest receipt := by
  have hreplay (graph : Graph) (inputs : SortedDict String τ) :
      replay L graph inputs manifest
          { receipt with outputDigests := digests, minerSignature := signature } =
        replay L graph inputs manifest receipt := rfl
  unfold checkReceipt
  simp only [hsigned, hresigned, hreplay, compareOutputs_congr _ hsharding]

theorem verified_of_pass {c c' : Comparison} {outcome : Outcome}
    (h : Yields s (checkReceipt L cfg times manifest receipt) c outcome c')
    (hpass : outcome.status = "pass") :
    verifyReceiptSignature L.platform cfg receipt = .ok true := by
  unfold checkReceipt at h
  obtain ⟨ownerOk, c₁, -, howner⟩ := h.bind_inv
  cases ownerOk with
  | false => exact absurd hpass (failed_of_early howner)
  | true =>
    obtain ⟨minerOk, c₂, hminer, hrest⟩ := howner.bind_inv
    cases minerOk with
    | false => exact absurd hpass (failed_of_early hrest)
    | true => exact hminer.lift_inv

theorem yields_of_pass {receiptUri auditorHotkey : String} {res : AuditResultV3}
    (hrun : (run L cfg times receiptUri manifest receipt auditorHotkey).run s = .ok res)
    (hpass : res.status = "pass") :
    ∃ outcome c, Yields s (checkReceipt L cfg times manifest receipt)
      { receiptUri := receiptUri } outcome c ∧ outcome.status = "pass" := by
  unfold run at hrun
  rw [ReadProgram.run_bind] at hrun
  obtain ⟨⟨r, c⟩, hcheck, hrest⟩ := bind_eq_ok.mp hrun
  cases hrest
  obtain ⟨outcome, rfl, hstatus⟩ := outcomeOf_pass hpass
  exact ⟨outcome, c, hcheck, hstatus⟩

theorem pass_of_yields {receiptUri : String} (auditorHotkey : String) {outcome : Outcome}
    {c : Comparison} (h : Yields s (checkReceipt L cfg times manifest receipt)
      { receiptUri := receiptUri } outcome c) :
    (run L cfg times receiptUri manifest receipt auditorHotkey).run s =
      .ok (result receipt auditorHotkey outcome c times) := by
  unfold Yields at h
  unfold run
  rw [ReadProgram.run_bind, h]
  rfl

end Outputs

/-- A pass is bound to those digests of inputs that the receipt lists, and to the stored outputs.
It is not bound to the digests of the outputs: the receipt signed again with other ones, of the
same outputs in shards, passes as well. -/
theorem pass_binds_listed_digests {L : Libraries β τ} {cfg : AuditReplayConfig}
    {s : String → Py β} {times : Times} {receiptUri auditorHotkey : String}
    {manifest : JobManifestV3} {receipt : JobReceiptV3} {res : AuditResultV3}
    (hrun : (run L cfg times receiptUri manifest receipt auditorHotkey).run s = .ok res)
    (hpass : res.status = "pass") :
    (∀ ref ∈ manifest.inputs, ListedDigestMatches L s receipt.inputDigests ref) ∧
    (∃ outputs, Replayed L cfg s manifest receipt outputs ∧
      ∀ ref ∈ manifest.outputs, StoredMatches L cfg s outputs manifest receipt ref) ∧
    ∀ digests signature,
      (∀ ref ∈ manifest.outputs, shardingOf digests ref = shardingOf receipt.outputDigests ref) →
      verifyReceiptSignature L.platform cfg
        { receipt with outputDigests := digests, minerSignature := signature } = .ok true →
      ∃ res', (run L cfg times receiptUri manifest
          { receipt with outputDigests := digests, minerSignature := signature }
          auditorHotkey).run s = .ok res' ∧ res'.status = "pass" := by
  obtain ⟨outcome, c, hyields, hstatus⟩ := yields_of_pass hrun hpass
  have hevidence := checkReceipt_pass hyields hstatus
  obtain ⟨graph, inputs, outputs, c₀, c₁, c₂, hgraph, hinputs, houtputs, hagree, hmatch⟩ :=
    hevidence.replayed
  refine ⟨?_, ?_, ?_⟩
  · intro ref href
    exact listedDigestMatches_of_agrees (hagree ref href)
  · refine ⟨outputs, ⟨graph, inputs, c₀, c₁, c₂, hgraph, hinputs, houtputs⟩, ?_⟩
    intro ref href
    exact storedMatches_of_matches (hmatch ref href)
  · intro digests signature hsharding hresigned
    have hsigned := verified_of_pass hyields hstatus
    rw [← checkReceipt_congr hsharding hsigned hresigned] at hyields
    exact ⟨_, pass_of_yields auditorHotkey hyields, hstatus⟩

section Undigested

/-- A pass means that the receipt has a digest with the hash of the bytes read, for every
input. -/
def PassBindsInputs (L : Libraries β τ) (cfg : AuditReplayConfig) : Prop :=
  ∀ (b : Bucket β) (times : Times) receiptUri manifest receipt auditorHotkey res,
    (run L cfg times receiptUri manifest receipt auditorHotkey).run b.get = .ok res →
    res.status = "pass" → ∀ ref ∈ manifest.inputs, ∃ body, b.get ref.uri = .ok body ∧
      ∃ d ∈ receipt.inputDigests, digestMatches d (sha256Hex L.platform body) = true

/-- A pass means that the receipt has a digest with the hash of the stored bytes, for every
output. -/
def PassBindsOutputs (L : Libraries β τ) (cfg : AuditReplayConfig) : Prop :=
  ∀ (b : Bucket β) (times : Times) receiptUri manifest receipt auditorHotkey res,
    (run L cfg times receiptUri manifest receipt auditorHotkey).run b.get = .ok res →
    res.status = "pass" → ∀ ref ∈ manifest.outputs, ∃ body, b.get ref.uri = .ok body ∧
      ∃ d ∈ receipt.outputDigests, d.name = ref.name ∧ d.uri = ref.uri ∧
        d.sha256 = sha256Hex L.platform body

def copyManifest : JobManifestV3 :=
  JobManifestV3.sign walletPlatform
    { assignedManifest with inputs := [{ name := "x", uri := "s3://b/x" }] }
    (.secret "owner-dev-secret")

def undigestedReceipt : JobReceiptV3 :=
  { borrowedReceipt with
    manifestHash := copyManifest.manifestHash walletPlatform
    outputDigests := [{ name := "y", uri := "s3://b/y", sha256 := "", sizeBytes := 0 }] }

def copyBucket : Bucket Json where
  name := "b"
  objects := .ofEntries
    [("s3://b/g", constGraph.toDict), ("s3://b/x", .int 3), ("s3://b/y", .int 7)]

def undigestedAudit : Py AuditResultV3 :=
  (run scalarLibraries {} ⟨.finite 1, .finite 2⟩ "s3://b/receipt" copyManifest undigestedReceipt
    "v").run copyBucket.get

theorem undigestedAudit_passes : ∃ res, undigestedAudit = .ok res ∧ res.status = "pass" := by
  have hstatus : undigestedAudit.toOption.map AuditResultV3.status = some "pass" := by
    decide +kernel
  obtain ⟨res, hres, hpass⟩ := Option.map_eq_some_iff.mp hstatus
  exact ⟨res, toOption_eq_some.mp hres, hpass⟩

theorem undigested_receipt_passes :
    ¬ PassBindsInputs scalarLibraries {} ∧ ¬ PassBindsOutputs scalarLibraries {} := by
  obtain ⟨res, hrun, hpass⟩ := undigestedAudit_passes
  constructor
  · intro hbinds
    obtain ⟨-, -, d, hd, -⟩ := hbinds _ _ _ _ _ _ _ hrun hpass { name := "x", uri := "s3://b/x" }
      List.mem_cons_self
    cases hd
  · intro hbinds
    obtain ⟨body, -, d, hd, -, -, hsha⟩ := hbinds _ _ _ _ _ _ _ hrun hpass
      { name := "y", uri := "s3://b/y" } List.mem_cons_self
    cases List.mem_singleton.mp hd
    change "" = PyText.hexEncode (List.replicate 32 0) at hsha
    exact absurd hsha (by decide)

/-- The receipt signed again without any digest passes too. -/
theorem resigned_receipt_passes :
    ∃ res, (run scalarLibraries {} ⟨.finite 1, .finite 2⟩ "s3://b/receipt" copyManifest
      { undigestedReceipt with
        outputDigests := [], minerSignature := undigestedReceipt.minerSignature } "v").run
      copyBucket.get = .ok res ∧ res.status = "pass" := by
  obtain ⟨res, hrun, hpass⟩ := undigestedAudit_passes
  refine (pass_binds_listed_digests hrun hpass).2.2 [] _ ?_ (by decide +kernel)
  intro ref href
  cases List.mem_singleton.mp href
  rfl

end Undigested

end PassedDigests

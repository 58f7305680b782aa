import Teuton.ReplayVerifier

/-! The verdict objects a pass writes. An audit never raises, whatever the manifest and the
receipt hold, and its comparison stays a JSON object in canonical form; so a verdict is read
back from the bucket exactly as it was written. -/
namespace VerdictObjects

open PyJson PyText Signatures ObjectStore GraphIr ComputeUnits Protocol AuditReplay
open ProtocolRoundTrip ScoreWindows ReplayVerifier

variable {β τ α γ : Type}

structure GoodComparison (c : Comparison) : Prop where
  inputs : Canonical (.obj c.inputs)
  outputs : Canonical (.obj c.outputs)
  notes : CanonicalFields c.notes

/-- The step ends on every store, with a value or an error, and keeps the comparison good. -/
def Keeps (x : Audit β α) : Prop :=
  ∀ s c, GoodComparison c → ∃ r c', (x c).run s = .ok (r, c') ∧ GoodComparison c'

section Rules

theorem keeps_pure (a : α) : Keeps (pure a : Audit β α) := by
  intro s c hc
  exact ⟨.ok a, c, rfl, hc⟩

theorem keeps_raise (e : PyErr) : Keeps (raise e : Audit β α) := by
  intro s c hc
  exact ⟨.error e, c, rfl, hc⟩

theorem keeps_extend {f : Comparison → Comparison}
    (hf : ∀ c, GoodComparison c → GoodComparison (f c)) : Keeps (extend f : Audit β Unit) := by
  intro s c hc
  exact ⟨.ok (), f c, rfl, hf c hc⟩

theorem keeps_bind {x : Audit β α} {f : α → Audit β γ} (hx : Keeps x) (hf : ∀ a, Keeps (f a)) :
    Keeps (x >>= f) := by
  intro s c hc
  obtain ⟨r, c₁, hrun, hc₁⟩ := hx s c hc
  rw [run_bind, hrun]
  cases r with
  | ok a => exact hf a s c₁ hc₁
  | error e => exact ⟨.error e, c₁, rfl, hc₁⟩

theorem keeps_read {x : Fetch β α} {f : α → Audit β γ}
    (hf : ∀ s a, x.run s = .ok a → Keeps (f a)) : Keeps (liftM x >>= f : Audit β γ) := by
  intro s c hc
  rw [run_bind, run_liftM]
  cases hx : x.run s with
  | ok a => exact hf s a hx s c hc
  | error e => exact ⟨.error e, c, rfl, hc⟩

theorem keeps_lift (x : Fetch β α) : Keeps (liftM x : Audit β α) := by
  intro s c hc
  exact ⟨x.run s, c, run_liftM x s c, hc⟩

end Rules

section Comparisons
variable {j : Json} {c : Comparison}


theorem GoodComparison.noteInput (h : GoodComparison c)
    (hj : Canonical j) (name : String) : GoodComparison (c.noteInput name j) :=
  ⟨canonical_insertEntry h.inputs hj, h.outputs, h.notes⟩

theorem GoodComparison.noteOutput (h : GoodComparison c)
    (hj : Canonical j) (name : String) : GoodComparison (c.noteOutput name j) :=
  ⟨h.inputs, canonical_insertEntry h.outputs hj, h.notes⟩

theorem GoodComparison.note (h : GoodComparison c)
    (hj : Canonical j) (key : String) : GoodComparison (c.note key j) := by
  refine ⟨h.inputs, h.outputs, ?_⟩
  exact (canonicalFields_append _ _).mpr ⟨h.notes, by simpa using hj⟩

theorem GoodComparison.toFields (h : GoodComparison c) :
    Canonical (.obj c.toFields) := by
  apply canonical_mkObj
  simp [h.inputs, h.outputs, h.notes]

end Comparisons

section Steps

variable (L : Libraries β τ) (cfg : AuditReplayConfig)

theorem inputEntry_canonical (digest : Option ArtifactDigest) (sha : String) (size : ℕ)
    (ref : ArtifactRef) : Canonical (inputEntry digest sha size ref) := by
  apply canonical_mkObj
  simp

theorem keeps_loadInput (digests : List ArtifactDigest) (ref : ArtifactRef) :
    Keeps (loadInput L cfg digests ref) := by
  refine keeps_bind (keeps_lift _) fun body => ?_
  refine keeps_bind (keeps_extend ?_) fun _ => ?_
  · intro c hc
    exact hc.noteInput (inputEntry_canonical _ _ _ _) _
  · split_ifs
    · exact keeps_lift _
    · exact keeps_bind (keeps_lift _) fun plain => keeps_lift _
    · exact keeps_raise _

theorem keeps_loadInputs (digests : List ArtifactDigest) (refs : List ArtifactRef)
    (inputs : SortedDict String τ) : Keeps (loadInputs L cfg digests refs inputs) := by
  induction refs generalizing inputs with
  | nil => exact keeps_pure inputs
  | cons ref refs ih => exact keeps_bind (keeps_loadInput L cfg digests ref) fun t => ih _

variable {receipt : JobReceiptV3}

theorem compareOutput_canonical {ref : ArtifactRef} {expected : Option τ}
    {manifest : JobManifestV3} {s : String → Py β}
    {cmp : OutputComparison}
    (h : (compareOutput L cfg ref expected manifest receipt).run s = .ok cmp) :
    Canonical (.obj cmp.entry) := by
  have hfailed : ∀ reason, Canonical (.obj (failedOutput reason).entry) := by
    intro reason
    refine canonical_obj_iff.mpr ⟨?_, by simp [failedOutput]⟩
    have hlt : "reason" < "status" := by decide
    exact List.pairwise_pair.mpr hlt
  unfold compareOutput at h
  cases expected with
  | none =>
    cases h
    exact hfailed _
  | some t =>
    simp only [ReadProgram.run_bind] at h
    cases hobserved : (observedOutput L cfg ref (receipt.outputDigests.find? fun d =>
        d.name = ref.name ∧ d.uri = ref.uri)).run s with
    | error e =>
      rw [hobserved] at h
      cases h
    | ok observed =>
      rw [hobserved, ok_bind] at h
      split_ifs at h with hshape
      · cases h
        exact hfailed _
      · rw [ReadProgram.run_bind] at h
        cases htensors : compareTensors L manifest.verificationPolicy observed t with
        | error e =>
          rw [htensors] at h
          cases h
        | ok verdict =>
          rw [htensors] at h
          cases h
          apply canonical_mkObj
          cases (receipt.outputDigests.find? fun d => d.name = ref.name ∧ d.uri = ref.uri).bind
            ArtifactDigest.sharded <;> simp

theorem keeps_compareOutputs (outputs : SortedDict String τ) (manifest : JobManifestV3)
    (receipt : JobReceiptV3) (refs : List ArtifactRef) :
    Keeps (compareOutputs L cfg outputs manifest receipt refs) := by
  induction refs with
  | nil => exact keeps_pure []
  | cons ref refs ih =>
    refine keeps_read fun s cmp hcmp => ?_
    refine keeps_bind (keeps_extend ?_) fun _ => keeps_bind ih fun reasons => keeps_pure _
    intro c hc
    exact hc.noteOutput (compareOutput_canonical L cfg hcmp) _

theorem keeps_replay (graph : Graph) (inputs : SortedDict String τ) (manifest : JobManifestV3)
    (h : Canonical (.obj receipt.execution)) :
    Keeps (replay L graph inputs manifest receipt) := by
  unfold replay
  split_ifs
  · refine keeps_bind (keeps_lift _) fun outputs => ?_
    refine keeps_bind (keeps_extend ?_) fun _ => keeps_pure outputs
    intro c hc
    refine hc.note (canonical_mkObj ?_) _
    simp [canonical_field h]
  · exact keeps_lift _

theorem keeps_checkReceipt (times : Times) (manifest : JobManifestV3)
    (h : Canonical (.obj receipt.execution)) :
    Keeps (checkReceipt L cfg times manifest receipt) := by
  refine keeps_bind (keeps_lift _) fun ownerOk => ?_
  cases ownerOk with
  | false => exact keeps_pure _
  | true =>
    refine keeps_bind (keeps_lift _) fun minerOk => ?_
    cases minerOk with
    | false => exact keeps_pure _
    | true =>
      by_cases hhash : manifest.manifestHash L.platform = receipt.manifestHash
      · simp only [Bool.not_true, Bool.false_eq_true, if_false, hhash, ne_eq, not_true]
        refine keeps_bind (keeps_lift _) fun graph => ?_
        refine keeps_bind (keeps_loadInputs L cfg _ _ _) fun inputs => ?_
        refine keeps_bind (keeps_replay L graph inputs manifest h) fun outputs => ?_
        refine keeps_bind (keeps_compareOutputs L cfg outputs manifest receipt _) ?_
        intro reasons
        split_ifs <;> exact keeps_pure _
      · simp only [Bool.not_true, Bool.false_eq_true, if_false, hhash, ne_eq, not_false_eq_true,
          if_true]
        exact keeps_pure _

theorem outcomeOf_good {r : Py Outcome} {c : Comparison} (hc : GoodComparison c) :
    GoodComparison (outcomeOf r c).2 := by
  cases r with
  | ok outcome => exact hc
  | error e => cases e <;> exact hc.note (.str _) _

theorem run_returns (times : Times) (receiptUri : String) (manifest : JobManifestV3)
    (auditorHotkey : String) (h : Canonical (.obj receipt.execution))
    (s : String → Py β) :
    ∃ res, (run L cfg times receiptUri manifest receipt auditorHotkey).run s = .ok res ∧
      WellTypedAuditResult res := by
  have hstart : GoodComparison { receiptUri := receiptUri } :=
    ⟨canonical_obj_iff.mpr ⟨List.Pairwise.nil, by simp⟩,
      canonical_obj_iff.mpr ⟨List.Pairwise.nil, by simp⟩, by simp⟩
  obtain ⟨r, c, hrun, hc⟩ := keeps_checkReceipt L cfg times manifest h s _ hstart
  refine ⟨result receipt auditorHotkey (outcomeOf r c).1 (outcomeOf r c).2 times, ?_,
    (outcomeOf_good hc).toFields⟩
  unfold run
  rw [ReadProgram.run_bind, hrun]
  rfl

end Steps

theorem loadReceipt_execution {p : Platform β} (hp : p.Lawful) {b : Bucket β} {uri : String}
    {r : JobReceiptV3} (h : loadReceipt p b uri = .ok r) : Canonical (.obj r.execution) := by
  obtain ⟨d, hd, h⟩ := bind_eq_ok.mp h
  obtain ⟨body, -, hbody⟩ := bind_eq_ok.mp hd
  have hcanonical := hp.loads_canonical body d hbody
  unfold JobReceiptV3.fromDict at h
  -- the fields that are read before the execution record
  iterate 32 obtain ⟨_, -, h⟩ := bind_eq_ok.mp h
  obtain ⟨x, hx, h⟩ := bind_eq_ok.mp h
  obtain ⟨execution, hexecution, h⟩ := bind_eq_ok.mp h
  iterate 2 obtain ⟨_, -, h⟩ := bind_eq_ok.mp h
  cases h
  exact canonical_fieldsOrEmpty (canonical_get hcanonical .null hx) hexecution

section Verdicts

variable {H : Host β τ} {V : ValidatorConfig β} {bucket uri : String} {receipt : JobReceiptV3}
variable {s : String → Py β}

theorem verify_returns (hr : Canonical (.obj receipt.execution)) {manifest : JobManifestV3}
    {graph : Graph} {cu : ℚ}
    (hmanifest : (findManifest H.libraries.platform bucket V.netuid receipt).run s = .ok manifest)
    (hgraph : (fetchManifestGraph H.libraries.platform manifest).run s = .ok graph)
    (hcu : expectedComputeUnits H.libraries.platform graph = .ok cu) :
    ∃ v, (verify H V bucket uri receipt).run s = .ok v := by
  obtain ⟨audit, haudit, -⟩ := run_returns H.libraries (auditConfig V) (H.auditTimes uri) uri
    manifest V.validatorHotkey hr s
  unfold verify verdictFromAudit
  simp only [ReadProgram.run_bind, hmanifest, ok_bind, haudit, hgraph, ReadProgram.run_lift, hcu]
  exact ⟨_, rfl⟩

structure VerdictOf (p : Platform β) (V : ValidatorConfig β) (receipt : JobReceiptV3)
    (v : VerificationVerdictV3) : Prop where
  receiptId : v.receiptId = receipt.receiptId
  wellTyped : WellTypedVerdict v
  signed : v.validatorSignature = some (recordSignature p v.unsignedDict (verdictSigner V))

variable {v : VerificationVerdictV3}

theorem verify_verdict (hr : Canonical (.obj receipt.execution))
    (h : (verify H V bucket uri receipt).run s = .ok v) :
    VerdictOf H.libraries.platform V receipt v := by
  unfold verify verdictFromAudit at h
  simp only [ReadProgram.run_bind] at h
  obtain ⟨manifest, -, h⟩ := bind_eq_ok.mp h
  obtain ⟨audit, haudit, h⟩ := bind_eq_ok.mp h
  obtain ⟨graph, -, h⟩ := bind_eq_ok.mp h
  obtain ⟨cu, -, h⟩ := bind_eq_ok.mp h
  cases h
  obtain ⟨audit', haudit', htyped⟩ := run_returns H.libraries (auditConfig V) (H.auditTimes uri)
    uri manifest V.validatorHotkey hr s
  rw [haudit] at haudit'
  cases haudit'
  have hdict : Canonical audit.toDict :=
    (canonical_signed (auditResult_unsignedFields_canonical htyped) (by simp)).1
  have hcomparison : Canonical (.obj [("audit", audit.toDict)]) :=
    canonical_obj_iff.mpr ⟨List.pairwise_singleton _ _, by simpa using hdict⟩
  exact ⟨rfl, hcomparison, rfl⟩

/-- Signatures of the configured signer are ASCII text, as those of every signer class are. -/
def AsciiSigner (V : ValidatorConfig β) : Prop :=
  ∀ signer, V.validatorSigner = some signer → ∀ payload, isAscii (signer.sign payload) = true

theorem isAscii_recordSignature (p : Platform β) (hV : AsciiSigner V) (value : Json) :
    isAscii (recordSignature p value (verdictSigner V)) = true := by
  unfold verdictSigner
  cases h : V.validatorSigner with
  | none => exact isAscii_hexEncode _
  | some signer => exact hV signer h _

theorem compareDigest_returns {a b : String} (ha : isAscii a = true) (hb : isAscii b = true) :
    ∃ same, compareDigest a b = .ok same := by
  simp [compareDigest, ha, hb]

theorem verdictValid_returns (p : Platform β) (a : ScoreArgs)
    {signature : String} (hsignature : v.validatorSignature = some signature)
    (hascii : isAscii signature = true) : ∃ valid, verdictValid p a v = .ok valid := by
  unfold verdictValid
  rw [hsignature]
  by_cases hempty : signature = ""
  · exact ⟨false, by simp [hempty]⟩
  simp only [hempty, if_false]
  obtain ⟨same, hsame⟩ := compareDigest_returns
    (isAscii_hexEncode (p.hmacSha256 a.validatorSecret (canonicalJson p v.unsignedDict))) hascii
  have hidentity : ∀ identity, ∃ accepted,
      verifyIdentityDict p v.unsignedDict identity signature = .ok accepted := by
    intro identity
    unfold verifyIdentityDict verifyIdentityPayload
    by_cases hhotkey : verifyHotkeyPayload p (canonicalJson p v.unsignedDict) identity signature
    · exact ⟨true, if_pos hhotkey⟩
    · rw [if_neg hhotkey]
      exact compareDigest_returns (isAscii_hexEncode _) hascii
  obtain ⟨accepted, haccepted⟩ :=
    hidentity (if a.validatorHotkey = "" then v.validatorHotkey else a.validatorHotkey)
  rw [haccepted, ok_bind]
  cases accepted with
  | true => exact ⟨true, rfl⟩
  | false => exact ⟨same, hsame⟩

theorem loadVerdict_of_verify {p : Platform β} (hp : p.Lawful) (hV : AsciiSigner V) (a : ScoreArgs)
    {b : Bucket β} {at_ : String} (hv : VerdictOf p V receipt v)
    (hget : b.get at_ = .ok (p.dumps v.toDict)) :
    ∃ loaded, loadVerdict p b a at_ = .ok loaded ∧
      ∀ w, loaded = some w → w.receiptId = receipt.receiptId := by
  obtain ⟨valid, hvalid⟩ := verdictValid_returns p a hv.signed (isAscii_recordSignature p hV _)
  rw [loadVerdict_written hp hget hv.wellTyped, hvalid, ok_bind]
  refine ⟨_, rfl, ?_⟩
  intro w hw
  split_ifs at hw
  cases hw
  exact hv.receiptId

end Verdicts

end VerdictObjects

import Teuton.Protocol

/-! Records survive the wire. Reading back what a record wrote gives the record, entry
omissions and defaults included; the unsigned dictionary determines every field but the
signature; and encoding to JSON text and decoding again changes nothing. -/
namespace ProtocolRoundTrip

open PyJson Signatures Protocol

variable {β : Type}

theorem optRecord_map {α : Type} {toDict : α → Json} {fromDict : Json → Py α}
    (htruthy : ∀ a, (toDict a).truthy = true) (hround : ∀ a, fromDict (toDict a) = .ok a)
    (o : Option α) : optRecord fromDict ((o.map toDict).getD .null) = .ok o := by
  cases o with
  | none => rfl
  | some a =>
    simp only [optRecord, Option.map_some, Option.getD_some, htruthy a, hround a, if_true]
    rfl

@[simp] theorem optToInt_map (o : Option ℤ) : optToInt ((o.map Json.int).getD .null) = .ok o := by
  cases o <;> rfl

@[simp] theorem fieldsOrEmpty_nonEmpty (l : Fields) :
    ((nonEmpty l (.obj l)).getD .null).fieldsOrEmpty = .ok l := by
  cases l <;> rfl

@[simp] theorem toList_nonEmpty {α : Type} (l : List α) (f : α → Json) :
    ((nonEmpty l (.arr (l.map f))).getD (.arr [])).toList = .ok (l.map f) := by
  cases l <;> rfl

@[simp] theorem mapM_toInt (l : List ℤ) : (l.map Json.int).mapM Json.toInt = .ok l :=
  mapM_ok fun _ _ => rfl

@[simp] theorem cryptoPolicy_fromDict_toDict (c : ArtifactCryptoPolicy) :
    ArtifactCryptoPolicy.fromDict c.toDict = .ok c := by
  simp [ArtifactCryptoPolicy.fromDict, ArtifactCryptoPolicy.toDict]

theorem cryptoPolicy_truthy (c : ArtifactCryptoPolicy) : c.toDict.truthy = true := by
  simp only [ArtifactCryptoPolicy.toDict, List.cons_append]
  exact truthy_mkObj_cons _ _

@[simp] theorem artifactRef_fromDict_toDict (r : ArtifactRef) :
    ArtifactRef.fromDict r.toDict = .ok r := by
  have hcrypto := optRecord_map cryptoPolicy_truthy cryptoPolicy_fromDict_toDict r.crypto
  simp [ArtifactRef.fromDict, ArtifactRef.toDict, hcrypto]

@[simp] theorem shardSpec_fromDict_toDict (s : ShardSpec) :
    ShardSpec.fromDict s.toDict = .ok s := by
  simp [ShardSpec.fromDict, ShardSpec.toDict]

@[simp] theorem shardedTensor_fromDict_toDict (m : ShardedTensorManifest) :
    ShardedTensorManifest.fromDict m.toDict = .ok m := by
  have hshards : (m.shards.map ShardSpec.toDict).mapM ShardSpec.fromDict = .ok m.shards :=
    mapM_ok fun s _ => shardSpec_fromDict_toDict s
  simp [ShardedTensorManifest.fromDict, ShardedTensorManifest.toDict, hshards, -List.mapM_map]

theorem shardedTensor_truthy (m : ShardedTensorManifest) : m.toDict.truthy = true :=
  truthy_mkObj_cons _ _

@[simp] theorem artifactDigest_fromDict_toDict (a : ArtifactDigest) :
    ArtifactDigest.fromDict a.toDict = .ok a := by
  have hsharded := optRecord_map shardedTensor_truthy shardedTensor_fromDict_toDict a.sharded
  simp [ArtifactDigest.fromDict, ArtifactDigest.toDict, hsharded]

@[simp] theorem graphRef_fromDict_toDict (g : GraphRef) : GraphRef.fromDict g.toDict = .ok g := by
  simp [GraphRef.fromDict, GraphRef.toDict]

@[simp] theorem workerIdentity_fromDict_toDict (w : WorkerIdentity) :
    WorkerIdentity.fromDict w.toDict = .ok w := by
  simp [WorkerIdentity.fromDict, WorkerIdentity.toDict, -List.mapM_map]

@[simp] theorem verificationPolicy_fromDict_toDict (v : VerificationPolicy) :
    VerificationPolicy.fromDict v.toDict = .ok v := by
  simp [VerificationPolicy.fromDict, VerificationPolicy.toDict, Json.truthy]

theorem resourceRequirements_fromDict_toDict (r : ResourceRequirements) :
    ResourceRequirements.fromDict r.toDict = .ok r := by
  simp [ResourceRequirements.fromDict, ResourceRequirements.toDict]

@[simp] theorem resourceRequirements_fromDict_entry (r : ResourceRequirements) :
    ResourceRequirements.fromDict
      ((if r.isDefault then none else some r.toDict : Option Json).getD .null) = .ok r := by
  by_cases h : r.isDefault
  · obtain ⟨minGpus, placement, parallelism⟩ := r
    simp only [ResourceRequirements.isDefault, Bool.and_eq_true, beq_iff_eq,
      List.isEmpty_iff] at h
    obtain ⟨⟨rfl, rfl⟩, rfl⟩ := h
    rfl
  · simp only [h]
    exact resourceRequirements_fromDict_toDict r

@[simp] theorem mapM_artifactRef (l : List ArtifactRef) :
    (l.map ArtifactRef.toDict).mapM ArtifactRef.fromDict = .ok l :=
  mapM_ok fun r _ => artifactRef_fromDict_toDict r

@[simp] theorem mapM_artifactDigest (l : List ArtifactDigest) :
    (l.map ArtifactDigest.toDict).mapM ArtifactDigest.fromDict = .ok l :=
  mapM_ok fun a _ => artifactDigest_fromDict_toDict a

def unsignManifest (m : JobManifestV3) : JobManifestV3 := { m with ownerSignature := none }

def unsignReceipt (r : JobReceiptV3) : JobReceiptV3 := { r with minerSignature := none }

def unsignVerdict (v : VerificationVerdictV3) : VerificationVerdictV3 :=
  { v with validatorSignature := none }

def unsignAuditResult (a : AuditResultV3) : AuditResultV3 := { a with auditorSignature := none }

theorem manifest_fromDict_toDict (p : Platform β) (m : JobManifestV3) :
    JobManifestV3.fromDict (m.toDict p) = .ok m := by
  simp [JobManifestV3.fromDict, JobManifestV3.toDict, JobManifestV3.unsignedFields,
    -List.mapM_map]

theorem manifest_fromDict_unsignedDict (m : JobManifestV3) :
    JobManifestV3.fromDict m.unsignedDict = .ok (unsignManifest m) := by
  simp [JobManifestV3.fromDict, JobManifestV3.unsignedDict, JobManifestV3.unsignedFields,
    unsignManifest, -List.mapM_map]
  rfl

theorem receipt_fromDict_toDict (r : JobReceiptV3) :
    JobReceiptV3.fromDict r.toDict = .ok r := by
  simp [JobReceiptV3.fromDict, JobReceiptV3.toDict, JobReceiptV3.unsignedFields,
    -List.mapM_map]

theorem receipt_fromDict_unsignedDict (r : JobReceiptV3) :
    JobReceiptV3.fromDict r.unsignedDict = .ok (unsignReceipt r) := by
  simp [JobReceiptV3.fromDict, JobReceiptV3.unsignedDict, JobReceiptV3.unsignedFields,
    unsignReceipt, -List.mapM_map]
  rfl

theorem verdict_fromDict_toDict (v : VerificationVerdictV3) :
    VerificationVerdictV3.fromDict v.toDict = .ok v := by
  simp [VerificationVerdictV3.fromDict, VerificationVerdictV3.toDict,
    VerificationVerdictV3.unsignedFields]

theorem verdict_fromDict_unsignedDict (v : VerificationVerdictV3) :
    VerificationVerdictV3.fromDict v.unsignedDict = .ok (unsignVerdict v) := by
  simp [VerificationVerdictV3.fromDict, VerificationVerdictV3.unsignedDict,
    VerificationVerdictV3.unsignedFields, unsignVerdict]
  rfl

theorem auditResult_fromDict_toDict (a : AuditResultV3) :
    AuditResultV3.fromDict a.toDict = .ok a := by
  simp [AuditResultV3.fromDict, AuditResultV3.toDict, AuditResultV3.unsignedFields]

theorem auditResult_fromDict_unsignedDict (a : AuditResultV3) :
    AuditResultV3.fromDict a.unsignedDict = .ok (unsignAuditResult a) := by
  simp [AuditResultV3.fromDict, AuditResultV3.unsignedDict, AuditResultV3.unsignedFields,
    unsignAuditResult]
  rfl

@[simp] theorem cryptoPolicy_canonical (c : ArtifactCryptoPolicy) : Canonical c.toDict := by
  apply canonical_mkObj
  simp +contextual

@[simp] theorem artifactRef_canonical (r : ArtifactRef) : Canonical r.toDict := by
  apply canonical_mkObj
  simp +contextual

@[simp] theorem shardSpec_canonical (s : ShardSpec) : Canonical s.toDict := by
  apply canonical_mkObj
  simp +contextual

@[simp] theorem shardedTensor_canonical (m : ShardedTensorManifest) : Canonical m.toDict := by
  apply canonical_mkObj
  simp +contextual

@[simp] theorem artifactDigest_canonical (a : ArtifactDigest) : Canonical a.toDict := by
  apply canonical_mkObj
  simp +contextual

@[simp] theorem graphRef_canonical (g : GraphRef) : Canonical g.toDict := by
  apply canonical_mkObj
  simp

@[simp] theorem verificationPolicy_canonical (v : VerificationPolicy) : Canonical v.toDict := by
  apply canonical_mkObj
  simp

theorem canonical_nonEmpty {α : Type} {l : List α} {j : Json} (h : Canonical j) :
    ∀ x, nonEmpty l j = some x → Canonical x := by
  intro x hx
  unfold nonEmpty at hx
  split_ifs at hx
  exact Option.some.inj hx ▸ h

theorem workerIdentity_canonical {w : WorkerIdentity} (h : Canonical (.obj w.capabilities)) :
    Canonical w.toDict := by
  have hgroup : Canonical (.arr (w.deviceGroup.map Json.int)) := by
    simp +contextual
  apply canonical_mkObj
  simp only [canonicalFields_append, canonicalFields_optField]
  refine ⟨⟨⟨?_, canonical_nonEmpty hgroup⟩, ?_⟩, canonical_nonEmpty h⟩
  · simp
  · simp +contextual

theorem resourceRequirements_canonical {r : ResourceRequirements}
    (h : Canonical (.obj r.parallelism)) : Canonical r.toDict := by
  apply canonical_mkObj
  simp only [canonicalFields_append, canonicalFields_optField]
  refine ⟨?_, canonical_nonEmpty h⟩
  simp

/-- Well-typed records: the dictionaries they carry are JSON objects. -/
def WellTypedManifest (m : JobManifestV3) : Prop :=
  Canonical (.obj m.params) ∧ Canonical (.obj m.resourceRequirements.parallelism)

def WellTypedReceipt (r : JobReceiptV3) : Prop :=
  Canonical (.obj r.execution) ∧ Canonical (.obj r.worker.capabilities)

def WellTypedVerdict (v : VerificationVerdictV3) : Prop := Canonical (.obj v.comparison)

def WellTypedAuditResult (a : AuditResultV3) : Prop := Canonical (.obj a.comparison)

theorem manifest_unsignedFields_canonical {m : JobManifestV3} (h : WellTypedManifest m) :
    CanonicalFields m.unsignedFields := by
  have hres : ∀ x, (if m.resourceRequirements.isDefault then none
      else some m.resourceRequirements.toDict) = some x → Canonical x := by
    intro x hx
    split_ifs at hx
    exact Option.some.inj hx ▸ resourceRequirements_canonical h.2
  simp only [JobManifestV3.unsignedFields, canonicalFields_append, canonicalFields_optField]
  refine ⟨?_, hres⟩
  simp +contextual [h.1]

theorem receipt_unsignedFields_canonical {r : JobReceiptV3} (h : WellTypedReceipt r) :
    CanonicalFields r.unsignedFields := by
  simp only [JobReceiptV3.unsignedFields, canonicalFields_append, canonicalFields_optField]
  refine ⟨?_, canonical_nonEmpty h.1⟩
  simp +contextual [workerIdentity_canonical h.2]

theorem verdict_unsignedFields_canonical {v : VerificationVerdictV3} (h : WellTypedVerdict v) :
    CanonicalFields v.unsignedFields := by
  have hc : Canonical (.obj v.comparison) := h
  simp [VerificationVerdictV3.unsignedFields, hc]

theorem auditResult_unsignedFields_canonical {a : AuditResultV3} (h : WellTypedAuditResult a) :
    CanonicalFields a.unsignedFields := by
  have hc : Canonical (.obj a.comparison) := h
  simp [AuditResultV3.unsignedFields, hc]

/-- A signed record type: its dictionary forms, its signature and the record without it. -/
structure SignedRecord (β ρ : Type) where
  toDict : Platform β → ρ → Json
  fromDict : Json → Py ρ
  unsignedDict : ρ → Json
  signature : ρ → Option String
  unsign : ρ → ρ
  WellTyped : ρ → Prop

def manifestRecord : SignedRecord β JobManifestV3 :=
  ⟨JobManifestV3.toDict, JobManifestV3.fromDict, JobManifestV3.unsignedDict,
    JobManifestV3.ownerSignature, unsignManifest, WellTypedManifest⟩

def receiptRecord : SignedRecord β JobReceiptV3 :=
  ⟨fun _ => JobReceiptV3.toDict, JobReceiptV3.fromDict, JobReceiptV3.unsignedDict,
    JobReceiptV3.minerSignature, unsignReceipt, WellTypedReceipt⟩

def verdictRecord : SignedRecord β VerificationVerdictV3 :=
  ⟨fun _ => VerificationVerdictV3.toDict, VerificationVerdictV3.fromDict,
    VerificationVerdictV3.unsignedDict, VerificationVerdictV3.validatorSignature, unsignVerdict,
    WellTypedVerdict⟩

def auditResultRecord : SignedRecord β AuditResultV3 :=
  ⟨fun _ => AuditResultV3.toDict, AuditResultV3.fromDict, AuditResultV3.unsignedDict,
    AuditResultV3.auditorSignature, unsignAuditResult, WellTypedAuditResult⟩

def SignedRecord.overWire {ρ : Type} (R : SignedRecord β ρ) (p : Platform β) (r : ρ) : Py ρ := do
  R.fromDict (← p.loads (p.dumps (R.toDict p r)))

/-- The record type survives the wire: reading back is exact, and so the signed bytes, their
hash and every signature check are the same on both sides; the signed bytes determine the
record up to its signature. -/
structure SignedRecord.SurvivesWire {ρ : Type} (R : SignedRecord β ρ) (p : Platform β) : Prop where
  fromDict_toDict : ∀ r, R.fromDict (R.toDict p r) = .ok r
  overWire_ok : ∀ r, R.WellTyped r → R.overWire p r = .ok r
  unsignedDict_overWire : ∀ r, R.WellTyped r →
    p.loads (canonicalJson p (R.unsignedDict r)) = .ok (R.unsignedDict r)
  checks_overWire : ∀ r r', R.WellTyped r → R.overWire p r = .ok r' →
    R.unsignedDict r' = R.unsignedDict r ∧
    digestDict p (R.unsignedDict r') = digestDict p (R.unsignedDict r) ∧
    R.signature r' = R.signature r ∧
    (∀ secret sig, verifyDict p (R.unsignedDict r') secret sig =
      verifyDict p (R.unsignedDict r) secret sig) ∧
    (∀ identity sig, verifyIdentityDict p (R.unsignedDict r') identity sig =
      verifyIdentityDict p (R.unsignedDict r) identity sig)
  unsignedDict_injective : ∀ r s, R.unsign r ≠ R.unsign s → R.unsignedDict r ≠ R.unsignedDict s

theorem survivesWire_of_readBack {ρ : Type} {R : SignedRecord β ρ} {p : Platform β}
    (loads_dumps : p.Rereads)
    (hto : ∀ r, R.fromDict (R.toDict p r) = .ok r)
    (hunsigned : ∀ r, R.fromDict (R.unsignedDict r) = .ok (R.unsign r))
    (hcanonical : ∀ r, R.WellTyped r → Canonical (R.toDict p r) ∧ Canonical (R.unsignedDict r)) :
    R.SurvivesWire p := by
  have hwire : ∀ r, R.WellTyped r → R.overWire p r = .ok r := by
    intro r hr
    rw [SignedRecord.overWire, loads_dumps _ (hcanonical r hr).1]
    exact hto r
  refine ⟨hto, hwire, ?_, ?_, ?_⟩
  · intro r hr
    exact loads_dumps _ (hcanonical r hr).2
  · intro r r' hr h
    have hrr : r = r' := by
      rw [hwire r hr] at h
      exact Except.ok.inj h
    subst hrr
    exact ⟨rfl, rfl, rfl, fun _ _ => rfl, fun _ _ => rfl⟩
  · intro r s hne h
    have hr := hunsigned r
    rw [h, hunsigned s] at hr
    exact hne (Except.ok.inj hr).symm

theorem canonical_signed {l extra : Fields} (h : CanonicalFields l) (he : CanonicalFields extra) :
    Canonical (mkObj (l ++ extra)) ∧ Canonical (mkObj l) := by
  constructor
  · apply canonical_mkObj
    exact (canonicalFields_append l extra).mpr ⟨h, he⟩
  · exact canonical_mkObj h

theorem signed_records_survive_wire (p : Platform β)
    (loads_dumps : ∀ j, Canonical j → p.loads (p.dumps j) = .ok j) :
    (manifestRecord (β := β)).SurvivesWire p ∧
    (receiptRecord (β := β)).SurvivesWire p ∧
    (verdictRecord (β := β)).SurvivesWire p ∧
    (auditResultRecord (β := β)).SurvivesWire p := by
  refine ⟨?_, ?_, ?_, ?_⟩
  · apply survivesWire_of_readBack loads_dumps
    · exact manifest_fromDict_toDict p
    · exact manifest_fromDict_unsignedDict
    · intro m hm
      exact canonical_signed (manifest_unsignedFields_canonical hm) (by simp)
  · apply survivesWire_of_readBack loads_dumps
    · exact receipt_fromDict_toDict
    · exact receipt_fromDict_unsignedDict
    · intro r hr
      exact canonical_signed (receipt_unsignedFields_canonical hr) (by simp)
  · apply survivesWire_of_readBack loads_dumps
    · exact verdict_fromDict_toDict
    · exact verdict_fromDict_unsignedDict
    · intro v hv
      exact canonical_signed (verdict_unsignedFields_canonical hv) (by simp)
  · apply survivesWire_of_readBack loads_dumps
    · exact auditResult_fromDict_toDict
    · exact auditResult_fromDict_unsignedDict
    · intro a ha
      exact canonical_signed (auditResult_unsignedFields_canonical ha) (by simp)

theorem signed_records_survive_plain_wire :
    manifestRecord.SurvivesWire plainPlatform ∧ receiptRecord.SurvivesWire plainPlatform ∧
    verdictRecord.SurvivesWire plainPlatform ∧ auditResultRecord.SurvivesWire plainPlatform :=
  signed_records_survive_wire plainPlatform plainPlatform_lawful.loads_dumps

end ProtocolRoundTrip

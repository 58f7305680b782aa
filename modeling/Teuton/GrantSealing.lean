import Teuton.AssignmentGrants
import Teuton.EnvelopeRoundTrip
import Teuton.JsonBytes
import Teuton.ProtocolRoundTrip

/-! Sealed grants. A grant is written as canonical JSON, masked with a keystream that depends on
the secret and the recipient, and stored in an envelope that names the recipient. -/
namespace AssignmentGrants

open PyJson Signatures Protocol ProtocolRoundTrip ArtifactCrypto EnvelopeRoundTrip

variable {β : Type}

def PresignedUrlGrant.toDict (g : PresignedUrlGrant) : Json :=
  mkObj <|
    [("method", .str g.method), ("canonical_uri", .str g.canonicalUri), ("url", .str g.url),
     ("expires_unix", .int g.expiresUnix)] ++
    optField "content_sha256" (g.contentSha256.map .str)

def PresignedUrlGrant.fromDict (d : Json) : Py PresignedUrlGrant := do
  return {
    method := ← (← d.getItem "method").asStr
    canonicalUri := ← (← d.getItem "canonical_uri").asStr
    url := ← (← d.getItem "url").asStr
    expiresUnix := ← (← d.getItem "expires_unix").toInt
    contentSha256 := ← (← d.get "content_sha256").asOptStr }

def AssignmentGrantV3.toDict (g : AssignmentGrantV3) : Json :=
  mkObj
    [("schema_version", .int g.schemaVersion),
     ("job_id", .str g.jobId),
     ("run_id", .str g.runId),
     ("assigned_hotkey", .str g.assignedHotkey),
     ("input_gets", .arr (g.inputGets.map PresignedUrlGrant.toDict)),
     ("output_puts", .arr (g.outputPuts.map PresignedUrlGrant.toDict)),
     ("receipt_put", (g.receiptPut.map PresignedUrlGrant.toDict).getD .null),
     ("created_unix", .int g.createdUnix),
     ("expires_unix", .int g.expiresUnix)]

def AssignmentGrantV3.fromDict (d : Json) : Py AssignmentGrantV3 := do
  return {
    schemaVersion := ← (← d.get "schema_version" (.int 1)).toInt
    jobId := ← (← d.getItem "job_id").asStr
    runId := ← (← d.getItem "run_id").asStr
    assignedHotkey := ← (← d.getItem "assigned_hotkey").asStr
    inputGets := ← (← (← d.get "input_gets" (.arr [])).toList).mapM PresignedUrlGrant.fromDict
    outputPuts := ← (← (← d.get "output_puts" (.arr [])).toList).mapM PresignedUrlGrant.fromDict
    receiptPut := ← optRecord PresignedUrlGrant.fromDict (← d.get "receipt_put")
    createdUnix := ← (← d.get "created_unix" (.int 0)).toInt
    expiresUnix := ← (← d.get "expires_unix" (.int 0)).toInt }

structure EncryptedAssignmentGrantV3 where
  jobId : String
  runId : String
  recipientHotkey : String
  ciphertextB64 : String
  cryptoScheme : String := "dev-xor-v1"
  recipientUid : Option ℤ := none
  metagraphBlock : Option ℤ := none
  metagraphHash : Option String := none
  senderHotkey : Option String := none
  senderPublicKeyHex : Option String := none
  recipientPublicKeyHex : Option String := none
  schemaVersion : ℤ := 1

def EncryptedAssignmentGrantV3.toDict (e : EncryptedAssignmentGrantV3) : Json :=
  mkObj <|
    [("schema_version", .int e.schemaVersion),
     ("job_id", .str e.jobId),
     ("run_id", .str e.runId),
     ("recipient_hotkey", .str e.recipientHotkey),
     ("ciphertext_b64", .str e.ciphertextB64),
     ("crypto_scheme", .str e.cryptoScheme)] ++
    optField "recipient_uid" (e.recipientUid.map .int) ++
    optField "metagraph_block" (e.metagraphBlock.map .int) ++
    optField "metagraph_hash" (e.metagraphHash.map .str) ++
    optField "sender_hotkey" (e.senderHotkey.map .str) ++
    optField "sender_public_key_hex" (e.senderPublicKeyHex.map .str) ++
    optField "recipient_public_key_hex" (e.recipientPublicKeyHex.map .str)

def EncryptedAssignmentGrantV3.fromDict (d : Json) : Py EncryptedAssignmentGrantV3 := do
  return {
    schemaVersion := ← (← d.get "schema_version" (.int 1)).toInt
    jobId := ← (← d.getItem "job_id").asStr
    runId := ← (← d.getItem "run_id").asStr
    recipientHotkey := ← (← d.getItem "recipient_hotkey").asStr
    ciphertextB64 := ← (← d.getItem "ciphertext_b64").asStr
    cryptoScheme := ← (← d.get "crypto_scheme" (.str "dev-xor-v1")).asStr
    recipientUid := ← (← d.get "recipient_uid").asOptInt
    metagraphBlock := ← (← d.get "metagraph_block").asOptInt
    metagraphHash := ← (← d.get "metagraph_hash").asOptStr
    senderHotkey := ← (← d.get "sender_hotkey").asOptStr
    senderPublicKeyHex := ← (← d.get "sender_public_key_hex").asOptStr
    recipientPublicKeyHex := ← (← d.get "recipient_public_key_hex").asOptStr }

structure DevAssignmentCrypto where
  secret : String := "teuton-dev-assignment"
  scheme : String := "dev-xor-v1"

/-- What the metagraph said of the recipient when the grant was sealed. -/
structure Recipient where
  hotkey : String
  uid : Option ℤ := none
  metagraphBlock : Option ℤ := none
  metagraphHash : Option String := none

def DevAssignmentCrypto.keyFor (c : DevAssignmentCrypto) (hotkey : String) : String :=
  c.secret ++ ":" ++ hotkey

def DevAssignmentCrypto.encryptForHotkey (p : Platform β) (c : DevAssignmentCrypto)
    (grant : AssignmentGrantV3) (recipient : Recipient) : EncryptedAssignmentGrantV3 :=
  let plaintext := canonicalJson p grant.toDict
  let ciphertext := xorCrypt p plaintext (c.keyFor recipient.hotkey)
  { jobId := grant.jobId
    runId := grant.runId
    recipientHotkey := recipient.hotkey
    recipientUid := recipient.uid
    metagraphBlock := recipient.metagraphBlock
    metagraphHash := some (strOr recipient.metagraphHash
      (sha256Hex p (p.ofBytes recipient.hotkey.toUTF8.toList)))
    ciphertextB64 := p.b64encode ciphertext
    cryptoScheme := c.scheme }

def DevAssignmentCrypto.decrypt (p : Platform β) (c : DevAssignmentCrypto)
    (encrypted : EncryptedAssignmentGrantV3) (expectedHotkey : String) : Py AssignmentGrantV3 := do
  if encrypted.cryptoScheme ≠ c.scheme then
    .error (.valueError ("unsupported assignment scheme '" ++ encrypted.cryptoScheme ++ "'"))
  if encrypted.recipientHotkey ≠ expectedHotkey then
    .error (.valueError "assignment grant recipient hotkey mismatch")
  let ciphertext ← p.b64decode encrypted.ciphertextB64
  let plaintext := xorCrypt p ciphertext (c.keyFor expectedHotkey)
  AssignmentGrantV3.fromDict (← p.loads plaintext)

section Records

@[simp] theorem urlGrant_fromDict_toDict (g : PresignedUrlGrant) :
    PresignedUrlGrant.fromDict g.toDict = .ok g := by
  simp [PresignedUrlGrant.fromDict, PresignedUrlGrant.toDict]

theorem urlGrant_truthy (g : PresignedUrlGrant) : g.toDict.truthy = true := by
  simp only [PresignedUrlGrant.toDict, List.cons_append]
  exact truthy_mkObj_cons _ _

theorem canonical_urlGrant (g : PresignedUrlGrant) : Canonical g.toDict := by
  apply canonical_mkObj
  simp +contextual

theorem grant_fromDict_toDict (g : AssignmentGrantV3) :
    AssignmentGrantV3.fromDict g.toDict = .ok g := by
  have hreceipt := optRecord_map urlGrant_truthy urlGrant_fromDict_toDict g.receiptPut
  have hlist (l : List PresignedUrlGrant) :
      (l.map PresignedUrlGrant.toDict).mapM PresignedUrlGrant.fromDict = .ok l :=
    mapM_ok fun u _ => urlGrant_fromDict_toDict u
  simp [AssignmentGrantV3.fromDict, AssignmentGrantV3.toDict, hreceipt, hlist, -List.mapM_map]

theorem canonical_grant (g : AssignmentGrantV3) : Canonical g.toDict := by
  apply canonical_mkObj
  have hreceipt : Canonical ((g.receiptPut.map PresignedUrlGrant.toDict).getD .null) := by
    cases g.receiptPut with
    | none => exact Canonical.null
    | some u => exact canonical_urlGrant u
  simp [hreceipt, canonical_urlGrant]

theorem sealed_fromDict_toDict (e : EncryptedAssignmentGrantV3) :
    EncryptedAssignmentGrantV3.fromDict e.toDict = .ok e := by
  simp [EncryptedAssignmentGrantV3.fromDict, EncryptedAssignmentGrantV3.toDict]

theorem canonical_sealed (e : EncryptedAssignmentGrantV3) : Canonical e.toDict := by
  apply canonical_mkObj
  simp +contextual

end Records

def receiveSealed (p : Platform β) (body : β) : Py EncryptedAssignmentGrantV3 := do
  EncryptedAssignmentGrantV3.fromDict (← p.loads body)

variable {p : Platform β}

theorem receiveSealed_dumps (hp : p.Lawful) (e : EncryptedAssignmentGrantV3) :
    receiveSealed p (p.dumps e.toDict) = .ok e := by
  rw [receiveSealed, hp.loads_dumps _ (canonical_sealed e), ok_bind, sealed_fromDict_toDict]

theorem decrypt_encryptForHotkey (hp : p.Lawful) (hb : p.Bytes) (c : DevAssignmentCrypto)
    (grant : AssignmentGrantV3) (recipient : Recipient) :
    c.decrypt p (c.encryptForHotkey p grant recipient) recipient.hotkey = .ok grant := by
  simp only [DevAssignmentCrypto.decrypt, DevAssignmentCrypto.encryptForHotkey, ne_eq,
    not_true_eq_false, if_false, hb.b64decode_b64encode, xorCrypt_xorCrypt hb, canonicalJson,
    hp.loads_dumps _ (canonical_grant grant), ok_bind, grant_fromDict_toDict]

/-- The recipient's name is outside the masked part, so nobody else gets as far as the keystream,
whatever secret and scheme they hold. -/
theorem decrypt_other (c : DevAssignmentCrypto) {e : EncryptedAssignmentGrantV3} {hotkey : String}
    (h : hotkey ≠ e.recipientHotkey) :
    ∃ message, c.decrypt p e hotkey = .error (.valueError message) := by
  by_cases hscheme : e.cryptoScheme = c.scheme
  · refine ⟨"assignment grant recipient hotkey mismatch", ?_⟩
    simp only [DevAssignmentCrypto.decrypt, hscheme, h.symm, ne_eq, not_true_eq_false,
      not_false_eq_true, if_true, if_false]
    rfl
  · refine ⟨"unsupported assignment scheme '" ++ e.cryptoScheme ++ "'", ?_⟩
    simp only [DevAssignmentCrypto.decrypt, hscheme, ne_eq, not_false_eq_true, if_true]
    rfl

theorem sealed_grant_round_trip (hp : p.Lawful) (hb : p.Bytes) (c : DevAssignmentCrypto)
    (grant : AssignmentGrantV3) (recipient : Recipient) :
    let stored := p.dumps (c.encryptForHotkey p grant recipient).toDict
    ((receiveSealed p stored).bind fun e => c.decrypt p e recipient.hotkey) = .ok grant ∧
      ∀ (other : DevAssignmentCrypto) (hotkey : String), hotkey ≠ recipient.hotkey →
        ∃ message, ((receiveSealed p stored).bind fun e => other.decrypt p e hotkey) =
          .error (.valueError message) := by
  intro stored
  rw [receiveSealed_dumps hp]
  refine ⟨decrypt_encryptForHotkey hp hb c grant recipient, fun other hotkey h => ?_⟩
  exact decrypt_other other h

def exampleGrant : AssignmentGrantV3 where
  jobId := "job"
  runId := "run"
  assignedHotkey := "miner"
  inputGets := [⟨"GET", "s3://bucket/in", "https://host/in?sig=%2F\u00e9", 60, some "00ff"⟩,
    ⟨"GET", "s3://bucket/graph", "https://host/graph", 60, none⟩]
  receiptPut := some ⟨"PUT", "s3://bucket/receipt", "https://host/receipt", 60, none⟩

open JsonBytes in
theorem example_grant_round_trip :
    let c : DevAssignmentCrypto := ⟨"secret", "dev-xor-v1"⟩
    let stored := freePlatform.dumps
      (c.encryptForHotkey freePlatform exampleGrant ⟨"miner", some 3, none, none⟩).toDict
    ((receiveSealed freePlatform stored).bind fun e => c.decrypt freePlatform e "miner") =
        .ok exampleGrant ∧
      ∀ (other : DevAssignmentCrypto) (hotkey : String), hotkey ≠ "miner" →
        ∃ message, ((receiveSealed freePlatform stored).bind fun e =>
          other.decrypt freePlatform e hotkey) = .error (.valueError message) :=
  sealed_grant_round_trip freePlatform_lawful freePlatform_bytes ⟨"secret", "dev-xor-v1"⟩
    exampleGrant ⟨"miner", some 3, none, none⟩

end AssignmentGrants

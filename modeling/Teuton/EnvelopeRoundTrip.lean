import Teuton.ArtifactCrypto

/-! Opening what was sealed. An envelope that was written under a policy is opened again by a
reader with the same policy and encryption secret exactly if the reader's verifier accepts the
signature of the writer, and then its plaintext is what was sealed. -/
namespace EnvelopeRoundTrip

open PyJson Signatures Protocol ArtifactCrypto

variable {β : Type}

section Keystream

theorem xorFrom_xorFrom (p : Platform β) (stream : List UInt8) (i : ℕ) (data : List UInt8) :
    xorFrom p stream i (xorFrom p stream i data) = data := by
  induction data generalizing stream i with
  | nil => rfl
  | cons x data ih =>
    simp only [xorFrom]
    rw [ih, UInt8.xor_assoc, UInt8.xor_self, UInt8.xor_zero]

theorem xorCrypt_xorCrypt {p : Platform β} (hb : p.Bytes) (data : β) (key : String) :
    xorCrypt p (xorCrypt p data key) key = data := by
  simp only [xorCrypt, hb.toBytes_ofBytes, xorFrom_xorFrom, hb.ofBytes_toBytes]

end Keystream

@[simp] theorem fromDict_toDict (e : ArtifactEnvelope) :
    ArtifactEnvelope.fromDict e.toDict = .ok e := by
  simp [ArtifactEnvelope.fromDict, ArtifactEnvelope.toDict, ArtifactEnvelope.signedPayloadFields]

/-- The rounds are out: what was encrypted for one is decrypted. -/
def Revealed (timelock : TimelockProvider β) : Prop :=
  ∀ body round policy ciphertext, timelock.encrypt body round policy = .ok ciphertext →
    timelock.decrypt ciphertext round policy = .ok body

section Checks

variable {p : Platform β} {verify : Verifier β}

theorem verifyArtifactEnvelope_eq_ok {envelope : ArtifactEnvelope}
    {expected : ArtifactCryptoPolicy} :
    verifyArtifactEnvelope p (some verify) envelope expected = .ok () ↔
      envelope.cryptoMode.eqStr expected.mode = true ∧
      (strOr expected.requiredSigner "" = "" ∨
        envelope.signer.eqStr (strOr expected.requiredSigner "") = true) ∧
      (expected.mode ∈ [CryptoMode.signed.value, CryptoMode.encrypted.value,
          CryptoMode.drandTimelock.value] →
        envelope.signature.truthy = true ∧
        verify (canonicalJson p envelope.signedPayloadDict) envelope.signature envelope.signer =
          .ok true) := by
  unfold verifyArtifactEnvelope
  simp only [guard_eq_ok, Bool.not_eq_true', Bool.not_eq_false, ne_eq, not_and]
  by_cases hmode : expected.mode ∈ [CryptoMode.signed.value, CryptoMode.encrypted.value,
      CryptoMode.drandTimelock.value]
  · simp only [hmode, if_true, guard_eq_ok, unless_eq_ok]
    simp [← or_iff_not_imp_left]
  · simp only [hmode, if_false]
    simp [← or_iff_not_imp_left]

def decipher (p : Platform β) (timelock : TimelockProvider β) (secret : String)
    (policy : ArtifactCryptoPolicy) (ciphertext : β) : Py β :=
  if policy.mode = CryptoMode.signed.value then .ok ciphertext
  else if policy.mode = CryptoMode.encrypted.value then
    .ok (xorCrypt p ciphertext (strOr policy.keyId secret))
  else if policy.mode = CryptoMode.drandTimelock.value then
    match policy.drandRound with
    | none => .error (.valueError "drand_timelock policy requires drand_round")
    | some round => timelock.decrypt ciphertext round policy
  else .error (.valueError ("unknown crypto mode: " ++ policy.mode))

theorem decodeEnvelope_eq {timelock : TimelockProvider β} {secret : String} {blob : β}
    {policy : Option ArtifactCryptoPolicy}
    (hmode : (defaultPolicy policy).mode ≠ CryptoMode.none.value) :
    decodeEnvelope p timelock (some verify) secret blob policy = (do
      let envelope ← ArtifactEnvelope.fromDict (← p.loads blob)
      verifyArtifactEnvelope p (some verify) envelope (defaultPolicy policy)
      let ciphertext ← decodePayload p envelope.payloadB64
      if !envelope.ciphertextSha256.eqStr (sha256Hex p ciphertext) then
        .error (.valueError "artifact ciphertext digest mismatch")
      let plaintext ← decipher p timelock secret (defaultPolicy policy) ciphertext
      if !envelope.plaintextSha256.eqStr (sha256Hex p plaintext) then
        .error (.valueError "artifact plaintext digest mismatch")
      return plaintext) := by
  unfold decodeEnvelope decipher
  simp only [hmode, if_false]
  refine bind_congr fun j => bind_congr fun e => bind_congr fun _ => bind_congr fun c => ?_
  split_ifs
  · rfl
  · rfl
  · cases (defaultPolicy policy).drandRound <;> rfl
  · rfl
  · rfl
  · rfl
  · cases (defaultPolicy policy).drandRound <;> rfl
  · rfl

theorem decodeEnvelope_eq_ok {timelock : TimelockProvider β} {secret : String} {blob x : β}
    {policy : Option ArtifactCryptoPolicy}
    (hmode : (defaultPolicy policy).mode ≠ CryptoMode.none.value) :
    decodeEnvelope p timelock (some verify) secret blob policy = .ok x ↔
      ∃ j envelope ciphertext, p.loads blob = .ok j ∧
        ArtifactEnvelope.fromDict j = .ok envelope ∧
        verifyArtifactEnvelope p (some verify) envelope (defaultPolicy policy) = .ok () ∧
        decodePayload p envelope.payloadB64 = .ok ciphertext ∧
        envelope.ciphertextSha256.eqStr (sha256Hex p ciphertext) = true ∧
        decipher p timelock secret (defaultPolicy policy) ciphertext = .ok x ∧
        envelope.plaintextSha256.eqStr (sha256Hex p x) = true := by
  rw [decodeEnvelope_eq hmode]
  simp only [bind_eq_ok, guard_eq_ok, pure_eq_ok, Bool.not_eq_true', Bool.not_eq_false]
  constructor
  · rintro ⟨j, hj, envelope, hread, _, hverify, c, hpayload, hcipher, y, hplain, hdigest, rfl⟩
    exact ⟨j, envelope, c, hj, hread, hverify, hpayload, hcipher, hplain, hdigest⟩
  · rintro ⟨j, envelope, c, hj, hread, hverify, hpayload, hcipher, hplain, hdigest⟩
    exact ⟨j, hj, envelope, hread, _, hverify, c, hpayload, hcipher, x, hplain, hdigest, rfl⟩

end Checks

section Sealing

variable (p : Platform β) (timelock : TimelockProvider β) (signer : Signer β) (secret : String)

def cipherOf (policy : ArtifactCryptoPolicy) (plaintext : β) : Py β :=
  if policy.mode = CryptoMode.encrypted.value then
    .ok (xorCrypt p plaintext (strOr policy.keyId secret))
  else if policy.mode = CryptoMode.drandTimelock.value then
    match policy.drandRound with
    | none => .error (.valueError "drand_timelock policy requires drand_round")
    | some round => timelock.encrypt plaintext round policy
  else if policy.mode = CryptoMode.signed.value then .ok plaintext
  else .error (.valueError ("unknown crypto mode: " ++ policy.mode))

def unsignedEnvelope (policy : ArtifactCryptoPolicy) (plaintext ciphertext : β) :
    ArtifactEnvelope where
  cryptoMode := .str policy.mode
  payloadB64 := .str (p.b64encode ciphertext)
  plaintextSha256 := .str (sha256Hex p plaintext)
  ciphertextSha256 := .str (sha256Hex p ciphertext)
  signer := .str signer.identity
  cipherSuite := .str policy.cipherSuite
  keyId := ofOptStr policy.keyId
  drandRound := ofOptInt policy.drandRound
  drandChainHash := ofOptStr policy.drandChainHash
  drandPublicKey := ofOptStr policy.drandPublicKey

def payloadOf (policy : ArtifactCryptoPolicy) (plaintext : β) : Py β := do
  let ciphertext ← cipherOf p timelock secret policy plaintext
  return canonicalJson p (unsignedEnvelope p signer policy plaintext ciphertext).signedPayloadDict

def sealedEnvelope (policy : ArtifactCryptoPolicy) (plaintext ciphertext : β) :
    ArtifactEnvelope :=
  { unsignedEnvelope p signer policy plaintext ciphertext with
    signature := .str (signer.sign (canonicalJson p
      (unsignedEnvelope p signer policy plaintext ciphertext).signedPayloadDict)) }

def SignatureAccepted (verify : Verifier β) (payload : β) : Prop :=
  signer.sign payload ≠ "" ∧
    verify payload (.str (signer.sign payload)) (.str signer.identity) = .ok true

variable {p timelock signer secret}
variable {policy : Option ArtifactCryptoPolicy} {plaintext blob : β}

theorem encodeEnvelope_none (h : (defaultPolicy policy).mode = CryptoMode.none.value) :
    encodeEnvelope p timelock (some signer) secret plaintext policy = .ok plaintext := by
  simp [encodeEnvelope, h]

theorem encodeEnvelope_sealed (hmode : (defaultPolicy policy).mode ≠ CryptoMode.none.value)
    (h : encodeEnvelope p timelock (some signer) secret plaintext policy = .ok blob) :
    ∃ ciphertext, cipherOf p timelock secret (defaultPolicy policy) plaintext = .ok ciphertext ∧
      blob = p.dumps (sealedEnvelope p signer (defaultPolicy policy) plaintext ciphertext).toDict
      := by
  unfold encodeEnvelope at h
  unfold cipherOf
  simp only [hmode, if_false] at h
  split_ifs at h ⊢
  · cases h
    exact ⟨_, rfl, rfl⟩
  · cases hround : (defaultPolicy policy).drandRound with
    | none =>
      rw [hround] at h
      cases h
    | some round =>
      rw [hround] at h
      obtain ⟨ciphertext, hciphertext, hblob⟩ := bind_eq_ok.mp h
      cases hblob
      refine ⟨ciphertext, hciphertext, ?_⟩
      simp only [sealedEnvelope, unsignedEnvelope, hround]
      rfl
  · cases h
    exact ⟨_, rfl, rfl⟩
  · cases h

theorem canonical_sealedEnvelope (p : Platform β) (signer : Signer β)
    (policy : ArtifactCryptoPolicy) (plaintext ciphertext : β) :
    Canonical (sealedEnvelope p signer policy plaintext ciphertext).toDict := by
  apply canonical_mkObj
  simp [sealedEnvelope, unsignedEnvelope, ArtifactEnvelope.signedPayloadFields]

theorem mode_of_cipherOf {policy : ArtifactCryptoPolicy} {ciphertext : β}
    (h : cipherOf p timelock secret policy plaintext = .ok ciphertext) :
    policy.mode ∈ [CryptoMode.signed.value, CryptoMode.encrypted.value,
      CryptoMode.drandTimelock.value] := by
  unfold cipherOf at h
  split_ifs at h with hencrypted htimelock hsigned
  · simp [hencrypted]
  · simp [htimelock]
  · simp [hsigned]

theorem decipher_cipherOf (hb : p.Bytes) (htime : Revealed timelock)
    {policy : ArtifactCryptoPolicy} {ciphertext : β}
    (h : cipherOf p timelock secret policy plaintext = .ok ciphertext) :
    decipher p timelock secret policy ciphertext = .ok plaintext := by
  unfold cipherOf at h
  split_ifs at h with hencrypted htimelock hsigned
  · cases h
    simp [decipher, hencrypted, CryptoMode.value, xorCrypt_xorCrypt hb]
  · cases hround : policy.drandRound with
    | none =>
      rw [hround] at h
      cases h
    | some round =>
      rw [hround] at h
      simpa [decipher, htimelock, CryptoMode.value, hround] using htime _ _ _ _ h
  · cases h
    simp [decipher, hsigned, CryptoMode.value]

theorem verify_sealedEnvelope (p : Platform β) (verify : Verifier β)
    {policy : ArtifactCryptoPolicy} (plaintext ciphertext : β)
    (hmode : policy.mode ∈ [CryptoMode.signed.value, CryptoMode.encrypted.value,
      CryptoMode.drandTimelock.value])
    (hrequired : strOr policy.requiredSigner "" = "" ∨
      strOr policy.requiredSigner "" = signer.identity) :
    verifyArtifactEnvelope p (some verify)
        (sealedEnvelope p signer policy plaintext ciphertext) policy = .ok () ↔
      SignatureAccepted signer verify (canonicalJson p
        (unsignedEnvelope p signer policy plaintext ciphertext).signedPayloadDict) := by
  rw [verifyArtifactEnvelope_eq_ok]
  have hsigner : strOr policy.requiredSigner "" = "" ∨
      (Json.str signer.identity).eqStr (strOr policy.requiredSigner "") = true := by
    rcases hrequired with hunset | hself
    · exact Or.inl hunset
    · exact Or.inr (by simp [hself, Json.eqStr])
  constructor
  · rintro ⟨-, -, hsignature⟩
    obtain ⟨htruthy, hok⟩ := hsignature hmode
    exact ⟨by simpa [sealedEnvelope, Json.truthy] using htruthy, hok⟩
  · rintro ⟨hne, hok⟩
    refine ⟨by simp [sealedEnvelope, unsignedEnvelope, Json.eqStr], hsigner, fun _ => ⟨?_, hok⟩⟩
    simpa [sealedEnvelope, Json.truthy] using hne

/-- What was sealed is opened by a reader with the same policy and secret if its verifier
accepts the signature of the writer, and by no other. -/
theorem decodeEnvelope_encodeEnvelope_iff (hp : p.Lawful) (hb : p.Bytes)
    (htime : Revealed timelock)
    (h : encodeEnvelope p timelock (some signer) secret plaintext policy = .ok blob)
    (hrequired : strOr (defaultPolicy policy).requiredSigner "" = "" ∨
      strOr (defaultPolicy policy).requiredSigner "" = signer.identity)
    (verify : Verifier β) (x : β) :
    decodeEnvelope p timelock (some verify) secret blob policy = .ok x ↔
      x = plaintext ∧ ((defaultPolicy policy).mode ≠ CryptoMode.none.value →
        ∀ payload, payloadOf p timelock signer secret (defaultPolicy policy) plaintext =
          .ok payload → SignatureAccepted signer verify payload) := by
  by_cases hmode : (defaultPolicy policy).mode = CryptoMode.none.value
  · rw [encodeEnvelope_none hmode] at h
    cases h
    have hplain : decodeEnvelope p timelock (some verify) secret plaintext policy =
        .ok plaintext := by
      simp [decodeEnvelope, hmode]
    rw [hplain, Except.ok.injEq]
    simp [hmode, eq_comm]
  obtain ⟨ciphertext, hcipher, rfl⟩ := encodeEnvelope_sealed hmode h
  have hloads := hp.loads_dumps _
    (canonical_sealedEnvelope p signer (defaultPolicy policy) plaintext ciphertext)
  have hverify := verify_sealedEnvelope p verify plaintext ciphertext (mode_of_cipherOf hcipher)
    hrequired
  have hpayload : payloadOf p timelock signer secret (defaultPolicy policy) plaintext =
      .ok (canonicalJson p (unsignedEnvelope p signer (defaultPolicy policy) plaintext
        ciphertext).signedPayloadDict) := by
    rw [payloadOf, hcipher]
    rfl
  have hdecode : decodePayload p (sealedEnvelope p signer (defaultPolicy policy) plaintext
      ciphertext).payloadB64 = .ok ciphertext :=
    hb.b64decode_b64encode ciphertext
  rw [decodeEnvelope_eq_ok hmode, hpayload]
  constructor
  · rintro ⟨j, envelope, c, hj, hread, haccepted, hc, -, hx, -⟩
    rw [hloads] at hj
    cases hj
    rw [fromDict_toDict] at hread
    cases hread
    rw [hdecode] at hc
    cases hc
    rw [decipher_cipherOf hb htime hcipher] at hx
    cases hx
    refine ⟨rfl, fun _ payload hsame => ?_⟩
    cases hsame
    exact hverify.mp haccepted
  · rintro ⟨rfl, haccepted⟩
    refine ⟨_, _, ciphertext, hloads, fromDict_toDict _, hverify.mpr (haccepted hmode _ rfl),
      hdecode, ?_, decipher_cipherOf hb htime hcipher, ?_⟩
    · simp [sealedEnvelope, unsignedEnvelope, Json.eqStr]
    · simp [sealedEnvelope, unsignedEnvelope, Json.eqStr]

end Sealing

end EnvelopeRoundTrip

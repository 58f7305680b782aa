import Teuton.Protocol

/-! Crypto envelopes around artifacts. A policy says how an artifact is wrapped: not at all,
signed, encrypted under a shared key, or timelocked to a drand round. The reader unwraps with
the policy of its own reference and refuses what was wrapped under another one. -/
namespace ArtifactCrypto

open PyJson Signatures Protocol

variable {β : Type}

/-- The drand service behind timelocked artifacts; `decrypt` raises until the round is out. -/
structure TimelockProvider (β : Type) where
  encrypt : β → ℤ → ArtifactCryptoPolicy → Py β
  decrypt : β → ℤ → ArtifactCryptoPolicy → Py β

/-- A verifier of envelope signatures: payload, signature and claimed identity, the last two as
they stand in the envelope. -/
abbrev Verifier (β : Type) := β → Json → Json → Py Bool

/-- The method `IdentityVerifier.verify` on the fields of an envelope. A signature or an identity
that is no string has no method `removeprefix` or `encode`. -/
def identityVerify (p : Platform β) : Verifier β := fun payload signature identity =>
  if !identity.truthy then .ok false
  else
    match signature, identity with
    | .str s, .str i => verifyIdentityPayload p payload i s
    | _, _ => .error .attributeError

def defaultPolicy (policy : Option ArtifactCryptoPolicy) : ArtifactCryptoPolicy := policy.getD {}

def strOr (x : Option String) (default : String) : String :=
  match x with
  | some s => if s = "" then default else s
  | none => default

/-- The keystream loop: byte `i` is masked with the current block, which is hashed again at
each multiple of the block length. -/
def xorFrom (p : Platform β) (stream : List UInt8) (i : ℕ) : List UInt8 → List UInt8
  | [] => []
  | x :: data =>
    let block := if i ≠ 0 ∧ i % stream.length = 0 then p.sha256 (p.ofBytes stream) else stream
    (x ^^^ block.getD (i % block.length) 0) :: xorFrom p block (i + 1) data

def xorCrypt (p : Platform β) (data : β) (key : String) : β :=
  p.ofBytes (xorFrom p (p.sha256 (p.ofBytes key.toUTF8.toList)) 0 (p.toBytes data))

def encodeEnvelope (p : Platform β) (timelock : TimelockProvider β) (signer : Option (Signer β))
    (encryptionSecret : String) (plaintext : β) (policy : Option ArtifactCryptoPolicy) : Py β := do
  let policy := defaultPolicy policy
  let mode := policy.mode
  if mode = CryptoMode.none.value then return plaintext
  let ciphertext ←
    if mode = CryptoMode.encrypted.value then
      pure (xorCrypt p plaintext (strOr policy.keyId encryptionSecret))
    else if mode = CryptoMode.drandTimelock.value then
      match policy.drandRound with
      | none => .error (.valueError "drand_timelock policy requires drand_round")
      | some round => timelock.encrypt plaintext round policy
    else if mode = CryptoMode.signed.value then pure plaintext
    else .error (.valueError ("unknown crypto mode: " ++ mode))
  let envelope : ArtifactEnvelope :=
    { cryptoMode := .str mode
      payloadB64 := .str (p.b64encode ciphertext)
      plaintextSha256 := .str (sha256Hex p plaintext)
      ciphertextSha256 := .str (sha256Hex p ciphertext)
      signer := ofOptStr (signer.map Signer.identity)
      cipherSuite := .str policy.cipherSuite
      keyId := ofOptStr policy.keyId
      drandRound := ofOptInt policy.drandRound
      drandChainHash := ofOptStr policy.drandChainHash
      drandPublicKey := ofOptStr policy.drandPublicKey }
  let signed := match signer with
    | none => envelope
    | some s =>
      { envelope with
        signature := .str (s.sign (canonicalJson p envelope.signedPayloadDict)) }
  return p.dumps signed.toDict

def verifyArtifactEnvelope (p : Platform β) (verifier : Option (Verifier β))
    (envelope : ArtifactEnvelope) (expected : ArtifactCryptoPolicy) : Py Unit := do
  if !envelope.cryptoMode.eqStr expected.mode then
    .error (.valueError ("artifact crypto mode mismatch: " ++ text envelope.cryptoMode ++ " != " ++
      expected.mode))
  let requiredSigner := strOr expected.requiredSigner ""
  if requiredSigner ≠ "" ∧ !envelope.signer.eqStr requiredSigner then
    .error (.valueError "artifact signer mismatch")
  if expected.mode ∈ [CryptoMode.signed.value, CryptoMode.encrypted.value,
      CryptoMode.drandTimelock.value] then
    if !envelope.signature.truthy then .error (.valueError "artifact signature missing")
    if let some verify := verifier then
      unless ← verify (canonicalJson p envelope.signedPayloadDict) envelope.signature
          envelope.signer do
        .error (.valueError "artifact signature verification failed")

def decodePayload (p : Platform β) : Json → Py β
  | .str s => p.b64decode s
  | _ => .error .attributeError

def decodeEnvelope (p : Platform β) (timelock : TimelockProvider β)
    (verifier : Option (Verifier β)) (encryptionSecret : String) (blob : β)
    (policy : Option ArtifactCryptoPolicy) : Py β := do
  let policy := defaultPolicy policy
  let mode := policy.mode
  if mode = CryptoMode.none.value then return blob
  let envelope ← ArtifactEnvelope.fromDict (← p.loads blob)
  verifyArtifactEnvelope p verifier envelope policy
  let ciphertext ← decodePayload p envelope.payloadB64
  if !envelope.ciphertextSha256.eqStr (sha256Hex p ciphertext) then
    .error (.valueError "artifact ciphertext digest mismatch")
  let plaintext ←
    if mode = CryptoMode.signed.value then pure ciphertext
    else if mode = CryptoMode.encrypted.value then
      pure (xorCrypt p ciphertext (strOr policy.keyId encryptionSecret))
    else if mode = CryptoMode.drandTimelock.value then
      match policy.drandRound with
      | none => .error (.valueError "drand_timelock policy requires drand_round")
      | some round => timelock.decrypt ciphertext round policy
    else .error (.valueError ("unknown crypto mode: " ++ mode))
  if !envelope.plaintextSha256.eqStr (sha256Hex p plaintext) then
    .error (.valueError "artifact plaintext digest mismatch")
  return plaintext

end ArtifactCrypto

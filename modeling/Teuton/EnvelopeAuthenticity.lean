import Teuton.EnvelopeRoundTrip
import Teuton.JsonBytes

/-! What an envelope guarantees to its two ends. The writer's plaintext reaches every reader with
the same policy and secret whose verifier accepts the writer's signatures. And a reader that gets
a plaintext out of some bytes, whoever stored them, gets one that the named identity has signed:
mode and plaintext digest are signed, and whatever else was put together into the envelope, the
plaintext has to have that digest. -/
namespace EnvelopeAuthenticity

open PyJson Signatures Protocol ArtifactCrypto EnvelopeRoundTrip

variable {β : Type}

/-- The mode of a policy is known, and a timelocked one has a round. -/
def Usable (policy : ArtifactCryptoPolicy) : Prop :=
  policy.mode ∈ [CryptoMode.none.value, CryptoMode.signed.value, CryptoMode.encrypted.value,
    CryptoMode.drandTimelock.value] ∧
  (policy.mode = CryptoMode.drandTimelock.value → policy.drandRound.isSome)

def Permits (policy : ArtifactCryptoPolicy) (signer : Signer β) : Prop :=
  policy.requiredSigner = none ∨ policy.requiredSigner = some signer.identity

/-- The service encrypts for every round, and decrypts what it encrypted once the round is out. -/
def Inverts (timelock : TimelockProvider β) : Prop :=
  ∀ body round policy, ∃ ciphertext, timelock.encrypt body round policy = .ok ciphertext ∧
    timelock.decrypt ciphertext round policy = .ok body

/-- The verifier accepts what the signer signs; an empty text is no signature. -/
structure Accepts (verify : Verifier β) (signer : Signer β) : Prop where
  signature : ∀ payload, signer.sign payload ≠ ""
  accepts : ∀ payload,
    verify payload (.str (signer.sign payload)) (.str signer.identity) = .ok true

section RoundTrip

variable {p : Platform β} {timelock : TimelockProvider β} {signer : Signer β}

theorem Inverts.revealed (h : Inverts timelock) : Revealed timelock := by
  intro body round policy ciphertext hencrypt
  obtain ⟨c, hc, hdecrypt⟩ := h body round policy
  rw [hencrypt] at hc
  cases hc
  exact hdecrypt

theorem Permits.strOr {policy : ArtifactCryptoPolicy} (h : Permits policy signer) :
    strOr policy.requiredSigner "" = "" ∨ strOr policy.requiredSigner "" = signer.identity := by
  rcases h with h | h
  · exact Or.inl (by rw [h]; rfl)
  · by_cases hempty : signer.identity = ""
    · exact Or.inl (by simp [h, ArtifactCrypto.strOr, hempty])
    · exact Or.inr (by simp [h, ArtifactCrypto.strOr, hempty])

theorem encodes (signer : Signer β) (htime : Inverts timelock)
    {policy : Option ArtifactCryptoPolicy} (husable : Usable (defaultPolicy policy))
    (secret : String) (plaintext : β) :
    ∃ blob, encodeEnvelope p timelock (some signer) secret plaintext policy = .ok blob := by
  obtain ⟨hmode, hround⟩ := husable
  unfold encodeEnvelope
  simp only [List.mem_cons, List.not_mem_nil, or_false] at hmode
  rcases hmode with hmode | hmode | hmode | hmode
  · exact ⟨plaintext, by simp [hmode]⟩
  · simp only [hmode, CryptoMode.value]
    exact ⟨_, rfl⟩
  · simp only [hmode, CryptoMode.value]
    exact ⟨_, rfl⟩
  · obtain ⟨round, hsome⟩ := Option.isSome_iff_exists.mp (hround hmode)
    obtain ⟨ciphertext, hencrypt, -⟩ := htime plaintext round (defaultPolicy policy)
    simp only [hmode, hsome, CryptoMode.value]
    exact ⟨_, bind_eq_ok.mpr ⟨ciphertext, hencrypt, rfl⟩⟩

/-- What is sealed under a usable policy is opened again under it. -/
theorem envelope_round_trip (hp : p.Lawful) (hb : p.Bytes) (htime : Inverts timelock)
    {verify : Verifier β} (haccepts : Accepts verify signer) (policy : Option ArtifactCryptoPolicy)
    (husable : Usable (defaultPolicy policy)) (hpermits : Permits (defaultPolicy policy) signer)
    (secret : String) (plaintext : β) :
    ∃ blob, encodeEnvelope p timelock (some signer) secret plaintext policy = .ok blob ∧
      decodeEnvelope p timelock (some verify) secret blob policy = .ok plaintext := by
  obtain ⟨blob, hblob⟩ := encodes (p := p) signer htime husable secret plaintext
  refine ⟨blob, hblob, ?_⟩
  rw [decodeEnvelope_encodeEnvelope_iff hp hb htime.revealed hblob hpermits.strOr]
  exact ⟨rfl, fun _ payload _ => ⟨haccepts.signature payload, haccepts.accepts payload⟩⟩

def openTimelock : TimelockProvider β where
  encrypt := fun body _ _ => .ok body
  decrypt := fun body _ _ => .ok body

theorem inverts_openTimelock : Inverts (openTimelock : TimelockProvider β) :=
  fun body _ _ => ⟨body, rfl, rfl⟩

def noteSigner : Signer β := ⟨"A", fun _ => "signature"⟩

def roundSeven : ArtifactCryptoPolicy :=
  { mode := "drand_timelock", requiredSigner := some "A", drandRound := some 7 }

theorem three_bytes_round_trip :
    ∃ blob, encodeEnvelope JsonBytes.bytePlatform openTimelock (some noteSigner) "secret" [1, 2, 3]
        (some roundSeven) = .ok blob ∧
      decodeEnvelope JsonBytes.bytePlatform openTimelock
        (some fun _ signature identity => .ok (signature.eqStr "signature" && identity.eqStr "A"))
        "secret" blob (some roundSeven) = .ok [1, 2, 3] :=
  envelope_round_trip JsonBytes.bytePlatform_lawful JsonBytes.bytePlatform_bytes
    inverts_openTimelock ⟨fun _ => by simp [noteSigner], fun _ => rfl⟩ (some roundSeven)
    ⟨by decide, fun _ => rfl⟩ (Or.inr rfl) "secret" [1, 2, 3]

end RoundTrip

section Authenticity

/-- What the verifier accepts was signed by the identity it was accepted for. -/
def Unforgeable (verify : Verifier β) (Signed : String → β → Prop) : Prop :=
  ∀ payload signature identity, verify payload signature identity = .ok true →
    ∃ name, identity = .str name ∧ Signed name payload

/-- An envelope that was produced: the arguments of a call that sealed something. -/
structure Sealing (p : Platform β) where
  timelock : TimelockProvider β
  signer : Signer β
  secret : String
  policy : Option ArtifactCryptoPolicy
  plaintext : β
  ciphertext : β
  mode : (defaultPolicy policy).mode ≠ CryptoMode.none.value
  run : encodeEnvelope p timelock (some signer) secret plaintext policy =
    .ok (p.dumps (sealedEnvelope p signer (defaultPolicy policy) plaintext ciphertext).toDict)

def Sealing.payload {p : Platform β} (s : Sealing p) : β :=
  canonicalJson p (unsignedEnvelope p s.signer (defaultPolicy s.policy) s.plaintext
    s.ciphertext).signedPayloadDict

/-- Envelope payloads are signed only when an envelope is produced. -/
def SignsEnvelopes (p : Platform β) (Signed : String → β → Prop) (history : Set (Sealing p)) :
    Prop :=
  ∀ name (envelope : ArtifactEnvelope), Signed name (canonicalJson p envelope.signedPayloadDict) →
    ∃ s ∈ history, s.signer.identity = name ∧
      s.payload = canonicalJson p envelope.signedPayloadDict

variable {p : Platform β}

theorem mode_of_decipher {timelock : TimelockProvider β} {secret : String}
    {policy : ArtifactCryptoPolicy} {ciphertext plaintext : β}
    (h : decipher p timelock secret policy ciphertext = .ok plaintext) :
    policy.mode ∈ [CryptoMode.signed.value, CryptoMode.encrypted.value,
      CryptoMode.drandTimelock.value] := by
  unfold decipher at h
  split_ifs at h with hsigned hencrypted htimelock
  · simp [hsigned]
  · simp [hencrypted]
  · simp [htimelock]

theorem canonical_signedPayloadDict {j : Json} {envelope : ArtifactEnvelope} (hj : Canonical j)
    (h : ArtifactEnvelope.fromDict j = .ok envelope) : Canonical envelope.signedPayloadDict := by
  simp only [ArtifactEnvelope.fromDict, bind_eq_ok, pure_eq_ok] at h
  obtain ⟨_, _, n, _, mode, hmode, payload, hpayload, plain, hplain, cipher, hcipher, signer,
    hsigner, _, _, suite, hsuite, key, hkey, round, hround, chain, hchain, pub, hpub, rfl⟩ := h
  apply canonical_mkObj
  simp only [CanonicalFields, ArtifactEnvelope.signedPayloadFields, List.forall_mem_cons,
    List.not_mem_nil, false_implies, implies_true, and_true]
  exact ⟨.int n, canonical_get hj (.str _) hmode, canonical_getItem hj hpayload,
    canonical_getItem hj hplain, canonical_getItem hj hcipher, canonical_get hj .null hsigner,
    canonical_get hj .null hsuite, canonical_get hj .null hkey, canonical_get hj .null hround,
    canonical_get hj .null hchain, canonical_get hj .null hpub⟩

theorem eqStr_eq_true {x : Json} {s : String} : x.eqStr s = true ↔ x = .str s := by
  cases x <;> simp [Json.eqStr]

theorem signed_fields_eq (hp : p.Lawful) {e e' : ArtifactEnvelope}
    (he : Canonical e.signedPayloadDict) (he' : Canonical e'.signedPayloadDict)
    (h : canonicalJson p e.signedPayloadDict = canonicalJson p e'.signedPayloadDict) :
    e.cryptoMode = e'.cryptoMode ∧ e.plaintextSha256 = e'.plaintextSha256 := by
  have hloads := congrArg p.loads h
  rw [canonicalJson, canonicalJson, hp.loads_dumps _ he, hp.loads_dumps _ he'] at hloads
  have hsame : e.signedPayloadDict = e'.signedPayloadDict := Except.ok.inj hloads
  have hmode := congrArg (Json.getItem · "crypto_mode") hsame
  have hplain := congrArg (Json.getItem · "plaintext_sha256") hsame
  simp only [ArtifactEnvelope.signedPayloadDict, ArtifactEnvelope.signedPayloadFields]
    at hmode hplain
  exact ⟨by simpa using hmode, by simpa using hplain⟩

theorem canonical_unsignedEnvelope (p : Platform β) (signer : Signer β)
    (policy : ArtifactCryptoPolicy) (plaintext ciphertext : β) :
    Canonical (unsignedEnvelope p signer policy plaintext ciphertext).signedPayloadDict := by
  apply canonical_mkObj
  simp [unsignedEnvelope, ArtifactEnvelope.signedPayloadFields]

/-- Whatever bytes a reader opens, the plaintext it gets was signed by the identity that stands in
the envelope, which is the required one if there is one: that identity has signed an envelope of
the reader's mode with the digest of the plaintext. If it signs envelopes only when it produces
them and the hash has no collisions, it has produced one of this mode and this plaintext. -/
theorem opened_envelope_authentic (hp : p.Lawful) {timelock : TimelockProvider β}
    {verify : Verifier β} {Signed : String → β → Prop} (hverify : Unforgeable verify Signed)
    {policy : Option ArtifactCryptoPolicy}
    (hmode : (defaultPolicy policy).mode ≠ CryptoMode.none.value) {secret : String}
    {blob plaintext : β}
    (h : decodeEnvelope p timelock (some verify) secret blob policy = .ok plaintext) :
    ∃ j envelope name, p.loads blob = .ok j ∧ ArtifactEnvelope.fromDict j = .ok envelope ∧
      envelope.signer = .str name ∧
      (∀ required, (defaultPolicy policy).requiredSigner = some required → required ≠ "" →
        name = required) ∧
      Signed name (canonicalJson p envelope.signedPayloadDict) ∧
      envelope.cryptoMode = .str (defaultPolicy policy).mode ∧
      envelope.plaintextSha256 = .str (sha256Hex p plaintext) ∧
      (Function.Injective (sha256Hex p) → ∀ history : Set (Sealing p),
        SignsEnvelopes p Signed history → ∃ s ∈ history, s.signer.identity = name ∧
          (defaultPolicy s.policy).mode = (defaultPolicy policy).mode ∧
          s.plaintext = plaintext) := by
  obtain ⟨j, envelope, ciphertext, hj, hread, hchecked, -, -, hplain, hdigest⟩ :=
    (decodeEnvelope_eq_ok hmode).mp h
  obtain ⟨hsame, hrequired, hsignature⟩ := verifyArtifactEnvelope_eq_ok.mp hchecked
  obtain ⟨-, haccepted⟩ := hsignature (mode_of_decipher hplain)
  obtain ⟨name, hname, hsigned⟩ := hverify _ _ _ haccepted
  rw [eqStr_eq_true] at hsame hdigest
  refine ⟨j, envelope, name, hj, hread, hname, ?_, hsigned, hsame, hdigest, ?_⟩
  · intro required hset hne
    simpa [hset, strOr, hne, eqStr_eq_true, hname] using hrequired
  · intro hfree history hsigns
    obtain ⟨s, hs, hidentity, hpayload⟩ := hsigns name envelope hsigned
    obtain ⟨hmode', hplain'⟩ := signed_fields_eq hp (canonical_unsignedEnvelope p s.signer _ _ _)
      (canonical_signedPayloadDict (hp.loads_canonical _ _ hj) hread) hpayload
    refine ⟨s, hs, hidentity, ?_, ?_⟩
    · exact Json.str.inj (hmode'.trans hsame)
    · exact hfree (Json.str.inj (hplain'.trans hdigest))

def noteSealing : Sealing JsonBytes.freePlatform where
  timelock := openTimelock
  signer := noteSigner
  secret := ""
  policy := some { mode := "signed" }
  plaintext := [1, 2, 3]
  ciphertext := [1, 2, 3]
  mode := by decide
  run := rfl

def noteVerify : Verifier (List UInt8) := fun payload _ identity =>
  .ok (identity.eqStr "A" && decide (payload = noteSealing.payload))

theorem noteVerify_unforgeable :
    Unforgeable noteVerify fun name payload => name = "A" ∧ payload = noteSealing.payload := by
  intro payload signature identity h
  simp only [noteVerify, Except.ok.injEq, Bool.and_eq_true, decide_eq_true_eq, eqStr_eq_true] at h
  exact ⟨"A", h.1, rfl, h.2⟩

theorem noteVerify_accepts : SignatureAccepted noteSigner noteVerify noteSealing.payload := by
  refine ⟨by simp [noteSigner], ?_⟩
  simp [noteVerify, noteSigner, Json.eqStr]

def noteBlob : List UInt8 :=
  JsonBytes.freePlatform.dumps (sealedEnvelope JsonBytes.freePlatform noteSigner
    { mode := "signed" } [1, 2, 3] [1, 2, 3]).toDict

theorem noteBlob_opens :
    decodeEnvelope JsonBytes.freePlatform openTimelock (some noteVerify) "" noteBlob
      (some { mode := "signed" }) = .ok [1, 2, 3] := by
  refine (decodeEnvelope_encodeEnvelope_iff JsonBytes.freePlatform_lawful
    JsonBytes.freePlatform_bytes inverts_openTimelock.revealed noteSealing.run (Or.inl rfl)
    noteVerify [1, 2, 3]).mpr ⟨rfl, fun _ payload hpayload => ?_⟩
  rw [← Except.ok.inj hpayload]
  exact noteVerify_accepts

theorem note_opened_authentic :
    ∃ j envelope, JsonBytes.freePlatform.loads noteBlob = .ok j ∧
      ArtifactEnvelope.fromDict j = .ok envelope ∧ envelope.signer = .str "A" ∧
      canonicalJson JsonBytes.freePlatform envelope.signedPayloadDict = noteSealing.payload ∧
      ∃ s ∈ ({noteSealing} : Set (Sealing JsonBytes.freePlatform)), s.signer.identity = "A" ∧
        (defaultPolicy s.policy).mode = "signed" ∧ s.plaintext = [1, 2, 3] := by
  obtain ⟨j, envelope, name, hj, hread, hname, -, ⟨rfl, hsigned⟩, -, -, hproduced⟩ :=
    opened_envelope_authentic JsonBytes.freePlatform_lawful noteVerify_unforgeable (by decide)
      noteBlob_opens
  exact ⟨j, envelope, hj, hread, hname, hsigned, hproduced JsonBytes.sha256Hex_freePlatform
    {noteSealing} fun _ _ h => ⟨noteSealing, rfl, h.1.symm, h.2.symm⟩⟩

end Authenticity

end EnvelopeAuthenticity

import Teuton.PyJson

/-! Payload signing and verification. The byte strings are a parameter, together with the
library functions the code calls on them: JSON encoding, SHA-256, HMAC and the three wallet
back ends that check a signature against an SS58 address. Everything that decides which of
them is called, and what their answers mean, is defined here. -/
namespace Signatures

open PyJson PyText

variable {β : Type}

/-- Standard library and wallet functions on byte strings `β`. JSON text is written with
sorted keys, `dumpsUtf8` leaving non-ASCII characters as they are. A back end that is not
installed, or that rejects its arguments, answers with an error. -/
structure Platform (β : Type) where
  dumps : Json → β
  dumpsUtf8 : Json → β
  loads : β → Py Json
  toBytes : β → List UInt8
  ofBytes : List UInt8 → β
  b64encode : β → String
  b64decode : String → Py β
  sha256 : β → List UInt8
  hmacSha256 : String → β → List UInt8
  bittensorVerify : String → β → List UInt8 → Py Bool
  substrateVerify : String → β → List UInt8 → Py Bool
  naclVerify : String → β → List UInt8 → Py Unit
  log2 : ℤ → ℚ

/-- What is documented of these functions: JSON decoding gives values in canonical form and
inverts encoding on them, a SHA-256 HMAC has 32 bytes, and no signature scheme of the back ends
accepts a byte string shorter than 64 bytes. -/
structure Platform.Lawful (p : Platform β) : Prop where
  loads_dumps : ∀ j, Canonical j → p.loads (p.dumps j) = .ok j
  loads_canonical : ∀ body j, p.loads body = .ok j → Canonical j
  hmac_length : ∀ secret payload, (p.hmacSha256 secret payload).length = 32
  bittensor_length : ∀ identity payload sig,
    p.bittensorVerify identity payload sig = .ok true → 64 ≤ sig.length
  substrate_length : ∀ identity payload sig,
    p.substrateVerify identity payload sig = .ok true → 64 ≤ sig.length
  nacl_length : ∀ identity payload sig,
    p.naclVerify identity payload sig = .ok () → 64 ≤ sig.length

/-- The law that JSON decoding inverts encoding, where it is all that is needed. -/
abbrev Platform.Rereads (p : Platform β) : Prop :=
  ∀ j, Canonical j → p.loads (p.dumps j) = .ok j

/-- Byte strings are lists of bytes, and base64 decoding inverts encoding. -/
structure Platform.Bytes (p : Platform β) : Prop where
  toBytes_ofBytes : ∀ l, p.toBytes (p.ofBytes l) = l
  ofBytes_toBytes : ∀ b, p.ofBytes (p.toBytes b) = b
  b64decode_b64encode : ∀ b, p.b64decode (p.b64encode b) = .ok b

def canonicalJson (p : Platform β) (value : Json) : β := p.dumps value

def sha256Hex (p : Platform β) (data : β) : String := hexEncode (p.sha256 data)

def digestDict (p : Platform β) (value : Json) : String := sha256Hex p (canonicalJson p value)

def signPayload (p : Platform β) (payload : β) (secret : String) : String :=
  hexEncode (p.hmacSha256 secret payload)

def signDict (p : Platform β) (value : Json) (secret : String) : String :=
  hexEncode (p.hmacSha256 secret (canonicalJson p value))

/-- The function `hmac.compare_digest` on two strings, which refuses non-ASCII text. -/
def compareDigest (a b : String) : Py Bool :=
  if isAscii a && isAscii b then .ok (a == b) else .error .typeError

def verifyPayload (p : Platform β) (payload : β) (secret signature : String) : Py Bool :=
  compareDigest (signPayload p payload secret) signature

def verifyDict (p : Platform β) (value : Json) (secret signature : String) : Py Bool :=
  compareDigest (signDict p value secret) signature

def removeHexMark (s : String) : List Char :=
  match s.toList with
  | '0' :: 'x' :: l => l
  | l => l

def signatureBytes (signature : String) : List UInt8 :=
  match fromHex (removeHexMark signature) with
  | some bytes => bytes
  | none => signature.toUTF8.toList

def verifyHotkeyPayload (p : Platform β) (payload : β) (identity signature : String) : Bool :=
  let sig := signatureBytes signature
  if p.bittensorVerify identity payload sig = .ok true then true
  else if p.substrateVerify identity payload sig = .ok true then true
  else
    match p.naclVerify identity payload sig with
    | .ok () => true
    | .error _ => false

/-- Verify against a hotkey identity, with the HMAC fallback under the identity string. -/
def verifyIdentityPayload (p : Platform β) (payload : β) (identity signature : String)
    (allowDevHmac : Bool := true) : Py Bool :=
  if verifyHotkeyPayload p payload identity signature then .ok true
  else if allowDevHmac then verifyPayload p payload identity signature
  else .ok false

def verifyIdentityDict (p : Platform β) (value : Json) (identity signature : String)
    (allowDevHmac : Bool := true) : Py Bool :=
  verifyIdentityPayload p (canonicalJson p value) identity signature allowDevHmac

/-- A signing identity together with what its `sign` method returns. -/
structure Signer (β : Type) where
  identity : String
  sign : β → String

def hmacSigner (p : Platform β) (secret : String) (identity : String := "dev-hmac") : Signer β :=
  ⟨identity, fun payload => signPayload p payload secret⟩

/-- Records are signed with a signer object or with a shared secret. -/
inductive SignerOrSecret (β : Type) where
  | signer (s : Signer β)
  | secret (s : String)

def recordSignature (p : Platform β) (value : Json) : SignerOrSecret β → String
  | .signer s => s.sign (canonicalJson p value)
  | .secret s => signDict p value s

/-- The method `IdentityVerifier.verify`; a missing or empty identity verifies nothing. -/
def identityVerifier (p : Platform β) (payload : β) (signature : String)
    (identity : Option String) : Py Bool :=
  match identity with
  | none => .ok false
  | some i => if i = "" then .ok false else verifyIdentityPayload p payload i signature

@[simp] theorem compareDigest_self {a : String} (h : isAscii a) :
    compareDigest a a = .ok true := by
  simp [compareDigest, h]

theorem compareDigest_true {a b : String} (h : compareDigest a b = .ok true) : a = b := by
  unfold compareDigest at h
  split_ifs at h
  simpa using h

theorem verifyPayload_signPayload (p : Platform β) (payload : β) (secret : String) :
    verifyPayload p payload secret (signPayload p payload secret) = .ok true :=
  compareDigest_self (isAscii_hexEncode _)

theorem verifyPayload_iff (p : Platform β) (payload : β) (secret signature : String) :
    verifyPayload p payload secret signature = .ok true ↔
      signature = signPayload p payload secret := by
  constructor
  · intro h
    exact (compareDigest_true h).symm
  · rintro rfl
    exact verifyPayload_signPayload p payload secret

theorem verifyIdentityPayload_iff (p : Platform β) (payload : β) (identity signature : String) :
    verifyIdentityPayload p payload identity signature = .ok true ↔
      verifyHotkeyPayload p payload identity signature = true ∨
        signature = signPayload p payload identity := by
  rw [← verifyPayload_iff]
  by_cases h : verifyHotkeyPayload p payload identity signature <;>
    simp [verifyIdentityPayload, h]

theorem removeHexMark_hexEncode (bytes : List UInt8) :
    removeHexMark (hexEncode bytes) = hexChars bytes := by
  rw [removeHexMark, hexEncode, String.toList_ofList]
  cases bytes with
  | nil => rfl
  | cons b bytes =>
    have hx : hexDigit (b.toNat % 16) ≠ 'x' :=
      (hexDigit_facts _ (Nat.mod_lt _ (by decide))).2.2.2
    rw [hexChars]
    split
    · next l h => exact absurd (List.cons.inj (List.cons.inj h).2).1 hx
    · rfl

theorem signatureBytes_hexEncode (bytes : List UInt8) :
    signatureBytes (hexEncode bytes) = bytes := by
  rw [signatureBytes, removeHexMark_hexEncode, fromHex_hexChars]

theorem signPayload_ne_empty {p : Platform β} (hp : p.Lawful) (payload : β) (secret : String) :
    signPayload p payload secret ≠ "" := by
  intro hempty
  have hlength := hp.hmac_length secret payload
  rw [← signatureBytes_hexEncode (p.hmacSha256 secret payload)] at hlength
  rw [show hexEncode (p.hmacSha256 secret payload) = "" from hempty] at hlength
  exact absurd hlength (by decide)

theorem verifyHotkeyPayload_length {p : Platform β} (hp : p.Lawful) {payload : β}
    {identity signature : String} (h : verifyHotkeyPayload p payload identity signature = true) :
    64 ≤ (signatureBytes signature).length := by
  simp only [verifyHotkeyPayload] at h
  split_ifs at h with h₁ h₂
  · exact hp.bittensor_length _ _ _ h₁
  · exact hp.substrate_length _ _ _ h₂
  · split at h
    · next h₃ => exact hp.nacl_length _ _ _ h₃
    · cases h

theorem not_verifyHotkeyPayload_signPayload {p : Platform β} (hp : p.Lawful) (payload : β)
    (identity secret : String) :
    verifyHotkeyPayload p payload identity (signPayload p payload secret) = false := by
  by_contra h
  have hlen := verifyHotkeyPayload_length hp (Bool.eq_true_of_not_eq_false h)
  rw [signPayload, signatureBytes_hexEncode, hp.hmac_length] at hlen
  omega

/-- A platform without wallet back ends. Byte strings are the JSON values they encode; a value
that is not in canonical form is no JSON text. -/
def plainPlatform : Platform Json where
  dumps := id
  dumpsUtf8 := id
  loads := fun body =>
    if body.isCanonical then .ok body else .error (.valueError "Expecting value")
  toBytes := fun _ => []
  ofBytes := fun _ => .null
  b64encode := fun _ => ""
  b64decode := fun _ => .ok .null
  sha256 := fun _ => List.replicate 32 0
  hmacSha256 := fun secret _ => List.replicate 32 (UInt8.ofNat secret.length)
  bittensorVerify := fun _ _ _ => .error (.runtimeError "No module named 'bittensor_wallet'")
  substrateVerify := fun _ _ _ => .error (.runtimeError "No module named 'substrateinterface'")
  naclVerify := fun _ _ _ => .error (.runtimeError "No module named 'nacl'")
  log2 := fun n => Nat.log2 n.toNat

theorem plainPlatform_lawful : plainPlatform.Lawful where
  loads_dumps := fun j hj => if_pos ((isCanonical_iff j).mpr hj)
  loads_canonical := by
    intro body j h
    change (if body.isCanonical then (.ok body : Py Json) else _) = _ at h
    split_ifs at h with hc
    cases h
    exact (isCanonical_iff body).mp hc
  hmac_length := fun _ _ => List.length_replicate
  bittensor_length := fun _ _ _ h => nomatch h
  substrate_length := fun _ _ _ h => nomatch h
  nacl_length := fun _ _ _ h => nomatch h

end Signatures

import Teuton.EnvelopeAuthenticity
import Teuton.GrantSufficiency

/-! Two readers of the same artifacts. The executor of one worker opens an input with the verifier
of hotkey identities; the executor of a device group takes a stored object that looks like a shard
manifest for a sharded tensor, and opens everything else with the HMAC of a fixed secret. -/
namespace InputReaders

open PyJson PyText Signatures ObjectStore Protocol ArtifactCrypto EnvelopeRoundTrip
open EnvelopeAuthenticity AssignmentGrants JobExecution DistributedExecution Effects

variable {β τ σ : Type}

section Signatures

def trusting : Verifier β := fun _ _ _ => .ok true

/-- The artifact needs no signature, or the verifier accepts the one it has. -/
def SignaturePasses (p : Platform β) (verify : Verifier β) (policy : Option ArtifactCryptoPolicy)
    (body : β) : Prop :=
  (defaultPolicy policy).mode = CryptoMode.none.value ∨
    ∃ j envelope, p.loads body = .ok j ∧ ArtifactEnvelope.fromDict j = .ok envelope ∧
      verify (canonicalJson p envelope.signedPayloadDict) envelope.signature envelope.signer =
        .ok true

theorem decodeEnvelope_iff {p : Platform β} {timelock : TimelockProvider β} {secret : String}
    {body x : β} {policy : Option ArtifactCryptoPolicy} {verify : Verifier β} :
    decodeEnvelope p timelock (some verify) secret body policy = .ok x ↔
      decodeEnvelope p timelock (some trusting) secret body policy = .ok x ∧
        SignaturePasses p verify policy body := by
  by_cases hmode : (defaultPolicy policy).mode = CryptoMode.none.value
  · simp [decodeEnvelope, SignaturePasses, hmode]
  rw [decodeEnvelope_eq_ok hmode, decodeEnvelope_eq_ok hmode]
  constructor
  · rintro ⟨j, envelope, c, hj, hread, hverify, hrest⟩
    obtain ⟨hsame, hsigner, hsigned⟩ := verifyArtifactEnvelope_eq_ok.mp hverify
    have hsealed := hsigned (mode_of_decipher hrest.2.2.1)
    refine ⟨⟨j, envelope, c, hj, hread, ?_, hrest⟩, Or.inr ⟨j, envelope, hj, hread, hsealed.2⟩⟩
    exact verifyArtifactEnvelope_eq_ok.mpr ⟨hsame, hsigner, fun _ => ⟨hsealed.1, rfl⟩⟩
  · rintro ⟨⟨j, envelope, c, hj, hread, hverify, hrest⟩, hpasses⟩
    obtain ⟨hsame, hsigner, hsigned⟩ := verifyArtifactEnvelope_eq_ok.mp hverify
    refine ⟨j, envelope, c, hj, hread, ?_, hrest⟩
    refine verifyArtifactEnvelope_eq_ok.mpr ⟨hsame, hsigner, fun hsealed => ?_⟩
    rcases hpasses with hnone | ⟨j', envelope', hj', hread', hok⟩
    · exact absurd hnone hmode
    · rw [hj] at hj'
      cases hj'
      rw [hread] at hread'
      cases hread'
      exact ⟨(hsigned hsealed).1, hok⟩

end Signatures

section Readers

variable (W : GroupLibraries β τ) (S : Stores σ β) (cfg : ExecutorConfig)
variable (grants : String → Option PresignedUrlGrant) (ref : ArtifactRef)

def Opens (body : β) (t : τ) : Prop :=
  ∃ plain, decodeEnvelope W.platform W.timelock (some trusting) cfg.encryptionSecret body
    ref.crypto = .ok plain ∧ W.torch.decodeTensor plain = .ok t

def JoinsTo (body : β) (s : σ) (t : τ) : Prop :=
  endsWith ref.uri ".json" = true ∧
    ∃ e, joinedInput W S grants ref.uri body { store := s } = .ok t e

/-- A reader with empty caches accepts the input as this tensor. -/
def Accepts (x : EStateM PyErr (JobExecutor σ τ) τ) (s : σ) (t : τ) : Prop :=
  ∃ e, x { store := s } = .ok t e

/-- What the executor of one worker accepts, the executor of a group accepts as the same tensor;
what the latter accepts beyond that is a sharded tensor. -/
structure ReadsAlike (s : σ) : Prop where
  kept : ∀ t, Accepts (decodeInput W.toWorkerLibraries S cfg grants ref) s t →
    Accepts (loadGroupInput W S cfg grants ref) s t
  added : ∀ t, Accepts (loadGroupInput W S cfg grants ref) s t →
    Accepts (decodeInput W.toWorkerLibraries S cfg grants ref) s t ∨
      ∃ body s₁, S.get ref.uri (grants ref.uri) s = .ok body s₁ ∧
        JoinsTo W S grants ref body s₁ t

/-- The signature is judged alike by both verifiers, unless the object is read as shards; and then
it is not at the same time an accepted artifact with other contents. -/
structure Unambiguous (body : β) (s : σ) : Prop where
  signature : (¬ ∃ j, JoinsTo W S grants ref body s j) → ∀ t, Opens W cfg ref body t →
    (SignaturePasses W.platform (identityVerify W.platform) ref.crypto body ↔
      SignaturePasses W.platform (secretVerify W.platform) ref.crypto body)
  shards : ∀ j t, JoinsTo W S grants ref body s j → Opens W cfg ref body t →
    SignaturePasses W.platform (identityVerify W.platform) ref.crypto body → t = j

variable {W S cfg grants ref} {s s₁ : σ} {body : β} {t : τ}

theorem opened_iff {verify : Verifier β} :
    (decodeEnvelope W.platform W.timelock (some verify) cfg.encryptionSecret body ref.crypto >>=
        W.torch.decodeTensor) = .ok t ↔
      Opens W cfg ref body t ∧ SignaturePasses W.platform verify ref.crypto body := by
  rw [PyJson.bind_eq_ok]
  constructor
  · rintro ⟨plain, hplain, hdecode⟩
    obtain ⟨hopen, hpasses⟩ := decodeEnvelope_iff.mp hplain
    exact ⟨⟨plain, hopen, hdecode⟩, hpasses⟩
  · rintro ⟨⟨plain, hopen, hdecode⟩, hpasses⟩
    exact ⟨plain, decodeEnvelope_iff.mpr ⟨hopen, hpasses⟩, hdecode⟩

theorem cacheInput_empty (uri : String) (value : τ) (s : σ) :
    ∃ e, cacheInput W.toWorkerLibraries cfg uri value { store := s } = .ok ⟨⟩ e := by
  obtain ⟨c, hc⟩ : ∃ c, TensorCache.cacheTensor W.size cfg.inputMax {} uri value = .ok c := by
    unfold TensorCache.cacheTensor
    by_cases hlarge : W.size value > cfg.inputMax / 2
    · exact ⟨_, by rw [if_pos hlarge]; rfl⟩
    · exact ⟨_, by rw [if_neg hlarge]; rfl⟩
  refine ⟨{ store := s, inputCache := c }, update_eq_ok.mpr ?_⟩
  rw [hc]
  rfl

theorem decodeInput_empty : decodeInput W.toWorkerLibraries S cfg grants ref { store := s } =
    loadInput W.toWorkerLibraries S cfg grants ref { store := s } := rfl

theorem accepts_decodeInput_iff :
    Accepts (decodeInput W.toWorkerLibraries S cfg grants ref) s t ↔
      ∃ body s₁, S.get ref.uri (grants ref.uri) s = .ok body s₁ ∧ Opens W cfg ref body t ∧
        SignaturePasses W.platform (identityVerify W.platform) ref.crypto body := by
  unfold Accepts
  rw [decodeInput_empty]
  constructor
  · rintro ⟨e, h⟩
    obtain ⟨body, e₁, hget, h⟩ := bind_eq_ok.mp h
    obtain ⟨s₁, hread, rfl⟩ := zoom_eq_ok.mp hget
    obtain ⟨value, e₂, hopen, h⟩ := bind_eq_ok.mp h
    obtain ⟨hopened, rfl⟩ := lift_eq_ok.mp hopen
    have hvalue : value = t := by
      split_ifs at h
      · obtain ⟨_, _, _, h⟩ := bind_eq_ok.mp h
        cases h
        rfl
      · cases h
        rfl
    subst hvalue
    exact ⟨body, s₁, hread, opened_iff.mp hopened⟩
  · rintro ⟨body, s₁, hread, hopen⟩
    have hopened : openInput W.toWorkerLibraries cfg body ref = .ok t := opened_iff.mpr hopen
    obtain ⟨e₂, hcache⟩ : ∃ e, cacheInput W.toWorkerLibraries cfg ref.uri t { store := s₁ } =
        .ok ⟨⟩ e := cacheInput_empty ref.uri t s₁
    by_cases hcacheable : isInputCacheable ref.uri = true
    · refine ⟨e₂, bind_eq_ok.mpr ⟨body, { store := s₁ }, zoom_eq_ok.mpr ⟨s₁, hread, rfl⟩, ?_⟩⟩
      refine bind_eq_ok.mpr ⟨t, { store := s₁ }, lift_eq_ok.mpr ⟨hopened, rfl⟩, ?_⟩
      rw [if_pos hcacheable]
      exact bind_eq_ok.mpr ⟨⟨⟩, e₂, hcache, rfl⟩
    · refine ⟨{ store := s₁ },
        bind_eq_ok.mpr ⟨body, { store := s₁ }, zoom_eq_ok.mpr ⟨s₁, hread, rfl⟩, ?_⟩⟩
      refine bind_eq_ok.mpr ⟨t, { store := s₁ }, lift_eq_ok.mpr ⟨hopened, rfl⟩, ?_⟩
      rw [if_neg hcacheable]
      rfl

theorem JoinsTo.unique {j : τ} (h : JoinsTo W S grants ref body s t)
    (h' : JoinsTo W S grants ref body s j) : t = j := by
  obtain ⟨-, e, h⟩ := h
  obtain ⟨-, e', h'⟩ := h'
  rw [h] at h'
  cases h'
  rfl

theorem tryJoin_ok :
    (∃ e, tryJoin W S grants ref.uri body { store := s } = .ok (.ok t) e) ↔
      JoinsTo W S grants ref body s t := by
  unfold tryJoin JoinsTo
  by_cases hjson : endsWith ref.uri ".json" = true
  · simp only [hjson, if_true, attempt_eq_ok, true_and]
  · rw [if_neg hjson]
    constructor
    · rintro ⟨e, h⟩
      cases h
    · rintro ⟨h, -⟩
      exact absurd h hjson

theorem tryJoin_returns (body : β) (s : σ) :
    ∃ result e, tryJoin W S grants ref.uri body { store := s } = .ok result e := by
  cases h : tryJoin W S grants ref.uri body { store := s } with
  | ok result e => exact ⟨result, e, rfl⟩
  | error err e =>
    unfold tryJoin at h
    split_ifs at h
    · exact absurd h attempt_ne_error
    · cases h

theorem accepts_loadGroupInput_iff :
    Accepts (loadGroupInput W S cfg grants ref) s t ↔
      ∃ body s₁, S.get ref.uri (grants ref.uri) s = .ok body s₁ ∧
        (JoinsTo W S grants ref body s₁ t ∨
          (¬ ∃ j, JoinsTo W S grants ref body s₁ j) ∧ Opens W cfg ref body t ∧
            SignaturePasses W.platform (secretVerify W.platform) ref.crypto body) := by
  constructor
  · rintro ⟨e, h⟩
    obtain ⟨body, e₁, hget, h⟩ := bind_eq_ok.mp h
    obtain ⟨s₁, hread, rfl⟩ := zoom_eq_ok.mp hget
    refine ⟨body, s₁, hread, ?_⟩
    obtain ⟨joined, e₂, hjoin, h⟩ := bind_eq_ok.mp h
    cases joined with
    | ok value =>
      cases h
      exact Or.inl (tryJoin_ok.mp ⟨_, hjoin⟩)
    | error err =>
      obtain ⟨hopened, rfl⟩ := lift_eq_ok.mp h
      refine Or.inr ⟨?_, opened_iff.mp hopened⟩
      rintro ⟨j, hj⟩
      obtain ⟨e₃, hj⟩ := tryJoin_ok.mpr hj
      rw [hjoin] at hj
      cases hj
  · rintro ⟨body, s₁, hread, hcases⟩
    have hget : onStore (S.get ref.uri (grants ref.uri)) ({ store := s } : JobExecutor σ τ) =
        .ok body { store := s₁ } := zoom_eq_ok.mpr ⟨s₁, hread, rfl⟩
    rcases hcases with hjoin | ⟨hnone, hopen⟩
    · obtain ⟨e, hjoin⟩ := tryJoin_ok.mpr hjoin
      exact ⟨e, bind_eq_ok.mpr ⟨body, _, hget, bind_eq_ok.mpr ⟨.ok t, e, hjoin, rfl⟩⟩⟩
    · obtain ⟨result, e, hjoin⟩ : ∃ result e, tryJoin W S grants ref.uri body { store := s₁ } =
          .ok result e := tryJoin_returns body s₁
      cases result with
      | ok j => exact absurd ⟨j, tryJoin_ok.mp ⟨e, hjoin⟩⟩ hnone
      | error err =>
        refine ⟨e, bind_eq_ok.mpr ⟨body, _, hget, bind_eq_ok.mpr ⟨.error err, e, hjoin, ?_⟩⟩⟩
        exact lift_eq_ok.mpr ⟨opened_iff.mpr hopen, rfl⟩

theorem reads_alike_iff (W : GroupLibraries β τ) (S : Stores σ β) (cfg : ExecutorConfig)
    (grants : String → Option PresignedUrlGrant) (ref : ArtifactRef) (s : σ) :
    ReadsAlike W S cfg grants ref s ↔
      ∀ body s₁, S.get ref.uri (grants ref.uri) s = .ok body s₁ →
        Unambiguous W S cfg grants ref body s₁ := by
  constructor
  · rintro ⟨hkept, hadded⟩ body s₁ hread
    have hsame {body' : β} {s₁' : σ} (h : S.get ref.uri (grants ref.uri) s = .ok body' s₁') :
        body' = body ∧ s₁' = s₁ := by
      rw [hread] at h
      cases h
      exact ⟨rfl, rfl⟩
    refine ⟨fun hnone t hopen => ⟨fun hpasses => ?_, fun hpasses => ?_⟩, ?_⟩
    · have haccept := hkept t (accepts_decodeInput_iff.mpr ⟨body, s₁, hread, hopen, hpasses⟩)
      obtain ⟨body', s₁', hread', hcases⟩ := accepts_loadGroupInput_iff.mp haccept
      obtain ⟨rfl, rfl⟩ := hsame hread'
      rcases hcases with hjoin | ⟨-, -, hsecret⟩
      · exact absurd ⟨t, hjoin⟩ hnone
      · exact hsecret
    · have haccept := accepts_loadGroupInput_iff.mpr
        ⟨body, s₁, hread, Or.inr ⟨hnone, hopen, hpasses⟩⟩
      rcases hadded t haccept with hsingle | ⟨body', s₁', hread', hjoin⟩
      · obtain ⟨body', s₁', hread', -, hidentity⟩ := accepts_decodeInput_iff.mp hsingle
        obtain ⟨rfl, rfl⟩ := hsame hread'
        exact hidentity
      · obtain ⟨rfl, rfl⟩ := hsame hread'
        exact absurd ⟨t, hjoin⟩ hnone
    · intro j t hjoin hopen hpasses
      have haccept := hkept t (accepts_decodeInput_iff.mpr ⟨body, s₁, hread, hopen, hpasses⟩)
      obtain ⟨body', s₁', hread', hcases⟩ := accepts_loadGroupInput_iff.mp haccept
      obtain ⟨rfl, rfl⟩ := hsame hread'
      rcases hcases with hjoin' | ⟨hnone, -⟩
      · exact hjoin'.unique hjoin
      · exact absurd ⟨j, hjoin⟩ hnone
  · intro h
    constructor
    · intro t haccept
      obtain ⟨body, s₁, hread, hopen, hpasses⟩ := accepts_decodeInput_iff.mp haccept
      refine accepts_loadGroupInput_iff.mpr ⟨body, s₁, hread, ?_⟩
      by_cases hjoins : ∃ j, JoinsTo W S grants ref body s₁ j
      · obtain ⟨j, hjoin⟩ := hjoins
        rw [(h body s₁ hread).shards j t hjoin hopen hpasses]
        exact Or.inl hjoin
      · exact Or.inr ⟨hjoins, hopen, ((h body s₁ hread).signature hjoins t hopen).mp hpasses⟩
    · intro t haccept
      obtain ⟨body, s₁, hread, hcases⟩ := accepts_loadGroupInput_iff.mp haccept
      rcases hcases with hjoin | ⟨hnone, hopen, hpasses⟩
      · exact Or.inr ⟨body, s₁, hread, hjoin⟩
      · refine Or.inl (accepts_decodeInput_iff.mpr ⟨body, s₁, hread, hopen, ?_⟩)
        exact ((h body s₁ hread).signature hnone t hopen).mpr hpasses

end Readers

section HotkeySigned

open JsonBytes ByteTensors

theorem length_of_secretVerify {p : Platform β} (hp : p.Lawful) {payload : β} {signature : String}
    {identity : Json} (h : secretVerify p payload (.str signature) identity = .ok true) :
    (signatureBytes signature).length = 32 := by
  have hsame : signPayload p payload "miner-dev-secret" = signature := compareDigest_true h
  rw [← hsame, signPayload, signatureBytes_hexEncode, hp.hmac_length]

def walletSigner : Signer (List UInt8) where
  identity := "A"
  sign := fun payload => hexEncode (walletSignature "A" payload)

theorem walletSigner_accepted (payload : List UInt8) :
    SignatureAccepted walletSigner (identityVerify bytePlatform) payload := by
  have hbytes : signatureBytes (walletSigner.sign payload) = walletSignature "A" payload :=
    signatureBytes_hexEncode _
  constructor
  · intro hempty
    have hlength := congrArg List.length hbytes
    rw [hempty] at hlength
    simp [walletSignature, checksum, signatureBytes, removeHexMark, fromHex] at hlength
  · have hhotkey : verifyHotkeyPayload bytePlatform payload "A" (walletSigner.sign payload) =
        true := by
      simp [verifyHotkeyPayload, hbytes, bytePlatform]
    change verifyIdentityPayload bytePlatform payload "A" (walletSigner.sign payload) = .ok true
    rw [verifyIdentityPayload, if_pos hhotkey]

theorem walletSigner_refused (payload : List UInt8) :
    ¬ SignatureAccepted walletSigner (secretVerify bytePlatform) payload := by
  rintro ⟨-, h⟩
  have hlength := length_of_secretVerify bytePlatform_lawful h
  rw [show signatureBytes (walletSigner.sign payload) = walletSignature "A" payload from
    signatureBytes_hexEncode _] at hlength
  simp [walletSignature, checksum] at hlength

def signedInput : ArtifactRef :=
  { name := "x", uri := "s3://b/x", crypto := some { mode := CryptoMode.signed.value } }

def vectorBody : List UInt8 :=
  ((TensorIo.encodeTensor bytePlatform byteTorch byteBuffers [1, 2, 3]).toOption).getD []

theorem vectorBody_decodes : byteTorch.decodeTensor vectorBody = .ok [1, 2, 3] := by
  have hsome : (TensorIo.encodeTensor bytePlatform byteTorch byteBuffers [1, 2, 3]).toOption.isSome
      = true := by
    decide +kernel
  obtain ⟨body, hbody⟩ := Option.isSome_iff_exists.mp hsome
  have hvector : vectorBody = body := by rw [vectorBody, hbody, Option.getD_some]
  rw [hvector]
  exact TensorIo.decodeTensor_encodeTensor bytePlatform_lawful bytePlatform_bytes
    byteBuffers_lawful (toOption_eq_some.mp hbody)

theorem encodeEnvelope_signed (p : Platform β) (timelock : TimelockProvider β) (signer : Signer β)
    (secret : String) (plaintext : β) :
    encodeEnvelope p timelock (some signer) secret plaintext
        (some { mode := CryptoMode.signed.value }) =
      .ok (p.dumps (sealedEnvelope p signer { mode := CryptoMode.signed.value } plaintext
        plaintext).toDict) := rfl

theorem payloadOf_signed (p : Platform β) (timelock : TimelockProvider β) (signer : Signer β)
    (secret : String) (plaintext : β) :
    payloadOf p timelock signer secret { mode := CryptoMode.signed.value } plaintext =
      .ok (canonicalJson p (unsignedEnvelope p signer { mode := CryptoMode.signed.value } plaintext
        plaintext).signedPayloadDict) := rfl

def signedBody : List UInt8 :=
  bytePlatform.dumps (sealedEnvelope bytePlatform walletSigner { mode := CryptoMode.signed.value }
    vectorBody vectorBody).toDict

def bucketWith (body : List UInt8) : Bucket (List UInt8) where
  name := "b"
  objects := .ofEntries [("s3://b/x", body)]

theorem get_bucketWith (body : List UInt8) :
    directStores.get signedInput.uri none (bucketWith body) = .ok body (bucketWith body) := rfl

theorem hotkey_signed_input_refused :
    ¬ ReadsAlike GrantSufficiency.byteGroup directStores {} (fun _ => none) signedInput
      (bucketWith signedBody) := by
  intro h
  have hget := get_bucketWith signedBody
  have hsigned : encodeEnvelope bytePlatform GrantSufficiency.byteGroup.timelock
      (some walletSigner) ({} : ExecutorConfig).encryptionSecret vectorBody signedInput.crypto =
        .ok signedBody := encodeEnvelope_signed _ _ _ _ _
  have hiff := decodeEnvelope_encodeEnvelope_iff bytePlatform_lawful bytePlatform_bytes
    (fun _ _ _ _ hround => hround.symm) hsigned (Or.inl rfl)
  have hsingle : Accepts (decodeInput GrantSufficiency.byteGroup.toWorkerLibraries directStores {}
      (fun _ => none) signedInput) (bucketWith signedBody) [1, 2, 3] := by
    refine accepts_decodeInput_iff.mpr ⟨signedBody, bucketWith signedBody, hget, opened_iff.mp ?_⟩
    refine PyJson.bind_eq_ok.mpr ⟨vectorBody, (hiff _ _).mpr ⟨rfl, ?_⟩, vectorBody_decodes⟩
    exact fun _ payload _ => walletSigner_accepted payload
  obtain ⟨body, s₁, hget', hcases⟩ := accepts_loadGroupInput_iff.mp (h.kept _ hsingle)
  obtain ⟨rfl, -⟩ := EStateM.Result.ok.inj (hget.symm.trans hget')
  rcases hcases with ⟨hjson, -⟩ | ⟨-, hopened⟩
  · exact absurd hjson (by decide)
  · obtain ⟨plain, hplain, -⟩ := PyJson.bind_eq_ok.mp (opened_iff.mpr hopened)
    exact walletSigner_refused _ (((hiff _ _).mp hplain).2 (by decide) _
      (payloadOf_signed _ _ _ _ _))

end HotkeySigned

end InputReaders

import Teuton.ByteTensors
import Teuton.PassedReceipts
import Teuton.RaisesOnly

/-! What an audit makes of a corrupt output. The decoders are meant to refuse bytes that hold no
tensor with `ValueError`, which fails the receipt; an error of any other kind makes the audit
inconclusive. For each decoder the byte strings are described on which it returns or raises
`ValueError`; the rest is what a miner can store to have its receipt neither passed nor failed. -/
namespace CorruptOutputs

open PyJson Signatures ObjectStore GraphIr Protocol ArtifactCrypto GraphEval TensorIo
open AuditReplay PassedReceipts

variable {β τ : Type}

def IsValueError : PyErr → Prop
  | .valueError _ => True
  | _ => False

abbrev ByValue {α : Type} (x : Py α) : Prop := RaisesOnly IsValueError x

section Reads

/-- The values that `int` converts or refuses with `ValueError`. -/
def IntLike : Json → Prop
  | .null | .arr _ | .obj _ | .float (.inf _) => False
  | _ => True

theorem toInt_byValue_iff (x : Json) : ByValue x.toInt ↔ IntLike x := by
  cases x with
  | float f => cases f <;> simp [Json.toInt, IntLike, IsValueError]
  | str s =>
    rw [Json.toInt]
    cases PyText.intOfStr s <;> simp [IntLike, IsValueError]
  | _ => simp [Json.toInt, IntLike, IsValueError]

/-- The values that can be iterated over, up to the first entry that `int` does not convert,
which is refused for its value. -/
def IntsLike (x : Json) : Prop :=
  ∃ items, x.toList = .ok items ∧ ∀ v, Reached Json.toInt items v → IntLike v

theorem toList_byValue_iff {α : Type} {x : Json} {f : List Json → Py α} :
    ByValue (x.toList >>= f) ↔ ∃ items, x.toList = .ok items ∧ ByValue (f items) := by
  cases hitems : x.toList with
  | error e =>
    have he : ¬ IsValueError e := by
      cases x <;> cases hitems
      all_goals simp [IsValueError]
    simp [he]
  | ok items => simp

theorem toInts_byValue_iff (x : Json) :
    ByValue (x.toList >>= fun items => items.mapM Json.toInt) ↔ IntsLike x := by
  simp only [toList_byValue_iff, ByValue, RaisesOnly.mapM_iff, toInt_byValue_iff, IntsLike]

section Sequences

variable {α : Type}

theorem getItem_byValue_iff {fields : Fields} {k : String} {f : Json → Py α} :
    ByValue ((Json.obj fields).getItem k >>= f) ↔
      ∃ v, field? k fields = some v ∧ ByValue (f v) := by
  cases hv : field? k fields with
  | none => simp [Json.getItem, hv, IsValueError]
  | some v => simp [Json.getItem, hv]

theorem get_byValue_iff {fields : Fields} {k : String} {default : Json} {f : Json → Py α} :
    ByValue ((Json.obj fields).get k default >>= f) ↔
      ByValue (f ((field? k fields).getD default)) := by
  simp [Json.get]

theorem ints_byValue_iff {x : Json} {f : List ℤ → Py α} :
    ByValue (x.toList >>= fun items => items.mapM Json.toInt >>= f) ↔
      IntsLike x ∧ ∀ dims, (x.toList >>= fun items => items.mapM Json.toInt) = .ok dims →
        ByValue (f dims) := by
  rw [← toInts_byValue_iff, ← RaisesOnly.bind_iff, bind_assoc]

theorem int_byValue_iff {x : Json} {f : ℤ → Py α} :
    ByValue (x.toInt >>= f) ↔ IntLike x ∧ ∀ n, x.toInt = .ok n → ByValue (f n) := by
  rw [← toInt_byValue_iff]
  exact RaisesOnly.bind_iff

/-- The values that `int(x) if x is not None else None` converts or refuses with
`ValueError`. -/
def OptIntLike (x : Json) : Prop := x = .null ∨ IntLike x

theorem optInt_byValue_iff {x : Json} {f : Option ℤ → Py α} :
    ByValue (optToInt x >>= f) ↔ OptIntLike x ∧ ∀ n, optToInt x = .ok n → ByValue (f n) := by
  have hsome (y : Json) : ByValue (y.toInt >>= fun n => pure (some n)) ↔ IntLike y := by
    rw [int_byValue_iff]
    simp
  have hread : ByValue (optToInt x) ↔ OptIntLike x := by
    cases x with
    | null => simp [optToInt, OptIntLike]
    | _ => simp only [optToInt, OptIntLike, hsome, reduceCtorEq, false_or]
  rw [← hread]
  exact RaisesOnly.bind_iff

end Sequences

end Reads

section Tensors

def Hashable : Json → Prop
  | .arr _ | .obj _ => False
  | _ => True

theorem wireDtypeOf_byValue_iff (x : Json) : ByValue (wireDtypeOf x) ↔ Hashable x := by
  cases x with
  | str s =>
    rw [wireDtypeOf]
    cases WireDtype.ofName s <;> simp [Hashable, IsValueError]
  | _ => simp [wireDtypeOf, Hashable, IsValueError]

/-- A header of this wire version and layout has a shape of integers and a dtype that can be
looked up, and the buffer is taken or refused for its value. -/
def HeaderLike (N : Buffers τ) (header : Json) (payload : List UInt8) : Prop :=
  ∃ fields, header = .obj fields ∧
    (intEq wireVersion ((field? "version" fields).getD .null) = true →
      ((field? "layout" fields).getD (.str "row_major")).eqStr "row_major" = true →
      ∃ shape, field? "shape" fields = some shape ∧ IntsLike shape ∧
        ∀ dims, (shape.toList >>= fun items => items.mapM Json.toInt) = .ok dims →
          ∃ wd, field? "dtype" fields = some wd ∧ Hashable wd ∧
            ∀ d, wireDtypeOf wd = .ok d →
              (payload.length : ℤ) = expectedPayloadBytes dims d →
              ByValue (N.fromBuffer d dims payload))

theorem decodeBody_byValue_iff (N : Buffers τ) (header : Json) (payload : List UInt8) :
    ByValue (decodeBody N header payload) ↔ HeaderLike N header payload := by
  cases header with
  | obj fields =>
    have hdtype (wd : Json) (f : WireDtype → Py τ) : ByValue (wireDtypeOf wd >>= f) ↔
        Hashable wd ∧ ∀ d, wireDtypeOf wd = .ok d → ByValue (f d) := by
      rw [← wireDtypeOf_byValue_iff]
      exact RaisesOnly.bind_iff
    simp only [decodeBody, get_byValue_iff, getItem_byValue_iff, ints_byValue_iff,
      RaisesOnly.guard_iff, hdtype, HeaderLike]
    simp [IsValueError]
  | _ => simp [decodeBody, Json.get, HeaderLike, IsValueError]

def headerBytes (bytes : List UInt8) : List UInt8 :=
  (bytes.drop 4).take (ByteWords.leNat (bytes.take 4))

/-- The header of a blob that is long enough is JSON or refused as such, and as a tensor's
header is. -/
def TensorLike (p : Platform β) (N : Buffers τ) (blob : β) : Prop :=
  4 ≤ (p.toBytes blob).length →
  4 + ByteWords.leNat ((p.toBytes blob).take 4) ≤ (p.toBytes blob).length →
  ByValue (p.loads (p.ofBytes (headerBytes (p.toBytes blob)))) ∧
    ∀ header, p.loads (p.ofBytes (headerBytes (p.toBytes blob))) = .ok header →
      HeaderLike N header
        ((p.toBytes blob).drop (4 + ByteWords.leNat ((p.toBytes blob).take 4)))

theorem decodeTensor_byValue_iff (p : Platform β) (N : Buffers τ) (blob : β) :
    ByValue (decodeTensor p N blob) ↔ TensorLike p N blob := by
  simp only [decodeTensor, RaisesOnly.guard_iff, RaisesOnly.bind_iff, decodeBody_byValue_iff,
    TensorLike, headerBytes, IsValueError, implies_true, true_and, not_lt]

end Tensors

section Envelopes

variable (p : Platform β)

def EnvelopeFields (j : Json) : Prop :=
  ∃ fields, j = .obj fields ∧ IntLike ((field? "schema_version" fields).getD (.int 1)) ∧
    ∀ n, ((field? "schema_version" fields).getD (.int 1)).toInt = .ok n →
      ∀ k ∈ ["payload_b64", "plaintext_sha256", "ciphertext_sha256"],
        ∃ v, field? k fields = some v

theorem fromDict_byValue_iff (j : Json) :
    ByValue (ArtifactEnvelope.fromDict j) ↔ EnvelopeFields j := by
  cases j with
  | obj fields =>
    simp only [ArtifactEnvelope.fromDict, get_byValue_iff, getItem_byValue_iff, int_byValue_iff,
      EnvelopeFields]
    simp
  | _ => simp [ArtifactEnvelope.fromDict, Json.get, EnvelopeFields, IsValueError]

theorem verifyPayload_byValue_iff (payload : β) (secret signature : String) :
    ByValue (verifyPayload p payload secret signature) ↔ PyText.isAscii signature = true := by
  have hhex : PyText.isAscii (signPayload p payload secret) = true := PyText.isAscii_hexEncode _
  by_cases hascii : PyText.isAscii signature = true
  · simp [verifyPayload, compareDigest, hhex, hascii]
  · simp [verifyPayload, compareDigest, hhex, hascii, IsValueError]

/-- The signature is one of the hotkey's key, or text that can be compared with an HMAC. -/
def Comparable (payload : β) (identity signature : String) : Prop :=
  verifyHotkeyPayload p payload identity signature = true ∨ PyText.isAscii signature = true

theorem verifyIdentityPayload_byValue_iff (payload : β) (identity signature : String) :
    ByValue (verifyIdentityPayload p payload identity signature) ↔
      Comparable p payload identity signature := by
  unfold verifyIdentityPayload Comparable
  by_cases hhotkey : verifyHotkeyPayload p payload identity signature = true
  · simp [hhotkey]
  · simp [hhotkey, verifyPayload_byValue_iff]

/-- Where the signature of the envelope is put to the verifier, signature and signer are
strings that it can handle. -/
def SignatureLike (envelope : ArtifactEnvelope) (policy : ArtifactCryptoPolicy) : Prop :=
  envelope.cryptoMode.eqStr policy.mode = true →
  (strOr policy.requiredSigner "" ≠ "" →
    envelope.signer.eqStr (strOr policy.requiredSigner "") = true) →
  policy.mode ∈ [CryptoMode.signed.value, CryptoMode.encrypted.value,
    CryptoMode.drandTimelock.value] →
  envelope.signature.truthy = true → envelope.signer.truthy = true →
  ∃ signature identity, envelope.signature = .str signature ∧ envelope.signer = .str identity ∧
    Comparable p (canonicalJson p envelope.signedPayloadDict) identity signature

theorem identityVerify_byValue_iff (payload : β) (signature identity : Json) :
    ByValue (identityVerify p payload signature identity) ↔
      (identity.truthy = true → ∃ s i, signature = .str s ∧ identity = .str i ∧
        Comparable p payload i s) := by
  unfold identityVerify
  by_cases htruthy : identity.truthy = true
  · cases signature with
    | str s =>
      cases identity with
      | str i => simp [htruthy, verifyIdentityPayload_byValue_iff]
      | _ => simp [htruthy, IsValueError]
    | _ => simp [htruthy, IsValueError]
  · simp [htruthy]

theorem verifyArtifactEnvelope_byValue_iff (envelope : ArtifactEnvelope)
    (policy : ArtifactCryptoPolicy) :
    ByValue (verifyArtifactEnvelope p (some (identityVerify p)) envelope policy) ↔
      SignatureLike p envelope policy := by
  have hverify (payload : β) : ByValue (do
      unless ← identityVerify p payload envelope.signature envelope.signer do
        .error (.valueError "artifact signature verification failed")) ↔
      ByValue (identityVerify p payload envelope.signature envelope.signer) := by
    simp [ByValue, RaisesOnly.ite_iff, IsValueError]
  simp only [verifyArtifactEnvelope, SignatureLike, RaisesOnly.ite_iff, hverify,
    identityVerify_byValue_iff]
  simp [IsValueError]

def PayloadLike (j : Json) : Prop := ∃ s, j = .str s ∧ ByValue (p.b64decode s)

theorem decodePayload_byValue_iff (j : Json) : ByValue (decodePayload p j) ↔ PayloadLike p j := by
  cases j <;> simp [decodePayload, PayloadLike, IsValueError]

/-- The blob is taken as it is, or it is JSON with the fields of an envelope whose signature can
be verified and, if it is accepted, whose payload is text. -/
def EnvelopeLike (blob : β) (policy : ArtifactCryptoPolicy) : Prop :=
  policy.mode ≠ CryptoMode.none.value →
  ByValue (p.loads blob) ∧ ∀ j, p.loads blob = .ok j → EnvelopeFields j ∧
    ∀ envelope, ArtifactEnvelope.fromDict j = .ok envelope →
      SignatureLike p envelope policy ∧
      (verifyArtifactEnvelope p (some (identityVerify p)) envelope policy = .ok () →
        PayloadLike p envelope.payloadB64)

/-- What is left of the decoding after the payload is refused with `ValueError` only, if there
is no timelock. -/
theorem decodeEnvelope_byValue_iff (timelock : TimelockProvider β) (secret : String) (blob : β)
    (policy : Option ArtifactCryptoPolicy)
    (hmode : (defaultPolicy policy).mode ≠ CryptoMode.drandTimelock.value) :
    ByValue (decodeEnvelope p timelock (some (identityVerify p)) secret blob policy) ↔
      EnvelopeLike p blob (defaultPolicy policy) := by
  unfold decodeEnvelope EnvelopeLike
  by_cases hnone : (defaultPolicy policy).mode = CryptoMode.none.value
  · simp [hnone]
  simp only [hnone, hmode, if_false, ByValue, RaisesOnly.bind_iff, RaisesOnly.ite_iff,
    fromDict_byValue_iff, verifyArtifactEnvelope_byValue_iff, decodePayload_byValue_iff]
  simp [IsValueError, hnone, Unique.forall_iff]

end Envelopes

section Shards

variable {L : Libraries β τ} {N : Buffers τ} {s : String → Py β}

/-- What `ShardSpec.from_dict` reads is there and of numbers where it converts. -/
def ShardLike (d : Json) : Prop :=
  ∃ fields rank, d = .obj fields ∧ field? "rank" fields = some rank ∧ IntLike rank ∧
    ∀ n, rank.toInt = .ok n → (∃ uri, field? "uri" fields = some uri) ∧
      IntLike ((field? "offset" fields).getD (.int 0)) ∧
      ∀ n, ((field? "offset" fields).getD (.int 0)).toInt = .ok n →
        OptIntLike ((field? "length" fields).getD .null) ∧
        ∀ n, optToInt ((field? "length" fields).getD .null) = .ok n →
          OptIntLike ((field? "size_bytes" fields).getD .null)

theorem readShard_byValue_iff (d : Json) : ByValue (StoredShard.read d) ↔ ShardLike d := by
  cases d with
  | obj fields =>
    simp only [StoredShard.read, get_byValue_iff, getItem_byValue_iff, int_byValue_iff,
      optInt_byValue_iff, ShardLike]
    simp
  | _ => simp [StoredShard.read, Json.getItem, ShardLike, IsValueError]

/-- What `ShardedTensorManifest.from_dict` reads is there, of numbers where it converts, and the
shards can be iterated over. -/
def ShardingLike (d : Json) : Prop :=
  ∃ fields, d = .obj fields ∧ (∃ name, field? "name" fields = some name) ∧
    IntsLike ((field? "shape" fields).getD (.arr [])) ∧
    ∀ dims, (((field? "shape" fields).getD (.arr [])).toList >>= fun items =>
        items.mapM Json.toInt) = .ok dims →
      (∃ dtype, field? "dtype" fields = some dtype) ∧
      IntLike ((field? "partition_dim" fields).getD (.int 0)) ∧
      ∀ n, ((field? "partition_dim" fields).getD (.int 0)).toInt = .ok n →
        ∃ world, field? "world_size" fields = some world ∧ IntLike world ∧
          ∀ n, world.toInt = .ok n →
            ∃ items, ((field? "shards" fields).getD (.arr [])).toList = .ok items ∧
              ∀ d, Reached StoredShard.read items d → ShardLike d

theorem readSharding_byValue_iff (d : Json) :
    ByValue (StoredSharding.read d) ↔ ShardingLike d := by
  cases d with
  | obj fields =>
    have hshards (x : Json) (f : List StoredShard → StoredSharding) :
        ByValue (x.toList >>= fun items => items.mapM StoredShard.read >>= fun shards =>
          pure (f shards)) ↔ ∃ items, x.toList = .ok items ∧
            ∀ d, Reached StoredShard.read items d → ShardLike d := by
      rw [toList_byValue_iff]
      simp only [ByValue, RaisesOnly.bind_iff, RaisesOnly.mapM_iff, readShard_byValue_iff,
        RaisesOnly.pure, implies_true, and_true]
    simp only [StoredSharding.read, get_byValue_iff, getItem_byValue_iff, int_byValue_iff,
      ints_byValue_iff, hshards, ShardingLike]
    simp
  | _ => simp [StoredSharding.read, Json.getItem, ShardingLike, IsValueError]

/-- A shard that the manifest names is fetched and, if it has the digest given for it, decoded,
or refused for its value. -/
def StoredShardLike (L : Libraries β τ) (N : Buffers τ) (s : String → Py β)
    (shard : StoredShard) : Prop :=
  ∃ uri, shard.uri = .str uri ∧ ByValue (s uri) ∧
    ∀ body, s uri = .ok body →
      shard.hasDigest (sha256Hex L.platform body) = true → TensorLike L.platform N body

theorem loadShard_byValue_iff (hdecode : L.torch.decodeTensor = decodeTensor L.platform N)
    (shard : StoredShard) :
    ByValue ((loadShard L shard).run s) ↔ StoredShardLike L N s shard := by
  have hbody (uri : String) (body : β) : ByValue (ReadProgram.run s
      (if shard.hasDigest (sha256Hex L.platform body) then liftM (L.torch.decodeTensor body)
        else ReadProgram.done (.error (.valueError ("shard digest mismatch for " ++ uri))))) ↔
      (shard.hasDigest (sha256Hex L.platform body) = true → TensorLike L.platform N body) := by
    by_cases hdigest : shard.hasDigest (sha256Hex L.platform body) = true
    · simp [hdigest, hdecode, decodeTensor_byValue_iff]
    · simp [hdigest, IsValueError]
  unfold loadShard StoredShardLike
  cases shard.uri with
  | str uri =>
    simp only [Json.asStr, ByValue, ReadProgram.run_bind, ReadProgram.run_lift,
      ReadProgram.run_ask, RaisesOnly.bind_iff, hbody]
    simp
  | _ => simp [Json.asStr, IsValueError]

def rankedShards (sharding : StoredSharding) : List StoredShard :=
  sharding.shards.insertionSort fun a b => a.rank ≤ b.rank

/-- The object is the manifest of a sharded tensor, whose shards can be loaded and joined, or
refused for its value at the first place where it is not. -/
def ShardedLike (L : Libraries β τ) (N : Buffers τ) (s : String → Py β) (uri : String) : Prop :=
  ByValue (s uri) ∧ ∀ body, s uri = .ok body →
    ByValue (L.platform.loads body) ∧ ∀ j, L.platform.loads body = .ok j →
      ShardingLike j ∧ ∀ sharding, StoredSharding.read j = .ok sharding →
        (∀ shard, Reached (fun shard => (loadShard L shard).run s) (rankedShards sharding) shard →
          StoredShardLike L N s shard) ∧
        ∀ shards, (rankedShards sharding).mapM (fun shard => (loadShard L shard).run s) = .ok shards →
          shards ≠ [] → ByValue (L.torch.cat shards sharding.partitionDim)

theorem getShardedTensor_byValue_iff (hdecode : L.torch.decodeTensor = decodeTensor L.platform N)
    (uri : String) :
    ByValue ((getShardedTensor L uri).run s) ↔ ShardedLike L N s uri := by
  have hjoin (shards : List τ) (d : ℤ) : ByValue (joinShards L shards d) ↔
      (shards ≠ [] → ByValue (L.torch.cat shards d)) := by
    cases shards <;> simp [joinShards, IsValueError]
  have hshape (out : τ) (shape : List ℤ) (e : String) : ByValue (ReadProgram.run s
      (if L.torch.shape out ≠ shape then ReadProgram.done (.error (.valueError e))
        else pure out)) := by
    by_cases h : L.torch.shape out = shape <;> simp [h, IsValueError]
  simp only [getShardedTensor, fetchJson, ShardedLike, rankedShards, ByValue,
    ReadProgram.run_bind, ReadProgram.run_lift, ReadProgram.run_ask, ReadProgram.run_mapM,
    bind_assoc, RaisesOnly.bind_iff, RaisesOnly.mapM_iff, readSharding_byValue_iff,
    loadShard_byValue_iff hdecode, hjoin, hshape, implies_true, and_true]

end Shards

section Outputs

variable {L : Libraries β τ} {N : Buffers τ} {s : String → Py β} {cfg : AuditReplayConfig}

def MentionsSharding (j : Json) : Prop :=
  containsKey "shards" j = .ok true ∧ containsKey "world_size" j = .ok true

/-- A JSON output is an object with a value that is a tensor or refused as one, or it has the
keys of a sharded tensor and is one. -/
def JsonLike (L : Libraries β τ) (N : Buffers τ) (s : String → Py β) (uri : String) (j : Json) :
    Prop :=
  (∃ found, containsKey "shards" j = .ok found) ∧
  (MentionsSharding j → ShardedLike L N s uri) ∧
  (¬ MentionsSharding j → ∃ fields, j = .obj fields ∧
    ByValue (L.torch.asTensor ((field? "value" fields).getD .null)))

theorem containsKey_byValue_iff (k : String) (j : Json) :
    ByValue (containsKey k j) ↔ ∃ found, containsKey k j = .ok found := by
  cases j <;> simp [containsKey, IsValueError]

theorem containsKey_ok_of_ok {k : String} {j : Json} {found : Bool}
    (h : containsKey k j = .ok found) (k' : String) : ∃ found', containsKey k' j = .ok found' := by
  cases j with
  | obj | arr | str => exact ⟨_, rfl⟩
  | _ => cases h

theorem getValue_byValue_iff (j : Json) :
    ByValue (j.get "value" >>= L.torch.asTensor) ↔ ∃ fields, j = .obj fields ∧
      ByValue (L.torch.asTensor ((field? "value" fields).getD .null)) := by
  cases j with
  | obj fields =>
    rw [get_byValue_iff]
    simp
  | _ => simp [Json.get, IsValueError]

theorem observedJson_byValue_iff (hdecode : L.torch.decodeTensor = decodeTensor L.platform N)
    (uri : String) (j : Json) :
    ByValue ((observedJson L uri j).run s) ↔ JsonLike L N s uri j := by
  have hvalue := getValue_byValue_iff (L := L) j
  unfold observedJson JsonLike
  cases hshards : containsKey "shards" j with
  | error e =>
    have hno : ¬ ByValue (containsKey "shards" j) := by
      rw [containsKey_byValue_iff, hshards]
      simp
    have he : ¬ IsValueError e := by simpa [hshards] using hno
    simp [he]
  | ok found =>
    obtain ⟨found', hworld⟩ := containsKey_ok_of_ok hshards "world_size"
    cases found with
    | false =>
      have hmentions : ¬ MentionsSharding j := by simp [MentionsSharding, hshards]
      simpa [hmentions] using hvalue
    | true =>
      cases found' with
      | false =>
        have hmentions : ¬ MentionsSharding j := by simp [MentionsSharding, hworld]
        simpa [hmentions, hworld] using hvalue
      | true =>
        have hmentions : MentionsSharding j := ⟨hshards, hworld⟩
        simp [hmentions, hworld, getShardedTensor_byValue_iff hdecode]

/-- The stored output is one that the audit decodes, or refuses for its value. -/
def StoredLike (L : Libraries β τ) (N : Buffers τ) (cfg : AuditReplayConfig) (s : String → Py β)
    (ref : ArtifactRef) (digest : Option ArtifactDigest) : Prop :=
  ((digest.bind ArtifactDigest.sharded).isSome = true → ShardedLike L N s ref.uri) ∧
  ((digest.bind ArtifactDigest.sharded).isSome = false →
    ByValue (s ref.uri) ∧ ∀ blob, s ref.uri = .ok blob →
      EnvelopeLike L.platform blob (defaultPolicy ref.crypto) ∧
      ∀ body, openArtifact L cfg blob ref = .ok body →
        (PyText.endsWith ref.uri ".json" = true →
          ByValue (L.platform.loads body) ∧
          ∀ j, L.platform.loads body = .ok j → JsonLike L N s ref.uri j) ∧
        (PyText.endsWith ref.uri ".json" = false → TensorLike L.platform N body))

theorem observedOutput_byValue_iff (hdecode : L.torch.decodeTensor = decodeTensor L.platform N)
    {ref : ArtifactRef} (hmode : (defaultPolicy ref.crypto).mode ≠ CryptoMode.drandTimelock.value)
    (digest : Option ArtifactDigest) :
    ByValue ((observedOutput L cfg ref digest).run s) ↔ StoredLike L N cfg s ref digest := by
  have hopen (blob : β) : ByValue (openArtifact L cfg blob ref) ↔
      EnvelopeLike L.platform blob (defaultPolicy ref.crypto) :=
    decodeEnvelope_byValue_iff L.platform L.timelock _ blob ref.crypto hmode
  unfold observedOutput StoredLike
  cases hsharded : (digest.bind ArtifactDigest.sharded).isSome with
  | true => simp [getShardedTensor_byValue_iff hdecode]
  | false =>
    cases hjson : PyText.endsWith ref.uri ".json" with
    | true => simp [hopen, observedJson_byValue_iff hdecode]
    | false => simp [hopen, hdecode, decodeTensor_byValue_iff]

end Outputs

section Comparisons

variable {L : Libraries β τ} {N : Buffers τ} {s : String → Py β} {cfg : AuditReplayConfig}
variable {dtype : τ → String}

/-- What is documented of the comparison of two tensors of one shape: only `torch.equal` raises,
with `RuntimeError`, if the dtypes differ, and it holds of empty tensors. -/
structure Comparing (T : Torch β τ) (dtype : τ → String) : Prop where
  numel_flatten : ∀ t u, T.shape t = T.shape u → T.numel (T.flatten t) = T.numel (T.flatten u)
  shape_flatten : ∀ t u, T.shape t = T.shape u → T.shape (T.flatten t) = T.shape (T.flatten u)
  dtype_flatten : ∀ t, dtype (T.flatten t) = dtype t
  select : ∀ t seed n, n ≤ T.numel t →
    ∃ v, T.indexSelect t (T.sampleIndices seed (T.numel t) n) = .ok v
  shape_select : ∀ t u idx v w, T.shape t = T.shape u → T.indexSelect t idx = .ok v →
    T.indexSelect u idx = .ok w → T.shape v = T.shape w
  dtype_select : ∀ t idx v, T.indexSelect t idx = .ok v → dtype v = dtype t
  equal : ∀ t u, T.shape t = T.shape u → dtype t = dtype u →
    ∃ b, T.equal t u = .ok b ∧ (b = false → T.numel t ≠ 0)
  equal_error : ∀ t u, T.shape t = T.shape u → dtype t ≠ dtype u →
    ∃ message, T.equal t u = .error (.runtimeError message)
  allclose : ∀ t u rtol atol, T.shape t = T.shape u → ∃ b, T.allclose t u rtol atol = .ok b
  maxAbsDiff : ∀ t u, T.shape t = T.shape u → T.numel t ≠ 0 → ∃ x, T.maxAbsDiff t u = .ok x

def comparatorFor (T : Torch β τ) (policy : VerificationPolicy) (expected : τ) : String :=
  if policy.comparator = "auto" then
    (if T.isFloatingPoint expected then "allclose" else "exact")
  else policy.comparator

theorem compared_parts (hT : Comparing L.torch dtype) (policy : VerificationPolicy)
    {observed expected : τ} (hshape : L.torch.shape observed = L.torch.shape expected) :
    ∃ obs exp, L.torch.shape obs = L.torch.shape exp ∧ dtype obs = dtype observed ∧
      dtype exp = dtype expected ∧
      compareTensors L policy observed expected = (do
        if comparatorFor L.torch policy expected = "exact" then
          let ok ← L.torch.equal obs exp
          let maxAbs ← if ok then pure (.finite 0) else L.torch.maxAbsDiff obs exp
          return (ok, comparatorFor L.torch policy expected, maxAbs, L.torch.numel obs,
            L.torch.numel (L.torch.flatten observed))
        else
          let ok ← L.torch.allclose obs exp policy.rtol policy.atol
          let maxAbs ← if L.torch.numel obs = 0 then pure (.finite 0)
            else L.torch.maxAbsDiff obs exp
          return (ok, comparatorFor L.torch policy expected, maxAbs, L.torch.numel obs,
            L.torch.numel (L.torch.flatten observed))) := by
  have hflat := hT.shape_flatten _ _ hshape
  have hnumel := hT.numel_flatten _ _ hshape
  by_cases hsampled : 0 < policy.maxSampleElements ∧
      policy.maxSampleElements < L.torch.numel (L.torch.flatten observed)
  · have hle : policy.maxSampleElements.toNat ≤ L.torch.numel (L.torch.flatten observed) := by
      omega
    obtain ⟨obs, hobs⟩ := hT.select (L.torch.flatten observed) policy.sampleSeed _ hle
    obtain ⟨exp, hexp⟩ := hT.select (L.torch.flatten expected) policy.sampleSeed _ (hnumel ▸ hle)
    rw [← hnumel] at hexp
    refine ⟨obs, exp, hT.shape_select _ _ _ _ _ hflat hobs hexp,
      (hT.dtype_select _ _ _ hobs).trans (hT.dtype_flatten _),
      (hT.dtype_select _ _ _ hexp).trans (hT.dtype_flatten _), ?_⟩
    simp only [compareTensors, hsampled, and_self, if_true, hobs, hexp, comparatorFor]
    rfl
  · refine ⟨L.torch.flatten observed, L.torch.flatten expected, hflat, hT.dtype_flatten _,
      hT.dtype_flatten _, ?_⟩
    simp only [compareTensors, hsampled, if_false, comparatorFor]
    rfl

theorem compareTensors_byValue_iff (hT : Comparing L.torch dtype) (policy : VerificationPolicy)
    {observed expected : τ} (hshape : L.torch.shape observed = L.torch.shape expected) :
    ByValue (compareTensors L policy observed expected) ↔
      (comparatorFor L.torch policy expected = "exact" → dtype observed = dtype expected) := by
  obtain ⟨obs, exp, hparts, hobs, hexp, hcompare⟩ := compared_parts hT policy hshape
  rw [hcompare, ← hobs, ← hexp]
  by_cases hexact : comparatorFor L.torch policy expected = "exact"
  · by_cases hdtype : dtype obs = dtype exp
    · obtain ⟨ok, hok, hnumel⟩ := hT.equal _ _ hparts hdtype
      cases ok with
      | true => simp [hexact, hdtype, hok]
      | false =>
        obtain ⟨x, hx⟩ := hT.maxAbsDiff _ _ hparts (hnumel rfl)
        simp [hexact, hdtype, hok, hx]
    · obtain ⟨message, hmessage⟩ := hT.equal_error _ _ hparts hdtype
      simp [hexact, hdtype, hmessage, IsValueError]
  · obtain ⟨ok, hok⟩ := hT.allclose _ _ policy.rtol policy.atol hparts
    by_cases hnumel : L.torch.numel obs = 0
    · simp [hexact, hok, hnumel]
    · obtain ⟨x, hx⟩ := hT.maxAbsDiff _ _ hparts hnumel
      simp [hexact, hok, hnumel, hx]

/-- The output can be compared with the replayed value: it is not missing there, it is stored as
something that is decoded or refused for its value, and an exact comparison finds the same
dtype. -/
def ComparedLike (L : Libraries β τ) (N : Buffers τ) (dtype : τ → String)
    (cfg : AuditReplayConfig) (s : String → Py β) (manifest : JobManifestV3)
    (receipt : JobReceiptV3) (outputs : SortedDict String τ) (ref : ArtifactRef) : Prop :=
  ∀ expected, outputs.find? ref.name = some expected →
    StoredLike L N cfg s ref (receipt.outputDigests.find? fun d =>
      d.name = ref.name ∧ d.uri = ref.uri) ∧
    ∀ observed, (observedOutput L cfg ref (receipt.outputDigests.find? fun d =>
        d.name = ref.name ∧ d.uri = ref.uri)).run s = .ok observed →
      L.torch.shape observed = L.torch.shape expected →
      comparatorFor L.torch manifest.verificationPolicy expected = "exact" →
      dtype observed = dtype expected

theorem compareOutput_byValue_iff (hdecode : L.torch.decodeTensor = decodeTensor L.platform N)
    (hT : Comparing L.torch dtype) {manifest : JobManifestV3} {receipt : JobReceiptV3}
    {outputs : SortedDict String τ} {ref : ArtifactRef}
    (hmode : (defaultPolicy ref.crypto).mode ≠ CryptoMode.drandTimelock.value) :
    ByValue ((compareOutput L cfg ref (outputs.find? ref.name) manifest receipt).run s) ↔
      ComparedLike L N dtype cfg s manifest receipt outputs ref := by
  unfold compareOutput ComparedLike
  cases outputs.find? ref.name with
  | none => simp
  | some expected =>
    simp only [ReadProgram.run_bind, RaisesOnly.bind_iff, Option.some.injEq, forall_eq',
      observedOutput_byValue_iff hdecode hmode, ByValue]
    refine and_congr_right' (forall_congr' fun observed => forall_congr' fun _ => ?_)
    by_cases hshape : L.torch.shape observed = L.torch.shape expected
    · have hcompare := compareTensors_byValue_iff hT manifest.verificationPolicy hshape
      simp only [hshape, ne_eq, not_true, if_false, forall_const, ← hcompare,
        ReadProgram.run_bind, ReadProgram.run_lift, RaisesOnly.bind_iff, ReadProgram.run_pure,
        RaisesOnly.ok, implies_true, and_true]
    · simp [hshape]

end Comparisons

section Audits

variable {L : Libraries β τ} {N : Buffers τ} {s : String → Py β} {cfg : AuditReplayConfig}
variable {dtype : τ → String} {times : Times} {manifest : JobManifestV3} {receipt : JobReceiptV3}
variable {outputs : SortedDict String τ}

/-- Where the signature of the receipt is put to the back ends, they can handle it. -/
def ReceiptSignatureLike (p : Platform β) (receipt : JobReceiptV3) : Prop :=
  strOr receipt.minerSignature "" ≠ "" →
    Comparable p (canonicalJson p receipt.unsignedDict) receipt.worker.hotkeySs58
      (strOr receipt.minerSignature "")

theorem verifyReceiptSignature_byValue_iff (p : Platform β) (cfg : AuditReplayConfig)
    (receipt : JobReceiptV3) :
    ByValue (verifyReceiptSignature p cfg receipt) ↔ ReceiptSignatureLike p receipt := by
  unfold verifyReceiptSignature ReceiptSignatureLike
  by_cases hempty : strOr receipt.minerSignature "" = ""
  · simp [hempty]
  simp only [hempty, if_false, ByValue, RaisesOnly.bind_iff]
  have hidentity := verifyIdentityPayload_byValue_iff p (canonicalJson p receipt.unsignedDict)
    receipt.worker.hotkeySs58 (strOr receipt.minerSignature "")
  have hsecret := verifyPayload_byValue_iff p (canonicalJson p receipt.unsignedDict)
    (minerSigningSecret cfg receipt) (strOr receipt.minerSignature "")
  constructor
  · rintro ⟨hverify, -⟩ -
    exact hidentity.mp hverify
  · intro h
    have hcomparable := h hempty
    refine ⟨hidentity.mpr hcomparable, ?_⟩
    intro accepted haccepted
    cases accepted with
    | true => simp
    | false =>
      rcases hcomparable with hhotkey | hascii
      · simp [verifyIdentityDict, verifyIdentityPayload, hhotkey] at haccepted
      · exact hsecret.mpr hascii

/-- The outputs of the replay of the manifest's graph on its inputs, in an audit that starts
with an empty comparison. -/
def ReplaysTo (L : Libraries β τ) (cfg : AuditReplayConfig) (s : String → Py β)
    (manifest : JobManifestV3) (receipt : JobReceiptV3) (receiptUri : String)
    (outputs : SortedDict String τ) : Prop :=
  ∃ graph inputs c₁ c₂,
    (fetchGraph L.platform manifest.graphRef.sha256 manifest.graphRef.uri
      "graph hash mismatch").run s = .ok graph ∧
    Yields s (loadInputs L cfg receipt.inputDigests manifest.inputs .empty)
      { receiptUri := receiptUri } inputs c₁ ∧
    Yields s (replay L graph inputs manifest receipt) c₁ outputs c₂

theorem compareOutputs_run (L : Libraries β τ) (cfg : AuditReplayConfig) (s : String → Py β)
    (outputs : SortedDict String τ) (manifest : JobManifestV3) (receipt : JobReceiptV3)
    (refs : List ArtifactRef) (c : Comparison) :
    ∃ r c', ((compareOutputs L cfg outputs manifest receipt refs) c).run s = .ok (r, c') ∧
      (ByValue r ↔ ByValue (refs.mapM fun ref =>
        (compareOutput L cfg ref (outputs.find? ref.name) manifest receipt).run s)) := by
  induction refs generalizing c with
  | nil => exact ⟨.ok [], c, rfl, by simp⟩
  | cons ref refs ih =>
    rw [compareOutputs, run_bind, run_liftM, List.mapM_cons]
    cases hcmp : (compareOutput L cfg ref (outputs.find? ref.name) manifest receipt).run s with
    | error e => exact ⟨.error e, c, rfl, by simp⟩
    | ok cmp =>
      obtain ⟨r, c', hr, hiff⟩ := ih (c.noteOutput ref.name (.obj cmp.entry))
      refine ⟨r >>= fun reasons => .ok (if cmp.ok then reasons
        else (ref.name ++ ": " ++ text ((field? "reason" cmp.entry).getD .null)) :: reasons),
        c', ?_, ?_⟩
      · change (((compareOutputs L cfg outputs manifest receipt refs >>= _ : Audit β _))
          (c.noteOutput ref.name (.obj cmp.entry))).run s = _
        rw [run_bind, hr]
        cases r <;> rfl
      · simp [hiff]

theorem status_outcomeOf_error (e : PyErr) (c : Comparison) :
    ((outcomeOf (.error e) c).1.status = "pass" ∨ (outcomeOf (.error e) c).1.status = "fail") ↔
      IsValueError e := by
  cases e <;> simp [outcomeOf, IsValueError]

variable {receiptUri : String}

theorem run_status (auditorHotkey : String) {r : Py Outcome} {c : Comparison}
    (h : ((checkReceipt L cfg times manifest receipt) { receiptUri := receiptUri }).run s =
      .ok (r, c)) :
    ∃ res, (run L cfg times receiptUri manifest receipt auditorHotkey).run s = .ok res ∧
      res.status = (outcomeOf r c).1.status := by
  unfold run
  rw [ReadProgram.run_bind, h]
  exact ⟨_, rfl, rfl⟩

theorem checkReceipt_run (times : Times)
    (howner : verifyManifestSignature L.platform cfg manifest = .ok true)
    (hminer : verifyReceiptSignature L.platform cfg receipt = .ok true)
    (hhash : manifest.manifestHash L.platform = receipt.manifestHash)
    (hreplay : ReplaysTo L cfg s manifest receipt receiptUri outputs) :
    ∃ c, ((checkReceipt L cfg times manifest receipt) { receiptUri := receiptUri }).run s =
      ((compareOutputs L cfg outputs manifest receipt manifest.outputs >>= fun reasons =>
        if reasons.isEmpty then pure ⟨"pass", "all outputs matched", times.replaySec⟩
        else pure ⟨"fail", "; ".intercalate (reasons.take 4), times.replaySec⟩ :
        Audit β Outcome) c).run s := by
  obtain ⟨graph, inputs, c₁, c₂, hgraph, hinputs, houtputs⟩ := hreplay
  refine ⟨c₂, ?_⟩
  unfold checkReceipt
  rw [(yields_done howner _).bind_run]
  simp only [Bool.not_true, Bool.false_eq_true, if_false]
  rw [(yields_done hminer _).bind_run]
  simp only [Bool.not_true, Bool.false_eq_true, if_false, hhash, ne_eq, not_true]
  rw [(yields_lift hgraph _).bind_run, hinputs.bind_run, houtputs.bind_run]

/-- The audit of a signed receipt passes or fails if the loop over the outputs raises nothing
but `ValueError`. -/
theorem status_of_signed (times : Times) (auditorHotkey : String)
    (howner : verifyManifestSignature L.platform cfg manifest = .ok true)
    (hminer : verifyReceiptSignature L.platform cfg receipt = .ok true)
    (hhash : manifest.manifestHash L.platform = receipt.manifestHash)
    (hreplay : ReplaysTo L cfg s manifest receipt receiptUri outputs) :
    ∃ res, (run L cfg times receiptUri manifest receipt auditorHotkey).run s = .ok res ∧
      ((res.status = "pass" ∨ res.status = "fail") ↔ ByValue (manifest.outputs.mapM fun ref =>
        (compareOutput L cfg ref (outputs.find? ref.name) manifest receipt).run s)) := by
  obtain ⟨c, hcheck⟩ := checkReceipt_run times howner hminer hhash hreplay
  obtain ⟨r, c', hcompare, hiff⟩ :=
    compareOutputs_run L cfg s outputs manifest receipt manifest.outputs c
  rw [run_bind, hcompare] at hcheck
  cases r with
  | error e =>
    obtain ⟨res, hrun, hstatus⟩ := run_status auditorHotkey hcheck
    refine ⟨res, hrun, ?_⟩
    rw [hstatus, status_outcomeOf_error, ← hiff]
    simp
  | ok reasons =>
    have hvalue := hiff.mp (RaisesOnly.ok reasons)
    cases reasons with
    | nil =>
      obtain ⟨res, hrun, hstatus⟩ := run_status auditorHotkey hcheck
      exact ⟨res, hrun, iff_of_true (Or.inl hstatus) hvalue⟩
    | cons reason reasons =>
      obtain ⟨res, hrun, hstatus⟩ := run_status auditorHotkey hcheck
      exact ⟨res, hrun, iff_of_true (Or.inr hstatus) hvalue⟩

theorem status_of_unsigned (times : Times) (auditorHotkey : String)
    (howner : verifyManifestSignature L.platform cfg manifest = .ok true)
    (hminer : verifyReceiptSignature L.platform cfg receipt = .ok true →
      manifest.manifestHash L.platform ≠ receipt.manifestHash) :
    ∃ res, (run L cfg times receiptUri manifest receipt auditorHotkey).run s = .ok res ∧
      ((res.status = "pass" ∨ res.status = "fail") ↔
        ByValue (verifyReceiptSignature L.platform cfg receipt)) := by
  have hcheck : ∃ r c, ((checkReceipt L cfg times manifest receipt)
      { receiptUri := receiptUri }).run s = .ok (r, c) ∧
      (((outcomeOf r c).1.status = "pass" ∨ (outcomeOf r c).1.status = "fail") ↔
        ByValue (verifyReceiptSignature L.platform cfg receipt)) := by
    unfold checkReceipt
    rw [(yields_done howner _).bind_run]
    simp only [Bool.not_true, Bool.false_eq_true, if_false]
    cases hverify : verifyReceiptSignature L.platform cfg receipt with
    | error e =>
      refine ⟨.error e, { receiptUri := receiptUri }, rfl, ?_⟩
      rw [status_outcomeOf_error]
      simp
    | ok accepted =>
      rw [(yields_done rfl _).bind_run]
      cases accepted with
      | false => exact ⟨_, _, rfl, iff_of_true (Or.inr rfl) (RaisesOnly.ok _)⟩
      | true =>
        simp only [Bool.not_true, Bool.false_eq_true, if_false, hminer hverify, ne_eq,
          not_false_eq_true, if_true]
        exact ⟨_, _, rfl, iff_of_true (Or.inr rfl) (RaisesOnly.ok _)⟩
  obtain ⟨r, c, hcheck, hiff⟩ := hcheck
  obtain ⟨res, hrun, hstatus⟩ := run_status auditorHotkey hcheck
  exact ⟨res, hrun, by rw [hstatus, hiff]⟩

end Audits

section Stored

open JsonBytes ByteTensors

/-- Every audit of an owner-signed manifest without timelock, whose replay succeeds and whose
outputs are stored, passes or fails. -/
def CorruptOutputsFail (L : Libraries β τ) (cfg : AuditReplayConfig) : Prop :=
  ∀ (b : Bucket β) times receiptUri manifest receipt auditorHotkey outputs res,
    verifyManifestSignature L.platform cfg manifest = .ok true →
    (∀ ref ∈ manifest.outputs,
      (defaultPolicy ref.crypto).mode ≠ CryptoMode.drandTimelock.value) →
    ReplaysTo L cfg b.get manifest receipt receiptUri outputs →
    (∀ ref ∈ manifest.outputs, ∃ blob, b.get ref.uri = .ok blob) →
    (run L cfg times receiptUri manifest receipt auditorHotkey).run b.get = .ok res →
    res.status = "pass" ∨ res.status = "fail"

def sevenManifest : JobManifestV3 :=
  JobManifestV3.sign bytePlatform
    { jobId := "j", runId := "r", stepId := 0, kind := "train"
      graphRef := { sha256 := constGraph.graphId bytePlatform, uri := "s3://b/g" }
      params := [], inputs := [], outputs := [{ name := "y", uri := "s3://b/y" }]
      assignedHotkey := "A", assignedWorker := none, attempt := 0, deadlineUnix := 0
      createdUnix := 0 }
    (.secret "owner-dev-secret")

def sevenReceipt : JobReceiptV3 :=
  JobReceiptV3.sign bytePlatform
    { receiptId := "x", manifestHash := sevenManifest.manifestHash bytePlatform, jobId := "j"
      runId := "r", stepId := 0, kind := "train"
      worker := { hotkeySs58 := "A", workerId := "w", hostId := "host", gpuIndex := none,
                  sessionNonce := "nonce" }
      inputDigests := [], outputDigests := [], startedUnix := .finite 0
      finishedUnix := .finite 0, computeSec := .finite 0, claimedBytesRead := 0
      claimedBytesWritten := 0 }
    (.secret "miner-dev-secret")

def storedBucket (body : List UInt8) : Bucket (List UInt8) where
  name := "b"
  objects := .ofEntries [("s3://b/g", putJson constGraph.toDict), ("s3://b/y", body)]

theorem constGraph_evaluates (s : String → Py (List UInt8)) :
    (evaluate byteTorch constGraph .empty []).run s = .ok (SortedDict.empty.insert "y" [7]) := by
  rfl

theorem seven_replays (body : List UInt8) :
    ReplaysTo byteLibraries {} (storedBucket body).get sevenManifest sevenReceipt "s3://b/receipt"
      (SortedDict.empty.insert "y" [7]) := by
  have hfind : (storedBucket body).objects.find? "s3://b/g" = some (putJson constGraph.toDict) := by
    simp only [storedBucket, SortedDict.ofEntries, List.foldl, SortedDict.find?_insert]
    simp
  have hget : (storedBucket body).get "s3://b/g" = .ok (putJson constGraph.toDict) :=
    Bucket.get_eq_ok.mpr ⟨⟨("b", "g"), by decide⟩, hfind⟩
  have hcanonical : Canonical constGraph.toDict := (isCanonical_iff _).mp (by decide +kernel)
  have hgraph := fetchGraph_of_stored bytePlatform_lawful hget hcanonical rfl
    "graph hash mismatch"
  exact ⟨constGraph, .empty, _, _, hgraph, rfl, yields_lift (constGraph_evaluates _) _⟩

theorem seven_signed : verifyManifestSignature bytePlatform {} sevenManifest = .ok true :=
  verifyManifestSignature_sign bytePlatform_lawful rfl _

theorem seven_receipt_signed : verifyReceiptSignature bytePlatform {} sevenReceipt = .ok true :=
  verifyReceiptSignature_signed bytePlatform_lawful rfl (Or.inr rfl)

def headlessBody : List UInt8 :=
  let header := putJson (mkObj [("version", .int 1)])
  ByteWords.leBytes 4 header.length ++ header

theorem byteTorch_comparing : Comparing byteTorch fun _ => "uint8" where
  numel_flatten := by
    intro t u hshape
    simpa [byteTorch] using hshape
  shape_flatten := fun t u hshape => hshape
  dtype_flatten := fun _ => rfl
  select := fun t seed n _ => ⟨_, rfl⟩
  shape_select := by
    intro t u idx v w _ hv hw
    cases hv
    cases hw
    simp [byteTorch]
  dtype_select := fun _ _ _ _ => rfl
  equal := by
    intro t u hshape _
    refine ⟨t == u, rfl, fun hne hempty => ?_⟩
    have hlength : t.length = u.length := by simpa [byteTorch] using hshape
    have ht : t = [] := List.length_eq_zero_iff.mp hempty
    have hu : u = [] := List.length_eq_zero_iff.mp (hlength.symm.trans hempty)
    simp [ht, hu] at hne
  equal_error := fun _ _ _ hne => absurd rfl hne
  allclose := fun _ _ _ _ _ => ⟨_, rfl⟩
  maxAbsDiff := fun _ _ _ _ => ⟨_, rfl⟩

end Stored

end CorruptOutputs

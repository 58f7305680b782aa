import Mathlib.Algebra.BigOperators.Group.List.Basic
import Teuton.ByteWords
import Teuton.GraphEval

/-! The typed tensor codec of the artifacts: a four-byte header length, a JSON header with shape
and dtype, and the elements in row-major order. -/
namespace TensorIo

open PyJson Signatures GraphEval ByteWords

variable {β τ : Type}

def wireVersion : ℤ := 1

inductive WireDtype where
  | float32
  | float16
  | bfloat16
  | int32
  | int64
  | int8
  | uint8
  | bool
  deriving DecidableEq, Repr

namespace WireDtype

def name : WireDtype → String
  | float32 => "float32"
  | float16 => "float16"
  | bfloat16 => "bfloat16"
  | int32 => "int32"
  | int64 => "int64"
  | int8 => "int8"
  | uint8 => "uint8"
  | bool => "bool"

def bytes : WireDtype → ℕ
  | float32 => 4
  | float16 => 2
  | bfloat16 => 2
  | int32 => 4
  | int64 => 8
  | int8 => 1
  | uint8 => 1
  | bool => 1

def all : List WireDtype := [float32, float16, bfloat16, int32, int64, int8, uint8, bool]

def ofName (s : String) : Option WireDtype := all.find? fun d => d.name = s

@[simp] theorem ofName_name (d : WireDtype) : ofName d.name = some d := by
  cases d <;> decide

end WireDtype

/-- NumPy and torch conversions between a tensor and the buffer of its elements. The buffer is
read as an array of a wire dtype and brought into shape. -/
structure Buffers (τ : Type) where
  toBytes : τ → List UInt8
  fromBuffer : WireDtype → List ℤ → List UInt8 → Py τ

/-- What is documented of them: a tensor of a wire dtype has a buffer of the size of its
elements, from which it is read back. -/
structure Buffers.Lawful (N : Buffers τ) (T : Torch β τ) : Prop where
  wireDtype : ∀ t wd, T.wireDtype t = .ok wd → ∃ d : WireDtype, d.name = wd
  length : ∀ t (d : WireDtype), T.wireDtype t = .ok d.name →
    ((N.toBytes t).length : ℤ) = (T.shape t).prod * d.bytes
  fromBuffer : ∀ t (d : WireDtype), T.wireDtype t = .ok d.name →
    N.fromBuffer d (T.shape t) (N.toBytes t) = .ok t

/-- The lookup in `_DTYPE_BYTES`; a list or an object is not hashable. -/
def wireDtypeOf : Json → Py WireDtype
  | .str s =>
    match WireDtype.ofName s with
    | some d => .ok d
    | none => .error (.valueError ("unsupported wire dtype: " ++ quoted s))
  | .arr _ | .obj _ => .error .typeError
  | x => .error (.valueError ("unsupported wire dtype: " ++ text x))

def expectedPayloadBytes (shape : List ℤ) (d : WireDtype) : ℤ := shape.prod * d.bytes

def reprTuple : List ℤ → String
  | [n] => "(" ++ toString n ++ ",)"
  | l => "(" ++ ", ".intercalate (l.map toString) ++ ")"

def headerOf (shape : List ℤ) (wd : String) : Json :=
  mkObj
    [("shape", .arr (shape.map .int)),
     ("dtype", .str wd),
     ("layout", .str "row_major"),
     ("version", .int wireVersion)]

theorem canonical_headerOf (shape : List ℤ) (wd : String) : Canonical (headerOf shape wd) := by
  apply canonical_mkObj
  simp

/-- The call `struct.pack("<I", n)`, which refuses what has no 32 bits. -/
def packLength (n : ℕ) : Py (List UInt8) :=
  if n < 2 ^ 32 then .ok (leBytes 4 n)
  else .error (.runtimeError "'I' format requires 0 <= number <= 4294967295")

def encodeTensor (p : Platform β) (T : Torch β τ) (N : Buffers τ) (t : τ) : Py β := do
  let wd ← T.wireDtype t
  let headerJson := p.toBytes (p.dumps (headerOf (T.shape t) wd))
  let payload := N.toBytes t
  let expected := expectedPayloadBytes (T.shape t) (← wireDtypeOf (.str wd))
  if (payload.length : ℤ) ≠ expected then
    .error (.assertionError ("payload size mismatch: got " ++ toString payload.length ++
      ", expected " ++ toString expected ++ " for shape=" ++ reprInts (T.shape t) ++ " dtype=" ++
      wd))
  return p.ofBytes ((← packLength headerJson.length) ++ headerJson ++ payload)

/-- The part of `decode_tensor` after the header has been parsed. -/
def decodeBody (N : Buffers τ) (header : Json) (payload : List UInt8) : Py τ := do
  let version ← header.get "version"
  if !intEq wireVersion version then
    .error (.valueError ("unsupported wire version: " ++ text version))
  let layout ← header.get "layout" (.str "row_major")
  if !layout.eqStr "row_major" then
    .error (.valueError ("unsupported layout: " ++ text layout))
  let shape ← (← (← header.getItem "shape").toList).mapM Json.toInt
  let wd ← header.getItem "dtype"
  let d ← wireDtypeOf wd
  let expected := expectedPayloadBytes shape d
  if (payload.length : ℤ) ≠ expected then
    .error (.valueError ("payload truncated: got " ++ toString payload.length ++
      " bytes, expected " ++ toString expected ++ " for shape=" ++ reprTuple shape ++ " dtype=" ++
      text wd))
  N.fromBuffer d shape payload

def decodeTensor (p : Platform β) (N : Buffers τ) (blob : β) : Py τ := do
  let bytes := p.toBytes blob
  if bytes.length < 4 then .error (.valueError "blob too short for header_len prefix")
  let headerLen := leNat (bytes.take 4)
  if bytes.length < 4 + headerLen then .error (.valueError "blob truncated in header")
  let header ← p.loads (p.ofBytes ((bytes.drop 4).take headerLen))
  decodeBody N header (bytes.drop (4 + headerLen))

section RoundTrip

variable {p : Platform β} {T : Torch β τ} {N : Buffers τ}

theorem encodeTensor_ok (hN : N.Lawful T) {t : τ} {blob : β}
    (h : encodeTensor p T N t = .ok blob) :
    ∃ d : WireDtype, T.wireDtype t = .ok d.name ∧
      (p.toBytes (p.dumps (headerOf (T.shape t) d.name))).length < 2 ^ 32 ∧
      blob = p.ofBytes (leBytes 4 (p.toBytes (p.dumps (headerOf (T.shape t) d.name))).length ++
        p.toBytes (p.dumps (headerOf (T.shape t) d.name)) ++ N.toBytes t) := by
  unfold encodeTensor at h
  obtain ⟨wd, hwd, hrest⟩ := bind_eq_ok.mp h
  obtain ⟨d, rfl⟩ := hN.wireDtype t wd hwd
  refine ⟨d, hwd, ?_⟩
  obtain ⟨d', hd', hrest⟩ := bind_eq_ok.mp hrest
  simp only [wireDtypeOf, WireDtype.ofName_name, Except.ok.injEq] at hd'
  subst hd'
  simp only [expectedPayloadBytes, hN.length t d hwd, ne_eq, not_true, if_false] at hrest
  obtain ⟨frame, hframe, hblob⟩ := bind_eq_ok.mp hrest
  unfold packLength at hframe
  split_ifs at hframe with hlt
  cases hframe
  cases hblob
  exact ⟨hlt, rfl⟩

theorem decodeTensor_frame (hb : p.Bytes) {headerJson : List UInt8} (payload : List UInt8)
    (hlt : headerJson.length < 2 ^ 32) :
    decodeTensor p N (p.ofBytes (leBytes 4 headerJson.length ++ headerJson ++ payload)) =
      p.loads (p.ofBytes headerJson) >>= fun header => decodeBody N header payload := by
  have hframe : leNat (leBytes 4 headerJson.length) = headerJson.length :=
    leNat_leBytes (by simpa using hlt)
  have htake : (leBytes 4 headerJson.length ++ headerJson ++ payload).take 4 =
      leBytes 4 headerJson.length := by
    simp
  have hdrop : (leBytes 4 headerJson.length ++ headerJson ++ payload).drop 4 =
      headerJson ++ payload := by
    simp
  have hpayload : (leBytes 4 headerJson.length ++ headerJson ++ payload).drop
      (4 + headerJson.length) = payload := by
    rw [← List.drop_drop, hdrop, List.drop_left]
  have hlength : (leBytes 4 headerJson.length ++ headerJson ++ payload).length =
      4 + headerJson.length + payload.length := by
    rw [List.length_append, List.length_append, length_leBytes]
  have hlong : ¬ 4 + headerJson.length + payload.length < 4 := by omega
  have hwhole : ¬ 4 + headerJson.length + payload.length < 4 + headerJson.length := by omega
  unfold decodeTensor
  simp only [hb.toBytes_ofBytes, htake, hdrop, hframe, hpayload, hlength, if_neg hlong,
    if_neg hwhole, List.take_left]

theorem decodeBody_header (hN : N.Lawful T) {t : τ} {d : WireDtype}
    (hd : T.wireDtype t = .ok d.name) :
    decodeBody N (headerOf (T.shape t) d.name) (N.toBytes t) = .ok t := by
  have hshape : ((T.shape t).map Json.int).mapM Json.toInt = .ok (T.shape t) :=
    mapM_ok fun n _ => rfl
  have hlength := hN.length t d hd
  simp [decodeBody, headerOf, intEq, wireVersion, Json.eqStr, wireDtypeOf, expectedPayloadBytes,
    hshape, hlength, hN.fromBuffer t d hd, bind, Except.bind]

theorem decodeTensor_encodeTensor (hp : p.Lawful) (hb : p.Bytes) (hN : N.Lawful T) {t : τ}
    {blob : β} (h : encodeTensor p T N t = .ok blob) : decodeTensor p N blob = .ok t := by
  obtain ⟨d, hd, hlt, rfl⟩ := encodeTensor_ok hN h
  have hheader : p.loads (p.dumps (headerOf (T.shape t) d.name)) =
      .ok (headerOf (T.shape t) d.name) :=
    hp.loads_dumps _ (canonical_headerOf _ _)
  rw [decodeTensor_frame hb _ hlt, hb.ofBytes_toBytes, hheader]
  exact decodeBody_header hN hd

end RoundTrip

end TensorIo

import Teuton.JsonBytes
import Teuton.TensorIo

/-! Tensors as bit patterns, and what the tensor codec does to them. NumPy has no bfloat16 and the
wire has no single bits: tensors of these two dtypes are stored as arrays of another dtype and are
turned back when they are read. A blob that is cut short or extended is refused. -/
namespace TensorCodec

open PyJson Signatures GraphEval ByteWords TensorIo

variable {β τ : Type}

inductive NumpyDtype where
  | float32
  | float16
  | uint16
  | int32
  | int64
  | int8
  | uint8
  deriving DecidableEq, Repr

def NumpyDtype.itemsize : NumpyDtype → ℕ
  | float32 => 4
  | float16 => 2
  | uint16 => 2
  | int32 => 4
  | int64 => 8
  | int8 => 1
  | uint8 => 1

@[ext] structure Words (w : ℕ) where
  vals : List ℕ
  fits : ∀ x ∈ vals, x < 256 ^ w

/-- The export `tobytes` of an array in row-major order, and the import `frombuffer`. -/
structure Numpy where
  toBytes : (d : NumpyDtype) → Words d.itemsize → List UInt8
  frombuffer : (d : NumpyDtype) → List UInt8 → Py (Words d.itemsize)

structure Numpy.Lawful (np : Numpy) : Prop where
  length : ∀ d (a : Words d.itemsize), (np.toBytes d a).length = a.vals.length * d.itemsize
  frombuffer : ∀ d (a : Words d.itemsize), np.frombuffer d (np.toBytes d a) = .ok a

def arrayDtype : WireDtype → NumpyDtype
  | .float32 => .float32
  | .float16 => .float16
  | .bfloat16 => .uint16
  | .int32 => .int32
  | .int64 => .int64
  | .int8 => .int8
  | .uint8 => .uint8
  | .bool => .uint8

theorem itemsize_arrayDtype (d : WireDtype) : (arrayDtype d).itemsize = d.bytes := by
  cases d <;> rfl

/-- A tensor of a wire dtype: the bit patterns of its elements in row-major order. A truth value
is the pattern 0 or 1. -/
@[ext] structure Tensor where
  dtype : WireDtype
  shape : List ℕ
  bits : List ℕ
  fits : ∀ x ∈ bits, x < 256 ^ dtype.bytes
  sized : bits.length = shape.prod
  truth : dtype = .bool → ∀ x ∈ bits, x ≤ 1
  deriving DecidableEq

def truthBit (x : ℕ) : ℕ := if x = 0 then 0 else 1

theorem truthBit_le (x : ℕ) : truthBit x ≤ 1 := by
  unfold truthBit
  split_ifs <;> decide

theorem truthBit_of_le {x : ℕ} (h : x ≤ 1) : truthBit x = x := by
  unfold truthBit
  split_ifs <;> omega

/-- What becomes of the elements when a tensor is turned into an array of `arrayDtype`, and when an
array is turned into a tensor: the views as `torch.uint16` and as `torch.bfloat16` keep the bits,
the conversions to `torch.uint8` and to `torch.bool` are by value. -/
def converted (d : WireDtype) (bits : List ℕ) : List ℕ :=
  if d = .bool then bits.map truthBit else bits

theorem length_converted (d : WireDtype) (bits : List ℕ) :
    (converted d bits).length = bits.length := by
  unfold converted
  split_ifs
  · exact List.length_map truthBit
  · rfl

theorem fits_converted (d : WireDtype) {bits : List ℕ} (h : ∀ x ∈ bits, x < 256 ^ d.bytes) :
    ∀ x ∈ converted d bits, x < 256 ^ d.bytes := by
  unfold converted
  split_ifs with hd
  · intro x hx
    obtain ⟨y, -, rfl⟩ := List.mem_map.mp hx
    have hpos : d.bytes ≠ 0 := by cases d <;> decide
    exact lt_of_le_of_lt (truthBit_le y) (Nat.one_lt_pow hpos (by decide))
  · exact h

theorem converted_converted {d : WireDtype} {bits : List ℕ} (h : d = .bool → ∀ x ∈ bits, x ≤ 1) :
    converted d (converted d bits) = bits := by
  unfold converted
  split_ifs with hd
  · have hkeep : ∀ x ∈ bits, truthBit (truthBit x) = x := fun x hx => by
      rw [truthBit_of_le (truthBit_le x), truthBit_of_le (h hd x hx)]
    rw [List.map_map]
    exact (List.map_congr_left hkeep).trans (List.map_id bits)
  · rfl

namespace Tensor

/-- The array `t.numpy()`, after the view or conversion of the two dtypes that need one. -/
def toArray (t : Tensor) : Words (arrayDtype t.dtype).itemsize :=
  ⟨converted t.dtype t.bits, by
    rw [itemsize_arrayDtype]
    exact fits_converted t.dtype t.fits⟩

def ofArray (d : WireDtype) (shape : List ℕ) (a : Words (arrayDtype d).itemsize)
    (h : a.vals.length = shape.prod) : Tensor where
  dtype := d
  shape := shape
  bits := converted d a.vals
  fits := fits_converted d (by
    rw [← itemsize_arrayDtype]
    exact a.fits)
  sized := (length_converted d a.vals).trans h
  truth := by
    intro hd x hx
    rw [converted, if_pos hd] at hx
    obtain ⟨y, -, rfl⟩ := List.mem_map.mp hx
    exact truthBit_le y

theorem ofArray_toArray (t : Tensor) (h : t.toArray.vals.length = t.shape.prod) :
    ofArray t.dtype t.shape t.toArray h = t := by
  apply Tensor.ext
  · rfl
  · rfl
  · exact converted_converted t.truth

end Tensor

section Buffers

variable (np : Numpy)

/-- The call `arr.reshape(shape)`: a negative extent never fits an array whose size was compared
with the product of the extents. -/
def reshape (d : WireDtype) (shape : List ℤ) (a : Words (arrayDtype d).itemsize) : Py Tensor :=
  if h : (∀ n ∈ shape, 0 ≤ n) ∧ a.vals.length = (shape.map Int.toNat).prod then
    .ok (Tensor.ofArray d (shape.map Int.toNat) a h.2)
  else .error (.valueError ("cannot reshape array of size " ++ toString a.vals.length))

def numpyBuffers : Buffers Tensor where
  toBytes := fun t => np.toBytes (arrayDtype t.dtype) t.toArray
  fromBuffer := fun d shape payload => do
    reshape d shape (← np.frombuffer (arrayDtype d) payload)

structure Describes (T : Torch β Tensor) : Prop where
  shape : ∀ t, T.shape t = t.shape.map Int.ofNat
  wireDtype : ∀ t, T.wireDtype t = .ok t.dtype.name

theorem name_injective : Function.Injective WireDtype.name := by
  intro d d' h
  have hsome : some d = some d' := by
    rw [← WireDtype.ofName_name d, ← WireDtype.ofName_name d', h]
  exact Option.some.inj hsome

theorem map_toNat_ofNat (shape : List ℕ) : (shape.map Int.ofNat).map Int.toNat = shape := by
  rw [List.map_map]
  exact List.map_id shape

theorem prod_map_ofNat (shape : List ℕ) : (shape.map Int.ofNat).prod = (shape.prod : ℤ) :=
  (map_list_prod (Nat.castRingHom ℤ) shape).symm

variable {np} {T : Torch β Tensor}

theorem reshape_toArray (t : Tensor) :
    reshape t.dtype (t.shape.map Int.ofNat) t.toArray = .ok t := by
  have hlength : t.toArray.vals.length = t.shape.prod :=
    (length_converted t.dtype t.bits).trans t.sized
  have hshape : (∀ n ∈ t.shape.map Int.ofNat, 0 ≤ n) ∧
      t.toArray.vals.length = ((t.shape.map Int.ofNat).map Int.toNat).prod := by
    constructor
    · intro n hn
      obtain ⟨m, -, rfl⟩ := List.mem_map.mp hn
      exact Int.natCast_nonneg m
    · rw [map_toNat_ofNat, hlength]
  rw [reshape, dif_pos hshape]
  simp only [map_toNat_ofNat, Tensor.ofArray_toArray]

theorem numpyBuffers_lawful (hnp : np.Lawful) (hT : Describes T) :
    (numpyBuffers np).Lawful T where
  wireDtype := by
    intro t wd h
    rw [hT.wireDtype] at h
    exact ⟨t.dtype, Except.ok.inj h⟩
  length := by
    intro t d h
    rw [hT.wireDtype] at h
    obtain rfl := name_injective (Except.ok.inj h)
    have hlength : ((numpyBuffers np).toBytes t).length = t.shape.prod * t.dtype.bytes := by
      rw [numpyBuffers, hnp.length, Tensor.toArray, length_converted, t.sized, itemsize_arrayDtype]
    rw [hT.shape, prod_map_ofNat, hlength, Nat.cast_mul]
  fromBuffer := by
    intro t d h
    rw [hT.wireDtype] at h
    obtain rfl := name_injective (Except.ok.inj h)
    rw [hT.shape, numpyBuffers]
    simp only [hnp.frombuffer, ok_bind, reshape_toArray]

end Buffers

section Refusals

variable {p : Platform β} {T : Torch β τ} {N : Buffers τ}

theorem decodeBody_raises {shape : List ℤ} {d : WireDtype} {payload : List UInt8}
    (h : (payload.length : ℤ) ≠ expectedPayloadBytes shape d) (t : τ) :
    decodeBody N (headerOf shape d.name) payload ≠ .ok t := by
  have hshape : (shape.map Json.int).mapM Json.toInt = .ok shape := mapM_ok fun n _ => rfl
  simp [decodeBody, headerOf, intEq, wireVersion, Json.eqStr, wireDtypeOf, hshape, h, bind,
    Except.bind]

theorem decodeTensor_raises_of_short {blob : β} {frame : List UInt8} {n : ℕ}
    (hframe : p.toBytes blob <+: frame) (hlen : leNat (frame.take 4) = n)
    (hshort : (p.toBytes blob).length < 4 + n) (t : τ) : decodeTensor p N blob ≠ .ok t := by
  unfold decodeTensor
  by_cases hfour : (p.toBytes blob).length < 4
  · simp [hfour, bind, Except.bind]
  · have htake : (p.toBytes blob).take 4 = frame.take 4 := by
      rw [List.prefix_iff_eq_take.mp hframe, List.take_take]
      congr 1
      omega
    simp [hfour, htake, hlen, hshort, bind, Except.bind]

theorem eq_of_decodes (hp : p.Lawful) (hb : p.Bytes) (hN : N.Lawful T) {t t' : τ} {blob other : β}
    (h : encodeTensor p T N t = .ok blob)
    (hor : p.toBytes other <+: p.toBytes blob ∨ p.toBytes blob <+: p.toBytes other)
    (hother : decodeTensor p N other = .ok t') : other = blob := by
  obtain ⟨d, hd, hlt, rfl⟩ := encodeTensor_ok hN h
  set headerJson := p.toBytes (p.dumps (headerOf (T.shape t) d.name)) with hheader
  rw [hb.toBytes_ofBytes] at hor
  have hframe : leNat ((leBytes 4 headerJson.length ++ headerJson ++ N.toBytes t).take 4) =
      headerJson.length := by
    rw [List.append_assoc, List.take_left' (length_leBytes 4 _)]
    exact leNat_leBytes (by simpa using hlt)
  -- Both blobs begin with the whole frame, or the other one breaks off within it.
  have hbegins : leBytes 4 headerJson.length ++ headerJson <+: p.toBytes other := by
    rcases hor with hcut | hext
    · by_cases hshort : (p.toBytes other).length < 4 + headerJson.length
      · exact absurd hother (decodeTensor_raises_of_short hcut hframe hshort t')
      · refine List.prefix_of_prefix_length_le (List.prefix_append _ _) hcut ?_
        rw [List.length_append, length_leBytes]
        exact not_lt.mp hshort
    · exact (List.prefix_append _ _).trans hext
  obtain ⟨payload, hpayload⟩ := hbegins
  have hother' : other = p.ofBytes (leBytes 4 headerJson.length ++ headerJson ++ payload) := by
    rw [hpayload, hb.ofBytes_toBytes]
  have hloads : p.loads (p.ofBytes headerJson) = .ok (headerOf (T.shape t) d.name) := by
    rw [hheader, hb.ofBytes_toBytes]
    exact hp.loads_dumps _ (canonical_headerOf _ _)
  rw [hother', decodeTensor_frame hb payload hlt, hloads, ok_bind] at hother
  have hsize : (payload.length : ℤ) = expectedPayloadBytes (T.shape t) d := by
    by_contra hne
    exact decodeBody_raises hne t' hother
  have hlength : payload.length = (N.toBytes t).length := by
    exact_mod_cast hsize.trans (hN.length t d hd).symm
  rw [← hpayload] at hor
  have hsame : payload = N.toBytes t := by
    rcases hor with hcut | hext
    · exact ((List.prefix_append_right_inj _).mp hcut).eq_of_length hlength
    · exact (((List.prefix_append_right_inj _).mp hext).eq_of_length hlength.symm).symm
  rw [hother', hsame]

theorem encodes_iff (hN : N.Lawful T) {t : τ} {d : WireDtype} (hd : T.wireDtype t = .ok d.name) :
    (∃ blob, encodeTensor p T N t = .ok blob) ↔
      (p.toBytes (p.dumps (headerOf (T.shape t) d.name))).length < 2 ^ 32 := by
  constructor
  · rintro ⟨blob, h⟩
    obtain ⟨d', hd', hlt, -⟩ := encodeTensor_ok hN h
    rw [Except.ok.inj (hd.symm.trans hd')]
    exact hlt
  · intro hlt
    have hlength := hN.length t d hd
    have hpack : packLength (p.toBytes (p.dumps (headerOf (T.shape t) d.name))).length =
        .ok (leBytes 4 (p.toBytes (p.dumps (headerOf (T.shape t) d.name))).length) := if_pos hlt
    simp [encodeTensor, hd, wireDtypeOf, expectedPayloadBytes, hlength, hpack, bind, Except.bind,
      pure, Except.pure]

end Refusals

section Codec

variable {p : Platform β} {T : Torch β Tensor} {np : Numpy}

/-- Unless the length of its header takes more than 32 bits, a tensor of any wire dtype, shape and
bit patterns is encoded and is read back from its blob, and no proper beginning and no proper
extension of the blob is read. -/
theorem tensor_codec_round_trip (hp : p.Lawful) (hb : p.Bytes) (hnp : np.Lawful)
    (hT : Describes T) (t : Tensor) :
    ((∃ blob, encodeTensor p T (numpyBuffers np) t = .ok blob) ↔
      (p.toBytes (p.dumps (headerOf (t.shape.map Int.ofNat) t.dtype.name))).length < 2 ^ 32) ∧
    ∀ blob, encodeTensor p T (numpyBuffers np) t = .ok blob →
      decodeTensor p (numpyBuffers np) blob = .ok t ∧
      ∀ other, other ≠ blob →
        (p.toBytes other <+: p.toBytes blob ∨ p.toBytes blob <+: p.toBytes other) →
        ∃ e, decodeTensor p (numpyBuffers np) other = .error e := by
  have hN := numpyBuffers_lawful hnp hT
  refine ⟨?_, fun blob h => ⟨decodeTensor_encodeTensor hp hb hN h, fun other hne hor => ?_⟩⟩
  · rw [← hT.shape]
    exact encodes_iff hN (hT.wireDtype t)
  · cases hother : decodeTensor p (numpyBuffers np) other with
    | ok t' => exact absurd (eq_of_decodes hp hb hN h hor hother) hne
    | error e => exact ⟨e, rfl⟩

end Codec

section LittleEndian

def wordBytes (w : ℕ) (l : List ℕ) : List UInt8 := l.flatMap (leBytes w)

def readWords (w : ℕ) : ℕ → List UInt8 → List ℕ
  | 0, _ => []
  | n + 1, bytes => leNat (bytes.take w) :: readWords w n (bytes.drop w)

theorem readWords_lt (w n : ℕ) (bytes : List UInt8) : ∀ x ∈ readWords w n bytes, x < 256 ^ w := by
  induction n generalizing bytes with
  | zero => simp [readWords]
  | succ n ih =>
    intro x hx
    rcases List.mem_cons.mp hx with rfl | hx
    · have hlt := leNat_lt (bytes.take w)
      exact lt_of_lt_of_le hlt (Nat.pow_le_pow_right (by decide) (List.length_take_le w bytes))
    · exact ih (bytes.drop w) x hx

theorem length_wordBytes (w : ℕ) (l : List ℕ) : (wordBytes w l).length = l.length * w := by
  induction l with
  | nil => simp [wordBytes]
  | cons x l ih =>
    rw [wordBytes, List.flatMap_cons, List.length_append, length_leBytes, ← wordBytes, ih,
      List.length_cons]
    ring

theorem readWords_wordBytes {w : ℕ} {l : List ℕ} (h : ∀ x ∈ l, x < 256 ^ w) :
    readWords w l.length (wordBytes w l) = l := by
  induction l with
  | nil => rfl
  | cons x l ih =>
    rw [List.forall_mem_cons] at h
    rw [List.length_cons, readWords, wordBytes, List.flatMap_cons,
      List.take_left' (length_leBytes w x), List.drop_left' (length_leBytes w x), leNat_leBytes h.1,
      ← wordBytes, ih h.2]

def littleEndian : Numpy where
  toBytes := fun d a => wordBytes d.itemsize a.vals
  frombuffer := fun d bytes =>
    if bytes.length % d.itemsize = 0 then
      .ok ⟨readWords d.itemsize (bytes.length / d.itemsize) bytes, readWords_lt _ _ _⟩
    else .error (.valueError "buffer size must be a multiple of element size")

theorem littleEndian_lawful : littleEndian.Lawful where
  length := fun d a => length_wordBytes d.itemsize a.vals
  frombuffer := by
    intro d a
    have hpos : 0 < d.itemsize := by cases d <;> decide
    have hwords : readWords d.itemsize a.vals.length (wordBytes d.itemsize a.vals) = a.vals :=
      readWords_wordBytes a.fits
    simp [littleEndian, length_wordBytes, Nat.mul_div_cancel _ hpos, hwords]

end LittleEndian

section Example

def plainTorch (p : Platform β) (np : Numpy) : Torch β Tensor where
  decodeTensor := decodeTensor p (numpyBuffers np)
  asTensor := fun _ => .error .typeError
  shape := fun t => t.shape.map Int.ofNat
  wireDtype := fun t => .ok t.dtype.name
  isFloatingPoint := fun t => t.dtype ∈ [.float32, .float16, .bfloat16]
  dispatch := fun _ => none
  tensorParallel := fun _ _ => .error .typeError
  cat := fun _ _ => .error .typeError
  flatten := id
  numel := fun t => t.shape.prod
  sampleIndices := fun _ _ n => List.range n
  indexSelect := fun _ _ => .error .typeError
  equal := fun t u => .ok (t = u)
  allclose := fun t u _ _ => .ok (t = u)
  maxAbsDiff := fun _ _ => .error .typeError

theorem describes_plainTorch (p : Platform β) (np : Numpy) : Describes (plainTorch p np) where
  shape := fun _ => rfl
  wireDtype := fun _ => rfl

def nanColumn : Tensor where
  dtype := .bfloat16
  shape := [2, 1]
  bits := [0x7fc1, 0x8000]
  fits := by decide
  sized := rfl
  truth := fun h => by cases h

def columnBlob : Py (List UInt8) :=
  encodeTensor JsonBytes.bytePlatform (plainTorch JsonBytes.bytePlatform littleEndian)
    (numpyBuffers littleEndian) nanColumn

theorem nan_column_round_trip :
    ∃ blob, columnBlob = .ok blob ∧
      decodeTensor JsonBytes.bytePlatform (numpyBuffers littleEndian) blob = .ok nanColumn ∧
      ∃ e, decodeTensor JsonBytes.bytePlatform (numpyBuffers littleEndian) (blob ++ [0]) =
        .error e := by
  obtain ⟨hencodes, hdecodes⟩ := tensor_codec_round_trip JsonBytes.bytePlatform_lawful
    JsonBytes.bytePlatform_bytes littleEndian_lawful
    (describes_plainTorch JsonBytes.bytePlatform littleEndian) nanColumn
  obtain ⟨blob, hblob⟩ := hencodes.mpr (by decide +kernel)
  obtain ⟨hback, hothers⟩ := hdecodes blob hblob
  exact ⟨blob, hblob, hback, hothers (blob ++ [0]) (by simp) (Or.inr (List.prefix_append _ _))⟩

end Example

end TensorCodec

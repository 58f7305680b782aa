import Teuton.ByteWords
import Teuton.Signatures

/-! A platform on byte strings that can be run: JSON values as self-delimiting byte strings,
checksums in place of hashes, and a wallet back end whose signatures are determined by identity
and payload. It meets what is documented of the platform functions. -/
namespace JsonBytes

open PyJson Signatures ByteWords

def getChar (bytes : List UInt8) : Option (Char × List UInt8) :=
  (getNat bytes).map fun r => (Char.ofNat r.1, r.2)

def putStr (s : String) : List UInt8 := putList (fun c => putNat c.toNat) s.toList

def getStr (bytes : List UInt8) : Option (String × List UInt8) :=
  (getList getChar bytes).map fun r => (String.ofList r.1, r.2)

def putInt (n : ℤ) : List UInt8 := (if n < 0 then 1 else 0) :: putNat n.natAbs

def getInt : List UInt8 → Option (ℤ × List UInt8)
  | [] => none
  | sign :: bytes => (getNat bytes).map fun r => (if sign = 0 then r.1 else -r.1, r.2)

def putFloat : PyFloat → List UInt8
  | .finite q => 0 :: (putInt q.num ++ putNat q.den)
  | .nan => [1]
  | .inf negative => [if negative then 2 else 3]

def getFloat : List UInt8 → Option (PyFloat × List UInt8)
  | [] => none
  | tag :: bytes =>
    if tag = 0 then do
      let (num, bytes) ← getInt bytes
      let (den, bytes) ← getNat bytes
      return (.finite (mkRat num den), bytes)
    else if tag = 1 then some (.nan, bytes)
    else some (.inf (tag = 2), bytes)

mutual

def putJson : Json → List UInt8
  | .null => [0]
  | .bool b => [1, if b then 1 else 0]
  | .int n => 2 :: putInt n
  | .float x => 3 :: putFloat x
  | .str s => 4 :: putStr s
  | .arr items => 5 :: (putNat items.length ++ putItems items)
  | .obj fields => 6 :: (putNat fields.length ++ putFields fields)

def putItems : List Json → List UInt8
  | [] => []
  | v :: l => putJson v ++ putItems l

def putFields : List (String × Json) → List UInt8
  | [] => []
  | (k, v) :: l => putStr k ++ putJson v ++ putFields l

end

def putField (f : String × Json) : List UInt8 := putStr f.1 ++ putJson f.2

def getField (getValue : List UInt8 → Option (Json × List UInt8)) (bytes : List UInt8) :
    Option ((String × Json) × List UInt8) := do
  let (k, bytes) ← getStr bytes
  let (v, bytes) ← getValue bytes
  return ((k, v), bytes)

def getJson : ℕ → List UInt8 → Option (Json × List UInt8)
  | 0, _ => none
  | _, [] => none
  | fuel + 1, tag :: bytes =>
    if tag = 0 then some (.null, bytes)
    else if tag = 1 then
      match bytes with
      | [] => none
      | b :: bytes => some (.bool (b = 1), bytes)
    else if tag = 2 then (getInt bytes).map fun r => (.int r.1, r.2)
    else if tag = 3 then (getFloat bytes).map fun r => (.float r.1, r.2)
    else if tag = 4 then (getStr bytes).map fun r => (.str r.1, r.2)
    else if tag = 5 then (getList (getJson fuel) bytes).map fun r => (.arr r.1, r.2)
    else (getList (getField (getJson fuel)) bytes).map fun r => (.obj r.1, r.2)

section Scalars

variable (rest : List UInt8)

theorem getStr_putStr (s : String) : getStr (putStr s ++ rest) = some (s, rest) := by
  have hchars : getList getChar (putStr s ++ rest) = some (s.toList, rest) := by
    apply getList_putList
    intro c _ rest
    simp [getChar, getNat_putNat]
  rw [getStr, hchars]
  simp

theorem getInt_putInt (n : ℤ) : getInt (putInt n ++ rest) = some (n, rest) := by
  by_cases hn : n < 0
  · simp only [putInt, if_pos hn, List.cons_append, getInt, getNat_putNat, Option.map_some]
    have habs : -(n.natAbs : ℤ) = n := by omega
    rw [if_neg (by decide), habs]
  · simp only [putInt, if_neg hn, List.cons_append, getInt, getNat_putNat, Option.map_some]
    have habs : (n.natAbs : ℤ) = n := by omega
    rw [if_pos trivial, habs]

theorem getFloat_putFloat (x : PyFloat) : getFloat (putFloat x ++ rest) = some (x, rest) := by
  cases x with
  | finite q =>
    simp [putFloat, getFloat, getInt_putInt, getNat_putNat, Rat.mkRat_self]
  | nan => simp [putFloat, getFloat]
  | inf negative => cases negative <;> simp [putFloat, getFloat]

end Scalars

theorem putItems_eq (l : List Json) : putItems l = l.flatMap putJson := by
  induction l with
  | nil => rfl
  | cons v l ih => rw [putItems, ih, List.flatMap_cons]

theorem putFields_eq (l : List (String × Json)) : putFields l = l.flatMap putField := by
  induction l with
  | nil => rfl
  | cons f l ih => rw [putFields, ih, List.flatMap_cons, putField]

theorem length_le_flatMap {α : Type} (put : α → List UInt8) {a : α} {l : List α} (h : a ∈ l) :
    (put a).length ≤ (l.flatMap put).length := by
  obtain ⟨l₁, l₂, rfl⟩ := List.append_of_mem h
  simp only [List.flatMap_append, List.flatMap_cons, List.length_append]
  omega

mutual

theorem getJson_putJson : (j : Json) → (fuel : ℕ) → (rest : List UInt8) →
    (putJson j).length ≤ fuel → getJson fuel (putJson j ++ rest) = some (j, rest)
  | _, 0, _, h => by
    rename_i j _
    cases j <;> simp [putJson] at h
  | .null, fuel + 1, rest, _ => by simp [putJson, getJson]
  | .bool b, fuel + 1, rest, _ => by cases b <;> simp [putJson, getJson]
  | .int n, fuel + 1, rest, _ => by simp [putJson, getJson, getInt_putInt]
  | .float x, fuel + 1, rest, _ => by simp [putJson, getJson, getFloat_putFloat]
  | .str s, fuel + 1, rest, _ => by simp [putJson, getJson, getStr_putStr]
  | .arr items, fuel + 1, rest, h => by
    have hitems : getList (getJson fuel) (putList putJson items ++ rest) = some (items, rest) := by
      apply getList_putList
      intro v hv rest
      refine getItem_putJson items v hv fuel rest ?_
      have hle := length_le_flatMap putJson hv
      simp only [putJson, putItems_eq, List.length_cons, List.length_append] at h
      omega
    rw [putList, ← putItems_eq] at hitems
    simp only [putJson, List.cons_append, getJson, hitems]
    rfl
  | .obj fields, fuel + 1, rest, h => by
    have hfields : getList (getField (getJson fuel)) (putList putField fields ++ rest) =
        some (fields, rest) := by
      apply getList_putList
      intro f hf rest
      have hle := length_le_flatMap putField hf
      simp only [putJson, putFields_eq, List.length_cons, List.length_append] at h
      have hvalue := getField_putJson fields f hf fuel rest (by
        simp only [putField, List.length_append] at hle
        omega)
      simp [getField, putField, getStr_putStr, hvalue]
    rw [putList, ← putFields_eq] at hfields
    simp only [putJson, List.cons_append, getJson, hfields]
    rfl

theorem getItem_putJson : (l : List Json) → (v : Json) → v ∈ l → (fuel : ℕ) →
    (rest : List UInt8) → (putJson v).length ≤ fuel →
    getJson fuel (putJson v ++ rest) = some (v, rest)
  | [], _, hv, _, _, _ => by cases hv
  | w :: l, v, hv, fuel, rest, h => by
    rcases List.mem_cons.mp hv with heq | hmem
    · rw [heq] at h ⊢
      exact getJson_putJson w fuel rest h
    · exact getItem_putJson l v hmem fuel rest h

theorem getField_putJson : (l : List (String × Json)) → (f : String × Json) → f ∈ l → (fuel : ℕ) →
    (rest : List UInt8) → (putJson f.2).length ≤ fuel →
    getJson fuel (putJson f.2 ++ rest) = some (f.2, rest)
  | [], _, hf, _, _, _ => by cases hf
  | (k, w) :: l, f, hf, fuel, rest, h => by
    rcases List.mem_cons.mp hf with heq | hmem
    · rw [heq] at h ⊢
      exact getJson_putJson w fuel rest h
    · exact getField_putJson l f hmem fuel rest h

end

/-- Two bytes that depend on the content, at the front of a block of `n`. -/
def checksum (n : ℕ) (bytes : List UInt8) : List UInt8 :=
  UInt8.ofNat bytes.length :: bytes.foldl (fun h b => 3 * h + b) 7 :: List.replicate (n - 2) 0

def walletSignature (identity : String) (payload : List UInt8) : List UInt8 :=
  checksum 64 (putStr identity ++ payload)

def bytePlatform : Platform (List UInt8) where
  dumps := putJson
  dumpsUtf8 := putJson
  loads := fun body =>
    match getJson body.length body with
    | some (j, []) => if j.isCanonical then .ok j else .error (.valueError "Expecting value")
    | _ => .error (.valueError "Expecting value")
  toBytes := id
  ofBytes := id
  b64encode := fun b => String.ofList (b.map fun x => Char.ofNat x.toNat)
  b64decode := fun s =>
    if s.toList.all fun c => c.toNat < 256 then .ok (s.toList.map fun c => UInt8.ofNat c.toNat)
    else .error (.valueError "string argument should contain only ASCII characters")
  sha256 := checksum 32
  hmacSha256 := fun secret payload => checksum 32 (putStr secret ++ payload)
  bittensorVerify := fun identity payload sig => .ok (sig = walletSignature identity payload)
  substrateVerify := fun _ _ _ => .error (.runtimeError "No module named 'substrateinterface'")
  naclVerify := fun _ _ _ => .error (.runtimeError "No module named 'nacl'")
  log2 := fun n => Nat.log2 n.toNat

theorem bytePlatform_lawful : bytePlatform.Lawful where
  loads_dumps := by
    intro j hj
    have hread := getJson_putJson j (putJson j).length [] le_rfl
    rw [List.append_nil] at hread
    simp [bytePlatform, hread, (isCanonical_iff j).mpr hj]
  loads_canonical := by
    intro body j h
    simp only [bytePlatform] at h
    split at h
    · split_ifs at h with hcanonical
      cases h
      exact (isCanonical_iff j).mp hcanonical
    · cases h
  hmac_length := fun secret payload => by simp [bytePlatform, checksum]
  bittensor_length := by
    intro identity payload sig h
    have hsig : sig = walletSignature identity payload := by simpa [bytePlatform] using h
    simp [hsig, walletSignature, checksum]
  substrate_length := fun identity payload sig h => by cases h
  nacl_length := fun identity payload sig h => by cases h

theorem bytePlatform_bytes : bytePlatform.Bytes where
  toBytes_ofBytes := fun l => rfl
  ofBytes_toBytes := fun b => rfl
  b64decode_b64encode := by
    intro b
    have hchar (x : UInt8) : (Char.ofNat x.toNat).toNat = x.toNat := by
      have hx : x.toNat < 256 := x.toNat_lt
      have hvalid : x.toNat.isValidChar := Or.inl (by omega)
      rw [Char.ofNat, dif_pos hvalid]
      rfl
    have hsmall : ∀ x ∈ b, x.toNat < 256 := fun x _ => x.toNat_lt
    simpa [bytePlatform, hchar, Function.comp_def] using hsmall

def freePlatform : Platform (List UInt8) := { bytePlatform with sha256 := id }

theorem freePlatform_lawful : freePlatform.Lawful where
  loads_dumps := bytePlatform_lawful.loads_dumps
  loads_canonical := bytePlatform_lawful.loads_canonical
  hmac_length := bytePlatform_lawful.hmac_length
  bittensor_length := bytePlatform_lawful.bittensor_length
  substrate_length := bytePlatform_lawful.substrate_length
  nacl_length := bytePlatform_lawful.nacl_length

theorem freePlatform_bytes : freePlatform.Bytes where
  toBytes_ofBytes := bytePlatform_bytes.toBytes_ofBytes
  ofBytes_toBytes := bytePlatform_bytes.ofBytes_toBytes
  b64decode_b64encode := bytePlatform_bytes.b64decode_b64encode

theorem sha256Hex_freePlatform : Function.Injective (sha256Hex freePlatform) := by
  intro x y h
  have hchars : PyText.hexChars x = PyText.hexChars y := by
    simpa [sha256Hex, PyText.hexEncode, freePlatform] using congrArg String.toList h
  have hbytes := congrArg PyText.fromHex hchars
  rw [PyText.fromHex_hexChars, PyText.fromHex_hexChars] at hbytes
  exact Option.some.inj hbytes

end JsonBytes

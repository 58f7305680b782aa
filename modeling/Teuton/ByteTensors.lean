import Teuton.AuditReplay
import Teuton.JsonBytes
import Teuton.TensorIo

/-! Libraries on byte strings that can be run: vectors of bytes as the only tensors, stored with
the tensor codec on the byte platform. -/
namespace ByteTensors

open PyJson Signatures JsonBytes GraphEval TensorIo AuditReplay

def byteBuffers : Buffers (List UInt8) where
  toBytes := id
  fromBuffer := fun d shape payload =>
    if d = .uint8 ∧ shape = [(payload.length : ℤ)] then .ok payload
    else .error (.valueError "cannot reshape array")

/-- A tensor of one byte for a number; the distributed runner passes its inputs on. -/
def byteTorch : Torch (List UInt8) (List UInt8) where
  decodeTensor := decodeTensor bytePlatform byteBuffers
  asTensor := fun j => do return [UInt8.ofNat (← j.toInt).toNat]
  shape := fun t => [(t.length : ℤ)]
  wireDtype := fun _ => .ok "uint8"
  isFloatingPoint := fun _ => false
  dispatch := fun _ => none
  tensorParallel := fun inputs _ => .ok inputs
  cat := fun shards _ => .ok shards.flatten
  flatten := id
  numel := List.length
  sampleIndices := fun _ _ n => List.range n
  indexSelect := fun t idx => .ok (idx.map fun i => t.getD i 0)
  equal := fun t u => .ok (t == u)
  allclose := fun t u _ _ => .ok (t == u)
  maxAbsDiff := fun _ _ => .ok (.finite 1)

theorem byteBuffers_lawful : byteBuffers.Lawful byteTorch where
  wireDtype := by
    intro t wd h
    cases h
    exact ⟨.uint8, rfl⟩
  length := by
    intro t d h
    have hname : "uint8" = d.name := Except.ok.inj h
    have hd : WireDtype.ofName "uint8" = some d := by rw [hname, WireDtype.ofName_name]
    cases hd
    simp [byteBuffers, byteTorch, WireDtype.bytes]
  fromBuffer := by
    intro t d h
    have hname : "uint8" = d.name := Except.ok.inj h
    have hd : WireDtype.ofName "uint8" = some d := by rw [hname, WireDtype.ofName_name]
    cases hd
    simp [byteBuffers, byteTorch]

def byteLibraries : Libraries (List UInt8) (List UInt8) where
  platform := bytePlatform
  torch := byteTorch
  timelock := { encrypt := fun body _ _ => .ok body, decrypt := fun body _ _ => .ok body }

end ByteTensors

import Mathlib.Data.Nat.Notation
import Mathlib.Tactic.Ring

/-! Byte strings that are read from the front: little-endian words of a fixed number of bytes,
and self-delimiting numbers and sequences. A reader returns what it has read and the bytes that
are left. -/
namespace ByteWords

def leBytes : ℕ → ℕ → List UInt8
  | 0, _ => []
  | w + 1, n => UInt8.ofNat n :: leBytes w (n / 256)

def leNat : List UInt8 → ℕ
  | [] => 0
  | b :: l => b.toNat + 256 * leNat l

@[simp] theorem length_leBytes (w n : ℕ) : (leBytes w n).length = w := by
  induction w generalizing n with
  | zero => rfl
  | succ w ih => simp [leBytes, ih]

theorem leNat_leBytes {w n : ℕ} (h : n < 256 ^ w) : leNat (leBytes w n) = n := by
  induction w generalizing n with
  | zero =>
    have hn : n = 0 := by simpa using h
    simp [leBytes, leNat, hn]
  | succ w ih =>
    have hrest : n / 256 < 256 ^ w := by
      rw [pow_succ] at h
      omega
    have hbyte : (UInt8.ofNat n).toNat = n % 256 := by simp
    rw [leBytes, leNat, ih hrest, hbyte]
    omega

theorem leNat_lt (l : List UInt8) : leNat l < 256 ^ l.length := by
  induction l with
  | nil => simp [leNat]
  | cons b l ih =>
    have hb : b.toNat < 256 := b.toNat_lt
    rw [leNat, List.length_cons, pow_succ]
    omega

/-- Seven bits in each byte, least significant first; the top bit says that more follow. The
first argument bounds the recursion. -/
def varintFrom : ℕ → ℕ → List UInt8
  | 0, _ => []
  | fuel + 1, n =>
    if n < 128 then [UInt8.ofNat n]
    else UInt8.ofNat (128 + n % 128) :: varintFrom fuel (n / 128)

def putNat (n : ℕ) : List UInt8 := varintFrom (n + 1) n

def getNat : List UInt8 → Option (ℕ × List UInt8)
  | [] => none
  | b :: l =>
    if b.toNat < 128 then some (b.toNat, l)
    else (getNat l).map fun r => (b.toNat - 128 + 128 * r.1, r.2)

theorem getNat_varintFrom {fuel n : ℕ} (h : n < fuel) (rest : List UInt8) :
    getNat (varintFrom fuel n ++ rest) = some (n, rest) := by
  induction fuel generalizing n with
  | zero => omega
  | succ fuel ih =>
    by_cases hn : n < 128
    · have hbyte : (UInt8.ofNat n).toNat = n := by
        simp
        omega
      simp [varintFrom, getNat, hn, hbyte]
    · have hbyte : (UInt8.ofNat (128 + n % 128)).toNat = 128 + n % 128 := by
        simp
        omega
      have hrest := ih (n := n / 128) (by omega)
      have hlarge : ¬ 128 + n % 128 < 128 := by omega
      have hvalue : 128 + n % 128 - 128 + 128 * (n / 128) = n := by omega
      rw [varintFrom, if_neg hn, List.cons_append, getNat, hbyte, if_neg hlarge, hrest,
        Option.map_some, hvalue]

theorem getNat_putNat (n : ℕ) (rest : List UInt8) : getNat (putNat n ++ rest) = some (n, rest) :=
  getNat_varintFrom n.lt_succ_self rest

section Sequences

variable {α : Type} {get : List UInt8 → Option (α × List UInt8)} {put : α → List UInt8}

def getMany (get : List UInt8 → Option (α × List UInt8)) :
    ℕ → List UInt8 → Option (List α × List UInt8)
  | 0, bytes => some ([], bytes)
  | n + 1, bytes => do
    let (a, bytes) ← get bytes
    let (l, bytes) ← getMany get n bytes
    return (a :: l, bytes)

def putList (put : α → List UInt8) (l : List α) : List UInt8 := putNat l.length ++ l.flatMap put

def getList (get : List UInt8 → Option (α × List UInt8)) (bytes : List UInt8) :
    Option (List α × List UInt8) := do
  let (n, bytes) ← getNat bytes
  getMany get n bytes

theorem getMany_flatMap {l : List α} (h : ∀ a ∈ l, ∀ rest, get (put a ++ rest) = some (a, rest))
    (rest : List UInt8) : getMany get l.length (l.flatMap put ++ rest) = some (l, rest) := by
  induction l with
  | nil => rfl
  | cons a l ih =>
    have ha := h a List.mem_cons_self (l.flatMap put ++ rest)
    have hl := ih fun b hb => h b (List.mem_cons_of_mem a hb)
    simp only [List.flatMap_cons, List.append_assoc, List.length_cons, getMany, ha, hl,
      Option.bind_eq_bind, Option.bind_some]
    rfl

theorem getList_putList {l : List α} (h : ∀ a ∈ l, ∀ rest, get (put a ++ rest) = some (a, rest))
    (rest : List UInt8) : getList get (putList put l ++ rest) = some (l, rest) := by
  rw [getList, putList, List.append_assoc, getNat_putNat]
  exact getMany_flatMap h rest

end Sequences

end ByteWords

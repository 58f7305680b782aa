import Mathlib.Data.List.Infix
import Mathlib.Data.String.Basic

/-! Python string operations on Lean strings, defined through character lists so that they
compute in the kernel. Decimal digits are the ASCII ones. -/
namespace PyText

def startsWith (s pre : String) : Bool := pre.toList.isPrefixOf s.toList

def endsWith (s suffix : String) : Bool := suffix.toList.isSuffixOf s.toList

def replaceChar (a b : Char) (s : String) : String :=
  String.ofList (s.toList.map fun c => if c = a then b else c)

def split (c : Char) (s : String) : List String := (s.toList.splitOn c).map String.ofList

/-- Characters that `str.strip` removes. -/
def isSpace (c : Char) : Bool :=
  let n := c.toNat
  (9 ≤ n && n ≤ 13) || (28 ≤ n && n ≤ 32) || n == 0x85 || n == 0xa0 || n == 0x1680 ||
    (0x2000 ≤ n && n ≤ 0x200a) || n == 0x2028 || n == 0x2029 || n == 0x202f || n == 0x205f ||
    n == 0x3000

/-- Characters that `bytes.fromhex` skips between two bytes. -/
def isAsciiSpace (c : Char) : Bool :=
  let n := c.toNat
  (9 ≤ n && n ≤ 13) || n == 32

def isAscii (s : String) : Bool := s.toList.all fun c => c.toNat < 128

def strip (l : List Char) : List Char :=
  ((l.dropWhile isSpace).reverse.dropWhile isSpace).reverse

def digitsToNat (ds : List Char) : ℕ :=
  ds.foldl (fun n c => 10 * n + (c.toNat - '0'.toNat)) 0

/-- Digits with single underscores between them, as `int` accepts in a string. -/
def pyDigits : List Char → Option (List Char)
  | [] => none
  | [c] => if c.isDigit then some [c] else none
  | c :: '_' :: l => if c.isDigit then (pyDigits l).map (c :: ·) else none
  | c :: l => if c.isDigit then (pyDigits l).map (c :: ·) else none

def intOfStr (s : String) : Option ℤ :=
  match strip s.toList with
  | '-' :: l => (pyDigits l).map fun ds => -(digitsToNat ds : ℤ)
  | '+' :: l => (pyDigits l).map fun ds => (digitsToNat ds : ℤ)
  | l => (pyDigits l).map fun ds => (digitsToNat ds : ℤ)

def hexDigit (n : ℕ) : Char := if n < 10 then Char.ofNat (48 + n) else Char.ofNat (87 + n)

def hexValue (c : Char) : Option ℕ :=
  let n := c.toNat
  if 48 ≤ n ∧ n ≤ 57 then some (n - 48)
  else if 97 ≤ n ∧ n ≤ 102 then some (n - 87)
  else if 65 ≤ n ∧ n ≤ 70 then some (n - 55)
  else none

def hexChars : List UInt8 → List Char
  | [] => []
  | b :: bytes => hexDigit (b.toNat / 16) :: hexDigit (b.toNat % 16) :: hexChars bytes

def hexEncode (bytes : List UInt8) : String := String.ofList (hexChars bytes)

def fromHex : List Char → Option (List UInt8)
  | [] => some []
  | [c] => if isAsciiSpace c then some [] else none
  | c :: d :: l =>
    if isAsciiSpace c then fromHex (d :: l)
    else
      match hexValue c, hexValue d with
      | some x, some y => (fromHex l).map (UInt8.ofNat (16 * x + y) :: ·)
      | _, _ => none

theorem hexDigit_facts : ∀ n < 16, hexValue (hexDigit n) = some n ∧
    isAsciiSpace (hexDigit n) = false ∧ (hexDigit n).toNat < 128 ∧ hexDigit n ≠ 'x' := by
  decide

theorem hexDigit_high (b : UInt8) : b.toNat / 16 < 16 := by
  have := b.toNat_lt
  omega

theorem fromHex_hexChars (bytes : List UInt8) : fromHex (hexChars bytes) = some bytes := by
  induction bytes with
  | nil => rfl
  | cons b bytes ih =>
    obtain ⟨hv, hs, -, -⟩ := hexDigit_facts (b.toNat / 16) (hexDigit_high b)
    obtain ⟨hw, -, -, -⟩ := hexDigit_facts (b.toNat % 16) (Nat.mod_lt _ (by decide))
    have hb : UInt8.ofNat (16 * (b.toNat / 16) + b.toNat % 16) = b := by
      rw [Nat.div_add_mod]
      exact UInt8.ofNat_toNat
    simp [hexChars, fromHex, hs, hv, hw, ih, hb]

theorem isAscii_hexEncode (bytes : List UInt8) : isAscii (hexEncode bytes) := by
  simp only [isAscii, hexEncode, String.toList_ofList]
  induction bytes with
  | nil => rfl
  | cons b bytes ih =>
    obtain ⟨-, -, h₁, -⟩ := hexDigit_facts (b.toNat / 16) (hexDigit_high b)
    obtain ⟨-, -, h₂, -⟩ := hexDigit_facts (b.toNat % 16) (Nat.mod_lt _ (by decide))
    simp [hexChars, h₁, h₂, ih]

theorem replaceChar_not_mem {a b : Char} (h : a ≠ b) (s : String) :
    a ∉ (replaceChar a b s).toList := by
  simp only [replaceChar, String.toList_ofList, List.mem_map, not_exists, not_and]
  intro c _ hc
  split_ifs at hc with h'
  · exact h hc.symm
  · exact h' hc

theorem cut_at_last {c : Char} {x y x' y' : List Char} (hy : c ∉ y) (hy' : c ∉ y')
    (h : x ++ c :: y = x' ++ c :: y') : x = x' ∧ y = y' := by
  rcases List.append_eq_append_iff.mp h with ⟨mid, rfl, hmid⟩ | ⟨mid, rfl, hmid⟩
  · cases mid with
    | nil => simpa using hmid
    | cons d mid =>
      obtain ⟨-, rfl⟩ := List.cons.inj hmid
      simp at hy
  · cases mid with
    | nil => simpa using hmid.symm
    | cons d mid =>
      obtain ⟨-, rfl⟩ := List.cons.inj hmid
      simp at hy'

theorem isPrefix_up_to_last {c : Char} {pre x y : List Char} (hy : c ∉ y) :
    pre ++ [c] <+: x ++ c :: y ↔ pre ++ [c] <+: x ++ [c] := by
  have hextend : x ++ c :: y = (x ++ [c]) ++ y := by simp
  constructor
  · rintro ⟨rest, h⟩
    rw [List.append_assoc] at h
    rcases List.append_eq_append_iff.mp h with ⟨mid, rfl, hmid⟩ | ⟨mid, rfl, hmid⟩
    · cases mid with
      | nil => simp
      | cons d mid =>
        obtain ⟨rfl, -⟩ := List.cons.inj hmid
        exact ⟨mid ++ [c], by simp⟩
    · cases mid with
      | nil => simp
      | cons d mid =>
        obtain ⟨-, rfl⟩ := List.cons.inj hmid
        simp at hy
  · intro h
    rw [hextend]
    exact h.trans (List.prefix_append _ _)

theorem startsWith_iff {s pre : String} :
    startsWith s pre = true ↔ ∃ rest, s.toList = pre.toList ++ rest := by
  rw [startsWith, List.isPrefixOf_iff_prefix]
  exact exists_congr fun rest => eq_comm

theorem startsWith_append (pre rest : String) : startsWith (pre ++ rest) pre = true :=
  startsWith_iff.mpr ⟨rest.toList, String.toList_append⟩

theorem endsWith_self (s : String) : endsWith s s = true := by
  rw [endsWith, List.isSuffixOf_iff_suffix]

theorem endsWith_append_right (pre : String) {s suffix : String}
    (h : endsWith s suffix = true) : endsWith (pre ++ s) suffix = true := by
  rw [endsWith, List.isSuffixOf_iff_suffix] at h ⊢
  rw [String.toList_append]
  exact h.trans (List.suffix_append _ _)

theorem not_startsWith_both {s pre : String} {c d : Char} {x y : String} (hne : c ≠ d)
    (hx : startsWith s (pre ++ String.singleton c ++ x) = true) :
    startsWith s (pre ++ String.singleton d ++ y) = false := by
  by_contra hy
  obtain ⟨u, hu⟩ := startsWith_iff.mp hx
  obtain ⟨v, hv⟩ := startsWith_iff.mp (Bool.eq_true_of_not_eq_false hy)
  rw [hu] at hv
  simp only [String.toList_append, String.toList_singleton, List.append_assoc] at hv
  have hcons := List.append_cancel_left hv
  exact hne (List.cons.inj hcons).1

theorem split_append (x y : String) : split '/' (x ++ "/" ++ y) = split '/' x ++ split '/' y := by
  have h : (x ++ "/" ++ y).toList = x.toList ++ '/' :: y.toList := by
    simp [String.toList_append]
  have hsplit := List.splitOnP_append_cons (p := (· == '/')) x.toList y.toList
    (beq_self_eq_true '/')
  rw [split, h, List.splitOn, hsplit, List.map_append]
  rfl

theorem split_of_not_mem {x : String} (h : '/' ∉ x.toList) : split '/' x = [x] := by
  have hsplit := @List.splitOn_intercalate _ [x.toList] _ _ '/' (by simpa using h) (by simp)
  rw [List.intercalate_singleton] at hsplit
  rw [split, hsplit]
  simp

theorem mem_toString_nat {c : Char} {n : ℕ} (h : c ∈ (toString n).toList) : c.isDigit = true := by
  rw [Nat.toString_eq_repr, Nat.toList_repr] at h
  exact Nat.isDigit_of_mem_toDigits (by decide) (by decide) h

theorem toString_nat_injective : Function.Injective (toString : ℕ → String) := by
  intro m n h
  have hlist := congrArg String.toList h
  rw [Nat.toString_eq_repr, Nat.toString_eq_repr, Nat.toList_repr, Nat.toList_repr] at hlist
  have hvalue := congrArg (Nat.ofDigitChars 10 · 0) hlist
  simpa using hvalue

theorem mem_toString_int {c : Char} {n : ℤ} (h : c ∈ (toString n).toList) :
    c = '-' ∨ c.isDigit = true := by
  cases n with
  | ofNat m => exact Or.inr (mem_toString_nat h)
  | negSucc m =>
    have htext : (toString (Int.negSucc m)).toList = '-' :: (toString (m + 1)).toList := by
      change ("-" ++ toString (m + 1)).toList = _
      rw [String.toList_append]
      rfl
    rw [htext, List.mem_cons] at h
    exact h.imp_right mem_toString_nat

def bigEndian (bytes : List UInt8) : ℕ := bytes.foldl (fun n b => 256 * n + b.toNat) 0

def isInText (part s : String) : Bool := s.toList.tails.any (part.toList.isPrefixOf ·)

end PyText

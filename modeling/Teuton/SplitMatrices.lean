import Mathlib.Algebra.BigOperators.Group.Finset.Basic
import Mathlib.Algebra.BigOperators.Ring.Finset

/-! Matrices whose sizes are known only when a program runs, and their split into consecutive
parts of sizes that differ by one at most. A matrix is zero outside its sizes, so that it is
determined by its sizes and its entries. -/

/-! ### Parts of a range -/

namespace Parts

/-- The first parts are longer by one if the width is not a multiple of the number of parts. -/
def size (width parts i : ℕ) : ℕ := width / parts + if i < width % parts then 1 else 0

def start (width parts i : ℕ) : ℕ := i * (width / parts) + min i (width % parts)

variable {width parts i : ℕ}

theorem start_zero : start width parts 0 = 0 := by simp [start]

theorem start_succ : start width parts (i + 1) = start width parts i + size width parts i := by
  unfold start size
  rw [Nat.add_mul, Nat.one_mul]
  split_ifs <;> omega

theorem start_all (h : 0 < parts) : start width parts parts = width := by
  have hmod : width % parts < parts := Nat.mod_lt _ h
  rw [start, Nat.min_eq_right hmod.le]
  exact Nat.div_add_mod width parts

theorem start_mono (width parts : ℕ) {i k : ℕ} (h : i ≤ k) :
    start width parts i ≤ start width parts k := by
  induction h with
  | refl => exact le_rfl
  | step _ ih =>
    rw [start_succ]
    omega

theorem lt_width (hi : i < parts) {j : ℕ} (hj : j < size width parts i) :
    start width parts i + j < width := by
  have hend := start_mono width parts (Nat.succ_le_of_lt hi)
  rw [start_succ, start_all (by omega)] at hend
  omega

theorem size_of_dvd (h : parts ∣ width) : size width parts i = width / parts := by
  rw [size, Nat.mod_eq_zero_of_dvd h, if_neg (Nat.not_lt_zero i), Nat.add_zero]

theorem size_eq_width (h : parts ∣ width) (hparts : 0 < parts) :
    size width parts i = width ↔ parts = 1 ∨ width = 0 := by
  rw [size_of_dvd h]
  obtain ⟨k, rfl⟩ := h
  rw [Nat.mul_div_cancel_left k hparts]
  constructor
  · intro hk
    rcases Nat.eq_zero_or_pos k with rfl | hpos
    · exact .inr (Nat.mul_zero parts)
    · refine .inl (Nat.eq_of_mul_eq_mul_right hpos ?_)
      rw [Nat.one_mul, ← hk]
  · rintro (rfl | hzero)
    · exact (Nat.one_mul k).symm
    · rcases Nat.mul_eq_zero.mp hzero with hp | rfl
      · omega
      · exact (Nat.mul_zero parts).symm

theorem size_one : size width 1 0 = width := by simp [size, Nat.mod_one]

theorem sum_start {M : Type*} [AddCommMonoid M] (f : ℕ → M) (m : ℕ) :
    ∑ t ∈ Finset.range (start width parts m), f t = ∑ i ∈ Finset.range m,
      ∑ j ∈ Finset.range (size width parts i), f (start width parts i + j) := by
  induction m with
  | zero => rw [start_zero, Finset.sum_range_zero, Finset.sum_range_zero]
  | succ m ih => rw [start_succ, Finset.sum_range_add, ih, Finset.sum_range_succ]

theorem sum_parts {M : Type*} [AddCommMonoid M] (h : 0 < parts) (f : ℕ → M) :
    ∑ t ∈ Finset.range width, f t = ∑ i ∈ Finset.range parts,
      ∑ j ∈ Finset.range (size width parts i), f (start width parts i + j) := by
  rw [← sum_start, start_all h]

theorem exists_size_ne {width' : ℕ} (h : 0 < parts) (hne : width ≠ width') :
    ∃ i < parts, size width parts i ≠ size width' parts i := by
  by_contra hall
  push Not at hall
  refine hne ?_
  have hwidth : ∀ w, ∑ i ∈ Finset.range parts, size w parts i = w := by
    intro w
    simpa using (sum_parts (M := ℕ) h fun _ => 1).symm
  rw [← hwidth width, ← hwidth width']
  exact Finset.sum_congr rfl fun i hi => hall i (Finset.mem_range.mp hi)

end Parts

@[ext] structure Mat (R : Type) [Zero R] where
  rows : ℕ
  cols : ℕ
  get : ℕ → ℕ → R
  outside : ∀ i j, rows ≤ i ∨ cols ≤ j → get i j = 0

namespace Mat

variable {R : Type}

section Zero

variable [Zero R]

def ofFn (rows cols : ℕ) (f : ℕ → ℕ → R) : Mat R where
  rows := rows
  cols := cols
  get := fun i j => if i < rows ∧ j < cols then f i j else 0
  outside := by
    intro i j h
    rw [if_neg]
    omega

variable {rows cols i j : ℕ} {f : ℕ → ℕ → R}

@[simp] theorem rows_ofFn : (ofFn rows cols f).rows = rows := rfl

@[simp] theorem cols_ofFn : (ofFn rows cols f).cols = cols := rfl

theorem get_ofFn (hi : i < rows) (hj : j < cols) : (ofFn rows cols f).get i j = f i j :=
  if_pos ⟨hi, hj⟩

theorem ext_of_lt {A B : Mat R} (hrows : A.rows = B.rows) (hcols : A.cols = B.cols)
    (h : ∀ i < A.rows, ∀ j < A.cols, A.get i j = B.get i j) : A = B := by
  refine Mat.ext hrows hcols (funext fun i => funext fun j => ?_)
  by_cases hin : i < A.rows ∧ j < A.cols
  · exact h i hin.1 j hin.2
  · rw [A.outside i j (by omega), B.outside i j (by omega)]

theorem eq_ofFn {A : Mat R} (hrows : A.rows = rows) (hcols : A.cols = cols)
    (h : ∀ i < rows, ∀ j < cols, A.get i j = f i j) : A = ofFn rows cols f := by
  subst hrows hcols
  refine ext_of_lt rfl rfl fun i hi j hj => ?_
  rw [get_ofFn hi hj, h i hi j hj]

def map (g : R → R) (A : Mat R) : Mat R := ofFn A.rows A.cols fun i j => g (A.get i j)

def zipWith (op : R → R → R) (A B : Mat R) : Mat R :=
  ofFn A.rows A.cols fun i j => op (A.get i j) (B.get i j)

def transpose (A : Mat R) : Mat R := ofFn A.cols A.rows fun i j => A.get j i

def hcat (A B : Mat R) : Mat R :=
  ofFn A.rows (A.cols + B.cols) fun i j =>
    if j < A.cols then A.get i j else B.get i (j - A.cols)

def hcatAll : List (Mat R) → Mat R
  | [] => ofFn 0 0 fun _ _ => 0
  | A :: l => l.foldl hcat A

def colsPart (A : Mat R) (parts i : ℕ) : Mat R :=
  ofFn A.rows (Parts.size A.cols parts i) fun r c => A.get r (Parts.start A.cols parts i + c)

def rowsPart (A : Mat R) (parts i : ℕ) : Mat R :=
  ofFn (Parts.size A.rows parts i) A.cols fun r c => A.get (Parts.start A.rows parts i + r) c

def firstCols (A : Mat R) (c : ℕ) : Mat R := ofFn A.rows c A.get

variable {A B : Mat R} {parts : ℕ}

@[simp] theorem rows_colsPart : (A.colsPart parts i).rows = A.rows := rfl

@[simp] theorem cols_colsPart : (A.colsPart parts i).cols = Parts.size A.cols parts i := rfl

@[simp] theorem rows_rowsPart : (A.rowsPart parts i).rows = Parts.size A.rows parts i := rfl

@[simp] theorem cols_rowsPart : (A.rowsPart parts i).cols = A.cols := rfl

variable {c : ℕ} {g : R → R} {op : R → R → R}

@[simp] theorem rows_map : (A.map g).rows = A.rows := rfl

@[simp] theorem cols_map : (A.map g).cols = A.cols := rfl

@[simp] theorem rows_zipWith : (zipWith op A B).rows = A.rows := rfl

@[simp] theorem cols_zipWith : (zipWith op A B).cols = A.cols := rfl

@[simp] theorem rows_transpose : A.transpose.rows = A.cols := rfl

@[simp] theorem cols_transpose : A.transpose.cols = A.rows := rfl

theorem get_ofFn_of_zero (h : rows ≤ i ∨ cols ≤ j → f i j = 0) :
    (ofFn rows cols f).get i j = f i j := by
  by_cases hin : i < rows ∧ j < cols
  · exact if_pos hin
  · rw [(ofFn rows cols f).outside i j (by rw [rows_ofFn, cols_ofFn]; omega), h (by omega)]

@[simp] theorem get_transpose : A.transpose.get i j = A.get j i :=
  get_ofFn_of_zero fun h => A.outside j i h.symm

theorem get_colsPart {r : ℕ} (hc : c < Parts.size A.cols parts i) :
    (A.colsPart parts i).get r c = A.get r (Parts.start A.cols parts i + c) :=
  get_ofFn_of_zero fun h => A.outside _ _ (.inl (by omega))

theorem get_rowsPart {r : ℕ} (hr : r < Parts.size A.rows parts i) :
    (A.rowsPart parts i).get r c = A.get (Parts.start A.rows parts i + r) c :=
  get_ofFn_of_zero fun h => A.outside _ _ (.inr (by omega))

theorem get_map (hi : i < A.rows) (hj : j < A.cols) :
    (A.map g).get i j = g (A.get i j) := get_ofFn hi hj

theorem get_zipWith (hi : i < A.rows) (hj : j < A.cols) :
    (zipWith op A B).get i j = op (A.get i j) (B.get i j) := get_ofFn hi hj

theorem colsPart_one : A.colsPart 1 0 = A := by
  refine ext_of_lt rfl Parts.size_one fun i _ j hj => ?_
  rw [get_colsPart hj, Parts.start_zero, Nat.zero_add]

theorem rowsPart_one : A.rowsPart 1 0 = A := by
  refine ext_of_lt Parts.size_one rfl fun i hi j _ => ?_
  rw [get_rowsPart hi, Parts.start_zero, Nat.zero_add]

theorem colsPart_eq_self (h : parts ∣ A.cols) (hparts : 0 < parts) :
    A.colsPart parts 0 = A ↔ parts = 1 ∨ A.cols = 0 := by
  rw [← Parts.size_eq_width h hparts (i := 0)]
  constructor
  · intro heq
    rw [← cols_colsPart, heq]
  · intro hsize
    refine ext_of_lt rfl hsize fun r _ c hc => ?_
    rw [get_colsPart hc, Parts.start_zero, Nat.zero_add]

theorem rowsPart_eq_self (h : parts ∣ A.rows) (hparts : 0 < parts) :
    A.rowsPart parts 0 = A ↔ parts = 1 ∨ A.rows = 0 := by
  rw [← Parts.size_eq_width h hparts (i := 0)]
  constructor
  · intro heq
    rw [← rows_rowsPart, heq]
  · intro hsize
    refine ext_of_lt hsize rfl fun r hr c _ => ?_
    rw [get_rowsPart hr, Parts.start_zero, Nat.zero_add]

theorem transpose_rowsPart : (A.rowsPart parts i).transpose = A.transpose.colsPart parts i := by
  refine ext_of_lt rfl rfl fun r _ c hc => ?_
  rw [get_transpose, get_rowsPart hc, get_colsPart hc, get_transpose, cols_transpose]

theorem transpose_colsPart : (A.colsPart parts i).transpose = A.transpose.rowsPart parts i := by
  refine ext_of_lt rfl rfl fun r hr c _ => ?_
  rw [get_transpose, get_colsPart hr, get_rowsPart hr, get_transpose, rows_transpose]

theorem map_colsPart (hi : i < parts) :
    (A.colsPart parts i).map g = (A.map g).colsPart parts i := by
  refine ext_of_lt rfl rfl fun r hr c hc => ?_
  replace hr : r < A.rows := hr
  replace hc : c < Parts.size A.cols parts i := hc
  rw [get_map (A := A.colsPart parts i) hr hc, get_colsPart hc, get_colsPart (A := A.map g) hc,
    cols_map, get_map hr (Parts.lt_width hi hc)]

theorem zipWith_colsPart (hi : i < parts) (hcols : B.cols = A.cols) :
    zipWith op (A.colsPart parts i) (B.colsPart parts i) =
      (zipWith op A B).colsPart parts i := by
  refine ext_of_lt rfl rfl fun r hr c hc => ?_
  replace hr : r < A.rows := hr
  replace hc : c < Parts.size A.cols parts i := hc
  rw [get_zipWith (A := A.colsPart parts i) hr hc, get_colsPart hc, get_colsPart (by rwa [hcols]),
    get_colsPart (A := zipWith op A B) hc, cols_zipWith, get_zipWith hr (Parts.lt_width hi hc),
    hcols]

/-! #### Side by side -/

theorem firstCols_self : A.firstCols A.cols = A :=
  (eq_ofFn rfl rfl fun _ _ _ _ => rfl).symm

theorem get_firstCols (hj : j < c) : (A.firstCols c).get i j = A.get i j :=
  get_ofFn_of_zero fun h => A.outside _ _ (.inl (by omega))

theorem hcat_colsPart :
    (A.firstCols (Parts.start A.cols parts i)).hcat (A.colsPart parts i) =
      A.firstCols (Parts.start A.cols parts (i + 1)) := by
  refine eq_ofFn rfl Parts.start_succ.symm fun r hr c hc => ?_
  rw [Parts.start_succ] at hc
  refine (get_ofFn hr hc).trans ?_
  change (if c < Parts.start A.cols parts i then _ else (A.colsPart parts i).get r (c - _)) = _
  split_ifs with hfirst
  · exact get_firstCols hfirst
  · rw [get_colsPart (by change c - Parts.start A.cols parts i < _; omega)]
    congr 1
    change Parts.start A.cols parts i + (c - Parts.start A.cols parts i) = c
    omega

theorem hcatAll_colsPart (h : 0 < parts) :
    hcatAll ((List.range parts).map fun i => A.colsPart parts i) = A := by
  have hfirst : ∀ m, hcatAll ((List.range (m + 1)).map fun i => A.colsPart parts i) =
      A.firstCols (Parts.start A.cols parts (m + 1)) := by
    intro m
    induction m with
    | zero =>
      rw [Parts.start_succ, Parts.start_zero, Nat.zero_add, Nat.zero_add]
      refine eq_ofFn rfl rfl fun r _ c hc => ?_
      exact (get_colsPart hc).trans (by rw [Parts.start_zero, Nat.zero_add])
    | succ m ih =>
      rw [List.range_succ, List.map_append]
      rw [← hcat_colsPart, ← ih]
      cases hl : (List.range (m + 1)).map fun i => A.colsPart parts i with
      | nil => simp at hl
      | cons B l =>
        rw [List.map_singleton, List.cons_append, hcatAll, List.foldl_append]
        rfl
  obtain ⟨m, rfl⟩ := Nat.exists_eq_succ_of_ne_zero h.ne'
  rw [hfirst m, Parts.start_all h, firstCols_self]

end Zero

section Ring

variable [CommRing R]

def mul (A B : Mat R) : Mat R :=
  ofFn A.rows B.cols fun i j => ∑ t ∈ Finset.range A.cols, A.get i t * B.get t j

def sum (rows cols : ℕ) (l : List (Mat R)) : Mat R :=
  ofFn rows cols fun i j => (l.map fun A => A.get i j).sum

variable {A B C : Mat R} {parts i j : ℕ}

@[simp] theorem rows_mul : (A.mul B).rows = A.rows := rfl

@[simp] theorem cols_mul : (A.mul B).cols = B.cols := rfl

theorem get_mul : (A.mul B).get i j = ∑ t ∈ Finset.range A.cols, A.get i t * B.get t j := by
  refine get_ofFn_of_zero fun h => Finset.sum_eq_zero fun t _ => ?_
  rcases h with h | h
  · rw [A.outside i t (.inl h), zero_mul]
  · rw [B.outside t j (.inr h), mul_zero]

theorem mul_colsPart : A.mul (B.colsPart parts i) = (A.mul B).colsPart parts i := by
  refine ext_of_lt rfl rfl fun r _ c hc => ?_
  replace hc : c < Parts.size B.cols parts i := hc
  rw [get_mul, get_colsPart (A := A.mul B) hc, get_mul, cols_mul]
  exact Finset.sum_congr rfl fun t _ => by rw [get_colsPart hc]

theorem rowsPart_mul : (A.rowsPart parts i).mul B = (A.mul B).rowsPart parts i := by
  refine ext_of_lt rfl rfl fun r hr c _ => ?_
  replace hr : r < Parts.size A.rows parts i := hr
  rw [get_mul, get_rowsPart (A := A.mul B) hr, get_mul, rows_mul, cols_rowsPart]
  exact Finset.sum_congr rfl fun t _ => by rw [get_rowsPart hr]

theorem sum_map_range (f : ℕ → R) (n : ℕ) :
    ((List.range n).map f).sum = ∑ i ∈ Finset.range n, f i := by
  induction n with
  | zero => rfl
  | succ n ih =>
    rw [List.range_succ, List.map_append, List.sum_append, ih, Finset.sum_range_succ,
      List.map_singleton, List.sum_singleton]

theorem sum_mul_parts (h : 0 < parts) (hcols : A.cols = B.rows) :
    sum A.rows B.cols ((List.range parts).map fun i =>
      (A.colsPart parts i).mul (B.rowsPart parts i)) = A.mul B := by
  symm
  refine eq_ofFn rfl rfl fun r _ c _ => ?_
  rw [get_mul, List.map_map, Function.comp_def, sum_map_range, Parts.sum_parts h]
  refine Finset.sum_congr rfl fun i _ => ?_
  rw [get_mul, cols_colsPart]
  refine Finset.sum_congr rfl fun t ht => ?_
  replace ht : t < Parts.size A.cols parts i := Finset.mem_range.mp ht
  rw [get_colsPart ht, get_rowsPart (by rwa [← hcols]), hcols]

end Ring

end Mat

import Mathlib.Algebra.BigOperators.Ring.List
import Mathlib.Data.List.GetD
import Mathlib.Tactic.Ring

/-! Arrays of any number of dimensions as lists of their elements in row-major order. Along one
dimension an array is cut into parts and put together again: the part of an array is, for each
index of the outer dimensions, a stretch of the list. -/
namespace RowMajor

variable {α : Type*}

def slice (l : List α) (start n : ℕ) : List α := (l.drop start).take n

theorem length_slice {l : List α} {start n : ℕ} (h : start + n ≤ l.length) :
    (slice l start n).length = n := by
  rw [slice, List.length_take, List.length_drop]
  omega

theorem mem_of_mem_slice {l : List α} {start n : ℕ} {x : α} (h : x ∈ slice l start n) : x ∈ l :=
  List.mem_of_mem_drop (List.mem_of_mem_take h)

theorem slice_append_slice (l : List α) (start m n : ℕ) :
    slice l start m ++ slice l (start + m) n = slice l start (m + n) := by
  rw [slice, slice, slice, List.take_add, List.drop_drop]

theorem flatMap_slice (l : List α) (first : ℕ) (start len : ℕ → ℕ) (hzero : start 0 = 0)
    (hstep : ∀ i, start (i + 1) = start i + len i) (n : ℕ) :
    (List.range n).flatMap (fun i => slice l (first + start i) (len i)) =
      slice l first (start n) := by
  induction n with
  | zero => simp [hzero, slice]
  | succ n ih =>
    rw [List.range_succ, List.flatMap_append, ih, List.flatMap_singleton, slice_append_slice,
      hstep]

theorem slice_flatMap {f : ℕ → List α} {w n j : ℕ} (hlength : ∀ i < n, (f i).length = w)
    (hj : j < n) : slice ((List.range n).flatMap f) (j * w) w = f j := by
  induction n generalizing f j with
  | zero => exact absurd hj (Nat.not_lt_zero j)
  | succ n ih =>
    have hfirst : (f 0).length = w := hlength 0 (Nat.succ_pos n)
    rw [List.range_succ_eq_map, List.flatMap_cons, List.flatMap_map]
    cases j with
    | zero => rw [slice, Nat.zero_mul, List.drop_zero, ← hfirst, List.take_left]
    | succ j =>
      have hrest : slice ((List.range n).flatMap fun i => f (i + 1)) (j * w) w = f (j + 1) :=
        ih (fun i hi => hlength (i + 1) (Nat.succ_lt_succ hi)) (Nat.lt_of_succ_lt_succ hj)
      have hskip : (j + 1) * w = (f 0).length + j * w := by rw [hfirst]; ring
      rw [slice, hskip, ← List.drop_drop, List.drop_left]
      exact hrest

theorem length_flatMap_range {f : ℕ → List α} {w n : ℕ} (hlength : ∀ i < n, (f i).length = w) :
    ((List.range n).flatMap f).length = n * w := by
  rw [List.length_flatMap, List.map_congr_left (g := fun _ => w)]
  · simp
  · intro i hi
    exact hlength i (List.mem_range.mp hi)

section Extents

/-- Number of indices of the dimensions before `d`. -/
def outer (shape : List ℕ) (d : ℕ) : ℕ := (shape.take d).prod

def extent (shape : List ℕ) (d : ℕ) : ℕ := shape.getD d 0

/-- Number of indices of the dimensions after `d`. -/
def inner (shape : List ℕ) (d : ℕ) : ℕ := (shape.drop (d + 1)).prod

theorem prod_eq {shape : List ℕ} {d : ℕ} (h : d < shape.length) :
    shape.prod = outer shape d * (extent shape d * inner shape d) := by
  have hextent : extent shape d = shape[d] := List.getD_eq_getElem shape 0 h
  rw [outer, inner, hextent, ← List.prod_cons, ← List.drop_eq_getElem_cons h,
    List.prod_take_mul_prod_drop]

@[simp] theorem outer_set (shape : List ℕ) (d n : ℕ) : outer (shape.set d n) d = outer shape d := by
  rw [outer, outer, List.take_set_of_le le_rfl]

@[simp] theorem inner_set (shape : List ℕ) (d n : ℕ) : inner (shape.set d n) d = inner shape d := by
  rw [inner, inner, List.drop_set_of_lt (Nat.lt_succ_self d)]

@[simp] theorem extent_set {shape : List ℕ} {d : ℕ} (h : d < shape.length) (n : ℕ) :
    extent (shape.set d n) d = n := by
  rw [extent, List.getD_eq_getElem _ 0 (by rwa [List.length_set]), List.getElem_set_self]

theorem prod_set {shape : List ℕ} {d : ℕ} (h : d < shape.length) (n : ℕ) :
    (shape.set d n).prod = outer shape d * (n * inner shape d) := by
  rw [prod_eq (d := d) (by rwa [List.length_set]), outer_set, inner_set, extent_set h]

theorem set_extent (shape : List ℕ) (d : ℕ) : shape.set d (extent shape d) = shape := by
  by_cases h : d < shape.length
  · rw [extent, List.getD_eq_getElem shape 0 h, List.set_getElem_self]
  · exact List.set_eq_of_length_le (not_lt.mp h)

end Extents

section Parts

/-- The elements with an index from `start` to `start + n` in dimension `d`. -/
def part (shape : List ℕ) (d start n : ℕ) (l : List α) : List α :=
  (List.range (outer shape d)).flatMap fun j =>
    slice l (j * (extent shape d * inner shape d) + start * inner shape d) (n * inner shape d)

def join (outer inner : ℕ) (parts : List (ℕ × List α)) : List α :=
  (List.range outer).flatMap fun j =>
    parts.flatMap fun q => slice q.2 (j * (q.1 * inner)) (q.1 * inner)

variable {shape : List ℕ} {d start n : ℕ} {l : List α}

theorem mem_of_mem_part {x : α} (h : x ∈ part shape d start n l) : x ∈ l := by
  obtain ⟨j, -, hx⟩ := List.mem_flatMap.mp h
  exact mem_of_mem_slice hx

theorem mem_of_mem_join {outer inner : ℕ} {parts : List (ℕ × List α)} {x : α}
    (h : x ∈ join outer inner parts) : ∃ q ∈ parts, x ∈ q.2 := by
  obtain ⟨j, -, hx⟩ := List.mem_flatMap.mp h
  obtain ⟨q, hq, hx⟩ := List.mem_flatMap.mp hx
  exact ⟨q, hq, mem_of_mem_slice hx⟩

theorem stretch_le {outer extent inner j : ℕ} (hj : j < outer) (hn : start + n ≤ extent) :
    j * (extent * inner) + start * inner + n * inner ≤ outer * (extent * inner) := by
  have hblock : (start + n) * inner ≤ extent * inner := Nat.mul_le_mul_right inner hn
  have hblocks : (j + 1) * (extent * inner) ≤ outer * (extent * inner) :=
    Nat.mul_le_mul_right _ hj
  rw [add_mul] at hblock
  rw [add_mul, one_mul] at hblocks
  omega

theorem length_stretch (hd : d < shape.length) (hl : l.length = shape.prod)
    (hn : start + n ≤ extent shape d) {j : ℕ} (hj : j < outer shape d) :
    (slice l (j * (extent shape d * inner shape d) + start * inner shape d)
      (n * inner shape d)).length = n * inner shape d := by
  apply length_slice
  rw [hl, prod_eq hd]
  exact stretch_le hj hn

theorem length_part (hd : d < shape.length) (hl : l.length = shape.prod)
    (hn : start + n ≤ extent shape d) :
    (part shape d start n l).length = (shape.set d n).prod := by
  rw [prod_set hd, part, length_flatMap_range fun j hj => length_stretch hd hl hn hj]

theorem length_join {outer inner : ℕ} {parts : List (ℕ × List α)}
    (h : ∀ q ∈ parts, q.2.length = outer * (q.1 * inner)) :
    (join outer inner parts).length = outer * ((parts.map Prod.fst).sum * inner) := by
  apply length_flatMap_range
  intro j hj
  have hlength : ∀ q ∈ parts, (slice q.2 (j * (q.1 * inner)) (q.1 * inner)).length =
      q.1 * inner := by
    intro q hq
    apply length_slice
    have hle : (j + 1) * (q.1 * inner) ≤ outer * (q.1 * inner) := Nat.mul_le_mul_right _ hj
    rw [add_mul, one_mul] at hle
    rw [h q hq]
    exact hle
  rw [List.length_flatMap, List.map_congr_left hlength, List.sum_map_mul_right]

theorem join_parts (hd : d < shape.length) (hl : l.length = shape.prod) {start len : ℕ → ℕ}
    (hzero : start 0 = 0) (hstep : ∀ i, start (i + 1) = start i + len i)
    (hend : start n = extent shape d) :
    join (outer shape d) (inner shape d)
      ((List.range n).map fun i => (len i, part shape d (start i) (len i) l)) = l := by
  have hmono : ∀ i < n, start i + len i ≤ extent shape d := by
    intro i hi
    rw [← hstep, ← hend]
    exact monotone_nat_of_le_succ (fun k => (hstep k).symm ▸ Nat.le_add_right _ _) hi
  have hblock : ∀ j ∈ List.range (outer shape d),
      (((List.range n).map fun i => (len i, part shape d (start i) (len i) l)).flatMap fun q =>
        slice q.2 (j * (q.1 * inner shape d)) (q.1 * inner shape d)) =
      slice l (0 + j * (extent shape d * inner shape d)) (extent shape d * inner shape d) := by
    intro j hj
    have hpiece : ∀ i ∈ List.range n,
        slice (part shape d (start i) (len i) l) (j * (len i * inner shape d))
          (len i * inner shape d) =
        slice l (j * (extent shape d * inner shape d) + start i * inner shape d)
          (len i * inner shape d) := fun i hi =>
      slice_flatMap (fun k hk => length_stretch hd hl (hmono i (List.mem_range.mp hi)) hk)
        (List.mem_range.mp hj)
    rw [List.flatMap_map, List.flatMap_congr hpiece, Nat.zero_add,
      flatMap_slice l _ (fun i => start i * inner shape d) (fun i => len i * inner shape d)
        (by simp [hzero]) (fun i => by rw [hstep, add_mul]),
      hend]
  rw [join, List.flatMap_congr hblock,
    flatMap_slice l 0 (fun j => j * (extent shape d * inner shape d))
      (fun _ => extent shape d * inner shape d) (Nat.zero_mul _)
      (fun j => by rw [add_mul, one_mul]),
    ← prod_eq hd, ← hl, slice, List.drop_zero, List.take_length]

end Parts

section Sections

/-- Where section `i` of `n` begins, if an extent is divided as evenly as possible: the sections
that are one longer come first. -/
def sectionStart (e n i : ℕ) : ℕ := i * (e / n) + min i (e % n)

def sectionLength (e n i : ℕ) : ℕ := e / n + if i < e % n then 1 else 0

theorem sectionStart_zero (e n : ℕ) : sectionStart e n 0 = 0 := by simp [sectionStart]

theorem sectionStart_succ (e n i : ℕ) :
    sectionStart e n (i + 1) = sectionStart e n i + sectionLength e n i := by
  rw [sectionStart, sectionStart, sectionLength, add_mul, one_mul]
  split_ifs with h
  · omega
  · omega

theorem sectionStart_self {n : ℕ} (hn : 0 < n) (e : ℕ) : sectionStart e n n = e := by
  rw [sectionStart, min_eq_right (Nat.mod_lt e hn).le, Nat.div_add_mod]

end Sections

end RowMajor

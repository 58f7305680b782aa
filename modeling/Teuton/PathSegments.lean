import Mathlib.Data.List.Basic

/-! Texts cut at separators. A text that is put together from parts without separators is read
back part by part: up to the first separator, behind the last one, behind a known beginning, or in
front of a known end. -/
namespace PathSegments

variable {α : Type} [DecidableEq α] {sep : α} {a b x y : List α}

def cut (sep : α) : List α → Option (List α × List α)
  | [] => none
  | c :: l => if c = sep then some ([], l) else (cut sep l).map fun p => (c :: p.1, p.2)

theorem cut_append (ha : sep ∉ a) (l : List α) : cut sep (a ++ sep :: l) = some (a, l) := by
  induction a with
  | nil => simp [cut]
  | cons c a ih =>
    rw [List.mem_cons, not_or] at ha
    rw [List.cons_append, cut, if_neg (Ne.symm ha.1), ih ha.2]
    rfl

theorem cut_eq_none (ha : sep ∉ a) : cut sep a = none := by
  induction a with
  | nil => rfl
  | cons c a ih =>
    rw [List.mem_cons, not_or] at ha
    rw [cut, if_neg (Ne.symm ha.1), ih ha.2]
    rfl

def cutLast (sep : α) (l : List α) : Option (List α × List α) :=
  (cut sep l.reverse).map fun p => (p.2.reverse, p.1.reverse)

theorem cutLast_append (hb : sep ∉ b) (l : List α) :
    cutLast sep (l ++ sep :: b) = some (l, b) := by
  have hreverse : (l ++ sep :: b).reverse = b.reverse ++ sep :: l.reverse := by simp
  rw [cutLast, hreverse, cut_append (by simpa using hb)]
  simp

theorem append_sep_inj (ha : sep ∉ a) (hb : sep ∉ b) (h : a ++ sep :: x = b ++ sep :: y) :
    a = b ∧ x = y := by
  have hcut := cut_append ha x
  rw [h, cut_append hb] at hcut
  cases hcut
  exact ⟨rfl, rfl⟩

theorem dropPrefix?_append (l : List α) : (a ++ l).dropPrefix? a = some l :=
  List.dropPrefix?_append_of_beq l (beq_self_eq_true a)

theorem dropSuffix?_append (l : List α) : (l ++ a).dropSuffix? a = some l :=
  List.dropSuffix?_eq_some_iff.mpr ⟨a, rfl, beq_self_eq_true a⟩

end PathSegments

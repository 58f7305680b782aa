import Mathlib.Data.List.Pairwise
import Mathlib.Order.Basic

/-! A stored object under compare-and-swap, with its whole history of versions. A version tag
is never empty and determines the body it names; the empty tag stands for an object that does
not exist. A writer that knows an upper bound for the version its tag names may replace it
without losing what that version held. -/

structure Version (β : Type) where
  tag : String
  body : β

/-- Versions in the order they were stored; the last one is the current object. -/
structure CasCell (β : Type) where
  versions : List (Version β)
  tagged : ∀ v ∈ versions, v.tag ≠ ""
  determined : ∀ v ∈ versions, ∀ w ∈ versions, v.tag = w.tag → v.body = w.body

namespace CasCell

variable {β : Type}

def absent : CasCell β := ⟨[], by simp, by simp⟩

def current (c : CasCell β) : Option (Version β) := c.versions.getLast?

def currentTag (c : CasCell β) : String :=
  match c.current with
  | some v => v.tag
  | none => ""

/-- The tag chosen for a new version is not empty and names no other body. -/
def Accepts (c : CasCell β) (v : Version β) : Prop :=
  v.tag ≠ "" ∧ ∀ w ∈ c.versions, w.tag = v.tag → w.body = v.body

def store (c : CasCell β) (v : Version β) (h : c.Accepts v) : CasCell β where
  versions := c.versions ++ [v]
  tagged := by
    intro w hw
    rcases List.mem_append.mp hw with hw | hw
    · exact c.tagged w hw
    · exact List.mem_singleton.mp hw ▸ h.1
  determined := by
    intro w hw u hu htag
    rcases List.mem_append.mp hw with hwc | hwv
    · rcases List.mem_append.mp hu with huc | huv
      · exact c.determined w hwc u huc htag
      · have huv' : u = v := List.mem_singleton.mp huv
        exact huv' ▸ h.2 w hwc (huv' ▸ htag)
    · have hwv' : w = v := List.mem_singleton.mp hwv
      rcases List.mem_append.mp hu with huc | huv
      · exact hwv' ▸ (h.2 u huc (hwv' ▸ htag.symm)).symm
      · exact hwv'.trans (List.mem_singleton.mp huv).symm ▸ rfl

@[simp] theorem versions_store {c : CasCell β} {v : Version β} {h : c.Accepts v} :
    (c.store v h).versions = c.versions ++ [v] := rfl

@[simp] theorem current_store {c : CasCell β} {v : Version β} {h : c.Accepts v} :
    (c.store v h).current = some v := by
  simp [current]

theorem mem_store {c : CasCell β} {v w : Version β} {h : c.Accepts v} :
    w ∈ (c.store v h).versions ↔ w ∈ c.versions ∨ w = v := by
  simp

theorem mem_of_current {c : CasCell β} {v : Version β} (h : c.current = some v) :
    v ∈ c.versions := List.mem_of_getLast? h

theorem currentTag_of_current {c : CasCell β} {v : Version β} (h : c.current = some v) :
    c.currentTag = v.tag := by
  rw [currentTag, h]

theorem versions_nil_of_currentTag {c : CasCell β} (h : c.currentTag = "") :
    c.versions = [] := by
  cases hc : c.current with
  | none => exact List.getLast?_eq_none_iff.mp hc
  | some v =>
    rw [currentTag_of_current hc] at h
    exact absurd h (c.tagged v (mem_of_current hc))

section View

variable {α : Type} [Preorder α] (view : β → α)

/-- The tag names a stored version, and `a` bounds what that version shows. -/
def Covers (c : CasCell β) (tag : String) (a : α) : Prop :=
  (∃ v ∈ c.versions, v.tag = tag) ∧ ∀ v ∈ c.versions, v.tag = tag → view v.body ≤ a

/-- What is shown never shrinks from one version to a later one. -/
def Growing (c : CasCell β) : Prop :=
  c.versions.Pairwise fun v w => view v.body ≤ view w.body

/-- Every version shows more than all versions before it. -/
def Increasing (c : CasCell β) : Prop :=
  c.versions.Pairwise fun v w => view v.body < view w.body

variable {view}

variable {a : α} {c : CasCell β} {v : Version β}

theorem Increasing.growing (h : c.Increasing view) : c.Growing view :=
  List.Pairwise.imp le_of_lt h

theorem Covers.mono {tag : String} {b : α} (h : c.Covers view tag a)
    (hab : a ≤ b) : c.Covers view tag b :=
  ⟨h.1, fun v hv ht => le_trans (h.2 v hv ht) hab⟩

theorem covers_of_mem (hv : v ∈ c.versions)
    (ha : view v.body ≤ a) : c.Covers view v.tag a := by
  refine ⟨⟨v, hv, rfl⟩, ?_⟩
  intro w hw ht
  rw [c.determined w hw v hv ht]
  exact ha

theorem Covers.store {tag : String} (h : c.Covers view tag a)
    (hv : c.Accepts v) : (c.store v hv).Covers view tag a := by
  obtain ⟨⟨w, hw, hwt⟩, hle⟩ := h
  refine ⟨⟨w, mem_store.mpr (Or.inl hw), hwt⟩, ?_⟩
  intro u hu hut
  rcases mem_store.mp hu with hu | rfl
  · exact hle u hu hut
  · rw [← hv.2 w hw (hwt.trans hut.symm)]
    exact hle w hw hwt

theorem covers_stored (hv : c.Accepts v)
    (ha : view v.body ≤ a) : (c.store v hv).Covers view v.tag a :=
  covers_of_mem (mem_store.mpr (Or.inr rfl)) ha

theorem Growing.le_current (h : c.Growing view) {w : Version β}
    (hv : v ∈ c.versions) (hw : c.current = some w) : view v.body ≤ view w.body := by
  obtain ⟨init, hinit⟩ := List.getLast?_eq_some_iff.mp hw
  rw [Growing, hinit, List.pairwise_append] at h
  rw [hinit, List.mem_append, List.mem_singleton] at hv
  rcases hv with hv | rfl
  · exact h.2.2 v hv w (List.mem_singleton.mpr rfl)
  · exact le_refl _

theorem Growing.le_bound (h : c.Growing view)
    (hbound : c.currentTag = "" ∨ c.Covers view c.currentTag a) {w : Version β}
    (hw : w ∈ c.versions) : view w.body ≤ a := by
  rcases hbound with hempty | hcover
  · rw [versions_nil_of_currentTag hempty] at hw
    cases hw
  · cases hc : c.current with
    | none =>
      rw [List.getLast?_eq_none_iff.mp hc] at hw
      cases hw
    | some x =>
      rw [currentTag_of_current hc] at hcover
      calc view w.body ≤ view x.body := h.le_current hw hc
        _ ≤ a := hcover.2 x (mem_of_current hc) rfl

/-- A successful swap keeps the history growing when the new body shows at least the bound the
writer holds for the version its tag names. -/
theorem Growing.store (h : c.Growing view) (hv : c.Accepts v)
    (hbound : c.currentTag = "" ∨ c.Covers view c.currentTag (view v.body)) :
    (c.store v hv).Growing view := by
  rw [Growing, versions_store, List.pairwise_append]
  refine ⟨h, List.pairwise_singleton _ _, ?_⟩
  intro w hw u hu
  rw [List.mem_singleton] at hu
  subst hu
  exact h.le_bound hbound hw

theorem Increasing.store (h : c.Increasing view)
    (hv : c.Accepts v) (ha : a < view v.body)
    (hbound : c.currentTag = "" ∨ c.Covers view c.currentTag a) :
    (c.store v hv).Increasing view := by
  rw [Increasing, versions_store, List.pairwise_append]
  refine ⟨h, List.pairwise_singleton _ _, ?_⟩
  intro w hw u hu
  rw [List.mem_singleton] at hu
  subst hu
  exact lt_of_le_of_lt (h.growing.le_bound hbound hw) ha

end View

end CasCell

import Mathlib.Data.List.Basic

/-! Which errors a computation may raise. The rules say exactly when a sequence of steps raises
only errors of a kind: a step counts as far as the steps before it return. -/

variable {ε α γ : Type} {P : ε → Prop}

def RaisesOnly (P : ε → Prop) (x : Except ε α) : Prop := ∀ e, x = .error e → P e

/-- In the loop of `f` over the list the turn comes to `a`: the steps before it return. -/
def Reached (f : α → Except ε γ) (l : List α) (a : α) : Prop :=
  ∃ done rest, l = done ++ a :: rest ∧ ∀ b ∈ done, ∃ c, f b = .ok c

theorem reached_nil {f : α → Except ε γ} {a : α} : ¬ Reached f [] a := by
  rintro ⟨done, rest, h, -⟩
  simp at h

theorem reached_cons_iff {f : α → Except ε γ} {b a : α} {l : List α} :
    Reached f (b :: l) a ↔ a = b ∨ (∃ c, f b = .ok c) ∧ Reached f l a := by
  constructor
  · rintro ⟨done, rest, h, hdone⟩
    cases done with
    | nil =>
      cases h
      exact Or.inl rfl
    | cons d done =>
      cases h
      exact Or.inr ⟨hdone b List.mem_cons_self, done, rest, rfl,
        fun x hx => hdone x (List.mem_cons_of_mem b hx)⟩
  · rintro (rfl | ⟨hb, done, rest, rfl, hdone⟩)
    · exact ⟨[], l, rfl, by simp⟩
    · refine ⟨b :: done, rest, rfl, ?_⟩
      intro x hx
      rcases List.mem_cons.mp hx with rfl | hx
      · exact hb
      · exact hdone x hx

theorem Reached.mem {f : α → Except ε γ} {l : List α} {a : α} (h : Reached f l a) : a ∈ l := by
  obtain ⟨done, rest, rfl, -⟩ := h
  simp

namespace RaisesOnly

@[simp] theorem ok (a : α) : RaisesOnly P (.ok a : Except ε α) := by
  intro e h
  cases h

@[simp] theorem pure (a : α) : RaisesOnly P (Pure.pure a : Except ε α) := ok a

@[simp] theorem error_iff {e : ε} : RaisesOnly P (.error e : Except ε α) ↔ P e := by
  constructor
  · intro h
    exact h e rfl
  · intro he e' h
    cases h
    exact he

variable {x : Except ε α} {f : α → Except ε γ}

@[simp] theorem bind_iff :
    RaisesOnly P (x >>= f) ↔ RaisesOnly P x ∧ ∀ a, x = .ok a → RaisesOnly P (f a) := by
  cases x with
  | error e =>
    change RaisesOnly P (.error e) ↔ _
    simp
  | ok a =>
    change RaisesOnly P (f a) ↔ _
    simp

@[simp] theorem map_iff {f : α → γ} :
    RaisesOnly P (f <$> x) ↔ RaisesOnly P x := by
  rw [← bind_pure_comp, bind_iff]
  simp

theorem ite_iff {c : Prop} [Decidable c] {y : Except ε α} :
    RaisesOnly P (if c then x else y) ↔ (c → RaisesOnly P x) ∧ (¬ c → RaisesOnly P y) := by
  by_cases h : c <;> simp [h]

theorem guard_iff {c : Prop} [Decidable c] {e : ε} {x : Except ε γ} :
    RaisesOnly P (if c then (.error e >>= f) else x) ↔ (c → P e) ∧ (¬ c → RaisesOnly P x) := by
  rw [ite_iff]
  exact and_congr_left' (forall_congr' fun _ => error_iff)

theorem mapM_iff {l : List α} :
    RaisesOnly P (l.mapM f) ↔ ∀ a, Reached f l a → RaisesOnly P (f a) := by
  induction l with
  | nil =>
    constructor
    · intro _ a h
      exact absurd h reached_nil
    · intro _
      rw [List.mapM_nil]
      exact pure []
  | cons b l ih =>
    rw [List.mapM_cons, bind_iff]
    constructor
    · rintro ⟨hb, hl⟩ a hreached
      rcases reached_cons_iff.mp hreached with rfl | ⟨⟨c, hc⟩, hreached⟩
      · exact hb
      · exact ih.mp (bind_iff.mp (hl c hc)).1 a hreached
    · intro h
      refine ⟨h b (reached_cons_iff.mpr (Or.inl rfl)), fun c hc => bind_iff.mpr ⟨?_, ?_⟩⟩
      · exact ih.mpr fun a ha => h a (reached_cons_iff.mpr (Or.inr ⟨⟨c, hc⟩, ha⟩))
      · intro m _
        exact pure (c :: m)

end RaisesOnly

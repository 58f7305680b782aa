import Mathlib.Data.List.Forall2
import Mathlib.Logic.Basic
import Mathlib.Order.Defs.Unbundled

/-! Programs that change a state and may stop with an exception. What such a program has changed
before the exception stays changed, so a statement about it says in which state it stops. -/
namespace Effects

variable {σ ε α γ : Type}

def lift (x : Except ε α) : EStateM ε σ α := fun s =>
  match x with
  | .ok a => .ok a s
  | .error e => .error e s

instance liftExcept : MonadLift (Except ε) (EStateM ε σ) := ⟨lift⟩

def after (x : EStateM ε σ α) (s : σ) : σ :=
  match x s with
  | .ok _ t => t
  | .error _ t => t

def zoom {τ : Type} (part : σ → τ) (put : σ → τ → σ) (x : EStateM ε τ α) : EStateM ε σ α :=
  fun s =>
    match x (part s) with
    | .ok a t => .ok a (put s t)
    | .error e t => .error e (put s t)

def update (f : σ → Except ε (α × σ)) : EStateM ε σ α := fun s =>
  match f s with
  | .ok (a, t) => .ok a t
  | .error e => .error e s

def attempt (x : EStateM ε σ α) : EStateM ε σ (Except ε α) := fun s =>
  match x s with
  | .ok a t => .ok (.ok a) t
  | .error e t => .ok (.error e) t

theorem bind_eq_ok {x : EStateM ε σ α} {f : α → EStateM ε σ γ} {s u : σ} {b : γ} :
    (x >>= f) s = .ok b u ↔ ∃ a t, x s = .ok a t ∧ f a t = .ok b u := by
  change EStateM.bind x f s = _ ↔ _
  rw [EStateM.bind]
  cases x s <;> simp [and_assoc]

theorem bind_eq_error {x : EStateM ε σ α} {f : α → EStateM ε σ γ} {s u : σ} {e : ε} :
    (x >>= f) s = .error e u ↔
      x s = .error e u ∨ ∃ a t, x s = .ok a t ∧ f a t = .error e u := by
  change EStateM.bind x f s = _ ↔ _
  rw [EStateM.bind]
  cases x s <;> simp [and_assoc]

theorem attempt_eq_ok {x : EStateM ε σ α} {s t : σ} {a : α} :
    attempt x s = .ok (.ok a) t ↔ x s = .ok a t := by
  unfold attempt
  cases x s <;> simp

theorem attempt_eq_error {x : EStateM ε σ α} {s t : σ} {e : ε} :
    attempt x s = .ok (.error e) t ↔ x s = .error e t := by
  unfold attempt
  cases x s <;> simp

theorem attempt_ne_error {x : EStateM ε σ α} {s t : σ} {e : ε} : attempt x s ≠ .error e t := by
  unfold attempt
  cases x s <;> simp

theorem lift_eq_ok {x : Except ε α} {s t : σ} {a : α} :
    (lift x : EStateM ε σ α) s = .ok a t ↔ x = .ok a ∧ s = t := by
  cases x <;> simp [lift]

theorem lift_eq_error {x : Except ε α} {s t : σ} {e : ε} :
    (lift x : EStateM ε σ α) s = .error e t ↔ x = .error e ∧ s = t := by
  cases x <;> simp [lift]

theorem get_eq_ok {s t a : σ} : (get : EStateM ε σ σ) s = .ok a t ↔ s = a ∧ s = t := by
  change EStateM.Result.ok s s = .ok a t ↔ _
  simp

theorem get_ne_error {s t : σ} {e : ε} : (get : EStateM ε σ σ) s ≠ .error e t := by
  change EStateM.Result.ok s s ≠ .error e t
  simp

theorem modify_eq_ok {f : σ → σ} {s t : σ} {a : PUnit} :
    (modify f : EStateM ε σ PUnit) s = .ok a t ↔ t = f s := by
  change EStateM.Result.ok PUnit.unit (f s) = .ok a t ↔ _
  simp [eq_comm]

theorem modify_ne_error {f : σ → σ} {s t : σ} {e : ε} :
    (modify f : EStateM ε σ PUnit) s ≠ .error e t := by
  change EStateM.Result.ok PUnit.unit (f s) ≠ .error e t
  simp

theorem zoom_eq_ok {τ : Type} {part : σ → τ} {put : σ → τ → σ} {x : EStateM ε τ α} {s u : σ}
    {a : α} : zoom part put x s = .ok a u ↔ ∃ t, x (part s) = .ok a t ∧ u = put s t := by
  rw [zoom]
  cases x (part s) <;> simp [and_assoc, eq_comm]

theorem zoom_eq_error {τ : Type} {part : σ → τ} {put : σ → τ → σ} {x : EStateM ε τ α} {s u : σ}
    {e : ε} : zoom part put x s = .error e u ↔ ∃ t, x (part s) = .error e t ∧ u = put s t := by
  rw [zoom]
  cases x (part s) <;> simp [and_assoc, eq_comm]

theorem update_eq_ok {f : σ → Except ε (α × σ)} {s t : σ} {a : α} :
    update f s = .ok a t ↔ f s = .ok (a, t) := by
  rw [update]
  cases f s <;> simp [Prod.ext_iff]

theorem update_eq_error {f : σ → Except ε (α × σ)} {s t : σ} {e : ε} :
    update f s = .error e t ↔ f s = .error e ∧ t = s := by
  rw [update]
  cases f s <;> simp [eq_comm]

theorem after_of_ok {x : EStateM ε σ α} {s t : σ} {a : α} (h : x s = .ok a t) :
    after x s = t := by
  rw [after, h]

theorem after_of_error {x : EStateM ε σ α} {s t : σ} {e : ε} (h : x s = .error e t) :
    after x s = t := by
  rw [after, h]

theorem forM_eq_error {l : List α} {f : α → EStateM ε σ PUnit} {s u : σ} {e : ε} :
    l.forM f s = .error e u ↔ ∃ done a rest t, l = done ++ a :: rest ∧
      done.forM f s = .ok ⟨⟩ t ∧ f a t = .error e u := by
  constructor
  · intro h
    induction l generalizing s with
    | nil => cases h
    | cons a l ih =>
      rcases bind_eq_error.mp h with h | ⟨_, t, hfirst, h⟩
      · exact ⟨[], a, l, s, rfl, rfl, h⟩
      · obtain ⟨done, b, rest, v, rfl, hdone, hraise⟩ := ih h
        exact ⟨a :: done, b, rest, v, rfl, bind_eq_ok.mpr ⟨_, t, hfirst, hdone⟩, hraise⟩
  · rintro ⟨done, a, rest, t, rfl, hdone, hraise⟩
    induction done generalizing s with
    | nil =>
      cases hdone
      exact bind_eq_error.mpr (Or.inl hraise)
    | cons b done ih =>
      obtain ⟨_, v, hfirst, hdone⟩ := bind_eq_ok.mp hdone
      exact bind_eq_error.mpr (Or.inr ⟨_, v, hfirst, ih hdone⟩)

/-- A relation between the list of items done and the states holds after a loop when it holds
before the first iteration and each iteration keeps it. -/
theorem forM_induction {f : α → EStateM ε σ PUnit} {R : List α → σ → Prop} {l : List α} {s t : σ}
    (h : l.forM f s = .ok ⟨⟩ t) (start : R [] s)
    (step : ∀ done a u v, R done u → f a u = .ok ⟨⟩ v → R (done ++ [a]) v) : R l t := by
  have hgeneral : ∀ (rest done : List α) (u : σ), R done u → rest.forM f u = .ok ⟨⟩ t →
      R (done ++ rest) t := by
    intro rest
    induction rest with
    | nil =>
      intro done u hdone hrest
      cases hrest
      simpa using hdone
    | cons a rest ih =>
      intro done u hdone hrest
      obtain ⟨_, v, hfirst, hrest⟩ := bind_eq_ok.mp hrest
      simpa using ih (done ++ [a]) v (step done a u v hdone hfirst) hrest
  exact hgeneral l [] s start h

theorem mapM_induction {f : α → EStateM ε σ γ} {R : List γ → σ → Prop} {l : List α}
    {results : List γ} {s t : σ} (h : l.mapM f s = .ok results t) (start : R [] s)
    (step : ∀ done a b u v, R done u → f a u = .ok b v → R (done ++ [b]) v) : R results t := by
  have hgeneral : ∀ (rest : List α) (done results : List γ) (u : σ), R done u →
      rest.mapM f u = .ok results t → R (done ++ results) t := by
    intro rest
    induction rest with
    | nil =>
      intro done results u hdone hrest
      cases hrest
      simpa using hdone
    | cons a rest ih =>
      intro done results u hdone hrest
      rw [List.mapM_cons] at hrest
      obtain ⟨b, v, hfirst, hrest⟩ := bind_eq_ok.mp hrest
      obtain ⟨bs, w, hrest, hresults⟩ := bind_eq_ok.mp hrest
      cases hresults
      simpa using ih (done ++ [b]) bs v (step done a b u v hdone hfirst) hrest
  exact hgeneral l [] results s start h

theorem mapM_items {f : α → EStateM ε σ γ} {R : List α → σ → Prop} {l : List α}
    {results : List γ} {s t : σ} (h : l.mapM f s = .ok results t) (start : R [] s)
    (step : ∀ done, ∀ a ∈ l, ∀ b u v, R done u → f a u = .ok b v → R (done ++ [a]) v) : R l t := by
  have hgeneral : ∀ (rest done : List α) (results : List γ) (u : σ), rest ⊆ l → R done u →
      rest.mapM f u = .ok results t → R (done ++ rest) t := by
    intro rest
    induction rest with
    | nil =>
      intro done results u _ hdone hrest
      cases hrest
      simpa using hdone
    | cons a rest ih =>
      intro done results u hsub hdone hrest
      obtain ⟨ha, hsub⟩ := List.cons_subset.mp hsub
      rw [List.mapM_cons] at hrest
      obtain ⟨b, v, hfirst, hrest⟩ := bind_eq_ok.mp hrest
      obtain ⟨bs, w, hrest, hresults⟩ := bind_eq_ok.mp hrest
      cases hresults
      simpa using ih (done ++ [a]) bs v hsub (step done a ha b u v hdone hfirst) hrest
  exact hgeneral l [] results s (List.Subset.refl l) start h

theorem mapM_spec {f : α → EStateM ε σ γ} {g : α → Except ε γ} {I : σ → Prop} {l : List α}
    {results : List γ} {s t : σ} (h : l.mapM f s = .ok results t) (start : I s)
    (step : ∀ a ∈ l, ∀ b u v, I u → f a u = .ok b v → g a = .ok b ∧ I v) :
    l.mapM g = .ok results ∧ I t := by
  induction l generalizing results s with
  | nil =>
    cases h
    exact ⟨rfl, start⟩
  | cons a l ih =>
    rw [List.mapM_cons] at h
    obtain ⟨b, u, hfirst, hrest⟩ := bind_eq_ok.mp h
    obtain ⟨bs, v, hrest, hresults⟩ := bind_eq_ok.mp hrest
    cases hresults
    obtain ⟨hb, hu⟩ := step a List.mem_cons_self b s u start hfirst
    obtain ⟨hbs, hv⟩ := ih hrest hu fun a ha => step a (List.mem_cons_of_mem _ ha)
    refine ⟨?_, hv⟩
    rw [List.mapM_cons, hb]
    change (l.mapM g >>= _) = _
    rw [hbs]
    rfl

theorem mapM_forall₂ {f : α → EStateM ε σ γ} {I : σ → Prop} {Q : α → γ → σ → Prop} {l : List α}
    {results : List γ} {s t : σ} (h : l.mapM f s = .ok results t) (start : I s)
    (step : ∀ a ∈ l, ∀ b u v, I u → f a u = .ok b v → I v ∧ Q a b v)
    (keep : ∀ a ∈ l, ∀ b u v, I u → f a u = .ok b v → ∀ a' b', Q a' b' u → Q a' b' v) :
    I t ∧ (∀ a' b', Q a' b' s → Q a' b' t) ∧ List.Forall₂ (fun a b => Q a b t) l results := by
  induction l generalizing results s with
  | nil =>
    cases h
    exact ⟨start, fun _ _ hq => hq, .nil⟩
  | cons a l ih =>
    rw [List.mapM_cons] at h
    obtain ⟨b, u, hfirst, hrest⟩ := bind_eq_ok.mp h
    obtain ⟨bs, v, hrest, hresults⟩ := bind_eq_ok.mp hrest
    cases hresults
    obtain ⟨hu, hb⟩ := step a List.mem_cons_self b s u start hfirst
    obtain ⟨hv, hkeep, hall⟩ := ih hrest hu (fun a ha => step a (List.mem_cons_of_mem _ ha))
      fun a ha => keep a (List.mem_cons_of_mem _ ha)
    refine ⟨hv, fun a' b' hq => hkeep a' b' ?_, .cons (hkeep a b hb) hall⟩
    exact keep a List.mem_cons_self b s u start hfirst a' b' hq

/-- However the program ends, with a value or with an exception, the condition holds of that and
of the state it leaves. -/
def Ends (x : EStateM ε σ α) (s : σ) (Q : Except ε α → σ → Prop) : Prop :=
  match x s with
  | .ok a t => Q (.ok a) t
  | .error e t => Q (.error e) t

section Ends

variable {x : EStateM ε σ α} {f : α → EStateM ε σ γ} {s : σ} {P : Except ε α → σ → Prop}
variable {Q : Except ε γ → σ → Prop}

theorem Ends.of_ok (h : Ends x s P) {a : α} {t : σ} (hx : x s = .ok a t) : P (.ok a) t := by
  rw [Ends, hx] at h
  exact h

theorem Ends.of_error (h : Ends x s P) {e : ε} {t : σ} (hx : x s = .error e t) :
    P (.error e) t := by
  rw [Ends, hx] at h
  exact h

theorem ends_iff : Ends x s P ↔
    (∀ a t, x s = .ok a t → P (.ok a) t) ∧ ∀ e t, x s = .error e t → P (.error e) t := by
  rw [Ends]
  cases x s <;> simp

theorem ends_bind (hok : ∀ a t, x s = .ok a t → Ends (f a) t Q)
    (herror : ∀ e t, x s = .error e t → Q (.error e) t) : Ends (x >>= f) s Q := by
  refine ends_iff.mpr ⟨?_, ?_⟩
  · intro b u hrun
    obtain ⟨a, t, hx, hf⟩ := bind_eq_ok.mp hrun
    exact (hok a t hx).of_ok hf
  · intro e u hrun
    rcases bind_eq_error.mp hrun with hx | ⟨a, t, hx, hf⟩
    · exact herror e u hx
    · exact (hok a t hx).of_error hf

theorem Ends.bind (h : Ends x s P) (hok : ∀ a t, P (.ok a) t → Ends (f a) t Q)
    (herror : ∀ e t, P (.error e) t → Q (.error e) t) : Ends (x >>= f) s Q :=
  ends_bind (fun a t hx => hok a t (h.of_ok hx)) fun e t hx => herror e t (h.of_error hx)

theorem Ends.attempt (h : Ends x s P) {Q' : Except ε (Except ε α) → σ → Prop}
    (hle : ∀ r t, P r t → Q' (.ok r) t) : Ends (attempt x) s Q' := by
  refine ends_iff.mpr ⟨?_, fun e t hx => (attempt_ne_error hx).elim⟩
  intro r t hx
  cases r with
  | ok a => exact hle _ t (h.of_ok (attempt_eq_ok.mp hx))
  | error e => exact hle _ t (h.of_error (attempt_eq_error.mp hx))

theorem Ends.mono (h : Ends x s P) {P' : Except ε α → σ → Prop} (hle : ∀ r t, P r t → P' r t) :
    Ends x s P' :=
  ends_iff.mpr ⟨fun _ _ hx => hle _ _ (h.of_ok hx), fun _ _ hx => hle _ _ (h.of_error hx)⟩

theorem Ends.and (h : Ends x s P) {P' : Except ε α → σ → Prop} (h' : Ends x s P') :
    Ends x s fun r t => P r t ∧ P' r t :=
  ends_iff.mpr ⟨fun _ _ hx => ⟨h.of_ok hx, h'.of_ok hx⟩,
    fun _ _ hx => ⟨h.of_error hx, h'.of_error hx⟩⟩

theorem Ends.after (h : Ends x s P) : ∃ r, P r (after x s) := by
  cases hx : x s with
  | ok a t => exact ⟨.ok a, after_of_ok hx ▸ h.of_ok hx⟩
  | error e t => exact ⟨.error e, after_of_error hx ▸ h.of_error hx⟩

theorem ends_get_bind {f : σ → EStateM ε σ γ} (h : Ends (f s) s Q) : Ends (get >>= f) s Q := h

theorem ends_modify_bind {g : σ → σ} {f : PUnit → EStateM ε σ γ} (h : Ends (f ⟨⟩) (g s) Q) :
    Ends (modify g >>= f) s Q := h

theorem ends_update {g : σ → Except ε (α × σ)} : Ends (update g) s P ↔
    (∀ a t, g s = .ok (a, t) → P (.ok a) t) ∧ ∀ e, g s = .error e → P (.error e) s := by
  rw [ends_iff]
  constructor
  · rintro ⟨hok, herror⟩
    exact ⟨fun a t h => hok a t (update_eq_ok.mpr h),
      fun e h => herror e s (update_eq_error.mpr ⟨h, rfl⟩)⟩
  · rintro ⟨hok, herror⟩
    refine ⟨fun a t h => hok a t (update_eq_ok.mp h), ?_⟩
    intro e t h
    obtain ⟨he, rfl⟩ := update_eq_error.mp h
    exact herror e he

theorem ends_lift_bind {y : Except ε α} (hok : ∀ a, y = .ok a → Ends (f a) s Q)
    (herror : ∀ e, y = .error e → Q (.error e) s) : Ends (lift y >>= f) s Q := by
  cases y with
  | ok a => exact hok a rfl
  | error e => exact herror e rfl

/-- However the program ends, the state it leaves is related to the one it started from. -/
def Within (R : σ → σ → Prop) (x : EStateM ε σ α) : Prop := ∀ s, Ends x s fun _ t => R s t

section Within

variable {R : σ → σ → Prop}

theorem within_pure [Std.Refl R] (a : α) : Within R (pure a : EStateM ε σ α) := fun s => refl s

theorem within_get [Std.Refl R] : Within R (get : EStateM ε σ σ) := fun s => refl s

theorem within_lift [Std.Refl R] (y : Except ε α) : Within R (lift y : EStateM ε σ α) := by
  intro s
  cases y <;> exact refl s

theorem within_modify {g : σ → σ} (h : ∀ s, R s (g s)) :
    Within R (modify g : EStateM ε σ PUnit) := h

theorem within_update [Std.Refl R] {g : σ → Except ε (α × σ)}
    (h : ∀ s a t, g s = .ok (a, t) → R s t) : Within R (update g) := fun s =>
  ends_update.mpr ⟨h s, fun _ _ => refl s⟩

theorem Within.bind [IsTrans σ R] (hx : Within R x) (hf : ∀ a, Within R (f a)) :
    Within R (x >>= f) := fun s =>
  (hx s).bind (fun a t ht => (hf a t).mono fun _ _ hu => trans_of R ht hu) fun _ _ ht => ht

theorem Within.mapM [Std.Refl R] [IsTrans σ R] {g : α → EStateM ε σ γ} {l : List α}
    (h : ∀ a ∈ l, Within R (g a)) : Within R (l.mapM g) := by
  induction l with
  | nil => exact within_pure []
  | cons a l ih =>
    rw [List.mapM_cons]
    refine (h a List.mem_cons_self).bind fun b => ?_
    exact (ih fun c hc => h c (List.mem_cons_of_mem a hc)).bind fun _ => within_pure _

theorem Within.forM [Std.Refl R] [IsTrans σ R] {g : α → EStateM ε σ PUnit} {l : List α}
    (h : ∀ a ∈ l, Within R (g a)) : Within R (l.forM g) := by
  induction l with
  | nil => exact within_pure PUnit.unit
  | cons a l ih =>
    refine Within.bind (h a List.mem_cons_self) fun _ => ?_
    exact ih fun c hc => h c (List.mem_cons_of_mem a hc)

end Within

end Ends

end Effects

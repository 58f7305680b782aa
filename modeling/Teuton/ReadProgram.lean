import Mathlib.Control.Basic

/-! Programs that read from a store and may fail. The store is no argument: a program is the
tree of what it does with every possible answer. What it returns on a store is therefore a
function of the answers to the keys it asked for, and of nothing else the store holds. -/

inductive ReadProgram (κ ρ ε α : Type) where
  | done (result : Except ε α)
  | read (key : κ) (next : ρ → ReadProgram κ ρ ε α)

namespace ReadProgram

variable {κ ρ ε α β : Type}

def bind : ReadProgram κ ρ ε α → (α → ReadProgram κ ρ ε β) → ReadProgram κ ρ ε β
  | done (.ok a), f => f a
  | done (.error e), _ => done (.error e)
  | read k next, f => read k fun r => (next r).bind f

def attempt : ReadProgram κ ρ ε α → ReadProgram κ ρ ε (Except ε α)
  | done result => done (.ok result)
  | read k next => read k fun r => (next r).attempt

instance : Monad (ReadProgram κ ρ ε) where
  pure a := done (.ok a)
  bind := bind

instance : MonadLift (Except ε) (ReadProgram κ ρ ε) := ⟨done⟩

def ask (k : κ) : ReadProgram κ (Except ε ρ) ε ρ := read k done

def run (s : κ → ρ) : ReadProgram κ ρ ε α → Except ε α
  | done result => result
  | read k next => (next (s k)).run s

def keysRead (s : κ → ρ) : ReadProgram κ ρ ε α → List κ
  | done _ => []
  | read k next => k :: (next (s k)).keysRead s

theorem bind_eq (x : ReadProgram κ ρ ε α) (f : α → ReadProgram κ ρ ε β) :
    (x >>= f) = x.bind f := rfl

theorem bind_pure (x : ReadProgram κ ρ ε α) : x.bind (fun a => done (.ok a)) = x := by
  induction x with
  | done result => cases result <;> rfl
  | read k next ih =>
    rw [bind]
    congr
    funext r
    exact ih r

theorem bind_assoc {γ : Type} (x : ReadProgram κ ρ ε α) (f : α → ReadProgram κ ρ ε β)
    (g : β → ReadProgram κ ρ ε γ) : (x.bind f).bind g = x.bind fun a => (f a).bind g := by
  induction x with
  | done result => cases result <;> rfl
  | read k next ih =>
    simp only [bind]
    congr
    funext r
    exact ih r

instance : LawfulMonad (ReadProgram κ ρ ε) :=
  LawfulMonad.mk' _ (fun x => bind_pure x) (fun _ _ => rfl) (fun x f g => bind_assoc x f g)

section Run

variable (s : κ → ρ)

@[simp] theorem run_pure (a : α) : (pure a : ReadProgram κ ρ ε α).run s = .ok a := rfl

@[simp] theorem run_done (result : Except ε α) :
    (done result : ReadProgram κ ρ ε α).run s = result := rfl

@[simp] theorem run_lift (result : Except ε α) :
    (liftM result : ReadProgram κ ρ ε α).run s = result := rfl

@[simp] theorem run_ask (s : κ → Except ε ρ) (k : κ) : (ask k).run s = s k := rfl

@[simp] theorem run_bind (x : ReadProgram κ ρ ε α) (f : α → ReadProgram κ ρ ε β) :
    (x >>= f).run s = x.run s >>= fun a => (f a).run s := by
  rw [bind_eq]
  induction x with
  | done result => cases result <;> rfl
  | read k next ih => exact ih (s k)

@[simp] theorem run_attempt (x : ReadProgram κ ρ ε α) : x.attempt.run s = .ok (x.run s) := by
  induction x with
  | done result => rfl
  | read k next ih => exact ih (s k)

theorem run_mapM (f : α → ReadProgram κ ρ ε β) (l : List α) :
    (l.mapM f).run s = l.mapM fun a => (f a).run s := by
  induction l with
  | nil => rfl
  | cons a l ih =>
    simp only [List.mapM_cons, run_bind, ih, run_pure]
    rfl

theorem run_foldlM {σ : Type} (f : σ → α → ReadProgram κ ρ ε σ) (a : σ) (l : List α) :
    (l.foldlM f a).run s = l.foldlM (fun b x => (f b x).run s) a := by
  induction l generalizing a with
  | nil => rfl
  | cons x l ih =>
    simp only [List.foldlM_cons, run_bind, ih]

theorem keysRead_bind (x : ReadProgram κ ρ ε α) (f : α → ReadProgram κ ρ ε β) :
    (x >>= f).keysRead s = x.keysRead s ++ match x.run s with
      | .ok a => (f a).keysRead s
      | .error _ => [] := by
  rw [bind_eq]
  induction x with
  | done result => cases result <;> rfl
  | read k next ih => exact congrArg (k :: ·) (ih (s k))

end Run

theorem run_congr {s t : κ → ρ} {x : ReadProgram κ ρ ε α} (h : ∀ k ∈ x.keysRead s, s k = t k) :
    x.run s = x.run t := by
  induction x with
  | done result => rfl
  | read k next ih =>
    have hk : s k = t k := h k List.mem_cons_self
    rw [run, run, ← hk]
    exact ih (s k) fun j hj => h j (List.mem_cons_of_mem k hj)

theorem keysRead_congr {s t : κ → ρ} {x : ReadProgram κ ρ ε α}
    (h : ∀ k ∈ x.keysRead s, s k = t k) : x.keysRead t = x.keysRead s := by
  induction x with
  | done result => rfl
  | read k next ih =>
    have hk : s k = t k := h k List.mem_cons_self
    rw [keysRead, keysRead, ← hk, ih (s k) fun j hj => h j (List.mem_cons_of_mem k hj)]

/-- The keys that a program asks for are among those described, whatever it is answered. -/
def ReadsOnly (P : κ → Prop) : ReadProgram κ ρ ε α → Prop
  | done _ => True
  | read k next => P k ∧ ∀ r, (next r).ReadsOnly P

section ReadsOnly

variable {P : κ → Prop}

theorem readsOnly_done (result : Except ε α) :
    (done result : ReadProgram κ ρ ε α).ReadsOnly P := trivial

theorem readsOnly_pure (a : α) : (pure a : ReadProgram κ ρ ε α).ReadsOnly P := trivial

theorem readsOnly_ask {k : κ} (h : P k) :
    (ask k : ReadProgram κ (Except ε ρ) ε ρ).ReadsOnly P :=
  ⟨h, fun _ => trivial⟩

theorem ReadsOnly.bind {x : ReadProgram κ ρ ε α} {f : α → ReadProgram κ ρ ε β}
    (hx : x.ReadsOnly P) (hf : ∀ a, (f a).ReadsOnly P) : (x >>= f).ReadsOnly P := by
  rw [bind_eq]
  induction x with
  | done result =>
    cases result with
    | error e => trivial
    | ok a => exact hf a
  | read k next ih => exact ⟨hx.1, fun r => ih r (hx.2 r)⟩

theorem readsOnly_lift_bind {result : Except ε α} {f : α → ReadProgram κ ρ ε β}
    (hf : ∀ a, result = .ok a → (f a).ReadsOnly P) :
    ((liftM result : ReadProgram κ ρ ε α) >>= f).ReadsOnly P := by
  cases result with
  | error e => trivial
  | ok a => exact hf a rfl

theorem readsOnly_foldlM {σ : Type} {f : σ → α → ReadProgram κ ρ ε σ} {l : List α}
    (hf : ∀ b, ∀ a ∈ l, (f b a).ReadsOnly P) (b : σ) : (l.foldlM f b).ReadsOnly P := by
  induction l generalizing b with
  | nil => trivial
  | cons a l ih =>
    rw [List.foldlM_cons]
    exact (hf b a List.mem_cons_self).bind
      fun b' => ih (fun b a ha => hf b a (List.mem_cons_of_mem _ ha)) b'

theorem readsOnly_forM {f : α → ReadProgram κ ρ ε PUnit} {l : List α}
    (hf : ∀ a ∈ l, (f a).ReadsOnly P) : (l.forM f).ReadsOnly P := by
  induction l with
  | nil => trivial
  | cons a l ih =>
    exact (hf a List.mem_cons_self).bind
      fun _ => ih fun a ha => hf a (List.mem_cons_of_mem _ ha)

theorem ReadsOnly.mono {Q : κ → Prop} {x : ReadProgram κ ρ ε α} (hx : x.ReadsOnly P)
    (h : ∀ k, P k → Q k) : x.ReadsOnly Q := by
  induction x with
  | done result => trivial
  | read k next ih => exact ⟨h k hx.1, fun r => ih r (hx.2 r)⟩

theorem ReadsOnly.run_congr {s t : κ → ρ} {x : ReadProgram κ ρ ε α} (hx : x.ReadsOnly P)
    (h : ∀ k, P k → s k = t k) : x.run s = x.run t := by
  induction x with
  | done result => rfl
  | read k next ih =>
    rw [run, run, ← h k hx.1]
    exact ih (s k) (hx.2 _)

end ReadsOnly

end ReadProgram

import Mathlib.Data.List.Basic

/-! Processes that run side by side and meet in collective operations, such as the sum of what all
of them contribute. A group goes on as long as all its processes are at the same operation; it
ends when all of them return, and it fails when one raises or when they do not meet. -/
namespace Collectives

variable {ε τ α γ : Type}

/-- One process: it returns, raises, or contributes a value to a collective operation and goes on
with what comes out. -/
inductive Process (ε τ α : Type) : Type where
  | ret (a : α)
  | raise (e : ε)
  | allReduce (t : τ) (next : τ → Process ε τ α)
  | allGather (t : τ) (next : List τ → Process ε τ α)

namespace Process

def bind (p : Process ε τ α) (f : α → Process ε τ γ) : Process ε τ γ :=
  match p with
  | .ret a => f a
  | .raise e => .raise e
  | .allReduce t next => .allReduce t fun total => (next total).bind f
  | .allGather t next => .allGather t fun parts => (next parts).bind f

instance : Monad (Process ε τ) where
  pure := .ret
  bind := bind

def lift : Except ε α → Process ε τ α
  | .ok a => .ret a
  | .error e => .raise e

@[simp] theorem ret_bind (a : α) (f : α → Process ε τ γ) : (ret a >>= f) = f a := rfl

@[simp] theorem pure_eq_ret (a : α) : (pure a : Process ε τ α) = ret a := rfl

@[simp] theorem raise_bind (e : ε) (f : α → Process ε τ γ) :
    ((raise e : Process ε τ α) >>= f) = raise e := rfl

@[simp] theorem allReduce_bind (t : τ) (next : τ → Process ε τ α) (f : α → Process ε τ γ) :
    (allReduce t next >>= f) = allReduce t fun total => next total >>= f := rfl

@[simp] theorem allGather_bind (t : τ) (next : List τ → Process ε τ α) (f : α → Process ε τ γ) :
    (allGather t next >>= f) = allGather t fun parts => next parts >>= f := rfl

@[simp] theorem lift_ok (a : α) : (lift (.ok a) : Process ε τ α) = ret a := rfl

@[simp] theorem lift_error (e : ε) : (lift (.error e) : Process ε τ α) = raise e := rfl

theorem bind_assoc {δ : Type} (p : Process ε τ α) (f : α → Process ε τ γ)
    (g : γ → Process ε τ δ) : (p >>= f) >>= g = p >>= fun a => f a >>= g := by
  induction p with
  | ret a => rfl
  | raise e => rfl
  | allReduce t next ih =>
    simp only [allReduce_bind, allReduce.injEq, true_and]
    exact funext ih
  | allGather t next ih =>
    simp only [allGather_bind, allGather.injEq, true_and]
    exact funext ih

end Process

open Process

/-- What the collective operations make of the contributions, and the failure of a group whose
processes do not meet. -/
structure Medium (ε τ : Type) where
  reduce : List τ → Except ε τ
  gather : List τ → Except ε (List τ)
  stuck : ε

section Group

variable (M : Medium ε τ)

def atReturn : Process ε τ α → Except ε α
  | .ret a => .ok a
  | .raise e => .error e
  | _ => .error M.stuck

def atReduce : Process ε τ α → Except ε (τ × (τ → Process ε τ α))
  | .allReduce t next => .ok (t, next)
  | .raise e => .error e
  | _ => .error M.stuck

def atGather : Process ε τ α → Except ε (τ × (List τ → Process ε τ α))
  | .allGather t next => .ok (t, next)
  | .raise e => .error e
  | _ => .error M.stuck

def proceed : Process ε τ α → List (Process ε τ α) → Except ε (List α)
  | .ret a, others => do return a :: (← others.mapM (atReturn M))
  | .raise e, _ => .error e
  | .allReduce t next, others => do
    let met ← others.mapM (atReduce M)
    let total ← M.reduce (t :: met.map Prod.fst)
    proceed (next total) (met.map fun p => p.2 total)
  | .allGather t next, others => do
    let met ← others.mapM (atGather M)
    let parts ← M.gather (t :: met.map Prod.fst)
    proceed (next parts) (met.map fun p => p.2 parts)

def runGroup : List (Process ε τ α) → Except ε (List α)
  | [] => .ok []
  | p :: others => proceed M p others

variable {M}

theorem mapM_met {κ δ : Type} {find : Process ε τ α → Except ε δ} {l : List κ}
    {p : κ → Process ε τ α} (met : κ → δ) (h : ∀ i, find (p i) = .ok (met i)) :
    (l.map p).mapM find = .ok (l.map met) := by
  induction l with
  | nil => rfl
  | cons i l ih =>
    rw [List.map_cons, List.mapM_cons, h, ih]
    rfl

variable {κ : Type} {l : List κ}

theorem runGroup_ret (a : κ → α) : runGroup M (l.map fun i => ret (a i)) = .ok (l.map a) := by
  cases l with
  | nil => rfl
  | cons i l =>
    change ((l.map fun i => ret (a i)).mapM (atReturn M) >>= _) = _
    rw [mapM_met a fun i => rfl]
    rfl

theorem runGroup_allReduce (hl : l ≠ []) (t : κ → τ) (next : κ → τ → Process ε τ α) :
    runGroup M (l.map fun i => allReduce (t i) (next i)) =
      M.reduce (l.map t) >>= fun total => runGroup M (l.map fun i => next i total) := by
  cases l with
  | nil => exact absurd rfl hl
  | cons i l =>
    change ((l.map fun i => allReduce (t i) (next i)).mapM (atReduce M) >>= _) = _
    rw [mapM_met (fun i => (t i, next i)) fun i => rfl]
    change (M.reduce (t i :: (l.map fun i => (t i, next i)).map Prod.fst) >>= _) = _
    rw [List.map_map]
    refine bind_congr fun total => ?_
    change proceed M _ ((l.map fun i => (t i, next i)).map _) = proceed M _ _
    rw [List.map_map]
    rfl

theorem runGroup_allGather (hl : l ≠ []) (t : κ → τ) (next : κ → List τ → Process ε τ α) :
    runGroup M (l.map fun i => allGather (t i) (next i)) =
      M.gather (l.map t) >>= fun parts => runGroup M (l.map fun i => next i parts) := by
  cases l with
  | nil => exact absurd rfl hl
  | cons i l =>
    change ((l.map fun i => allGather (t i) (next i)).mapM (atGather M) >>= _) = _
    rw [mapM_met (fun i => (t i, next i)) fun i => rfl]
    change (M.gather (t i :: (l.map fun i => (t i, next i)).map Prod.fst) >>= _) = _
    rw [List.map_map]
    refine bind_congr fun parts => ?_
    change proceed M _ ((l.map fun i => (t i, next i)).map _) = proceed M _ _
    rw [List.map_map]
    rfl

theorem mapM_error_of_mem {δ : Type} {f : α → Except ε δ} {l : List α} {a : α} (ha : a ∈ l)
    {e : ε} (h : f a = .error e) : ∃ e', l.mapM f = .error e' := by
  induction l with
  | nil => cases ha
  | cons b l ih =>
    rw [List.mapM_cons]
    cases hb : f b with
    | error e' => exact ⟨e', rfl⟩
    | ok d =>
      rcases List.mem_cons.mp ha with rfl | hrest
      · rw [h] at hb
        cases hb
      · obtain ⟨e', he'⟩ := ih hrest
        exact ⟨e', by rw [he']; rfl⟩

theorem runGroup_raise {ps : List (Process ε τ α)} {e : ε} (h : raise e ∈ ps) :
    ∃ e', runGroup M ps = .error e' := by
  cases ps with
  | nil => cases h
  | cons p others =>
    rcases List.mem_cons.mp h with rfl | hothers
    · exact ⟨e, rfl⟩
    · cases p with
      | raise e' => exact ⟨e', rfl⟩
      | ret a =>
        obtain ⟨e', he'⟩ := mapM_error_of_mem (f := atReturn M) hothers rfl
        exact ⟨e', by rw [runGroup, proceed, he']; rfl⟩
      | allReduce t next =>
        obtain ⟨e', he'⟩ := mapM_error_of_mem (f := atReduce M) hothers rfl
        exact ⟨e', by rw [runGroup, proceed, he']; rfl⟩
      | allGather t next =>
        obtain ⟨e', he'⟩ := mapM_error_of_mem (f := atGather M) hothers rfl
        exact ⟨e', by rw [runGroup, proceed, he']; rfl⟩

theorem runGroup_lift (hl : l ≠ []) (x : Except ε α) :
    runGroup M (l.map fun _ => lift x) = x.map fun a => l.map fun _ => a := by
  cases x with
  | ok a => exact runGroup_ret fun _ => a
  | error e =>
    cases l with
    | nil => exact absurd rfl hl
    | cons i l => rfl

end Group

end Collectives

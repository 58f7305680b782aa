import Mathlib.Data.Set.Basic
import Mathlib.Logic.Function.Basic
import Teuton.OrchestratorQueue

/-! Several queue writers on one bucket object. A mutator is one step; a flush or a reconcile is
cut at every point where the source releases the lock or talks to the bucket, and the steps of
all writers interleave freely. Conditional puts are atomic; the bucket chooses the new tag. -/
namespace QueueWriters

open PyJson Signatures OrchestratorQueue

variable {β ω τ : Type}

inductive Mutator where
  | add (entry : QueueEntry)
  | remove (jobId : String)
  | removeMany (jobIds : List String)
  | replay (jobId : String) (attempt deadlineUnix : ℤ)
  | pruneExpired (now : ℚ)

def Mutator.apply : Mutator → Writer → Writer
  | .add entry, w => w.add entry
  | .remove jobId, w => (w.remove jobId).2
  | .removeMany jobIds, w => (w.removeMany jobIds).2
  | .replay jobId attempt deadlineUnix, w => w.replay jobId attempt deadlineUnix
  | .pruneExpired now, w => (w.pruneExpired now).2

theorem mutator_keeps (m : Mutator) (W : Writer) :
    (m.apply W).etag = W.etag ∧ (m.apply W).snapshotId = W.snapshotId := by
  cases m with
  | add entry => exact ⟨rfl, rfl⟩
  | remove jobId =>
    simp only [Mutator.apply, Writer.remove]
    split_ifs <;> exact ⟨rfl, rfl⟩
  | removeMany jobIds =>
    simp only [Mutator.apply, Writer.removeMany]
    split_ifs <;> exact ⟨rfl, rfl⟩
  | replay jobId attempt deadlineUnix =>
    simp only [Mutator.apply, Writer.replay]
    split <;> exact ⟨rfl, rfl⟩
  | pruneExpired now =>
    simp only [Mutator.apply, Writer.pruneExpired]
    split_ifs <;> exact ⟨rfl, rfl⟩

theorem mutator_etag (m : Mutator) (W : Writer) : (m.apply W).etag = W.etag :=
  (mutator_keeps m W).1

def Mutator.track : Mutator → Writer → List String → List String
  | .add entry, _, removed => removed.filter (· ≠ entry.jobId)
  | .remove jobId, _, removed => jobId :: removed
  | .removeMany jobIds, _, removed => jobIds ++ removed
  | .replay .., _, removed => removed
  | .pruneExpired now, w, removed =>
    (w.pruneExpired now).1.map QueueEntry.jobId ++ removed

/-- How far a flush or a reconcile has come. `held` is the content of `_outstanding` when the
payload was built; `retry` marks the second payload, built after a conflict. -/
inductive Call (β : Type) where
  | built (retry : Bool) (held : List QueueEntry) (body : β) (prior : Option String)
  | refused
  | mergeRead (state : Option QueueState)
  | merged
  | published (held : List QueueEntry) (newEtag : String)
  | reconcileRead (state : Option QueueState) (recent : List String)

/-- The bucket object, the writers `ω` and the calls in progress `τ`. The list of removed
jobs is a history variable: no step reads it. -/
structure System (β ω τ : Type) where
  cell : CasCell β
  writers : ω → Writer
  calls : τ → Option (ω × Call β)
  removed : ω → List String

inductive Event (ω τ : Type) where
  | mutate (w : ω) (m : Mutator)
  | flushStart (c : τ) (w : ω) (force : Bool) (now : ℤ)
  | put (c : τ) (newEtag : String)
  | putRefused (c : τ)
  | readForMerge (c : τ)
  | merge (c : τ)
  | rebuild (c : τ) (now : ℤ)
  | finish (c : τ)
  | raise (c : τ)
  | readForReconcile (c : τ) (w : ω) (recent : List String)
  | reconcile (c : τ)
  | restart (w : ω)

variable [DecidableEq ω] [DecidableEq τ]

/-- Writer `w` gets the fields `W`, and its call `c` moves on to `k` or ends. -/
def System.act (s : System β ω τ) (w : ω) (W : Writer) (c : τ) (k : Option (Call β)) :
    System β ω τ :=
  { s with
    writers := Function.update s.writers w W
    calls := Function.update s.calls c (k.map fun k => (w, k)) }

def System.mutate (s : System β ω τ) (w : ω) (m : Mutator) : System β ω τ :=
  { s with
    writers := Function.update s.writers w (m.apply (s.writers w))
    removed := Function.update s.removed w (m.track (s.writers w) (s.removed w)) }

def System.restart (s : System β ω τ) (w : ω) : System β ω τ :=
  { s with
    writers := Function.update s.writers w {}
    calls := fun c =>
      match s.calls c with
      | some (w', k) => if w' = w then none else some (w', k)
      | none => none
    removed := Function.update s.removed w [] }

def System.stored (s : System β ω τ) (v : Version β) (h : s.cell.Accepts v) : System β ω τ :=
  { s with cell := s.cell.store v h }

theorem act_calls_some {s : System β ω τ} {w w' : ω} {W : Writer} {c c' : τ}
    {k : Option (Call β)} {k' : Call β} (h : (s.act w W c k).calls c' = some (w', k')) :
    (c' = c ∧ w' = w ∧ k = some k') ∨ (c' ≠ c ∧ s.calls c' = some (w', k')) := by
  by_cases hc : c' = c
  · subst hc
    cases k with
    | none => simp [System.act] at h
    | some k₀ =>
      simp only [System.act, Function.update_self, Option.map_some, Option.some.injEq,
        Prod.mk.injEq] at h
      exact Or.inl ⟨rfl, h.1.symm, congrArg some h.2⟩
  · simp only [System.act, Function.update_of_ne hc] at h
    exact Or.inr ⟨hc, h⟩

omit [DecidableEq τ] in
theorem restart_calls_some {s : System β ω τ} {w w' : ω} {c : τ} {k : Call β}
    (h : (s.restart w).calls c = some (w', k)) : w' ≠ w ∧ s.calls c = some (w', k) := by
  simp only [System.restart] at h
  cases hc : s.calls c with
  | none => simp [hc] at h
  | some q =>
    obtain ⟨w₀, k₀⟩ := q
    simp only [hc] at h
    split_ifs at h with hw
    cases h
    exact ⟨hw, rfl⟩

def payloadBody (p : Platform β) (role : QueueRole) (W : Writer) (now : ℤ) : β :=
  p.dumps (W.snapshot role now).toPayload

/-- A flush that finds nothing to do returns at once and changes nothing, so it is no step. An
exception of a bucket operation ends the call where it stands. -/
inductive Step (p : Platform β) (role : QueueRole) :
    System β ω τ → Event ω τ → System β ω τ → Prop where
  | mutate (s w m) : Step p role s (.mutate w m) (s.mutate w m)
  | flushStart (s c w force now) (hidle : s.calls c = none)
      (hgo : ((s.writers w).dirty || force) = true) :
      Step p role s (.flushStart c w force now)
        (s.act w (s.writers w).bumpSnapshotId c
          (some (.built false (s.writers w).outstanding.vals
            (payloadBody p role (s.writers w) now) (s.writers w).etag)))
  | put (s c w retry held body prior newEtag)
      (hcall : s.calls c = some (w, .built retry held body prior))
      (hmatch : Writer.ifMatch prior = s.cell.currentTag)
      (haccept : s.cell.Accepts ⟨newEtag, body⟩) :
      Step p role s (.put c newEtag)
        ((s.stored ⟨newEtag, body⟩ haccept).act w (s.writers w) c (some (.published held newEtag)))
  | putRefused (s c w retry held body prior)
      (hcall : s.calls c = some (w, .built retry held body prior))
      (hmatch : Writer.ifMatch prior ≠ s.cell.currentTag) :
      Step p role s (.putRefused c)
        (s.act w (s.writers w) c (if retry then none else some .refused))
  | readForMerge (s c w state) (hcall : s.calls c = some (w, .refused))
      (hread : readQueue p s.cell = .ok state) :
      Step p role s (.readForMerge c) (s.act w (s.writers w) c (some (.mergeRead state)))
  | merge (s c w state) (hcall : s.calls c = some (w, .mergeRead state)) :
      Step p role s (.merge c) (s.act w ((s.writers w).merge state) c (some .merged))
  | rebuild (s c w now) (hcall : s.calls c = some (w, .merged)) :
      Step p role s (.rebuild c now)
        (s.act w (s.writers w).bumpSnapshotId c
          (some (.built true (s.writers w).outstanding.vals
            (payloadBody p role (s.writers w) now) (s.writers w).etag)))
  | finish (s c w held newEtag) (hcall : s.calls c = some (w, .published held newEtag)) :
      Step p role s (.finish c) (s.act w ((s.writers w).finishFlush newEtag) c none)
  | raisePut (s c w retry held body prior)
      (hcall : s.calls c = some (w, .built retry held body prior)) :
      Step p role s (.raise c) (s.act w (s.writers w) c none)
  | raiseRead (s c w) (hcall : s.calls c = some (w, .refused)) :
      Step p role s (.raise c) (s.act w (s.writers w) c none)
  | readForReconcile (s c w recent state) (hidle : s.calls c = none)
      (hread : readQueue p s.cell = .ok state) :
      Step p role s (.readForReconcile c w recent)
        (s.act w (s.writers w) c (some (.reconcileRead state recent)))
  | reconcile (s c w state recent) (hcall : s.calls c = some (w, .reconcileRead state recent)) :
      Step p role s (.reconcile c) (s.act w ((s.writers w).reconcile state recent) c none)
  | restart (s w) : Step p role s (.restart w) (s.restart w)

/-- Finite runs whose steps all meet a condition on the state before the step. -/
inductive Run (p : Platform β) (role : QueueRole) (Allowed : System β ω τ → Event ω τ → Prop) :
    System β ω τ → System β ω τ → Prop where
  | nil (s) : Run p role Allowed s s
  | snoc {s t u e} : Run p role Allowed s t → Allowed t e → Step p role t e u →
      Run p role Allowed s u

theorem Run.invariant {p : Platform β} {role : QueueRole}
    {Allowed : System β ω τ → Event ω τ → Prop} {Inv : System β ω τ → Prop} {s t : System β ω τ}
    (hpres : ∀ s e t, Inv s → Allowed s e → Step p role s e t → Inv t)
    (hrun : Run p role Allowed s t) (hs : Inv s) : Inv t := by
  induction hrun with
  | nil => exact hs
  | snoc _ hallowed hstep ih => exact hpres _ _ _ ih hallowed hstep

/-- Executable steps: the successor for an event, where a put takes an unused tag. -/
def exec (p : Platform β) (role : QueueRole) (s : System β ω τ) :
    Event ω τ → Option (System β ω τ)
  | .mutate w m => some (s.mutate w m)
  | .flushStart c w force now =>
    match s.calls c with
    | none =>
      if (s.writers w).dirty || force then
        some (s.act w (s.writers w).bumpSnapshotId c
          (some (.built false (s.writers w).outstanding.vals
            (payloadBody p role (s.writers w) now) (s.writers w).etag)))
      else none
    | some _ => none
  | .put c newEtag =>
    match s.calls c with
    | some (w, .built _ held body prior) =>
      if h : Writer.ifMatch prior = s.cell.currentTag ∧ newEtag ≠ "" ∧
          ∀ v ∈ s.cell.versions, v.tag ≠ newEtag then
        some ((s.stored ⟨newEtag, body⟩ ⟨h.2.1, fun v hv ht => absurd ht (h.2.2 v hv)⟩).act w
          (s.writers w) c (some (.published held newEtag)))
      else none
    | _ => none
  | .putRefused c =>
    match s.calls c with
    | some (w, .built retry _ _ prior) =>
      if Writer.ifMatch prior ≠ s.cell.currentTag then
        some (s.act w (s.writers w) c (if retry then none else some .refused))
      else none
    | _ => none
  | .readForMerge c =>
    match s.calls c, readQueue p s.cell with
    | some (w, .refused), .ok state => some (s.act w (s.writers w) c (some (.mergeRead state)))
    | _, _ => none
  | .merge c =>
    match s.calls c with
    | some (w, .mergeRead state) => some (s.act w ((s.writers w).merge state) c (some .merged))
    | _ => none
  | .rebuild c now =>
    match s.calls c with
    | some (w, .merged) =>
      some (s.act w (s.writers w).bumpSnapshotId c
        (some (.built true (s.writers w).outstanding.vals
          (payloadBody p role (s.writers w) now) (s.writers w).etag)))
    | _ => none
  | .finish c =>
    match s.calls c with
    | some (w, .published _ newEtag) =>
      some (s.act w ((s.writers w).finishFlush newEtag) c none)
    | _ => none
  | .raise c =>
    match s.calls c with
    | some (w, .built ..) => some (s.act w (s.writers w) c none)
    | some (w, .refused) => some (s.act w (s.writers w) c none)
    | _ => none
  | .readForReconcile c w recent =>
    match s.calls c, readQueue p s.cell with
    | none, .ok state => some (s.act w (s.writers w) c (some (.reconcileRead state recent)))
    | _, _ => none
  | .reconcile c =>
    match s.calls c with
    | some (w, .reconcileRead state recent) =>
      some (s.act w ((s.writers w).reconcile state recent) c none)
    | _ => none
  | .restart w => some (s.restart w)

theorem step_of_exec {p : Platform β} {role : QueueRole} {s t : System β ω τ} {e : Event ω τ}
    (h : exec p role s e = some t) : Step p role s e t := by
  cases e with
  | mutate w m =>
    cases h
    exact .mutate s w m
  | flushStart c w force now =>
    simp only [exec] at h
    split at h
    · next hidle =>
      split_ifs at h with hgo
      cases h
      exact .flushStart s c w force now hidle hgo
    · cases h
  | put c newEtag =>
    simp only [exec] at h
    split at h
    · next hcall =>
      split_ifs at h with hput
      cases h
      exact .put s c _ _ _ _ _ newEtag hcall hput.1 _
    · cases h
  | putRefused c =>
    simp only [exec] at h
    split at h
    · next prior hcall =>
      by_cases hmatch : Writer.ifMatch prior ≠ s.cell.currentTag
      · rw [if_pos hmatch] at h
        cases h
        exact .putRefused s c _ _ _ _ _ hcall hmatch
      · rw [if_neg hmatch] at h
        cases h
    · cases h
  | readForMerge c =>
    simp only [exec] at h
    split at h
    · next hcall hread =>
      cases h
      exact .readForMerge s c _ _ hcall hread
    · cases h
  | merge c =>
    simp only [exec] at h
    split at h
    · next hcall =>
      cases h
      exact .merge s c _ _ hcall
    · cases h
  | rebuild c now =>
    simp only [exec] at h
    split at h
    · next hcall =>
      cases h
      exact .rebuild s c _ now hcall
    · cases h
  | finish c =>
    simp only [exec] at h
    split at h
    · next hcall =>
      cases h
      exact .finish s c _ _ _ hcall
    · cases h
  | raise c =>
    simp only [exec] at h
    split at h
    · next hcall =>
      cases h
      exact .raisePut s c _ _ _ _ _ hcall
    · next hcall =>
      cases h
      exact .raiseRead s c _ hcall
    · cases h
  | readForReconcile c w recent =>
    simp only [exec] at h
    split at h
    · next hidle hread =>
      cases h
      exact .readForReconcile s c w recent _ hidle hread
    · cases h
  | reconcile c =>
    simp only [exec] at h
    split at h
    · next hcall =>
      cases h
      exact .reconcile s c _ _ _ hcall
    · cases h
  | restart w =>
    cases h
    exact .restart s w

/-- The state after a schedule, if every event can happen and passes the test. -/
def execAll (p : Platform β) (role : QueueRole) (test : System β ω τ → Event ω τ → Bool) :
    System β ω τ → List (Event ω τ) → Option (System β ω τ)
  | s, [] => some s
  | s, e :: es =>
    if test s e then
      match exec p role s e with
      | some t => execAll p role test t es
      | none => none
    else none

theorem Run.prepend {p : Platform β} {role : QueueRole}
    {Allowed : System β ω τ → Event ω τ → Prop} {s t u : System β ω τ} {e : Event ω τ}
    (hallowed : Allowed s e) (hstep : Step p role s e t) (hrun : Run p role Allowed t u) :
    Run p role Allowed s u := by
  induction hrun with
  | nil => exact .snoc (.nil _) hallowed hstep
  | snoc _ ha hst ih => exact .snoc ih ha hst

theorem run_of_execAll {p : Platform β} {role : QueueRole}
    {test : System β ω τ → Event ω τ → Bool} {Allowed : System β ω τ → Event ω τ → Prop}
    (htest : ∀ s e, test s e = true → Allowed s e) {s t : System β ω τ} {es : List (Event ω τ)}
    (h : execAll p role test s es = some t) : Run p role Allowed s t := by
  induction es generalizing s with
  | nil =>
    cases h
    exact .nil _
  | cons e es ih =>
    simp only [execAll] at h
    split_ifs at h with hpass
    split at h
    · next u hu => exact Run.prepend (htest s e hpass) (step_of_exec hu) (ih h)
    · cases h

/-- Fresh writers on an object that is absent or has one version from an earlier life. -/
structure Start (s : System β ω τ) : Prop where
  versions : s.cell.versions.length ≤ 1
  writers : ∀ w, s.writers w = {}
  calls : ∀ c, s.calls c = none
  removed : ∀ w, s.removed w = []

def twoWriters : System Json Bool Bool :=
  ⟨CasCell.absent, fun _ => {}, fun _ => none, fun _ => []⟩

theorem twoWriters_start : Start twoWriters :=
  ⟨Nat.zero_le 1, fun _ => rfl, fun _ => rfl, fun _ => rfl⟩

def plainEntry (jobId : String) : QueueEntry := ⟨jobId, "hk", none, "m", none, 0, 0, 0⟩

def publishedEntries (p : Platform β) (body : β) : List QueueEntry :=
  match decodeSnapshot p body none with
  | .ok (some st) => st.outstanding
  | _ => []

def entryIds (l : List QueueEntry) : Set String := {j | j ∈ l.map QueueEntry.jobId}

def jobIds (p : Platform β) (body : β) : Set String := entryIds (publishedEntries p body)

theorem decodeSnapshot_some {p : Platform β} {body : β} {etag : Option String}
    {st : QueueState} (h : decodeSnapshot p body etag = .ok (some st)) :
    st.etag = etag ∧ ∃ st₀, decodeSnapshot p body none = .ok (some st₀) ∧
      st = { st₀ with etag := etag } := by
  rw [decodeSnapshot_etag] at h
  cases hd : decodeSnapshot p body none with
  | error e =>
    rw [hd] at h
    cases h
  | ok o =>
    cases o with
    | none =>
      rw [hd] at h
      cases h
    | some st₀ =>
      rw [hd] at h
      cases h
      exact ⟨rfl, st₀, rfl, rfl⟩

theorem readQueue_decodes {p : Platform β} {cell : CasCell β} {st : QueueState}
    (h : readQueue p cell = .ok (some st)) :
    ∃ v, cell.current = some v ∧ decodeSnapshot p v.body (some v.tag) = .ok (some st) := by
  cases hc : cell.current with
  | none =>
    simp only [readQueue, getWithEtag, hc] at h
    cases h
  | some v =>
    simp only [readQueue, getWithEtag, hc, reduceCtorEq, if_false] at h
    exact ⟨v, rfl, h⟩

theorem readQueue_some {p : Platform β} {cell : CasCell β} {st : QueueState}
    (h : readQueue p cell = .ok (some st)) :
    ∃ v, cell.current = some v ∧ st.etag = some v.tag ∧
      st.outstanding = publishedEntries p v.body := by
  obtain ⟨v, hv, hdecode⟩ := readQueue_decodes h
  obtain ⟨-, st₀, hst₀, rfl⟩ := decodeSnapshot_some hdecode
  refine ⟨v, hv, rfl, ?_⟩
  rw [publishedEntries, hst₀]

theorem decodeSnapshot_payloadBody {p : Platform β}
    (loads_dumps : p.Rereads) (role : QueueRole) (W : Writer)
    (now : ℤ) (etag : Option String) :
    decodeSnapshot p (payloadBody p role W now) etag =
      .ok (some { W.snapshot role now with etag := etag }) := by
  have hversion : (W.snapshot role now).version ≠ 0 := by
    simp [Writer.snapshot]
  exact decodeSnapshot_dumps loads_dumps (role_value_ne_empty role) hversion etag

theorem publishedEntries_payloadBody {p : Platform β}
    (loads_dumps : p.Rereads) (role : QueueRole) (W : Writer)
    (now : ℤ) : publishedEntries p (payloadBody p role W now) = W.outstanding.vals := by
  rw [publishedEntries, decodeSnapshot_payloadBody loads_dumps]
  rfl

theorem readQueue_payloadBody {p : Platform β}
    (loads_dumps : p.Rereads) {cell : CasCell β}
    {role : QueueRole} {W : Writer} {now : ℤ} {tag : String}
    (h : cell.current = some ⟨tag, payloadBody p role W now⟩) :
    readQueue p cell = .ok (some { W.snapshot role now with etag := some tag }) := by
  simp only [readQueue, getWithEtag, h, reduceCtorEq, if_false]
  exact decodeSnapshot_payloadBody loads_dumps role W now (some tag)

end QueueWriters

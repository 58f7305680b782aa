import Mathlib.Data.Int.ConditionallyCompleteOrder
import Teuton.QueueWriters

/-! Snapshot ids identify versions. A writer's counter is local and is bumped whether or not the
put succeeds, but it never falls below the id of the version that the writer's etag names, so a
conditional put that succeeds stores a larger id than every version before it. -/
namespace QueueVersions

open PyJson Signatures OrchestratorQueue QueueWriters

variable {β ω τ : Type}

def snapshotIdOf (p : Platform β) (body : β) : ℤ :=
  match decodeSnapshot p body none with
  | .ok (some st) => st.snapshotId
  | _ => 0

/-- If there is an etag, it names a stored version whose id is at most `n`. -/
def Bounded (p : Platform β) (cell : CasCell β) (etag : Option String) (n : ℤ) : Prop :=
  ∀ tag, etag = some tag → cell.Covers (snapshotIdOf p) tag n

/-- What a call in progress knows, for a writer whose counter is `n`. -/
def CallOk (p : Platform β) (cell : CasCell β) (n : ℤ) : Call β → Prop
  | .built _ _ body prior =>
    snapshotIdOf p body ≤ n ∧ Bounded p cell prior (snapshotIdOf p body - 1)
  | .mergeRead (some st) => Bounded p cell st.etag st.snapshotId
  | .published _ newEtag => cell.Covers (snapshotIdOf p) newEtag n
  | .reconcileRead (some st) _ => Bounded p cell st.etag st.snapshotId
  | _ => True

structure Invariant (p : Platform β) (s : System β ω τ) : Prop where
  increasing : s.cell.Increasing (snapshotIdOf p)
  writers : ∀ w, Bounded p s.cell (s.writers w).etag (s.writers w).snapshotId
  calls : ∀ c w k, s.calls c = some (w, k) → CallOk p s.cell (s.writers w).snapshotId k

section Lemmas

variable {p : Platform β} {cell : CasCell β}

theorem bounded_none (n : ℤ) : Bounded p cell none n := by
  intro tag htag
  cases htag

variable {n : ℤ} {v : Version β} {s : System β ω τ}

theorem Bounded.mono {etag : Option String} {m : ℤ} (h : Bounded p cell etag m)
    (hmn : m ≤ n) : Bounded p cell etag n := by
  intro tag htag
  exact (h tag htag).mono hmn

theorem Bounded.store {etag : Option String} (h : Bounded p cell etag n)
    (hv : cell.Accepts v) : Bounded p (cell.store v hv) etag n := by
  intro tag htag
  exact (h tag htag).store hv

theorem CallOk.mono {k : Call β} {m : ℤ} (h : CallOk p cell m k) (hmn : m ≤ n) :
    CallOk p cell n k := by
  cases k with
  | built retry held body prior => exact ⟨h.1.trans hmn, h.2⟩
  | refused => trivial
  | mergeRead state => cases state <;> exact h
  | merged => trivial
  | published held newEtag => exact CasCell.Covers.mono h hmn
  | reconcileRead state recent => cases state <;> exact h

theorem CallOk.store {k : Call β} (h : CallOk p cell n k)
    (hv : cell.Accepts v) : CallOk p (cell.store v hv) n k := by
  cases k with
  | built retry held body prior => exact ⟨h.1, h.2.store hv⟩
  | refused => trivial
  | mergeRead state =>
    cases state with
    | none => trivial
    | some st => exact Bounded.store h hv
  | merged => trivial
  | published held newEtag => exact CasCell.Covers.store h hv
  | reconcileRead state recent =>
    cases state with
    | none => trivial
    | some st => exact Bounded.store h hv

theorem bounded_of_read {st : QueueState} (h : readQueue p cell = .ok (some st)) :
    Bounded p cell st.etag st.snapshotId := by
  obtain ⟨v, hv, hdecode⟩ := readQueue_decodes h
  obtain ⟨hetag, st₀, hst₀, rfl⟩ := decodeSnapshot_some hdecode
  intro tag htag
  rw [hetag] at htag
  cases htag
  apply CasCell.covers_of_mem (CasCell.mem_of_current hv)
  rw [snapshotIdOf, hst₀]

theorem snapshotIdOf_payloadBody (loads_dumps : p.Rereads) (role : QueueRole)
    (W : Writer) (now : ℤ) :
    snapshotIdOf p (payloadBody p role W now) = W.snapshotId + 1 := by
  rw [snapshotIdOf, decodeSnapshot_payloadBody loads_dumps]
  rfl

theorem callOk_built (loads_dumps : p.Rereads)
    (role : QueueRole) (retry : Bool) (now : ℤ) {W : Writer}
    (hW : Bounded p cell W.etag W.snapshotId) :
    CallOk p cell W.bumpSnapshotId.snapshotId
      (.built retry W.outstanding.vals (payloadBody p role W now) W.etag) := by
  have hid := snapshotIdOf_payloadBody loads_dumps role W now
  refine ⟨le_of_eq hid, hW.mono ?_⟩
  omega

theorem mutator_snapshotId (m : Mutator) (W : Writer) :
    (m.apply W).snapshotId = W.snapshotId :=
  (mutator_keeps m W).2

theorem le_merge (W : Writer) (state : Option QueueState) :
    W.snapshotId ≤ (W.merge state).snapshotId := by
  cases state with
  | none => exact le_refl _
  | some st => exact le_max_left _ _

theorem le_reconcile (W : Writer) (state : Option QueueState) (recent : List String) :
    W.snapshotId ≤ (W.reconcile state recent).snapshotId := by
  cases state with
  | none => exact le_refl _
  | some st => exact le_max_left _ _

theorem initial_invariant (h : Start s) : Invariant p s := by
  refine ⟨?_, ?_, ?_⟩
  · have hlen := h.versions
    unfold CasCell.Increasing
    match hv : s.cell.versions with
    | [] => exact List.Pairwise.nil
    | [v] => exact List.pairwise_singleton _ v
    | v :: w :: l => simp [hv] at hlen
  · intro w
    rw [h.writers w]
    exact bounded_none _
  · intro c w k hcall
    simp [h.calls c] at hcall

theorem Invariant.stored (hs : Invariant p s)
    (hv : s.cell.Accepts v) {prior : Option String}
    (hmatch : Writer.ifMatch prior = s.cell.currentTag)
    (hprior : Bounded p s.cell prior (snapshotIdOf p v.body - 1)) :
    Invariant p (s.stored v hv) := by
  have hbound : s.cell.currentTag = "" ∨
      s.cell.Covers (snapshotIdOf p) s.cell.currentTag (snapshotIdOf p v.body - 1) := by
    cases prior with
    | none => exact Or.inl hmatch.symm
    | some tag =>
      have htag : tag = s.cell.currentTag := hmatch
      rw [← htag]
      exact Or.inr (hprior tag rfl)
  refine ⟨hs.increasing.store hv (by omega) hbound, ?_, ?_⟩
  · intro w
    exact (hs.writers w).store hv
  · intro c w k h
    exact (hs.calls c w k h).store hv

variable [DecidableEq ω]

theorem Invariant.mutate (hs : Invariant p s) (w : ω) (m : Mutator) :
    Invariant p (s.mutate w m) := by
  have hwriter : ∀ w', ((s.mutate w m).writers w').etag = (s.writers w').etag ∧
      ((s.mutate w m).writers w').snapshotId = (s.writers w').snapshotId := by
    intro w'
    by_cases hw : w' = w
    · subst hw
      simp [System.mutate, mutator_etag, mutator_snapshotId]
    · simp [System.mutate, hw]
  refine ⟨hs.increasing, ?_, ?_⟩
  · intro w'
    rw [(hwriter w').1, (hwriter w').2]
    exact hs.writers w'
  · intro c w' k h
    rw [(hwriter w').2]
    exact hs.calls c w' k h

theorem Invariant.restart (hs : Invariant p s) (w : ω) :
    Invariant p (s.restart w) := by
  refine ⟨hs.increasing, ?_, ?_⟩
  · intro w'
    by_cases hw : w' = w
    · subst hw
      simpa [System.restart] using bounded_none 0
    · simpa [System.restart, hw] using hs.writers w'
  · intro c w' k h
    obtain ⟨hw, h'⟩ := restart_calls_some h
    simpa [System.restart, hw] using hs.calls c w' k h'

variable [DecidableEq τ]

/-- A step that changes one writer and one of its calls keeps the invariant when the counter
does not fall; the writer's other calls go on with the larger counter. -/
theorem Invariant.act (hs : Invariant p s) {w : ω} {W : Writer} {c : τ}
    {k : Option (Call β)} (hle : (s.writers w).snapshotId ≤ W.snapshotId)
    (hW : Bounded p s.cell W.etag W.snapshotId)
    (hk : ∀ k', k = some k' → CallOk p s.cell W.snapshotId k') : Invariant p (s.act w W c k) := by
  refine ⟨hs.increasing, ?_, ?_⟩
  · intro w'
    by_cases hw : w' = w
    · subst hw
      simpa [System.act] using hW
    · simpa [System.act, hw] using hs.writers w'
  · intro c' w' k' h
    rcases act_calls_some h with ⟨rfl, rfl, hk'⟩ | ⟨-, h'⟩
    · simpa [System.act] using hk k' hk'
    · by_cases hw : w' = w
      · subst hw
        simpa [System.act] using (hs.calls c' w' k' h').mono hle
      · simpa [System.act, hw] using hs.calls c' w' k' h'

theorem Invariant.call (hs : Invariant p s) {w : ω} {c : τ}
    {k : Option (Call β)}
    (hk : ∀ k', k = some k' → CallOk p s.cell (s.writers w).snapshotId k') :
    Invariant p (s.act w (s.writers w) c k) :=
  hs.act (le_refl _) (hs.writers w) hk

end Lemmas

variable [DecidableEq ω] [DecidableEq τ]

theorem step_preserves_invariant {p : Platform β} {role : QueueRole}
    (loads_dumps : p.Rereads) {s t : System β ω τ}
    {e : Event ω τ} (hs : Invariant p s) (hstep : Step p role s e t) : Invariant p t := by
  cases hstep with
  | mutate w m => exact hs.mutate w m
  | flushStart c w force now hidle hgo =>
    have hle : (s.writers w).snapshotId ≤ (s.writers w).bumpSnapshotId.snapshotId := by
      simp [Writer.bumpSnapshotId]
    refine hs.act hle ((hs.writers w).mono hle) ?_
    rintro _ ⟨⟩
    exact callOk_built loads_dumps role false now (hs.writers w)
  | put c w retry held body prior newEtag hcall hmatch haccept =>
    obtain ⟨hid, hprior⟩ := hs.calls c w _ hcall
    apply (hs.stored haccept hmatch hprior).call
    rintro _ ⟨⟩
    exact CasCell.covers_stored haccept hid
  | putRefused c w retry held body prior hcall hmatch =>
    apply hs.call
    intro k' hk'
    cases retry with
    | false =>
      cases hk'
      trivial
    | true => cases hk'
  | readForMerge c w state hcall hread =>
    apply hs.call
    rintro _ ⟨⟩
    cases state with
    | none => trivial
    | some st => exact bounded_of_read hread
  | merge c w state hcall =>
    have hread := hs.calls c w _ hcall
    refine hs.act (le_merge _ state) ?_ ?_
    · cases state with
      | none => exact bounded_none _
      | some st => exact Bounded.mono hread (le_max_right _ _)
    · rintro _ ⟨⟩
      trivial
  | rebuild c w now hcall =>
    have hle : (s.writers w).snapshotId ≤ (s.writers w).bumpSnapshotId.snapshotId := by
      simp [Writer.bumpSnapshotId]
    refine hs.act hle ((hs.writers w).mono hle) ?_
    rintro _ ⟨⟩
    exact callOk_built loads_dumps role true now (hs.writers w)
  | finish c w held newEtag hcall =>
    have hcover := hs.calls c w _ hcall
    refine hs.act (le_refl _) ?_ ?_
    · rintro _ ⟨⟩
      exact hcover
    · rintro _ ⟨⟩
  | raisePut c w retry held body prior hcall =>
    apply hs.call
    rintro _ ⟨⟩
  | raiseRead c w hcall =>
    apply hs.call
    rintro _ ⟨⟩
  | readForReconcile c w recent state hidle hread =>
    apply hs.call
    rintro _ ⟨⟩
    cases state with
    | none => trivial
    | some st => exact bounded_of_read hread
  | reconcile c w state recent hcall =>
    have hread := hs.calls c w _ hcall
    refine hs.act (le_reconcile _ state recent) ?_ ?_
    · cases state with
      | none => exact bounded_none _
      | some st => exact Bounded.mono hread (le_max_right _ _)
    · rintro _ ⟨⟩
  | restart w => exact hs.restart w

/-- Over every run of any writers, with overlapping calls, failures and restarts, each stored
snapshot has a larger id than all snapshots stored before it. -/
theorem snapshot_ids_increase {p : Platform β} {role : QueueRole}
    (loads_dumps : ∀ j, Canonical j → p.loads (p.dumps j) = .ok j) {s₀ s : System β ω τ}
    (hstart : Start s₀) (hrun : Run p role (fun _ _ => True) s₀ s) :
    (s.cell.versions.map fun v => snapshotIdOf p v.body).Pairwise (· < ·) := by
  have hs : Invariant p s :=
    hrun.invariant (fun _ _ _ hi _ hst => step_preserves_invariant loads_dumps hi hst)
      (initial_invariant hstart)
  exact List.pairwise_map.mpr hs.increasing

/-- Two flushes of one writer overlap: the second is built before the first is put, is refused
and retried; a restarted writer then publishes without a reconcile. -/
def overlapSchedule : List (Event Bool Bool) :=
  [.mutate true (.add (plainEntry "x")), .flushStart true true false 0,
   .mutate true (.add (plainEntry "y")), .flushStart false true false 0,
   .put true "e1", .putRefused false, .readForMerge false, .merge false, .rebuild false 1,
   .put false "e2", .finish false, .finish true, .restart true, .flushStart true true true 2,
   .putRefused true, .readForMerge true, .merge true, .rebuild true 3, .put true "e3"]

theorem overlapping_flushes_increase :
    ∃ s, execAll plainPlatform .train (fun _ _ => true) twoWriters overlapSchedule = some s ∧
      s.cell.versions.map (fun v => snapshotIdOf plainPlatform v.body) = [1, 3, 4] ∧
      (s.cell.versions.map fun v => snapshotIdOf plainPlatform v.body).Pairwise (· < ·) := by
  have hids : (execAll plainPlatform .train (fun _ _ => true) twoWriters overlapSchedule).map
      (fun s => s.cell.versions.map fun v => snapshotIdOf plainPlatform v.body) =
        some [1, 3, 4] := by decide +kernel
  obtain ⟨s, hs, hlist⟩ := Option.map_eq_some_iff.mp hids
  have hrun : Run plainPlatform .train (fun _ _ => True) twoWriters s :=
    run_of_execAll (fun _ _ _ => trivial) hs
  exact ⟨s, hs, hlist,
    snapshot_ids_increase plainPlatform_lawful.loads_dumps twoWriters_start hrun⟩

end QueueVersions

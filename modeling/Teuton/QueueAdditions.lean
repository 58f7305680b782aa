import Mathlib.Order.CompletePartialOrder
import Teuton.QueueWriters

/-! No addition is lost among concurrent queue writers. Each writer's map covers the bucket
version its cached etag names, so a conditional put that succeeds replaces a version whose jobs
are all in the new payload. -/
namespace QueueAdditions

open PyJson Signatures OrchestratorQueue QueueWriters

variable {β ω τ : Type}

def Busy (s : System β ω τ) (w : ω) : Prop := ∃ c k, s.calls c = some (w, k)

/-- Additions only, and within one writer flushes and reconciles do not overlap. -/
def AddOnly (s : System β ω τ) : Event ω τ → Prop
  | .mutate _ (.add _) => True
  | .mutate _ _ => False
  | .flushStart _ w _ _ => ¬ Busy s w
  | .readForReconcile _ w recent => recent = [] ∧ ¬ Busy s w
  | _ => True

/-- If there is an etag, it names a stored version that shows only jobs of `ids`. -/
def Covered (p : Platform β) (cell : CasCell β) (etag : Option String) (ids : Set String) : Prop :=
  ∀ tag, etag = some tag → cell.Covers (jobIds p) tag ids

def CallOk (p : Platform β) (cell : CasCell β) (W : Writer) : Call β → Prop
  | .built _ held body prior =>
    publishedEntries p body = held ∧ entryIds held ⊆ entryIds W.outstanding.vals ∧
      Covered p cell prior (entryIds held)
  | .mergeRead (some st) => Covered p cell st.etag (entryIds st.outstanding)
  | .published held newEtag =>
    cell.Covers (jobIds p) newEtag (entryIds W.outstanding.vals) ∧
      ∃ v ∈ cell.versions, v.tag = newEtag ∧ publishedEntries p v.body = held
  | .reconcileRead (some st) recent =>
    recent = [] ∧ Covered p cell st.etag (entryIds st.outstanding)
  | _ => True

structure Invariant (p : Platform β) (s : System β ω τ) : Prop where
  growing : s.cell.Growing (jobIds p)
  writers : ∀ w, Covered p s.cell (s.writers w).etag (entryIds (s.writers w).outstanding.vals)
  calls : ∀ c w k, s.calls c = some (w, k) → CallOk p s.cell (s.writers w) k
  exclusive : ∀ c c' w k k', s.calls c = some (w, k) → s.calls c' = some (w, k') → c = c'

section Lemmas

variable {p : Platform β}

variable {w : ω} {k : Call β} {W : Writer} {cell : CasCell β} {v : Version β} {s : System β ω τ}

theorem Covered.mono {etag : Option String} {ids ids' : Set String}
    (h : Covered p cell etag ids) (hle : ids ⊆ ids') : Covered p cell etag ids' := by
  intro tag htag
  exact (h tag htag).mono hle

theorem Covered.store {etag : Option String} {ids : Set String}
    (h : Covered p cell etag ids) (hv : cell.Accepts v) :
    Covered p (cell.store v hv) etag ids := by
  intro tag htag
  exact (h tag htag).store hv

theorem CallOk.mono {W' : Writer} (h : CallOk p cell W k)
    (hle : entryIds W.outstanding.vals ⊆ entryIds W'.outstanding.vals) : CallOk p cell W' k := by
  cases k with
  | built retry held body prior => exact ⟨h.1, h.2.1.trans hle, h.2.2⟩
  | refused => trivial
  | mergeRead state => cases state <;> exact h
  | merged => trivial
  | published held newEtag => exact ⟨h.1.mono hle, h.2⟩
  | reconcileRead state recent => cases state <;> exact h

theorem CallOk.store (h : CallOk p cell W k)
    (hv : cell.Accepts v) : CallOk p (cell.store v hv) W k := by
  cases k with
  | built retry held body prior => exact ⟨h.1, h.2.1, h.2.2.store hv⟩
  | refused => trivial
  | mergeRead state =>
    cases state with
    | none => trivial
    | some st => exact Covered.store h hv
  | merged => trivial
  | published held newEtag =>
    obtain ⟨hcover, u, hu, htag, hheld⟩ := h
    exact ⟨hcover.store hv, u, CasCell.mem_store.mpr (Or.inl hu), htag, hheld⟩
  | reconcileRead state recent =>
    cases state with
    | none => trivial
    | some st => exact ⟨h.1, h.2.store hv⟩

theorem covered_of_read {st : QueueState}
    (h : readQueue p cell = .ok (some st)) : Covered p cell st.etag (entryIds st.outstanding) := by
  obtain ⟨v, hv, hetag, hout⟩ := readQueue_some h
  intro tag htag
  rw [hetag] at htag
  cases htag
  rw [hout]
  exact CasCell.covers_of_mem (CasCell.mem_of_current hv) (le_refl (jobIds p v.body))

theorem entryIds_add (W : Writer) (entry : QueueEntry) :
    entryIds W.outstanding.vals ⊆ entryIds (W.add entry).outstanding.vals := by
  intro j hj
  exact KeyedDict.mem_keys_set.mpr (Or.inl hj)

theorem entryIds_merge (W : Writer) (st : QueueState) :
    entryIds st.outstanding ⊆ entryIds (W.merge (some st)).outstanding.vals := by
  intro j hj
  exact KeyedDict.mem_keys_setDefaults.mpr (Or.inr hj)

theorem entryIds_reconcile (W : Writer) (st : QueueState) :
    entryIds st.outstanding ⊆ entryIds (W.reconcile (some st) []).outstanding.vals := by
  intro j hj
  exact KeyedDict.mem_keys_ofList.mpr hj

theorem Invariant.own (hs : Invariant p s) {c : τ}
    (hcall : s.calls c = some (w, k)) : ∀ c' k', s.calls c' = some (w, k') → c' = c := by
  intro c' k' h
  exact hs.exclusive c' c w k' k h hcall

theorem own_of_not_busy (h : ¬ Busy s w) (c : τ) :
    ∀ c' k', s.calls c' = some (w, k') → c' = c := by
  intro c' k' hcall
  exact absurd ⟨c', k', hcall⟩ h

theorem Invariant.stored (hs : Invariant p s)
    (hv : s.cell.Accepts v)
    (hbound : s.cell.currentTag = "" ∨
      s.cell.Covers (jobIds p) s.cell.currentTag (jobIds p v.body)) :
    Invariant p (s.stored v hv) := by
  refine ⟨hs.growing.store hv hbound, ?_, ?_, hs.exclusive⟩
  · intro w
    exact (hs.writers w).store hv
  · intro c w k h
    exact (hs.calls c w k h).store hv

theorem callOk_built (loads_dumps : p.Rereads)
    (role : QueueRole) (retry : Bool) (now : ℤ)
    (hW : Covered p cell W.etag (entryIds W.outstanding.vals)) :
    CallOk p cell W.bumpSnapshotId
      (.built retry W.outstanding.vals (payloadBody p role W now) W.etag) :=
  ⟨publishedEntries_payloadBody loads_dumps role W now, subset_rfl, hW⟩

theorem initial_invariant (h : Start s) : Invariant p s := by
  refine ⟨?_, ?_, ?_, ?_⟩
  · have hlen := h.versions
    unfold CasCell.Growing
    match hv : s.cell.versions with
    | [] => exact List.Pairwise.nil
    | [v] => exact List.pairwise_singleton _ v
    | v :: w :: l => simp [hv] at hlen
  · intro w tag htag
    simp [h.writers w] at htag
  · intro c w k hcall
    simp [h.calls c] at hcall
  · intro c c' w k k' hcall
    simp [h.calls c] at hcall

variable [DecidableEq ω]

theorem Invariant.mutate_add (hs : Invariant p s) (w : ω)
    (entry : QueueEntry) : Invariant p (s.mutate w (.add entry)) := by
  have hle := entryIds_add (s.writers w) entry
  refine ⟨hs.growing, ?_, ?_, hs.exclusive⟩
  · intro w'
    by_cases hw : w' = w
    · subst hw
      simpa [System.mutate, Mutator.apply, Writer.add] using (hs.writers w').mono hle
    · simpa [System.mutate, hw] using hs.writers w'
  · intro c w' k h
    have hk := hs.calls c w' k h
    by_cases hw : w' = w
    · subst hw
      simpa [System.mutate, Mutator.apply] using hk.mono hle
    · simpa [System.mutate, hw] using hk

theorem Invariant.restart (hs : Invariant p s) (w : ω) :
    Invariant p (s.restart w) := by
  refine ⟨hs.growing, ?_, ?_, ?_⟩
  · intro w'
    by_cases hw : w' = w
    · subst hw
      intro tag htag
      simp [System.restart] at htag
    · simpa [System.restart, hw] using hs.writers w'
  · intro c w' k h
    obtain ⟨hw, h'⟩ := restart_calls_some h
    simpa [System.restart, hw] using hs.calls c w' k h'
  · intro c c' w' k k' h h'
    exact hs.exclusive c c' w' k k' (restart_calls_some h).2 (restart_calls_some h').2

variable [DecidableEq τ]

/-- A step that changes one writer and one of its calls keeps the invariant when the writer has
no other call and the new fields are right. -/
theorem Invariant.act (hs : Invariant p s) {c : τ}
    {k : Option (Call β)} (hown : ∀ c' k', s.calls c' = some (w, k') → c' = c)
    (hW : Covered p s.cell W.etag (entryIds W.outstanding.vals))
    (hk : ∀ k', k = some k' → CallOk p s.cell W k') : Invariant p (s.act w W c k) := by
  refine ⟨hs.growing, ?_, ?_, ?_⟩
  · intro w'
    by_cases hw : w' = w
    · subst hw
      simpa [System.act] using hW
    · simpa [System.act, hw] using hs.writers w'
  · intro c' w' k' h
    rcases act_calls_some h with ⟨rfl, rfl, hk'⟩ | ⟨hc, h'⟩
    · simpa [System.act] using hk k' hk'
    · have hw : w' ≠ w := by
        rintro rfl
        exact hc (hown c' k' h')
      simpa [System.act, hw] using hs.calls c' w' k' h'
  · intro c₁ c₂ w' k₁ k₂ h₁ h₂
    rcases act_calls_some h₁ with ⟨rfl, rfl, -⟩ | ⟨hc₁, h₁'⟩
    · rcases act_calls_some h₂ with ⟨rfl, -, -⟩ | ⟨-, h₂'⟩
      · rfl
      · exact (hown c₂ k₂ h₂').symm
    · rcases act_calls_some h₂ with ⟨rfl, rfl, -⟩ | ⟨-, h₂'⟩
      · exact hown c₁ k₁ h₁'
      · exact hs.exclusive c₁ c₂ w' k₁ k₂ h₁' h₂'

end Lemmas

variable [DecidableEq ω] [DecidableEq τ]

theorem step_preserves_invariant {p : Platform β} {role : QueueRole}
    (loads_dumps : p.Rereads) {s t : System β ω τ}
    {e : Event ω τ} (hs : Invariant p s) (hallowed : AddOnly s e) (hstep : Step p role s e t) :
    Invariant p t := by
  cases hstep with
  | mutate w m =>
    cases m with
    | add entry => exact hs.mutate_add w entry
    | remove => exact hallowed.elim
    | removeMany => exact hallowed.elim
    | replay => exact hallowed.elim
    | pruneExpired => exact hallowed.elim
  | flushStart c w force now hidle hgo =>
    refine hs.act (own_of_not_busy hallowed c) ?_ ?_
    · exact hs.writers w
    · rintro _ ⟨⟩
      exact callOk_built loads_dumps role false now (hs.writers w)
  | put c w retry held body prior newEtag hcall hmatch haccept =>
    obtain ⟨hbody, hheld, hprior⟩ := hs.calls c w _ hcall
    have hids : jobIds p body = entryIds held := by
      rw [jobIds, hbody]
    have hbound : s.cell.currentTag = "" ∨
        s.cell.Covers (jobIds p) s.cell.currentTag (jobIds p body) := by
      cases prior with
      | none => exact Or.inl hmatch.symm
      | some tag =>
        have htag : tag = s.cell.currentTag := hmatch
        rw [hids, ← htag]
        exact Or.inr (hprior tag rfl)
    have hs' := hs.stored haccept hbound
    apply hs'.act (hs'.own hcall) (hs'.writers w)
    rintro _ ⟨⟩
    have hmem : (⟨newEtag, body⟩ : Version β) ∈ (s.cell.store _ haccept).versions :=
      CasCell.mem_store.mpr (Or.inr rfl)
    refine ⟨CasCell.covers_stored haccept ?_, _, hmem, rfl, hbody⟩
    rw [hids]
    exact hheld
  | putRefused c w retry held body prior hcall hmatch =>
    apply hs.act (hs.own hcall) (hs.writers w)
    intro k' hk'
    cases retry with
    | false =>
      cases hk'
      trivial
    | true => cases hk'
  | readForMerge c w state hcall hread =>
    apply hs.act (hs.own hcall) (hs.writers w)
    rintro _ ⟨⟩
    cases state with
    | none => trivial
    | some st => exact covered_of_read hread
  | merge c w state hcall =>
    have hread := hs.calls c w _ hcall
    apply hs.act (hs.own hcall)
    · cases state with
      | none =>
        intro tag htag
        cases htag
      | some st => exact Covered.mono hread (entryIds_merge (s.writers w) st)
    · rintro _ ⟨⟩
      trivial
  | rebuild c w now hcall =>
    refine hs.act (hs.own hcall) ?_ ?_
    · exact hs.writers w
    · rintro _ ⟨⟩
      exact callOk_built loads_dumps role true now (hs.writers w)
  | finish c w held newEtag hcall =>
    obtain ⟨hcover, -⟩ := hs.calls c w _ hcall
    apply hs.act (hs.own hcall)
    · intro tag htag
      cases htag
      exact hcover
    · rintro _ ⟨⟩
  | raisePut c w retry held body prior hcall =>
    apply hs.act (hs.own hcall) (hs.writers w)
    rintro _ ⟨⟩
  | raiseRead c w hcall =>
    apply hs.act (hs.own hcall) (hs.writers w)
    rintro _ ⟨⟩
  | readForReconcile c w recent state hidle hread =>
    apply hs.act (own_of_not_busy hallowed.2 c) (hs.writers w)
    rintro _ ⟨⟩
    cases state with
    | none => trivial
    | some st => exact ⟨hallowed.1, covered_of_read hread⟩
  | reconcile c w state recent hcall =>
    have hread := hs.calls c w _ hcall
    apply hs.act (hs.own hcall)
    · cases state with
      | none =>
        intro tag htag
        cases htag
      | some st =>
        obtain ⟨rfl, hcovered⟩ := hread
        exact hcovered.mono (entryIds_reconcile (s.writers w) st)
    · rintro _ ⟨⟩
  | restart w => exact hs.restart w

/-- Every job of a published snapshot is in every later one, and a flush that returns has
published every entry its writer held when the payload was built. -/
theorem no_lost_addition {p : Platform β} {role : QueueRole}
    (loads_dumps : ∀ j, Canonical j → p.loads (p.dumps j) = .ok j) {s₀ s : System β ω τ}
    (hstart : Start s₀) (hrun : Run p role AddOnly s₀ s) :
    (s.cell.versions.Pairwise fun v v' => ∀ j, j ∈ jobIds p v.body → j ∈ jobIds p v'.body) ∧
    ∀ c t, Step p role s (.finish c) t →
      ∃ w held newEtag, s.calls c = some (w, .published held newEtag) ∧
        ∃ v ∈ s.cell.versions, v.tag = newEtag ∧ ∀ e ∈ held, e ∈ publishedEntries p v.body := by
  have hs : Invariant p s :=
    hrun.invariant (fun _ _ _ hi ha hst => step_preserves_invariant loads_dumps hi ha hst)
      (initial_invariant hstart)
  constructor
  · exact hs.growing
  · intro c t hstep
    cases hstep with
    | finish _ w held newEtag hcall =>
      obtain ⟨-, v, hv, htag, hheld⟩ := hs.calls c w _ hcall
      refine ⟨w, held, newEtag, hcall, v, hv, htag, ?_⟩
      intro e he
      rw [hheld]
      exact he

def idle (s : System Json Bool Bool) (w : Bool) : Bool :=
  [true, false].all fun c => (s.calls c).all fun q => q.1 != w

theorem not_busy_of_idle {s : System Json Bool Bool} {w : Bool} (h : idle s w = true) :
    ¬ Busy s w := by
  rintro ⟨c, k, hcall⟩
  have hc : (s.calls c).all (fun q => q.1 != w) = true := by
    apply List.all_eq_true.mp h
    cases c <;> decide
  simp [hcall] at hc

def addOnly (s : System Json Bool Bool) : Event Bool Bool → Bool
  | .mutate _ (.add _) => true
  | .mutate _ _ => false
  | .flushStart _ w _ _ => idle s w
  | .readForReconcile _ w recent => recent.isEmpty && idle s w
  | _ => true

theorem addOnly_sound (s : System Json Bool Bool) (e : Event Bool Bool)
    (h : addOnly s e = true) : AddOnly s e := by
  cases e with
  | mutate w m =>
    cases m with
    | add => trivial
    | _ => cases h
  | flushStart c w force now => exact not_busy_of_idle h
  | readForReconcile c w recent =>
    simp only [addOnly, Bool.and_eq_true, List.isEmpty_iff] at h
    exact ⟨h.1, not_busy_of_idle h.2⟩
  | _ => trivial

def conflictSchedule : List (Event Bool Bool) :=
  [.mutate true (.add (plainEntry "x")), .flushStart true true false 0, .put true "e1",
   .mutate false (.add (plainEntry "y")), .flushStart false false false 0, .putRefused false,
   .readForMerge false, .merge false, .rebuild false 1, .put false "e2"]

theorem no_lost_addition_after_conflict :
    ∃ s, execAll plainPlatform .train addOnly twoWriters conflictSchedule = some s ∧
      s.cell.versions.length = 2 ∧
      (s.cell.versions.Pairwise fun v v' =>
        ∀ j, j ∈ jobIds plainPlatform v.body → j ∈ jobIds plainPlatform v'.body) ∧
      ∀ c t, Step plainPlatform .train s (.finish c) t →
        ∃ w held newEtag, s.calls c = some (w, .published held newEtag) ∧
          ∃ v ∈ s.cell.versions, v.tag = newEtag ∧
            ∀ e ∈ held, e ∈ publishedEntries plainPlatform v.body := by
  have hlength : (execAll plainPlatform .train addOnly twoWriters conflictSchedule).map
      (fun s => s.cell.versions.length) = some 2 := by decide +kernel
  obtain ⟨s, hs, hlen⟩ := Option.map_eq_some_iff.mp hlength
  have hrun := run_of_execAll addOnly_sound hs
  exact ⟨s, hs, hlen,
    no_lost_addition plainPlatform_lawful.loads_dumps twoWriters_start hrun⟩

end QueueAdditions

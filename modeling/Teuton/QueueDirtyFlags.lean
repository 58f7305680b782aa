import Teuton.QueueWriters

/-! Unpublished changes of a queue with a single writer. The last locked part of a flush clears
the flags whatever happened during the put, and a reconcile that drops finished jobs leaves the
change counter at zero; these are the two ways to forget a change. One call slot belongs to the
flush and one to the reconcile. -/
namespace QueueDirtyFlags

open PyJson Signatures OrchestratorQueue QueueWriters

variable {β : Type}

abbrev SoloSystem (β : Type) := System β Unit Bool

def queue (s : SoloSystem β) : Writer := s.writers ()

/-- One flush at a time, in slot `true`; a reconcile, in slot `false`, is not interrupted. -/
def Solo (s : SoloSystem β) (e : Event Unit Bool) : Prop :=
  (s.calls false ≠ none → e = .reconcile false) ∧
  match e with
  | .flushStart c _ _ _ => c = true
  | .readForReconcile c _ _ => c = false
  | .restart _ => False
  | _ => True

/-- The entries of the last published snapshot; none when nothing was published. -/
def lastPublished (p : Platform β) (cell : CasCell β) : List QueueEntry :=
  match cell.current with
  | some v => publishedEntries p v.body
  | none => []

/-- The final update of a flush finds the map as the payload had it, and a reconcile drops no
job of the published snapshot. -/
def FlagSafe (p : Platform β) (s : SoloSystem β) : Event Unit Bool → Prop
  | .finish c => ∀ held newEtag, s.calls c = some ((), .published held newEtag) →
      held = (queue s).outstanding.vals
  | .readForReconcile _ _ recent => ∀ j ∈ recent, j ∉ entryIds (lastPublished p s.cell)
  | _ => True

def Flagged (W : Writer) : Prop := W.dirty = true ∧ 0 < W.pendingChanges

/-- A queue that was just constructed on an absent object, or constructed and reconciled with
the snapshot that an earlier queue left. -/
structure SoloStart (p : Platform β) (role : QueueRole) (s : SoloSystem β) : Prop where
  calls : ∀ c, s.calls c = none
  bodies : ∀ v, s.cell.current = some v → ∃ W now, v.body = payloadBody p role W now
  writer : (s.cell.current = none ∧ queue s = {}) ∨
    ∃ state, readQueue p s.cell = .ok state ∧ queue s = ({} : Writer).reconcile state []

theorem mutator_unchanged_or_flagged (m : Mutator) (W : Writer) :
    m.apply W = W ∨ Flagged (m.apply W) := by
  cases m with
  | add entry => exact Or.inr ⟨rfl, Nat.succ_pos _⟩
  | remove jobId =>
    simp only [Mutator.apply, Writer.remove]
    split_ifs
    · exact Or.inr ⟨rfl, Nat.succ_pos _⟩
    · exact Or.inl rfl
  | removeMany jobIds =>
    obtain ⟨-, -, hsame⟩ := Writer.foldl_removeNext jobIds 0 W.outstanding
    by_cases h : (jobIds.foldl Writer.removeNext (0, W.outstanding)).1 = 0
    · left
      have hd := hsame h
      simp only [Mutator.apply, Writer.removeMany, h, hd]
      rfl
    · right
      simp only [Mutator.apply, Writer.removeMany, ne_eq, h, not_false_eq_true, if_true]
      exact ⟨rfl, Nat.lt_of_lt_of_le (Nat.pos_of_ne_zero h) (Nat.le_add_left _ _)⟩
  | replay jobId attempt deadlineUnix =>
    simp only [Mutator.apply, Writer.replay]
    split
    · exact Or.inl rfl
    · exact Or.inr ⟨rfl, Nat.succ_pos _⟩
  | pruneExpired now =>
    by_cases h : W.outstanding.vals.filter (Writer.expired now) = []
    · left
      have hkeep : (W.outstanding.filter fun e => !Writer.expired now e) = W.outstanding := by
        apply KeyedDict.ext_vals
        apply List.filter_eq_self.mpr
        intro e he
        have := List.filter_eq_nil_iff.mp h e he
        simpa using this
      simp only [Mutator.apply, Writer.pruneExpired, h, hkeep]
      rfl
    · right
      have hne : (W.outstanding.vals.filter (Writer.expired now)).isEmpty = false := by
        simpa using h
      simp only [Mutator.apply, Writer.pruneExpired, hne]
      exact ⟨rfl, Nat.lt_of_lt_of_le (List.length_pos_iff.mpr h) (Nat.le_add_left _ _)⟩

/-- The cached etag is current, and a map that differs from the published snapshot is flagged. -/
def Tracked (p : Platform β) (cell : CasCell β) (W : Writer) : Prop :=
  Writer.ifMatch W.etag = cell.currentTag ∧
    (W.outstanding.vals ≠ lastPublished p cell → Flagged W)

def FlushOk (p : Platform β) (cell : CasCell β) (W : Writer) : Option (Unit × Call β) → Prop
  | none => Tracked p cell W
  | some (_, .built _ _ _ prior) => Writer.ifMatch prior = cell.currentTag ∧ Tracked p cell W
  | some (_, .published held newEtag) =>
      cell.currentTag = newEtag ∧ lastPublished p cell = held
  | some _ => False

def ReconcileOk (p : Platform β) (cell : CasCell β) : Option (Unit × Call β) → Prop
  | none => True
  | some (_, .reconcileRead state recent) => readQueue p cell = .ok state ∧
      ∀ j ∈ recent, j ∉ entryIds (lastPublished p cell)
  | some _ => False

def BodyOk (p : Platform β) (role : QueueRole) (body : β) (held : List QueueEntry) : Prop :=
  ∃ W now, body = payloadBody p role W now ∧ held = W.outstanding.vals

structure Invariant (p : Platform β) (role : QueueRole) (s : SoloSystem β) : Prop where
  bodies : ∀ v, s.cell.current = some v → ∃ held, BodyOk p role v.body held
  payload : ∀ w retry held body prior,
    s.calls true = some (w, .built retry held body prior) → BodyOk p role body held
  flush : FlushOk p s.cell (queue s) (s.calls true)
  reconcile : ReconcileOk p s.cell (s.calls false)

section Steps

variable {p : Platform β} {role : QueueRole}

variable {c : Bool} {w : Unit} {W : Writer} {cell : CasCell β} {s : SoloSystem β}
variable {held : List QueueEntry}

theorem lastPublished_of_body (loads_dumps : p.Rereads)
    {v : Version β} (hcurrent : cell.current = some v)
    (hbody : BodyOk p role v.body held) : lastPublished p cell = held := by
  obtain ⟨W, now, hb, rfl⟩ := hbody
  rw [lastPublished, hcurrent]
  change publishedEntries p v.body = _
  rw [hb]
  exact publishedEntries_payloadBody loads_dumps role W now

theorem tracked_reconcile (loads_dumps : p.Rereads)
    (hbodies : ∀ v, cell.current = some v → ∃ held, BodyOk p role v.body held)
    {state : Option QueueState} (hread : readQueue p cell = .ok state) {recent : List String}
    (hrecent : ∀ j ∈ recent, j ∉ entryIds (lastPublished p cell)) (W : Writer) :
    Tracked p cell (W.reconcile state recent) := by
  have hdrop : ∀ d : KeyedDict QueueEntry.jobId, d.vals = lastPublished p cell →
      (d.eraseAll recent).vals = lastPublished p cell := by
    intro d hd
    rw [KeyedDict.eraseAll_of_disjoint, hd]
    intro j hj hmem
    apply hrecent j hj
    rw [← hd]
    exact hmem
  cases hc : cell.current with
  | none =>
    have hstate : state = none := by
      simp only [readQueue, getWithEtag, hc] at hread
      exact (Except.ok.inj hread).symm
    subst hstate
    have hlast : lastPublished p cell = [] := by
      simp [lastPublished, hc]
    refine ⟨?_, fun hne => absurd (hdrop KeyedDict.empty hlast.symm) hne⟩
    simp [Writer.reconcile, Writer.ifMatch, CasCell.currentTag, hc]
  | some v =>
    obtain ⟨held, W', now, hbody, hheld⟩ := hbodies v hc
    have hv : cell.current = some ⟨v.tag, payloadBody p role W' now⟩ := by
      rw [hc, ← hbody]
    have hlast := lastPublished_of_body loads_dumps hc ⟨W', now, hbody, hheld⟩
    rw [readQueue_payloadBody loads_dumps hv] at hread
    have hstate := Except.ok.inj hread
    subst hstate
    refine ⟨?_, fun hne => absurd (hdrop _ ?_) hne⟩
    · simp [Writer.reconcile, Writer.ifMatch, CasCell.currentTag, hc]
    · rw [hlast, hheld]
      exact KeyedDict.vals_ofList W'.outstanding.nodup

theorem Tracked.mutate (h : Tracked p cell W) (m : Mutator) :
    Tracked p cell (m.apply W) := by
  refine ⟨mutator_etag m W ▸ h.1, ?_⟩
  intro hne
  rcases mutator_unchanged_or_flagged m W with hsame | hflagged
  · rw [hsame] at hne ⊢
    exact h.2 hne
  · exact hflagged

theorem Invariant.slot (hs : Invariant p role s)
    {k : Call β} (hcall : s.calls c = some (w, k)) :
    (c = true ∧ ((∃ retry held body prior, k = .built retry held body prior) ∨
      ∃ held newEtag, k = .published held newEtag)) ∨
    (c = false ∧ ∃ state recent, k = .reconcileRead state recent) := by
  cases c with
  | true =>
    have h := hs.flush
    rw [hcall] at h
    cases k with
    | built retry held body prior => exact Or.inl ⟨rfl, Or.inl ⟨retry, held, body, prior, rfl⟩⟩
    | published held newEtag => exact Or.inl ⟨rfl, Or.inr ⟨held, newEtag, rfl⟩⟩
    | _ => exact h.elim
  | false =>
    have h := hs.reconcile
    rw [hcall] at h
    cases k with
    | reconcileRead state recent => exact Or.inr ⟨rfl, state, recent, rfl⟩
    | _ => exact h.elim

theorem Invariant.no_conflict (hs : Invariant p role s)
    {k : Call β} (hcall : s.calls c = some (w, k)) :
    k ≠ .refused ∧ (∀ state, k ≠ .mergeRead state) ∧ k ≠ .merged := by
  rcases hs.slot hcall with ⟨-, ⟨_, _, _, _, rfl⟩ | ⟨_, _, rfl⟩⟩ | ⟨-, _, _, rfl⟩
  all_goals
    refine ⟨?_, ?_, ?_⟩
    all_goals simp

theorem Invariant.slot_built (hs : Invariant p role s)
    {retry : Bool} {body : β} {prior : Option String}
    (hcall : s.calls c = some (w, .built retry held body prior)) :
    c = true ∧ Writer.ifMatch prior = s.cell.currentTag ∧ Tracked p s.cell (queue s) ∧
      BodyOk p role body held := by
  rcases hs.slot hcall with ⟨rfl, -⟩ | ⟨-, _, _, hk⟩
  · have h := hs.flush
    rw [hcall] at h
    exact ⟨rfl, h.1, h.2, hs.payload w retry held body prior hcall⟩
  · cases hk

theorem Invariant.slot_published (hs : Invariant p role s)
    {newEtag : String}
    (hcall : s.calls c = some (w, .published held newEtag)) :
    c = true ∧ s.cell.currentTag = newEtag ∧ lastPublished p s.cell = held := by
  rcases hs.slot hcall with ⟨rfl, -⟩ | ⟨-, _, _, hk⟩
  · have h := hs.flush
    rw [hcall] at h
    exact ⟨rfl, h⟩
  · cases hk

theorem Invariant.slot_reconcile (hs : Invariant p role s)
    {state : Option QueueState} {recent : List String}
    (hcall : s.calls c = some (w, .reconcileRead state recent)) :
    c = false ∧ readQueue p s.cell = .ok state ∧
      ∀ j ∈ recent, j ∉ entryIds (lastPublished p s.cell) := by
  rcases hs.slot hcall with ⟨-, hk | hk⟩ | ⟨rfl, -⟩
  · obtain ⟨_, _, _, _, hk⟩ := hk
    cases hk
  · obtain ⟨_, _, hk⟩ := hk
    cases hk
  · have h := hs.reconcile
    rw [hcall] at h
    exact ⟨rfl, h⟩

theorem Invariant.actFlush (hs : Invariant p role s)
    {k : Option (Call β)}
    (hpayload : ∀ retry held body prior, k = some (.built retry held body prior) →
      BodyOk p role body held)
    (hflush : FlushOk p s.cell W (k.map fun k => ((), k))) :
    Invariant p role (s.act () W true k) := by
  refine ⟨hs.bodies, ?_, ?_, ?_⟩
  · intro w retry held body prior hcall
    rcases act_calls_some hcall with ⟨-, -, hk⟩ | ⟨hc, -⟩
    · exact hpayload retry held body prior hk
    · exact absurd rfl hc
  · simpa [System.act, queue] using hflush
  · simpa [System.act] using hs.reconcile

theorem Invariant.actReconcile (hs : Invariant p role s)
    {k : Option (Call β)} (hflush : FlushOk p s.cell W (s.calls true))
    (hreconcile : ReconcileOk p s.cell (k.map fun k => ((), k))) :
    Invariant p role (s.act () W false k) := by
  refine ⟨hs.bodies, ?_, ?_, ?_⟩
  · intro w retry held body prior hcall
    rcases act_calls_some hcall with ⟨hc, -, -⟩ | ⟨-, hcall'⟩
    · cases hc
    · exact hs.payload w retry held body prior hcall'
  · simpa [System.act, queue] using hflush
  · simpa [System.act] using hreconcile

theorem FlushOk.map_tracked {W' : Writer} {k : Option (Unit × Call β)}
    (h : FlushOk p cell W k) (htracked : Tracked p cell W → Tracked p cell W') :
    FlushOk p cell W' k := by
  match k with
  | none => exact htracked h
  | some (_, .built _ _ _ _) => exact ⟨h.1, htracked h.2⟩
  | some (_, .published _ _) => exact h
  | some (_, .refused) => exact h
  | some (_, .mergeRead _) => exact h
  | some (_, .merged) => exact h
  | some (_, .reconcileRead _ _) => exact h

theorem step_preserves_invariant (loads_dumps : p.Rereads) {t : SoloSystem β}
    {e : Event Unit Bool} (hs : Invariant p role s) (hsolo : Solo s e) (hsafe : FlagSafe p s e)
    (hstep : Step p role s e t) : Invariant p role t := by
  cases hstep with
  | mutate w m =>
    refine ⟨hs.bodies, hs.payload, ?_, hs.reconcile⟩
    have hq : queue (s.mutate w m) = m.apply (queue s) := by
      simp [queue, System.mutate]
    rw [hq]
    exact hs.flush.map_tracked fun h => h.mutate m
  | flushStart c w force now hidle hgo =>
    obtain rfl : c = true := hsolo.2
    have htracked : Tracked p s.cell (queue s) := by
      have h := hs.flush
      rwa [hidle] at h
    refine hs.actFlush ?_ ⟨htracked.1, htracked⟩
    rintro _ _ _ _ ⟨⟩
    exact ⟨queue s, now, rfl, rfl⟩
  | put c w retry held body prior newEtag hcall hmatch haccept =>
    obtain ⟨rfl, -, -, hbody⟩ := hs.slot_built hcall
    have hnone : s.calls false = none := by
      by_contra h
      cases hsolo.1 h
    have hcurrent : (s.stored ⟨newEtag, body⟩ haccept).cell.current = some ⟨newEtag, body⟩ :=
      CasCell.current_store (h := haccept)
    refine ⟨?_, ?_, ?_, ?_⟩
    · intro v hv
      have hv' : v = ⟨newEtag, body⟩ := Option.some.inj (hv.symm.trans hcurrent)
      exact ⟨held, hv' ▸ hbody⟩
    · rintro _ _ _ _ _ hbuilt
      simp [System.act] at hbuilt
    · simp only [System.act, Function.update_self, Option.map_some]
      exact ⟨CasCell.currentTag_of_current hcurrent,
        lastPublished_of_body loads_dumps hcurrent hbody⟩
    · simp [System.act, System.stored, hnone, ReconcileOk]
  | putRefused c w retry held body prior hcall hmatch =>
    obtain ⟨-, hprior, -, -⟩ := hs.slot_built hcall
    exact absurd hprior hmatch
  | readForMerge c w state hcall hread => exact absurd rfl (hs.no_conflict hcall).1
  | merge c w state hcall => exact absurd rfl ((hs.no_conflict hcall).2.1 state)
  | rebuild c w now hcall => exact absurd rfl (hs.no_conflict hcall).2.2
  | finish c w held newEtag hcall =>
    obtain ⟨rfl, htag, hlast⟩ := hs.slot_published hcall
    have hheld : held = (queue s).outstanding.vals := hsafe held newEtag hcall
    refine hs.actFlush ?_ ⟨?_, ?_⟩
    · rintro _ _ _ _ ⟨⟩
    · exact htag.symm
    · intro hne
      exact absurd (hheld.symm.trans hlast.symm) hne
  | raisePut c w retry held body prior hcall =>
    obtain ⟨rfl, -, htracked, -⟩ := hs.slot_built hcall
    refine hs.actFlush ?_ htracked
    rintro _ _ _ _ ⟨⟩
  | raiseRead c w hcall => exact absurd rfl (hs.no_conflict hcall).1
  | readForReconcile c w recent state hidle hread =>
    obtain rfl : c = false := hsolo.2
    exact hs.actReconcile hs.flush ⟨hread, hsafe⟩
  | reconcile c w state recent hcall =>
    obtain ⟨rfl, hread, hrecent⟩ := hs.slot_reconcile hcall
    refine hs.actReconcile (hs.flush.map_tracked fun _ => ?_) trivial
    exact tracked_reconcile loads_dumps hs.bodies hread hrecent (queue s)
  | restart w => exact hsolo.2.elim

theorem initial_invariant (loads_dumps : p.Rereads)
    (h : SoloStart p role s) : Invariant p role s := by
  have hbodies : ∀ v, s.cell.current = some v → ∃ held, BodyOk p role v.body held := by
    intro v hv
    obtain ⟨W, now, hbody⟩ := h.bodies v hv
    exact ⟨_, W, now, hbody, rfl⟩
  refine ⟨hbodies, ?_, ?_, ?_⟩
  · intro w retry held body prior hcall
    simp [h.calls true] at hcall
  · rw [h.calls true]
    rcases h.writer with ⟨hnone, hq⟩ | ⟨state, hread, hq⟩
    · rw [hq]
      refine ⟨?_, ?_⟩
      · simp [Writer.ifMatch, CasCell.currentTag, hnone]
      · intro hne
        simp [lastPublished, hnone, KeyedDict.empty] at hne
    · rw [hq]
      exact tracked_reconcile loads_dumps hbodies hread (by simp) {}
  · rw [h.calls false]
    trivial

/-- In a run whose steps are all safe, whenever no call is in progress and the map differs from
the published snapshot, the queue is flagged dirty with a positive change count. -/
theorem unpublished_changes_flagged
    (loads_dumps : ∀ j, Canonical j → p.loads (p.dumps j) = .ok j) {s₀ s : SoloSystem β}
    (hstart : SoloStart p role s₀)
    (hrun : Run p role (fun s e => Solo s e ∧ FlagSafe p s e) s₀ s)
    (hidle : ∀ c, s.calls c = none)
    (hdiffers : (queue s).outstanding.vals ≠ lastPublished p s.cell) :
    (queue s).dirty = true ∧ 0 < (queue s).pendingChanges ∧
      ∀ flushMaxChanges, (queue s).shouldFlush flushMaxChanges = true := by
  have hs : Invariant p role s :=
    hrun.invariant (fun _ _ _ hi ha hst => step_preserves_invariant loads_dumps hi ha.1 ha.2 hst)
      (initial_invariant loads_dumps hstart)
  have hflush := hs.flush
  rw [hidle true] at hflush
  obtain ⟨hdirty, hpending⟩ := hflush.2 hdiffers
  refine ⟨hdirty, hpending, ?_⟩
  intro flushMaxChanges
  simp [Writer.shouldFlush, hdirty, hpending]

end Steps

def soloWriter : SoloSystem Json :=
  ⟨CasCell.absent, fun _ => {}, fun _ => none, fun _ => []⟩

theorem soloWriter_start : SoloStart plainPlatform .train soloWriter where
  calls := fun _ => rfl
  bodies := by
    intro v hv
    cases hv
  writer := Or.inl ⟨rfl, rfl⟩

def solo (s : SoloSystem Json) (e : Event Unit Bool) : Bool :=
  match s.calls false, e with
  | some _, .reconcile false => true
  | some _, _ => false
  | none, .flushStart c _ _ _ => c
  | none, .readForReconcile c _ _ => !c
  | none, .restart _ => false
  | none, _ => true

theorem solo_sound {s : SoloSystem Json} {e : Event Unit Bool} (h : solo s e = true) :
    Solo s e := by
  unfold solo at h
  split at h
  · exact ⟨fun _ => rfl, trivial⟩
  · cases h
  · next hnone => exact ⟨fun hne => absurd hnone hne, h⟩
  · next hnone => exact ⟨fun hne => absurd hnone hne, by simpa using h⟩
  · cases h
  · next hnone hstart hread hrestart =>
    refine ⟨fun hne => absurd hnone hne, ?_⟩
    split
    · exact absurd rfl (hstart _ _ _ _)
    · exact absurd rfl (hread _ _ _)
    · exact absurd rfl (hrestart _)
    · trivial

def flagSafe (s : SoloSystem Json) : Event Unit Bool → Bool
  | .finish c =>
    match s.calls c with
    | some (_, .published held _) => held == (queue s).outstanding.vals
    | _ => true
  | .readForReconcile _ _ recent =>
    recent.all fun j =>
      !((lastPublished plainPlatform s.cell).map QueueEntry.jobId).contains j
  | _ => true

theorem flagSafe_sound {s : SoloSystem Json} {e : Event Unit Bool} (h : flagSafe s e = true) :
    FlagSafe plainPlatform s e := by
  cases e with
  | finish c =>
    intro held newEtag hcall
    simpa [flagSafe, hcall] using h
  | readForReconcile c w recent =>
    intro j hj hmem
    have hcontains := List.all_eq_true.mp h j hj
    rw [Bool.not_eq_true', List.contains_eq_mem, decide_eq_false_iff_not] at hcontains
    exact hcontains hmem
  | _ => trivial

def addDuringPut : List (Event Unit Bool) :=
  [.mutate () (.add (plainEntry "x")), .flushStart true () false 0, .put true "e1",
   .mutate () (.add (plainEntry "y")), .finish true]

def reconcileDrops : List (Event Unit Bool) :=
  [.mutate () (.add (plainEntry "x")), .flushStart true () false 0, .put true "e1",
   .finish true, .readForReconcile false () ["x"], .reconcile false]

/-- What a test run looks at: both slots free, the map, the published snapshot, the flags. -/
structure Report where
  idle : Bool
  held : List QueueEntry
  published : List QueueEntry
  dirty : Bool
  pendingChanges : ℕ
  deriving DecidableEq

def report (s : SoloSystem Json) : Report where
  idle := (s.calls true).isNone && (s.calls false).isNone
  held := (queue s).outstanding.vals
  published := lastPublished plainPlatform s.cell
  dirty := (queue s).dirty
  pendingChanges := (queue s).pendingChanges

theorem idle_of_report {s : SoloSystem Json} (h : (report s).idle = true) :
    ∀ c, s.calls c = none := by
  simp only [report, Bool.and_eq_true, Option.isNone_iff_eq_none] at h
  intro c
  cases c with
  | true => exact h.1
  | false => exact h.2

theorem changes_forgotten :
    (∃ s, Run plainPlatform .train Solo soloWriter s ∧ (∀ c, s.calls c = none) ∧
      (queue s).outstanding.vals ≠ lastPublished plainPlatform s.cell ∧
      (queue s).dirty = false) ∧
    ∃ s, Run plainPlatform .train Solo soloWriter s ∧ (∀ c, s.calls c = none) ∧
      (queue s).outstanding.vals ≠ lastPublished plainPlatform s.cell ∧
      (queue s).pendingChanges = 0 := by
  have hadd : (execAll plainPlatform .train solo soloWriter addDuringPut).map report =
      some ⟨true, [plainEntry "x", plainEntry "y"], [plainEntry "x"], false, 0⟩ := by decide +kernel
  have hdrop : (execAll plainPlatform .train solo soloWriter reconcileDrops).map report =
      some ⟨true, [], [plainEntry "x"], true, 0⟩ := by decide +kernel
  obtain ⟨s, hs, hreport⟩ := Option.map_eq_some_iff.mp hadd
  obtain ⟨t, ht, htreport⟩ := Option.map_eq_some_iff.mp hdrop
  constructor
  · refine ⟨s, run_of_execAll (fun _ _ h => solo_sound h) hs, ?_, ?_, ?_⟩
    · apply idle_of_report
      rw [hreport]
    · change (report s).held ≠ (report s).published
      rw [hreport]
      decide
    · change (report s).dirty = false
      rw [hreport]
  · refine ⟨t, run_of_execAll (fun _ _ h => solo_sound h) ht, ?_, ?_, ?_⟩
    · apply idle_of_report
      rw [htreport]
    · change (report t).held ≠ (report t).published
      rw [htreport]
      decide
    · change (report t).pendingChanges = 0
      rw [htreport]

def addAfterFlush : List (Event Unit Bool) :=
  [.mutate () (.add (plainEntry "x")), .flushStart true () false 0, .put true "e1",
   .finish true, .mutate () (.add (plainEntry "y"))]

theorem unpublished_change_flagged_after_flush :
    ∃ s, execAll plainPlatform .train (fun s e => solo s e && flagSafe s e) soloWriter
        addAfterFlush = some s ∧
      (queue s).outstanding.vals ≠ lastPublished plainPlatform s.cell ∧
      (queue s).dirty = true ∧ 0 < (queue s).pendingChanges ∧
      ∀ flushMaxChanges, (queue s).shouldFlush flushMaxChanges = true := by
  have hadd : (execAll plainPlatform .train (fun s e => solo s e && flagSafe s e) soloWriter
      addAfterFlush).map report =
      some ⟨true, [plainEntry "x", plainEntry "y"], [plainEntry "x"], true, 1⟩ := by decide +kernel
  obtain ⟨s, hs, hreport⟩ := Option.map_eq_some_iff.mp hadd
  have hrun : Run plainPlatform .train (fun s e => Solo s e ∧ FlagSafe plainPlatform s e)
      soloWriter s := by
    refine run_of_execAll ?_ hs
    intro s e h
    rw [Bool.and_eq_true] at h
    exact ⟨solo_sound h.1, flagSafe_sound h.2⟩
  have hidle : ∀ c, s.calls c = none := by
    apply idle_of_report
    rw [hreport]
  have hdiffers : (queue s).outstanding.vals ≠ lastPublished plainPlatform s.cell := by
    change (report s).held ≠ (report s).published
    rw [hreport]
    decide
  exact ⟨s, hs, hdiffers, unpublished_changes_flagged plainPlatform_lawful.loads_dumps
    soloWriter_start hrun hidle hdiffers⟩

end QueueDirtyFlags

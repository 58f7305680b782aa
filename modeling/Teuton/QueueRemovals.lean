import Teuton.QueueWriters

/-! Removed jobs and the conflict merge. The merge of `flush` pulls every entry of the bucket
snapshot into the map, so a removal that is not yet published is undone by a conflict; and a
payload built before a removal is still put after it. Away from these two situations a job
removed by a writer stays out of its map and of everything it publishes. -/
namespace QueueRemovals

open PyJson Signatures OrchestratorQueue QueueWriters

variable {β ω τ : Type}

/-- The orchestrator `main` mutates and flushes; every other writer reconciles, adds and
flushes, as the manifest submission command does. -/
def Usage (main : ω) : Event ω τ → Prop
  | .mutate w m => w = main ∨ ∃ entry, m = .add entry
  | .readForReconcile _ w recent => w ≠ main ∧ recent = []
  | .restart _ => False
  | _ => True

/-- No removal of a job that a payload waiting for its put still lists, and no conflict merge
that reads a job whose last operation by `main` was a removal. -/
def RemovalSafe (main : ω) (s : System β ω τ) : Event ω τ → Prop
  | .mutate w m => w = main → ∀ c retry held body prior,
      s.calls c = some (main, .built retry held body prior) →
      ∀ j ∈ m.track (s.writers main) [], j ∉ entryIds held
  | .merge c => ∀ st, s.calls c = some (main, .mergeRead (some st)) →
      ∀ j ∈ s.removed main, j ∉ entryIds st.outstanding
  | _ => True

def CallSafe (p : Platform β) (removed : List String) : Call β → Prop
  | .built _ held body _ => publishedEntries p body = held ∧ ∀ j ∈ removed, j ∉ entryIds held
  | .reconcileRead _ _ => False
  | _ => True

structure Invariant (p : Platform β) (main : ω) (s : System β ω τ) : Prop where
  absent : ∀ j ∈ s.removed main, j ∉ (s.writers main).outstanding.keys
  calls : ∀ c k, s.calls c = some (main, k) → CallSafe p (s.removed main) k

theorem mem_track {m : Mutator} {W : Writer} {removed : List String} {j : String}
    (h : j ∈ m.track W removed) : j ∈ m.track W [] ∨ j ∈ removed := by
  cases m with
  | add entry => exact Or.inr (List.mem_filter.mp h).1
  | remove jobId =>
    rcases List.mem_cons.mp h with rfl | h
    · exact Or.inl List.mem_cons_self
    · exact Or.inr h
  | removeMany jobIds =>
    rcases List.mem_append.mp h with h | h
    · exact Or.inl (List.mem_append.mpr (Or.inl h))
    · exact Or.inr h
  | replay => exact Or.inr h
  | pruneExpired now =>
    rcases List.mem_append.mp h with h | h
    · exact Or.inl (List.mem_append.mpr (Or.inl h))
    · exact Or.inr h

theorem track_absent {W : Writer} {removed : List String}
    (h : ∀ j ∈ removed, j ∉ W.outstanding.keys) (m : Mutator) :
    ∀ j ∈ m.track W removed, j ∉ (m.apply W).outstanding.keys := by
  intro j hj hmem
  cases m with
  | add entry =>
    obtain ⟨hremoved, hne⟩ := List.mem_filter.mp hj
    rcases KeyedDict.mem_keys_set.mp hmem with hmem | hid
    · exact h j hremoved hmem
    · simp [hid] at hne
  | remove jobId =>
    simp only [Mutator.apply, Writer.outstanding_remove, KeyedDict.mem_keys_erase] at hmem
    rcases List.mem_cons.mp hj with hid | hremoved
    · exact hmem.2 hid
    · exact h j hremoved hmem.1
  | removeMany jobIds =>
    simp only [Mutator.apply, Writer.outstanding_removeMany, KeyedDict.mem_keys_eraseAll] at hmem
    rcases List.mem_append.mp hj with hid | hremoved
    · exact hmem.2 hid
    · exact h j hremoved hmem.1
  | replay jobId attempt deadlineUnix =>
    simp only [Mutator.apply, Writer.replay] at hmem
    split at hmem
    · exact h j hj hmem
    · next entry hentry =>
      rcases KeyedDict.mem_keys_set.mp hmem with hmem | hid
      · exact h j hj hmem
      · have hid' : j = entry.jobId := hid
        have hkey : entry.jobId ∈ W.outstanding.keys :=
          List.mem_map_of_mem (List.mem_of_find?_eq_some hentry)
        exact h j hj (hid' ▸ hkey)
  | pruneExpired now =>
    rcases List.mem_append.mp hj with hdropped | hremoved
    · obtain ⟨e, he, rfl⟩ := List.mem_map.mp hdropped
      exact Writer.not_mem_of_dropped he hmem
    · simp only [Mutator.apply, Writer.outstanding_pruneExpired,
        KeyedDict.mem_keys_filter] at hmem
      obtain ⟨e, he, -, rfl⟩ := hmem
      exact h _ hremoved (List.mem_map_of_mem he)

variable [DecidableEq ω] {p : Platform β} {main : ω}

theorem Invariant.mutate {s : System β ω τ} (hs : Invariant p main s) (w : ω) (m : Mutator)
    (hsafe : RemovalSafe main s (.mutate w m)) : Invariant p main (s.mutate w m) := by
  by_cases hw : main = w
  · subst hw
    have hwriter : (s.mutate main m).writers main = m.apply (s.writers main) := by
      simp [System.mutate]
    have hremoved : (s.mutate main m).removed main =
        m.track (s.writers main) (s.removed main) := by
      simp [System.mutate]
    constructor
    · rw [hwriter, hremoved]
      exact track_absent hs.absent m
    · intro c k hcall
      have hk := hs.calls c k hcall
      rw [hremoved]
      cases k with
      | built retry held body prior =>
        refine ⟨hk.1, ?_⟩
        intro j hj
        rcases mem_track hj with hj | hj
        · exact hsafe rfl c retry held body prior hcall j hj
        · exact hk.2 j hj
      | reconcileRead => exact hk.elim
      | _ => trivial
  · have hwriter : (s.mutate w m).writers main = s.writers main := by
      simp [System.mutate, hw]
    have hremoved : (s.mutate w m).removed main = s.removed main := by
      simp [System.mutate, hw]
    constructor
    · rw [hwriter, hremoved]
      exact hs.absent
    · rw [hremoved]
      exact hs.calls

variable [DecidableEq τ]

/-- A step of one call keeps the invariant when `main`'s map gains no removed job and a new
payload of `main` lists none. -/
theorem Invariant.act {s : System β ω τ} (hs : Invariant p main s) {w : ω} {W : Writer} {c : τ}
    {k : Option (Call β)}
    (hW : w = main → ∀ j ∈ s.removed main, j ∉ W.outstanding.keys)
    (hk : w = main → ∀ k', k = some k' → CallSafe p (s.removed main) k') :
    Invariant p main (s.act w W c k) := by
  constructor
  · intro j hj
    by_cases hw : main = w
    · subst hw
      simpa [System.act] using hW rfl j hj
    · simpa [System.act, hw] using hs.absent j hj
  · intro c' k' hcall
    rcases act_calls_some hcall with ⟨-, hw, hk'⟩ | ⟨-, hcall'⟩
    · exact hk hw.symm k' hk'
    · exact hs.calls c' k' hcall'

theorem step_preserves_invariant {role : QueueRole}
    (loads_dumps : p.Rereads) {s t : System β ω τ}
    {e : Event ω τ} (hs : Invariant p main s) (husage : Usage main e)
    (hsafe : RemovalSafe main s e) (hstep : Step p role s e t) : Invariant p main t := by
  have hsame : ∀ {w : ω}, w = main →
      ∀ j ∈ s.removed main, j ∉ (s.writers w).outstanding.keys := by
    rintro _ rfl
    exact hs.absent
  have hbuilt : ∀ {w : ω} (retry : Bool) (now : ℤ), w = main →
      CallSafe p (s.removed main) (.built retry (s.writers w).outstanding.vals
        (payloadBody p role (s.writers w) now) (s.writers w).etag) := by
    intro w retry now hw
    exact ⟨publishedEntries_payloadBody loads_dumps role _ now, hsame hw⟩
  cases hstep with
  | mutate w m => exact hs.mutate w m hsafe
  | flushStart c w force now hidle hgo =>
    refine hs.act hsame ?_
    rintro hw _ ⟨⟩
    exact hbuilt false now hw
  | put c w retry held body prior newEtag hcall hmatch haccept =>
    have hs' : Invariant p main (s.stored ⟨newEtag, body⟩ haccept) := ⟨hs.absent, hs.calls⟩
    refine hs'.act hsame ?_
    rintro - _ ⟨⟩
    trivial
  | putRefused c w retry held body prior hcall hmatch =>
    refine hs.act hsame ?_
    rintro - k hk
    cases retry with
    | false =>
      cases hk
      trivial
    | true => cases hk
  | readForMerge c w state hcall hread =>
    refine hs.act hsame ?_
    rintro - _ ⟨⟩
    trivial
  | merge c w state hcall =>
    refine hs.act ?_ ?_
    · rintro rfl j hj hmem
      cases state with
      | none => exact hs.absent j hj hmem
      | some st =>
        rcases KeyedDict.mem_keys_setDefaults.mp hmem with hmem | hmem
        · exact hs.absent j hj hmem
        · exact hsafe st hcall j hj hmem
    · rintro - _ ⟨⟩
      trivial
  | rebuild c w now hcall =>
    refine hs.act hsame ?_
    rintro hw _ ⟨⟩
    exact hbuilt true now hw
  | finish c w held newEtag hcall =>
    refine hs.act hsame ?_
    rintro - _ ⟨⟩
  | raisePut c w retry held body prior hcall =>
    refine hs.act hsame ?_
    rintro - _ ⟨⟩
  | raiseRead c w hcall =>
    refine hs.act hsame ?_
    rintro - _ ⟨⟩
  | readForReconcile c w recent state hidle hread =>
    refine hs.act hsame ?_
    intro hw
    exact absurd hw husage.1
  | reconcile c w state recent hcall =>
    refine hs.act ?_ ?_
    · rintro rfl
      exact (hs.calls c _ hcall).elim
    · rintro - _ ⟨⟩
  | restart w => exact husage.elim

/-- In a run whose steps are all safe, a job whose last operation by `main` was a removal is
neither in its map nor in a snapshot it publishes. -/
theorem removed_job_stays_removed {role : QueueRole}
    (loads_dumps : ∀ j, Canonical j → p.loads (p.dumps j) = .ok j) {s₀ s : System β ω τ}
    (hcalls : ∀ c, s₀.calls c = none) (hremoved : s₀.removed main = [])
    (hrun : Run p role (fun s e => Usage main e ∧ RemovalSafe main s e) s₀ s) :
    (∀ j ∈ s.removed main, j ∉ (s.writers main).outstanding.keys) ∧
    ∀ c newEtag t k, Step p role s (.put c newEtag) t → s.calls c = some (main, k) →
      ∃ v, t.cell.current = some v ∧ v.tag = newEtag ∧
        ∀ j ∈ s.removed main, j ∉ jobIds p v.body := by
  have hinitial : Invariant p main s₀ := by
    constructor
    · simp [hremoved]
    · intro c k hcall
      simp [hcalls c] at hcall
  have hs : Invariant p main s :=
    hrun.invariant (fun _ _ _ hi ha hst => step_preserves_invariant loads_dumps hi ha.1 ha.2 hst)
      hinitial
  refine ⟨hs.absent, ?_⟩
  intro c newEtag t k hstep hcall
  cases hstep with
  | put _ w retry held body prior _ hbuilt hmatch haccept =>
    rw [hbuilt] at hcall
    cases hcall
    obtain ⟨hbody, hheld⟩ := hs.calls c _ hbuilt
    refine ⟨⟨newEtag, body⟩, CasCell.current_store (h := haccept), rfl, ?_⟩
    rw [jobIds, hbody]
    exact hheld

def usage : Event Bool Bool → Bool
  | .mutate w m => w || match m with
    | .add _ => true
    | _ => false
  | .readForReconcile _ w recent => !w && recent.isEmpty
  | .restart _ => false
  | _ => true

theorem usage_sound {e : Event Bool Bool} (h : usage e = true) : Usage true e := by
  cases e with
  | mutate w m =>
    cases m with
    | add entry => exact Or.inr ⟨entry, rfl⟩
    | _ =>
      simp only [usage, Bool.or_false] at h
      exact Or.inl h
  | readForReconcile c w recent =>
    simp only [usage, Bool.and_eq_true, Bool.not_eq_true', List.isEmpty_iff] at h
    exact ⟨by simp [h.1], h.2⟩
  | restart w => cases h
  | _ => trivial

def removalSafe (s : System Json Bool Bool) : Event Bool Bool → Bool
  | .mutate w m => !w || [true, false].all fun c =>
    match s.calls c with
    | some (true, .built _ held _ _) =>
      (m.track (s.writers true) []).all fun j => !(held.map QueueEntry.jobId).contains j
    | _ => true
  | .merge c =>
    match s.calls c with
    | some (true, .mergeRead (some st)) =>
      (s.removed true).all fun j => !(st.outstanding.map QueueEntry.jobId).contains j
    | _ => true
  | _ => true

theorem removalSafe_sound {s : System Json Bool Bool} {e : Event Bool Bool}
    (h : removalSafe s e = true) : RemovalSafe true s e := by
  cases e with
  | mutate w m =>
    rintro rfl c retry held body prior hcall j hj hmem
    have hc := List.all_eq_true.mp h c (by cases c <;> decide)
    simp only [hcall] at hc
    have hcontains := List.all_eq_true.mp hc j hj
    rw [Bool.not_eq_true', List.contains_eq_mem, decide_eq_false_iff_not] at hcontains
    exact hcontains hmem
  | merge c =>
    intro st hcall j hj hmem
    simp only [removalSafe, hcall] at h
    have hcontains := List.all_eq_true.mp h j hj
    rw [Bool.not_eq_true', List.contains_eq_mem, decide_eq_false_iff_not] at hcontains
    exact hcontains hmem
  | _ => trivial

/-- The orchestrator publishes `x` and removes it; the other writer reads the old snapshot, adds
`y` and publishes; the orchestrator's next flush meets the conflict and merges. -/
def staleMergeSchedule : List (Event Bool Bool) :=
  [.mutate true (.add (plainEntry "x")), .flushStart true true false 0, .put true "e1",
   .finish true, .mutate true (.remove "x"),
   .readForReconcile false false [], .reconcile false, .mutate false (.add (plainEntry "y")),
   .flushStart false false true 1, .put false "e2", .finish false,
   .flushStart true true false 2, .putRefused true, .readForMerge true, .merge true,
   .rebuild true 3]

theorem removed_job_returns_through_merge :
    ∃ s : System Json Bool Bool,
      Run plainPlatform .train (fun _ e => Usage true e) twoWriters s ∧
      "x" ∈ s.removed true ∧ "x" ∈ (s.writers true).outstanding.keys ∧
      ∃ t, Step plainPlatform .train s (.put true "e3") t ∧
        ∃ v, t.cell.current = some v ∧ "x" ∈ jobIds plainPlatform v.body := by
  have hresult : (execAll plainPlatform .train (fun _ e => usage e) twoWriters
      staleMergeSchedule).bind (fun s => (exec plainPlatform .train s (.put true "e3")).bind
        fun t => t.cell.current.map fun v => (s.removed true, (s.writers true).outstanding.keys,
          (publishedEntries plainPlatform v.body).map QueueEntry.jobId)) =
      some (["x"], ["x", "y"], ["x", "y"]) := by decide +kernel
  obtain ⟨s, hs, hresult⟩ := Option.bind_eq_some_iff.mp hresult
  obtain ⟨t, ht, hresult⟩ := Option.bind_eq_some_iff.mp hresult
  obtain ⟨v, hv, hresult⟩ := Option.map_eq_some_iff.mp hresult
  rw [Prod.mk.injEq, Prod.mk.injEq] at hresult
  obtain ⟨hremoved, hkeys, hids⟩ := hresult
  refine ⟨s, run_of_execAll (fun _ _ h => usage_sound h) hs, ?_, ?_, t, step_of_exec ht, v, hv, ?_⟩
  · simp [hremoved]
  · simp [hkeys]
  · change "x" ∈ (publishedEntries plainPlatform v.body).map QueueEntry.jobId
    simp [hids]

def publishedRemovalSchedule : List (Event Bool Bool) :=
  [.mutate true (.add (plainEntry "x")), .flushStart true true false 0, .put true "e1",
   .finish true, .mutate true (.remove "x"), .flushStart true true false 1]

theorem removed_job_stays_removed_once_published :
    ∃ s : System Json Bool Bool,
      execAll plainPlatform .train (fun s e => usage e && removalSafe s e) twoWriters
        publishedRemovalSchedule = some s ∧
      s.removed true = ["x"] ∧
      (∀ j ∈ s.removed true, j ∉ (s.writers true).outstanding.keys) ∧
      ∀ c newEtag t k, Step plainPlatform .train s (.put c newEtag) t →
        s.calls c = some (true, k) →
        ∃ v, t.cell.current = some v ∧ v.tag = newEtag ∧
          ∀ j ∈ s.removed true, j ∉ jobIds plainPlatform v.body := by
  have hresult : (execAll plainPlatform .train (fun s e => usage e && removalSafe s e) twoWriters
      publishedRemovalSchedule).map (fun s => s.removed true) = some ["x"] := by decide +kernel
  obtain ⟨s, hs, hremoved⟩ := Option.map_eq_some_iff.mp hresult
  have hrun : Run plainPlatform .train (fun s e => Usage true e ∧ RemovalSafe true s e)
      twoWriters s := by
    refine run_of_execAll ?_ hs
    intro s e h
    rw [Bool.and_eq_true] at h
    exact ⟨usage_sound h.1, removalSafe_sound h.2⟩
  exact ⟨s, hs, hremoved, removed_job_stays_removed plainPlatform_lawful.loads_dumps
    (fun _ => rfl) rfl hrun⟩

end QueueRemovals

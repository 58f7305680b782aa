import Teuton.StrandedAudits

/-! What the published audit queue still shows. A manager takes over the published queue when it
is constructed, adds the jobs that it emits, and publishes what it holds; it never takes a job
out again. So a pass leaves only active jobs in the queue if everything that was in it is still
active. -/
namespace AuditBacklog

open PyJson PyText Signatures ObjectStore Protocol OrchestratorQueue QueueWriters
open QueueAdditions ReplayVerifier AuditJobs Effects StrandedAudits
open VerdictWrites

variable {β τ ω : Type}

section Queue

def carried (p : Platform β) : QueueWriters.Call β → List QueueEntry
  | .built _ _ body _ => publishedEntries p body
  | .mergeRead (some st) => st.outstanding
  | .reconcileRead (some st) _ => st.outstanding
  | _ => []

def Shows (p : Platform β) (cell : CasCell β) (e : QueueEntry) : Prop :=
  ∃ v, cell.current = some v ∧ e ∈ publishedEntries p v.body

/-- What these writers hold, what calls in progress carry and what is published all passes. -/
structure Confined (p : Platform β) (ws : Set ω) (P : QueueEntry → Prop)
    (q : System β ω Unit) : Prop where
  held : ∀ w ∈ ws, ∀ e ∈ (q.writers w).outstanding.vals, P e
  calls : ∀ w k, q.calls () = some (w, k) → w ∈ ws ∧ ∀ e ∈ carried p k, P e
  shown : ∀ e, Shows p q.cell e → P e

/-- The event adds only entries that pass, and its call is one of these writers'. -/
def Passing (ws : Set ω) (P : QueueEntry → Prop) : Event ω Unit → Prop
  | .mutate _ (.add entry) => P entry
  | .mutate _ _ => False
  | .flushStart _ w _ _ => w ∈ ws
  | .readForReconcile _ w _ => w ∈ ws
  | _ => True

variable {p : Platform β} {ws : Set ω} {P : QueueEntry → Prop} {q q' : System β ω Unit}

theorem Confined.mono {P' : QueueEntry → Prop} (h : Confined p ws P q) (hle : ∀ e, P e → P' e) :
    Confined p ws P' q where
  held := fun w hw e he => hle e (h.held w hw e he)
  calls := fun w k hcall => ⟨(h.calls w k hcall).1, fun e he => hle e ((h.calls w k hcall).2 e he)⟩
  shown := fun e he => hle e (h.shown e he)

variable {W : Writer} {e : QueueEntry} {state : Option QueueState}

theorem mem_merge (h : e ∈ (W.merge state).outstanding.vals) :
    e ∈ W.outstanding.vals ∨ e ∈ carried p (.mergeRead state) := by
  cases state with
  | none => exact Or.inl h
  | some st => exact KeyedDict.mem_vals_setDefaults h

theorem mem_reconcile {recent : List String}
    (h : e ∈ (W.reconcile state recent).outstanding.vals) :
    e ∈ carried p (.reconcileRead state recent) := by
  cases state with
  | none => exact nomatch (KeyedDict.vals_eraseAll_sublist _ _).subset h
  | some st => exact KeyedDict.mem_of_mem_ofList ((KeyedDict.vals_eraseAll_sublist _ _).subset h)

theorem carried_of_read {cell : CasCell β}
    (h : readQueue p cell = .ok state) (he : e ∈ carried p (.mergeRead state)) :
    Shows p cell e := by
  cases state with
  | none => cases he
  | some st =>
    obtain ⟨v, hv, -, hout⟩ := readQueue_some h
    exact ⟨v, hv, hout ▸ he⟩

variable [DecidableEq ω]

@[simp] theorem calls_act (q : System β ω Unit) (w : ω) (W : Writer) (k : QueueWriters.Call β) :
    (q.act w W () (some k)).calls () = some (w, k) := by
  simp [System.act]

@[simp] theorem calls_act_none (q : System β ω Unit) (w : ω) (W : Writer) :
    (q.act w W () none).calls () = none := by
  simp [System.act]

theorem mem_held_add {w w' : ω} {entry : QueueEntry}
    (h : e ∈ ((q.mutate w (.add entry)).writers w').outstanding.vals) :
    e = entry ∨ e ∈ (q.writers w').outstanding.vals := by
  by_cases hsame : w' = w
  · subst hsame
    simp only [System.mutate, Function.update_self] at h
    exact KeyedDict.mem_upsert h
  · simp only [System.mutate, Function.update_of_ne hsame] at h
    exact Or.inr h

theorem Confined.act (h : Confined p ws P q) {w : ω} {k : Option (QueueWriters.Call β)}
    (hw : w ∈ ws) (hW : ∀ e ∈ W.outstanding.vals, P e)
    (hk : ∀ k', k = some k' → ∀ e ∈ carried p k', P e) : Confined p ws P (q.act w W () k) where
  held := by
    intro w' hw' e he
    by_cases hsame : w' = w
    · subst hsame
      simp only [System.act, Function.update_self] at he
      exact hW e he
    · simp only [System.act, Function.update_of_ne hsame] at he
      exact h.held w' hw' e he
  calls := by
    intro w' k' hcall
    rcases act_calls_some hcall with ⟨-, rfl, hk'⟩ | ⟨hne, -⟩
    · exact ⟨hw, hk k' hk'⟩
    · exact absurd rfl hne
  shown := h.shown

theorem Confined.step {role : QueueRole}
    (loads_dumps : p.Rereads) (h : Confined p ws P q)
    {e : Event ω Unit} (hpassing : Passing ws P e)
    (hstep : Step p role q e q') : Confined p ws P q' := by
  cases hstep with
  | mutate w m =>
    cases m with
    | add entry =>
      refine ⟨?_, h.calls, h.shown⟩
      intro w' hw' e he
      rcases mem_held_add he with rfl | he
      · exact hpassing
      · exact h.held w' hw' e he
    | remove => exact hpassing.elim
    | removeMany => exact hpassing.elim
    | replay => exact hpassing.elim
    | pruneExpired => exact hpassing.elim
  | flushStart c w force now hidle hgo =>
    have hheld := h.held w hpassing
    refine h.act hpassing hheld ?_
    rintro _ ⟨⟩
    rw [carried, publishedEntries_payloadBody loads_dumps]
    exact hheld
  | put c w retry held body prior newEtag hcall hmatch haccept =>
    obtain ⟨hw, hbody⟩ := h.calls w _ hcall
    have hstored : Confined p ws P (q.stored ⟨newEtag, body⟩ haccept) := by
      refine ⟨h.held, h.calls, ?_⟩
      rintro e ⟨v, hv, he⟩
      cases hv.symm.trans (CasCell.current_store (h := haccept))
      exact hbody e he
    refine hstored.act hw (h.held w hw) ?_
    rintro _ ⟨⟩ e he
    cases he
  | putRefused c w retry held body prior hcall hmatch =>
    have hw := (h.calls w _ hcall).1
    refine h.act hw (h.held w hw) ?_
    intro k' hk' e he
    cases retry with
    | false =>
      cases hk'
      cases he
    | true => cases hk'
  | readForMerge c w state hcall hread =>
    have hw := (h.calls w _ hcall).1
    refine h.act hw (h.held w hw) ?_
    rintro _ ⟨⟩ e he
    exact h.shown e (carried_of_read hread he)
  | merge c w state hcall =>
    obtain ⟨hw, hstate⟩ := h.calls w _ hcall
    refine h.act hw ?_ ?_
    · intro e he
      rcases mem_merge he with he | he
      · exact h.held w hw e he
      · exact hstate e he
    · rintro _ ⟨⟩ e he
      cases he
  | rebuild c w now hcall =>
    have hw := (h.calls w _ hcall).1
    have hheld := h.held w hw
    refine h.act hw hheld ?_
    rintro _ ⟨⟩
    rw [carried, publishedEntries_payloadBody loads_dumps]
    exact hheld
  | finish c w held newEtag hcall =>
    have hw := (h.calls w _ hcall).1
    exact h.act hw (h.held w hw) fun _ hk => nomatch hk
  | raisePut c w retry held body prior hcall =>
    have hw := (h.calls w _ hcall).1
    exact h.act hw (h.held w hw) fun _ hk => nomatch hk
  | raiseRead c w hcall =>
    have hw := (h.calls w _ hcall).1
    exact h.act hw (h.held w hw) fun _ hk => nomatch hk
  | readForReconcile c w recent state hidle hread =>
    refine h.act hpassing (h.held w hpassing) ?_
    rintro _ ⟨⟩ e he
    refine h.shown e (carried_of_read hread ?_)
    cases state <;> exact he
  | reconcile c w state recent hcall =>
    obtain ⟨hw, hstate⟩ := h.calls w _ hcall
    exact h.act hw (fun e he => hstate e (mem_reconcile he)) fun _ hk => nomatch hk
  | restart w =>
    refine ⟨?_, ?_, h.shown⟩
    · intro w' hw' e he
      by_cases hsame : w' = w
      · subst hsame
        simp only [System.restart, Function.update_self] at he
        cases he
      · simp only [System.restart, Function.update_of_ne hsame] at he
        exact h.held w' hw' e he
    · intro w' k hcall
      exact h.calls w' k (restart_calls_some hcall).2

theorem versions_subset_of_step {role : QueueRole} {e : Event ω Unit} (h : Step p role q e q') :
    q.cell.versions ⊆ q'.cell.versions := by
  cases h with
  | put c w retry held body prior newEtag hcall hmatch haccept =>
    exact fun v hv => (CasCell.mem_store (h := haccept)).mpr (Or.inl hv)
  | _ => exact fun v hv => hv

end Queue

section Flush

variable {p : Platform β} {H : Host β τ} {faults : Faults} {ws : Set ω} {P : QueueEntry → Prop}
variable {q q' : System β ω Unit} {s t : Office β ω} {w : ω} {point : Point} {event : Event ω Unit}

/-- No addition has been lost, and only entries that pass are about. -/
structure Sound (p : Platform β) (ws : Set ω) (P : QueueEntry → Prop)
    (q : System β ω Unit) : Prop where
  additions : QueueAdditions.Invariant p q
  confined : Confined p ws P q

/-- Since an earlier state only the queue and the quotas have changed, no snapshot is gone, and the
call in progress is this one. -/
structure Stage (p : Platform β) (ws : Set ω) (P : QueueEntry → Prop) (s : Office β ω)
    (call : Option (ω × QueueWriters.Call β)) (t : Office β ω) : Prop where
  sound : Sound p ws P t.queues
  call : t.queues.calls () = call
  bucket : t.bucket = s.bucket
  kept : s.queues.cell.versions ⊆ t.queues.cell.versions

variable [DecidableEq ω]

theorem Sound.exec (h : Sound p ws P q)
    (loads_dumps : p.Rereads)
    (hexec : exec p .audit q event = some q') (hadd : AddOnly q event)
    (hpassing : Passing ws P event) : Sound p ws P q' :=
  ⟨additions_of_exec loads_dumps h.additions hexec hadd,
    h.confined.step loads_dumps hpassing (step_of_exec hexec)⟩

theorem Sound.abandon (h : Sound p ws P q) (hw : w ∈ ws) :
    Sound p ws P (q.act w (q.writers w) () none) where
  additions := h.additions.act (fun _ _ _ => rfl) (h.additions.writers w) fun _ hk => nomatch hk
  confined := h.confined.act hw (h.confined.held w hw) fun _ hk => nomatch hk

theorem Stage.exec {call call' : Option (ω × QueueWriters.Call β)} (h : Stage p ws P s call t)
    (loads_dumps : p.Rereads)
    (hexec : exec p .audit t.queues event = some q) (hadd : AddOnly t.queues event)
    (hpassing : Passing ws P event) (hcall : q.calls () = call') :
    Stage p ws P s call' { t with queues := q } where
  sound := h.sound.exec loads_dumps hexec hadd hpassing
  call := hcall
  bucket := h.bucket
  kept := List.Subset.trans h.kept (versions_subset_of_step (step_of_exec hexec))

theorem Stage.abandonFlush {call : Option (ω × QueueWriters.Call β)}
    (h : Stage p ws P s call t) (hw : w ∈ ws) : Stage p ws P s none (abandonFlush w t) where
  sound := h.sound.abandon hw
  call := calls_act_none ..
  bucket := h.bucket
  kept := h.kept

theorem ends_perform {Q : Except Halt PUnit → Office β ω → Prop}
    (hok : ∀ q, exec H.libraries.platform .audit s.queues event = some q →
      Q (.ok ⟨⟩) { s with queues := q })
    (herror : exec H.libraries.platform .audit s.queues event = none → ∀ e, Q (.error e) s) :
    Ends (perform H event) s Q := by
  refine ends_iff.mpr ⟨fun _ t hrun => ?_, fun e t hrun => ?_⟩
  · have hstep := attempt_eq_ok.mp hrun
    cases hexec : exec H.libraries.platform .audit s.queues event with
    | none =>
      rw [hexec] at hstep
      cases hstep
    | some q =>
      rw [hexec] at hstep
      cases hstep
      exact hok q hexec
  · obtain ⟨⟨err, hstep, -⟩, rfl⟩ := attempt_eq_error.mp hrun
    cases hexec : exec H.libraries.platform .audit t.queues event with
    | none => exact herror hexec e
    | some q =>
      rw [hexec] at hstep
      cases hstep

theorem ends_flushStep {Q : Except Halt PUnit → Office β ω → Prop}
    (hok : ∀ q, exec H.libraries.platform .audit s.queues event = some q →
      Q (.ok ⟨⟩) { s with queues := q })
    (herror : ∀ e, Q (.error e) (abandonFlush w s)) :
    Ends (flushStep H faults w point event) s Q := by
  have hinner : Ends (reach faults point >>= fun _ => perform H event) s fun r t =>
      (∃ q, exec H.libraries.platform .audit s.queues event = some q ∧ r = .ok ⟨⟩ ∧
        t = { s with queues := q }) ∨ (∃ e, r = .error e) ∧ t = s := by
    refine ends_bind (fun _ t hreach => ?_) fun e t hreach => ?_
    · obtain ⟨-, rfl⟩ := reach_eq_ok.mp hreach
      exact ends_perform (fun q hq => Or.inl ⟨q, hq, rfl, rfl⟩) fun _ e => Or.inr ⟨⟨e, rfl⟩, rfl⟩
    · exact Or.inr ⟨⟨e, rfl⟩, (reach_eq_error.mp hreach).2.symm⟩
  cases hrun : (reach faults point >>= fun _ => perform H event) s with
  | ok u t =>
    rw [Ends, flushStep, hrun]
    rcases hinner.of_ok hrun with ⟨q, hq, -, rfl⟩ | ⟨⟨e, hr⟩, -⟩
    · exact hok q hq
    · cases hr
  | error e t =>
    rw [Ends, flushStep, hrun]
    rcases hinner.of_error hrun with ⟨q, -, hr, -⟩ | ⟨-, rfl⟩
    · cases hr
    · exact herror e

theorem ends_finish (hw : w ∈ ws) (loads_dumps : H.libraries.platform.Rereads)
    {held : List QueueEntry} {newTag : String}
    (h : Stage H.libraries.platform ws P s (some (w, .published held newTag)) t) :
    Ends (flushStep H faults w .finishFlush (.finish ())) t fun _ u =>
      Stage H.libraries.platform ws P s none u := by
  refine ends_flushStep (fun q hq => ?_) fun e => h.abandonFlush hw
  refine h.exec loads_dumps hq trivial trivial ?_
  simp only [exec, h.call, Option.some.injEq] at hq
  subst hq
  exact calls_act_none ..

theorem ends_put (hw : w ∈ ws) (loads_dumps : H.libraries.platform.Rereads) {retry : Bool}
    {held : List QueueEntry} {body : β} {prior : Option String} (newTag : String)
    (h : Stage H.libraries.platform ws P s (some (w, .built retry held body prior)) t) :
    Ends (flushStep H faults w point (.put () newTag) >>= fun _ =>
      flushStep H faults w .finishFlush (.finish ())) t fun _ u =>
      Stage H.libraries.platform ws P s none u := by
  have hput : Ends (flushStep H faults w point (.put () newTag)) t fun r u => match r with
      | .ok _ => ∃ held, Stage H.libraries.platform ws P s (some (w, .published held newTag)) u
      | .error _ => Stage H.libraries.platform ws P s none u := by
    refine ends_flushStep (fun q hq => ?_) fun e => h.abandonFlush hw
    refine ⟨held, h.exec loads_dumps hq trivial trivial ?_⟩
    simp only [exec, h.call] at hq
    split_ifs at hq
    cases hq
    exact calls_act ..
  refine hput.bind ?_ fun _ _ hu => hu
  rintro _ u ⟨held, hu⟩
  exact ends_finish hw loads_dumps hu

theorem ends_flush (hw : w ∈ ws) (loads_dumps : H.libraries.platform.Rereads) (faults : Faults)
    (now : ℤ) (newTag : String) (h : Stage H.libraries.platform ws P s none t) :
    Ends (flush H faults w now newTag) t fun _ u => Stage H.libraries.platform ws P s none u := by
  have hstart : Ends (perform H (.flushStart () w true now)) t fun r u => match r with
      | .ok _ => ∃ held body prior,
          Stage H.libraries.platform ws P s (some (w, .built false held body prior)) u
      | .error _ => Stage H.libraries.platform ws P s none u := by
    refine ends_perform (fun q hq => ?_) fun _ _ => h
    have hstage := h.exec loads_dumps hq (StrandedAudits.not_busy_of_idle h.call w) hw rfl
    simp only [exec, h.call, Bool.or_true, if_true, Option.some.injEq] at hq
    subst hq
    rw [calls_act] at hstage
    exact ⟨_, _, _, hstage⟩
  refine hstart.bind ?_ fun e u hu => hu
  rintro _ u ⟨held, body, prior, hu⟩
  refine ends_get_bind ?_
  split_ifs with hmatch
  · exact ends_put hw loads_dumps newTag hu
  -- Another manager has published: read, merge and build the payload again.
  have hrefused : Ends (flushStep H faults w .flush (.putRefused ())) u fun r v => match r with
      | .ok _ => Stage H.libraries.platform ws P s (some (w, .refused)) v
      | .error _ => Stage H.libraries.platform ws P s none v := by
    refine ends_flushStep (fun q hq => ?_) fun e => hu.abandonFlush hw
    refine hu.exec loads_dumps hq trivial trivial ?_
    simp only [exec, hu.call, Bool.false_eq_true, if_false] at hq
    split_ifs at hq
    cases hq
    exact calls_act ..
  refine hrefused.bind (fun _ v hv => ?_) fun _ _ hv => hv
  have hread : Ends (flushStep H faults w .readForMerge (.readForMerge ())) v fun r x =>
      match r with
      | .ok _ => ∃ state, Stage H.libraries.platform ws P s (some (w, .mergeRead state)) x
      | .error _ => Stage H.libraries.platform ws P s none x := by
    refine ends_flushStep (fun q hq => ?_) fun e => hv.abandonFlush hw
    have hstage := hv.exec loads_dumps hq trivial trivial rfl
    simp only [exec, hv.call] at hq
    split at hq
    · next state hcall hread =>
      cases hcall
      cases hq
      rw [calls_act] at hstage
      exact ⟨state, hstage⟩
    · cases hq
  refine hread.bind ?_ fun _ _ hx => hx
  rintro _ x ⟨state, hx⟩
  have hmerge : Ends (perform H (.merge ())) x fun r y => match r with
      | .ok _ => Stage H.libraries.platform ws P s (some (w, .merged)) y
      | .error _ => Stage H.libraries.platform ws P s none y := by
    refine ends_perform (fun q hq => ?_) fun hnone => ?_
    · refine hx.exec loads_dumps hq trivial trivial ?_
      simp only [exec, hx.call, Option.some.injEq] at hq
      subst hq
      exact calls_act ..
    · simp [exec, hx.call] at hnone
  refine hmerge.bind (fun _ y hy => ?_) fun _ _ hy => hy
  have hrebuild : Ends (perform H (.rebuild () now)) y fun r z => match r with
      | .ok _ => ∃ held body prior,
          Stage H.libraries.platform ws P s (some (w, .built true held body prior)) z
      | .error _ => Stage H.libraries.platform ws P s none z := by
    refine ends_perform (fun q hq => ?_) fun hnone => ?_
    · have hstage := hy.exec loads_dumps hq trivial trivial rfl
      simp only [exec, hy.call, Option.some.injEq] at hq
      subst hq
      rw [calls_act] at hstage
      exact ⟨_, _, _, hstage⟩
    · simp [exec, hy.call] at hnone
  refine hrebuild.bind ?_ fun _ _ hz => hz
  rintro _ z ⟨held, body, prior, hz⟩
  exact ends_put hw loads_dumps newTag hz

theorem ends_construct (loads_dumps : H.libraries.platform.Rereads)
    (h : Stage H.libraries.platform Set.univ P s none s) (faults : Faults) (w : ω) :
    Ends (construct H faults w) s fun _ t =>
      Stage H.libraries.platform Set.univ P s none t := by
  have hrestart : Stage H.libraries.platform Set.univ P s none
      { s with queues := s.queues.restart w, quotas := Function.update s.quotas w {} } := by
    have hstep : Step H.libraries.platform .audit s.queues (.restart w) (s.queues.restart w) :=
      .restart _ w
    refine ⟨⟨h.sound.additions.restart w, h.sound.confined.step loads_dumps ?_ hstep⟩, ?_, rfl,
      List.Subset.refl _⟩
    · trivial
    · simp [System.restart, h.call]
  refine ends_modify_bind (ends_bind (fun _ t hreach => ?_) fun _ t hreach => ?_)
  · obtain ⟨-, rfl⟩ := reach_eq_ok.mp hreach
    have hread : Ends (perform H (.readForReconcile () w [])) { s with
          queues := s.queues.restart w, quotas := Function.update s.quotas w {} } fun r t =>
        if r.isOk then ∃ state, Stage H.libraries.platform Set.univ P s
          (some (w, .reconcileRead state [])) t
        else Stage H.libraries.platform Set.univ P s none t := by
      refine ends_perform (fun q hq => ?_) fun _ _ => hrestart
      have hstage := hrestart.exec loads_dumps hq
        ⟨rfl, StrandedAudits.not_busy_of_idle hrestart.call w⟩ trivial rfl
      simp only [exec] at hq
      split at hq
      · next state _ _ =>
        cases hq
        rw [calls_act] at hstage
        exact ⟨state, hstage⟩
      · cases hq
    refine hread.bind ?_ fun _ _ ht => ht
    rintro _ t ⟨state, ht⟩
    refine ends_perform (fun q hq => ?_) fun hnone => ?_
    · refine ht.exec loads_dumps hq trivial trivial ?_
      simp only [exec, ht.call, Option.some.injEq] at hq
      subst hq
      exact calls_act_none ..
    · simp [exec, ht.call] at hnone
  · obtain ⟨-, rfl⟩ := reach_eq_error.mp hreach
    exact hrestart

end Flush

section Pass

variable {H : Host β τ} {cfg : AuditJobConfig β} {faults : Faults} {w : ω} {s t : Office β ω}
variable {receiptUri jobId : String} {receipt : JobReceiptV3} {target m : JobManifestV3} {now : ℤ}
variable {clock : Readings} {P : QueueEntry → Prop} {issued : Set QueueEntry} {s₀ : Office β ω}

/-- All that has ever been put into a queue: each has its manifest in the bucket, and no two have
the same job id. -/
structure Ledger (H : Host β τ) (cfg : AuditJobConfig β) (issued : Set QueueEntry)
    (s : Office β ω) : Prop where
  sound : Sound H.libraries.platform Set.univ (· ∈ issued) s.queues
  idle : s.queues.calls () = none
  stored : ∀ e ∈ issued, Stored cfg s.bucket e.jobId
  agree : ∀ e ∈ issued, ∀ e' ∈ issued, e.jobId = e'.jobId → e = e'

structure Underway (H : Host β τ) (cfg : AuditJobConfig β) (issued : Set QueueEntry) (w : ω)
    (P : QueueEntry → Prop) (s₀ s : Office β ω) : Prop where
  ledger : ∃ issued', issued ⊆ issued' ∧ Ledger H cfg issued' s
  own : Confined H.libraries.platform {w} P s.queues
  grown : Grown cfg s₀.bucket s.bucket
  kept : s₀.queues.cell.versions ⊆ s.queues.cell.versions

structure AuditEntry (H : Host β τ) (cfg : AuditJobConfig β) (clock : Readings)
    (receiptUri : String) (receipt : JobReceiptV3) (e : QueueEntry) : Prop where
  job : e.jobId = auditJobId H.libraries.platform receipt
  deadline : e.deadlineUnix = clock.emit receiptUri + cfg.grantTtlSec

def Unanswered (H : Host β τ) (cfg : AuditJobConfig β) (b : Bucket β) (receipt : JobReceiptV3) :
    Prop :=
  receipt.runId = cfg.runId → hasVerdict (verifierConfig cfg) b receipt = .ok false ∧
    findAuditResult H (verifierConfig cfg) b receipt = none

theorem unanswered_grown {b c : Bucket β} (h : Grown cfg b c) :
    Unanswered H cfg c receipt ↔ Unanswered H cfg b receipt := by
  refine forall_congr' fun hrun => ?_
  rw [h.hasVerdict_eq, h.findAuditResult_eq hrun]

theorem needsAudit_true {b : Bucket β} (h : needsAudit H cfg b receipt = .ok true) :
    Unanswered H cfg b receipt ∧ ¬ Stored cfg b (auditJobId H.libraries.platform receipt) := by
  obtain ⟨verdict, hverdict, h⟩ := PyJson.bind_eq_ok.mp h
  cases verdict with
  | true => cases h
  | false =>
    rw [if_neg Bool.false_ne_true] at h
    split_ifs at h with hresult
    · cases h
    · obtain ⟨found, hfound, hdone⟩ := PyJson.bind_eq_ok.mp h
      obtain ⟨_, -, hpresent⟩ := PyJson.bind_eq_ok.mp hfound
      cases found with
      | true => cases hdone
      | false =>
        refine ⟨fun _ => ⟨hverdict, ?_⟩, fun hstored => ?_⟩
        · simpa using hresult
        · exact hstored (Option.not_isSome_iff_eq_none.mp
            (Bool.eq_false_iff.mp (Except.ok.inj hpresent)))

theorem Ledger.grown (h : Ledger H cfg issued s) (hgrown : Grown cfg s.bucket t.bucket)
    (hqueues : t.queues = s.queues) : Ledger H cfg issued t where
  sound := hqueues ▸ h.sound
  idle := hqueues ▸ h.idle
  stored := fun e he => by
    rw [Stored, hgrown.name]
    exact hgrown.kept _ (h.stored e he)
  agree := h.agree

variable [DecidableEq ω]

theorem ends_emitAuditJob :
    Ends (emitAuditJob H cfg faults w now receiptUri receipt target jobId) s fun r t =>
      Grown cfg s.bucket t.bucket ∧ match r with
        | .ok _ => Stored cfg t.bucket jobId ∧ ∃ entry : QueueEntry, entry.jobId = jobId ∧
            entry.deadlineUnix = now + cfg.grantTtlSec ∧
            t.queues = s.queues.mutate w (.add entry)
        | .error _ => t.queues = s.queues := by
  refine ends_iff.mpr ⟨fun m t hrun => ?_, fun halt t h => ?_⟩
  · obtain ⟨hgrown, hstored, -⟩ := emitAuditJob_stored hrun
    obtain ⟨worker, quota, grantUri, b, b', -, rfl, -, -, rfl⟩ := emitAuditJob_ok hrun
    exact ⟨hgrown, hstored, _, rfl, rfl, rfl⟩
  have hstay : ∀ {u : Office β ω}, u.bucket = s.bucket → u.queues = s.queues →
      Grown cfg s.bucket u.bucket ∧ u.queues = s.queues := by
    intro u hbucket hqueues
    rw [hbucket]
    exact ⟨Grown.refl _, hqueues⟩
  rcases Effects.bind_eq_error.mp h with hpick | ⟨worker, _, hpick, h⟩
  · cases pickWorker_error hpick
    exact hstay rfl rfl
  obtain ⟨quota, -, rfl⟩ := pickWorker_ok hpick
  rcases Effects.bind_eq_error.mp h with hget | ⟨_, _, hget, h⟩
  · exact absurd hget Effects.get_ne_error
  obtain ⟨rfl, rfl⟩ := Effects.get_eq_ok.mp hget
  rcases Effects.bind_eq_error.mp h with hreach | ⟨_, _, hreach, h⟩
  · obtain ⟨-, rfl⟩ := reach_eq_error.mp hreach
    exact hstay rfl rfl
  obtain ⟨-, rfl⟩ := reach_eq_ok.mp hreach
  rcases Effects.bind_eq_error.mp h with hput | ⟨_, _, hput, h⟩
  · obtain ⟨-, rfl⟩ := attempt_eq_error.mp hput
    exact hstay rfl rfl
  -- From here on the manifest is stored.
  obtain ⟨b, hstored, hdone⟩ := PyJson.bind_eq_ok.mp (attempt_eq_ok.mp hput)
  cases hdone
  have hfirst : Grown cfg s.bucket b := grown_of_put (manifestUri_isEmission jobId) hstored
  rcases Effects.bind_eq_error.mp h with hreach | ⟨_, _, hreach, h⟩
  · obtain ⟨-, rfl⟩ := reach_eq_error.mp hreach
    exact ⟨hfirst, rfl⟩
  obtain ⟨-, rfl⟩ := reach_eq_ok.mp hreach
  rcases Effects.bind_eq_error.mp h with hgrant | ⟨_, _, hgrant, h⟩
  · obtain ⟨-, rfl⟩ := attempt_eq_error.mp hgrant
    exact ⟨hfirst, rfl⟩
  obtain ⟨⟨grantUri, b'⟩, hminted, hdone⟩ := PyJson.bind_eq_ok.mp (attempt_eq_ok.mp hgrant)
  cases hdone
  have hsecond : Grown cfg b b' := (emitAssignmentGrant_grown (by rfl) hminted).1
  rcases Effects.bind_eq_error.mp h with hreach | ⟨_, _, -, h⟩
  · obtain ⟨-, rfl⟩ := reach_eq_error.mp hreach
    exact ⟨hfirst.trans hsecond, rfl⟩
  rcases Effects.bind_eq_error.mp h with hadd | ⟨_, _, -, h⟩
  · exact absurd hadd Effects.modify_ne_error
  · cases h

theorem Ledger.add (h : Ledger H cfg issued s) {entry : QueueEntry}
    (hgrown : Grown cfg s.bucket t.bucket) (hnew : ¬ Stored cfg s.bucket entry.jobId)
    (hstored : Stored cfg t.bucket entry.jobId)
    (hqueues : t.queues = s.queues.mutate w (.add entry)) :
    Ledger H cfg (insert entry issued) t where
  sound := by
    rw [hqueues]
    have hconfined := h.sound.confined.mono fun e he => Set.mem_insert_of_mem entry he
    refine ⟨h.sound.additions.mutate_add w entry, ⟨?_, hconfined.calls, hconfined.shown⟩⟩
    intro w' hw' e he
    rcases mem_held_add he with rfl | he
    · exact Set.mem_insert _ _
    · exact hconfined.held w' hw' e he
  idle := by
    rw [hqueues]
    exact h.idle
  stored := by
    rintro e (rfl | he)
    · exact hstored
    · rw [Stored, hgrown.name]
      exact hgrown.kept _ (h.stored e he)
  agree := by
    rintro e (rfl | he) e' (rfl | he') hid
    · rfl
    · exact absurd (hid ▸ h.stored e' he') hnew
    · exact absurd (hid ▸ h.stored e he) hnew
    · exact h.agree e he e' he' hid

theorem Underway.auditReceipt (hs : Underway H cfg issued w P s₀ s)
    (hnew : Unanswered H cfg s₀.bucket receipt →
      ∀ e, AuditEntry H cfg clock receiptUri receipt e → P e) :
    Ends (auditReceipt H cfg faults w clock receiptUri receipt) s fun _ t =>
      Underway H cfg issued w P s₀ t := by
  obtain ⟨issued', hsub, hledger⟩ := hs.ledger
  have hstay : ∀ {u : Office β ω}, Grown cfg s.bucket u.bucket → u.queues = s.queues →
      Underway H cfg issued w P s₀ u := fun hgrown hqueues =>
    ⟨⟨issued', hsub, hledger.grown hgrown hqueues⟩, hqueues ▸ hs.own, hs.grown.trans hgrown,
      hqueues ▸ hs.kept⟩
  refine ends_iff.mpr ⟨fun _ t hrun => ?_, fun halt t hrun => ?_⟩
  · rcases auditReceipt_ok hrun with ⟨-, rfl⟩ | ⟨hneeds, target, m, u, hemit, rfl⟩
    · exact hs
    obtain ⟨hgrown, hstored, entry, hid, hdeadline, hqueues⟩ := ends_emitAuditJob.of_ok hemit
    obtain ⟨hopen, hunstored⟩ := needsAudit_true hneeds
    have hentry : AuditEntry H cfg clock receiptUri receipt entry := ⟨hid, hdeadline⟩
    refine ⟨⟨insert entry issued', hsub.trans (Set.subset_insert _ _), ?_⟩, ?_,
      hs.grown.trans hgrown, ?_⟩
    · exact hledger.add (t := { u with emitted := u.emitted + 1 }) hgrown (hid ▸ hunstored)
        (hid ▸ hstored) hqueues
    · change Confined _ _ _ u.queues
      rw [hqueues]
      refine ⟨fun w' hw' e he => ?_, hs.own.calls, hs.own.shown⟩
      rcases mem_held_add he with rfl | he
      · exact hnew ((unanswered_grown hs.grown).mp hopen) _ hentry
      · exact hs.own.held w' hw' e he
    · change _ ⊆ u.queues.cell.versions
      rw [hqueues]
      exact hs.kept
  · rcases auditReceipt_error hrun with ⟨rfl, -⟩ | ⟨target, hemit⟩
    · exact hs
    · obtain ⟨hgrown, hqueues⟩ := ends_emitAuditJob.of_error hemit
      exact hstay hgrown hqueues

theorem Underway.auditReceipts (hs : Underway H cfg issued w P s₀ s) (faults : Faults)
    (maxJobs : Option ℤ) {receipts : List (String × JobReceiptV3)}
    (hnew : ∀ item ∈ receipts, Unanswered H cfg s₀.bucket item.2 →
      ∀ e, AuditEntry H cfg clock item.1 item.2 e → P e) :
    Ends (auditReceipts H cfg faults w clock maxJobs receipts) s fun _ t =>
      Underway H cfg issued w P s₀ t := by
  induction receipts generalizing s with
  | nil => exact hs
  | cons item receipts ih =>
    refine ends_get_bind ?_
    split_ifs
    · exact hs
    · refine (hs.auditReceipt (hnew item List.mem_cons_self)).bind (fun _ t ht => ?_)
        fun _ _ ht => ht
      exact ih ht fun item' hitem => hnew item' (List.mem_cons_of_mem item hitem)

theorem Underway.publish (hs : Underway H cfg issued w P s₀ s) (loads_dumps : H.libraries.platform.Rereads) (faults : Faults)
    (clock : Readings) :
    Ends (publishIfEmitted H faults w clock) s fun _ t => Underway H cfg issued w P s₀ t := by
  obtain ⟨issued', hsub, hledger⟩ := hs.ledger
  refine ends_get_bind ?_
  split_ifs
  · have hall := ends_flush (Set.mem_univ w) loads_dumps faults clock.flush clock.newTag
      ⟨hledger.sound, hledger.idle, rfl, List.Subset.refl _⟩
    have hown := ends_flush (Set.mem_singleton w) loads_dumps faults clock.flush clock.newTag
      ⟨⟨hledger.sound.additions, hs.own⟩, hledger.idle, rfl, List.Subset.refl _⟩
    refine (hall.and hown).mono fun _ t ht => ?_
    refine ⟨⟨issued', hsub, ht.1.sound, ht.1.call, ?_, hledger.agree⟩, ht.2.sound.confined, ?_,
      List.Subset.trans hs.kept ht.1.kept⟩
    · rw [ht.1.bucket]
      exact hledger.stored
    · rw [ht.1.bucket]
      exact hs.grown
  · exact hs

theorem ends_runOnce (hs : Ledger H cfg issued s) (loads_dumps : H.libraries.platform.Rereads) (faults : Faults)
    (clock : Readings) (maxJobs : Option ℤ)
    (hown : Confined H.libraries.platform {w} P s.queues)
    (hnew : ∀ item ∈ sampleReceipts H (verifierConfig cfg) s.bucket,
      Unanswered H cfg s.bucket item.2 → ∀ e, AuditEntry H cfg clock item.1 item.2 e → P e) :
    Ends (runOnce H cfg faults w clock maxJobs) s fun _ t =>
      Underway H cfg issued w P s t := by
  have hstart : ∀ {u : Office β ω}, u.bucket = s.bucket → u.queues = s.queues →
      Underway H cfg issued w P s u := by
    intro u hbucket hqueues
    have hgrown : Grown cfg s.bucket u.bucket := hbucket ▸ Grown.refl _
    exact ⟨⟨issued, subset_rfl, hs.grown hgrown hqueues⟩, hqueues ▸ hown, hgrown,
      hqueues ▸ List.Subset.refl _⟩
  rcases runOnce_cases H cfg faults w clock maxJobs s with
    ⟨halt, t, hrun, hbucket, hqueues⟩ | hrun
  · rw [Ends, hrun]
    exact hstart hbucket hqueues
  have hloop := (hstart (u := discovered H cfg w clock s) rfl rfl).auditReceipts faults maxJobs hnew
  rw [Ends, hrun, emitAndPublish]
  cases hresult : AuditJobs.auditReceipts H cfg faults w clock maxJobs
      (sampleReceipts H (verifierConfig cfg) s.bucket) (discovered H cfg w clock s) with
  | ok _ t =>
    have hpublish := (hloop.of_ok hresult).publish loads_dumps faults clock
    simp only
    cases hflush : publishIfEmitted H faults w clock t with
    | ok _ u => exact hpublish.of_ok hflush
    | error _ u => exact hpublish.of_error hflush
  | error halt t =>
    have ht := hloop.of_error hresult
    cases halt with
    | stopped => exact ht
    | raised e =>
      have hpublish := ht.publish loads_dumps faults clock
      simp only
      cases hflush : publishIfEmitted H faults w clock t with
      | ok _ u => exact hpublish.of_ok hflush
      | error _ u => exact hpublish.of_error hflush

end Pass

section Runs

variable {H : Host β τ} {cfg : AuditJobConfig β} {s t : Office β ω} {issued : Set QueueEntry}

/-- Others may change the bucket as they like, but they do not delete audit manifests. -/
def KeepsManifests (cfg : AuditJobConfig β) (s : Office β ω) : StrandedAudits.Call β ω → Prop
  | .outside b => b.name = s.bucket.name ∧ ∀ jobId, Stored cfg s.bucket jobId → Stored cfg b jobId
  | _ => True

variable [DecidableEq ω]

def ManifestsKept (H : Host β τ) (cfg : AuditJobConfig β) :
    Office β ω → List (StrandedAudits.Call β ω) → Prop
  | _, [] => True
  | s, call :: calls => KeepsManifests cfg s call ∧ ManifestsKept H cfg (call.perform H cfg s) calls

omit [DecidableEq ω] in
theorem Ledger.confined_any (hs : Ledger H cfg issued s) (w : ω) :
    Confined H.libraries.platform {w} (fun _ => True) s.queues := by
  refine ⟨fun _ _ _ _ => trivial, fun w' k h => ?_, fun _ _ => trivial⟩
  rw [hs.idle] at h
  cases h

theorem Ledger.perform (hs : Ledger H cfg issued s) (loads_dumps : H.libraries.platform.Rereads)
    {call : StrandedAudits.Call β ω} (hcall : KeepsManifests cfg s call) :
    ∃ issued', Ledger H cfg issued' (call.perform H cfg s) := by
  cases call with
  | construct w faults =>
    obtain ⟨_, ht⟩ := (ends_construct loads_dumps ⟨hs.sound, hs.idle, rfl, List.Subset.refl _⟩
      faults w).after
    exact ⟨issued, ht.sound, ht.call, ht.bucket ▸ hs.stored, hs.agree⟩
  | runOnce w faults clock maxJobs =>
    obtain ⟨_, ht⟩ := (ends_runOnce hs loads_dumps faults clock maxJobs (hs.confined_any w)
      fun _ _ _ _ _ => trivial).after
    obtain ⟨issued', -, hledger⟩ := ht.ledger
    exact ⟨issued', hledger⟩
  | outside b =>
    exact ⟨issued, hs.sound, hs.idle, fun e he => hcall.2 _ (hs.stored e he), hs.agree⟩

theorem Ledger.performAll (hs : Ledger H cfg issued s) (loads_dumps : H.libraries.platform.Rereads)
    {calls : List (StrandedAudits.Call β ω)} (hcalls : ManifestsKept H cfg s calls) :
    ∃ issued', Ledger H cfg issued' (performAll H cfg s calls) := by
  induction calls generalizing s issued with
  | nil => exact ⟨issued, hs⟩
  | cons call calls ih =>
    obtain ⟨issued', hnext⟩ := hs.perform loads_dumps hcalls.1
    exact ih hnext hcalls.2

omit [DecidableEq ω] in
theorem ledger_of_opening (h : Opening cfg s) : Ledger H cfg ∅ s where
  sound := by
    refine ⟨initial_invariant h.queue, ?_, ?_, ?_⟩
    · intro w _ e he
      rw [h.queue.writers w] at he
      cases he
    · intro w k hcall
      rw [h.queue.calls ()] at hcall
      cases hcall
    · rintro e ⟨v, hv, -⟩
      have hmem := CasCell.mem_of_current hv
      rw [h.unpublished] at hmem
      cases hmem
  idle := h.queue.calls ()
  stored := fun e he => he.elim
  agree := fun e he => he.elim

/-- The deadline of the entry has not passed and its receipt, if it is in the bucket, has neither
a verdict nor an audit result. -/
structure Active (H : Host β τ) (cfg : AuditJobConfig β) (b : Bucket β) (now : ℚ)
    (e : QueueEntry) : Prop where
  pending : Writer.expired now e = false
  unanswered : ∀ item ∈ listedReceipts H (verifierConfig cfg) b,
    auditJobId H.libraries.platform item.2 = e.jobId → Unanswered H cfg b item.2

omit [DecidableEq ω] in
theorem Active.congr {b c : Bucket β} {now : ℚ} {e : QueueEntry} (h : Grown cfg b c) :
    Active H cfg c now e ↔ Active H cfg b now e := by
  have hlisted : listedReceipts H (verifierConfig cfg) c =
      listedReceipts H (verifierConfig cfg) b := by
    apply AuditInfluence.listedReceipts_congr h.name
    intro uri huri
    apply h.others
    intro hemission
    exact listed_not_onBranch (receiptsPrefix_branch _ _) (by decide) huri hemission.onBranch
  constructor
  · intro ha
    exact ⟨ha.pending, fun item hitem hid =>
      (unanswered_grown h).mp (ha.unanswered item (hlisted ▸ hitem) hid)⟩
  · intro ha
    exact ⟨ha.pending, fun item hitem hid =>
      (unanswered_grown h).mpr (ha.unanswered item (hlisted ▸ hitem) hid)⟩

/-- Receipts of the run that get the same audit job id are receipts with one id. -/
def DistinctJobs (H : Host β τ) (cfg : AuditJobConfig β) (b : Bucket β) : Prop :=
  ∀ item ∈ listedReceipts H (verifierConfig cfg) b,
    ∀ item' ∈ listedReceipts H (verifierConfig cfg) b,
      auditJobId H.libraries.platform item.2 = auditJobId H.libraries.platform item'.2 →
        item.2.receiptId = item'.2.receiptId ∧ item.2.runId = item'.2.runId

omit [DecidableEq ω] in
theorem unanswered_of_same_id {b : Bucket β} {r r' : JobReceiptV3}
    (hid : r.receiptId = r'.receiptId) (hrun : r.runId = r'.runId)
    (h : Unanswered H cfg b r') : Unanswered H cfg b r := by
  intro hr
  obtain ⟨hverdict, hresult⟩ := h (hrun ▸ hr)
  constructor
  · rw [hasVerdict, verdictUri, hid, hrun]
    exact hverdict
  · rw [findAuditResult, hid, hrun]
    exact hresult

omit [DecidableEq ω] in
theorem active_of_new {b : Bucket β} {clock : Readings} {now : ℚ} (hdistinct : DistinctJobs H cfg b)
    {item : String × JobReceiptV3} (hitem : item ∈ sampleReceipts H (verifierConfig cfg) b)
    (htime : now ≤ (clock.emit item.1 + cfg.grantTtlSec : ℤ))
    (hopen : Unanswered H cfg b item.2) {e : QueueEntry}
    (he : AuditEntry H cfg clock item.1 item.2 e) : Active H cfg b now e := by
  have hlisted : item ∈ listedReceipts H (verifierConfig cfg) b :=
    (List.mem_filter.mp ((shuffle_perm _ _).mem_iff.mp hitem)).1
  refine ⟨?_, fun item' hitem' hid => ?_⟩
  · simp only [Writer.expired, he.deadline, decide_eq_false_iff_not, not_and, not_lt]
    exact fun _ => htime
  · obtain ⟨hreceipt, hrun⟩ := hdistinct item' hitem' item hlisted (hid.trans he.job)
    exact unanswered_of_same_id hreceipt hrun hopen

/-- After any run, a pass leaves only active entries in the published queue if all entries that
were published, and all that its manager holds, are active at its end; and only if those that were
published are, for none of them is ever taken out. -/
theorem published_active_iff (H : Host β τ) (cfg : AuditJobConfig β)
    (loads_dumps : ∀ j, Canonical j →
      H.libraries.platform.loads (H.libraries.platform.dumps j) = .ok j)
    {s₀ : Office β ω} (hopen : Opening cfg s₀) {calls : List (StrandedAudits.Call β ω)}
    (hcalls : ManifestsKept H cfg s₀ calls) (w : ω) (faults : Faults) (clock : Readings)
    (maxJobs : Option ℤ) (now : ℚ)
    (htime : ∀ uri, now ≤ (clock.emit uri + cfg.grantTtlSec : ℤ))
    (hdistinct : DistinctJobs H cfg (performAll H cfg s₀ calls).bucket) :
    let before := performAll H cfg s₀ calls
    let after := Effects.after (runOnce H cfg faults w clock maxJobs) before
    let allActive (s : Office β ω) := ∀ e, Shows H.libraries.platform s.queues.cell e →
      Active H cfg s.bucket now e
    ((allActive before ∧ ∀ e ∈ (before.queues.writers w).outstanding.vals,
      Active H cfg before.bucket now e) → allActive after) ∧
    (allActive after → allActive before) := by
  intro before after allActive
  obtain ⟨issued, hledger⟩ := (ledger_of_opening hopen).performAll loads_dumps hcalls
  constructor
  · rintro ⟨hshown, hheld⟩
    have hown : Confined H.libraries.platform {w} (Active H cfg before.bucket now)
        before.queues := by
      refine ⟨?_, fun w' k h => ?_, hshown⟩
      · rintro w' rfl
        exact hheld
      · rw [hledger.idle] at h
        cases h
    obtain ⟨_, ht⟩ := (ends_runOnce hledger loads_dumps faults clock maxJobs hown
      fun item hitem hu e he => active_of_new hdistinct hitem (htime _) hu he).after
    exact fun e he => (Active.congr ht.grown).mpr (ht.own.shown e he)
  · intro hafter e he
    obtain ⟨_, ht⟩ := (ends_runOnce hledger loads_dumps faults clock maxJobs
      (hledger.confined_any w) fun _ _ _ _ _ => trivial).after
    obtain ⟨issued', hsub, hledger'⟩ := ht.ledger
    -- the id is still shown, and there is only one entry with this id
    obtain ⟨v, hv, hmem⟩ := he
    have hstored := ht.kept (CasCell.mem_of_current hv)
    obtain ⟨v', hv'⟩ : ∃ v', after.queues.cell.current = some v' :=
      Option.isSome_iff_exists.mp (List.getLast?_isSome.mpr (List.ne_nil_of_mem hstored))
    have hid : e.jobId ∈ jobIds H.libraries.platform v'.body :=
      hledger'.sound.additions.growing.le_current hstored hv' (List.mem_map_of_mem hmem)
    obtain ⟨e', he', hsame⟩ := List.mem_map.mp hid
    have hissued : e ∈ issued' := hsub (hledger.sound.confined.shown e ⟨v, hv, hmem⟩)
    have hissued' : e' ∈ issued' := hledger'.sound.confined.shown e' ⟨v', hv', he'⟩
    obtain rfl := hledger'.agree e' hissued' e hissued hsame
    exact (Active.congr ht.grown).mp (hafter e' ⟨v', hv', he'⟩)

end Runs

section StaleEntries

open SelfAudits ScoreIsolation

def shownEntries (s : Office Json Unit) : List QueueEntry :=
  match s.queues.cell.current with
  | some v => publishedEntries plainPlatform v.body
  | none => []

theorem shows_iff {s : Office Json Unit} {e : QueueEntry} :
    Shows plainPlatform s.queues.cell e ↔ e ∈ shownEntries s := by
  rw [Shows, shownEntries]
  cases s.queues.cell.current with
  | none => simp
  | some v => simp

def passAfter (calls : List (StrandedAudits.Call Json Unit)) (now : ℤ) (newTag : String) :
    Office Json Unit :=
  Effects.after
    (runOnce scoringHost auditConfig (fun _ => none) () ⟨now, fun _ => now, now, newTag⟩)
    (performAll scoringHost auditConfig office calls)

def constructed : List (StrandedAudits.Call Json Unit) := [.construct () fun _ => none]

def firstPass : List (StrandedAudits.Call Json Unit) :=
  constructed ++ [.runOnce () (fun _ => none) (readings "e1") none]

def firstAudit : List (StrandedAudits.Call Json Unit) :=
  let b := (performAll scoringHost auditConfig office firstPass).bucket
  firstPass ++ [.outside { b with objects := withAudit b "B" }]

def answered (b : Bucket Json) (e : QueueEntry) : Bool :=
  (listedReceipts scoringHost (verifierConfig auditConfig) b).any fun item =>
    auditJobId plainPlatform item.2 = e.jobId ∧ item.2.runId = "r" ∧
      (findAuditResult scoringHost (verifierConfig auditConfig) b item.2).isSome

/-- After a pass at time 1000 the queue shows a job with the deadline 600, and after a pass that
finds an audit result it shows the job of that result. -/
theorem stale_entries_stay :
    (∃ e, Shows plainPlatform (passAfter firstPass 1000 "e2").queues.cell e ∧
      ¬ Active scoringHost auditConfig (passAfter firstPass 1000 "e2").bucket 1000 e) ∧
    ∃ e, Shows plainPlatform (passAfter firstAudit 1 "e2").queues.cell e ∧
      Writer.expired 1 e = false ∧
      ¬ Active scoringHost auditConfig (passAfter firstAudit 1 "e2").bucket 1 e := by
  have hexpired : (shownEntries (passAfter firstPass 1000 "e2")).any (Writer.expired 1000) =
      true := by
    decide +kernel
  have hanswered : (shownEntries (passAfter firstAudit 1 "e2")).any (fun e =>
      !Writer.expired 1 e && answered (passAfter firstAudit 1 "e2").bucket e) = true := by
    decide +kernel
  obtain ⟨e, he, hpassed⟩ := List.any_eq_true.mp hexpired
  obtain ⟨e', he', hboth⟩ := List.any_eq_true.mp hanswered
  obtain ⟨hpending, hresult⟩ := Bool.and_eq_true_iff.mp hboth
  refine ⟨⟨e, shows_iff.mpr he, fun hactive => ?_⟩, e', shows_iff.mpr he', by simpa using hpending,
    fun hactive => ?_⟩
  · rw [hactive.pending] at hpassed
    cases hpassed
  · obtain ⟨item, hitem, hfound⟩ := List.any_eq_true.mp hresult
    obtain ⟨hid, hrun, hsome⟩ := of_decide_eq_true hfound
    have hnone := (hactive.unanswered item hitem hid hrun).2
    rw [hnone] at hsome
    cases hsome

/-- The first pass leaves one entry in the queue, and it is active. -/
theorem first_pass_active :
    (∃ e, Shows plainPlatform (passAfter constructed 0 "e1").queues.cell e) ∧
    ∀ e, Shows plainPlatform (passAfter constructed 0 "e1").queues.cell e →
      Active scoringHost auditConfig (passAfter constructed 0 "e1").bucket 0 e := by
  have hsome : (shownEntries (passAfter constructed 0 "e1")).isEmpty = false := by
    decide +kernel
  have hone : (listedReceipts scoringHost (verifierConfig auditConfig)
      (performAll scoringHost auditConfig office constructed).bucket).all
        (fun item => item.2.receiptId = "x" ∧ item.2.runId = "r") = true := by
    decide +kernel
  have hnothing : (performAll scoringHost auditConfig office constructed).queues.cell.versions =
      [] := by
    decide +kernel
  have hempty : ((performAll scoringHost auditConfig office constructed).queues.writers
      ()).outstanding.vals = [] := by
    decide +kernel
  have hkept : ManifestsKept scoringHost auditConfig office constructed := ⟨trivial, trivial⟩
  have htime : ∀ _ : String, (0 : ℚ) ≤ ((0 + auditConfig.grantTtlSec : ℤ) : ℚ) :=
    fun _ => Int.cast_nonneg (by decide)
  have hdistinct : DistinctJobs scoringHost auditConfig
      (performAll scoringHost auditConfig office constructed).bucket := by
    intro item hitem item' hitem' _
    obtain ⟨hid, hrun⟩ := of_decide_eq_true (List.all_eq_true.mp hone item hitem)
    obtain ⟨hid', hrun'⟩ := of_decide_eq_true (List.all_eq_true.mp hone item' hitem')
    exact ⟨hid.trans hid'.symm, hrun.trans hrun'.symm⟩
  have hpass := published_active_iff scoringHost auditConfig plainPlatform_lawful.loads_dumps
    office_opening hkept () (fun _ => none) ⟨(0 : ℤ), fun _ => 0, 0, "e1"⟩ none 0 htime hdistinct
  constructor
  · obtain ⟨e, he⟩ := List.exists_mem_of_ne_nil _ (List.isEmpty_eq_false_iff.mp hsome)
    exact ⟨e, shows_iff.mpr he⟩
  · rw [passAfter]
    refine hpass.1 ⟨?_, ?_⟩
    · rintro e ⟨v, hv, -⟩
      have hmem := CasCell.mem_of_current hv
      rw [hnothing] at hmem
      cases hmem
    · intro e he
      rw [hempty] at he
      cases he

end StaleEntries

end AuditBacklog

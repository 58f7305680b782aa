import Teuton.QueueWriters
import Teuton.StreamManager

/-! Backpressure of the streaming manager. As long as nobody else writes the queue object, a
flush never finds entries that the manager does not hold, so the queue of a hotkey grows only
when a job is emitted to it, and that happens only while there is room. -/
namespace StreamBackpressure

open PyJson Signatures ObjectStore JobEmission OrchestratorQueue QueueWriters
open Dispatch StreamEmission StreamManager

variable {β : Type}

/-- The manager, the queue object in the bucket and how far a flush has come. -/
structure StreamSystem (β : Type) where
  manager : Manager β
  cell : CasCell β
  call : Option (Call β) := none

def StreamSystem.writer (s : StreamSystem β) : System β Unit Unit :=
  ⟨s.cell, fun _ => s.manager.queue, fun _ => s.call.map fun k => ((), k), fun _ => []⟩

def StreamSystem.follow (s : StreamSystem β) (t : System β Unit Unit) : StreamSystem β :=
  ⟨s.manager.withQueue (t.writers ()), t.cell, (t.calls ()).map Prod.snd⟩

def IsFlush : Event Unit Unit → Bool
  | .mutate .. | .readForReconcile .. | .reconcile .. | .restart .. => false
  | _ => true

section System

variable (p : Platform β) (cfg : StreamingRunConfig β) (d : DispatchConfig)

/-- A started manager has loaded the published queue. -/
structure Start (s : StreamSystem β) : Prop where
  queue : ∃ state, readQueue p s.cell = .ok state ∧ s.manager.queue = Writer.reconcile {} state []
  call : s.call = none

/-- The operations of the manager, with arbitrary arguments, clock readings and listings, and the
steps of a flush in the background. An emission may raise at any point. Others may write
anything into the bucket, heartbeats in particular, but not the queue object. -/
inductive Step : StreamSystem β → StreamSystem β → Prop where
  | discover (s now) : Step s { s with manager := discoverWorkers p cfg d now s.manager }
  | emit (s params now grantNow spec) : Step s { s with
      manager := Effects.after (emitJob p cfg d params now grantNow spec) s.manager }
  | drain (s listing pruneNow cursorNow) : Step s { s with
      manager := (drainQueueViaReceipts listing pruneNow cursorNow s.manager).2 }
  | drop (s epoch) : Step s { s with manager := dropEpochJobs epoch s.manager }
  | release (s epoch) : Step s { s with manager := releaseEpochQuota epoch s.manager }
  | others (s : StreamSystem β) (b : Bucket β) : Step s { s with
      manager := s.manager.withDesk { s.manager.desk with bucket := b } }
  | flush (s e t) (hflush : IsFlush e = true) (hstep : QueueWriters.Step p .train s.writer e t) :
      Step s (s.follow t)

inductive Run (start : StreamSystem β) : StreamSystem β → Prop where
  | nil : Run start start
  | snoc {s t} : Run start s → Step p cfg d s t → Run start t

end System

def Unreadable (p : Platform β) (cell : CasCell β) : Prop :=
  ∀ state, readQueue p cell = .ok state → state = none

/-- The next conditional put succeeds, or what it would conflict with cannot be read. -/
def InSync (p : Platform β) (cell : CasCell β) (W : Writer) : Prop :=
  Writer.ifMatch W.etag = cell.currentTag ∨ Unreadable p cell

def CallOk (p : Platform β) (cell : CasCell β) (W : Writer) : Option (Call β) → Prop
  | none => InSync p cell W
  | some (.built _ _ _ prior) => prior = W.etag ∧ InSync p cell W
  | some .refused => Unreadable p cell
  | some (.mergeRead state) => state = none ∧ Unreadable p cell
  | some .merged => Unreadable p cell
  | some (.published _ newEtag) => cell.currentTag = newEtag
  | some (.reconcileRead ..) => False

variable {p : Platform β} {cfg : StreamingRunConfig β} {d : DispatchConfig}

theorem CallOk.of_etag {cell : CasCell β} {W W' : Writer} {k : Option (Call β)}
    (h : CallOk p cell W k) (hetag : W'.etag = W.etag) : CallOk p cell W' k := by
  cases k with
  | none =>
    simp only [CallOk, InSync, hetag] at h ⊢
    exact h
  | some k =>
    cases k with
    | built retry held body prior =>
      simp only [CallOk, InSync, hetag] at h ⊢
      exact h
    | _ => exact h

theorem start_inSync {s : StreamSystem β} (h : Start p s) : InSync p s.cell s.manager.queue := by
  obtain ⟨state, hread, hqueue⟩ := h.queue
  cases state with
  | none =>
    right
    intro state hstate
    rw [hread] at hstate
    exact (Except.ok.inj hstate).symm
  | some st =>
    left
    obtain ⟨v, hcurrent, hetag, -⟩ := readQueue_some hread
    have hloaded : s.manager.queue.etag = st.etag := by
      rw [hqueue]
      rfl
    rw [hloaded, hetag, CasCell.currentTag_of_current hcurrent]
    rfl

theorem flush_step {s : StreamSystem β} {e : Event Unit Unit} {t : System β Unit Unit}
    (hok : CallOk p s.cell s.manager.queue s.call) (hflush : IsFlush e = true)
    (hstep : QueueWriters.Step p .train s.writer e t) :
    CallOk p t.cell (t.writers ()) ((t.calls ()).map Prod.snd) ∧
      (t.writers ()).outstanding = s.manager.queue.outstanding := by
  -- the call in the only slot is the one the step is about
  have hslot : ∀ {w : Unit} {k : Call β}, s.writer.calls () = some (w, k) → s.call = some k := by
    intro w k h
    cases hc : s.call with
    | none => simp [StreamSystem.writer, hc] at h
    | some k' =>
      simp only [StreamSystem.writer, hc, Option.map_some, Option.some.injEq, Prod.mk.injEq] at h
      rw [h.2]
  cases hstep with
  | mutate => cases hflush
  | readForReconcile => cases hflush
  | reconcile => cases hflush
  | restart => cases hflush
  | flushStart c w force now hidle hgo =>
    have hnone : s.call = none := by
      cases hc : s.call with
      | none => rfl
      | some k => simp [StreamSystem.writer, hc] at hidle
    rw [hnone] at hok
    simp only [System.act, Function.update_self, Option.map_some]
    exact ⟨⟨rfl, hok⟩, rfl⟩
  | put c w retry held body prior newEtag hcall hmatch haccept =>
    simp only [System.act, Function.update_self, Option.map_some, System.stored]
    exact ⟨CasCell.currentTag_of_current CasCell.current_store, rfl⟩
  | putRefused c w retry held body prior hcall hmatch =>
    rw [hslot hcall] at hok
    obtain ⟨hprior, hsync⟩ := hok
    have hunreadable : Unreadable p s.cell := by
      rcases hsync with hsync | hunreadable
      · exact absurd (hprior ▸ hsync) hmatch
      · exact hunreadable
    cases retry with
    | true =>
      simp only [System.act, Function.update_self, if_true, Option.map_none]
      exact ⟨Or.inr hunreadable, rfl⟩
    | false =>
      simp only [System.act, Function.update_self, Bool.false_eq_true, if_false, Option.map_some]
      exact ⟨hunreadable, rfl⟩
  | readForMerge c w state hcall hread =>
    rw [hslot hcall] at hok
    simp only [System.act, Function.update_self, Option.map_some]
    exact ⟨⟨hok state hread, hok⟩, rfl⟩
  | merge c w state hcall =>
    rw [hslot hcall] at hok
    obtain ⟨rfl, hunreadable⟩ := hok
    simp only [System.act, Function.update_self, Option.map_some]
    exact ⟨hunreadable, rfl⟩
  | rebuild c w now hcall =>
    rw [hslot hcall] at hok
    simp only [System.act, Function.update_self, Option.map_some]
    exact ⟨⟨rfl, Or.inr hok⟩, rfl⟩
  | finish c w held newEtag hcall =>
    rw [hslot hcall] at hok
    simp only [System.act, Function.update_self, Option.map_none]
    exact ⟨Or.inl hok.symm, rfl⟩
  | raisePut c w retry held body prior hcall =>
    rw [hslot hcall] at hok
    simp only [System.act, Function.update_self, Option.map_none]
    exact ⟨hok.2, rfl⟩
  | raiseRead c w hcall =>
    rw [hslot hcall] at hok
    simp only [System.act, Function.update_self, Option.map_none]
    exact ⟨Or.inr hok, rfl⟩

theorem queue_after_emitJob (params : StreamingParams) (now grantNow : ℤ) (spec : JobSpec)
    (m : Manager β) :
    (Effects.after (emitJob p cfg d params now grantNow spec) m).queue = m.queue ∨
      ∃ entry : QueueEntry, hasRoom d m.queue entry.assignedHotkey = true ∧
        (Effects.after (emitJob p cfg d params now grantNow spec) m).queue = m.queue.add entry := by
  cases h : emitJob p cfg d params now grantNow spec none m with
  | error e m' =>
    rw [Effects.after_of_error h]
    exact Or.inl (emitJob_error h).queue
  | ok manifest m' =>
    rw [Effects.after_of_ok h]
    obtain ⟨worker, grantUri, _, hpicks, -, hsigned, -, hqueue, -⟩ := emitJob_ok h
    have hroom : hasRoom d m.queue manifest.assignedHotkey = true :=
      signedManifest_assigned hsigned ▸ hpicks.room
    exact Or.inr ⟨_, hroom, hqueue⟩

/-- The bound on the queue of a hotkey that had `initial` entries when the manager started. -/
def limit (d : DispatchConfig) (initial : ℕ) : ℤ := max d.maxInflightPerHotkey initial

structure Invariant (p : Platform β) (d : DispatchConfig) (start s : StreamSystem β) : Prop where
  flush : CallOk p s.cell s.manager.queue s.call
  bounded : ∀ hotkey, (s.manager.queue.depth (some hotkey) : ℤ) ≤
    limit d (start.manager.queue.depth (some hotkey))

theorem Invariant.shrink {start s : StreamSystem β} (h : Invariant p d start s) {m : Manager β}
    (hetag : m.queue.etag = s.manager.queue.etag)
    (hdepth : ∀ hotkey, m.queue.depth (some hotkey) ≤ s.manager.queue.depth (some hotkey)) :
    Invariant p d start { s with manager := m } := by
  refine ⟨h.flush.of_etag hetag, fun hotkey => le_trans ?_ (h.bounded hotkey)⟩
  exact_mod_cast hdepth hotkey

theorem Invariant.emit {start s : StreamSystem β} (h : Invariant p d start s)
    (params : StreamingParams) (now grantNow : ℤ) (spec : JobSpec) :
    Invariant p d start { s with
      manager := Effects.after (emitJob p cfg d params now grantNow spec) s.manager } := by
  rcases queue_after_emitJob params now grantNow spec s.manager with hqueue | ⟨entry, hroom, hqueue⟩
  · apply h.shrink
    · rw [hqueue]
    · intro hotkey
      rw [hqueue]
  · refine ⟨h.flush.of_etag (by rw [hqueue]; rfl), fun hotkey => ?_⟩
    have hadd := s.manager.queue.depth_add_le entry hotkey
    have hbound := h.bounded hotkey
    rw [← hqueue] at hadd
    dsimp only
    by_cases hhotkey : entry.assignedHotkey = hotkey
    · -- the hotkey had room for one more entry
      rw [if_pos hhotkey] at hadd
      have hless : (s.manager.queue.depth (some hotkey) : ℤ) < d.maxInflightPerHotkey := by
        rw [hhotkey] at hroom
        exact of_decide_eq_true hroom
      simp only [limit] at hbound ⊢
      omega
    · rw [if_neg hhotkey] at hadd
      omega

theorem Invariant.step {start s t : StreamSystem β} (h : Invariant p d start s)
    (hstep : Step p cfg d s t) : Invariant p d start t := by
  cases hstep with
  | discover now => exact h.shrink rfl fun _ => le_refl _
  | emit params now grantNow spec => exact h.emit params now grantNow spec
  | drain listing pruneNow cursorNow =>
    apply h.shrink
    · exact (mutator_etag (.pruneExpired pruneNow) _).trans (mutator_etag (.removeMany _) _)
    · intro hotkey
      exact (Writer.depth_pruneExpired_le _ _ _).trans (Writer.depth_removeMany_le _ _ _)
  | drop epoch =>
    apply h.shrink
    · exact mutator_etag (.removeMany _) _
    · intro hotkey
      exact Writer.depth_removeMany_le _ _ _
  | release epoch => exact h.shrink rfl fun _ => le_refl _
  | others b => exact h.shrink rfl fun _ => le_refl _
  | flush e t hflush hstep =>
    obtain ⟨hcall, houtstanding⟩ := flush_step h.flush hflush hstep
    refine ⟨hcall, fun hotkey => ?_⟩
    have hdepth := Writer.depth_congr houtstanding (some hotkey)
    exact hdepth ▸ h.bounded hotkey

theorem invariant_of_run {start s : StreamSystem β} (hstart : Start p start)
    (hrun : Run p cfg d start s) : Invariant p d start s := by
  induction hrun with
  | nil =>
    refine ⟨?_, fun hotkey => le_max_right _ _⟩
    rw [hstart.call]
    exact start_inSync hstart
  | snoc _ hstep ih => exact ih.step hstep

/-- The queue of a hotkey is never deeper than the configured maximum, or than it was when the
manager started. -/
theorem queue_depth_bounded {start s : StreamSystem β} (hstart : Start p start)
    (hrun : Run p cfg d start s) (hotkey : String) :
    (s.manager.queue.depth (some hotkey) : ℤ) ≤
      max d.maxInflightPerHotkey (start.manager.queue.depth (some hotkey)) :=
  (invariant_of_run hstart hrun).bounded hotkey

section OneMiner

def oneMiner : Bucket Json :=
  ⟨"b", SortedDict.empty.insert "s3://b/v3/netuid=0/miners/A/workers/w/heartbeat.json"
    (mkObj [("worker", mkObj [("hotkey_ss58", .str "A"), ("worker_id", .str "w"),
        ("gpu_index", .int 0)]), ("run_id", .str "r")])⟩

def oneMinerConfig : StreamingRunConfig Json := { netuid := 0, runId := "r" }

def forwardJob (jobId : String) : JobSpec :=
  { jobId := jobId, kind := "pipe_forward", stepId := 0, graph := { outputs := [] }, params := [],
    inputs := [], outputs := [] }

def idleManager : StreamSystem Json where
  manager := { desk := { bucket := oneMiner, queue := Writer.reconcile {} none [] }, cursor := 0 }
  cell := CasCell.absent

def emitNext (d : DispatchConfig) (s : StreamSystem Json) (jobId : String) : StreamSystem Json :=
  let params : StreamingParams := { nStages := 1, nMicrobatches := 1 }
  let emit := emitJob plainPlatform oneMinerConfig d params 0 0 (forwardJob jobId)
  { s with manager := Effects.after emit s.manager }

def emitAll (d : DispatchConfig) (jobIds : List String) (s : StreamSystem Json) :
    StreamSystem Json :=
  let discovered := discoverWorkers plainPlatform oneMinerConfig d 0 s.manager
  jobIds.foldl (emitNext d) { s with manager := discovered }

theorem run_emitAll (d : DispatchConfig) (jobIds : List String) (s : StreamSystem Json) :
    Run plainPlatform oneMinerConfig d s (emitAll d jobIds s) := by
  have hfold : ∀ (jobIds : List String) (t : StreamSystem Json),
      Run plainPlatform oneMinerConfig d s t →
      Run plainPlatform oneMinerConfig d s (jobIds.foldl (emitNext d) t) := by
    intro jobIds
    induction jobIds with
    | nil => exact fun t ht => ht
    | cons jobId jobIds ih => exact fun t ht => ih _ (ht.snoc (.emit t _ _ _ _))
  exact hfold jobIds _ (Run.nil.snoc (.discover s 0))

/-- The third of three jobs finds no room in a queue for two. -/
theorem third_job_waits :
    (emitAll { maxInflightPerHotkey := 2 } ["a", "b", "c"] idleManager).manager.queue.depth
        (some "A") = 2 ∧
      ((emitAll { maxInflightPerHotkey := 2 } ["a", "b", "c"] idleManager).manager.queue.depth
        (some "A") : ℤ) ≤ max 2 (idleManager.manager.queue.depth (some "A")) :=
  ⟨by decide +kernel,
    queue_depth_bounded ⟨⟨none, rfl, rfl⟩, rfl⟩ (run_emitAll _ _ _) "A"⟩

end OneMiner

end StreamBackpressure

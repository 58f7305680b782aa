import Teuton.MinerWorker
import Teuton.ScoreIsolation

/-! What a worker executes. Whatever the queues and the bucket hold, a job reaches the executor
only through a manifest that the owner signed for this worker and, where grants are used, with a
grant that covers it; a tick writes at most one receipt; and an entry whose job has its receipt
is passed over. -/
namespace MinerSafety

open PyJson PyText Signatures ObjectStore BucketPaths Protocol AssignmentGrants
open OrchestratorQueue IdentityChecks MinerWorker
open ArtifactCrypto (strOr)
open AuditJobs (Halt)

variable {β ε : Type}

section Checks

variable {S : Services β ε} {cfg : WorkerConfig} {role : Role} {now : String → ℤ} {b : Bucket β}
variable {entry : QueueEntry} {manifest : JobManifestV3} {grant : AssignmentGrantV3}

def OwnerSigned (p : Platform β) (cfg : WorkerConfig) (manifest : JobManifestV3) : Prop :=
  ∃ signature, manifest.ownerSignature = some signature ∧ signature ≠ "" ∧
    verifyIdentityDict p manifest.unsignedDict
      (if cfg.ownerHotkey ≠ "" then cfg.ownerHotkey else cfg.ownerSecret) signature = .ok true

/-- The grant was decrypted for this hotkey, names the same job, run and hotkey, had not expired
and covers the outputs and a receipt. -/
structure Covers (S : Services β ε) (cfg : WorkerConfig) (now : ℤ) (manifest : JobManifestV3)
    (grant : AssignmentGrantV3) : Prop where
  decrypted : ∃ encrypted, S.decrypt encrypted cfg.hotkeySs58 = .ok grant
  job : grant.jobId = manifest.jobId
  run : grant.runId = manifest.runId
  hotkey : grant.assignedHotkey = cfg.hotkeySs58
  unexpired : now ≤ grant.expiresUnix
  outputs : ∀ ref ∈ manifest.outputs, ∃ put ∈ grant.outputPuts, put.canonicalUri = ref.uri
  receipt : grant.receiptPut.isSome

structure Authorised (S : Services β ε) (cfg : WorkerConfig) (manifest : JobManifestV3)
    (grant : Option AssignmentGrantV3) : Prop where
  signed : OwnerSigned S.platform cfg manifest
  hotkey : manifest.assignedHotkey = cfg.hotkeySs58
  worker : manifest.assignedWorker = none ∨ manifest.assignedWorker = some cfg.workerId
  devices : manifest.resourceRequirements.minGpus ≤ cfg.devices.length
  granted : cfg.grantMode ≠ "direct" → ∃ g now, grant = some g ∧ Covers S cfg now manifest g

theorem ownerSigned_of_verified (hskip : cfg.ownerSecret ≠ "skip")
    (h : MinerWorker.verifyManifestSignature S.platform cfg.owner manifest = .ok true) :
    OwnerSigned S.platform cfg manifest := by
  unfold MinerWorker.verifyManifestSignature at h
  rw [if_neg (show cfg.owner.ownerSecret ≠ "skip" from hskip)] at h
  by_cases hempty : strOr manifest.ownerSignature "" = ""
  · simp [hempty] at h
  · simp only [hempty, if_false] at h
    refine ⟨_, PassedReceipts.some_of_strOr hempty, hempty, ?_⟩
    rw [← h]
    change verifyIdentityDict _ _ (if cfg.ownerHotkey ≠ "" then _ else _) _ =
      if cfg.ownerHotkey ≠ "" then _ else _
    split_ifs <;> rfl

theorem eligible_iff : eligible cfg manifest = true ↔
    manifest.assignedHotkey = cfg.hotkeySs58 ∧
    manifest.resourceRequirements.minGpus ≤ cfg.devices.length ∧
    (manifest.assignedWorker = none ∨ manifest.assignedWorker = some cfg.workerId) := by
  have hpos : 0 < cfg.devices.length := by
    unfold WorkerConfig.devices
    split_ifs with hempty
    · simp
    · exact List.length_pos_iff.mpr (by simpa using hempty)
  unfold eligible
  by_cases hhotkey : manifest.assignedHotkey = cfg.hotkeySs58
  · by_cases hfits : manifest.resourceRequirements.minGpus ≤ cfg.devices.length
    · have hnot : ¬ (cfg.devices.length : ℤ) < manifest.resourceRequirements.minGpus := by omega
      simp [hhotkey, hfits, hnot]
    · have hgt : manifest.resourceRequirements.minGpus > 1 ∧
          (cfg.devices.length : ℤ) < manifest.resourceRequirements.minGpus := by omega
      simp [hhotkey, hfits, hgt]
  · simp [hhotkey]

theorem validateAssignmentGrant_eq_ok {t : ℤ} {u : Unit}
    (h : validateAssignmentGrant cfg t manifest grant = .ok u) :
    grant.jobId = manifest.jobId ∧ grant.runId = manifest.runId ∧
    grant.assignedHotkey = cfg.hotkeySs58 ∧ t ≤ grant.expiresUnix ∧
    (∀ ref ∈ manifest.outputs, ∃ put ∈ grant.outputPuts, put.canonicalUri = ref.uri) ∧
    grant.receiptPut.isSome := by
  unfold validateAssignmentGrant at h
  obtain ⟨hnames, h⟩ := guard_eq_ok.mp h
  obtain ⟨hhotkey, h⟩ := guard_eq_ok.mp h
  obtain ⟨hexpired, h⟩ := guard_eq_ok.mp h
  obtain ⟨houtputs, h⟩ := guard_eq_ok.mp h
  push Not at hnames hhotkey houtputs
  refine ⟨hnames.1, hnames.2, hhotkey, not_lt.mp hexpired, ?_, ?_⟩
  · intro ref href
    exact List.mem_map.mp (houtputs ref href)
  · by_cases hmissing : grant.receiptPut.isNone
    · rw [if_pos hmissing] at h
      cases h
    · simpa [Option.isSome_iff_ne_none] using hmissing

theorem covers_of_loaded {t : ℤ} (h : loadAssignmentGrant S cfg t b manifest = .ok grant) :
    Covers S cfg t manifest grant := by
  obtain ⟨g, hopen, h⟩ := bind_eq_ok.mp h
  obtain ⟨_, hvalid, hdone⟩ := bind_eq_ok.mp h
  cases hdone
  obtain ⟨hjob, hrun, hhotkey, hexpires, houtputs, hreceipt⟩ := validateAssignmentGrant_eq_ok hvalid
  obtain ⟨found, -, hopen⟩ := bind_eq_ok.mp hopen
  cases found with
  | false => cases hopen
  | true =>
    obtain ⟨encrypted, -, hdecrypt⟩ := bind_eq_ok.mp hopen
    exact ⟨⟨encrypted, hdecrypt⟩, hjob, hrun, hhotkey, hexpires, houtputs, hreceipt⟩

theorem screenManifest_cases {decision : Decision}
    (h : screenManifest S cfg role now b manifest = .ok decision) :
    (∃ reason, decision = .skip manifest.jobId reason) ∨
    (decision = .done manifest.jobId ∧ cfg.grantMode = "direct" ∧
      allExist b manifest.outputs = .ok true) ∨
    ∃ g, decision = .run manifest g ∧ eligible cfg manifest = true ∧
      MinerWorker.verifyManifestSignature S.platform cfg.owner manifest = .ok true ∧
      loadGrant S cfg role (now manifest.jobId) b manifest = .ok g := by
  unfold screenManifest at h
  split at h
  · cases h
    exact .inl ⟨_, rfl⟩
  next heligible =>
  obtain ⟨signed, hsigned, h⟩ := bind_eq_ok.mp h
  split at h
  · cases h
    exact .inl ⟨_, rfl⟩
  obtain ⟨stored, hstored, h⟩ := bind_eq_ok.mp h
  split at h
  · cases h
    split_ifs at hstored with hmode
    · exact .inr (.inl ⟨rfl, hmode, by simp_all⟩)
    · simp_all
  obtain ⟨inputs, -, h⟩ := bind_eq_ok.mp h
  split at h
  · cases h
    exact .inl ⟨_, rfl⟩
  obtain ⟨graph, -, h⟩ := bind_eq_ok.mp h
  split at h
  · cases h
    exact .inl ⟨_, rfl⟩
  split at h
  iterate 3
    · cases h
      exact .inl ⟨_, rfl⟩
  · next grant hgrant =>
    cases h
    exact .inr (.inr ⟨grant, rfl, by simp_all, by simp_all, hgrant⟩)

theorem authorised_of_screen {g : Option AssignmentGrantV3} (hskip : cfg.ownerSecret ≠ "skip")
    (h : screen S cfg .train now b entry = .ok (.run manifest g)) :
    Authorised S cfg manifest g := by
  unfold screen at h
  split at h
  · cases h
  · cases h
  · split at h
    · cases h
    · obtain ⟨_, hskip⟩ | ⟨hdone, -⟩ | ⟨_, hrun, heligible, hsigned, hgrant⟩ :=
        screenManifest_cases h
      · cases hskip
      · cases hdone
      cases hrun
      obtain ⟨hhotkey, hdevices, hworker⟩ := eligible_iff.mp heligible
      refine ⟨ownerSigned_of_verified hskip hsigned, hhotkey, hworker, hdevices, ?_⟩
      intro hmode
      rw [loadGrant, if_neg hmode] at hgrant
      cases hload : loadAssignmentGrant S cfg (now manifest.jobId) b manifest with
      | error e =>
        rw [hload] at hgrant
        cases hgrant
      | ok grant =>
        rw [hload] at hgrant
        cases hgrant
        exact ⟨grant, _, rfl, covers_of_loaded hload⟩

end Checks

section Log

variable {S : Services β ε} {cfg : WorkerConfig} {around : Surroundings β}
variable {s t u : Station β ε}

def isReceipt : LogEntry → Bool
  | .wrote _ => true
  | .executed .. => false

def receiptsWritten (s : Station β ε) : ℕ := s.log.countP isReceipt

/-- Of two entries of the log the later one does not execute, through a queue entry of that job,
a job for which the earlier one is the receipt. -/
def NotAgain : LogEntry → LogEntry → Prop
  | .wrote jobId, .executed entry _ _ => entry.jobId ≠ jobId
  | _, _ => True

/-- Every execution was authorised, and none came after the receipt of its queue entry's job. -/
structure LogSafe (S : Services β ε) (cfg : WorkerConfig) (log : List LogEntry) : Prop where
  authorised : ∀ entry manifest grant, .executed entry manifest grant ∈ log →
    Authorised S cfg manifest grant
  ordered : log.Pairwise NotAgain

def Remembered (s : Station β ε) : Prop := ∀ jobId, .wrote jobId ∈ s.log → jobId ∈ s.completedJobs

def Quiet (s t : Station β ε) : Prop := t.log = s.log ∧ s.completedJobs ⊆ t.completedJobs

theorem Quiet.refl (s : Station β ε) : Quiet s s := ⟨rfl, List.Subset.refl _⟩

theorem Quiet.trans (h : Quiet s t) (h' : Quiet t u) : Quiet s u :=
  ⟨h'.1.trans h.1, List.Subset.trans h.2 h'.2⟩

instance : IsPreorder (Station β ε) Quiet where
  refl := Quiet.refl
  trans := fun _ _ _ => Quiet.trans

abbrev IsQuiet {α : Type} (x : Program β ε α) : Prop := Effects.Within Quiet x

theorem isQuiet_onBucket (f : Bucket β → Py (Bucket β)) : IsQuiet (onBucket (ε := ε) f) := by
  refine Effects.within_update ?_
  intro s a t h
  split at h
  · cases h
    exact ⟨rfl, List.Subset.refl _⟩
  · cases h

theorem isQuiet_reach (point : Point) : IsQuiet (reach (ε := ε) around point) := by
  intro s
  unfold reach
  split_ifs <;> exact Quiet.refl s

theorem isQuiet_heartbeat (force : Bool) : IsQuiet (heartbeat S cfg around force) := by
  refine Effects.within_get.bind fun s => ?_
  split_ifs
  · refine Effects.Within.bind (Effects.within_modify ?_) fun _ => isQuiet_onBucket _
    exact fun s => ⟨rfl, List.Subset.refl _⟩
  · exact Effects.within_pure _

theorem isQuiet_markSkipped (jobId reason : String) :
    IsQuiet (markSkipped S cfg around jobId reason) := by
  refine Effects.within_modify fun s => ?_
  split <;> exact ⟨rfl, List.Subset.refl _⟩

theorem isQuiet_remember (jobId : String) : IsQuiet (remember (ε := ε) around jobId) :=
  Effects.within_modify fun _ => ⟨rfl, List.subset_cons_self _ _⟩

theorem isQuiet_callExecutor (manifest : JobManifestV3) (grant : Option AssignmentGrantV3) :
    IsQuiet (callExecutor S manifest grant) := by
  intro s
  refine Effects.ends_iff.mpr ⟨?_, ?_⟩
  · intro r t h
    unfold callExecutor at h
    split at h
    · cases h
      exact ⟨rfl, List.Subset.refl _⟩
    · split_ifs at h
      cases h
      exact ⟨rfl, List.Subset.refl _⟩
    · cases h
  · intro halt t h
    unfold callExecutor at h
    split at h
    · cases h
    · split_ifs at h
      cases h
      exact ⟨rfl, List.Subset.refl _⟩
    · cases h
      exact ⟨rfl, List.Subset.refl _⟩

theorem isQuiet_fetch : IsQuiet (fetchTrainQueueEntries S around) := by
  intro s
  refine Effects.ends_iff.mpr ⟨?_, ?_⟩
  · intro entries t h
    unfold fetchTrainQueueEntries at h
    split at h
    · cases h
      exact ⟨rfl, List.Subset.refl _⟩
    · cases h
      exact Quiet.refl s
  · intro halt t h
    unfold fetchTrainQueueEntries at h
    split at h <;> cases h

theorem isQuiet_executeAuditReplay (manifest : JobManifestV3) (grant : Option AssignmentGrantV3) :
    IsQuiet (executeAuditReplay S cfg around manifest grant) := by
  refine Effects.within_get.bind fun s => ?_
  split
  · exact (isQuiet_markSkipped _ _).bind fun _ => Effects.within_pure _
  · exact (isQuiet_reach _).bind fun _ => (isQuiet_onBucket _).bind fun _ =>
      (isQuiet_reach _).bind fun _ => (isQuiet_remember _).bind fun _ => Effects.within_pure _

end Log

section Steps

variable {S : Services β ε} {cfg : WorkerConfig} {around : Surroundings β}
variable {s t u : Station β ε}

/-- A step that ends in this way has kept the log safe and has written at most so many receipts.
If the process has been stopped, the last receipt may not be remembered. -/
structure Advanced {α : Type} (S : Services β ε) (cfg : WorkerConfig) (receipts : ℕ)
    (s : Station β ε) (r : Except Halt α) (t : Station β ε) : Prop where
  safe : LogSafe S cfg t.log
  remembered : r ≠ .error .stopped → Remembered t
  receipts : receiptsWritten t ≤ receiptsWritten s + receipts

variable {α : Type} {entry : QueueEntry} {r : Except Halt α}

theorem Advanced.of_quiet (hsafe : LogSafe S cfg s.log)
    (hremembered : Remembered s) (h : Quiet s t) : Advanced S cfg 0 s r t := by
  refine ⟨h.1 ▸ hsafe, ?_, ?_⟩
  · intro _ jobId hwrote
    rw [h.1] at hwrote
    exact h.2 (hremembered jobId hwrote)
  · rw [receiptsWritten, h.1]
    exact le_refl _

theorem Advanced.trans {γ : Type} {r' : Except Halt γ} {m n : ℕ}
    (h : Advanced S cfg m s r t) (h' : Advanced S cfg n t r' u) : Advanced S cfg (m + n) s r' u :=
  ⟨h'.safe, h'.remembered, by have := h.receipts; have := h'.receipts; omega⟩

theorem Advanced.weaken {m n : ℕ} (h : Advanced S cfg m s r t)
    (hle : m ≤ n) : Advanced S cfg n s r t :=
  ⟨h.safe, h.remembered, h.receipts.trans (Nat.add_le_add_left hle _)⟩

def allowance : Role → Except Halt Bool → ℕ
  | .audit, _ => 0
  | .train, .ok false => 0
  | .train, _ => 1

theorem allowance_train {r : Except Halt Bool} (h : r ≠ .ok false) : allowance .train r = 1 := by
  cases r with
  | error halt => rfl
  | ok done =>
    cases done with
    | true => rfl
    | false => exact absurd rfl h

theorem LogSafe.executed {log : List LogEntry} (h : LogSafe S cfg log)
    {manifest : JobManifestV3} {grant : Option AssignmentGrantV3}
    (hauthorised : Authorised S cfg manifest grant)
    (hnew : ∀ jobId, .wrote jobId ∈ log → entry.jobId ≠ jobId) :
    LogSafe S cfg (log ++ [.executed entry manifest grant]) := by
  constructor
  · intro entry' manifest' grant' hmem
    rcases List.mem_append.mp hmem with hmem | hmem
    · exact h.authorised entry' manifest' grant' hmem
    · cases List.mem_singleton.mp hmem
      exact hauthorised
  · rw [List.pairwise_append]
    refine ⟨h.ordered, List.pairwise_singleton _ _, ?_⟩
    intro first hfirst second hsecond
    cases List.mem_singleton.mp hsecond
    cases first with
    | executed => trivial
    | wrote jobId => exact hnew jobId hfirst

theorem LogSafe.wrote {log : List LogEntry} (h : LogSafe S cfg log) (jobId : String) :
    LogSafe S cfg (log ++ [.wrote jobId]) := by
  constructor
  · intro entry manifest grant hmem
    rcases List.mem_append.mp hmem with hmem | hmem
    · exact h.authorised entry manifest grant hmem
    · cases List.mem_singleton.mp hmem
  · rw [List.pairwise_append]
    refine ⟨h.ordered, List.pairwise_singleton _ _, ?_⟩
    intro first _ second hsecond
    cases List.mem_singleton.mp hsecond
    cases first <;> trivial

theorem finish_ends (manifest : JobManifestV3) (grant : Option AssignmentGrantV3)
    (receipt : JobReceiptV3) (hsafe : LogSafe S cfg s.log) (hremembered : Remembered s) :
    Effects.Ends (do
      reach around (.receipt manifest.jobId)
      onBucket (putReceipt S cfg manifest grant receipt)
      record (.wrote manifest.jobId)
      reach around (.remember manifest.jobId)
      remember around manifest.jobId
      return true : Program β ε Bool) s
      fun r t => r ≠ .ok false ∧ Advanced S cfg 1 s r t := by
  refine (isQuiet_reach _ s).bind ?_ fun halt t ht =>
    ⟨by simp, (Advanced.of_quiet hsafe hremembered ht).weaken zero_le_one⟩
  intro _ s₁ h₁
  refine (isQuiet_onBucket _ s₁).bind ?_ fun halt t ht =>
    ⟨by simp, (Advanced.of_quiet hsafe hremembered (h₁.trans ht)).weaken zero_le_one⟩
  intro _ s₂ h₂
  have hquiet : Quiet s s₂ := h₁.trans h₂
  -- The receipt is in the bucket, and the job not yet in the set.
  let s₃ : Station β ε := { s₂ with log := s₂.log ++ [.wrote manifest.jobId] }
  have hsafe₃ : LogSafe S cfg s₃.log := by
    change LogSafe S cfg (s₂.log ++ _)
    rw [hquiet.1]
    exact hsafe.wrote manifest.jobId
  have hreceipts : receiptsWritten s₃ = receiptsWritten s + 1 := by
    simp [receiptsWritten, s₃, hquiet.1, List.countP_append, isReceipt]
  refine Effects.ends_modify_bind ?_
  change Effects.Ends _ s₃ _
  have hstopped : ∀ halt t, Quiet s₃ t → halt = Halt.stopped →
      Advanced S cfg 1 s (.error halt : Except Halt Bool) t := by
    rintro halt t ht rfl
    refine ⟨ht.1 ▸ hsafe₃, fun hne => absurd rfl hne, ?_⟩
    rw [receiptsWritten, ht.1]
    exact hreceipts.le
  have hreach : Effects.Ends (reach around (.remember manifest.jobId) : Program β ε PUnit) s₃
      fun r t => t = s₃ ∧ ∀ halt, r = .error halt → halt = .stopped := by
    unfold reach
    split_ifs
    · exact ⟨rfl, fun halt h => (Except.error.inj h).symm⟩
    · exact ⟨rfl, fun halt h => by cases h⟩
  refine hreach.bind ?_ ?_
  · rintro _ _ ⟨rfl, -⟩
    change (Except.ok true : Except Halt Bool) ≠ .ok false ∧ Advanced S cfg 1 s (.ok true) _
    refine ⟨by simp, hsafe₃, ?_, hreceipts.le⟩
    intro _ jobId hwrote
    rcases List.mem_append.mp hwrote with hwrote | hwrote
    · rw [hquiet.1] at hwrote
      exact List.mem_cons_of_mem _ (hquiet.2 (hremembered jobId hwrote))
    · cases List.mem_singleton.mp hwrote
      exact List.mem_cons_self
  · rintro halt _ ⟨rfl, hhalt⟩
    exact ⟨by simp, hstopped halt _ (Quiet.refl _) (hhalt halt rfl)⟩

theorem executeJob_ends {manifest : JobManifestV3}
    {grant : Option AssignmentGrantV3} (hauthorised : Authorised S cfg manifest grant)
    (hnew : entry.jobId ∉ s.completedJobs) (hsafe : LogSafe S cfg s.log)
    (hremembered : Remembered s) :
    Effects.Ends (executeJob S cfg around entry manifest grant) s
      fun r t => Advanced S cfg (allowance .train r) s r t := by
  let s₁ : Station β ε := { s with log := s.log ++ [.executed entry manifest grant] }
  have hsafe₁ : LogSafe S cfg s₁.log := by
    apply hsafe.executed hauthorised
    rintro jobId hwrote rfl
    exact hnew (hremembered _ hwrote)
  have hremembered₁ : Remembered s₁ := by
    intro jobId hwrote
    rcases List.mem_append.mp hwrote with hwrote | hwrote
    · exact hremembered jobId hwrote
    · cases List.mem_singleton.mp hwrote
  have hreceipts : receiptsWritten s₁ = receiptsWritten s := by
    simp [receiptsWritten, s₁, List.countP_append, isReceipt]
  have hback : ∀ {α : Type} {n : ℕ} {r : Except Halt α} {t : Station β ε},
      Advanced S cfg n s₁ r t → Advanced S cfg n s r t := fun h =>
    ⟨h.safe, h.remembered, hreceipts ▸ h.receipts⟩
  refine Effects.ends_modify_bind ?_
  change Effects.Ends _ s₁ _
  refine (isQuiet_callExecutor manifest grant s₁).bind ?_ fun halt t ht =>
    hback ((Advanced.of_quiet hsafe₁ hremembered₁ ht).weaken zero_le_one)
  intro result s₂ h₂
  have h₂' : Advanced S cfg 0 s₁ (.ok result) s₂ := Advanced.of_quiet hsafe₁ hremembered₁ h₂
  cases result with
  | error e =>
    refine (isQuiet_markSkipped manifest.jobId _ s₂).bind ?_ ?_
    · exact fun _ t ht => hback (Advanced.of_quiet hsafe₁ hremembered₁ (h₂.trans ht))
    · exact fun halt t ht => hback
        ((Advanced.of_quiet hsafe₁ hremembered₁ (h₂.trans ht)).weaken zero_le_one)
  | ok receipt =>
    refine (finish_ends manifest grant receipt h₂'.safe (h₂'.remembered (by simp))).mono ?_
    rintro r t ⟨hr, ht⟩
    rw [allowance_train hr]
    exact hback (h₂'.trans ht)

theorem executeQueueEntry_ends (hskip : cfg.ownerSecret ≠ "skip") {role : Role}
    (hnew : entry.jobId ∉ s.completedJobs) (hsafe : LogSafe S cfg s.log)
    (hremembered : Remembered s) :
    Effects.Ends (executeQueueEntry S cfg around role entry) s
      fun r t => Advanced S cfg (allowance role r) s r t := by
  have hquiet : ∀ {x : Program β ε Bool} (r : Role), IsQuiet x →
      Effects.Ends x s fun r' t => Advanced S cfg (allowance r r') s r' t := fun r hx =>
    (hx s).mono fun _ _ ht => (Advanced.of_quiet hsafe hremembered ht).weaken (Nat.zero_le _)
  refine Effects.ends_get_bind (Effects.ends_lift_bind ?_ ?_)
  · intro decision hdecision
    cases decision with
    | skip jobId reason =>
      exact hquiet role ((isQuiet_markSkipped _ _).bind fun _ => Effects.within_pure _)
    | done jobId => exact hquiet role ((isQuiet_remember _).bind fun _ => Effects.within_pure _)
    | run manifest grant =>
      cases role with
      | audit => exact hquiet .audit (isQuiet_executeAuditReplay _ _)
      | train =>
        have hrun : screen S cfg .train around.grantUnix s.bucket entry =
            .ok (.run manifest grant) := by
          cases hs : screen S cfg .train around.grantUnix s.bucket entry with
          | error e =>
            rw [hs] at hdecision
            cases hdecision
          | ok d =>
            rw [hs] at hdecision
            cases hdecision
            rfl
        exact executeJob_ends (authorised_of_screen hskip hrun) hnew hsafe hremembered
  · exact fun _ _ => (Advanced.of_quiet hsafe hremembered (Quiet.refl s)).weaken (Nat.zero_le _)

theorem executeEntries_ends (hskip : cfg.ownerSecret ≠ "skip") {role : Role}
    {entries : List QueueEntry} (hsafe : LogSafe S cfg s.log) (hremembered : Remembered s) :
    Effects.Ends (executeEntries S cfg around role entries) s
      fun r t => Advanced S cfg (allowance role r) s r t := by
  induction entries generalizing s with
  | nil => exact (Advanced.of_quiet hsafe hremembered (Quiet.refl s)).weaken (Nat.zero_le _)
  | cons entry rest ih =>
    refine Effects.ends_get_bind ?_
    split_ifs with hdone hassigned
    · exact ih hsafe hremembered
    · exact ih hsafe hremembered
    · refine (executeQueueEntry_ends hskip hdone hsafe hremembered).bind ?_ fun _ _ h => h
      intro done t ht
      cases done with
      | true => exact ht
      | false =>
        have hnone : allowance role (.ok false) = 0 := by
          cases role <;> rfl
        rw [hnone] at ht
        refine (ih ht.safe (ht.remembered (by simp))).mono fun r u hu => ?_
        exact (ht.trans hu).weaken (Nat.zero_add _).le

theorem tickAuditJobs_ends (hskip : cfg.ownerSecret ≠ "skip") (hsafe : LogSafe S cfg s.log)
    (hremembered : Remembered s) :
    Effects.Ends (tickAuditJobs S cfg around) s fun r t => Advanced S cfg 0 s r t := by
  refine Effects.ends_get_bind ?_
  split
  · exact Advanced.of_quiet hsafe hremembered (Quiet.refl s)
  · exact executeEntries_ends hskip hsafe hremembered
  · next state _ =>
    refine Effects.ends_modify_bind ?_
    have hquiet : Quiet s { s with auditQueue := some state, auditQueueEtag := state.etag } :=
      ⟨rfl, List.Subset.refl _⟩
    have hstart : Advanced S cfg 0 s (.ok ()) _ := Advanced.of_quiet hsafe hremembered hquiet
    exact (executeEntries_ends hskip hstart.safe (hstart.remembered (by simp))).mono
      fun r t h => hstart.trans h

theorem tick_ends (around : Surroundings β) (hskip : cfg.ownerSecret ≠ "skip") (hsafe : LogSafe S cfg s.log)
    (hremembered : Remembered s) :
    Effects.Ends (tick S cfg around) s fun r t => Advanced S cfg 1 s r t := by
  refine (isQuiet_heartbeat false s).bind ?_ fun halt t ht =>
    (Advanced.of_quiet hsafe hremembered ht).weaken zero_le_one
  intro _ s₁ h₁
  refine (isQuiet_fetch s₁).bind ?_ fun halt t ht =>
    (Advanced.of_quiet hsafe hremembered (h₁.trans ht)).weaken zero_le_one
  intro entries s₂ h₂
  have hstart : Advanced S cfg 0 s (.ok entries) s₂ :=
    Advanced.of_quiet hsafe hremembered (h₁.trans h₂)
  refine (executeEntries_ends hskip hstart.safe (hstart.remembered (by simp))).bind ?_ fun halt t ht =>
    (hstart.trans ht).weaken (Nat.zero_add _).le
  intro trained s₃ h₃
  have haudits : Effects.Ends (auditOtherwise S cfg around trained) s₃
      fun r t => Advanced S cfg 1 s r t := by
    unfold auditOtherwise
    cases trained with
    | true => exact hstart.trans h₃
    | false =>
      have h₃' : Advanced S cfg 0 s (.ok false) s₃ := hstart.trans h₃
      have hremembered₃ := h₃.remembered (by simp)
      simp only [Bool.false_eq_true, if_false]
      split_ifs
      · exact (tickAuditJobs_ends hskip h₃.safe hremembered₃).mono fun r t ht =>
          (h₃'.trans ht).weaken zero_le_one
      · exact h₃'.weaken zero_le_one
  refine haudits.bind ?_ fun _ _ h => h
  intro done s₄ h₄
  cases done with
  | true => exact ⟨h₄.safe, fun _ => h₄.remembered (by simp), h₄.receipts⟩
  | false => exact ⟨h₄.safe, fun _ => h₄.remembered (by simp), h₄.receipts⟩

end Steps

section Runs

variable {S : Services β ε} {cfg : WorkerConfig}

/-- The states of one process: it has just been constructed, has made ticks, and others have
changed the bucket in between. After a stop there are no more ticks. -/
inductive Reached (S : Services β ε) (cfg : WorkerConfig) (s₀ : Station β ε) :
    Station β ε → Prop where
  | start : Reached S cfg s₀ s₀
  | tick {s t around} : Reached S cfg s₀ s → t = Effects.after (tick S cfg around) s →
      (∀ u, tick S cfg around s ≠ .error .stopped u) → Reached S cfg s₀ t
  | outside {s b} : Reached S cfg s₀ s → Reached S cfg s₀ { s with bucket := b }

def Fresh (s : Station β ε) : Prop := s.log = []

theorem Reached.safe (hskip : cfg.ownerSecret ≠ "skip") {s₀ s : Station β ε} (hfresh : Fresh s₀)
    (h : Reached S cfg s₀ s) : LogSafe S cfg s.log ∧ Remembered s := by
  induction h with
  | start =>
    unfold Remembered
    rw [hfresh]
    exact ⟨⟨by simp, List.Pairwise.nil⟩, by simp⟩
  | @tick s t around _ ht hstop ih =>
    subst ht
    obtain ⟨hsafe, hremembered⟩ := ih
    have hends := tick_ends around hskip hsafe hremembered
    cases hrun : MinerWorker.tick S cfg around s with
    | ok done t =>
      rw [Effects.after_of_ok hrun]
      have hadvanced := hends.of_ok hrun
      exact ⟨hadvanced.safe, hadvanced.remembered (by simp)⟩
    | error halt t =>
      rw [Effects.after_of_error hrun]
      have hadvanced := hends.of_error hrun
      refine ⟨hadvanced.safe, hadvanced.remembered ?_⟩
      rintro ⟨⟩
      exact hstop t hrun
  | outside _ ih => exact ih

end Runs

section Fixture

open QueueWriters ScoreIsolation

def minerIdentity : WorkerIdentity where
  hotkeySs58 := "A"
  workerId := "w"
  hostId := "host"
  gpuIndex := some 0
  sessionNonce := "nonce"

def grantWorker : WorkerConfig :=
  { netuid := 0, runId := "r", hotkeySs58 := "A", workerId := "w", grantMode := "presigned" }

def idleEntry : QueueEntry :=
  .fromManifest idleJob (joinUri "b" (jobManifestKey 0 "r" "j")) none

def idleGrant : AssignmentGrantV3 :=
  { jobId := "j", runId := "r", assignedHotkey := "A", expiresUnix := 10,
    receiptPut := some ⟨"PUT", "s3://b/receipt", "s3://b/receipt", 10, none⟩ }

/-- An executor that uploads nothing, which suffices for a job without outputs. -/
def idleServices : Services Json Unit where
  platform := plainPlatform
  identity := minerIdentity
  newExecutor := ()
  execute := fun manifest _ => pure
    { signedReceipt "x" "A" manifest.jobId with manifestHash := manifest.manifestHash plainPlatform }
  put := fun uri body _ b => b.put uri body
  decrypt := fun _ _ => .ok idleGrant
  auditReplay := fun _ _ _ => .error (.valueError "no replay")
  describe := fun _ => "exception"

def idleQueue : CasCell Json :=
  CasCell.absent.store ⟨"e", payloadBody plainPlatform .train (Writer.add {} idleEntry) 0⟩
    ⟨by decide, by simp [CasCell.absent]⟩

def idleSurroundings : Surroundings Json where
  heartbeatUnix := 1
  trainQueue := idleQueue
  auditQueue := CasCell.absent
  grantUnix := fun _ => 1
  skipUnix := fun _ => 1

def withAssignment : SortedDict String Json :=
  jobBucket.objects.insert (joinUri "b" (assignmentKey 0 "r" "j" "A")) .null

def idleStation : Station Json Unit where
  bucket := { jobBucket with objects := withAssignment }
  executor := ()

def isExecution : LogEntry → Bool
  | .executed .. => true
  | .wrote _ => false

end Fixture

end MinerSafety

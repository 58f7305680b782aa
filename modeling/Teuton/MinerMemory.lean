import Teuton.ExecutionSteps
import Teuton.MinerSafety

/-! What the memory of the completed jobs is worth. A worker skips a queue entry whose job it
remembers, also after a restart, so a job that is remembered without its receipt is never done. -/
namespace MinerMemory

open PyJson PyText Protocol ObjectStore BucketPaths BucketBranches AssignmentGrants
open OrchestratorQueue MinerWorker
open AuditJobs (Halt)
open Signatures (Platform)

variable {β ε : Type}

section File

variable {text jobId other : String}

/-- An identifier that `strip` and `splitlines` leave alone. -/
def Plain (jobId : String) : Prop := ∀ c ∈ jobId.toList, isSpace c = false

def WholeLines (text : String) : Prop := text = "" ∨ ∃ start, text = start ++ "\n"

theorem isSpace_of_isLineBreak {c : Char} (h : isLineBreak c = true) : isSpace c = true := by
  simp only [isLineBreak, List.mem_cons, List.not_mem_nil, or_false, decide_eq_true_eq] at h
  simp only [isSpace, Bool.or_eq_true, Bool.and_eq_true, decide_eq_true_eq, beq_iff_eq]
  omega

theorem strip_of_plain (h : Plain jobId) : strip jobId.toList = jobId.toList := by
  have hkeep : ∀ l : List Char, (∀ c ∈ l, isSpace c = false) → l.dropWhile isSpace = l := by
    intro l hl
    cases l with
    | nil => rfl
    | cons c l => simp [hl c List.mem_cons_self]
  rw [strip, hkeep _ h, hkeep _ fun c hc => h c (List.mem_reverse.mp hc), List.reverse_reverse]

theorem wholeLines_append (text jobId : String) : WholeLines (appendCompletedCache text jobId) :=
  .inr ⟨text ++ jobId, rfl⟩

def linesOf (text : String) : List (List Char) := text.toList.splitOnP isLineBreak

theorem mem_loadCompletedCache : jobId ∈ loadCompletedCache text ↔
    jobId ≠ "" ∧ ∃ line ∈ linesOf text, strip line = jobId.toList := by
  simp only [loadCompletedCache, List.mem_map, List.mem_filter, linesOf]
  constructor
  · rintro ⟨_, ⟨⟨line, hline, rfl⟩, hne⟩, rfl⟩
    refine ⟨?_, line, hline, by simp⟩
    rintro hempty
    have : strip line = [] := by simpa using congrArg String.toList hempty
    simp [this] at hne
  · rintro ⟨hne, line, hline, hstrip⟩
    refine ⟨_, ⟨⟨line, hline, rfl⟩, ?_⟩, by rw [hstrip, String.ofList_toList]⟩
    rw [hstrip]
    simpa [String.toList_eq_nil_iff] using hne

theorem linesOf_append (text rest : String) :
    linesOf (text ++ "\n" ++ rest) = linesOf text ++ linesOf rest := by
  have htext : (text ++ "\n" ++ rest).toList = text.toList ++ '\n' :: rest.toList := by
    simp [String.toList_append]
  rw [linesOf, htext, List.splitOnP_append_cons _ _ (by decide)]
  rfl

theorem linesOf_plain (h : Plain jobId) : linesOf jobId = [jobId.toList] := by
  refine List.splitOnP_eq_singleton fun c hc => ?_
  cases hbreak : isLineBreak c with
  | false => rfl
  | true => exact (Bool.eq_false_iff.mp (h c hc) (isSpace_of_isLineBreak hbreak)).elim

theorem mem_load_append (hlines : WholeLines text) (hplain : Plain jobId)
    (h : other ∈ loadCompletedCache (appendCompletedCache text jobId)) :
    other ∈ loadCompletedCache text ∨ other = jobId := by
  obtain ⟨hne, line, hline, hstrip⟩ := mem_loadCompletedCache.mp h
  have hnew : ∀ line ∈ linesOf (jobId ++ "\n"), strip line = other.toList → other = jobId := by
    intro line hline hstrip
    have hlast := linesOf_append jobId ""
    rw [String.append_empty, linesOf_plain hplain] at hlast
    rw [hlast] at hline
    rcases List.mem_append.mp hline with hline | hline
    · rw [List.mem_singleton.mp hline, strip_of_plain hplain] at hstrip
      exact (String.toList_injective hstrip).symm
    · rw [List.mem_singleton.mp hline] at hstrip
      exact (hne (String.toList_injective hstrip.symm)).elim
  rcases hlines with rfl | ⟨start, rfl⟩
  · rw [appendCompletedCache, String.empty_append] at hline
    exact .inr (hnew line hline hstrip)
  · rw [appendCompletedCache, String.append_assoc, linesOf_append] at hline
    rcases List.mem_append.mp hline with hline | hline
    · refine .inl (mem_loadCompletedCache.mpr ⟨hne, line, ?_, hstrip⟩)
      have hbefore := linesOf_append start ""
      rw [String.append_empty] at hbefore
      rw [hbefore]
      exact List.mem_append_left _ hline
    · exact .inr (hnew line hline hstrip)

end File

section Work

variable (p : Platform β) (cfg : WorkerConfig)

def manifestUri (bucket jobId : String) : String :=
  joinUri bucket (jobManifestKey cfg.netuid cfg.runId jobId)

def receiptUriAt (bucket jobId : String) (attempt : ℤ) : String :=
  joinUri bucket (receiptKey cfg.netuid cfg.runId cfg.hotkeySs58 jobId attempt)

def Stored (b : Bucket β) (uri : String) (manifest : JobManifestV3) : Prop :=
  ∃ payload, b.getJson p uri = .ok payload ∧ JobManifestV3.fromDict payload = .ok manifest

/-- The bucket holds a receipt of this hotkey for the job, with the hash of the manifest. -/
def Receipted (b : Bucket β) (jobId : String) (manifest : JobManifestV3) : Prop :=
  ∃ (attempt : ℤ) (receipt : JobReceiptV3),
    b.objects.find? (receiptUriAt cfg b.name jobId attempt) = some (p.dumps receipt.toDict) ∧
    receipt.jobId = jobId ∧ receipt.worker.hotkeySs58 = cfg.hotkeySs58 ∧
    receipt.manifestHash = manifest.manifestHash p

def DoneAt (b : Bucket β) (jobId uri : String) : Prop :=
  ∃ manifest, Stored p b uri manifest ∧ Receipted p cfg b jobId manifest

def Done (b : Bucket β) (jobId : String) : Prop :=
  DoneAt p cfg b jobId (manifestUri cfg b.name jobId)

structure Keeps (jobs : String → Prop) (b b' : Bucket β) : Prop where
  name : b'.name = b.name
  manifests : ∀ jobId, jobs jobId →
    b'.objects.find? (manifestUri cfg b.name jobId) = b.objects.find? (manifestUri cfg b.name jobId)
  receipts : ∀ jobId attempt, jobs jobId →
    b'.objects.find? (receiptUriAt cfg b.name jobId attempt) =
      b.objects.find? (receiptUriAt cfg b.name jobId attempt)

variable {p cfg} {b b' b'' : Bucket β} {jobs jobs' : String → Prop} {jobId uri : String}
variable {manifest : JobManifestV3}

theorem Keeps.refl (b : Bucket β) : Keeps cfg jobs b b := ⟨rfl, fun _ _ => rfl, fun _ _ _ => rfl⟩

theorem Keeps.trans (h : Keeps cfg jobs b b') (h' : Keeps cfg jobs b' b'') :
    Keeps cfg jobs b b'' := by
  have hmanifests := h'.manifests
  have hreceipts := h'.receipts
  rw [h.name] at hmanifests hreceipts
  exact ⟨h'.name.trans h.name, fun j hj => (hmanifests j hj).trans (h.manifests j hj),
    fun j attempt hj => (hreceipts j attempt hj).trans (h.receipts j attempt hj)⟩

theorem Stored.congr (h : b'.objects.find? uri = b.objects.find? uri)
    (hstored : Stored p b uri manifest) : Stored p b' uri manifest := by
  obtain ⟨payload, hget, hparse⟩ := hstored
  refine ⟨payload, ?_, hparse⟩
  rw [Bucket.getJson, Bucket.get_congr h]
  exact hget

theorem Keeps.receipted (h : Keeps cfg jobs b b') (hjob : jobs jobId)
    (hreceipt : Receipted p cfg b jobId manifest) : Receipted p cfg b' jobId manifest := by
  obtain ⟨attempt, receipt, hfind, hfacts⟩ := hreceipt
  refine ⟨attempt, receipt, ?_, hfacts⟩
  rw [h.name, h.receipts jobId attempt hjob, hfind]

theorem Keeps.done (h : Keeps cfg jobs b b') (hjob : jobs jobId) (hdone : Done p cfg b jobId) :
    Done p cfg b' jobId := by
  obtain ⟨manifest, hstored, hreceipt⟩ := hdone
  refine ⟨manifest, ?_, h.receipted hjob hreceipt⟩
  rw [h.name]
  exact hstored.congr (h.manifests jobId hjob)

theorem keeps_of_put {body : β} (hput : b.put uri body = .ok b')
    (hmanifests : ∀ j, jobs j → uri ≠ manifestUri cfg b.name j)
    (hreceipts : ∀ j attempt, jobs j → uri ≠ receiptUriAt cfg b.name j attempt) :
    Keeps cfg jobs b b' := by
  obtain ⟨-, rfl⟩ := Bucket.put_eq_ok.mp hput
  refine ⟨rfl, fun j hj => ?_, fun j attempt hj => ?_⟩
  · rw [SortedDict.find?_insert, if_neg (hmanifests j hj).symm]
  · rw [SortedDict.find?_insert, if_neg (hreceipts j attempt hj).symm]

end Work

section Places

variable {cfg : WorkerConfig} {bucket jobId other uri : String} {attempt attempt' : ℤ}

theorem manifestUri_branch : OnBranch cfg.netuid bucket 'j' (manifestUri cfg bucket jobId) :=
  manifestUri_onBranch bucket cfg.runId jobId

theorem receiptUriAt_branch :
    OnBranch cfg.netuid bucket 'r' (receiptUriAt cfg bucket jobId attempt) := by
  refine onBranch_uri ("eceipts/" ++ cfg.runId ++ "/hotkey=" ++ cfg.hotkeySs58 ++ "/" ++ jobId ++
    "/attempt=" ++ toString attempt ++ ".json") ?_
  simp only [receiptKey, receiptsPrefix, String.append_assoc]
  rfl

theorem heartbeatUri_branch {S : Services β ε} :
    OnBranch cfg.netuid bucket 'm' (heartbeatUri S cfg bucket) := by
  refine onBranch_uri ("iners/" ++ S.identity.hotkeySs58 ++ "/workers/" ++ S.identity.workerId ++
    "/heartbeat.json") ?_
  simp only [minersPrefix, String.append_assoc]
  rfl

theorem skipUri_branch : OnBranch cfg.netuid bucket 'j' (skipUri cfg bucket jobId) := by
  refine onBranch_uri ("obs/" ++ cfg.runId ++ "/" ++ jobId ++ "/skip-" ++ cfg.hotkeySs58 ++ "-" ++
    cfg.workerId ++ ".json") ?_
  simp only [jobsPrefix, String.append_assoc]
  rfl

theorem auditResultUri_branch {hotkey receiptId : String} :
    OnBranch cfg.netuid bucket 'a'
      (joinUri bucket (auditResultKey cfg.netuid cfg.runId hotkey receiptId)) := by
  refine onBranch_uri ("udits/" ++ cfg.runId ++ "/results/auditor=" ++ hotkey ++ "/" ++
    safeId receiptId ++ ".json") ?_
  simp only [auditResultKey, auditRoot, String.append_assoc]
  rfl

/-- The parts of a note's name hold no slash, so the note lies in the folder of its job. -/
def NoSlash (cfg : WorkerConfig) : Prop :=
  '/' ∉ cfg.hotkeySs58.toList ∧ '/' ∉ cfg.workerId.toList

theorem skipUri_ne_manifestUri (h : NoSlash cfg) :
    skipUri cfg bucket jobId ≠ manifestUri cfg bucket other := by
  intro heq
  have hskip : (skipUri cfg bucket jobId).toList =
      (joinUri bucket (jobsPrefix cfg.netuid cfg.runId ++ jobId)).toList ++
        '/' :: ("skip-" ++ cfg.hotkeySs58 ++ "-" ++ cfg.workerId ++ ".json").toList := by
    simp [skipUri, joinUri, String.toList_append]
  have hmanifest : (manifestUri cfg bucket other).toList =
      (joinUri bucket (jobsPrefix cfg.netuid cfg.runId ++ other)).toList ++
        '/' :: "manifest.json".toList := by
    simp [manifestUri, jobManifestKey, joinUri, String.toList_append]
  rw [heq, hmanifest] at hskip
  have hname := (cut_at_last (by decide) (by simp [String.toList_append, h.1, h.2]) hskip).2
  simp [String.toList_append] at hname

theorem receiptUriAt_inj (h : receiptUriAt cfg bucket jobId attempt =
    receiptUriAt cfg bucket other attempt') : jobId = other := by
  have hsplit : ∀ (j : String) (n : ℤ), (receiptUriAt cfg bucket j n).toList =
      (joinUri bucket (receiptsPrefix cfg.netuid cfg.runId ++ "hotkey=" ++ cfg.hotkeySs58 ++ "/" ++
        j)).toList ++ '/' :: ("attempt=" ++ toString n ++ ".json").toList := by
    simp [receiptUriAt, receiptKey, joinUri, String.toList_append]
  have hslash : ∀ n : ℤ, '/' ∉ ("attempt=" ++ toString n ++ ".json").toList := by
    intro n hmem
    simp only [String.toList_append, List.mem_append] at hmem
    rcases hmem with (hmem | hmem) | hmem
    · exact absurd hmem (by decide)
    · rcases mem_toString_int hmem with hc | hc <;> exact absurd hc (by decide)
    · exact absurd hmem (by decide)
  have hlists := congrArg String.toList h
  rw [hsplit, hsplit] at hlists
  have hcut := (cut_at_last (hslash _) (hslash _) hlists).1
  have hfolder := String.toList_injective hcut
  simpa [joinUri] using hfolder

theorem keeps_of_branch {b b' : Bucket β} {body : β} {c : Char} {jobs : String → Prop}
    (hput : b.put uri body = .ok b') (hbranch : OnBranch cfg.netuid b.name c uri) (hj : c ≠ 'j')
    (hr : c ≠ 'r') : Keeps cfg jobs b b' := by
  refine keeps_of_put hput ?_ ?_
  · rintro j - rfl
    exact hbranch.unique hj manifestUri_branch
  · rintro j attempt - rfl
    exact hbranch.unique hr receiptUriAt_branch

end Places

section Memory

variable (S : Services β ε) (cfg : WorkerConfig) (train : String → Prop)

/-- Every training job that is remembered, by the process or by the file, was done. -/
structure Sound (s : Station β ε) : Prop where
  memory : ∀ jobId ∈ s.completedJobs, train jobId → Done S.platform cfg s.bucket jobId
  file : ∀ jobId ∈ loadCompletedCache s.cacheFile, train jobId → Done S.platform cfg s.bucket jobId
  lines : WholeLines s.cacheFile

/-- Nothing was remembered, and the manifests and receipts have stayed. -/
structure Calm (s t : Station β ε) : Prop where
  memory : t.completedJobs = s.completedJobs
  file : t.cacheFile = s.cacheFile
  bucket : Keeps cfg (fun _ => True) s.bucket t.bucket

/-- What the memory of a worker rests on. The executor writes on the branch of the artifacts when
the outputs of the job lie there, and its receipt names the job, its manifest and the worker. The
transport stores what it is given, or raises. -/
structure Reliable : Prop where
  noSlash : NoSlash cfg
  writes : ∀ manifest grants b x,
    (∀ ref ∈ manifest.outputs, OnBranch cfg.netuid b.name 'a' ref.uri) →
    Effects.Ends (S.execute manifest grants) (b, x) fun _ t =>
      t.1.name = b.name ∧ ∀ uri, ¬ OnBranch cfg.netuid b.name 'a' uri →
        t.1.objects.find? uri = b.objects.find? uri
  receipt : ∀ manifest grants w receipt w', S.execute manifest grants w = .ok receipt w' →
    receipt.jobId = manifest.jobId ∧ receipt.worker.hotkeySs58 = cfg.hotkeySs58 ∧
    receipt.manifestHash = manifest.manifestHash S.platform
  put : ∀ uri body grant b b', S.put uri body grant b = .ok b' → b.put uri body = .ok b'

variable {S cfg train} {s t u : Station β ε} {around : Surroundings β}

theorem Calm.refl (s : Station β ε) : Calm cfg s s := ⟨rfl, rfl, Keeps.refl _⟩

theorem Calm.trans (h : Calm cfg s t) (h' : Calm cfg t u) : Calm cfg s u :=
  ⟨h'.memory.trans h.memory, h'.file.trans h.file, h.bucket.trans h'.bucket⟩

instance : IsPreorder (Station β ε) (Calm cfg) where
  refl := Calm.refl
  trans := fun _ _ _ => Calm.trans

theorem Sound.of_calm (h : Sound S cfg train s) (hcalm : Calm cfg s t) : Sound S cfg train t := by
  refine ⟨?_, ?_, hcalm.file ▸ h.lines⟩
  · rw [hcalm.memory]
    exact fun j hj htrain => hcalm.bucket.done trivial (h.memory j hj htrain)
  · rw [hcalm.file]
    exact fun j hj htrain => hcalm.bucket.done trivial (h.file j hj htrain)

theorem ends_onBucket {f : Bucket β → Py (Bucket β)} {Q : Except Halt PUnit → Station β ε → Prop}
    (hok : ∀ b, f s.bucket = .ok b → Q (.ok ⟨⟩) { s with bucket := b })
    (herror : ∀ e, Q (.error (.raised e)) s) : Effects.Ends (onBucket f) s Q := by
  refine Effects.ends_update.mpr ⟨?_, ?_⟩
  · intro _ t h
    split at h
    · next b hb =>
      cases h
      exact hok b hb
    · cases h
  · intro halt h
    split at h
    · cases h
    · cases h
      exact herror _

theorem calm_onBucket {f : Bucket β → Py (Bucket β)}
    (h : ∀ b b', f b = .ok b' → Keeps cfg (fun _ => True) b b') :
    Effects.Within (Calm cfg) (onBucket (ε := ε) f) := fun s =>
  ends_onBucket (fun b hb => ⟨rfl, rfl, h _ b hb⟩) fun _ => Calm.refl s

theorem calm_reach (point : Point) : Effects.Within (Calm cfg) (reach (ε := ε) around point) := by
  intro s
  unfold reach
  split_ifs <;> exact Calm.refl s

theorem calm_record (event : LogEntry) :
    Effects.Within (Calm cfg) (record event : Program β ε PUnit) :=
  Effects.within_modify fun _ => ⟨rfl, rfl, Keeps.refl _⟩

theorem calm_heartbeat (force : Bool) :
    Effects.Within (Calm cfg) (heartbeat S cfg around force) := by
  refine Effects.within_get.bind fun s => ?_
  split_ifs
  · refine Effects.Within.bind (Effects.within_modify fun _ => ⟨rfl, rfl, Keeps.refl _⟩) fun _ => ?_
    refine calm_onBucket fun b b' hput => ?_
    exact keeps_of_branch hput heartbeatUri_branch (by decide) (by decide)
  · exact Effects.within_pure _

theorem calm_markSkipped (S : Services β ε) (around : Surroundings β) (h : NoSlash cfg)
    (jobId reason : String) :
    Effects.Within (Calm cfg) (markSkipped S cfg around jobId reason) := by
  refine Effects.within_modify fun s => ?_
  split
  · next b hput =>
    refine ⟨rfl, rfl, keeps_of_put hput (fun j _ => skipUri_ne_manifestUri h) ?_⟩
    rintro j attempt - heq
    exact skipUri_branch.unique (by decide) (heq ▸ receiptUriAt_branch)
  · exact Calm.refl s

theorem calm_fetch : Effects.Within (Calm cfg) (fetchTrainQueueEntries S around) := by
  intro s
  refine Effects.ends_iff.mpr ⟨?_, ?_⟩
  · intro entries t h
    unfold fetchTrainQueueEntries at h
    split at h
    · cases h
      exact ⟨rfl, rfl, Keeps.refl _⟩
    · cases h
      exact Calm.refl s
  · intro halt t h
    unfold fetchTrainQueueEntries at h
    split at h <;> cases h

theorem Sound.remember {jobId : String} (h : Sound S cfg train s) (hplain : Plain jobId)
    (hdone : train jobId → Done S.platform cfg s.bucket jobId) :
    Effects.Ends (remember around jobId) s fun _ t => Sound S cfg train t := by
  change Sound S cfg train _
  refine ⟨?_, ?_, ?_⟩
  · intro j hj htrain
    rcases List.mem_cons.mp hj with rfl | hj
    · exact hdone htrain
    · exact h.memory j hj htrain
  · intro j hj htrain
    cases hwritable : around.writable with
    | false =>
      rw [hwritable] at hj
      exact h.file j hj htrain
    | true =>
      rw [hwritable] at hj
      rcases mem_load_append h.lines hplain hj with hj | rfl
      · exact h.file j hj htrain
      · exact hdone htrain
  · cases hwritable : around.writable with
    | false => exact h.lines
    | true => exact wholeLines_append _ _

end Memory

section Entries

variable {S : Services β ε} {cfg : WorkerConfig} {train : String → Prop} {around : Surroundings β}
variable {s t : Station β ε} {role : Role} {entry : QueueEntry} {now : String → ℤ} {b : Bucket β}
variable {manifest : JobManifestV3}

theorem screen_cases {decision : Decision} (h : screen S cfg role now b entry = .ok decision) :
    (∃ jobId reason, decision = .skip jobId reason) ∨
    ∃ manifest, Stored S.platform b entry.manifestUri manifest ∧
      screenManifest S cfg role now b manifest = .ok decision := by
  unfold screen at h
  split at h
  · cases h
    exact .inl ⟨_, _, rfl⟩
  · cases h
    exact .inl ⟨_, _, rfl⟩
  · next payload hpayload =>
    split at h
    · cases h
      exact .inl ⟨_, _, rfl⟩
    · next manifest hmanifest => exact .inr ⟨manifest, ⟨payload, hpayload, hmanifest⟩, h⟩

/-- A queue entry that can be trusted with the memory. Its manifest lies at the place of its job
and puts its outputs on the branch of the artifacts; an audit does not bear the name of a training
job. Without grants, outputs that are all there already must have their receipt. -/
structure SafeEntry (S : Services β ε) (cfg : WorkerConfig) (train : String → Prop) (role : Role)
    (b : Bucket β) (entry : QueueEntry) (manifest : JobManifestV3) : Prop where
  plain : Plain manifest.jobId
  outputs : ∀ ref ∈ manifest.outputs, OnBranch cfg.netuid b.name 'a' ref.uri
  place : role = .train →
    entry.manifestUri = manifestUri cfg b.name entry.jobId ∧ manifest.jobId = entry.jobId
  receipt : role = .train → cfg.grantMode = "direct" → allExist b manifest.outputs = .ok true →
    Receipted S.platform cfg b manifest.jobId manifest
  audit : role = .audit → ¬ train manifest.jobId

theorem callExecutor_ends (hR : Reliable S cfg) (grant : Option AssignmentGrantV3)
    (houtputs : ∀ ref ∈ manifest.outputs, OnBranch cfg.netuid s.bucket.name 'a' ref.uri) :
    Effects.Ends (callExecutor S manifest grant) s fun r t => Calm cfg s t ∧
      ∀ receipt, r = .ok (.ok receipt) → receipt.jobId = manifest.jobId ∧
        receipt.worker.hotkeySs58 = cfg.hotkeySs58 ∧
        receipt.manifestHash = manifest.manifestHash S.platform := by
  have hwrites := hR.writes manifest (grant.map grantsByUri) s.bucket s.executor houtputs
  have hcalm : ∀ w : Bucket β × ε, (w.1.name = s.bucket.name ∧
      ∀ uri, ¬ OnBranch cfg.netuid s.bucket.name 'a' uri →
        w.1.objects.find? uri = s.bucket.objects.find? uri) →
      Calm cfg s { s with bucket := w.1, executor := w.2 } := by
    rintro w ⟨hname, hsame⟩
    refine ⟨rfl, rfl, hname, fun j _ => hsame _ ?_, fun j attempt _ => hsame _ ?_⟩
    · exact manifestUri_branch.unique (by decide)
    · exact receiptUriAt_branch.unique (by decide)
  unfold Effects.Ends callExecutor
  cases hrun : S.execute manifest (grant.map grantsByUri) (s.bucket, s.executor) with
  | ok receipt w =>
    refine ⟨hcalm w (hwrites.of_ok hrun), ?_⟩
    rintro _ ⟨⟩
    exact hR.receipt _ _ _ _ _ hrun
  | error halt w =>
    have hw := hcalm w (hwrites.of_error hrun)
    cases halt with
    | stopped => exact ⟨hw, fun _ h => by cases h⟩
    | raised e =>
      cases hsoft : isSoft e with
      | true => simpa [hsoft] using hw
      | false => simpa [hsoft] using hw

theorem putReceipt_put (hR : Reliable S cfg) {grant : Option AssignmentGrantV3}
    {receipt : JobReceiptV3} {b' : Bucket β}
    (h : putReceipt S cfg manifest grant receipt b = .ok b') :
    b.put (receiptUriAt cfg b.name manifest.jobId manifest.attempt)
      (S.platform.dumps receipt.toDict) = .ok b' := by
  unfold putReceipt at h
  split at h
  · exact hR.put _ _ _ _ _ h
  · exact h

theorem putReceipt_ends (hR : Reliable S cfg) (hsound : Sound S cfg train s)
    {grant : Option AssignmentGrantV3} {receipt : JobReceiptV3}
    (hstored : Stored S.platform s.bucket (manifestUri cfg s.bucket.name manifest.jobId) manifest)
    (hreceipt : receipt.jobId = manifest.jobId ∧ receipt.worker.hotkeySs58 = cfg.hotkeySs58 ∧
      receipt.manifestHash = manifest.manifestHash S.platform) :
    Effects.Ends (onBucket (putReceipt S cfg manifest grant receipt)) s fun r t =>
      Sound S cfg train t ∧ (r = .ok ⟨⟩ → Done S.platform cfg t.bucket manifest.jobId) := by
  refine ends_onBucket ?_ fun _ => ⟨hsound, fun h => by cases h⟩
  intro b hput
  replace hput := putReceipt_put hR hput
  have hne : ∀ j, receiptUriAt cfg s.bucket.name manifest.jobId manifest.attempt ≠
      manifestUri cfg s.bucket.name j := by
    intro j heq
    exact (receiptUriAt_branch.unique (by decide)) (heq ▸ manifestUri_branch)
  have hothers : Keeps cfg (· ≠ manifest.jobId) s.bucket b := by
    refine keeps_of_put hput (fun j _ => hne j) ?_
    intro j attempt hj heq
    exact hj (receiptUriAt_inj heq).symm
  have hdone : Done S.platform cfg b manifest.jobId := by
    obtain ⟨-, rfl⟩ := Bucket.put_eq_ok.mp hput
    refine ⟨manifest, hstored.congr ?_, manifest.attempt, receipt, ?_, hreceipt⟩
    · exact (SortedDict.find?_insert _ _ _ _).trans (if_neg (hne _).symm)
    · exact (SortedDict.find?_insert _ _ _ _).trans (if_pos rfl)
  have hall : ∀ j, Done S.platform cfg s.bucket j → Done S.platform cfg b j := by
    intro j hj
    by_cases hjob : j = manifest.jobId
    · exact hjob ▸ hdone
    · exact hothers.done hjob hj
  exact ⟨⟨fun j hj htrain => hall j (hsound.memory j hj htrain),
    fun j hj htrain => hall j (hsound.file j hj htrain), hsound.lines⟩, fun _ => hdone⟩

theorem executeJob_ends (hR : Reliable S cfg) (hsound : Sound S cfg train s)
    (grant : Option AssignmentGrantV3)
    (hstored : Stored S.platform s.bucket entry.manifestUri manifest)
    (hsafe : SafeEntry S cfg train .train s.bucket entry manifest) :
    Effects.Ends (executeJob S cfg around entry manifest grant) s
      fun _ t => Sound S cfg train t := by
  obtain ⟨hplace, hjob⟩ := hsafe.place rfl
  rw [hplace, ← hjob] at hstored
  refine (calm_record _ s).bind ?_ fun _ t ht => hsound.of_calm ht
  intro _ s₁ h₁
  have houtputs : ∀ ref ∈ manifest.outputs, OnBranch cfg.netuid s₁.bucket.name 'a' ref.uri := by
    rw [h₁.bucket.name]
    exact hsafe.outputs
  refine (callExecutor_ends hR grant houtputs).bind ?_ fun _ t ht =>
    hsound.of_calm (h₁.trans ht.1)
  rintro result s₂ ⟨h₂, hreceipt⟩
  have hcalm₂ : Calm cfg s s₂ := h₁.trans h₂
  cases result with
  | error e =>
    have hskip := calm_markSkipped S around hR.noSlash manifest.jobId
      ("execute_err: " ++ S.describe e) s₂
    exact hskip.bind (fun _ t ht => hsound.of_calm (hcalm₂.trans ht))
      fun _ t ht => hsound.of_calm (hcalm₂.trans ht)
  | ok receipt =>
    refine (calm_reach _ s₂).bind ?_ fun _ t ht => hsound.of_calm (hcalm₂.trans ht)
    intro _ s₃ h₃
    have hcalm₃ : Calm cfg s s₃ := hcalm₂.trans h₃
    have hstored₃ : Stored S.platform s₃.bucket
        (manifestUri cfg s₃.bucket.name manifest.jobId) manifest := by
      rw [hcalm₃.bucket.name]
      exact hstored.congr (hcalm₃.bucket.manifests _ trivial)
    refine (putReceipt_ends hR (hsound.of_calm hcalm₃) hstored₃ (hreceipt receipt rfl)).bind ?_
      fun _ t ht => ht.1
    rintro _ s₄ ⟨hsound₄, hdone⟩
    refine (calm_record _ s₄).bind ?_ fun _ t ht => hsound₄.of_calm ht
    intro _ s₅ h₅
    refine (calm_reach _ s₅).bind ?_ fun _ t ht => hsound₄.of_calm (h₅.trans ht)
    intro _ s₆ h₆
    have hcalm₆ : Calm cfg s₄ s₆ := h₅.trans h₆
    have hdone₆ := hcalm₆.bucket.done trivial (hdone rfl)
    exact ((hsound₄.of_calm hcalm₆).remember hsafe.plain fun _ => hdone₆).bind
      (fun _ t ht => ht) fun _ t ht => ht

theorem putAuditResult_keeps (hR : Reliable S cfg) {grants : Option Grants} {audit : AuditResultV3}
    {b' : Bucket β} (houtputs : ∀ ref ∈ manifest.outputs, OnBranch cfg.netuid b.name 'a' ref.uri)
    (h : putAuditResult S cfg manifest grants audit b = .ok b') :
    Keeps cfg (fun _ => True) b b' := by
  unfold putAuditResult at h
  split at h
  · next uri grant hgrant =>
    obtain ⟨ref, href, hgrant⟩ := Option.bind_eq_some_iff.mp hgrant
    obtain ⟨granted, -, hgrant⟩ := Option.bind_eq_some_iff.mp hgrant
    obtain ⟨g, -, hpair⟩ := Option.bind_eq_some_iff.mp hgrant
    cases hpair
    exact keeps_of_branch (hR.put _ _ _ _ _ h) (houtputs ref (List.mem_of_mem_head? href))
      (by decide) (by decide)
  · obtain ⟨fields, -, h⟩ := bind_eq_ok.mp h
    obtain ⟨receipt, -, h⟩ := bind_eq_ok.mp h
    exact keeps_of_branch h auditResultUri_branch (by decide) (by decide)

theorem executeAuditReplay_ends (hR : Reliable S cfg) (hsound : Sound S cfg train s)
    (grant : Option AssignmentGrantV3)
    (hsafe : SafeEntry S cfg train .audit s.bucket entry manifest) :
    Effects.Ends (executeAuditReplay S cfg around manifest grant) s
      fun _ t => Sound S cfg train t := by
  refine Effects.ends_get_bind ?_
  split
  · next e _ =>
    have hskip := calm_markSkipped S around hR.noSlash manifest.jobId
      ("audit_err: " ++ S.describe e) s
    exact hskip.bind (fun _ t ht => hsound.of_calm ht) fun _ t ht => hsound.of_calm ht
  · next audit _ =>
    refine (calm_reach _ s).bind ?_ fun _ t ht => hsound.of_calm ht
    intro _ s₁ h₁
    have houtputs : ∀ ref ∈ manifest.outputs, OnBranch cfg.netuid s₁.bucket.name 'a' ref.uri := by
      rw [h₁.bucket.name]
      exact hsafe.outputs
    have hput : Effects.Ends (onBucket
        (putAuditResult S cfg manifest (grant.map grantsByUri) audit)) s₁ fun _ t =>
          Calm cfg s₁ t :=
      ends_onBucket (fun b hb => ⟨rfl, rfl, putAuditResult_keeps hR houtputs hb⟩)
        fun _ => Calm.refl s₁
    refine hput.bind ?_ fun _ t ht => hsound.of_calm (h₁.trans ht)
    intro _ s₂ h₂
    refine (calm_reach _ s₂).bind ?_ fun _ t ht => hsound.of_calm ((h₁.trans h₂).trans ht)
    intro _ s₃ h₃
    have hcalm₃ : Calm cfg s s₃ := (h₁.trans h₂).trans h₃
    have hnone : train manifest.jobId → Done S.platform cfg s₃.bucket manifest.jobId :=
      fun htrain => (hsafe.audit rfl htrain).elim
    exact ((hsound.of_calm hcalm₃).remember hsafe.plain hnone).bind (fun _ t ht => ht)
      fun _ t ht => ht

theorem executeQueueEntry_ends (hR : Reliable S cfg) (hsound : Sound S cfg train s)
    (hsafe : ∀ manifest, Stored S.platform s.bucket entry.manifestUri manifest →
      SafeEntry S cfg train role s.bucket entry manifest) :
    Effects.Ends (executeQueueEntry S cfg around role entry) s fun _ t => Sound S cfg train t := by
  refine Effects.ends_get_bind (Effects.ends_lift_bind ?_ fun _ _ => hsound)
  intro decision hdecision
  have hscreen : screen S cfg role around.grantUnix s.bucket entry = .ok decision := by
    cases hs : screen S cfg role around.grantUnix s.bucket entry with
    | error e =>
      rw [hs] at hdecision
      cases hdecision
    | ok d =>
      rw [hs] at hdecision
      cases hdecision
      rfl
  rcases screen_cases hscreen with ⟨jobId, reason, rfl⟩ | ⟨manifest, hstored, hmanifest⟩
  · have hskip := calm_markSkipped S around hR.noSlash jobId reason s
    exact hskip.bind (fun _ t ht => hsound.of_calm ht) fun _ t ht => hsound.of_calm ht
  · have hsafe := hsafe manifest hstored
    rcases MinerSafety.screenManifest_cases hmanifest with
      ⟨reason, rfl⟩ | ⟨rfl, hmode, houtputs⟩ | ⟨grant, rfl, -⟩
    · have hskip := calm_markSkipped S around hR.noSlash manifest.jobId reason s
      exact hskip.bind (fun _ t ht => hsound.of_calm ht) fun _ t ht => hsound.of_calm ht
    · have hdone : train manifest.jobId → Done S.platform cfg s.bucket manifest.jobId := by
        intro htrain
        cases role with
        | audit => exact (hsafe.audit rfl htrain).elim
        | train =>
          obtain ⟨hplace, hjob⟩ := hsafe.place rfl
          rw [hplace, ← hjob] at hstored
          exact ⟨manifest, hstored, hsafe.receipt rfl hmode houtputs⟩
      exact (hsound.remember hsafe.plain hdone).bind (fun _ t ht => ht) fun _ t ht => ht
    · cases role with
      | audit => exact executeAuditReplay_ends hR hsound grant hsafe
      | train => exact executeJob_ends hR hsound grant hstored hsafe

end Entries

section Ticks

variable (S : Services β ε) (cfg : WorkerConfig) (around : Surroundings β)

inductive Comes (role : Role) : List QueueEntry → Station β ε → QueueEntry → Station β ε → Prop where
  | here {entry rest s} : Comes role (entry :: rest) s entry s
  | past {first rest s entry t} :
      first.jobId ∈ s.completedJobs ∨ isAssigned cfg first = false →
      Comes role rest s entry t → Comes role (first :: rest) s entry t
  | failed {first rest s s' entry t} : first.jobId ∉ s.completedJobs → isAssigned cfg first = true →
      executeQueueEntry S cfg around role first s = .ok false s' →
      Comes role rest s' entry t → Comes role (first :: rest) s entry t

def auditStart (s : Station β ε) : List QueueEntry × Station β ε :=
  match readQueue S.platform around.auditQueue s.auditQueueEtag with
  | .error _ => ([], s)
  | .ok none => ((s.auditQueue.map QueueState.outstanding).getD [], s)
  | .ok (some state) =>
    (state.outstanding, { s with auditQueue := some state, auditQueueEtag := state.etag })

def readTrainQueue : Program β ε (List QueueEntry) := do
  heartbeat S cfg around false
  fetchTrainQueueEntries S around

inductive TickComes (s : Station β ε) : Role → QueueEntry → Station β ε → Prop where
  | train {entries s₁ entry t} : readTrainQueue S cfg around s = .ok entries s₁ →
      Comes S cfg around .train entries.reverse s₁ entry t → TickComes s .train entry t
  | audit {entries s₁ s₂ entry t} : readTrainQueue S cfg around s = .ok entries s₁ →
      executeEntries S cfg around .train entries.reverse s₁ = .ok false s₂ →
      isAuditEligible cfg = true →
      Comes S cfg around .audit (auditStart S around s₂).1 (auditStart S around s₂).2 entry t →
      TickComes s .audit entry t

/-- Every manifest that the tick comes to is safe, unless its entry is skipped. -/
def SafeTick (train : String → Prop) (s : Station β ε) : Prop :=
  ∀ role entry t, TickComes S cfg around s role entry t → entry.jobId ∉ t.completedJobs →
    isAssigned cfg entry = true →
    ∀ manifest, Stored S.platform t.bucket entry.manifestUri manifest →
      SafeEntry S cfg train role t.bucket entry manifest

variable {S cfg around} {train : String → Prop} {role : Role} {entries : List QueueEntry}
variable {entry : QueueEntry} {s t : Station β ε}

theorem executeEntries_sound (hR : Reliable S cfg) (hsound : Sound S cfg train s)
    (hsafe : ∀ entry t, Comes S cfg around role entries s entry t → entry.jobId ∉ t.completedJobs →
      isAssigned cfg entry = true →
      ∀ manifest, Stored S.platform t.bucket entry.manifestUri manifest →
        SafeEntry S cfg train role t.bucket entry manifest) :
    Effects.Ends (executeEntries S cfg around role entries) s (fun _ t => Sound S cfg train t) ∧
    ∀ entry t, Comes S cfg around role entries s entry t → Sound S cfg train t := by
  induction entries generalizing s with
  | nil => exact ⟨hsound, fun entry t h => by cases h⟩
  | cons first rest ih =>
    have hpast : first.jobId ∈ s.completedJobs ∨ isAssigned cfg first = false →
        Effects.Ends (executeEntries S cfg around role rest) s (fun _ t => Sound S cfg train t) ∧
        ∀ entry t, Comes S cfg around role rest s entry t → Sound S cfg train t := fun h =>
      ih hsound fun entry t hcomes => hsafe entry t (.past h hcomes)
    have hfirst : first.jobId ∉ s.completedJobs → isAssigned cfg first = true →
        Effects.Ends (executeQueueEntry S cfg around role first) s
          fun _ t => Sound S cfg train t := fun hnew hassigned =>
      executeQueueEntry_ends hR hsound (hsafe first s .here hnew hassigned)
    have hrest : ∀ {s'}, first.jobId ∉ s.completedJobs → isAssigned cfg first = true →
        executeQueueEntry S cfg around role first s = .ok false s' →
        Effects.Ends (executeEntries S cfg around role rest) s' (fun _ t => Sound S cfg train t) ∧
        ∀ entry t, Comes S cfg around role rest s' entry t → Sound S cfg train t := by
      intro s' hnew hassigned hrun
      exact ih ((hfirst hnew hassigned).of_ok hrun) fun entry t hcomes =>
        hsafe entry t (.failed hnew hassigned hrun hcomes)
    constructor
    · refine Effects.ends_get_bind ?_
      split_ifs with hdone hassigned
      · exact (hpast (.inl hdone)).1
      · exact (hpast (.inr (by simpa using hassigned))).1
      · have hassigned' : isAssigned cfg first = true := by simpa using hassigned
        have hfirst' := hfirst hdone hassigned'
        refine Effects.ends_bind ?_ fun _ _ hrun => hfirst'.of_error hrun
        intro done s' hrun
        cases done with
        | true => exact hfirst'.of_ok hrun
        | false => exact (hrest hdone hassigned' hrun).1
    · intro entry t hcomes
      cases hcomes with
      | here => exact hsound
      | past h hcomes => exact (hpast h).2 entry t hcomes
      | failed hnew hassigned hrun hcomes => exact (hrest hnew hassigned hrun).2 entry t hcomes

theorem readTrainQueue_sound (around : Surroundings β) (hsound : Sound S cfg train s) :
    Effects.Ends (readTrainQueue S cfg around) s fun _ t => Sound S cfg train t :=
  ((calm_heartbeat false).bind (fun _ => calm_fetch) s).mono fun _ _ h => hsound.of_calm h

theorem auditStart_sound (hsound : Sound S cfg train s) :
    Sound S cfg train (auditStart S around s).2 := by
  unfold auditStart
  split
  · exact hsound
  · exact hsound
  · exact ⟨hsound.memory, hsound.file, hsound.lines⟩

theorem tickAuditJobs_eq : tickAuditJobs S cfg around s =
    executeEntries S cfg around .audit (auditStart S around s).1 (auditStart S around s).2 := by
  have hrun : tickAuditJobs S cfg around s =
      (match readQueue S.platform around.auditQueue s.auditQueueEtag with
      | .error _ => pure false
      | .ok none =>
        executeEntries S cfg around .audit ((s.auditQueue.map QueueState.outstanding).getD [])
      | .ok (some state) => do
        modify fun s => { s with auditQueue := some state, auditQueueEtag := state.etag }
        executeEntries S cfg around .audit state.outstanding : Program β ε Bool) s := rfl
  rw [hrun]
  unfold auditStart
  generalize readQueue S.platform around.auditQueue s.auditQueueEtag = result
  rcases result with e | _ | state <;> rfl

theorem tick_eq : tick S cfg around = (do
    let entries ← readTrainQueue S cfg around
    let trained ← executeEntries S cfg around .train entries.reverse
    let done ← auditOtherwise S cfg around trained
    if done then modify fun s => { s with idleIters := 0 }
    else idle cfg
    return done) := by
  unfold tick readTrainQueue
  rw [bind_assoc]

theorem tick_sound (hR : Reliable S cfg) (hsound : Sound S cfg train s)
    (hsafe : SafeTick S cfg around train s) :
    Effects.Ends (tick S cfg around) s (fun _ t => Sound S cfg train t) ∧
    ∀ entry t, TickComes S cfg around s .train entry t → Sound S cfg train t := by
  have hread := readTrainQueue_sound around hsound
  have htrain : ∀ {entries s₁}, readTrainQueue S cfg around s = .ok entries s₁ →
      Effects.Ends (executeEntries S cfg around .train entries.reverse) s₁
        (fun _ t => Sound S cfg train t) ∧
      ∀ entry t, Comes S cfg around .train entries.reverse s₁ entry t → Sound S cfg train t := by
    intro entries s₁ hentries
    exact executeEntries_sound hR (hread.of_ok hentries) fun entry t hcomes =>
      hsafe .train entry t (.train hentries hcomes)
  have haudit : ∀ {entries s₁ trained s₂}, readTrainQueue S cfg around s = .ok entries s₁ →
      executeEntries S cfg around .train entries.reverse s₁ = .ok trained s₂ →
      Effects.Ends (auditOtherwise S cfg around trained) s₂ fun _ t => Sound S cfg train t := by
    intro entries s₁ trained s₂ hentries hrun
    have hsound₂ := (htrain hentries).1.of_ok hrun
    unfold auditOtherwise
    cases trained with
    | true => exact hsound₂
    | false =>
      simp only [Bool.false_eq_true, if_false]
      split_ifs with heligible
      · rw [Effects.Ends, tickAuditJobs_eq]
        refine (executeEntries_sound hR (auditStart_sound hsound₂) ?_).1
        exact fun entry t hcomes => hsafe .audit entry t (.audit hentries hrun heligible hcomes)
      · exact hsound₂
  constructor
  · rw [tick_eq]
    refine Effects.ends_bind ?_ fun _ _ hrun => hread.of_error hrun
    intro entries s₁ hentries
    refine Effects.ends_bind ?_ fun _ _ hrun => (htrain hentries).1.of_error hrun
    intro trained s₂ hrun
    refine (haudit hentries hrun).bind ?_ fun _ _ h => h
    intro done s₃ hsound₃
    have hsame : ∀ t : Station β ε, t.completedJobs = s₃.completedJobs →
        t.cacheFile = s₃.cacheFile → t.bucket = s₃.bucket → Sound S cfg train t := by
      intro t hmemory hfile hbucket
      exact hsound₃.of_calm ⟨hmemory, hfile, hbucket ▸ Keeps.refl _⟩
    cases done with
    | true => exact hsame _ rfl rfl rfl
    | false => exact hsame _ rfl rfl rfl
  · intro entry t hcomes
    cases hcomes with
    | train hentries hcomes => exact (htrain hentries).2 entry t hcomes

end Ticks

section Runs

variable (S : Services β ε) (cfg : WorkerConfig)

/-- The states that a worker comes through. It makes ticks, each of which may stop before its end,
it is started again from its file, and others change the bucket in between. -/
inductive Run (tickOk : Surroundings β → Station β ε → Prop)
    (changeOk : Station β ε → Bucket β → Prop) (s₀ : Station β ε) : Station β ε → Prop where
  | start : Run tickOk changeOk s₀ s₀
  | tick {s around} : Run tickOk changeOk s₀ s → tickOk around s →
      Run tickOk changeOk s₀ (Effects.after (tick S cfg around) s)
  | restart {s around readable} : Run tickOk changeOk s₀ s →
      Run tickOk changeOk s₀ (Effects.after (construct S cfg around readable) s)
  | outside {s b} : Run tickOk changeOk s₀ s → changeOk s b →
      Run tickOk changeOk s₀ { s with bucket := b }

/-- Others leave the manifests and the receipts of the remembered jobs as they are. -/
def LeavesWork (s : Station β ε) (b : Bucket β) : Prop :=
  Keeps cfg (fun jobId => jobId ∈ s.completedJobs ∨ jobId ∈ loadCompletedCache s.cacheFile)
    s.bucket b

variable {S cfg} {train : String → Prop} {around : Surroundings β} {entry : QueueEntry}
variable {s₀ s t : Station β ε}

theorem construct_sound (readable : Bool) (hsound : Sound S cfg train s) :
    Effects.Ends (construct S cfg around readable) s fun _ t => Sound S cfg train t := by
  refine Effects.ends_modify_bind ?_
  refine (calm_heartbeat true _).mono fun _ t ht => Sound.of_calm ?_ ht
  refine ⟨?_, hsound.file, hsound.lines⟩
  cases readable with
  | false => simp
  | true => exact hsound.file

theorem LeavesWork.sound {b : Bucket β} (hkeeps : LeavesWork cfg s b)
    (hsound : Sound S cfg train s) : Sound S cfg train { s with bucket := b } :=
  ⟨fun j hj htrain => Keeps.done hkeeps (.inl hj) (hsound.memory j hj htrain),
    fun j hj htrain => Keeps.done hkeeps (.inr hj) (hsound.file j hj htrain), hsound.lines⟩

theorem Run.sound (hR : Reliable S cfg) (hmemory : s₀.completedJobs = []) (hfile : s₀.cacheFile = "")
    (hrun : Run S cfg (fun around => SafeTick S cfg around train) (LeavesWork cfg) s₀ s) :
    Sound S cfg train s := by
  induction hrun with
  | start =>
    refine ⟨by simp [hmemory], ?_, .inl hfile⟩
    rw [hfile]
    simp [loadCompletedCache, strip]
  | tick _ hsafe ih =>
    obtain ⟨r, hsound⟩ := (tick_sound hR ih hsafe).1.after
    exact hsound
  | restart _ ih =>
    obtain ⟨r, hsound⟩ := (construct_sound _ ih).after
    exact hsound
  | outside _ hkeeps ih => exact hkeeps.sound ih

end Runs

section OneDevice

open JobExecution ExecutionSteps

variable {τ : Type} (W : WorkerLibraries β τ) (stores : Stores (Bucket β) β)
variable (executorCfg : ExecutorConfig) (miner : Miner β) (times : JobManifestV3 → ExecutionTimes)

def jobExecute (manifest : JobManifestV3) (grants : Option Grants) :
    EStateM Halt (Bucket β × JobExecutor (Bucket β) τ) JobReceiptV3 := fun w =>
  match JobExecution.execute W stores executorCfg (fun uri => grants.bind (·.find? uri)) miner
      (times manifest) manifest { w.2 with store := w.1 } with
  | .ok receipt x => .ok receipt (x.store, x)
  | .error e x => .error (.raised e) (x.store, x)

def oneDevice (S : Services β (JobExecutor (Bucket β) τ)) :
    Services β (JobExecutor (Bucket β) τ) :=
  { S with platform := W.platform, execute := jobExecute W stores executorCfg miner times }

theorem reliable_oneDevice {S : Services β (JobExecutor (Bucket β) τ)} {cfg : WorkerConfig}
    (hstores : Faithful stores) (hslash : NoSlash cfg)
    (hworker : miner.worker.hotkeySs58 = cfg.hotkeySs58)
    (hput : ∀ uri body grant b b', S.put uri body grant b = .ok b' → b.put uri body = .ok b') :
    Reliable (oneDevice W stores executorCfg miner times S) cfg where
  noSlash := hslash
  put := hput
  writes := by
    intro manifest grants b x houtputs
    have hwrites := execute_writes W executorCfg (fun uri => grants.bind (·.find? uri)) hstores
      miner (times manifest) manifest { x with store := b }
    have hbranch : ∀ {x' : JobExecutor (Bucket β) τ},
        ChangedOnly (manifest.outputs.map ArtifactRef.uri) { x with store := b } x' →
        x'.store.name = b.name ∧ ∀ uri, ¬ OnBranch cfg.netuid b.name 'a' uri →
          x'.store.objects.find? uri = b.objects.find? uri := by
      rintro x' ⟨hname, hsame⟩
      refine ⟨hname, fun uri huri => hsame uri fun hmem => huri ?_⟩
      obtain ⟨ref, href, rfl⟩ := List.mem_map.mp hmem
      exact houtputs ref href
    refine Effects.ends_iff.mpr ⟨?_, ?_⟩
    · intro receipt w hrun
      simp only [oneDevice, jobExecute] at hrun
      split at hrun
      · next x' hexecute =>
        cases hrun
        exact hbranch (hwrites.of_ok hexecute)
      · cases hrun
    · intro halt w hrun
      simp only [oneDevice, jobExecute] at hrun
      split at hrun
      · cases hrun
      · next x' hexecute =>
        cases hrun
        exact hbranch (hwrites.of_error hexecute)
  receipt := by
    intro manifest grants w receipt w' hrun
    simp only [oneDevice, jobExecute] at hrun
    split at hrun
    · next r x hexecute =>
      cases hrun
      obtain ⟨_, _, _, _, _, _, _, _, _, -, -, -, -, -, -, -, rfl⟩ := execute_ok hexecute
      exact ⟨rfl, hworker, rfl⟩
    · cases hrun

end OneDevice

section Fixture

open QueueWriters ScoreIsolation MinerSafety
open Signatures (plainPlatform)

def stepPlatform : Platform Json :=
  { plainPlatform with
    sha256 := fun body =>
      match body.getItem "step_id" with
      | .ok (.int n) => [UInt8.ofNat n.toNat]
      | _ => [] }

def stepJob (n : ℤ) (outputs : List ArtifactRef) : JobManifestV3 :=
  { idleJob with stepId := n, outputs := outputs }.sign stepPlatform (.secret "owner-dev-secret")

def stepUri : String := joinUri "b" (jobManifestKey 0 "r" "j")

def uploadEmpty (manifest : JobManifestV3) (b : Bucket Json) : Bucket Json :=
  ⟨b.name, manifest.outputs.foldl (fun d ref => d.insert ref.uri .null) b.objects⟩

def stepServices : Services Json Unit :=
  { idleServices with
    platform := stepPlatform
    execute := fun manifest _ w => .ok
      { signedReceipt "x" "A" manifest.jobId with
        manifestHash := manifest.manifestHash stepPlatform }
      (uploadEmpty manifest w.1, w.2) }

def storeJob (b : Bucket Json) (manifest : JobManifestV3) : Bucket Json :=
  ⟨b.name, b.objects.insert stepUri (manifest.toDict stepPlatform)⟩

def stepStation (outputs : List ArtifactRef) : Station Json Unit where
  bucket := storeJob ⟨"b", withAssignment⟩ (stepJob 0 outputs)
  executor := ()

def directWorker : WorkerConfig := { grantWorker with grantMode := "direct" }

def heldHashes (b : Bucket Json) : List String :=
  b.objects.entries.filterMap fun entry =>
    if startsWith entry.1 (joinUri b.name (receiptsPrefix 0 "r")) then
      (entry.2.getItem "manifest_hash" >>= Json.asStr).toOption
    else none

theorem manifestHash_toDict (receipt : JobReceiptV3) :
    receipt.toDict.getItem "manifest_hash" = .ok (.str receipt.manifestHash) := by
  rw [JobReceiptV3.toDict, getItem_mkObj]
  simp [JobReceiptV3.unsignedFields]

theorem mem_heldHashes {cfg : WorkerConfig} {b : Bucket Json} {jobId : String}
    {manifest : JobManifestV3} (hrun : cfg.netuid = 0 ∧ cfg.runId = "r")
    (h : Receipted stepPlatform cfg b jobId manifest) :
    manifest.manifestHash stepPlatform ∈ heldHashes b := by
  obtain ⟨attempt, receipt, hfind, -, -, hhash⟩ := h
  have hstored : b.objects.find? (receiptUriAt cfg b.name jobId attempt) = some receipt.toDict :=
    hfind
  have hstart : startsWith (receiptUriAt cfg b.name jobId attempt)
      (joinUri b.name (receiptsPrefix 0 "r")) = true := by
    have hsplit : receiptUriAt cfg b.name jobId attempt =
        joinUri b.name (receiptsPrefix 0 "r") ++ ("hotkey=" ++ cfg.hotkeySs58 ++ "/" ++ jobId ++
          "/attempt=" ++ toString attempt ++ ".json") := by
      simp only [receiptUriAt, receiptKey, hrun.1, hrun.2, joinUri, String.append_assoc]
    rw [hsplit]
    exact startsWith_append _ _
  refine List.mem_filterMap.mpr ⟨_, SortedDict.mem_of_find? hstored, ?_⟩
  simp only [hstart, if_true, manifestHash_toDict, ok_bind, Json.asStr, hhash]
  rfl

/-- The worker skips an entry of the train queue, and the job that is stored there was not done. -/
def SkipsUndone (S : Services Json Unit) (cfg : WorkerConfig) (s₀ : Station Json Unit) : Prop :=
  ∃ s around entry t, Run S cfg (fun _ _ => True) (fun _ _ => True) s₀ s ∧
    TickComes S cfg around s .train entry t ∧ entry.jobId ∈ t.completedJobs ∧
    entry.manifestUri = manifestUri cfg t.bucket.name entry.jobId ∧
    ¬ DoneAt S.platform cfg t.bucket entry.jobId entry.manifestUri

def isUndone (cfg : WorkerConfig) (s : Station Json Unit) : Bool :=
  match readTrainQueue stepServices cfg idleSurroundings s with
  | .ok entries t =>
    match entries.reverse with
    | [] => false
    | entry :: _ =>
      entry.jobId ∈ t.completedJobs &&
      entry.manifestUri = manifestUri cfg t.bucket.name entry.jobId &&
      match t.bucket.getJson stepPlatform entry.manifestUri >>= JobManifestV3.fromDict with
      | .ok manifest => manifest.manifestHash stepPlatform ∉ heldHashes t.bucket
      | .error _ => false
  | .error _ _ => false

theorem skipsUndone_of_isUndone {cfg : WorkerConfig} {s₀ s : Station Json Unit}
    (hcfg : cfg.netuid = 0 ∧ cfg.runId = "r")
    (hrun : Run stepServices cfg (fun _ _ => True) (fun _ _ => True) s₀ s)
    (h : isUndone cfg s = true) : SkipsUndone stepServices cfg s₀ := by
  unfold isUndone at h
  split at h
  · next entries t hread =>
    split at h
    · cases h
    · next entry rest hentries =>
      simp only [Bool.and_eq_true, decide_eq_true_eq] at h
      obtain ⟨⟨hskip, hplace⟩, hhash⟩ := h
      refine ⟨s, idleSurroundings, entry, t, hrun, .train hread ?_, hskip, hplace, ?_⟩
      · rw [hentries]
        exact .here
      · rintro ⟨manifest, ⟨payload, hpayload, hparse⟩, hreceipt⟩
        have hload : t.bucket.getJson stepPlatform entry.manifestUri >>= JobManifestV3.fromDict =
            .ok manifest := bind_eq_ok.mpr ⟨payload, hpayload, hparse⟩
        rw [hload] at hhash
        exact of_decide_eq_true hhash (mem_heldHashes hcfg hreceipt)
  · cases h

def stepOutput : ArtifactRef := { name := "o", uri := "s3://b/o" }

def stopSurroundings : Surroundings Json :=
  { idleSurroundings with stops := fun point => point = .receipt "j" }

def stoppedStation : Station Json Unit :=
  Effects.after (tick stepServices directWorker stopSurroundings) (stepStation [stepOutput])

def restartedStation : Station Json Unit :=
  Effects.after (construct stepServices directWorker idleSurroundings true) stoppedStation

def finishedStation : Station Json Unit :=
  Effects.after (tick stepServices grantWorker idleSurroundings) (stepStation [])

theorem idle_reliable : Reliable idleServices grantWorker where
  noSlash := ⟨by decide, by decide⟩
  writes := fun _ _ _ _ _ => ⟨rfl, fun _ _ => rfl⟩
  receipt := by
    rintro manifest grants w receipt w' ⟨⟩
    exact ⟨rfl, rfl, rfl⟩
  put := fun _ _ _ _ _ h => h

def readsIdle (s : Station Json Unit) : Bool :=
  match readTrainQueue idleServices grantWorker idleSurroundings s with
  | .ok entries t =>
    entries.map (fun entry => (entry.jobId, entry.manifestUri)) = [("j", stepUri)] &&
    t.bucket.name = "b" &&
    match t.bucket.getJson plainPlatform stepUri >>= JobManifestV3.fromDict with
    | .ok manifest => manifest.jobId = "j" && manifest.outputs.isEmpty
    | .error _ => false
  | .error _ _ => false

theorem readsIdle_facts {s s₁ : Station Json Unit} {entries : List QueueEntry}
    (h : readsIdle s = true)
    (hread : readTrainQueue idleServices grantWorker idleSurroundings s = .ok entries s₁) :
    (∃ entry, entries = [entry] ∧ entry.jobId = "j" ∧ entry.manifestUri = stepUri) ∧
    s₁.bucket.name = "b" ∧ ∀ manifest, Stored plainPlatform s₁.bucket stepUri manifest →
      manifest.jobId = "j" ∧ manifest.outputs = [] := by
  rw [readsIdle, hread] at h
  simp only [Bool.and_eq_true, decide_eq_true_eq] at h
  obtain ⟨⟨hentries, hname⟩, hmanifest⟩ := h
  refine ⟨?_, hname, ?_⟩
  · obtain ⟨entry, rest, rfl, hentry, hrest⟩ := List.map_eq_cons_iff.mp hentries
    obtain ⟨hjob, huri⟩ := Prod.mk.inj hentry
    exact ⟨entry, by rw [List.map_eq_nil_iff.mp hrest], hjob, huri⟩
  · rintro manifest ⟨payload, hpayload, hparse⟩
    have hload : s₁.bucket.getJson plainPlatform stepUri >>= JobManifestV3.fromDict =
        .ok manifest := bind_eq_ok.mpr ⟨payload, hpayload, hparse⟩
    rw [hload] at hmanifest
    simpa using hmanifest

theorem safeTick_of_readsIdle {s : Station Json Unit} (h : readsIdle s = true) :
    SafeTick idleServices grantWorker idleSurroundings (· = "j") s := by
  intro role entry t hcomes _ _ manifest hstored
  cases hcomes with
  | audit _ _ heligible _ => cases heligible
  | train hread hcomes =>
    obtain ⟨⟨first, rfl, hjob, huri⟩, hname, hfacts⟩ := readsIdle_facts h hread
    cases hcomes with
    | past _ hcomes => cases hcomes
    | failed _ _ _ hcomes => cases hcomes
    | here =>
      rw [huri] at hstored
      obtain ⟨hmanifest, houtputs⟩ := hfacts manifest hstored
      refine ⟨?_, by simp [houtputs], fun _ => ⟨?_, hmanifest.trans hjob.symm⟩, ?_, ?_⟩
      · rw [hmanifest]
        intro c hc
        have hletter : c = 'j' := by simpa using hc
        rw [hletter]
        rfl
      · rw [huri, hname, hjob]
        rfl
      · intro _ hmode
        exact absurd hmode (by decide)
      · intro hrole
        cases hrole

def doneStation : Station Json Unit :=
  Effects.after (tick idleServices grantWorker idleSurroundings) idleStation

end Fixture

end MinerMemory

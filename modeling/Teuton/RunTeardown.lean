import Teuton.BucketBranches

/-! The teardown of a run. The keys of a run are built by the functions of the bucket layout, and
`wipe_run` deletes what lies under a list of prefixes; the list covers every kind of key but the
assignment grants. -/
namespace RunTeardown

open PyJson PyText ObjectStore BucketPaths BucketBranches

variable {β : Type}

/-- The keys that the builders give for a run, whatever their other arguments. -/
inductive RunKey (netuid : ℤ) (runId : String) : String → Prop where
  | graph (sha256) : RunKey netuid runId (graphKey netuid runId sha256)
  | state : RunKey netuid runId (stateKey netuid runId)
  | config : RunKey netuid runId (manifestConfigKey netuid runId)
  | manifest (jobId) : RunKey netuid runId (jobManifestKey netuid runId jobId)
  | queue (role key) : queueKey netuid runId role = .ok key → RunKey netuid runId key
  | assignment (jobId hotkey) : RunKey netuid runId (assignmentKey netuid runId jobId hotkey)
  | weights (stepId ub) : RunKey netuid runId (weightsKey netuid runId stepId ub)
  | target (stepId ub) : RunKey netuid runId (targetKey netuid runId stepId ub)
  | artifact (jobId hotkey workerId attempt name suffix) :
      RunKey netuid runId (artifactKey netuid runId jobId hotkey workerId attempt name suffix)
  | receipt (hotkey jobId attempt) :
      RunKey netuid runId (receiptKey netuid runId hotkey jobId attempt)
  | verdict (validator receiptId) :
      RunKey netuid runId (verdictKey netuid runId validator receiptId)
  | auditManifest (jobId) : RunKey netuid runId (auditJobManifestKey netuid runId jobId)
  | auditAssignment (jobId hotkey) :
      RunKey netuid runId (auditAssignmentKey netuid runId jobId hotkey)
  | auditResult (hotkey receiptId) :
      RunKey netuid runId (auditResultKey netuid runId hotkey receiptId)
  | telemetry (stream whenUnix) :
      RunKey netuid runId (telemetryEventKey netuid runId stream whenUnix)
  | telemetryChain (whenUnix) : RunKey netuid runId (telemetryChainKey netuid runId whenUnix)
  | telemetryScores (whenUnix) : RunKey netuid runId (telemetryScoresKey netuid runId whenUnix)
  | telemetryAudits (whenUnix) : RunKey netuid runId (telemetryAuditsKey netuid runId whenUnix)
  | telemetryOrchestrator (whenUnix) :
      RunKey netuid runId (telemetryOrchestratorKey netuid runId whenUnix)
  | telemetryMonitor (whenUnix) : RunKey netuid runId (telemetryMonitorKey netuid runId whenUnix)

section Wipe

structure Wiping (β : Type) where
  bucket : Bucket β
  seen : List String := []
  deleted : ℕ := 0

def wipeNext (s : Wiping β) (uri : String) : Py (Wiping β) :=
  if uri ∈ s.seen then .ok s
  else do return ⟨← s.bucket.delete uri, uri :: s.seen, s.deleted + 1⟩

def wipePrefix (s : Wiping β) (prefixKey : String) : Py (Wiping β) :=
  (s.bucket.list (s.bucket.uriForKey prefixKey)).foldlM wipeNext s

def wipeRun (b : Bucket β) (netuid : ℤ) (runId : String) : Py (ℕ × Bucket β) := do
  let s ← (runPrefixes netuid runId).foldlM wipePrefix { bucket := b }
  return (s.deleted, s.bucket)

def listStart (bucket prefixKey : String) : String :=
  match parseUri (joinUri bucket prefixKey) with
  | .ok _ => joinUri bucket prefixKey
  | .error _ => joinUri bucket (joinUri bucket prefixKey)

theorem list_uriForKey (b : Bucket β) (prefixKey : String) :
    b.list (b.uriForKey prefixKey) =
      b.objects.keys.filter (startsWith · (listStart b.name prefixKey)) := by
  cases hparse : parseUri (joinUri b.name prefixKey) with
  | ok parts => simp only [Bucket.list, Bucket.uriForKey, listStart, hparse]
  | error e => simp only [Bucket.list, Bucket.uriForKey, listStart, hparse]

variable {uri : String} {b : Bucket β} {s t : Wiping β}

theorem mem_list {prefixKey : String} :
    uri ∈ b.list (b.uriForKey prefixKey) ↔
      b.objects.find? uri ≠ none ∧ startsWith uri (listStart b.name prefixKey) = true := by
  rw [list_uriForKey, List.mem_filter, SortedDict.mem_keys]

def Gone (s : Wiping β) : Prop := ∀ uri ∈ s.seen, s.bucket.objects.find? uri = none

/-- What `P` says of its URI is gone, and everything else is as before. -/
structure Wiped (P : String → Prop) (s t : Wiping β) : Prop where
  name : t.bucket.name = s.bucket.name
  gone : Gone t
  wiped : ∀ uri, P uri → t.bucket.objects.find? uri = none
  kept : ∀ uri, ¬ P uri → t.bucket.objects.find? uri = s.bucket.objects.find? uri

theorem Wiped.refl (hs : Gone s) : Wiped (fun _ => False) s s :=
  ⟨rfl, hs, fun _ h => h.elim, fun _ _ => rfl⟩

theorem Wiped.trans {P Q : String → Prop} {u : Wiping β} (h : Wiped P s t)
    (h' : Wiped Q t u) : Wiped (fun uri => P uri ∨ Q uri) s u := by
  refine ⟨h'.name.trans h.name, h'.gone, ?_, ?_⟩
  · intro uri huri
    by_cases hQ : Q uri
    · exact h'.wiped uri hQ
    · rw [h'.kept uri hQ]
      exact h.wiped uri (huri.resolve_right hQ)
  · intro uri huri
    rw [not_or] at huri
    rw [h'.kept uri huri.2, h.kept uri huri.1]

theorem Wiped.congr {P Q : String → Prop} (h : Wiped P s t)
    (hPQ : ∀ uri, P uri ↔ Q uri) : Wiped Q s t := by
  have : P = Q := funext fun uri => propext (hPQ uri)
  exact this ▸ h

theorem wipeNext_ok (hs : Gone s)
    (h : wipeNext s uri = .ok t) : Wiped (· = uri) s t := by
  unfold wipeNext at h
  split_ifs at h with hseen
  · cases h
    refine ⟨rfl, hs, ?_, fun _ _ => rfl⟩
    rintro _ rfl
    exact hs _ hseen
  · obtain ⟨b, hb, h⟩ := bind_eq_ok.mp h
    cases h
    obtain ⟨-, rfl⟩ := Bucket.delete_eq_ok.mp hb
    refine ⟨rfl, ?_, ?_, ?_⟩
    · intro u hu
      rcases List.mem_cons.mp hu with rfl | hu
      · simp
      · simp [hs u hu]
    · rintro _ rfl
      simp
    · intro u hu
      simp [hu]

theorem foldlM_wiped {α : Type} {f : Wiping β → α → Py (Wiping β)} {P : α → String → Prop}
    {I : Wiping β → Prop}
    (hround : ∀ s t a, Gone s → I s → f s a = .ok t → Wiped (P a) s t ∧ I t)
    {l : List α} (hs : Gone s) (hI : I s) (h : l.foldlM f s = .ok t) :
    Wiped (fun uri => ∃ a ∈ l, P a uri) s t := by
  induction l generalizing s with
  | nil =>
    cases h
    exact (Wiped.refl hs).congr (by simp)
  | cons a l ih =>
    rw [List.foldlM_cons] at h
    obtain ⟨u, hu, h⟩ := bind_eq_ok.mp h
    obtain ⟨hfirst, hIu⟩ := hround s u a hs hI hu
    exact (hfirst.trans (ih hfirst.gone hIu h)).congr (by simp)

theorem wipePrefix_ok {prefixKey : String} (hs : Gone s)
    (h : wipePrefix s prefixKey = .ok t) :
    Wiped (fun uri => startsWith uri (listStart s.bucket.name prefixKey) = true) s t := by
  have hloop : Wiped (fun uri => ∃ u ∈ s.bucket.list (s.bucket.uriForKey prefixKey), uri = u) s t :=
    foldlM_wiped (I := fun _ => True) (fun s t uri hs _ h => ⟨wipeNext_ok hs h, trivial⟩) hs
      trivial h
  refine ⟨hloop.name, hloop.gone, ?_, ?_⟩
  · intro uri huri
    by_cases hlisted : uri ∈ s.bucket.list (s.bucket.uriForKey prefixKey)
    · exact hloop.wiped uri ⟨uri, hlisted, rfl⟩
    · rw [hloop.kept uri (by simpa using hlisted)]
      by_contra hfind
      exact hlisted (mem_list.mpr ⟨hfind, huri⟩)
  · intro uri huri
    refine hloop.kept uri ?_
    rintro ⟨_, hlisted, rfl⟩
    exact huri (mem_list.mp hlisted).2

theorem wipeRun_ok {b' : Bucket β} {netuid : ℤ} {runId : String} {n : ℕ}
    (h : wipeRun b netuid runId = .ok (n, b')) :
    b'.name = b.name ∧ ∀ uri, b'.objects.find? uri =
      if ∃ pre ∈ runPrefixes netuid runId, startsWith uri (listStart b.name pre) = true then none
      else b.objects.find? uri := by
  obtain ⟨s, hs, h⟩ := bind_eq_ok.mp h
  cases h
  have hwiped : Wiped (fun uri => ∃ pre ∈ runPrefixes netuid runId,
      startsWith uri (listStart b.name pre) = true) { bucket := b } s := by
    refine foldlM_wiped (I := fun s => s.bucket.name = b.name) ?_ (by simp [Gone]) rfl hs
    intro s t pre hgone hname h
    have hstart := wipePrefix_ok hgone h
    rw [hname] at hstart
    exact ⟨hstart, hstart.name.trans hname⟩
  refine ⟨hwiped.name, ?_⟩
  intro uri
  split_ifs with huri
  · exact hwiped.wiped uri huri
  · exact hwiped.kept uri huri

def Stored (b : Bucket β) : Prop :=
  ∀ uri, b.objects.find? uri ≠ none → ∃ parts, parseUri uri = .ok parts

theorem foldlM_returns {α : Type} {f : Wiping β → α → Py (Wiping β)} {I : Wiping β → Prop}
    {l : List α} (hround : ∀ s, I s → ∀ a ∈ l, ∃ t, f s a = .ok t ∧ I t)
    (hs : I s) : ∃ t, l.foldlM f s = .ok t ∧ I t := by
  induction l generalizing s with
  | nil => exact ⟨s, rfl, hs⟩
  | cons a l ih =>
    obtain ⟨u, hu, hIu⟩ := hround s hs a List.mem_cons_self
    obtain ⟨t, ht, hIt⟩ := ih (fun s hs a ha => hround s hs a (List.mem_cons_of_mem _ ha)) hIu
    exact ⟨t, by rw [List.foldlM_cons, hu, ok_bind, ht], hIt⟩

theorem wipeNext_returns (hs : Stored s.bucket)
    (huri : ∃ parts, parseUri uri = .ok parts) :
    ∃ t, wipeNext s uri = .ok t ∧ Stored t.bucket := by
  unfold wipeNext
  split_ifs
  · exact ⟨s, rfl, hs⟩
  · have hdelete : s.bucket.delete uri =
        .ok { s.bucket with objects := s.bucket.objects.erase uri } :=
      Bucket.delete_eq_ok.mpr ⟨huri, rfl⟩
    rw [hdelete]
    refine ⟨_, rfl, ?_⟩
    intro u hu
    apply hs u
    intro hnone
    simp [hnone] at hu

theorem wipeRun_returns (hb : Stored b) (netuid : ℤ) (runId : String) :
    ∃ n b', wipeRun b netuid runId = .ok (n, b') := by
  have hround : ∀ s : Wiping β, Stored s.bucket → ∀ pre ∈ runPrefixes netuid runId,
      ∃ t, wipePrefix s pre = .ok t ∧ Stored t.bucket := by
    intro s hs pre _
    refine foldlM_returns (fun t ht uri huri => wipeNext_returns ht ?_) hs
    exact hs uri (mem_list.mp huri).1
  obtain ⟨s, hs, -⟩ := foldlM_returns hround (s := { bucket := b }) hb
  exact ⟨s.deleted, s.bucket, by rw [wipeRun, hs, ok_bind]; rfl⟩

end Wipe

section Coverage

variable {netuid : ℤ} {runId key : String}

theorem RunKey.cases (h : RunKey netuid runId key) :
    (∃ pre ∈ runPrefixes netuid runId, ∃ rest, key = pre ++ rest) ∨
      ∃ jobId hotkey, key = assignmentKey netuid runId jobId hotkey := by
  have hpre : ∀ pre, pre ∈ runPrefixes netuid runId → ∀ rest, key = pre ++ rest →
      (∃ pre ∈ runPrefixes netuid runId, ∃ rest, key = pre ++ rest) ∨
        ∃ jobId hotkey, key = assignmentKey netuid runId jobId hotkey :=
    fun pre hmem rest heq => .inl ⟨pre, hmem, rest, heq⟩
  have htelemetry : ∀ stream whenUnix, key = telemetryEventKey netuid runId stream whenUnix →
      (∃ pre ∈ runPrefixes netuid runId, ∃ rest, key = pre ++ rest) ∨
        ∃ jobId hotkey, key = assignmentKey netuid runId jobId hotkey := by
    intro stream whenUnix heq
    refine hpre (telemetryRunPrefix netuid runId) (by simp [runPrefixes])
      (stream ++ "/" ++ padded whenUnix ++ ".json") ?_
    simp only [heq, telemetryEventKey, telemetryStreamPrefix, String.append_assoc]
  have hrun : runRoot netuid runId ++ "/" ∈ runPrefixes netuid runId := by simp [runPrefixes]
  have hjobs : jobsPrefix netuid runId ∈ runPrefixes netuid runId := by simp [runPrefixes]
  have haudits : auditRoot netuid runId ++ "/" ∈ runPrefixes netuid runId := by
    simp [runPrefixes]
  cases h with
  | graph sha256 =>
    refine hpre _ hrun ("graphs/" ++ sha256 ++ ".json") ?_
    simp only [graphKey, graphsPrefix, String.append_assoc]
    rfl
  | state => exact hpre _ hrun "state.json" (by simp only [stateKey, String.append_assoc]; rfl)
  | config =>
    exact hpre _ hrun "manifest/config.json"
      (by simp only [manifestConfigKey, String.append_assoc]; rfl)
  | manifest jobId =>
    exact hpre _ hjobs (jobId ++ "/manifest.json")
      (by simp only [jobManifestKey, String.append_assoc])
  | queue role _ hkey =>
    unfold queueKey at hkey
    split_ifs at hkey
    · exact hpre _ hjobs "queue.json" (Except.ok.inj hkey).symm
    · refine hpre _ haudits "jobs/queue.json" ?_
      rw [← Except.ok.inj hkey]
      simp only [auditJobsPrefix, String.append_assoc]
      rfl
  | assignment jobId hotkey => exact .inr ⟨jobId, hotkey, rfl⟩
  | weights stepId ub =>
    refine hpre _ hrun ("weights/step=" ++ toString stepId ++ "/UB-" ++ toString ub ++ ".bin") ?_
    simp only [weightsKey, String.append_assoc]
    rfl
  | target stepId ub =>
    refine hpre _ hrun ("targets/step=" ++ toString stepId ++ "/cut-" ++ toString ub ++ ".bin") ?_
    simp only [targetKey, String.append_assoc]
    rfl
  | artifact jobId hotkey workerId attempt name suffix =>
    refine hpre (root netuid ++ "/artifacts/" ++ runId ++ "/") (by simp [runPrefixes])
      (jobId ++ "/hotkey=" ++ hotkey ++ "/worker=" ++ workerId ++ "/attempt=" ++
        toString attempt ++ "/" ++ name ++ suffix) ?_
    simp only [artifactKey, artifactPrefix, String.append_assoc]
  | receipt hotkey jobId attempt =>
    refine hpre (receiptsPrefix netuid runId) (by simp [runPrefixes])
      ("hotkey=" ++ hotkey ++ "/" ++ jobId ++ "/attempt=" ++ toString attempt ++ ".json") ?_
    simp only [receiptKey, String.append_assoc]
  | verdict validator receiptId =>
    refine hpre (verdictsPrefix netuid runId) (by simp [runPrefixes])
      ("validator=" ++ validator ++ "/" ++ safeId receiptId ++ ".json") ?_
    simp only [verdictKey, String.append_assoc]
  | auditManifest jobId =>
    refine hpre _ haudits ("jobs/" ++ jobId ++ "/manifest.json") ?_
    simp only [auditJobManifestKey, auditJobsPrefix, String.append_assoc]
    rfl
  | auditAssignment jobId hotkey =>
    refine hpre _ haudits ("assignments/" ++ jobId ++ "/hotkey=" ++ hotkey ++ ".json") ?_
    simp only [auditAssignmentKey, String.append_assoc]
    rfl
  | auditResult hotkey receiptId =>
    refine hpre _ haudits ("results/auditor=" ++ hotkey ++ "/" ++ safeId receiptId ++ ".json") ?_
    simp only [auditResultKey, String.append_assoc]
    rfl
  | telemetry stream whenUnix => exact htelemetry stream whenUnix rfl
  | telemetryChain whenUnix => exact htelemetry "chain" whenUnix rfl
  | telemetryScores whenUnix => exact htelemetry "scores" whenUnix rfl
  | telemetryAudits whenUnix => exact htelemetry "audits" whenUnix rfl
  | telemetryOrchestrator whenUnix => exact htelemetry "orchestrator" whenUnix rfl
  | telemetryMonitor whenUnix => exact htelemetry "monitor" whenUnix rfl

theorem runPrefixes_ne_empty {pre : String} (h : pre ∈ runPrefixes netuid runId) : pre ≠ "" := by
  rintro rfl
  simp [runPrefixes, runRoot, jobsPrefix, receiptsPrefix, verdictsPrefix, auditRoot,
    telemetryRunPrefix] at h

theorem startsWith_listStart {bucket pre rest : String} (hpre : pre ≠ "")
    (h : ∃ parts, parseUri (joinUri bucket (pre ++ rest)) = .ok parts) :
    startsWith (joinUri bucket (pre ++ rest)) (listStart bucket pre) = true := by
  have hparse : ∃ parts, parseUri (joinUri bucket pre) = .ok parts := by
    refine parseUri_joinUri_of_parse hpre (fun hline => ?_) h
    rw [String.toList_append]
    exact List.mem_append_left _ hline
  obtain ⟨parts, hparts⟩ := hparse
  rw [listStart, hparts]
  have happend : joinUri bucket (pre ++ rest) = joinUri bucket pre ++ rest := by
    simp only [joinUri, String.append_assoc]
  rw [happend]
  exact startsWith_append _ _

theorem assignmentUri_onBranch (bucket runId jobId hotkey : String) :
    OnBranch netuid bucket 'a' (joinUri bucket (assignmentKey netuid runId jobId hotkey)) := by
  refine onBranch_uri ("ssignments/" ++ runId ++ "/" ++ jobId ++ "/hotkey=" ++ hotkey ++ ".json") ?_
  simp only [assignmentKey, String.append_assoc]
  rfl

theorem assignment_not_listed (bucket jobId hotkey : String) {pre : String}
    (hpre : pre ∈ runPrefixes netuid runId) :
    startsWith (joinUri bucket (assignmentKey netuid runId jobId hotkey)) (listStart bucket pre) ≠
      true := by
  have hbranch : OnBranch netuid bucket 'a' _ := assignmentUri_onBranch bucket runId jobId hotkey
  intro hlisted
  unfold listStart at hlisted
  cases hparse : parseUri (joinUri bucket pre) with
  | error e =>
    rw [hparse] at hlisted
    exact not_onBranch_of_nested hlisted hbranch
  | ok parts =>
    rw [hparse] at hlisted
    have hother : ∀ (c : Char) (rest : String), c ≠ 'a' →
        pre = root netuid ++ ("/" ++ String.singleton c ++ rest) → False := by
      intro c rest hc heq
      exact (onBranch_of_startsWith rest heq hlisted).unique hc hbranch
    -- the two other names that start with the same letter differ in the second one
    have hsecond : ∀ (c : Char) (rest : String), 's' ≠ c →
        pre = root netuid ++ ("/a" ++ String.singleton c ++ rest) → False := by
      intro c rest hc heq
      have hself : startsWith (joinUri bucket (assignmentKey netuid runId jobId hotkey))
          (joinUri bucket (root netuid ++ "/a") ++ String.singleton 's' ++ ("signments/" ++ runId ++
            "/" ++ jobId ++ "/hotkey=" ++ hotkey ++ ".json")) = true := by
        have hsame : joinUri bucket (assignmentKey netuid runId jobId hotkey) =
            joinUri bucket (root netuid ++ "/a") ++ String.singleton 's' ++
              ("signments/" ++ runId ++ "/" ++ jobId ++ "/hotkey=" ++ hotkey ++ ".json") := by
          simp only [joinUri, assignmentKey, String.append_assoc]
          rfl
        rw [hsame]
        simpa using startsWith_append _ ""
      have hpre' : joinUri bucket pre =
          joinUri bucket (root netuid ++ "/a") ++ String.singleton c ++ rest := by
        simp only [heq, joinUri, String.append_assoc]
      rw [hpre', not_startsWith_both hc hself] at hlisted
      cases hlisted
    simp only [runPrefixes, List.mem_cons, List.not_mem_nil, or_false] at hpre
    rcases hpre with rfl | rfl | rfl | rfl | rfl | rfl | rfl
    · refine hother 'r' ("uns/" ++ runId ++ "/") (by decide) ?_
      simp only [runRoot, String.append_assoc]
      rfl
    · refine hother 'j' ("obs/" ++ runId ++ "/") (by decide) ?_
      simp only [jobsPrefix, String.append_assoc]
      rfl
    · refine hsecond 'r' ("tifacts/" ++ runId ++ "/") (by decide) ?_
      simp only [String.append_assoc]
      rfl
    · refine hother 'r' ("eceipts/" ++ runId ++ "/") (by decide) ?_
      simp only [receiptsPrefix, String.append_assoc]
      rfl
    · refine hother 'v' ("erdicts/" ++ runId ++ "/") (by decide) ?_
      simp only [verdictsPrefix, String.append_assoc]
      rfl
    · refine hsecond 'u' ("dits/" ++ runId ++ "/") (by decide) ?_
      simp only [auditRoot, String.append_assoc]
      rfl
    · refine hother 't' ("elemetry/" ++ runId ++ "/") (by decide) ?_
      simp only [telemetryRunPrefix, String.append_assoc]
      rfl

end Coverage

/-- A teardown returns, and it leaves no object of the run behind exactly when there was no
assignment grant of the run. -/
theorem teardown_complete_iff (b : Bucket β) (netuid : ℤ) (runId : String) :
    (Stored b → ∃ n b', wipeRun b netuid runId = .ok (n, b')) ∧
    ∀ n b', wipeRun b netuid runId = .ok (n, b') →
      ((∀ key, RunKey netuid runId key → b'.exists (b'.uriForKey key) ≠ .ok true) ↔
        ∀ jobId hotkey,
          b.exists (b.uriForKey (assignmentKey netuid runId jobId hotkey)) ≠ .ok true) := by
  refine ⟨fun hb => wipeRun_returns hb netuid runId, ?_⟩
  intro n b' h
  obtain ⟨hname, hfind⟩ := wipeRun_ok h
  have hkept : ∀ jobId hotkey,
      b'.exists (b'.uriForKey (assignmentKey netuid runId jobId hotkey)) = .ok true ↔
        b.exists (b.uriForKey (assignmentKey netuid runId jobId hotkey)) = .ok true := by
    intro jobId hotkey
    have hnot : ¬ ∃ pre ∈ runPrefixes netuid runId,
        startsWith (joinUri b.name (assignmentKey netuid runId jobId hotkey))
          (listStart b.name pre) = true := by
      rintro ⟨pre, hpre, hlisted⟩
      exact assignment_not_listed b.name jobId hotkey hpre hlisted
    rw [Bucket.exists_eq_true, Bucket.exists_eq_true, Bucket.uriForKey, Bucket.uriForKey, hname,
      hfind, if_neg hnot]
  constructor
  · intro hgone jobId hotkey hexists
    exact hgone _ (.assignment jobId hotkey) ((hkept jobId hotkey).mpr hexists)
  · intro hnone key hkey hexists
    rcases hkey.cases with ⟨pre, hpre, rest, rfl⟩ | ⟨jobId, hotkey, rfl⟩
    · rw [Bucket.exists_eq_true, Bucket.uriForKey, hname, hfind] at hexists
      have hlisted := startsWith_listStart (runPrefixes_ne_empty hpre) hexists.1
      rw [if_pos ⟨pre, hpre, hlisted⟩] at hexists
      exact hexists.2 rfl
    · exact hnone jobId hotkey ((hkept jobId hotkey).mp hexists)

def runBucket (keys : List String) : Bucket ℕ where
  name := "b"
  objects := .ofEntries (keys.map fun key => (joinUri "b" key, 0))

/-- What a teardown of the run `r` reports, and whether an object is left under a key. -/
def leftAfter (keys : List String) (key : String) : Option (ℕ × Py Bool) :=
  (wipeRun (runBucket keys) 0 "r").toOption.map fun result =>
    (result.1, result.2.exists (result.2.uriForKey key))

/-- The grant of a job survives the teardown of its run. -/
theorem grant_survives_teardown :
    ∃ n b', wipeRun (runBucket [stateKey 0 "r", jobManifestKey 0 "r" "j",
        assignmentKey 0 "r" "j" "hk"]) 0 "r" = .ok (n, b') ∧
      RunKey 0 "r" (assignmentKey 0 "r" "j" "hk") ∧
      b'.exists (b'.uriForKey (assignmentKey 0 "r" "j" "hk")) = .ok true := by
  have hleft : leftAfter [stateKey 0 "r", jobManifestKey 0 "r" "j", assignmentKey 0 "r" "j" "hk"]
      (assignmentKey 0 "r" "j" "hk") = some (2, .ok true) := by decide +kernel
  obtain ⟨⟨n, b'⟩, hwipe, hexists⟩ := Option.map_eq_some_iff.mp hleft
  exact ⟨n, b', toOption_eq_some.mp hwipe, .assignment "j" "hk", (Prod.mk.inj hexists).2⟩

/-- A run without grants is torn down completely. -/
theorem direct_run_torn_down :
    ∃ n b', wipeRun (runBucket [stateKey 0 "r", jobManifestKey 0 "r" "j", stateKey 0 "keep"]) 0
        "r" = .ok (n, b') ∧ n = 2 ∧
      ∀ key, RunKey 0 "r" key → b'.exists (b'.uriForKey key) ≠ .ok true := by
  have hleft : leftAfter [stateKey 0 "r", jobManifestKey 0 "r" "j", stateKey 0 "keep"]
      (stateKey 0 "r") = some (2, .ok false) := by decide +kernel
  obtain ⟨⟨n, b'⟩, hwipe, hexists⟩ := Option.map_eq_some_iff.mp hleft
  have hrun := toOption_eq_some.mp hwipe
  refine ⟨n, b', hrun, (Prod.mk.inj hexists).1, ?_⟩
  refine ((teardown_complete_iff _ 0 "r").2 n b' hrun).mpr ?_
  intro jobId hotkey hgrant
  have hkeys : ∀ uri ∈ (runBucket [stateKey 0 "r", jobManifestKey 0 "r" "j",
      stateKey 0 "keep"]).objects.keys, ¬ OnBranch 0 "b" 'a' uri := by
    unfold OnBranch
    decide +kernel
  have hmem := SortedDict.mem_keys.mpr (Bucket.exists_eq_true.mp hgrant).2
  exact hkeys _ hmem (assignmentUri_onBranch "b" "r" jobId hotkey)

end RunTeardown

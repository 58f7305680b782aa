import Teuton.ScoreWindows

/-! How much credit the score windows give away. The loop counts every receipt id once, at the
compute units of the graph stored for its job or at the fallback of one unit; the windows
never hold more than the sum of these. Jobs are not what is counted: two receipts of one job
are both credited, and so is a receipt of a job that was never issued. -/
namespace CreditConservation

open PyJson PyText Signatures ObjectStore BucketPaths GraphIr ComputeUnits Protocol ScoreWindows

variable {β : Type}

def windowCredit (w : MinerScoreWindow) : ℚ := w.passCu + w.unsampledCu

def creditedCu (windows : Windows) : ℚ := (windows.vals.map windowCredit).sum

def issuedManifests (p : Platform β) (b : Bucket β) (a : ScoreArgs) : List JobManifestV3 :=
  let uris := (b.list (b.uriForKey (jobsPrefix a.netuid a.runId))).filter
    (endsWith · "/manifest.json")
  (KeyedDict.ofList (uris.filterMap fun uri =>
    (b.getJson p uri >>= JobManifestV3.fromDict).toOption) :
      KeyedDict JobManifestV3.jobId).vals

def manifestCu (p : Platform β) (b : Bucket β) (m : JobManifestV3) : ℚ :=
  match (fetchManifestGraph p m).run b.get >>= expectedComputeUnits p with
  | .ok cu => cu
  | .error _ => 0

def issuedCu (p : Platform β) (b : Bucket β) (a : ScoreArgs) : ℚ :=
  ((issuedManifests p b a).map (manifestCu p b)).sum

def WithinIssued (p : Platform β) (b : Bucket β) (a : ScoreArgs) : Prop :=
  ∀ windows b', summarizeScores p b a = .ok (windows, b') →
    creditedCu windows ≤ issuedCu p b a

section Counted

variable (p : Platform β) (b : Bucket β) (netuid : ℤ) (receipts : List JobReceiptV3)

/-- A manifest that the bucket holds for the job of a receipt, at the path of some receipt
naming this job. -/
def StoredManifest (jobId : String) (m : JobManifestV3) : Prop :=
  ∃ r ∈ receipts, r.jobId = jobId ∧ (findManifest p b.name netuid r).run b.get = .ok m

def StoredGraph (sha : String) (g : Graph) : Prop :=
  ∃ m : JobManifestV3, m.graphRef.sha256 = sha ∧ (fetchManifestGraph p m).run b.get = .ok g

/-- The lookups for a receipt fail: its manifest, the graph of the manifest stored for its job,
or the estimate of this graph. -/
def Unloadable (r : JobReceiptV3) : Prop :=
  (∃ e, (findManifest p b.name netuid r).run b.get = .error e) ∨
  ∃ m, StoredManifest p b netuid receipts r.jobId m ∧
    ((∃ e, (fetchManifestGraph p m).run b.get = .error e) ∨
      ∃ g e, StoredGraph p b m.graphRef.sha256 g ∧ expectedComputeUnits p g = .error e)

def CountedFor (r : JobReceiptV3) (cu : ℚ) : Prop :=
  (∃ m g, StoredManifest p b netuid receipts r.jobId m ∧ StoredGraph p b m.graphRef.sha256 g ∧
    expectedComputeUnits p g = .ok cu) ∨
  cu = 1 ∧ Unloadable p b netuid receipts r

structure CachesSound (c : Caches) : Prop where
  manifests : ∀ jobId m, c.manifests.find? jobId = some m →
    StoredManifest p b netuid receipts jobId m
  graphs : ∀ sha g, c.graphs.find? sha = some g → StoredGraph p b sha g

end Counted

variable {p : Platform β} {b : Bucket β} {a : ScoreArgs} {netuid : ℤ}
  {receipts : List JobReceiptV3}

theorem cachesSound_empty : CachesSound p b netuid receipts {} := by
  constructor
  · intro jobId m h
    cases h
  · intro sha g h
    cases h

theorem cachedManifest_sound {r : JobReceiptV3} {c : Caches} (hr : r ∈ receipts)
    (hc : CachesSound p b netuid receipts c) :
    (∃ e, cachedManifest p b netuid r c = .error e ∧
      (findManifest p b.name netuid r).run b.get = .error e) ∨
    ∃ m c', cachedManifest p b netuid r c = .ok (m, c') ∧ CachesSound p b netuid receipts c' ∧
      StoredManifest p b netuid receipts r.jobId m := by
  unfold cachedManifest
  cases hcached : c.manifests.find? r.jobId with
  | some m => exact Or.inr ⟨m, c, rfl, hc, hc.manifests _ _ hcached⟩
  | none =>
    cases hfind : (findManifest p b.name netuid r).run b.get with
    | error e => exact Or.inl ⟨e, rfl, rfl⟩
    | ok m =>
      have hstored : StoredManifest p b netuid receipts r.jobId m := ⟨r, hr, rfl, hfind⟩
      refine Or.inr ⟨m, _, rfl, ⟨?_, hc.graphs⟩, hstored⟩
      intro jobId m' hm'
      rw [SortedDict.find?_insert] at hm'
      by_cases hjob : jobId = r.jobId
      · rw [if_pos hjob] at hm'
        cases hm'
        exact hjob ▸ hstored
      · rw [if_neg hjob] at hm'
        exact hc.manifests _ _ hm'

theorem cachedGraph_sound {m : JobManifestV3} {c : Caches}
    (hc : CachesSound p b netuid receipts c) :
    (∃ e, cachedGraph p b m c = .error e ∧ (fetchManifestGraph p m).run b.get = .error e) ∨
    ∃ g c', cachedGraph p b m c = .ok (g, c') ∧ CachesSound p b netuid receipts c' ∧
      StoredGraph p b m.graphRef.sha256 g := by
  unfold cachedGraph
  cases hcached : c.graphs.find? m.graphRef.sha256 with
  | some g => exact Or.inr ⟨g, c, rfl, hc, hc.graphs _ _ hcached⟩
  | none =>
    cases hfetch : (fetchManifestGraph p m).run b.get with
    | error e => exact Or.inl ⟨e, rfl, rfl⟩
    | ok g =>
      have hstored : StoredGraph p b m.graphRef.sha256 g := ⟨m, rfl, hfetch⟩
      refine Or.inr ⟨g, _, rfl, ⟨hc.manifests, ?_⟩, hstored⟩
      intro sha g' hg'
      rw [SortedDict.find?_insert] at hg'
      by_cases hsha : sha = m.graphRef.sha256
      · rw [if_pos hsha] at hg'
        cases hg'
        exact hsha ▸ hstored
      · rw [if_neg hsha] at hg'
        exact hc.graphs _ _ hg'

theorem expectedCuForReceipt_sound {r : JobReceiptV3} {c : Caches} (hr : r ∈ receipts)
    (hc : CachesSound p b netuid receipts c) :
    CachesSound p b netuid receipts (expectedCuForReceipt p b netuid r c).2 ∧
      CountedFor p b netuid receipts r (expectedCuForReceipt p b netuid r c).1 := by
  unfold expectedCuForReceipt
  rcases cachedManifest_sound hr hc with ⟨e, hm, hfind⟩ | ⟨m, c₁, hm, hc₁, hstored⟩
  · rw [hm]
    exact ⟨hc, Or.inr ⟨rfl, Or.inl ⟨e, hfind⟩⟩⟩
  · rw [hm]
    rcases cachedGraph_sound (m := m) hc₁ with ⟨e, hg, hfetch⟩ | ⟨g, c₂, hg, hc₂, hgraph⟩
    · simp only [hg]
      exact ⟨hc₁, Or.inr ⟨rfl, Or.inr ⟨m, hstored, Or.inl ⟨e, hfetch⟩⟩⟩⟩
    · simp only [hg]
      cases hcu : expectedComputeUnits p g with
      | error e => exact ⟨hc₂, Or.inr ⟨rfl, Or.inr ⟨m, hstored, Or.inr ⟨g, e, hgraph, hcu⟩⟩⟩⟩
      | ok cu => exact ⟨hc₂, Or.inl ⟨m, g, hstored, hgraph, hcu⟩⟩

theorem windowCredit_creditWindow (verdict : Option VerificationVerdictV3) {cu : ℚ} (hcu : 0 ≤ cu)
    (w : MinerScoreWindow) : windowCredit (creditWindow verdict cu w) ≤ windowCredit w + cu := by
  unfold creditWindow windowCredit
  cases verdict with
  | none => simp [add_assoc]
  | some v =>
    by_cases hpass : v.status = "pass"
    · simp only [hpass, if_true]
      linarith
    · by_cases hfail : v.status = "fail"
      · simp only [hfail, if_true]
        simpa using hcu
      · simp only [hpass, hfail, if_false]
        linarith

theorem windowCredit_windowOf (windows : Windows) (hotkey : String) :
    windowCredit (windowOf a windows hotkey) =
      ((windows.get? hotkey).map windowCredit).getD 0 := by
  unfold windowOf
  cases windows.get? hotkey with
  | none => simp [windowCredit]
  | some w => rfl

theorem creditedCu_scoreReceipt (verdicts : Verdicts) (s : LoopState) (r : JobReceiptV3) :
    creditedCu (scoreReceipt p b a verdicts s r).windows ≤
      creditedCu s.windows + (expectedCuForReceipt p b a.netuid r s.caches).1 := by
  have hpos := expectedCuForReceipt_pos p b a.netuid r s.caches
  have hstep := windowCredit_creditWindow (verdicts.get? r.receiptId) hpos.le
    (windowOf a s.windows r.worker.hotkeySs58)
  rw [windowCredit_windowOf] at hstep
  unfold creditedCu scoreReceipt
  rw [KeyedDict.sum_set, creditWindow_hotkey, windowOf_hotkey]
  linarith

theorem creditedCu_loop (verdicts : Verdicts) (l : List JobReceiptV3) (s : LoopState)
    (hl : ∀ r ∈ l, r ∈ receipts) (hc : CachesSound p b a.netuid receipts s.caches) :
    ∃ cus, List.Forall₂ (CountedFor p b a.netuid receipts) l cus ∧
      creditedCu (l.foldl (scoreReceipt p b a verdicts) s).windows ≤
        creditedCu s.windows + cus.sum := by
  induction l generalizing s with
  | nil => exact ⟨[], .nil, by simp⟩
  | cons r l ih =>
    obtain ⟨hc', hcount⟩ := expectedCuForReceipt_sound (hl r List.mem_cons_self) hc
    obtain ⟨cus, hcus, hle⟩ := ih (scoreReceipt p b a verdicts s r)
      (fun r' hr' => hl r' (List.mem_cons_of_mem r hr')) hc'
    have hstep := creditedCu_scoreReceipt (p := p) (b := b) (a := a) verdicts s r
    refine ⟨_ :: cus, .cons hcount hcus, ?_⟩
    rw [List.foldl_cons, List.sum_cons]
    linarith

theorem creditedCu_finish (windows : Windows) :
    creditedCu (windows.mapVals finishWindow finishWindow_hotkey) = creditedCu windows := by
  unfold creditedCu KeyedDict.mapVals
  rw [List.map_map]
  rfl

def emptyGraph : Graph := {}

def smallManifest : JobManifestV3 where
  jobId := "j"
  runId := "r"
  stepId := 0
  kind := "train"
  graphRef := { sha256 := emptyGraph.graphId plainPlatform, uri := "s3://b/g" }
  params := []
  inputs := []
  outputs := []
  assignedHotkey := "A"
  assignedWorker := none
  attempt := 0
  deadlineUnix := 0
  createdUnix := 0

def runArgs : ScoreArgs := { netuid := 0, runId := "r" }

def orphanBucket : Bucket Json where
  name := "b"
  objects := .ofEntries
    [(joinUri "b" (receiptKey 0 "r" "A" "j" 0), (plainReceipt "x" "A" "j" "h").toDict)]

def repeatedBucket : Bucket Json where
  name := "b"
  objects := .ofEntries
    [("s3://b/g", emptyGraph.toDict),
     (joinUri "b" (jobManifestKey 0 "r" "j"), smallManifest.toDict plainPlatform),
     (joinUri "b" (receiptKey 0 "r" "A" "j" 0),
       (plainReceipt "x" "A" "j" (smallManifest.manifestHash plainPlatform)).toDict),
     (joinUri "b" (receiptKey 0 "r" "B" "j" 0),
       (plainReceipt "y" "B" "j" (smallManifest.manifestHash plainPlatform)).toDict)]

def creditReport (b : Bucket Json) : Option (ℚ × ℚ) :=
  (summarizeScores plainPlatform b runArgs).toOption.map fun out =>
    (issuedCu plainPlatform b runArgs, creditedCu out.1)

theorem summarized_of_report {b : Bucket Json} {issued credited : ℚ}
    (h : creditReport b = some (issued, credited)) :
    ∃ windows b', summarizeScores plainPlatform b runArgs = .ok (windows, b') ∧
      issuedCu plainPlatform b runArgs = issued ∧ creditedCu windows = credited := by
  unfold creditReport at h
  cases hs : summarizeScores plainPlatform b runArgs with
  | error e =>
    rw [hs] at h
    cases h
  | ok out =>
    rw [hs] at h
    cases h
    exact ⟨out.1, out.2, rfl, rfl, rfl⟩

theorem not_withinIssued_of_report {b : Bucket Json} {issued credited : ℚ}
    (h : creditReport b = some (issued, credited)) (hlt : issued < credited) :
    ¬ WithinIssued plainPlatform b runArgs := by
  obtain ⟨windows, b', hsummary, hissued, hcredited⟩ := summarized_of_report h
  intro hwithin
  have hle := hwithin windows b' hsummary
  rw [hissued, hcredited] at hle
  exact absurd hlt (not_lt.mpr hle)

theorem repeatedBucket_report :
    creditReport repeatedBucket = some (1 / 1000000, 2 / 1000000) := by
  decide +kernel

end CreditConservation

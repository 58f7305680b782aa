import Teuton.ScoreWindows

/-! Leaving receipts out of the scoring loop. Receipts of one hotkey can be left out without any
effect on the windows of the others, if they load nothing into the caches that the other
receipts would have loaded differently. -/
namespace ScoreErasure

open PyJson Signatures ObjectStore GraphIr ComputeUnits Protocol ScoreWindows

variable {β : Type}

section Lookups

variable (p : Platform β) (b : Bucket β) (netuid : ℤ)

def manifestOf (r : JobReceiptV3) : Option JobManifestV3 :=
  ((findManifest p b.name netuid r).run b.get).toOption

/-- The graph stored where the manifest says, under the address the manifest says. -/
def graphOf (m : JobManifestV3) : Option Graph := ((fetchManifestGraph p m).run b.get).toOption

def seenManifest (c : Caches) (r : JobReceiptV3) : Option JobManifestV3 :=
  (c.manifests.find? r.jobId).or (manifestOf p b netuid r)

def seenGraph (c : Caches) (m : JobManifestV3) : Option Graph :=
  (c.graphs.find? m.graphRef.sha256).or (graphOf p b m)

def cuFrom (graph : Option Graph) : ℚ :=
  match graph.map (expectedComputeUnits p) with
  | some (.ok cu) => cu
  | _ => 1

structure CachesAfter (c : Caches) (r : JobReceiptV3) (c' : Caches) : Prop where
  manifests : ∀ jobId, c'.manifests.find? jobId =
    if jobId = r.jobId then seenManifest p b netuid c r else c.manifests.find? jobId
  unchanged : seenManifest p b netuid c r = none → c'.graphs = c.graphs
  graphs : ∀ m, seenManifest p b netuid c r = some m → ∀ sha, c'.graphs.find? sha =
    if sha = m.graphRef.sha256 then seenGraph p b c m else c.graphs.find? sha

theorem cachedManifest_seen (r : JobReceiptV3) (c : Caches) :
    match seenManifest p b netuid c r with
    | none => ∃ e, cachedManifest p b netuid r c = .error e
    | some m => ∃ c₁, cachedManifest p b netuid r c = .ok (m, c₁) ∧ c₁.graphs = c.graphs ∧
        ∀ jobId, c₁.manifests.find? jobId =
          if jobId = r.jobId then some m else c.manifests.find? jobId := by
  unfold seenManifest cachedManifest manifestOf
  cases hcached : c.manifests.find? r.jobId with
  | some m =>
    refine ⟨c, rfl, rfl, ?_⟩
    intro jobId
    split_ifs with hjob
    · rw [hjob, hcached]
    · rfl
  | none =>
    cases hfind : (findManifest p b.name netuid r).run b.get with
    | error e => exact ⟨e, rfl⟩
    | ok m => exact ⟨_, rfl, rfl, fun jobId => SortedDict.find?_insert _ _ _ _⟩

theorem cachedGraph_seen (m : JobManifestV3) (c : Caches) :
    match seenGraph p b c m with
    | none => ∃ e, cachedGraph p b m c = .error e
    | some g => ∃ c₁, cachedGraph p b m c = .ok (g, c₁) ∧ c₁.manifests = c.manifests ∧
        ∀ sha, c₁.graphs.find? sha =
          if sha = m.graphRef.sha256 then some g else c.graphs.find? sha := by
  unfold seenGraph cachedGraph graphOf
  cases hcached : c.graphs.find? m.graphRef.sha256 with
  | some g =>
    refine ⟨c, rfl, rfl, ?_⟩
    intro sha
    split_ifs with hsha
    · rw [hsha, hcached]
    · rfl
  | none =>
    cases hfetch : (fetchManifestGraph p m).run b.get with
    | error e => exact ⟨e, rfl⟩
    | ok g => exact ⟨_, rfl, rfl, fun sha => SortedDict.find?_insert _ _ _ _⟩

theorem expectedCuForReceipt_seen (r : JobReceiptV3) (c : Caches) :
    (expectedCuForReceipt p b netuid r c).1 =
        cuFrom p ((seenManifest p b netuid c r).bind (seenGraph p b c)) ∧
      CachesAfter p b netuid c r (expectedCuForReceipt p b netuid r c).2 := by
  have hmanifest := cachedManifest_seen p b netuid r c
  unfold expectedCuForReceipt
  cases hm : seenManifest p b netuid c r with
  | none =>
    rw [hm] at hmanifest
    obtain ⟨e, he⟩ := hmanifest
    rw [he]
    refine ⟨rfl, ?_, fun _ => rfl, fun m h => by simp [hm] at h⟩
    intro jobId
    split_ifs with hjob
    · rw [hm, hjob]
      exact (Option.or_eq_none_iff.mp hm).1
    · rfl
  | some m =>
    rw [hm] at hmanifest
    obtain ⟨c₁, hc₁, hgraphs, hmanifests⟩ := hmanifest
    have hseen : seenGraph p b c₁ m = seenGraph p b c m := by
      unfold seenGraph
      rw [hgraphs]
    have hgraph := cachedGraph_seen p b m c₁
    rw [hc₁]
    simp only [Option.bind_some]
    cases hg : seenGraph p b c m with
    | none =>
      rw [hseen, hg] at hgraph
      obtain ⟨e, he⟩ := hgraph
      simp only [he]
      refine ⟨rfl, ?_, fun h => by simp [hm] at h, ?_⟩
      · intro jobId
        rw [hmanifests, hm]
      · intro m' hm' sha
        obtain rfl : m = m' := Option.some.inj (hm.symm.trans hm')
        rw [hgraphs, hg]
        split_ifs with hsha
        · rw [hsha]
          exact (Option.or_eq_none_iff.mp hg).1
        · rfl
    | some g =>
      rw [hseen, hg] at hgraph
      obtain ⟨c₂, hc₂, hmanifests₂, hgraphs₂⟩ := hgraph
      simp only [hc₂]
      have hafter : CachesAfter p b netuid c r c₂ := by
        refine ⟨?_, fun h => by simp [hm] at h, ?_⟩
        · intro jobId
          rw [hmanifests₂, hmanifests, hm]
        · intro m' hm' sha
          obtain rfl : m = m' := Option.some.inj (hm.symm.trans hm')
          rw [hgraphs₂, hgraphs, hg]
      cases hcu : expectedComputeUnits p g with
      | error e => exact ⟨by simp [cuFrom, hcu], hafter⟩
      | ok cu => exact ⟨by simp [cuFrom, hcu], hafter⟩

variable {p b netuid}

variable {c c' : Caches} {r : JobReceiptV3}

theorem CachesAfter.seenManifest_eq (h : CachesAfter p b netuid c r c') (r' : JobReceiptV3) :
    seenManifest p b netuid c' r' =
      if r'.jobId = r.jobId then (seenManifest p b netuid c r).or (manifestOf p b netuid r')
      else seenManifest p b netuid c r' := by
  unfold seenManifest
  rw [h.manifests]
  split_ifs <;> rfl

theorem CachesAfter.seenGraph_eq {m : JobManifestV3}
    (h : CachesAfter p b netuid c r c') (hm : seenManifest p b netuid c r = some m)
    (m' : JobManifestV3) :
    seenGraph p b c' m' =
      if m'.graphRef.sha256 = m.graphRef.sha256 then (seenGraph p b c m).or (graphOf p b m')
      else seenGraph p b c m' := by
  unfold seenGraph
  rw [h.graphs m hm]
  split_ifs <;> rfl

theorem CachesAfter.seenGraph_unchanged
    (h : CachesAfter p b netuid c r c') (hm : seenManifest p b netuid c r = none)
    (m' : JobManifestV3) : seenGraph p b c' m' = seenGraph p b c m' := by
  unfold seenGraph
  rw [h.unchanged hm]

theorem manifestOf_congr {r' : JobReceiptV3} (hrun : r.runId = r'.runId)
    (hjob : r.jobId = r'.jobId) : manifestOf p b netuid r = manifestOf p b netuid r' := by
  unfold manifestOf findManifest
  rw [hrun, hjob]

theorem graphOf_congr {m m' : JobManifestV3} (hsha : m.graphRef.sha256 = m'.graphRef.sha256)
    (huri : m.graphRef.uri = m'.graphRef.uri) : graphOf p b m = graphOf p b m' := by
  unfold graphOf fetchManifestGraph fetchGraph
  rw [hsha, huri]
  simp only [ReadProgram.run_bind]
  cases (fetchJson p m'.graphRef.uri).run b.get with
  | error e => rfl
  | ok d =>
    simp only [ok_bind, ReadProgram.run_lift]
    cases Graph.fromDict d with
    | error e => rfl
    | ok graph =>
      simp only [ok_bind]
      split_ifs <;> rfl

end Lookups

structure Side (β : Type) where
  bucket : Bucket β
  verdicts : Verdicts

/-- The receipts of the list that are not `other` all name the hotkey, load nothing that the
other receipts would load differently, and the two sides agree on the other receipts. -/
structure Erasable (p : Platform β) (netuid : ℤ) (X Y : Side β) (l : List JobReceiptV3)
    (other : JobReceiptV3 → Bool) (hotkey : String) : Prop where
  named : ∀ r ∈ l, other r = false → r.worker.hotkeySs58 = hotkey
  jobs : ∀ r ∈ l, other r = false → ∀ r' ∈ l, other r' = true →
    r.jobId = r'.jobId → r.runId = r'.runId
  graphs : ∀ r ∈ l, other r = false → ∀ r' ∈ l, other r' = true → ∀ m m',
    manifestOf p X.bucket netuid r = some m → manifestOf p X.bucket netuid r' = some m' →
    m.graphRef.sha256 = m'.graphRef.sha256 → m.graphRef.uri = m'.graphRef.uri
  sameManifest : ∀ r ∈ l, other r = true →
    manifestOf p X.bucket netuid r = manifestOf p Y.bucket netuid r
  sameGraph : ∀ r ∈ l, other r = true → ∀ m, manifestOf p X.bucket netuid r = some m →
    graphOf p X.bucket m = graphOf p Y.bucket m
  sameVerdict : ∀ r ∈ l, other r = true →
    X.verdicts.get? r.receiptId = Y.verdicts.get? r.receiptId

/-- The loop over all receipts on the one side and the loop over the other receipts on the
other side have the same effect, as far as the other receipts can see. -/
structure Tracks (p : Platform β) (netuid : ℤ) (X Y : Side β) (l : List JobReceiptV3)
    (other : JobReceiptV3 → Bool) (hotkey : String) (s t : LoopState) : Prop where
  manifests : ∀ r ∈ l, other r = true →
    seenManifest p X.bucket netuid s.caches r = seenManifest p Y.bucket netuid t.caches r
  graphs : ∀ r ∈ l, other r = true → ∀ m, manifestOf p X.bucket netuid r = some m →
    seenGraph p X.bucket s.caches m = seenGraph p Y.bucket t.caches m
  loaded : ∀ jobId m, s.caches.manifests.find? jobId = some m →
    ∃ r ∈ l, r.jobId = jobId ∧ manifestOf p X.bucket netuid r = some m
  loadedByOthers : ∀ jobId m, t.caches.manifests.find? jobId = some m →
    ∃ r ∈ l, other r = true ∧ r.jobId = jobId ∧ manifestOf p X.bucket netuid r = some m
  windows : ∀ h, h ≠ hotkey → s.windows.get? h = t.windows.get? h

section Loop

variable {p : Platform β} {a : ScoreArgs} {X Y : Side β} {l : List JobReceiptV3}
variable {other : JobReceiptV3 → Bool} {hotkey : String} {s t : LoopState} {r : JobReceiptV3}

theorem tracks_start (h : Erasable p a.netuid X Y l other hotkey) :
    Tracks p a.netuid X Y l other hotkey {} {} where
  manifests := fun r hr ho => h.sameManifest r hr ho
  graphs := fun r hr ho m hm => h.sameGraph r hr ho m hm
  loaded := fun _ _ hm => nomatch hm
  loadedByOthers := fun _ _ hm => nomatch hm
  windows := fun _ _ => rfl

theorem Tracks.seen_other (h : Erasable p a.netuid X Y l other hotkey)
    (hs : Tracks p a.netuid X Y l other hotkey s t) (hr : r ∈ l) (ho : other r = true)
    {m : JobManifestV3} (hm : seenManifest p X.bucket a.netuid s.caches r = some m) :
    ∃ r' ∈ l, other r' = true ∧ manifestOf p X.bucket a.netuid r' = some m := by
  rw [hs.manifests r hr ho, seenManifest, Option.or_eq_some_iff] at hm
  rcases hm with hcached | ⟨-, hload⟩
  · obtain ⟨r', hr', ho', -, hm'⟩ := hs.loadedByOthers _ _ hcached
    exact ⟨r', hr', ho', hm'⟩
  · exact ⟨r, hr, ho, (h.sameManifest r hr ho).trans hload⟩

theorem Tracks.seen_erased (h : Erasable p a.netuid X Y l other hotkey)
    (hs : Tracks p a.netuid X Y l other hotkey s t) (hr : r ∈ l) (ho : other r = false)
    {m : JobManifestV3} (hm : seenManifest p X.bucket a.netuid s.caches r = some m) :
    ∃ r' ∈ l, other r' = false ∧ manifestOf p X.bucket a.netuid r' = some m := by
  rw [seenManifest, Option.or_eq_some_iff] at hm
  rcases hm with hcached | ⟨-, hload⟩
  · obtain ⟨r', hr', hjob, hm'⟩ := hs.loaded _ _ hcached
    cases ho' : other r' with
    | false => exact ⟨r', hr', ho', hm'⟩
    | true =>
      have hrun := h.jobs r hr ho r' hr' ho' hjob.symm
      exact ⟨r, hr, ho, (manifestOf_congr hrun hjob.symm).trans hm'⟩
  · exact ⟨r, hr, ho, hload⟩

theorem loaded_step {P : JobReceiptV3 → Prop} {b : Bucket β} {c c' : Caches}
    (hafter : CachesAfter p b a.netuid c r c')
    (hc : ∀ jobId m, c.manifests.find? jobId = some m →
      ∃ r', P r' ∧ r'.jobId = jobId ∧ manifestOf p X.bucket a.netuid r' = some m)
    (hr : P r)
    (hb : manifestOf p X.bucket a.netuid r = manifestOf p b a.netuid r) (jobId : String)
    (m : JobManifestV3) (hm : c'.manifests.find? jobId = some m) :
    ∃ r', P r' ∧ r'.jobId = jobId ∧ manifestOf p X.bucket a.netuid r' = some m := by
  rw [hafter.manifests] at hm
  by_cases hjob : jobId = r.jobId
  · rw [if_pos hjob, seenManifest, Option.or_eq_some_iff] at hm
    rcases hm with hcached | ⟨-, hload⟩
    · exact hjob ▸ hc _ _ hcached
    · exact ⟨r, hr, hjob.symm, hb.trans hload⟩
  · rw [if_neg hjob] at hm
    exact hc _ _ hm

theorem Tracks.step_other (h : Erasable p a.netuid X Y l other hotkey)
    (hs : Tracks p a.netuid X Y l other hotkey s t) (hr : r ∈ l) (ho : other r = true) :
    Tracks p a.netuid X Y l other hotkey (scoreReceipt p X.bucket a X.verdicts s r)
      (scoreReceipt p Y.bucket a Y.verdicts t r) := by
  obtain ⟨hcuX, hafterX⟩ := expectedCuForReceipt_seen p X.bucket a.netuid r s.caches
  obtain ⟨hcuY, hafterY⟩ := expectedCuForReceipt_seen p Y.bucket a.netuid r t.caches
  have hseen := hs.manifests r hr ho
  refine ⟨?_, ?_, ?_, ?_, ?_⟩
  · intro r' hr' ho'
    rw [scoreReceipt, scoreReceipt, hafterX.seenManifest_eq, hafterY.seenManifest_eq, hseen,
      hs.manifests r' hr' ho', h.sameManifest r' hr' ho']
  · intro r' hr' ho' m' hm'
    rw [scoreReceipt, scoreReceipt]
    cases hm : seenManifest p X.bucket a.netuid s.caches r with
    | none =>
      rw [hafterX.seenGraph_unchanged hm, hafterY.seenGraph_unchanged (hseen ▸ hm)]
      exact hs.graphs r' hr' ho' m' hm'
    | some m =>
      obtain ⟨r₁, hr₁, ho₁, hm₁⟩ := hs.seen_other h hr ho hm
      rw [hafterX.seenGraph_eq hm, hafterY.seenGraph_eq (hseen ▸ hm), hs.graphs r₁ hr₁ ho₁ m hm₁,
        hs.graphs r' hr' ho' m' hm', h.sameGraph r' hr' ho' m' hm']
  · have hstep := loaded_step (X := X) (P := fun r' => r' ∈ l) hafterX
      (fun jobId m hm => by simpa [and_assoc] using hs.loaded jobId m hm) hr rfl
    intro jobId m hm
    simpa [and_assoc] using hstep jobId m hm
  · have hstep := loaded_step (X := X) (P := fun r' => r' ∈ l ∧ other r' = true) hafterY
      (fun jobId m hm => by simpa [and_assoc] using hs.loadedByOthers jobId m hm) ⟨hr, ho⟩
      (h.sameManifest r hr ho)
    intro jobId m hm
    simpa [and_assoc] using hstep jobId m hm
  · intro hk hne
    have hcu : (expectedCuForReceipt p X.bucket a.netuid r s.caches).1 =
        (expectedCuForReceipt p Y.bucket a.netuid r t.caches).1 := by
      rw [hcuX, hcuY, ← hseen]
      cases hm : seenManifest p X.bucket a.netuid s.caches r with
      | none => rfl
      | some m =>
        obtain ⟨r₁, hr₁, ho₁, hm₁⟩ := hs.seen_other h hr ho hm
        rw [Option.bind_some, Option.bind_some, hs.graphs r₁ hr₁ ho₁ m hm₁]
    rw [get?_scoreReceipt, get?_scoreReceipt, hcu, h.sameVerdict r hr ho, windowOf, windowOf,
      hs.windows hk hne]

theorem Tracks.step_erased (h : Erasable p a.netuid X Y l other hotkey)
    (hs : Tracks p a.netuid X Y l other hotkey s t) (hr : r ∈ l) (ho : other r = false) :
    Tracks p a.netuid X Y l other hotkey (scoreReceipt p X.bucket a X.verdicts s r) t := by
  obtain ⟨-, hafter⟩ := expectedCuForReceipt_seen p X.bucket a.netuid r s.caches
  refine ⟨?_, ?_, ?_, hs.loadedByOthers, ?_⟩
  · intro r' hr' ho'
    rw [← hs.manifests r' hr' ho', scoreReceipt, hafter.seenManifest_eq]
    split_ifs with hjob
    · have hrun := h.jobs r hr ho r' hr' ho' hjob.symm
      rw [seenManifest, seenManifest, hjob, manifestOf_congr hrun hjob.symm]
      cases s.caches.manifests.find? r.jobId <;> simp
    · rfl
  · intro r' hr' ho' m' hm'
    rw [← hs.graphs r' hr' ho' m' hm', scoreReceipt]
    cases hm : seenManifest p X.bucket a.netuid s.caches r with
    | none => exact hafter.seenGraph_unchanged hm m'
    | some m =>
      obtain ⟨r₁, hr₁, ho₁, hm₁⟩ := hs.seen_erased h hr ho hm
      rw [hafter.seenGraph_eq hm]
      split_ifs with hsha
      · have huri := h.graphs r₁ hr₁ ho₁ r' hr' ho' m m' hm₁ hm' hsha.symm
        rw [seenGraph, seenGraph, hsha, graphOf_congr hsha.symm huri]
        cases s.caches.graphs.find? m.graphRef.sha256 <;> simp
      · rfl
  · have hstep := loaded_step (X := X) (P := fun r' => r' ∈ l) hafter
      (fun jobId m hm => by simpa [and_assoc] using hs.loaded jobId m hm) hr rfl
    intro jobId m hm
    simpa [and_assoc] using hstep jobId m hm
  · intro hk hne
    rw [get?_scoreReceipt, h.named r hr ho, if_neg (Ne.symm hne)]
    exact hs.windows hk hne

theorem Tracks.loop (h : Erasable p a.netuid X Y l other hotkey) {rest : List JobReceiptV3}
    (hrest : ∀ r ∈ rest, r ∈ l) (hs : Tracks p a.netuid X Y l other hotkey s t) :
    Tracks p a.netuid X Y l other hotkey
      (rest.foldl (scoreReceipt p X.bucket a X.verdicts) s)
      ((rest.filter other).foldl (scoreReceipt p Y.bucket a Y.verdicts) t) := by
  induction rest generalizing s t with
  | nil => exact hs
  | cons r rest ih =>
    obtain ⟨hr, hrest⟩ := List.forall_mem_cons.mp hrest
    cases ho : other r with
    | true =>
      rw [List.filter_cons_of_pos ho]
      exact ih hrest (hs.step_other h hr ho)
    | false =>
      rw [List.filter_cons_of_neg (by simp [ho])]
      exact ih hrest (hs.step_erased h hr ho)

theorem windows_erased (h : Erasable p a.netuid X Y l other hotkey) {hk : String}
    (hne : hk ≠ hotkey) :
    (scoreReceipts p X.bucket a X.verdicts l).windows.get? hk =
      (scoreReceipts p Y.bucket a Y.verdicts (l.filter other)).windows.get? hk :=
  (Tracks.loop h (fun _ hr => hr) (tracks_start h)).windows hk hne

end Loop

end ScoreErasure

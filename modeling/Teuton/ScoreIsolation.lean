import Mathlib.Data.List.Pairwise
import Teuton.PassedReceipts
import Teuton.ScoreErasure
import Teuton.VerdictWrites

/-! What the receipt objects of one hotkey can do to the scores of the others. A verifier pass
followed by the scoring is compared on two buckets that differ below the receipt prefix of one
hotkey. Receipts are counted for the hotkey they name, whatever prefix they are stored under,
and joined with verdicts by their id; so the windows of the others are unaffected only as long
as the objects under the prefix are auditable receipts that name this hotkey and keep their own
ids, verdict paths and cache entries. -/
namespace ScoreIsolation

open PyJson PyText Signatures ObjectStore BucketPaths ComputeUnits Protocol ScoreWindows
open BucketBranches ReplayVerifier VerdictObjects VerdictWrites ScoreErasure

variable {β τ : Type}

def scoringPass (H : Host β τ) (V : ValidatorConfig β) (b : Bucket β) (a : ScoreArgs) :
    Py (Windows × Bucket β) := do
  let (_, b₁) ← runOnce H V b
  summarizeScores H.libraries.platform b₁ a

section Objects

variable (H : Host β τ) (V : ValidatorConfig β) (hotkey : String)

def isUnder (bucket uri : String) : Bool :=
  startsWith uri (joinUri bucket (receiptsPrefix V.netuid V.runId ++ "hotkey=" ++ hotkey ++ "/"))

def ownReceipts (b : Bucket β) : List (String × JobReceiptV3) :=
  (listedReceipts H V b).filter fun item => isUnder V hotkey b.name item.1

def otherReceipts (b : Bucket β) : List (String × JobReceiptV3) :=
  (listedReceipts H V b).filter fun item => !isUnder V hotkey b.name item.1

/-- Objects were added or overwritten, below the receipt prefix of the hotkey only. -/
structure AddedUnder (b b' : Bucket β) : Prop where
  agree : AgreeOn (fun uri => isUnder V hotkey b.name uri = false) b b'
  kept : ∀ uri, b'.objects.find? uri = none → b.objects.find? uri = none

/-- The pass returns on the second bucket if it does on the first, with the same windows for
all other hotkeys. -/
def SameScores (a : ScoreArgs) (b b' : Bucket β) : Prop :=
  ∀ windows b₂, scoringPass H V b a = .ok (windows, b₂) →
    ∃ windows' b₂', scoringPass H V b' a = .ok (windows', b₂') ∧
      ∀ other, other ≠ hotkey → windows'.get? other = windows.get? other

/-- Whatever is added below the prefix of one hotkey, the scores of the others stay the same. -/
def ScoresIsolated (a : ScoreArgs) : Prop :=
  ∀ hotkey b b', AddedUnder V hotkey b b' → SameScores H V hotkey a b b'

/-- The objects below the prefix are receipts that name the hotkey and share no id, verdict
path or conflicting cache entry with the other receipts. -/
structure KeepsToItself (b : Bucket β) : Prop where
  named : ∀ uri ∈ jsonUris b (receiptsPrefix V.netuid V.runId),
    isUnder V hotkey b.name uri = true →
    (loadReceipt H.libraries.platform b uri).toOption.map (·.worker.hotkeySs58) = some hotkey
  ids : ∀ own ∈ ownReceipts H V hotkey b, ∀ other ∈ otherReceipts H V hotkey b,
    own.2.receiptId ≠ other.2.receiptId ∧
      verdictUri V b.name own.2 ≠ verdictUri V b.name other.2
  jobs : ∀ own ∈ ownReceipts H V hotkey b, ∀ other ∈ otherReceipts H V hotkey b,
    own.2.jobId = other.2.jobId → own.2.runId = other.2.runId
  graphs : ∀ own ∈ ownReceipts H V hotkey b, ∀ other ∈ otherReceipts H V hotkey b,
    ∀ m ∈ manifestOf H.libraries.platform b V.netuid own.2,
    ∀ m' ∈ manifestOf H.libraries.platform b V.netuid other.2,
    m.graphRef.sha256 = m'.graphRef.sha256 → m.graphRef.uri = m'.graphRef.uri

/-- The verifier can give the receipt a verdict: the verdict path is a key, and unless there is
a verdict already, the manifest, its graph and the estimate load. -/
structure Auditable (b : Bucket β) (r : JobReceiptV3) : Prop where
  path : ValidUri (verdictUri V b.name r)
  loads : b.objects.find? (verdictUri V b.name r) = none →
    ∃ m ∈ manifestOf H.libraries.platform b V.netuid r, ¬ IsVerdictUri V b.name m.graphRef.uri ∧
      ∃ g ∈ graphOf H.libraries.platform b m,
        (expectedComputeUnits H.libraries.platform g).toOption ≠ none

/-- The other receipts have verdict paths of their own, and verifying them reads neither a
verdict nor an object below the prefix. -/
structure OthersApart (b : Bucket β) : Prop where
  paths : (otherReceipts H V hotkey b).Pairwise fun x y =>
    verdictUri V b.name x.2 ≠ verdictUri V b.name y.2
  reads : ∀ item ∈ otherReceipts H V hotkey b,
    ∀ k ∈ (verify H V b.name item.1 item.2).keysRead b.get,
      isUnder V hotkey b.name k = false ∧ ¬ IsVerdictUri V b.name k

end Objects

section Listing

variable {H : Host β τ} {V : ValidatorConfig β} {hotkey : String} {b b' : Bucket β}

variable {uri : String} {p : Platform β} {item : String × JobReceiptV3}

theorem isUnder_onBranch {bucket : String} (h : isUnder V hotkey bucket uri = true) :
    OnBranch V.netuid bucket 'r' uri := by
  refine onBranch_of_startsWith ("eceipts/" ++ V.runId ++ "/" ++ "hotkey=" ++ hotkey ++ "/") ?_ h
  rw [receiptsPrefix_branch]
  simp only [String.append_assoc]

theorem not_isUnder_of_onBranch {bucket : String} {c : Char}
    (h : OnBranch V.netuid bucket c uri) (hne : c ≠ 'r') : isUnder V hotkey bucket uri = false := by
  by_contra hunder
  exact h.unique hne (isUnder_onBranch (Bool.eq_true_of_not_eq_false hunder))

theorem verdictUri_not_isUnder (bucket : String) (r : JobReceiptV3) :
    isUnder V hotkey bucket (verdictUri V bucket r) = false :=
  not_isUnder_of_onBranch ((verdictUri_isVerdict V r).onBranch V) (by decide)

theorem mem_listedReceipts {r : JobReceiptV3} :
    (uri, r) ∈ listedReceipts H V b ↔
      uri ∈ jsonUris b (receiptsPrefix V.netuid V.runId) ∧
        loadReceipt H.libraries.platform b uri = .ok r := by
  unfold listedReceipts
  rw [List.mem_filterMap]
  constructor
  · rintro ⟨uri', huri', h⟩
    obtain ⟨r', hr', heq⟩ := Option.map_eq_some_iff.mp h
    cases heq
    exact ⟨huri', toOption_eq_some.mp hr'⟩
  · rintro ⟨huri, hr⟩
    exact ⟨uri, huri, by rw [toOption_eq_some.mpr hr]; rfl⟩

theorem loadReceipt_congr (h : b'.objects.find? uri = b.objects.find? uri) :
    loadReceipt p b' uri = loadReceipt p b uri := by
  unfold loadReceipt Bucket.getJson
  rw [Bucket.get_congr h]

theorem filter_filterMap_comm {α γ : Type} {f : α → Option γ} {test : γ → Bool} {test' : α → Bool}
    (h : ∀ x y, f x = some y → test y = test' x) (l : List α) :
    (l.filterMap f).filter test = (l.filter test').filterMap f := by
  induction l with
  | nil => rfl
  | cons x l ih =>
    cases hf : f x with
    | none =>
      rw [List.filterMap_cons_none hf, ih, List.filter_cons]
      split_ifs
      · rw [List.filterMap_cons_none hf]
      · rfl
    | some y =>
      rw [List.filterMap_cons_some hf, List.filter_cons, List.filter_cons, h x y hf, ih]
      split_ifs
      · rw [List.filterMap_cons_some hf]
      · rfl

theorem otherReceipts_eq (h : AgreeOn (fun uri => isUnder V hotkey b.name uri = false) b b') :
    otherReceipts H V hotkey b' = otherReceipts H V hotkey b := by
  have hsplit : ∀ c : Bucket β, otherReceipts H V hotkey c =
      (c.objects.keys.filter fun uri => !isUnder V hotkey c.name uri &&
        isListed c.name (receiptsPrefix V.netuid V.runId) uri).filterMap fun uri =>
          (loadReceipt H.libraries.platform c uri).toOption.map (uri, ·) := by
    intro c
    unfold otherReceipts listedReceipts
    rw [jsonUris_eq, ← List.filter_filter]
    apply filter_filterMap_comm
    intro uri item hitem
    obtain ⟨r, -, rfl⟩ := Option.map_eq_some_iff.mp hitem
    rfl
  rw [hsplit, hsplit, h.name]
  have hkeys : (b'.objects.keys.filter fun uri => !isUnder V hotkey b.name uri &&
        isListed b.name (receiptsPrefix V.netuid V.runId) uri) =
      b.objects.keys.filter fun uri => !isUnder V hotkey b.name uri &&
        isListed b.name (receiptsPrefix V.netuid V.runId) uri := by
    apply SortedDict.filter_keys_congr
    intro uri huri
    rw [h.objects uri (by simpa using (Bool.and_eq_true_iff.mp huri).1)]
  rw [hkeys]
  apply List.filterMap_congr
  intro uri huri
  have hnot := (Bool.and_eq_true_iff.mp (List.mem_filter.mp huri).2).1
  rw [loadReceipt_congr (h.objects uri (by simpa using hnot))]

theorem mem_sampleReceipts (hrate : 1 ≤ V.sampleRate) :
    item ∈ sampleReceipts H V b ↔ item ∈ listedReceipts H V b := by
  unfold sampleReceipts
  rw [(shuffle_perm _ _).mem_iff, List.mem_filter]
  have hin : inSample H V item.2 = true := by simp [inSample, hrate]
  simp [hin]

theorem mem_own_or_other (hotkey : String)
    (h : item ∈ listedReceipts H V b) : item ∈ ownReceipts H V hotkey b ∨ item ∈ otherReceipts H V hotkey b := by
  unfold ownReceipts otherReceipts
  rw [List.mem_filter, List.mem_filter]
  cases isUnder V hotkey b.name item.1 <;> simp [h]

theorem listed_of_other (h : item ∈ otherReceipts H V hotkey b) :
    item ∈ listedReceipts H V b := (List.mem_filter.mp h).1

theorem execution_of_listed (hp : H.libraries.platform.Lawful)
    (h : item ∈ listedReceipts H V b) : Canonical (.obj item.2.execution) :=
  loadReceipt_execution hp (mem_listedReceipts.mp h).2

theorem manifestOf_agree {test : String → Prop} (h : AgreeOn test b b')
    {netuid : ℤ} {r : JobReceiptV3}
    (htest : test (joinUri b.name (jobManifestKey netuid r.runId r.jobId))) :
    manifestOf p b' netuid r = manifestOf p b netuid r := by
  unfold manifestOf findManifest
  simp only [ReadProgram.run_bind, run_fetchJson, Bucket.getJson, h.name,
    Bucket.get_congr (h.objects _ htest)]
  rfl

theorem graphOf_agree {test : String → Prop} (h : AgreeOn test b b')
    {m : JobManifestV3} (htest : test m.graphRef.uri) : graphOf p b' m = graphOf p b m := by
  unfold graphOf fetchManifestGraph GraphIr.fetchGraph
  simp only [ReadProgram.run_bind, run_fetchJson, Bucket.getJson,
    Bucket.get_congr (h.objects _ htest), ReadProgram.run_lift, apply_ite (ReadProgram.run b.get),
    apply_ite (ReadProgram.run b'.get), ReadProgram.run_pure, ReadProgram.run_done]

theorem manifestUri_not_isVerdict (bucket : String) (r : JobReceiptV3) :
    ¬ IsVerdictUri V bucket (joinUri bucket (jobManifestKey V.netuid r.runId r.jobId)) := by
  intro h
  exact (manifestUri_onBranch _ _ _).unique (by decide) (h.onBranch V)

theorem manifestUri_not_isUnder (bucket : String) (r : JobReceiptV3) :
    isUnder V hotkey bucket (joinUri bucket (jobManifestKey V.netuid r.runId r.jobId)) = false :=
  not_isUnder_of_onBranch (manifestUri_onBranch _ _ _) (by decide)

theorem graphUri_mem_keysRead (hp : H.libraries.platform.Lawful)
    (hitem : item ∈ listedReceipts H V b) {m : JobManifestV3}
    (hm : manifestOf H.libraries.platform b V.netuid item.2 = some m) :
    m.graphRef.uri ∈ (verify H V b.name item.1 item.2).keysRead b.get := by
  have hfind := toOption_eq_some.mp hm
  obtain ⟨audit, haudit, -⟩ := run_returns H.libraries (auditConfig V) (H.auditTimes item.1)
    item.1 m V.validatorHotkey (execution_of_listed hp hitem) b.get
  have hgraph : m.graphRef.uri ∈ (verdictFromAudit H V item.1 item.2 audit m).keysRead b.get :=
    List.mem_cons_self
  unfold verify
  rw [ReadProgram.keysRead_bind, hfind, List.mem_append]
  right
  simp only
  rw [ReadProgram.keysRead_bind, haudit, List.mem_append]
  exact Or.inr hgraph

end Listing

/-- A change below the prefix of a hotkey that respects what the scoring relies on. -/
structure HarmlessChange (H : Host β τ) (V : ValidatorConfig β) (hotkey : String)
    (b b' : Bucket β) : Prop where
  agree : AgreeOn (fun uri => isUnder V hotkey b.name uri = false) b b'
  own : KeepsToItself H V hotkey b
  own' : KeepsToItself H V hotkey b'
  auditable : ∀ item ∈ ownReceipts H V hotkey b', Auditable H V b' item.2
  others : OthersApart H V hotkey b

section Verdicts

variable {H : Host β τ} {V : ValidatorConfig β} {hotkey : String} {b b' b₁ b₁' : Bucket β}

variable {item : String × JobReceiptV3}

theorem verdictUri_ne (hown : KeepsToItself H V hotkey b)
    (hpaths : (otherReceipts H V hotkey b).Pairwise fun x y =>
      verdictUri V b.name x.2 ≠ verdictUri V b.name y.2)
    {other : String × JobReceiptV3} (hother : other ∈ otherReceipts H V hotkey b)
    (hitem : item ∈ listedReceipts H V b) (hne : item ≠ other) :
    verdictUri V b.name item.2 ≠ verdictUri V b.name other.2 := by
  rcases mem_own_or_other hotkey hitem with h | h
  · exact (hown.ids item h other hother).2
  · have hsymm : Std.Symm fun x y : String × JobReceiptV3 =>
        verdictUri V b.name x.2 ≠ verdictUri V b.name y.2 := ⟨fun _ _ => Ne.symm⟩
    exact hpaths.forall h hother hne

/-- Verifying an other receipt gives the same on every bucket that agrees with `b` on what is
neither below the prefix nor a verdict. -/
theorem OthersApart.verify_eq (h : OthersApart H V hotkey b)
    (hitem : item ∈ otherReceipts H V hotkey b) {c : Bucket β}
    (hc : AgreeOn (fun uri => isUnder V hotkey b.name uri = false ∧ ¬ IsVerdictUri V b.name uri)
      b c) :
    (verify H V b.name item.1 item.2).run c.get = (verify H V b.name item.1 item.2).run b.get :=
  hc.run_eq (h.reads item hitem)

theorem HarmlessChange.agree_both (h : HarmlessChange H V hotkey b b') {c : Bucket β}
    (hc : AgreeOn (fun uri => ¬ IsVerdictUri V b'.name uri) b' c) :
    AgreeOn (fun uri => isUnder V hotkey b.name uri = false ∧ ¬ IsVerdictUri V b.name uri) b c := by
  refine ⟨hc.name.trans h.agree.name, ?_⟩
  intro uri huri
  have hverdict : ¬ IsVerdictUri V b'.name uri := by
    rw [h.agree.name]
    exact huri.2
  rw [hc.objects uri hverdict, h.agree.objects uri huri.1]

theorem HarmlessChange.others' (h : HarmlessChange H V hotkey b b') :
    OthersApart H V hotkey b' := by
  have hname := h.agree.name
  constructor
  · rw [otherReceipts_eq h.agree, hname]
    exact h.others.paths
  · intro item hitem
    rw [otherReceipts_eq h.agree] at hitem
    have hreads := h.others.reads item hitem
    rw [hname, h.agree.keysRead_eq fun k hk => (hreads k hk).1]
    exact hreads

theorem written_other (hrate : 1 ≤ V.sampleRate) (hown : KeepsToItself H V hotkey b)
    (hothers : OthersApart H V hotkey b) (hw : Writes H V (sampleReceipts H V b) b b₁)
    (hitem : item ∈ otherReceipts H V hotkey b)
    (habsent : b.objects.find? (verdictUri V b.name item.2) = none) :
    ∃ v, (verify H V b.name item.1 item.2).run b.get = .ok v ∧
      b₁.objects.find? (verdictUri V b.name item.2) =
        some (H.libraries.platform.dumps v.toDict) := by
  refine hw.written ((mem_sampleReceipts hrate).mpr (listed_of_other hitem)) habsent ?_ ?_
  · intro item' hitem' hne
    exact verdictUri_ne hown hothers.paths hitem ((mem_sampleReceipts hrate).mp hitem') hne
  · intro k hk
    exact (hothers.reads item hitem k hk).2

theorem HarmlessChange.writes (h : HarmlessChange H V hotkey b b')
    (hp : H.libraries.platform.Lawful) (hrate : 1 ≤ V.sampleRate)
    (hw : Writes H V (sampleReceipts H V b) b b₁) :
    ∃ b₁', Writes H V (sampleReceipts H V b') b' b₁' := by
  have hname := h.agree.name
  apply writes_total b' ⟨rfl, fun _ _ => rfl⟩ (fun _ hu => hu)
  · intro item hitem
    rcases mem_own_or_other hotkey ((mem_sampleReceipts hrate).mp hitem) with hi | hi
    · exact (h.auditable item hi).path
    · rw [otherReceipts_eq h.agree] at hi
      rw [hname]
      exact hw.valid item ((mem_sampleReceipts hrate).mpr (listed_of_other hi))
  · intro item hitem habsent c hc
    have hlisted := (mem_sampleReceipts hrate).mp hitem
    rcases mem_own_or_other hotkey hlisted with hi | hi
    · obtain ⟨m, hm, hverdict, g, hg, hestimate⟩ := (h.auditable item hi).loads habsent
      obtain ⟨cu, hcu⟩ := Option.ne_none_iff_exists'.mp hestimate
      rw [← manifestOf_agree hc (manifestUri_not_isVerdict _ _)] at hm
      rw [← graphOf_agree hc hverdict] at hg
      have hfind := toOption_eq_some.mp hm
      rw [hc.name] at hfind
      exact verify_returns (execution_of_listed hp hlisted) hfind (toOption_eq_some.mp hg)
        (toOption_eq_some.mp hcu)
    · rw [otherReceipts_eq h.agree] at hi
      rw [hname] at habsent ⊢
      rw [h.agree.objects _ (verdictUri_not_isUnder _ _)] at habsent
      obtain ⟨v, hv, -⟩ := written_other hrate h.own h.others hw hi habsent
      exact ⟨v, (h.others.verify_eq hi (h.agree_both hc)).trans hv⟩

def OwnOrAbsent (H : Host β τ) (V : ValidatorConfig β) (hotkey : String) (b b₁ : Bucket β)
    (uri : String) : Prop :=
  b₁.objects.find? uri = none ∨ ∃ item ∈ ownReceipts H V hotkey b,
    ∃ v, VerdictOf H.libraries.platform V item.2 v ∧ ValidUri uri ∧
      b₁.objects.find? uri = some (H.libraries.platform.dumps v.toDict)

theorem own_or_same (hp : H.libraries.platform.Lawful) (hrate : 1 ≤ V.sampleRate)
    (hw : Writes H V (sampleReceipts H V b) b b₁) {uri : String}
    (huri : ∀ item ∈ otherReceipts H V hotkey b, verdictUri V b.name item.2 ≠ uri) :
    b₁.objects.find? uri = b.objects.find? uri ∨
      b.objects.find? uri = none ∧ OwnOrAbsent H V hotkey b b₁ uri := by
  rcases hw.new uri with heq | ⟨habsent, item, hitem, hpath, s, v, hv, hfind⟩
  · exact Or.inl heq
  · have hlisted := (mem_sampleReceipts hrate).mp hitem
    rcases mem_own_or_other hotkey hlisted with hi | hi
    · have hverdict := verify_verdict (execution_of_listed hp hlisted) hv
      exact Or.inr ⟨habsent, Or.inr ⟨item, hi, v, hverdict, hpath ▸ hw.valid item hitem, hfind⟩⟩
    · exact absurd hpath (huri item hi)

/-- After the two passes an object that is not below the prefix is the same, or on both sides
absent or a verdict of a receipt below the prefix. -/
theorem HarmlessChange.same_or_own (h : HarmlessChange H V hotkey b b')
    (hp : H.libraries.platform.Lawful) (hrate : 1 ≤ V.sampleRate)
    (hw : Writes H V (sampleReceipts H V b) b b₁)
    (hw' : Writes H V (sampleReceipts H V b') b' b₁') {uri : String}
    (huri : isUnder V hotkey b.name uri = false) :
    b₁'.objects.find? uri = b₁.objects.find? uri ∨
      OwnOrAbsent H V hotkey b b₁ uri ∧ OwnOrAbsent H V hotkey b' b₁' uri := by
  have hname := h.agree.name
  have hsame := h.agree.objects uri huri
  by_cases hother : ∃ item ∈ otherReceipts H V hotkey b, verdictUri V b.name item.2 = uri
  · left
    obtain ⟨item, hitem, rfl⟩ := hother
    cases hfind : b.objects.find? (verdictUri V b.name item.2) with
    | some body =>
      rw [hfind] at hsame
      rw [hw.keeps hfind, hw'.keeps hsame]
    | none =>
      rw [hfind] at hsame
      have hitem' : item ∈ otherReceipts H V hotkey b' := by
        rw [otherReceipts_eq h.agree]
        exact hitem
      obtain ⟨v, hv, hb₁⟩ := written_other hrate h.own h.others hw hitem hfind
      obtain ⟨v', hv', hb₁'⟩ := written_other hrate h.own' h.others' hw' hitem' (by rw [hname]; exact hsame)
      have heq := h.others.verify_eq hitem (h.agree_both ⟨rfl, fun _ _ => rfl⟩)
      rw [hname, heq, hv] at hv'
      cases hv'
      rw [hname] at hb₁'
      rw [hb₁, hb₁']
  · push Not at hother
    have hother' : ∀ item ∈ otherReceipts H V hotkey b', verdictUri V b'.name item.2 ≠ uri := by
      rw [otherReceipts_eq h.agree, hname]
      exact hother
    rcases own_or_same hp hrate hw hother with heq | ⟨habsent, hown⟩
    · rcases own_or_same hp hrate hw' hother' with heq' | ⟨habsent', hown'⟩
      · exact Or.inl (heq'.trans (hsame.trans heq.symm))
      · rw [hsame] at habsent'
        exact Or.inr ⟨Or.inl (heq.trans habsent'), hown'⟩
    · rcases own_or_same hp hrate hw' hother' with heq' | ⟨-, hown'⟩
      · exact Or.inr ⟨hown, Or.inl (heq'.trans (hsame.trans habsent))⟩
      · exact Or.inr ⟨hown, hown'⟩

end Verdicts

section Loading

variable {H : Host β τ} {V : ValidatorConfig β} {hotkey : String} {b b' b₁ b₁' : Bucket β}
variable {a : ScoreArgs} {uri : String}

structure SameRun (V : ValidatorConfig β) (a : ScoreArgs) : Prop where
  netuid : a.netuid = V.netuid
  runId : a.runId = V.runId

theorem loadReceipts_eq_ok (ha : SameRun V a)
    (h : AgreeOn (fun uri => ¬ IsVerdictUri V b.name uri) b b₁) {receipts : List JobReceiptV3} :
    loadReceipts H.libraries.platform b₁ a = .ok receipts ↔
      (∀ uri ∈ jsonUris b (receiptsPrefix V.netuid V.runId),
        ∃ r, loadReceipt H.libraries.platform b uri = .ok r) ∧
      receipts = (listedReceipts H V b).map Prod.snd := by
  have hobjects : ∀ uri, isListed b.name (receiptsPrefix V.netuid V.runId) uri = true →
      b₁.objects.find? uri = b.objects.find? uri := by
    intro uri huri
    apply h.objects
    intro hverdict
    exact listed_not_onBranch (receiptsPrefix_branch _ _) (by decide) huri (hverdict.onBranch V)
  have huris : jsonUris b₁ (receiptsPrefix V.netuid V.runId) =
      jsonUris b (receiptsPrefix V.netuid V.runId) := by
    rw [jsonUris_eq, jsonUris_eq, h.name]
    apply SortedDict.filter_keys_congr
    intro uri huri
    rw [hobjects uri huri]
  have hload : ∀ uri ∈ jsonUris b (receiptsPrefix V.netuid V.runId),
      loadReceipt H.libraries.platform b₁ uri = loadReceipt H.libraries.platform b uri := by
    intro uri huri
    exact loadReceipt_congr (hobjects uri (mem_jsonUris.mp huri).2)
  have hlisted : (listedReceipts H V b).map Prod.snd =
      (jsonUris b (receiptsPrefix V.netuid V.runId)).filterMap fun uri =>
        (loadReceipt H.libraries.platform b₁ uri).toOption := by
    unfold listedReceipts
    rw [List.map_filterMap]
    apply List.filterMap_congr
    intro uri huri
    rw [hload uri huri]
    cases (loadReceipt H.libraries.platform b uri).toOption <;> rfl
  unfold loadReceipts
  rw [ha.netuid, ha.runId, huris, mapM_eq_ok, hlisted]
  refine and_congr_left fun _ => forall₂_congr fun uri huri => ?_
  rw [hload uri huri]

theorem loadVerdicts_eq_ok {p : Platform β} {verdicts : List VerificationVerdictV3} :
    loadVerdicts p b a = .ok verdicts ↔
      (∀ uri ∈ jsonUris b (verdictsPrefix a.netuid a.runId), ∃ o, loadVerdict p b a uri = .ok o) ∧
      verdicts = (jsonUris b (verdictsPrefix a.netuid a.runId)).filterMap fun uri =>
        (loadVerdict p b a uri).toOption.bind id := by
  unfold loadVerdicts
  rw [bind_eq_ok]
  constructor
  · rintro ⟨loaded, hloaded, h⟩
    obtain ⟨hall, rfl⟩ := mapM_eq_ok.mp hloaded
    cases h
    exact ⟨hall, List.filterMap_filterMap⟩
  · rintro ⟨hall, rfl⟩
    refine ⟨_, mapM_eq_ok.mpr ⟨hall, rfl⟩, ?_⟩
    rw [← List.filterMap_filterMap]
    rfl

theorem loadVerdict_congr {p : Platform β} {uri : String}
    (h : b'.objects.find? uri = b.objects.find? uri) :
    loadVerdict p b' a uri = loadVerdict p b a uri := by
  unfold loadVerdict Bucket.getJson
  rw [Bucket.get_congr h]

theorem listedVerdict_not_isUnder (ha : SameRun V a) {bucket uri : String}
    (h : isListed bucket (verdictsPrefix a.netuid a.runId) uri = true) :
    isUnder V hotkey bucket uri = false := by
  by_contra hunder
  rw [ha.netuid, ha.runId] at h
  exact listed_not_onBranch (verdictsPrefix_branch _ _) (by decide) h
    (isUnder_onBranch (Bool.eq_true_of_not_eq_false hunder))

theorem OwnOrAbsent.loads (h : OwnOrAbsent H V hotkey b b₁ uri)
    (hp : H.libraries.platform.Lawful) (hV : AsciiSigner V)
    (hfind : b₁.objects.find? uri ≠ none) :
    ∃ loaded, loadVerdict H.libraries.platform b₁ a uri = .ok loaded ∧
      ∀ v, loaded = some v → ∃ item ∈ ownReceipts H V hotkey b,
        v.receiptId = item.2.receiptId := by
  rcases h with habsent | ⟨item, hitem, v, hv, hvalid, hbody⟩
  · exact absurd habsent hfind
  · obtain ⟨loaded, hloaded, hid⟩ := loadVerdict_of_verify hp hV a hv
      (Bucket.get_eq_ok.mpr ⟨hvalid, hbody⟩)
    exact ⟨loaded, hloaded, fun w hw => ⟨item, hitem, hid w hw⟩⟩

theorem HarmlessChange.verdicts_load (h : HarmlessChange H V hotkey b b')
    (hp : H.libraries.platform.Lawful) (hV : AsciiSigner V) (hrate : 1 ≤ V.sampleRate)
    (ha : SameRun V a) (hw : Writes H V (sampleReceipts H V b) b b₁)
    (hw' : Writes H V (sampleReceipts H V b') b' b₁')
    (hload : ∀ uri ∈ jsonUris b₁ (verdictsPrefix a.netuid a.runId),
      ∃ o, loadVerdict H.libraries.platform b₁ a uri = .ok o) :
    ∀ uri ∈ jsonUris b₁' (verdictsPrefix a.netuid a.runId),
      ∃ o, loadVerdict H.libraries.platform b₁' a uri = .ok o := by
  intro uri huri
  obtain ⟨hfind, hlisted⟩ := mem_jsonUris.mp huri
  have hname : b₁'.name = b₁.name := hw'.name.trans (h.agree.name.trans hw.name.symm)
  rw [hname, hw.name] at hlisted
  rcases h.same_or_own hp hrate hw hw' (listedVerdict_not_isUnder ha hlisted) with hsame | ⟨-, hown⟩
  · rw [loadVerdict_congr hsame]
    apply hload
    rw [hsame] at hfind
    rw [← hw.name] at hlisted
    exact mem_jsonUris.mpr ⟨hfind, hlisted⟩
  · obtain ⟨o, ho, -⟩ := hown.loads hp hV hfind
    exact ⟨o, ho⟩

theorem HarmlessChange.same_verdict (h : HarmlessChange H V hotkey b b')
    (hp : H.libraries.platform.Lawful) (hV : AsciiSigner V) (hrate : 1 ≤ V.sampleRate)
    (ha : SameRun V a) (hw : Writes H V (sampleReceipts H V b) b b₁)
    (hw' : Writes H V (sampleReceipts H V b') b' b₁') {verdicts verdicts' : List VerificationVerdictV3}
    (hverdicts : loadVerdicts H.libraries.platform b₁ a = .ok verdicts)
    (hverdicts' : loadVerdicts H.libraries.platform b₁' a = .ok verdicts')
    {item : String × JobReceiptV3} (hitem : item ∈ otherReceipts H V hotkey b) :
    (KeyedDict.ofList verdicts' : Verdicts).get? item.2.receiptId =
      (KeyedDict.ofList verdicts : Verdicts).get? item.2.receiptId := by
  classical
  have hname : b₁'.name = b₁.name := hw'.name.trans (h.agree.name.trans hw.name.symm)
  obtain ⟨-, rfl⟩ := loadVerdicts_eq_ok.mp hverdicts
  obtain ⟨-, rfl⟩ := loadVerdicts_eq_ok.mp hverdicts'
  let same : String → Bool := fun uri => b₁'.objects.find? uri = b₁.objects.find? uri
  have hdiffers : ∀ uri, isListed b₁.name (verdictsPrefix a.netuid a.runId) uri = true →
      same uri = false → OwnOrAbsent H V hotkey b b₁ uri ∧ OwnOrAbsent H V hotkey b' b₁' uri := by
    intro uri hlisted hdiff
    rw [hw.name] at hlisted
    rcases h.same_or_own hp hrate hw hw' (listedVerdict_not_isUnder ha hlisted) with heq | hown
    · exact absurd heq (by simpa [same] using hdiff)
    · exact hown
  -- a verdict that only one side has belongs to a receipt below the prefix
  have hleft : ∀ uri ∈ jsonUris b₁ (verdictsPrefix a.netuid a.runId), same uri = false →
      ∀ v, (loadVerdict H.libraries.platform b₁ a uri).toOption.bind id = some v →
        v.receiptId ≠ item.2.receiptId := by
    intro uri huri hdiff v hv
    obtain ⟨hfind, hlisted⟩ := mem_jsonUris.mp huri
    obtain ⟨loaded, hloaded, hids⟩ := (hdiffers uri hlisted hdiff).1.loads (a := a) hp hV hfind
    rw [hloaded] at hv
    obtain ⟨own, hown, hid⟩ := hids v hv
    rw [hid]
    exact (h.own.ids own hown item hitem).1
  have hright : ∀ uri ∈ jsonUris b₁' (verdictsPrefix a.netuid a.runId), same uri = false →
      ∀ v, (loadVerdict H.libraries.platform b₁' a uri).toOption.bind id = some v →
        v.receiptId ≠ item.2.receiptId := by
    intro uri huri hdiff v hv
    obtain ⟨hfind, hlisted⟩ := mem_jsonUris.mp huri
    rw [hname] at hlisted
    obtain ⟨loaded, hloaded, hids⟩ := (hdiffers uri hlisted hdiff).2.loads (a := a) hp hV hfind
    rw [hloaded] at hv
    obtain ⟨own, hown, hid⟩ := hids v hv
    rw [hid]
    refine (h.own'.ids own hown item ?_).1
    rw [otherReceipts_eq h.agree]
    exact hitem
  rw [KeyedDict.get?_ofList, KeyedDict.get?_ofList,
    KeyedDict.latest_filterMap_filter _ same hleft, KeyedDict.latest_filterMap_filter _ same hright]
  have huris : (jsonUris b₁' (verdictsPrefix a.netuid a.runId)).filter same =
      (jsonUris b₁ (verdictsPrefix a.netuid a.runId)).filter same := by
    rw [jsonUris_eq, jsonUris_eq, hname, List.filter_filter, List.filter_filter]
    apply SortedDict.filter_keys_congr
    intro uri huri
    rw [of_decide_eq_true (Bool.and_eq_true_iff.mp huri).1]
  rw [huris]
  congr 1
  apply List.filterMap_congr
  intro uri huri
  rw [loadVerdict_congr (of_decide_eq_true (List.mem_filter.mp huri).2)]

end Loading

section Windows

variable {H : Host β τ} {V : ValidatorConfig β} {hotkey : String} {b b' b₁ c c₁ : Bucket β}
variable {a : ScoreArgs}

def ownIds (H : Host β τ) (V : ValidatorConfig β) (hotkey : String) (b : Bucket β) :
    List String := (ownReceipts H V hotkey b).map (·.2.receiptId)

def isOther (H : Host β τ) (V : ValidatorConfig β) (hotkey : String) (b : Bucket β)
    (receiptId : String) : Bool := receiptId ∉ ownIds H V hotkey b

theorem isOther_eq (h : KeepsToItself H V hotkey b) {item : String × JobReceiptV3}
    (hitem : item ∈ listedReceipts H V b) :
    isOther H V hotkey b item.2.receiptId = !isUnder V hotkey b.name item.1 := by
  rcases mem_own_or_other hotkey hitem with hi | hi
  · have hin : item.2.receiptId ∈ ownIds H V hotkey b := List.mem_map_of_mem hi
    rw [(List.mem_filter.mp hi).2]
    simpa [isOther] using hin
  · have hnot : item.2.receiptId ∉ ownIds H V hotkey b := by
      intro hin
      obtain ⟨own, hown, hid⟩ := List.mem_map.mp hin
      exact (h.ids own hown item hi).1 hid
    rw [(List.mem_filter.mp hi).2]
    simpa [isOther] using hnot

theorem filter_receipts (h : KeepsToItself H V hotkey b) :
    (KeyedDict.ofList ((listedReceipts H V b).map Prod.snd) : Receipts).vals.filter
        (fun r => isOther H V hotkey b r.receiptId) =
      (KeyedDict.ofList ((otherReceipts H V hotkey b).map Prod.snd) : Receipts).vals := by
  rw [KeyedDict.filter_vals_ofList, List.filter_map]
  congr 3
  unfold otherReceipts
  apply List.filter_congr
  intro item hitem
  exact isOther_eq h hitem

theorem receipt_cases (h : KeepsToItself H V hotkey b) {r : JobReceiptV3}
    (hr : r ∈ (KeyedDict.ofList ((listedReceipts H V b).map Prod.snd) : Receipts).vals) :
    ∃ uri, (isOther H V hotkey b r.receiptId = false → (uri, r) ∈ ownReceipts H V hotkey b) ∧
      (isOther H V hotkey b r.receiptId = true → (uri, r) ∈ otherReceipts H V hotkey b) := by
  obtain ⟨item, hitem, rfl⟩ := List.mem_map.mp (KeyedDict.mem_of_mem_ofList hr)
  refine ⟨item.1, ?_, ?_⟩
  · intro ho
    rw [isOther_eq h hitem] at ho
    exact List.mem_filter.mpr ⟨hitem, by simpa using ho⟩
  · intro ho
    rw [isOther_eq h hitem] at ho
    exact List.mem_filter.mpr ⟨hitem, ho⟩

theorem erasable (b₁ : Bucket β) (verdicts verdicts₀ : Verdicts) (h : KeepsToItself H V hotkey c)
    (hagree : AgreeOn (fun uri => ¬ IsVerdictUri V c.name uri) c c₁)
    (hmanifest : ∀ item ∈ otherReceipts H V hotkey c,
      manifestOf H.libraries.platform c₁ V.netuid item.2 =
        manifestOf H.libraries.platform b₁ V.netuid item.2)
    (hgraph : ∀ item ∈ otherReceipts H V hotkey c, ∀ m,
      manifestOf H.libraries.platform c₁ V.netuid item.2 = some m →
        graphOf H.libraries.platform c₁ m = graphOf H.libraries.platform b₁ m)
    (hverdict : ∀ item ∈ otherReceipts H V hotkey c,
      verdicts.get? item.2.receiptId = verdicts₀.get? item.2.receiptId) :
    Erasable H.libraries.platform V.netuid ⟨c₁, verdicts⟩ ⟨b₁, verdicts₀⟩
      (KeyedDict.ofList ((listedReceipts H V c).map Prod.snd) : Receipts).vals
      (fun r => isOther H V hotkey c r.receiptId) hotkey := by
  have hstored : ∀ r, manifestOf H.libraries.platform c₁ V.netuid r =
      manifestOf H.libraries.platform c V.netuid r :=
    fun r => manifestOf_agree hagree (manifestUri_not_isVerdict _ _)
  refine ⟨?_, ?_, ?_, ?_, ?_, ?_⟩
  · intro r hr ho
    obtain ⟨uri, hown, -⟩ := receipt_cases h hr
    obtain ⟨hlisted, hunder⟩ := List.mem_filter.mp (hown ho)
    obtain ⟨huri, hload⟩ := mem_listedReceipts.mp hlisted
    have hnamed := h.named uri huri hunder
    rw [hload] at hnamed
    exact Option.some.inj hnamed
  · intro r hr ho r' hr' ho'
    obtain ⟨uri, hown, -⟩ := receipt_cases h hr
    obtain ⟨uri', -, hother⟩ := receipt_cases h hr'
    exact h.jobs (uri, r) (hown ho) (uri', r') (hother ho')
  · intro r hr ho r' hr' ho' m m' hm hm'
    obtain ⟨uri, hown, -⟩ := receipt_cases h hr
    obtain ⟨uri', -, hother⟩ := receipt_cases h hr'
    have hm₀ := (hstored r).symm.trans hm
    have hm₀' := (hstored r').symm.trans hm'
    exact h.graphs (uri, r) (hown ho) (uri', r') (hother ho') m hm₀ m' hm₀'
  · intro r hr ho
    obtain ⟨uri, -, hother⟩ := receipt_cases h hr
    exact hmanifest (uri, r) (hother ho)
  · intro r hr ho m hm
    obtain ⟨uri, -, hother⟩ := receipt_cases h hr
    exact hgraph (uri, r) (hother ho) m hm
  · intro r hr ho
    obtain ⟨uri, -, hother⟩ := receipt_cases h hr
    exact hverdict (uri, r) (hother ho)

theorem scoringPass_eq_ok {windows : Windows} :
    (∃ b₂, scoringPass H V b a = .ok (windows, b₂)) ↔
      ∃ b₁, Writes H V (sampleReceipts H V b) b b₁ ∧
        ∃ b₂, summarizeScores H.libraries.platform b₁ a = .ok (windows, b₂) := by
  unfold scoringPass runOnce
  constructor
  · rintro ⟨b₂, h⟩
    obtain ⟨⟨n, b₁⟩, hrun, h⟩ := bind_eq_ok.mp h
    exact ⟨b₁, writes_of_writeVerdicts H V hrun, b₂, h⟩
  · rintro ⟨b₁, hw, b₂, h⟩
    obtain ⟨n, hrun⟩ := writeVerdicts_of_writes H V hw 0
    exact ⟨b₂, bind_eq_ok.mpr ⟨(n, b₁), hrun, h⟩⟩

theorem HarmlessChange.same_lookups (h : HarmlessChange H V hotkey b b')
    (hp : H.libraries.platform.Lawful) {b₁' : Bucket β}
    (hagree : AgreeOn (fun uri => ¬ IsVerdictUri V b.name uri) b b₁)
    (hagree' : AgreeOn (fun uri => ¬ IsVerdictUri V b'.name uri) b' b₁')
    {item : String × JobReceiptV3} (hitem : item ∈ otherReceipts H V hotkey b) :
    manifestOf H.libraries.platform b₁' V.netuid item.2 =
        manifestOf H.libraries.platform b₁ V.netuid item.2 ∧
      ∀ m, manifestOf H.libraries.platform b₁' V.netuid item.2 = some m →
        graphOf H.libraries.platform b₁' m = graphOf H.libraries.platform b₁ m := by
  have hboth := h.agree_both hagree'
  have hmanifest : manifestOf H.libraries.platform b₁' V.netuid item.2 =
      manifestOf H.libraries.platform b V.netuid item.2 :=
    manifestOf_agree hboth ⟨manifestUri_not_isUnder _ _, manifestUri_not_isVerdict _ _⟩
  refine ⟨hmanifest.trans (manifestOf_agree hagree (manifestUri_not_isVerdict _ _)).symm, ?_⟩
  intro m hm
  rw [hmanifest] at hm
  have hread := h.others.reads item hitem _ (graphUri_mem_keysRead hp (listed_of_other hitem) hm)
  rw [graphOf_agree hboth hread, graphOf_agree hagree hread.2]

end Windows

section Foreign

open PassedReceipts

def scoringHost : Host Json ℤ where
  libraries := { scalarLibraries with platform := plainPlatform }
  draws := fun _ i => i
  auditTimes := fun _ => ⟨.finite 1, .finite 2⟩
  verdictUnix := fun _ => .finite 3

def validator : ValidatorConfig Json := { netuid := 0, runId := "r", validatorHotkey := "v" }

def scoreArgs : ScoreArgs := { netuid := 0, runId := "r" }

def idleJob : JobManifestV3 :=
  JobManifestV3.sign plainPlatform
    { jobId := "j", runId := "r", stepId := 0, kind := "train"
      graphRef := { sha256 := ({} : GraphIr.Graph).graphId plainPlatform, uri := "s3://b/g" }
      params := [], inputs := [], outputs := [], assignedHotkey := "A", assignedWorker := none
      attempt := 0, deadlineUnix := 0, createdUnix := 0 }
    (.secret "owner-dev-secret")

def idleReceipt (receiptId hotkey jobId : String) : JobReceiptV3 :=
  plainReceipt receiptId hotkey jobId (idleJob.manifestHash plainPlatform)

def signedReceipt (receiptId hotkey jobId : String) : JobReceiptV3 :=
  (idleReceipt receiptId hotkey jobId).sign plainPlatform (.secret "miner-dev-secret")

def jobBucket : Bucket Json where
  name := "b"
  objects := .ofEntries
    [("s3://b/g", ({} : GraphIr.Graph).toDict),
     (joinUri "b" (jobManifestKey 0 "r" "j"), idleJob.toDict plainPlatform)]

def withObject (b : Bucket Json) (hotkey : String) (body : Json) : Bucket Json :=
  { b with objects := b.objects.insert (joinUri "b" (receiptKey 0 "r" hotkey "j" 0)) body }

variable {b : Bucket Json}

theorem addedUnder_withObject (hb : b.name = "b") (body : Json) :
    AddedUnder validator "B" b (withObject b "B" body) := by
  have hunder : isUnder validator "B" "b" (joinUri "b" (receiptKey 0 "r" "B" "j" 0)) = true := by
    decide +kernel
  refine ⟨⟨rfl, ?_⟩, ?_⟩
  · intro uri huri
    rw [hb] at huri
    have hne : uri ≠ joinUri "b" (receiptKey 0 "r" "B" "j" 0) := by
      rintro rfl
      exact absurd (huri.symm.trans hunder) Bool.false_ne_true
    exact (SortedDict.find?_insert _ _ _ _).trans (if_neg hne)
  · intro uri huri
    have hfind := (SortedDict.find?_insert b.objects _ uri body).symm.trans huri
    split_ifs at hfind
    exact hfind

def windowAfter (b : Bucket Json) (hotkey : String) : Option (Option MinerScoreWindow) :=
  (scoringPass scoringHost validator b scoreArgs).toOption.map fun out => out.1.get? hotkey

theorem windowAfter_eq {hotkey : String} {w : Option MinerScoreWindow}
    (h : windowAfter b hotkey = some w) :
    ∃ windows b₂, scoringPass scoringHost validator b scoreArgs = .ok (windows, b₂) ∧
      windows.get? hotkey = w := by
  obtain ⟨out, hout, hw⟩ := Option.map_eq_some_iff.mp h
  exact ⟨out.1, out.2, toOption_eq_some.mp hout, hw⟩

theorem not_sameScores {b' : Bucket Json} {w : Option MinerScoreWindow}
    (hb : windowAfter b "A" = some w) (hb' : windowAfter b' "A" ≠ some w) :
    ¬ SameScores scoringHost validator "B" scoreArgs b b' := by
  intro hsame
  obtain ⟨windows, b₂, hpass, hw⟩ := windowAfter_eq hb
  obtain ⟨windows', b₂', hpass', hothers⟩ := hsame windows b₂ hpass
  apply hb'
  rw [windowAfter, hpass']
  exact congrArg some ((hothers "A" (by decide)).trans hw)

def uriOf (hotkey : String) : String := joinUri "b" (receiptKey 0 "r" hotkey "j" 0)

theorem find?_withObject (b : Bucket Json) (hotkey uri : String) (body : Json) :
    (withObject b hotkey body).objects.find? uri =
      if uri = uriOf hotkey then some body else b.objects.find? uri :=
  SortedDict.find?_insert _ _ _ _

def honestBucket : Bucket Json := withObject jobBucket "A" (signedReceipt "x" "A" "j").toDict

/-- The honest bucket with a receipt of `B` for the same job, under an id of its own. -/
def sharedBucket : Bucket Json := withObject honestBucket "B" (signedReceipt "z" "B" "j").toDict

theorem signedReceipt_loads {uri receiptId hotkey jobId : String}
    (hvalid : ValidUri uri)
    (h : b.objects.find? uri = some (signedReceipt receiptId hotkey jobId).toDict) :
    loadReceipt plainPlatform b uri = .ok (signedReceipt receiptId hotkey jobId) :=
  loadReceipt_plain (Bucket.get_eq_ok.mpr ⟨hvalid, h⟩)
    (plainReceipt_wellTyped receiptId hotkey jobId (idleJob.manifestHash plainPlatform))

theorem uri_facts :
    (ValidUri (uriOf "A") ∧ ValidUri (uriOf "B")) ∧ uriOf "A" ≠ uriOf "B" ∧
    (isUnder validator "B" "b" (uriOf "A") = false ∧
      isUnder validator "B" "b" (uriOf "B") = true) ∧
    jsonUris honestBucket (receiptsPrefix 0 "r") = [uriOf "A"] ∧
    jsonUris sharedBucket (receiptsPrefix 0 "r") = [uriOf "A", uriOf "B"] ∧
    verdictUri validator "b" (signedReceipt "z" "B" "j") ≠
      verdictUri validator "b" (signedReceipt "x" "A" "j") := by
  decide +kernel

theorem uriOf_valid : ValidUri (uriOf "A") ∧ ValidUri (uriOf "B") := uri_facts.1

theorem uriOf_ne : uriOf "A" ≠ uriOf "B" := uri_facts.2.1

theorem isUnder_uriOf : isUnder validator "B" "b" (uriOf "A") = false ∧
    isUnder validator "B" "b" (uriOf "B") = true := uri_facts.2.2.1

theorem honest_loads :
    loadReceipt plainPlatform honestBucket (uriOf "A") = .ok (signedReceipt "x" "A" "j") := by
  refine signedReceipt_loads uriOf_valid.1 ?_
  rw [honestBucket, find?_withObject, if_pos rfl]

theorem shared_loads :
    loadReceipt plainPlatform sharedBucket (uriOf "A") = .ok (signedReceipt "x" "A" "j") ∧
    loadReceipt plainPlatform sharedBucket (uriOf "B") = .ok (signedReceipt "z" "B" "j") := by
  constructor
  · refine signedReceipt_loads uriOf_valid.1 ?_
    rw [sharedBucket, find?_withObject, if_neg uriOf_ne, honestBucket, find?_withObject, if_pos rfl]
  · refine signedReceipt_loads uriOf_valid.2 ?_
    rw [sharedBucket, find?_withObject, if_pos rfl]

theorem honest_uris : jsonUris honestBucket (receiptsPrefix 0 "r") = [uriOf "A"] :=
  uri_facts.2.2.2.1

theorem shared_uris : jsonUris sharedBucket (receiptsPrefix 0 "r") = [uriOf "A", uriOf "B"] :=
  uri_facts.2.2.2.2.1

theorem honest_receipts :
    ownReceipts scoringHost validator "B" honestBucket = [] ∧
    otherReceipts scoringHost validator "B" honestBucket =
      [(uriOf "A", signedReceipt "x" "A" "j")] := by
  have hlisted : listedReceipts scoringHost validator honestBucket =
      [(uriOf "A", signedReceipt "x" "A" "j")] := by
    change (jsonUris honestBucket (receiptsPrefix 0 "r")).filterMap (fun uri =>
      (loadReceipt plainPlatform honestBucket uri).toOption.map (uri, ·)) = _
    rw [honest_uris, List.filterMap_cons, honest_loads]
    rfl
  have hname : honestBucket.name = "b" := rfl
  unfold ownReceipts otherReceipts
  rw [hlisted, hname]
  simp [isUnder_uriOf.1]

theorem shared_listed : listedReceipts scoringHost validator sharedBucket =
    [(uriOf "A", signedReceipt "x" "A" "j"), (uriOf "B", signedReceipt "z" "B" "j")] := by
  change (jsonUris sharedBucket (receiptsPrefix 0 "r")).filterMap (fun uri =>
    (loadReceipt plainPlatform sharedBucket uri).toOption.map (uri, ·)) = _
  rw [shared_uris, List.filterMap_cons, shared_loads.1, List.filterMap_cons, shared_loads.2]
  rfl

theorem shared_receipts :
    ownReceipts scoringHost validator "B" sharedBucket =
      [(uriOf "B", signedReceipt "z" "B" "j")] ∧
    otherReceipts scoringHost validator "B" sharedBucket =
      [(uriOf "A", signedReceipt "x" "A" "j")] := by
  have hname : sharedBucket.name = "b" := rfl
  unfold ownReceipts otherReceipts
  rw [shared_listed, hname]
  simp [isUnder_uriOf.1, isUnder_uriOf.2]

theorem honest_keepsToItself : KeepsToItself scoringHost validator "B" honestBucket := by
  constructor
  · intro uri huri hunder
    change uri ∈ jsonUris honestBucket (receiptsPrefix 0 "r") at huri
    rw [honest_uris, List.mem_singleton] at huri
    subst huri
    exact absurd (isUnder_uriOf.1.symm.trans hunder) Bool.false_ne_true
  all_goals
    intro own hown
    rw [honest_receipts.1] at hown
    cases hown

theorem shared_keepsToItself : KeepsToItself scoringHost validator "B" sharedBucket := by
  have hpaths : verdictUri validator "b" (signedReceipt "z" "B" "j") ≠
      verdictUri validator "b" (signedReceipt "x" "A" "j") := uri_facts.2.2.2.2.2
  constructor
  · intro uri huri hunder
    change uri ∈ jsonUris sharedBucket (receiptsPrefix 0 "r") at huri
    rw [shared_uris, List.mem_pair] at huri
    rcases huri with rfl | rfl
    · exact absurd (isUnder_uriOf.1.symm.trans hunder) Bool.false_ne_true
    · change (loadReceipt plainPlatform sharedBucket (uriOf "B")).toOption.map _ = _
      rw [shared_loads.2]
      rfl
  all_goals
    intro own hown other hother
    rw [shared_receipts.1, List.mem_singleton] at hown
    rw [shared_receipts.2, List.mem_singleton] at hother
    subst hown hother
  · exact ⟨by decide, hpaths⟩
  · exact fun _ => rfl
  · intro m hm m' hm' _
    have hsame : manifestOf plainPlatform sharedBucket 0 (signedReceipt "z" "B" "j") =
        manifestOf plainPlatform sharedBucket 0 (signedReceipt "x" "A" "j") :=
      manifestOf_congr rfl rfl
    have heq : m = m' := Option.some.inj (hm.symm.trans (hsame.trans hm'))
    rw [heq]

theorem harmless_receipt :
    HarmlessChange scoringHost validator "B" honestBucket sharedBucket where
  agree := (addedUnder_withObject rfl _).agree
  own := honest_keepsToItself
  own' := shared_keepsToItself
  auditable := by
    intro item hitem
    rw [shared_receipts.1, List.mem_singleton] at hitem
    subst hitem
    constructor <;> decide +kernel
  others := by
    constructor
    · rw [honest_receipts.2]
      exact List.pairwise_singleton _ _
    · rw [honest_receipts.2]
      decide +kernel

end Foreign

end ScoreIsolation

import Teuton.ScoreWindows

/-! Which verdict pays for a receipt. The score loop joins receipts and verdicts by receipt id
alone, so a pass pays whatever receipt was listed last under its id. The credit is bound to a
verdict for that very receipt exactly when the latest receipt and the latest verdict of each id
belong together in this sense. -/
namespace VerdictBinding

open PyJson Signatures ObjectStore BucketPaths Protocol ScoreWindows

variable {β : Type}

def passCuOf (windows : Windows) (hotkey : String) : ℚ :=
  ((windows.get? hotkey).map MinerScoreWindow.passCu).getD 0

/-- The bucket holds this verdict under the run's prefix and its signature verifies. -/
def HoldsVerdict (p : Platform β) (b : Bucket β) (a : ScoreArgs) (v : VerificationVerdictV3) :
    Prop :=
  ∃ uri ∈ jsonUris b (verdictsPrefix a.netuid a.runId), loadVerdict p b a uri = .ok (some v)

/-- A pass issued for the hotkey, job and manifest of this receipt. -/
structure IssuedFor (v : VerificationVerdictV3) (r : JobReceiptV3) : Prop where
  status : v.status = "pass"
  receiptId : v.receiptId = r.receiptId
  minerHotkey : v.minerHotkey = r.worker.hotkeySs58
  jobId : v.jobId = r.jobId
  manifestHash : v.manifestHash = r.manifestHash

/-- Every step of the loop that adds to `pass_cu` of a hotkey is the step of a receipt of that
hotkey for which the bucket holds a pass. -/
def CreditsBound (p : Platform β) (b : Bucket β) (a : ScoreArgs) : Prop :=
  ∀ receipts verdicts, loadReceipts p b a = .ok receipts → loadVerdicts p b a = .ok verdicts →
    ∀ pre r post, (KeyedDict.ofList receipts : Receipts).vals = pre ++ r :: post →
      ∀ hotkey, passCuOf (scoreReceipts p b a (.ofList verdicts) pre).windows hotkey ≠
          passCuOf (scoreReceipts p b a (.ofList verdicts) (pre ++ [r])).windows hotkey →
        r.worker.hotkeySs58 = hotkey ∧ ∃ v, HoldsVerdict p b a v ∧ IssuedFor v r

/-- Wherever the verdict listed last under a receipt id is a pass, the receipt listed last under
this id agrees in hotkey, job and manifest with some pass in the bucket. -/
def LatestAgree (p : Platform β) (b : Bucket β) (a : ScoreArgs) : Prop :=
  ∀ receipts verdicts, loadReceipts p b a = .ok receipts → loadVerdicts p b a = .ok verdicts →
    ∀ id r v, KeyedDict.latest JobReceiptV3.receiptId id receipts = some r →
      KeyedDict.latest VerificationVerdictV3.receiptId id verdicts = some v →
      v.status = "pass" → ∃ v', HoldsVerdict p b a v' ∧ IssuedFor v' r

theorem passCu_creditWindow (verdict : Option VerificationVerdictV3) (cu : ℚ)
    (w : MinerScoreWindow) :
    (creditWindow verdict cu w).passCu =
      w.passCu + if verdict.map VerificationVerdictV3.status = some "pass" then cu else 0 := by
  unfold creditWindow
  cases verdict with
  | none => simp
  | some v =>
    by_cases hpass : v.status = "pass"
    · simp [hpass]
    · by_cases hfail : v.status = "fail" <;> simp [hpass, hfail]

theorem passCu_windowOf (a : ScoreArgs) (windows : Windows) (hotkey : String) :
    (windowOf a windows hotkey).passCu = passCuOf windows hotkey := by
  unfold windowOf passCuOf
  cases windows.get? hotkey <;> rfl

theorem passCuOf_scoreReceipt (p : Platform β) (b : Bucket β) (a : ScoreArgs)
    (verdicts : Verdicts) (s : LoopState) (r : JobReceiptV3) (hotkey : String) :
    passCuOf (scoreReceipt p b a verdicts s r).windows hotkey =
      passCuOf s.windows hotkey +
        if r.worker.hotkeySs58 = hotkey ∧
            (verdicts.get? r.receiptId).map VerificationVerdictV3.status = some "pass"
        then (expectedCuForReceipt p b a.netuid r s.caches).1 else 0 := by
  rw [passCuOf, get?_scoreReceipt]
  by_cases h : r.worker.hotkeySs58 = hotkey
  · rw [if_pos h, Option.map_some, Option.getD_some, passCu_creditWindow, passCu_windowOf]
    simp [h]
  · simp [h, passCuOf]

theorem pays_iff (p : Platform β) (b : Bucket β) (a : ScoreArgs) (verdicts : Verdicts)
    (s : LoopState) (r : JobReceiptV3) (hotkey : String) :
    passCuOf s.windows hotkey ≠ passCuOf (scoreReceipt p b a verdicts s r).windows hotkey ↔
      r.worker.hotkeySs58 = hotkey ∧ ∃ v, verdicts.get? r.receiptId = some v ∧
        v.status = "pass" := by
  have hpos := expectedCuForReceipt_pos p b a.netuid r s.caches
  have hstatus : (verdicts.get? r.receiptId).map VerificationVerdictV3.status = some "pass" ↔
      ∃ v, verdicts.get? r.receiptId = some v ∧ v.status = "pass" := Option.map_eq_some_iff
  rw [passCuOf_scoreReceipt, ← hstatus]
  constructor
  · intro hne
    by_contra hno
    rw [if_neg hno, add_zero] at hne
    exact hne rfl
  · intro hpays heq
    rw [if_pos hpays] at heq
    linarith

theorem creditsBound_of_latestAgree {p : Platform β} {b : Bucket β} {a : ScoreArgs}
    (h : LatestAgree p b a) : CreditsBound p b a := by
  intro receipts verdicts hreceipts hverdicts pre r post hsplit hotkey hpays
  rw [scoreReceipts_append, pays_iff] at hpays
  obtain ⟨hhotkey, v, hv, hpass⟩ := hpays
  have hr : r ∈ (KeyedDict.ofList receipts : Receipts).vals := by simp [hsplit]
  have hlatest : (KeyedDict.ofList receipts : Receipts).get? r.receiptId = some r :=
    KeyedDict.get?_eq_some.mpr ⟨hr, rfl⟩
  rw [KeyedDict.get?_ofList] at hlatest hv
  exact ⟨hhotkey, h receipts verdicts hreceipts hverdicts _ r v hlatest hv hpass⟩

theorem latestAgree_of_creditsBound {p : Platform β} {b : Bucket β} {a : ScoreArgs}
    (h : CreditsBound p b a) : LatestAgree p b a := by
  intro receipts verdicts hreceipts hverdicts id r v hr hv hpass
  rw [← KeyedDict.get?_ofList] at hr hv
  obtain ⟨hmem, rfl⟩ := KeyedDict.get?_eq_some.mp hr
  obtain ⟨pre, post, hsplit⟩ := List.append_of_mem hmem
  have hpays : passCuOf (scoreReceipts p b a (.ofList verdicts) pre).windows
      r.worker.hotkeySs58 ≠ passCuOf (scoreReceipts p b a (.ofList verdicts)
        (pre ++ [r])).windows r.worker.hotkeySs58 := by
    rw [scoreReceipts_append, pays_iff]
    exact ⟨rfl, v, hv, hpass⟩
  exact (h receipts verdicts hreceipts hverdicts pre r post hsplit _ hpays).2

theorem pass_credit_bound_iff (p : Platform β) (b : Bucket β) (a : ScoreArgs) :
    CreditsBound p b a ↔ LatestAgree p b a := by
  constructor
  · intro hbound
    exact latestAgree_of_creditsBound hbound
  · intro hagree
    exact creditsBound_of_latestAgree hagree

def otherPass : VerificationVerdictV3 :=
  VerificationVerdictV3.sign plainPlatform
    { verdictId := "v:x", receiptId := "x", manifestHash := "h1", jobId := "j1", runId := "r",
      minerHotkey := "A", validatorHotkey := "v", status := "pass",
      reason := "all outputs matched", estimatedCu := .finite 1, replayComputeSec := .finite 0,
      checkedUnix := .finite 0 }
    (.secret "validator-dev-secret")

/-- The receipt that earned the pass is gone; one of hotkey `B` for another job carries its id. -/
def reusedIdBucket : Bucket Json where
  name := "b"
  objects := .ofEntries
    [(joinUri "b" (receiptKey 0 "r" "B" "j2" 0), (plainReceipt "x" "B" "j2" "h2").toDict),
     (joinUri "b" (verdictKey 0 "r" "v" "x"), otherPass.toDict)]

theorem reused_id_takes_credit :
    ¬ CreditsBound plainPlatform reusedIdBucket { netuid := 0, runId := "r" } := by
  have hreceipt : loadReceipt plainPlatform reusedIdBucket
      (joinUri "b" (receiptKey 0 "r" "B" "j2" 0)) = .ok (plainReceipt "x" "B" "j2" "h2") :=
    loadReceipt_plain rfl (plainReceipt_wellTyped _ _ _ _)
  have hvalid : verdictValid plainPlatform { netuid := 0, runId := "r" } otherPass = .ok true := by
    decide +kernel
  have hverdict : loadVerdict plainPlatform reusedIdBucket { netuid := 0, runId := "r" }
      (joinUri "b" (verdictKey 0 "r" "v" "x")) = .ok (some otherPass) := by
    refine loadVerdict_plain rfl ?_ hvalid
    exact canonical_obj_iff.mpr ⟨List.Pairwise.nil, by simp [otherPass, VerificationVerdictV3.sign]⟩
  have hreceiptUris : jsonUris reusedIdBucket (receiptsPrefix 0 "r") =
      [joinUri "b" (receiptKey 0 "r" "B" "j2" 0)] := by decide +kernel
  have hverdictUris : jsonUris reusedIdBucket (verdictsPrefix 0 "r") =
      [joinUri "b" (verdictKey 0 "r" "v" "x")] := by decide +kernel
  have hreceipts : loadReceipts plainPlatform reusedIdBucket { netuid := 0, runId := "r" } =
      .ok [plainReceipt "x" "B" "j2" "h2"] := by
    simp [loadReceipts, hreceiptUris, hreceipt]
  have hverdicts : loadVerdicts plainPlatform reusedIdBucket { netuid := 0, runId := "r" } =
      .ok [otherPass] := by
    simp [loadVerdicts, hverdictUris, hverdict]
  intro hbound
  obtain ⟨v, ⟨uri, huri, hload⟩, hissued⟩ := latestAgree_of_creditsBound hbound _ _ hreceipts
    hverdicts "x" (plainReceipt "x" "B" "j2" "h2") otherPass rfl rfl rfl
  rw [hverdictUris, List.mem_singleton] at huri
  rw [huri, hverdict] at hload
  cases hload
  exact absurd hissued.jobId (by decide)

end VerdictBinding

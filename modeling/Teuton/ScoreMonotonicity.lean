import Teuton.ScoreWindows
import Mathlib.Algebra.Order.BigOperators.Group.List
import Mathlib.Tactic.Linarith

/-! How the score of a miner moves with the verdicts on its receipts. The score is a function of
three sums: the compute units that passed, those that failed and those that were not decided. The
trust multiplier jumps where the first failure or the first pass appears; over all these cases a
better verdict never lowers the score. -/
namespace ScoreMonotonicity

open PyJson Signatures ObjectStore Protocol ScoreWindows

variable {β : Type}

/-! ### The score as a function of three sums -/

section Formula

def trust (passed failed : ℚ) : ℚ :=
  if passed + failed = 0 then 1 / 4
  else if 0 < failed then max 0 ((passed - 2 * failed) / (passed + failed))
  else 1

def score (passed failed unsampled : ℚ) : ℚ := passed + unsampled * trust passed failed

variable {P P' F F' U U' c : ℚ}

theorem trust_nonneg (P F : ℚ) : 0 ≤ trust P F := by
  unfold trust
  split_ifs
  · norm_num
  · exact le_max_left _ _
  · exact zero_le_one

theorem trust_of_failed (hP : 0 ≤ P) (hF : 0 < F) :
    trust P F = max 0 ((P - 2 * F) / (P + F)) := by
  have hsum : P + F ≠ 0 := by linarith
  rw [trust, if_neg hsum, if_pos hF]

theorem trust_of_passed (hP : 0 < P) : trust P 0 = 1 := by
  have hsum : P + 0 ≠ 0 := by linarith
  rw [trust, if_neg hsum, if_neg (lt_irrefl 0)]

theorem trust_zero : trust 0 0 = 1 / 4 := by
  rw [trust, if_pos (add_zero 0)]

theorem trust_le_one (hP : 0 ≤ P) (hF : 0 ≤ F) : trust P F ≤ 1 := by
  rcases hF.eq_or_lt with rfl | hF
  · rcases hP.eq_or_lt with rfl | hP
    · rw [trust_zero]
      norm_num
    · exact (trust_of_passed hP).le
  · rw [trust_of_failed hP hF, max_le_iff, div_le_one (by linarith)]
    exact ⟨zero_le_one, by linarith⟩

theorem trust_all_failed (hF : 0 < F) : trust 0 F = 0 := by
  rw [trust_of_failed le_rfl hF, max_eq_left]
  exact div_nonpos_of_nonpos_of_nonneg (by linarith) (by linarith)

theorem trust_mono (hP : 0 ≤ P) (hPP : P ≤ P') (hF' : 0 ≤ F') (hFF : F' ≤ F) :
    trust P F ≤ trust P' F' := by
  rcases hF'.eq_or_lt with rfl | hF'
  · rcases hP.eq_or_lt with rfl | hP
    · -- Nothing passed: trust is a quarter without failures and none with them.
      rcases hFF.eq_or_lt with rfl | hF
      · rcases hPP.eq_or_lt with rfl | hP'
        · exact le_rfl
        · rw [trust_zero, trust_of_passed hP']
          norm_num
      · rw [trust_all_failed hF]
        exact trust_nonneg _ _
    · rw [trust_of_passed (hP.trans_le hPP)]
      exact trust_le_one hP.le hFF
  · have hF : 0 < F := hF'.trans_le hFF
    have hP' : 0 ≤ P' := hP.trans hPP
    rw [trust_of_failed hP hF, trust_of_failed hP' hF']
    refine max_le_max le_rfl ?_
    rw [div_le_div_iff₀ (by linarith) (by linarith)]
    have hcross : P * F' ≤ P' * F := mul_le_mul hPP hFF hF'.le hP'
    linarith

theorem score_mono (hP : 0 ≤ P) (hPP : P ≤ P') (hF' : 0 ≤ F') (hFF : F' ≤ F) (hU : 0 ≤ U)
    (hUU : U ≤ U') : score P F U ≤ score P' F' U' := by
  have htrust := trust_mono hP hPP hF' hFF
  exact add_le_add hPP (mul_le_mul hUU htrust (trust_nonneg P F) (hU.trans hUU))

theorem score_pass (hP : 0 ≤ P) (hF : 0 ≤ F) (hU : 0 ≤ U) (hc : 0 ≤ c) :
    score P F (U + c) ≤ score (P + c) F U := by
  have hone : c * trust P F ≤ c := mul_le_of_le_one_right hc (trust_le_one hP hF)
  have hmono : U * trust P F ≤ U * trust (P + c) F :=
    mul_le_mul_of_nonneg_left (trust_mono hP (by linarith) hF le_rfl) hU
  calc score P F (U + c) = P + (U * trust P F + c * trust P F) := by rw [score, add_mul]
    _ ≤ P + (U * trust (P + c) F + c) := by linarith
    _ = score (P + c) F U := by rw [score]; ring

end Formula

/-! ### Collections of receipts -/

section Collections

inductive Outcome where
  | fail
  | inconclusive
  | unsampled
  | pass
  deriving DecidableEq

namespace Outcome

def rank : Outcome → ℕ
  | fail => 0
  | inconclusive => 1
  | unsampled => 2
  | pass => 3

def passed : Outcome → ℚ → ℚ
  | pass, cu => cu
  | _, _ => 0

def failed : Outcome → ℚ → ℚ
  | fail, cu => cu
  | _, _ => 0

def undecided : Outcome → ℚ → ℚ
  | unsampled, cu => cu
  | inconclusive, cu => cu * (1 / 2)
  | _, _ => 0

variable {cu : ℚ}

theorem parts_nonneg (hcu : 0 ≤ cu) (o : Outcome) :
    0 ≤ o.passed cu ∧ 0 ≤ o.failed cu ∧ 0 ≤ o.undecided cu := by
  cases o <;> simp [passed, failed, undecided, hcu]

theorem parts_le (hcu : 0 ≤ cu) (o : Outcome) : o.passed cu + o.undecided cu ≤ cu := by
  cases o <;> simp only [passed, undecided] <;> linarith

theorem score_le {P F U : ℚ} (hP : 0 ≤ P) (hF : 0 ≤ F) (hU : 0 ≤ U) (hcu : 0 ≤ cu)
    {o o' : Outcome} (h : o.rank ≤ o'.rank) :
    score (o.passed cu + P) (o.failed cu + F) (o.undecided cu + U) ≤
      score (o'.passed cu + P) (o'.failed cu + F) (o'.undecided cu + U) := by
  obtain ⟨hpassed, hfailed, hundecided⟩ := parts_nonneg hcu o
  by_cases hbetter : o' = pass ∧ o ≠ pass
  · obtain ⟨rfl, hne⟩ := hbetter
    have hpassed : o.passed cu = 0 := by cases o <;> simp_all [passed]
    have hle : o.undecided cu ≤ cu := by linarith [parts_le hcu o]
    calc score (o.passed cu + P) (o.failed cu + F) (o.undecided cu + U)
        ≤ score P F (U + o.undecided cu) := by
          rw [hpassed, zero_add]
          exact score_mono hP le_rfl hF (by linarith) (by linarith) (by linarith)
      _ ≤ score (P + o.undecided cu) F U := score_pass hP hF hU hundecided
      _ ≤ score (cu + P) (0 + F) (0 + U) :=
          score_mono (by linarith) (by linarith) (by linarith) (by linarith) hU (by linarith)
  · -- No unit leaves the undecided ones, and none enters the failed ones.
    obtain ⟨_, hfailed', _⟩ := parts_nonneg hcu o'
    have hparts : o.passed cu ≤ o'.passed cu ∧ o'.failed cu ≤ o.failed cu ∧
        o.undecided cu ≤ o'.undecided cu := by
      cases o <;> cases o' <;> simp_all [rank, passed, failed, undecided]; linarith
    exact score_mono (by linarith) (by linarith) (by linarith) (by linarith) (by linarith)
      (by linarith)

end Outcome

structure Counted where
  outcome : Outcome
  cu : ℚ
  pos : 0 < cu
  deriving DecidableEq

def passedSum (l : List Counted) : ℚ := (l.map fun x => x.outcome.passed x.cu).sum

def failedSum (l : List Counted) : ℚ := (l.map fun x => x.outcome.failed x.cu).sum

def undecidedSum (l : List Counted) : ℚ := (l.map fun x => x.outcome.undecided x.cu).sum

def cuSum (l : List Counted) : ℚ := (l.map Counted.cu).sum

def collectionScore (l : List Counted) : ℚ := score (passedSum l) (failedSum l) (undecidedSum l)

variable {l l' : List Counted} {x x' : Counted}

theorem sums_nonneg (l : List Counted) :
    0 ≤ passedSum l ∧ 0 ≤ failedSum l ∧ 0 ≤ undecidedSum l := by
  refine ⟨List.sum_nonneg ?_, List.sum_nonneg ?_, List.sum_nonneg ?_⟩
  all_goals
    intro q hq
    obtain ⟨x, -, rfl⟩ := List.mem_map.mp hq
    have hparts := Outcome.parts_nonneg x.pos.le x.outcome
  · exact hparts.1
  · exact hparts.2.1
  · exact hparts.2.2

theorem collectionScore_perm (h : l.Perm l') : collectionScore l = collectionScore l' := by
  rw [collectionScore, collectionScore, passedSum, failedSum, undecidedSum,
    (h.map _).sum_eq, (h.map _).sum_eq, (h.map _).sum_eq]
  rfl

theorem collectionScore_cons (x : Counted) (l : List Counted) :
    collectionScore (x :: l) = score (x.outcome.passed x.cu + passedSum l)
      (x.outcome.failed x.cu + failedSum l) (x.outcome.undecided x.cu + undecidedSum l) := rfl

def Improves (l l' : List Counted) : Prop :=
  ∃ x x' rest, l.Perm (x :: rest) ∧ l'.Perm (x' :: rest) ∧ x'.cu = x.cu ∧
    x.outcome.rank ≤ x'.outcome.rank

def AddsFailure (l l' : List Counted) : Prop :=
  ∃ x : Counted, x.outcome = .fail ∧ l'.Perm (x :: l)

theorem collectionScore_improves (h : Improves l l') : collectionScore l ≤ collectionScore l' := by
  obtain ⟨x, x', rest, hl, hl', hcu, hrank⟩ := h
  obtain ⟨hP, hF, hU⟩ := sums_nonneg rest
  rw [collectionScore_perm hl, collectionScore_perm hl', collectionScore_cons,
    collectionScore_cons, hcu]
  exact Outcome.score_le hP hF hU x.pos.le hrank

theorem collectionScore_addsFailure (h : AddsFailure l l') :
    collectionScore l' ≤ collectionScore l := by
  obtain ⟨x, hfail, hl'⟩ := h
  obtain ⟨hP, hF, hU⟩ := sums_nonneg l
  have hpos := x.pos
  rw [collectionScore_perm hl', collectionScore_cons, hfail]
  exact score_mono (by simpa [Outcome.passed]) (by simp [Outcome.passed]) hF
    (by simpa [Outcome.failed] using hpos.le) (by simpa [Outcome.undecided])
    (by simp [Outcome.undecided])

theorem passed_add_undecided_le (l : List Counted) : passedSum l + undecidedSum l ≤ cuSum l := by
  induction l with
  | nil => exact le_of_eq (add_zero 0)
  | cons x l ih =>
    have hparts := Outcome.parts_le x.pos.le x.outcome
    simp only [passedSum, undecidedSum, cuSum, List.map_cons, List.sum_cons] at ih ⊢
    linarith

theorem collectionScore_bounds (l : List Counted) :
    passedSum l ≤ collectionScore l ∧ collectionScore l ≤ cuSum l := by
  obtain ⟨hP, hF, hU⟩ := sums_nonneg l
  have hnonneg := mul_nonneg hU (trust_nonneg (passedSum l) (failedSum l))
  have hle := mul_le_of_le_one_right hU (trust_le_one hP hF)
  have htotal := passed_add_undecided_le l
  constructor
  · rw [collectionScore, score]
    linarith
  · rw [collectionScore, score]
    linarith

theorem collectionScore_all_failed (hfail : ∃ x ∈ l, x.outcome = .fail)
    (hpass : ∀ x ∈ l, x.outcome ≠ .pass) : collectionScore l = 0 := by
  have hP : passedSum l = 0 := by
    refine List.sum_eq_zero fun q hq => ?_
    obtain ⟨x, hx, rfl⟩ := List.mem_map.mp hq
    have hne := hpass x hx
    cases ho : x.outcome <;> simp_all [Outcome.passed]
  have hF : 0 < failedSum l := by
    obtain ⟨x, hx, ho⟩ := hfail
    have hle : x.outcome.failed x.cu ≤ failedSum l :=
      List.single_le_sum (fun q hq => by
        obtain ⟨y, -, rfl⟩ := List.mem_map.mp hq
        exact (Outcome.parts_nonneg y.pos.le y.outcome).2.1) _ (List.mem_map_of_mem hx)
    rw [ho] at hle
    exact x.pos.trans_le hle
  rw [collectionScore, score, hP, trust_all_failed hF]
  ring

end Collections

/-! ### The loop -/

section Loop

variable (p : Platform β) (b : Bucket β) (a : ScoreArgs)

/-- A receipt without verdict is unsampled; a status other than `pass` and `fail` counts half. -/
def outcomeOf : Option VerificationVerdictV3 → Outcome
  | none => .unsampled
  | some v =>
    if v.status = "pass" then .pass else if v.status = "fail" then .fail else .inconclusive

/-- The receipts of a hotkey with the compute units that the loop counts for them. -/
def countedFrom (verdicts : Verdicts) (hotkey : String) :
    Caches → List JobReceiptV3 → List Counted
  | _, [] => []
  | c, r :: rest =>
    let later := countedFrom verdicts hotkey (expectedCuForReceipt p b a.netuid r c).2 rest
    if r.worker.hotkeySs58 = hotkey then
      ⟨outcomeOf (verdicts.get? r.receiptId), (expectedCuForReceipt p b a.netuid r c).1,
        expectedCuForReceipt_pos p b a.netuid r c⟩ :: later
    else later

def collection (hotkey : String) : Py (List Counted) := do
  let receipts : Receipts := .ofList (← loadReceipts p b a)
  let verdicts : Verdicts := .ofList (← loadVerdicts p b a)
  return countedFrom p b a verdicts hotkey {} receipts.vals

/-- The window `w'` has, besides what `w` has, the units of these receipts. -/
structure Adds (l : List Counted) (w w' : MinerScoreWindow) : Prop where
  passCu : w'.passCu = w.passCu + passedSum l
  failCu : w'.failCu = w.failCu + failedSum l
  unsampledCu : w'.unsampledCu = w.unsampledCu + undecidedSum l

variable {p b a} {verdicts : Verdicts} {hotkey : String}

theorem Adds.nil (w : MinerScoreWindow) : Adds [] w w :=
  ⟨(add_zero _).symm, (add_zero _).symm, (add_zero _).symm⟩

variable {l : List Counted}

theorem Adds.cons {x : Counted} {w w₁ w' : MinerScoreWindow}
    (hx : Adds [x] w w₁) (hl : Adds l w₁ w') : Adds (x :: l) w w' := by
  constructor
  · rw [hl.passCu, hx.passCu]
    simp [passedSum, add_assoc]
  · rw [hl.failCu, hx.failCu]
    simp [failedSum, add_assoc]
  · rw [hl.unsampledCu, hx.unsampledCu]
    simp [undecidedSum, add_assoc]

theorem adds_creditWindow (verdict : Option VerificationVerdictV3) {cu : ℚ} (hcu : 0 < cu)
    (w : MinerScoreWindow) : Adds [⟨outcomeOf verdict, cu, hcu⟩] w (creditWindow verdict cu w) := by
  cases verdict with
  | none => constructor <;> simp [outcomeOf, creditWindow, passedSum, failedSum, undecidedSum,
      Outcome.passed, Outcome.failed, Outcome.undecided]
  | some v =>
    by_cases hpass : v.status = "pass"
    · constructor <;> simp [outcomeOf, creditWindow, passedSum, failedSum, undecidedSum,
        Outcome.passed, Outcome.failed, Outcome.undecided, hpass]
    · by_cases hfail : v.status = "fail"
      · constructor <;> simp [outcomeOf, creditWindow, passedSum, failedSum, undecidedSum,
          Outcome.passed, Outcome.failed, Outcome.undecided, hfail]
      · constructor <;> simp [outcomeOf, creditWindow, passedSum, failedSum, undecidedSum,
          Outcome.passed, Outcome.failed, Outcome.undecided, hpass, hfail]

theorem adds_scoreReceipts (receipts : List JobReceiptV3) (s : LoopState) :
    Adds (countedFrom p b a verdicts hotkey s.caches receipts) (windowOf a s.windows hotkey)
      (windowOf a (receipts.foldl (scoreReceipt p b a verdicts) s).windows hotkey) := by
  induction receipts generalizing s with
  | nil => exact Adds.nil _
  | cons r rest ih =>
    have hrest := ih (scoreReceipt p b a verdicts s r)
    rw [List.foldl_cons, countedFrom]
    have hwindow : windowOf a (scoreReceipt p b a verdicts s r).windows hotkey =
        if r.worker.hotkeySs58 = hotkey then
          creditWindow (verdicts.get? r.receiptId) (expectedCuForReceipt p b a.netuid r s.caches).1
            (windowOf a s.windows hotkey)
        else windowOf a s.windows hotkey := by
      rw [windowOf, get?_scoreReceipt]
      split_ifs
      · rfl
      · rfl
    rw [hwindow] at hrest
    split_ifs at hrest ⊢ with hown
    · exact (adds_creditWindow _ _ _).cons hrest
    · exact hrest

def scoreOf (w : Option MinerScoreWindow) : ℚ := (w.map MinerScoreWindow.score).getD 0

/-- The summary of some bucket with this collection of receipts has this window. -/
def Gives (p : Platform β) (a : ScoreArgs) (hotkey : String) (l : List Counted)
    (w : Option MinerScoreWindow) : Prop :=
  ∃ b b' windows, summarizeScores p b a = .ok (windows, b') ∧ collection p b a hotkey = .ok l ∧
    windows.get? hotkey = w

theorem Gives.looped {w : Option MinerScoreWindow} (h : Gives p a hotkey l w) :
    ∃ windows : Windows, w = (windows.get? hotkey).map finishWindow ∧
      (windowOf a windows hotkey).passCu = passedSum l ∧
      (windowOf a windows hotkey).failCu = failedSum l ∧
      (windowOf a windows hotkey).unsampledCu = undecidedSum l := by
  obtain ⟨b, b', windows, hsummary, hcollection, rfl⟩ := h
  obtain ⟨receipts, verdicts, hreceipts, hverdicts, rfl⟩ := summarizeScores_ok hsummary
  rw [collection, hreceipts, hverdicts] at hcollection
  cases hcollection
  refine ⟨_, KeyedDict.get?_mapVals _ _ _, ?_⟩
  have hadds : Adds (countedFrom p b a (.ofList verdicts) hotkey {}
      (KeyedDict.ofList receipts : Receipts).vals) (windowOf a .empty hotkey)
      (windowOf a (scoreReceipts p b a (.ofList verdicts)
        (KeyedDict.ofList receipts : Receipts).vals).windows hotkey) := adds_scoreReceipts _ {}
  exact ⟨hadds.passCu.trans (zero_add _), hadds.failCu.trans (zero_add _),
    hadds.unsampledCu.trans (zero_add _)⟩

theorem Gives.window {w : MinerScoreWindow} (h : Gives p a hotkey l (some w)) :
    w.passCu = passedSum l ∧ w.trustMultiplier = trust (passedSum l) (failedSum l) := by
  obtain ⟨windows, hw, hpass, hfail, -⟩ := h.looped
  obtain ⟨w₀, hw₀, rfl⟩ := Option.map_eq_some_iff.mp hw.symm
  rw [windowOf, hw₀] at hpass hfail
  rw [← hpass, ← hfail]
  exact ⟨rfl, rfl⟩

theorem Gives.score {w : Option MinerScoreWindow} (h : Gives p a hotkey l w) :
    scoreOf w = collectionScore l := by
  obtain ⟨windows, rfl, hpass, hfail, hunsampled⟩ := h.looped
  rw [collectionScore, ← hpass, ← hfail, ← hunsampled, windowOf]
  cases windows.get? hotkey with
  | none => simp [scoreOf, ScoreMonotonicity.score]
  | some w => rfl

/-- A better verdict never lowers the score and another failure never raises it; the score is
between the units that passed and all units, and it is nothing if something failed and nothing
passed. -/
theorem score_rewards_better_verdicts (p : Platform β) (a : ScoreArgs) (hotkey : String) :
    (∀ l l' w w', Improves l l' → Gives p a hotkey l w → Gives p a hotkey l' w' →
      scoreOf w ≤ scoreOf w') ∧
    (∀ l l' w w', AddsFailure l l' → Gives p a hotkey l w → Gives p a hotkey l' w' →
      scoreOf w' ≤ scoreOf w) ∧
    (∀ l w, Gives p a hotkey l (some w) →
      0 ≤ w.trustMultiplier ∧ w.trustMultiplier ≤ 1 ∧ w.passCu ≤ w.score ∧ w.score ≤ cuSum l) ∧
    (∀ l w, Gives p a hotkey l w → (∃ x ∈ l, x.outcome = .fail) → (∀ x ∈ l, x.outcome ≠ .pass) →
      scoreOf w = 0) := by
  refine ⟨fun l l' w w' himproves h h' => ?_, fun l l' w w' hadds h h' => ?_, fun l w h => ?_,
    fun l w h hfail hpass => ?_⟩
  · rw [h.score, h'.score]
    exact collectionScore_improves himproves
  · rw [h.score, h'.score]
    exact collectionScore_addsFailure hadds
  · obtain ⟨hP, hF, -⟩ := sums_nonneg l
    obtain ⟨hpass, htrust⟩ := h.window
    obtain ⟨hlower, hupper⟩ := collectionScore_bounds l
    have hscore : w.score = collectionScore l := h.score
    rw [htrust, hpass, hscore]
    exact ⟨trust_nonneg _ _, trust_le_one hP hF, hlower, hupper⟩
  · rw [h.score]
    exact collectionScore_all_failed hfail hpass

def verdictOn (status : String) : VerificationVerdictV3 :=
  VerificationVerdictV3.sign plainPlatform
    { verdictId := "v:x", receiptId := "x", manifestHash := "h", jobId := "j", runId := "r",
      minerHotkey := "A", validatorHotkey := "v", status := status, reason := "",
      estimatedCu := .finite 1, replayComputeSec := .finite 0, checkedUnix := .finite 0 }
    (.secret "validator-dev-secret")

def judgedBucket (status : String) : Bucket Json where
  name := "b"
  objects := .ofEntries
    [(joinUri "b" (BucketPaths.receiptKey 0 "r" "A" "j" 0), (plainReceipt "x" "A" "j" "h").toDict),
     (joinUri "b" (BucketPaths.receiptKey 0 "r" "A" "k" 0), (plainReceipt "y" "A" "k" "h").toDict),
     (joinUri "b" (BucketPaths.verdictKey 0 "r" "v" "x"), (verdictOn status).toDict)]

def judgedArgs : ScoreArgs := { netuid := 0, runId := "r" }

def judgedReport (status : String) : Option (List Counted × Option ℚ) := do
  let out ← (summarizeScores plainPlatform (judgedBucket status) judgedArgs).toOption
  let l ← (collection plainPlatform (judgedBucket status) judgedArgs "A").toOption
  return (l, (out.1.get? "A").map MinerScoreWindow.score)

theorem gives_of_report {status : String} {q : Option ℚ}
    (h : judgedReport status = some (l, q)) :
    ∃ w, Gives plainPlatform judgedArgs "A" l w ∧ w.map MinerScoreWindow.score = q := by
  obtain ⟨out, hout, h⟩ := Option.bind_eq_some_iff.mp h
  obtain ⟨l', hl, h⟩ := Option.bind_eq_some_iff.mp h
  cases h
  exact ⟨_, ⟨judgedBucket status, out.2, out.1, toOption_eq_some.mp hout, toOption_eq_some.mp hl,
    rfl⟩, rfl⟩

/-- A failed receipt beside an unsampled one scores nothing; passed, it does not score less. -/
theorem failure_and_pass_scored :
    ∃ w w', Gives plainPlatform judgedArgs "A"
        [⟨.fail, 1, one_pos⟩, ⟨.unsampled, 1, one_pos⟩] w ∧
      Gives plainPlatform judgedArgs "A" [⟨.pass, 1, one_pos⟩, ⟨.unsampled, 1, one_pos⟩] w' ∧
      scoreOf w = 0 ∧ scoreOf w ≤ scoreOf w' := by
  have hfail : judgedReport "fail" =
      some ([⟨.fail, 1, one_pos⟩, ⟨.unsampled, 1, one_pos⟩], some 0) := by decide +kernel
  have hpass : judgedReport "pass" =
      some ([⟨.pass, 1, one_pos⟩, ⟨.unsampled, 1, one_pos⟩], some 2) := by decide +kernel
  obtain ⟨w, hw, -⟩ := gives_of_report hfail
  obtain ⟨w', hw', -⟩ := gives_of_report hpass
  obtain ⟨himproves, -, -, hnone⟩ :=
    score_rewards_better_verdicts plainPlatform judgedArgs "A"
  refine ⟨w, w', hw, hw', hnone _ _ hw ⟨_, List.mem_cons_self, rfl⟩ (by decide), ?_⟩
  refine himproves _ _ w w' ?_ hw hw'
  exact ⟨_, _, _, .refl _, .refl _, rfl, by decide⟩

end Loop

end ScoreMonotonicity

import Teuton.SelfAudits

/-! What an object among the audit results can do. The first object that parses as a result for
the receipt is taken, in key order, and only then is its signature checked; so a result that no
check would accept can hide one that is valid, and it keeps the job manager from ordering an
audit, since the manager does not check results at all. -/
namespace AuditInfluence

open PyJson PyText Signatures ObjectStore BucketPaths BucketBranches Protocol ScoreWindows
open ReplayVerifier VerdictWrites AuditJobs ScoreIsolation SelfAudits

variable {β τ ω : Type}

theorem findSome?_eq_some_iff_first {α κ : Type} [LinearOrder κ] {l : List κ} {f : κ → Option α}
    (hl : l.Pairwise (· < ·)) {a : α} :
    l.findSome? f = some a ↔ ∃ k ∈ l, f k = some a ∧ ∀ k' ∈ l, k' < k → f k' = none := by
  induction l with
  | nil => simp
  | cons x l ih =>
    obtain ⟨hx, hl⟩ := List.pairwise_cons.mp hl
    rw [List.findSome?_cons]
    cases hfx : f x with
    | some b =>
      constructor
      · intro h
        cases h
        refine ⟨x, List.mem_cons_self, hfx, ?_⟩
        intro k hk hlt
        rcases List.mem_cons.mp hk with rfl | hk
        · exact absurd hlt (lt_irrefl k)
        · exact absurd hlt (hx k hk).asymm
      · rintro ⟨k, hk, hfk, hnone⟩
        rcases List.mem_cons.mp hk with rfl | hk
        · exact hfx.symm.trans hfk
        · rw [hnone x List.mem_cons_self (hx k hk)] at hfx
          cases hfx
    | none =>
      rw [ih hl]
      constructor
      · rintro ⟨k, hk, hfk, hnone⟩
        refine ⟨k, List.mem_cons_of_mem _ hk, hfk, ?_⟩
        intro k' hk' hlt
        rcases List.mem_cons.mp hk' with rfl | hk'
        · exact hfx
        · exact hnone k' hk' hlt
      · rintro ⟨k, hk, hfk, hnone⟩
        rcases List.mem_cons.mp hk with rfl | hk
        · rw [hfk] at hfx
          cases hfx
        · exact ⟨k, hk, hfk, fun k' hk' => hnone k' (List.mem_cons_of_mem _ hk')⟩

structure Adds (uri : String) (body : β) (b b' : Bucket β) : Prop where
  name : b'.name = b.name
  absent : b.objects.find? uri = none
  present : b'.objects.find? uri = some body
  others : ∀ other, other ≠ uri → b'.objects.find? other = b.objects.find? other

def IsAuditUri (netuid : ℤ) (bucket uri : String) : Prop := OnBranch netuid bucket 'a' uri

section Results

variable (H : Host β τ) (V : ValidatorConfig β) (receipt : JobReceiptV3)

/-- The result that an object offers for a receipt: it is listed and parses, names the receipt
and, if there is an allowlist, an auditor on it. -/
def offered (b : Bucket β) (uri : String) : Option AuditResultV3 :=
  if isListed b.name (auditResultsPrefix V.netuid receipt.runId) uri then
    match b.getJson H.libraries.platform uri >>= AuditResultV3.fromDict with
    | .error _ => none
    | .ok audit =>
      if audit.receiptId ≠ receipt.receiptId then none
      else if !V.auditEligibleHotkeys.isEmpty ∧ audit.auditorHotkey ∉ V.auditEligibleHotkeys then
        none
      else some audit
  else none

variable {H V receipt} {b b' : Bucket β} {uri : String} {body : β}

variable {other : String}

theorem offered_congr (hname : b'.name = b.name)
    (h : b'.objects.find? other = b.objects.find? other) :
    offered H V receipt b' other = offered H V receipt b other := by
  unfold offered Bucket.getJson
  rw [hname, Bucket.get_congr h]

theorem listed_of_offered (h : offered H V receipt b uri ≠ none) :
    isListed b.name (auditResultsPrefix V.netuid receipt.runId) uri = true := by
  by_contra hnot
  exact h (by rw [offered, if_neg hnot])

theorem findAuditResult_eq_some {audit : AuditResultV3} :
    findAuditResult H V b receipt = some audit ↔
      ∃ uri, b.objects.find? uri ≠ none ∧ offered H V receipt b uri = some audit ∧
        ∀ other, b.objects.find? other ≠ none → other < uri → offered H V receipt b other = none := by
  unfold findAuditResult
  have hsorted : (jsonUris b (auditResultsPrefix V.netuid receipt.runId)).Pairwise (· < ·) := by
    rw [jsonUris_eq]
    exact (SortedDict.keys_sorted b.objects).filter _
  rw [findSome?_eq_some_iff_first hsorted]
  constructor
  · rintro ⟨uri, huri, hfound, hnone⟩
    obtain ⟨hpresent, hlisted⟩ := mem_jsonUris.mp huri
    refine ⟨uri, hpresent, by rw [offered, if_pos hlisted]; exact hfound, ?_⟩
    intro other hother hlt
    by_cases hotherListed : isListed b.name (auditResultsPrefix V.netuid receipt.runId) other
    · rw [offered, if_pos hotherListed]
      exact hnone other (mem_jsonUris.mpr ⟨hother, hotherListed⟩) hlt
    · rw [offered, if_neg hotherListed]
  · rintro ⟨uri, hpresent, hoffered, hnone⟩
    have hlisted : isListed b.name (auditResultsPrefix V.netuid receipt.runId) uri = true :=
      listed_of_offered (H := H) (by simp [hoffered])
    rw [offered, if_pos hlisted] at hoffered
    refine ⟨uri, mem_jsonUris.mpr ⟨hpresent, hlisted⟩, hoffered, ?_⟩
    intro other hother hlt
    obtain ⟨hotherPresent, hotherListed⟩ := mem_jsonUris.mp hother
    have hoff := hnone other hotherPresent hlt
    rw [offered, if_pos hotherListed] at hoff
    exact hoff

theorem findAuditResult_eq_none : findAuditResult H V b receipt = none ↔
    ∀ uri, b.objects.find? uri ≠ none → offered H V receipt b uri = none := by
  unfold findAuditResult
  rw [List.findSome?_eq_none_iff]
  constructor
  · intro h uri hpresent
    rw [offered]
    split_ifs with hlisted
    · exact h uri (mem_jsonUris.mpr ⟨hpresent, hlisted⟩)
    · rfl
  · intro h uri huri
    obtain ⟨hpresent, hlisted⟩ := mem_jsonUris.mp huri
    have hoff := h uri hpresent
    rw [offered, if_pos hlisted] at hoff
    exact hoff

theorem findAuditResult_congr (hname : b'.name = b.name)
    (h : ∀ uri, isListed b.name (auditResultsPrefix V.netuid receipt.runId) uri = true →
      b'.objects.find? uri = b.objects.find? uri) :
    findAuditResult H V b' receipt = findAuditResult H V b receipt := by
  have hoffered : ∀ uri, offered H V receipt b' uri = offered H V receipt b uri := by
    intro uri
    by_cases hlisted : isListed b.name (auditResultsPrefix V.netuid receipt.runId) uri = true
    · exact offered_congr hname (h uri hlisted)
    · rw [offered, offered, hname, if_neg hlisted, if_neg hlisted]
  have hpresent : ∀ {uri}, offered H V receipt b uri ≠ none →
      b'.objects.find? uri = b.objects.find? uri := fun hne => h _ (listed_of_offered hne)
  ext audit
  simp only [findAuditResult_eq_some, hoffered]
  constructor
  · rintro ⟨uri, hfound, haudit, hnone⟩
    refine ⟨uri, by rwa [← hpresent (by simp [haudit])], haudit, ?_⟩
    intro other hother hlt
    by_contra hne
    exact hne (hnone other (by rwa [hpresent hne]) hlt)
  · rintro ⟨uri, hfound, haudit, hnone⟩
    refine ⟨uri, by rwa [hpresent (by simp [haudit])], haudit, ?_⟩
    intro other hother hlt
    by_contra hne
    exact hne (hnone other (by rwa [← hpresent hne]) hlt)

theorem Adds.offered_eq (h : Adds uri body b b') (hother : other ≠ uri) :
    offered H V receipt b' other = offered H V receipt b other :=
  offered_congr h.name (h.others other hother)

theorem Adds.present_iff (h : Adds uri body b b') :
    b'.objects.find? other ≠ none ↔ other = uri ∨ b.objects.find? other ≠ none := by
  by_cases hother : other = uri
  · subst hother
    simp [h.present]
  · simp [h.others other hother, hother]

theorem Adds.findAuditResult_of_none (h : Adds uri body b b')
    (hnone : offered H V receipt b' uri = none) :
    findAuditResult H V b' receipt = findAuditResult H V b receipt := by
  apply Option.ext
  intro audit
  rw [findAuditResult_eq_some, findAuditResult_eq_some]
  constructor
  · rintro ⟨k, hk, hoffered, hbefore⟩
    have hne : k ≠ uri := by
      rintro rfl
      rw [hnone] at hoffered
      cases hoffered
    refine ⟨k, (h.present_iff.mp hk).resolve_left hne, by rw [← h.offered_eq hne]; exact hoffered, ?_⟩
    intro other hother hlt
    have hotherNe : other ≠ uri := by
      rintro rfl
      exact hother h.absent
    rw [← h.offered_eq hotherNe]
    exact hbefore other (h.present_iff.mpr (Or.inr hother)) hlt
  · rintro ⟨k, hk, hoffered, hbefore⟩
    have hne : k ≠ uri := by
      rintro rfl
      exact hk h.absent
    refine ⟨k, h.present_iff.mpr (Or.inr hk), by rw [h.offered_eq hne]; exact hoffered, ?_⟩
    intro other hother hlt
    by_cases hotherNe : other = uri
    · rw [hotherNe]
      exact hnone
    · rw [h.offered_eq hotherNe]
      exact hbefore other ((h.present_iff.mp hother).resolve_left hotherNe) hlt

theorem Adds.findAuditResult_of_earlier (h : Adds uri body b b')
    (hearlier : ∃ k, k < uri ∧ b.objects.find? k ≠ none ∧ offered H V receipt b k ≠ none) :
    findAuditResult H V b' receipt = findAuditResult H V b receipt := by
  obtain ⟨k, hlt, hk, hoffered⟩ := hearlier
  have hkne : k ≠ uri := hlt.ne
  cases hfind : findAuditResult H V b receipt with
  | none => exact absurd (findAuditResult_eq_none.mp hfind k hk) hoffered
  | some audit =>
    obtain ⟨first, hfirst, haudit, hbefore⟩ := findAuditResult_eq_some.mp hfind
    have hfirstLt : first < uri := by
      by_contra hge
      exact hoffered (hbefore k hk (lt_of_lt_of_le hlt (not_lt.mp hge)))
    refine findAuditResult_eq_some.mpr ⟨first, h.present_iff.mpr (Or.inr hfirst),
      by rw [h.offered_eq hfirstLt.ne]; exact haudit, ?_⟩
    intro other hother hotherLt
    have hotherNe : other ≠ uri := (hotherLt.trans hfirstLt).ne
    rw [h.offered_eq hotherNe]
    exact hbefore other ((h.present_iff.mp hother).resolve_left hotherNe) hotherLt

theorem Adds.findAuditResult_of_first (h : Adds uri body b b') {audit : AuditResultV3}
    (hoffered : offered H V receipt b' uri = some audit)
    (hfirst : ∀ k, k < uri → b.objects.find? k ≠ none → offered H V receipt b k = none) :
    findAuditResult H V b' receipt = some audit := by
  refine findAuditResult_eq_some.mpr ⟨uri, by simp [h.present], hoffered, ?_⟩
  intro other hother hlt
  rw [h.offered_eq hlt.ne]
  exact hfirst other hlt ((h.present_iff.mp hother).resolve_left hlt.ne)

end Results

section Verdicts

variable (H : Host β τ) (V : ValidatorConfig β)

/-- The verdict that a pass over the audit results writes for a receipt it comes to, if any. -/
def writtenFor (b : Bucket β) (receiptUri : String) (receipt : JobReceiptV3) :
    Option VerificationVerdictV3 :=
  (judgeByAuditResult H V b receiptUri receipt).toOption.join

def TakenBefore (b : Bucket β) (receipt : JobReceiptV3) (uri : String) : Prop :=
  ∃ k, k < uri ∧ b.objects.find? k ≠ none ∧ offered H V receipt b k ≠ none

def GraphElsewhere (b : Bucket β) (receipt : JobReceiptV3) (uri : String) : Prop :=
  ∀ manifest, (findManifest H.libraries.platform b.name V.netuid receipt).run b.get = .ok manifest →
    manifest.graphRef.uri ≠ uri

variable {H V} {receipt : JobReceiptV3} {receiptUri uri : String} {body : β} {b b' : Bucket β}

theorem fetchManifestGraph_congr {p : Platform β} {manifest : JobManifestV3}
    (h : b'.get manifest.graphRef.uri = b.get manifest.graphRef.uri) :
    (fetchManifestGraph p manifest).run b'.get = (fetchManifestGraph p manifest).run b.get := by
  unfold fetchManifestGraph GraphIr.fetchGraph
  simp only [ReadProgram.run_bind, run_fetchJson, Bucket.getJson, h, ReadProgram.run_lift,
    apply_ite (ReadProgram.run b.get), apply_ite (ReadProgram.run b'.get), ReadProgram.run_pure,
    ReadProgram.run_done]

theorem findManifest_congr {p : Platform β} {bucket : String} {netuid : ℤ}
    (h : b'.get (joinUri bucket (jobManifestKey netuid receipt.runId receipt.jobId)) =
      b.get (joinUri bucket (jobManifestKey netuid receipt.runId receipt.jobId))) :
    (findManifest p bucket netuid receipt).run b'.get =
      (findManifest p bucket netuid receipt).run b.get := by
  unfold findManifest
  simp only [ReadProgram.run_bind, run_fetchJson, Bucket.getJson, h, ReadProgram.run_lift]

theorem judge_congr (hname : b'.name = b.name)
    (hfind : findAuditResult H V b' receipt = findAuditResult H V b receipt)
    (hmanifest : b'.get (joinUri b.name (jobManifestKey V.netuid receipt.runId receipt.jobId)) =
      b.get (joinUri b.name (jobManifestKey V.netuid receipt.runId receipt.jobId)))
    (hgraph : ∀ manifest,
      (findManifest H.libraries.platform b.name V.netuid receipt).run b.get = .ok manifest →
      b'.get manifest.graphRef.uri = b.get manifest.graphRef.uri) :
    judgeByAuditResult H V b' receiptUri receipt = judgeByAuditResult H V b receiptUri receipt := by
  unfold judgeByAuditResult
  rw [hfind, hname]
  cases findAuditResult H V b receipt with
  | none => rfl
  | some audit =>
    refine bind_congr fun valid => ?_
    cases valid with
    | false => rfl
    | true =>
      simp only [if_true]
      rw [findManifest_congr hmanifest]
      cases hload : (findManifest H.libraries.platform b.name V.netuid receipt).run b.get with
      | error e => rfl
      | ok manifest =>
        simp only [ok_bind, verdictFromAudit, ReadProgram.run_bind, ReadProgram.run_lift,
          ReadProgram.run_pure, fetchManifestGraph_congr (hgraph manifest hload)]

theorem Adds.get_eq (h : Adds uri body b b') {other : String} (hother : other ≠ uri) :
    b'.get other = b.get other :=
  Bucket.get_congr (h.others other hother)

theorem manifestUri_ne {netuid : ℤ} {bucket runId jobId : String}
    (huri : IsAuditUri netuid bucket uri) :
    joinUri bucket (jobManifestKey netuid runId jobId) ≠ uri := by
  rintro rfl
  exact (manifestUri_onBranch bucket runId jobId).unique (by decide) huri

theorem Adds.judge_eq (h : Adds uri body b b') (receiptUri : String)
    (huri : IsAuditUri V.netuid b.name uri) (hgraph : GraphElsewhere H V b receipt uri)
    (hfind : findAuditResult H V b' receipt = findAuditResult H V b receipt) :
    judgeByAuditResult H V b' receiptUri receipt = judgeByAuditResult H V b receiptUri receipt :=
  judge_congr h.name hfind (h.get_eq (manifestUri_ne huri))
    fun manifest hmanifest => h.get_eq (hgraph manifest hmanifest)

variable {audit : AuditResultV3}

theorem judge_of_find (hfind : findAuditResult H V b receipt = some audit)
    (hrejected : verifyAuditResult V H.libraries.platform audit receipt ≠ .ok true) :
    judgeByAuditResult H V b receiptUri receipt =
      (verifyAuditResult V H.libraries.platform audit receipt >>= fun _ => .ok none) := by
  unfold judgeByAuditResult
  rw [hfind]
  simp only
  cases hverify : verifyAuditResult V H.libraries.platform audit receipt with
  | error e => rfl
  | ok valid =>
    cases valid with
    | false => rfl
    | true => exact absurd hverify hrejected

theorem offered_verify (h : offered H V receipt b uri = some audit) :
    b.getJson H.libraries.platform uri >>= AuditResultV3.fromDict = .ok audit := by
  unfold offered at h
  split_ifs at h
  split at h
  · cases h
  · next audit' hparsed =>
    split_ifs at h
    cases h
    exact hparsed

theorem writtenFor_of_rejected (hfind : findAuditResult H V b receipt = some audit)
    (hrejected : verifyAuditResult V H.libraries.platform audit receipt ≠ .ok true) :
    writtenFor H V b receiptUri receipt = none := by
  rw [writtenFor, judge_of_find hfind hrejected]
  cases verifyAuditResult V H.libraries.platform audit receipt <;> rfl

/-- The same verdict is written exactly if the object offers nothing for the receipt, comes
behind a result that is taken, or there is no verdict to hide. -/
theorem Adds.writtenFor_eq_iff (h : Adds uri body b b') (huri : IsAuditUri V.netuid b.name uri)
    (hgraph : GraphElsewhere H V b receipt uri)
    (hrejected : ∀ audit, b'.getJson H.libraries.platform uri >>= AuditResultV3.fromDict = .ok audit →
      verifyAuditResult V H.libraries.platform audit receipt ≠ .ok true) :
    writtenFor H V b' receiptUri receipt = writtenFor H V b receiptUri receipt ↔
      offered H V receipt b' uri = none ∨ TakenBefore H V b receipt uri ∨
        writtenFor H V b receiptUri receipt = none := by
  cases hoffered : offered H V receipt b' uri with
  | none =>
    have hsame := h.judge_eq receiptUri huri hgraph
      (h.findAuditResult_of_none hoffered)
    simp [writtenFor, hsame]
  | some audit =>
    by_cases hbefore : TakenBefore H V b receipt uri
    · have hsame := h.judge_eq receiptUri huri hgraph
        (h.findAuditResult_of_earlier hbefore)
      simp [writtenFor, hsame, hbefore]
    · have hfirst : findAuditResult H V b' receipt = some audit := by
        apply h.findAuditResult_of_first hoffered
        intro k hlt hk
        by_contra hne
        exact hbefore ⟨k, hlt, hk, hne⟩
      rw [writtenFor_of_rejected hfirst (hrejected audit (offered_verify hoffered))]
      simp [hbefore, eq_comm]

/-- The object makes no difference to the judgement of a receipt: it offers nothing, comes
behind a result that is taken, or is refused like the result that is taken without it. -/
def Harmless (H : Host β τ) (V : ValidatorConfig β) (b b' : Bucket β) (receipt : JobReceiptV3)
    (uri : String) : Prop :=
  offered H V receipt b' uri = none ∨ TakenBefore H V b receipt uri ∨
    ∃ audit, offered H V receipt b' uri = some audit ∧
      verifyAuditResult V H.libraries.platform audit receipt = .ok false ∧
      ∀ first, findAuditResult H V b receipt = some first →
        verifyAuditResult V H.libraries.platform first receipt = .ok false

theorem judge_of_refused (h : ∀ audit, findAuditResult H V b receipt = some audit →
      verifyAuditResult V H.libraries.platform audit receipt = .ok false) :
    judgeByAuditResult H V b receiptUri receipt = .ok none := by
  cases hfind : findAuditResult H V b receipt with
  | none =>
    unfold judgeByAuditResult
    rw [hfind]
    rfl
  | some audit =>
    rw [judge_of_find hfind (by rw [h audit hfind]; simp), h audit hfind]
    rfl

theorem Adds.judge_eq_of_harmless (h : Adds uri body b b') (receiptUri : String)
    (huri : IsAuditUri V.netuid b.name uri) (hgraph : GraphElsewhere H V b receipt uri)
    (hharmless : Harmless H V b b' receipt uri) :
    judgeByAuditResult H V b' receiptUri receipt = judgeByAuditResult H V b receiptUri receipt := by
  rcases hharmless with hnone | hbefore | ⟨audit, hoffered, hrefused, hfirst⟩
  · exact h.judge_eq receiptUri huri hgraph (h.findAuditResult_of_none hnone)
  · exact h.judge_eq receiptUri huri hgraph (h.findAuditResult_of_earlier hbefore)
  · by_cases hbefore : TakenBefore H V b receipt uri
    · exact h.judge_eq receiptUri huri hgraph (h.findAuditResult_of_earlier hbefore)
    · have hfind : findAuditResult H V b' receipt = some audit := by
        apply h.findAuditResult_of_first hoffered
        intro k hlt hk
        by_contra hne
        exact hbefore ⟨k, hlt, hk, hne⟩
      rw [judge_of_refused hfirst, judge_of_refused]
      intro audit' haudit'
      rw [hfind] at haudit'
      cases haudit'
      exact hrefused

/-- The bucket holds a result for the receipt that is taken and accepted, and what the verdict
needs besides it can be read. -/
def ResultToHide (H : Host β τ) (V : ValidatorConfig β) (b : Bucket β) (receiptUri : String)
    (receipt : JobReceiptV3) : Prop :=
  ∃ audit manifest v, findAuditResult H V b receipt = some audit ∧
    verifyAuditResult V H.libraries.platform audit receipt = .ok true ∧
    (findManifest H.libraries.platform b.name V.netuid receipt).run b.get = .ok manifest ∧
    (verdictFromAudit H V receiptUri receipt audit manifest).run b.get = .ok v

theorem writtenFor_eq_none_iff :
    writtenFor H V b receiptUri receipt = none ↔ ¬ ResultToHide H V b receiptUri receipt := by
  constructor
  · rintro hnone ⟨audit, manifest, v, hfind, hverify, hmanifest, hverdict⟩
    have hjudge : judgeByAuditResult H V b receiptUri receipt = .ok (some v) := by
      unfold judgeByAuditResult
      rw [hfind]
      simp only [hverify, ok_bind, if_true, hmanifest, hverdict]
      rfl
    rw [writtenFor, hjudge] at hnone
    cases hnone
  · intro hhide
    cases hwritten : writtenFor H V b receiptUri receipt with
    | none => rfl
    | some v =>
      have hjudge : judgeByAuditResult H V b receiptUri receipt = .ok (some v) := by
        rw [writtenFor] at hwritten
        cases hrun : judgeByAuditResult H V b receiptUri receipt with
        | error e =>
          rw [hrun] at hwritten
          cases hwritten
        | ok judged =>
          rw [hrun] at hwritten
          exact congrArg _ hwritten
      unfold judgeByAuditResult at hjudge
      split at hjudge
      · cases hjudge
      · next audit hfind =>
        obtain ⟨valid, hverify, hjudge⟩ := bind_eq_ok.mp hjudge
        cases valid with
        | false => cases hjudge
        | true =>
          obtain ⟨manifest, hmanifest, hjudge⟩ := bind_eq_ok.mp hjudge
          obtain ⟨v', hverdict, -⟩ := bind_eq_ok.mp hjudge
          exact absurd ⟨audit, manifest, v', hfind, hverify, hmanifest, hverdict⟩ hhide

end Verdicts

section Pass

variable {H : Host β τ} {V : ValidatorConfig β} {receipt : JobReceiptV3} {uri : String} {body : β}
variable {b b' c c' : Bucket β}

theorem auditResultsPrefix_branch (netuid : ℤ) (runId : String) :
    auditResultsPrefix netuid runId =
      root netuid ++ ("/" ++ String.singleton 'a' ++ ("udits/" ++ runId ++ "/results/")) := by
  simp only [auditResultsPrefix, auditRoot, String.append_assoc]
  rfl

theorem listed_not_isVerdict (runId : String)
    (h : isListed b.name (auditResultsPrefix V.netuid runId) uri = true) :
    ¬ IsVerdictUri V b.name uri := fun hverdict =>
  listed_not_onBranch (auditResultsPrefix_branch _ _) (by decide) h (hverdict.onBranch V)

theorem offered_not_isVerdict (h : offered H V receipt b uri ≠ none) :
    ¬ IsVerdictUri V b.name uri :=
  listed_not_isVerdict receipt.runId (listed_of_offered h)

theorem findAuditResult_agree (h : AgreeOn (fun uri => ¬ IsVerdictUri V b.name uri) b c) :
    findAuditResult H V c receipt = findAuditResult H V b receipt :=
  findAuditResult_congr h.name fun uri huri => h.objects uri (listed_not_isVerdict _ huri)

theorem Harmless.agree (hharmless : Harmless H V b b' receipt uri) (hadds : Adds uri body b b')
    (hagree : AgreeOn (fun uri => ¬ IsVerdictUri V b.name uri) b c) (hc : Adds uri body c c') :
    Harmless H V c c' receipt uri := by
  have hoffered : offered H V receipt c' uri = offered H V receipt b' uri := by
    apply offered_congr
    · rw [hc.name, hagree.name, hadds.name]
    · rw [hc.present, hadds.present]
  rcases hharmless with hnone | ⟨k, hlt, hk, hne⟩ | ⟨audit, haudit, hrefused, hfirst⟩
  · exact Or.inl (hoffered.trans hnone)
  · have hsame := hagree.objects k (offered_not_isVerdict hne)
    refine Or.inr (Or.inl ⟨k, hlt, by rwa [hsame], ?_⟩)
    rwa [offered_congr hagree.name hsame]
  · refine Or.inr (Or.inr ⟨audit, hoffered.trans haudit, hrefused, ?_⟩)
    rw [findAuditResult_agree hagree]
    exact hfirst

theorem GraphElsewhere.agree (h : GraphElsewhere H V b receipt uri)
    (hagree : AgreeOn (fun uri => ¬ IsVerdictUri V b.name uri) b c) :
    GraphElsewhere H V c receipt uri := by
  intro manifest hmanifest
  apply h manifest
  rw [hagree.name] at hmanifest
  rw [← findManifest_congr (Bucket.get_congr (hagree.objects _
    (manifestUri_not_isVerdict b.name receipt)))]
  exact hmanifest

def Alike (uri : String) (body : β) : Py (ℤ × Bucket β) → Py (ℤ × Bucket β) → Prop
  | .ok (n, c), .ok (n', c') => n = n' ∧ Adds uri body c c'
  | .error e, .error e' => e = e'
  | _, _ => False

theorem Adds.store (h : Adds uri body b b') (huri : IsAuditUri V.netuid b.name uri)
    (v : VerificationVerdictV3) :
    Adds uri body (store H V b receipt v) (store H V b' receipt v) := by
  have hne : uri ≠ verdictUri V b.name receipt := by
    rintro rfl
    exact ((verdictUri_isVerdict V receipt).onBranch V).unique (by decide) huri
  refine ⟨h.name, ?_, ?_, ?_⟩
  · rw [find?_store, if_neg hne]
    exact h.absent
  · rw [find?_store, h.name, if_neg hne]
    exact h.present
  · intro other hother
    rw [find?_store, find?_store, h.name, h.others other hother]

theorem writeVerdicts_alike
    {judge : Bucket β → String → JobReceiptV3 → Py (Option VerificationVerdictV3)}
    {maxReceipts : Option ℤ} {l : List (String × JobReceiptV3)}
    (huri : IsAuditUri V.netuid b.name uri)
    (hjudge : ∀ item ∈ l, ∀ c c', AgreeOn (fun uri => ¬ IsVerdictUri V b.name uri) b c →
      Adds uri body c c' → judge c' item.1 item.2 = judge c item.1 item.2) :
    ∀ (checked : ℤ) (c c' : Bucket β), AgreeOn (fun uri => ¬ IsVerdictUri V b.name uri) b c →
      Adds uri body c c' → Alike uri body (writeVerdicts H V judge maxReceipts l checked c)
        (writeVerdicts H V judge maxReceipts l checked c') := by
  induction l with
  | nil => exact fun checked c c' _ hadds => ⟨rfl, hadds⟩
  | cons item l ih =>
    intro checked c c' hagree hadds
    obtain ⟨receiptUri, receipt⟩ := item
    have hrest := ih fun item hitem => hjudge item (List.mem_cons_of_mem _ hitem)
    have huri' : IsAuditUri V.netuid c.name uri := hagree.name ▸ huri
    have hverdict : hasVerdict V c' receipt = hasVerdict V c receipt := by
      unfold hasVerdict Bucket.exists
      rw [hadds.name, hadds.others]
      rintro rfl
      exact ((verdictUri_isVerdict V receipt).onBranch V).unique (by decide) huri'
    rw [writeVerdicts, writeVerdicts, hverdict,
      hjudge _ List.mem_cons_self c c' hagree hadds]
    split_ifs
    · exact ⟨rfl, hadds⟩
    cases hasVerdict V c receipt with
    | error e => rfl
    | ok found =>
      cases found with
      | true => exact hrest checked c c' hagree hadds
      | false =>
        simp only [ok_bind, Bool.false_eq_true, if_false]
        cases judge c receiptUri receipt with
        | error e => rfl
        | ok judged =>
          cases judged with
          | none => exact hrest checked c c' hagree hadds
          | some v =>
            simp only [ok_bind]
            cases hparse : parseUri (verdictUri V c.name receipt) with
            | error e =>
              have hput : ∀ d : Bucket β, d.name = c.name →
                  d.putJson H.libraries.platform (verdictUri V d.name receipt) v.toDict =
                    .error e := by
                intro d hd
                rw [Bucket.putJson, Bucket.put, hd, hparse]
                rfl
              rw [hput c rfl, hput c' hadds.name]
              rfl
            | ok parts =>
              have hput := (putJson_eq_ok H V (b := c) (v := v)).mpr ⟨⟨parts, hparse⟩, rfl⟩
              have hput' := (putJson_eq_ok H V (b := c') (v := v)).mpr
                ⟨⟨parts, hadds.name ▸ hparse⟩, rfl⟩
              rw [hput, hput']
              have hstore := agreeOn_store (H := H) (V := V) c receipt v
              rw [hagree.name] at hstore
              exact hrest (checked + 1) _ _
                ⟨hagree.name, fun k hk => (hstore.objects k hk).trans (hagree.objects k hk)⟩
                (hadds.store huri' v)

theorem listedReceipts_congr (hname : b'.name = b.name)
    (h : ∀ k, isListed b.name (receiptsPrefix V.netuid V.runId) k = true →
      b'.objects.find? k = b.objects.find? k) :
    listedReceipts H V b' = listedReceipts H V b := by
  have huris : jsonUris b' (receiptsPrefix V.netuid V.runId) =
      jsonUris b (receiptsPrefix V.netuid V.runId) := by
    rw [jsonUris_eq, jsonUris_eq, hname]
    apply SortedDict.filter_keys_congr
    intro k hk
    rw [h k hk]
  unfold listedReceipts
  rw [huris]
  apply List.filterMap_congr
  intro k hk
  rw [loadReceipt_congr (h k (mem_jsonUris.mp hk).2)]

theorem Adds.listedReceipts_eq (h : Adds uri body b b') (huri : IsAuditUri V.netuid b.name uri) :
    listedReceipts H V b' = listedReceipts H V b := by
  apply listedReceipts_congr h.name
  intro k hk
  apply h.others
  rintro rfl
  exact listed_not_onBranch (receiptsPrefix_branch _ _) (by decide) hk huri

/-- A pass over the audit results comes out the same if the object makes no difference to the
judgement of any sampled receipt. -/
theorem Adds.consume_alike (h : Adds uri body b b') (huri : IsAuditUri V.netuid b.name uri)
    (hharmless : ∀ item ∈ sampleReceipts H V b,
      GraphElsewhere H V b item.2 uri ∧ Harmless H V b b' item.2 uri) (maxReceipts : Option ℤ) :
    Alike uri body (consumeAuditResults H V b maxReceipts)
      (consumeAuditResults H V b' maxReceipts) := by
  have hsample : sampleReceipts H V b' = sampleReceipts H V b := by
    unfold sampleReceipts
    rw [h.listedReceipts_eq huri]
  unfold consumeAuditResults
  rw [hsample]
  refine writeVerdicts_alike huri ?_ 0 b b' ⟨rfl, fun _ _ => rfl⟩ h
  intro item hitem c c' hagree hadds
  obtain ⟨hgraph, hsame⟩ := hharmless item hitem
  exact hadds.judge_eq_of_harmless item.1 (hagree.name ▸ huri) (hgraph.agree hagree)
    (hsame.agree h hagree hadds)

end Pass

section Emission

variable {H : Host β τ} {cfg : AuditJobConfig β} {receipt : JobReceiptV3} {uri : String} {body : β}
variable {b b' : Bucket β}

/-- The pass of the job manager orders an audit when it comes to the receipt. -/
def Emits (H : Host β τ) (cfg : AuditJobConfig β) (b : Bucket β) (receipt : JobReceiptV3) : Prop :=
  needsAudit H cfg b receipt = .ok true

/-- The receipt has no verdict, no object offers a result for it, and its audit manifest is not
stored. -/
def AuditDue (H : Host β τ) (cfg : AuditJobConfig β) (b : Bucket β) (receipt : JobReceiptV3) :
    Prop :=
  hasVerdict (verifierConfig cfg) b receipt = .ok false ∧
  findAuditResult H (verifierConfig cfg) b receipt = none ∧
  b.exists (manifestUri cfg b.name (auditJobId H.libraries.platform receipt)) = .ok false

theorem emits_iff : Emits H cfg b receipt ↔ AuditDue H cfg b receipt := by
  unfold Emits needsAudit
  rw [bind_eq_ok]
  constructor
  · rintro ⟨judged, hjudged, h⟩
    cases judged with
    | true => cases h
    | false =>
      simp only [Bool.false_eq_true, if_false] at h
      cases hfind : findAuditResult H (verifierConfig cfg) b receipt with
      | some audit =>
        rw [hfind] at h
        cases h
      | none =>
        rw [hfind] at h
        simp only [Option.isSome_none, Bool.false_eq_true, if_false] at h
        obtain ⟨found, hfound, h⟩ := bind_eq_ok.mp h
        cases found with
        | true => cases h
        | false => exact ⟨hjudged, hfind, hfound⟩
  · rintro ⟨hverdict, hfind, hfound⟩
    refine ⟨false, hverdict, ?_⟩
    rw [hfind]
    simp only [Option.isSome_none, Bool.false_eq_true, if_false, hfound]
    rfl

theorem bucket_exists_congr {uri : String} (h : b'.objects.find? uri = b.objects.find? uri) :
    b'.exists uri = b.exists uri := by
  rw [Bucket.exists, Bucket.exists, h]

/-- The pass orders an audit exactly as before, unless it would have ordered one and the object
offers a result or stands in the place of the audit manifest. -/
theorem Adds.emits_iff (h : Adds uri body b b') (huri : IsAuditUri cfg.netuid b.name uri) :
    (Emits H cfg b' receipt ↔ Emits H cfg b receipt) ↔
      offered H (verifierConfig cfg) receipt b' uri = none ∧
        manifestUri cfg b.name (auditJobId H.libraries.platform receipt) ≠ uri ∨
      ¬ AuditDue H cfg b receipt := by
  have hverdict : hasVerdict (verifierConfig cfg) b' receipt =
      hasVerdict (verifierConfig cfg) b receipt := by
    unfold hasVerdict
    rw [h.name]
    apply bucket_exists_congr
    apply h.others
    rintro rfl
    exact ((verdictUri_isVerdict (verifierConfig cfg) receipt).onBranch _).unique (by decide) huri
  rw [← AuditInfluence.emits_iff]
  by_cases hbefore : Emits H cfg b receipt
  · obtain ⟨hnone, hfind, hfound⟩ := AuditInfluence.emits_iff.mp hbefore
    have hempty := findAuditResult_eq_none.mp hfind
    simp only [hbefore, iff_true, not_true_eq_false, or_false]
    rw [AuditInfluence.emits_iff, AuditDue, hverdict, h.name]
    constructor
    · rintro ⟨-, hfind', hfound'⟩
      refine ⟨findAuditResult_eq_none.mp hfind' uri (by simp [h.present]), ?_⟩
      rintro rfl
      obtain ⟨_, -, hpresent⟩ := bind_eq_ok.mp hfound'
      rw [h.present] at hpresent
      cases hpresent
    · rintro ⟨hoffered, hne⟩
      refine ⟨hnone, (h.findAuditResult_of_none hoffered).trans hfind, ?_⟩
      rw [bucket_exists_congr (h.others _ hne)]
      exact hfound
  · simp only [hbefore, iff_false, not_false_eq_true, or_true, iff_true]
    intro hafter
    apply hbefore
    obtain ⟨hnone, hfind, hfound⟩ := AuditInfluence.emits_iff.mp hafter
    have hoffered := findAuditResult_eq_none.mp hfind uri (by simp [h.present])
    refine AuditInfluence.emits_iff.mpr ⟨hverdict ▸ hnone,
      (h.findAuditResult_of_none hoffered).symm.trans hfind, ?_⟩
    rw [h.name] at hfound
    obtain ⟨parts, hparts, hpresent⟩ := bind_eq_ok.mp hfound
    have hne : manifestUri cfg b.name (auditJobId H.libraries.platform receipt) ≠ uri := by
      rintro rfl
      rw [h.present] at hpresent
      cases hpresent
    rw [← bucket_exists_congr (h.others _ hne)]
    exact bind_eq_ok.mpr ⟨parts, hparts, hpresent⟩

variable [DecidableEq ω] {faults : Faults} {w : ω} {clock : Readings} {receiptUri : String}
variable {s t : Office β ω}

theorem auditReceipt_emitted
    (h : auditReceipt H cfg faults w clock receiptUri receipt s = .ok ⟨⟩ t) :
    t.emitted = s.emitted + 1 ↔ Emits H cfg s.bucket receipt := by
  unfold Emits
  rcases auditReceipt_ok h with ⟨htest, rfl⟩ | ⟨htest, target, m, u, hemit, rfl⟩
  · rw [htest]
    simp
  · obtain ⟨_, _, _, _, _, -, -, -, -, rfl⟩ := emitAuditJob_ok hemit
    rw [htest]
    simp

end Emission

section Influence

variable {H : Host β τ} {V : ValidatorConfig β} {receipt : JobReceiptV3} {uri : String} {body : β}
variable {b b' : Bucket β} {receiptUri : String}

/-- The object does not stand where the graph of the receipt's job is read, and it offers no
result for the receipt, comes behind one that is taken, or there is no verdict to hide. If it
does stand there, no result must be accepted with it as the graph. -/
def VerdictUntouched (H : Host β τ) (V : ValidatorConfig β) (b b' : Bucket β)
    (receiptUri : String) (receipt : JobReceiptV3) (uri : String) : Prop :=
  (GraphElsewhere H V b receipt uri ∧ (offered H V receipt b' uri = none ∨
      TakenBefore H V b receipt uri ∨ ¬ ResultToHide H V b receiptUri receipt)) ∨
    ¬ GraphElsewhere H V b receipt uri ∧ ¬ ResultToHide H V b' receiptUri receipt

/-- The object offers the manager no result and is not the audit manifest, or no audit is due. -/
def AuditUntouched (H : Host β τ) (cfg : AuditJobConfig β) (b b' : Bucket β)
    (receipt : JobReceiptV3) (uri : String) : Prop :=
  offered H (verifierConfig cfg) receipt b' uri = none ∧
      manifestUri cfg b.name (auditJobId H.libraries.platform receipt) ≠ uri ∨
    ¬ AuditDue H cfg b receipt

theorem writtenFor_of_no_graph (habsent : b.objects.find? uri = none)
    (hgraph : ¬ GraphElsewhere H V b receipt uri) :
    writtenFor H V b receiptUri receipt = none := by
  rw [writtenFor_eq_none_iff]
  rintro ⟨audit, manifest, v, -, -, hmanifest, hverdict⟩
  apply hgraph
  rintro manifest' hmanifest' rfl
  rw [hmanifest] at hmanifest'
  cases hmanifest'
  unfold verdictFromAudit fetchManifestGraph GraphIr.fetchGraph at hverdict
  simp only [ReadProgram.run_bind, run_fetchJson] at hverdict
  obtain ⟨_, hread, -⟩ := bind_eq_ok.mp hverdict
  obtain ⟨_, hread, -⟩ := bind_eq_ok.mp hread
  obtain ⟨_, hread, -⟩ := bind_eq_ok.mp hread
  rw [Bucket.get_eq_ok, habsent] at hread
  exact absurd hread.2 (by simp)

theorem Adds.verdict_untouched_iff (h : Adds uri body b b')
    (huri : IsAuditUri V.netuid b.name uri)
    (hrejected : ∀ audit, b'.getJson H.libraries.platform uri >>= AuditResultV3.fromDict = .ok audit →
      verifyAuditResult V H.libraries.platform audit receipt ≠ .ok true) :
    writtenFor H V b' receiptUri receipt = writtenFor H V b receiptUri receipt ↔
      VerdictUntouched H V b b' receiptUri receipt uri := by
  unfold VerdictUntouched
  by_cases hgraph : GraphElsewhere H V b receipt uri
  · rw [h.writtenFor_eq_iff huri hgraph hrejected, writtenFor_eq_none_iff]
    simp [hgraph]
  · rw [writtenFor_of_no_graph h.absent hgraph, writtenFor_eq_none_iff]
    simp [hgraph]

end Influence

section Intruders

def unsignedAudit (receiptId : String) : AuditResultV3 :=
  { passedAudit "B" with receiptId := receiptId, auditorSignature := none }

/-- It sorts before the results of every auditor whose name starts with a letter. -/
def intruderUri : String := joinUri "b" (auditResultKey 0 "r" "0" "x")

def intrudedObjects (b : Bucket Json) (receiptId : String) : SortedDict String Json :=
  b.objects.insert intruderUri (unsignedAudit receiptId).toDict

def intruded (b : Bucket Json) (receiptId : String) : Bucket Json :=
  { b with objects := intrudedObjects b receiptId }

def xReceipt : JobReceiptV3 := signedReceipt "x" "A" "j"

/-- A verdict for the receipt `x` is in the bucket after a pass over the audit results. -/
def getsVerdict (b : Bucket Json) : Bool :=
  (consumeAuditResults scoringHost validator b).toOption.any fun out =>
    (out.2.objects.find? (xVerdictUri validator)).isSome

theorem intruded_adds {b : Bucket Json} (receiptId : String)
    (h : b.objects.find? intruderUri = none) :
    Adds intruderUri (unsignedAudit receiptId).toDict b (intruded b receiptId) where
  name := rfl
  absent := h
  present := by simp [intruded, intrudedObjects]
  others := fun other hother => by simp [intruded, intrudedObjects, hother]

theorem of_toOption_all {α : Type} {x : Py α} {P : α → Prop} [DecidablePred P]
    (h : x.toOption.all (fun a => decide (P a)) = true) {a : α} (hx : x = .ok a) : P a := by
  rw [hx] at h
  exact of_decide_eq_true h

end Intruders

end AuditInfluence

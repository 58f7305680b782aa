import Mathlib.Data.Prod.Lex
import Teuton.AuditJobs
import Teuton.ScoreIsolation

/-! Who audits whom. The audit job for a receipt goes to the auditor whose turn it is, and an
audit result counts whoever the auditor is, as long as the allowlist, if there is one, has its
hotkey. Neither side looks at the hotkey of the receipt. -/
namespace SelfAudits

open PyJson PyText Signatures ObjectStore BucketPaths Protocol Scheduler ScoreWindows
open ReplayVerifier VerdictWrites AuditJobs ScoreIsolation

variable {β τ ω : Type}

section Order

def sortKey (c : Candidate) : ℚ ×ₗ String ×ₗ String :=
  toLex (-c.priority, toLex (c.worker.hotkeySs58, c.worker.workerId))

theorem before_iff (c d : Candidate) : c.before d = true ↔ sortKey c < sortKey d := by
  rw [Candidate.before, decide_eq_true_eq, sortKey, sortKey, Prod.Lex.toLex_lt_toLex,
    Prod.Lex.toLex_lt_toLex, neg_lt_neg_iff, neg_inj, eq_comm (a := d.priority)]

theorem sortKey_firstCandidate_le {l : List Candidate} {c : Candidate}
    (h : firstCandidate l = some c) : ∀ d ∈ l, sortKey c ≤ sortKey d := by
  cases l with
  | nil => cases h
  | cons best rest =>
    cases h
    -- the fold keeps a candidate that is not behind any one it has seen
    have hfold : ∀ (l : List Candidate) (best : Candidate), ∀ d ∈ best :: l,
        sortKey (l.foldl (fun best d => if d.before best then d else best) best) ≤ sortKey d := by
      intro l
      induction l with
      | nil => simp
      | cons x l ih =>
        intro best d hd
        rw [List.foldl_cons]
        set next := if x.before best then x else best with hnext
        have hbest : sortKey next ≤ sortKey best ∧ sortKey next ≤ sortKey x := by
          by_cases hx : x.before best = true
          · rw [hnext, if_pos hx]
            exact ⟨((before_iff x best).mp hx).le, le_refl _⟩
          · rw [hnext, if_neg hx]
            exact ⟨le_refl _, not_lt.mp (mt (before_iff x best).mpr hx)⟩
        have hhead := ih next next List.mem_cons_self
        rcases List.mem_cons.mp hd with rfl | hd
        · exact hhead.trans hbest.1
        · rcases List.mem_cons.mp hd with rfl | hd
          · exact hhead.trans hbest.2
          · exact ih next d (List.mem_cons_of_mem _ hd)
    exact hfold rest best

structure IsCandidate (q : QuotaBook) (c : Candidate) : Prop where
  account : ∃ a ∈ q.accounts.vals, QuotaBook.eligible (fun _ => true) 1 a = true ∧
    c.worker ∈ a.workers.vals ∧ c.priority = a.priority ∧ c.account = a.hotkey
  satisfies : workerSatisfies {} c.worker = .ok true

theorem mem_candidates {q : QuotaBook} {candidates : List (List Candidate)}
    (h : (q.accounts.vals.filter (QuotaBook.eligible (fun _ => true) 1)).mapM (candidatesOf {}) =
      .ok candidates) {c : Candidate} : c ∈ candidates.flatten ↔ IsCandidate q c := by
  obtain ⟨hall, rfl⟩ := mapM_eq_ok.mp h
  rw [List.mem_flatten]
  constructor
  · rintro ⟨l, hl, hc⟩
    obtain ⟨a, ha, hl⟩ := List.mem_filterMap.mp hl
    obtain ⟨haccount, heligible⟩ := List.mem_filter.mp ha
    obtain ⟨hhotkey, hw, hpriority, hsatisfies⟩ := mem_candidatesOf (toOption_eq_some.mp hl) hc
    exact ⟨⟨a, haccount, heligible, hw, hpriority, hhotkey⟩, hsatisfies⟩
  · rintro ⟨⟨a, haccount, heligible, hw, hpriority, hhotkey⟩, hsatisfies⟩
    have ha := List.mem_filter.mpr ⟨haccount, heligible⟩
    obtain ⟨l, hl⟩ := hall a ha
    refine ⟨l, List.mem_filterMap.mpr ⟨a, ha, toOption_eq_some.mpr hl⟩, ?_⟩
    obtain ⟨found, hfound, hdone⟩ := bind_eq_ok.mp hl
    cases hdone
    obtain ⟨-, rfl⟩ := mapM_eq_ok.mp hfound
    obtain ⟨priority, worker, account⟩ := c
    obtain rfl : priority = a.priority := hpriority
    obtain rfl : account = a.hotkey := hhotkey
    refine List.mem_filterMap.mpr ⟨_, List.mem_filterMap.mpr ⟨worker, hw, ?_⟩, rfl⟩
    rw [show workerSatisfies {} worker = .ok true from hsatisfies]
    rfl

theorem picked_first {q q' : QuotaBook} {worker : WorkerIdentity}
    (h : q.pickWorker = .ok (worker, q')) :
    ∃ c, IsCandidate q c ∧ c.worker = worker ∧ ∀ d, IsCandidate q d → sortKey c ≤ sortKey d := by
  obtain ⟨candidates, hcandidates, h⟩ := bind_eq_ok.mp h
  split at h
  · cases h
  next c hc =>
  cases h
  refine ⟨c, (mem_candidates hcandidates).mp (firstCandidate_mem hc), rfl, ?_⟩
  intro d hd
  exact sortKey_firstCandidate_le hc d ((mem_candidates hcandidates).mpr hd)

/-- The next audit job goes to this hotkey: one of its workers may get it, and no worker of
another hotkey comes before. -/
def ComesFirst (q : QuotaBook) (hotkey : String) : Prop :=
  ∃ c, IsCandidate q c ∧ c.worker.hotkeySs58 = hotkey ∧
    ∀ d, IsCandidate q d → d.worker.hotkeySs58 ≠ hotkey → c.before d = true

theorem comesFirst_iff {q q' : QuotaBook} {worker : WorkerIdentity} {hotkey : String}
    (h : q.pickWorker = .ok (worker, q')) :
    worker.hotkeySs58 = hotkey ↔ ComesFirst q hotkey := by
  obtain ⟨c, hc, rfl, hfirst⟩ := picked_first h
  constructor
  · intro hhotkey
    refine ⟨c, hc, hhotkey, ?_⟩
    intro d hd hother
    have hne : sortKey c ≠ sortKey d := by
      intro heq
      apply hother
      rw [← hhotkey]
      exact (congrArg (fun k => (ofLex (ofLex k).2).1) heq).symm
    exact (before_iff c d).mpr (lt_of_le_of_ne (hfirst d hd) hne)
  · rintro ⟨d, hd, hhotkey, hbefore⟩
    by_contra hother
    exact absurd (hfirst d hd) (not_le.mpr ((before_iff d c).mp (hbefore c hc hother)))

end Order

section Verdicts

variable {H : Host β τ} {V : ValidatorConfig β} {b b' : Bucket β}

theorem writeVerdicts_new
    {judge : Bucket β → String → JobReceiptV3 → Py (Option VerificationVerdictV3)}
    {maxReceipts : Option ℤ} {l : List (String × JobReceiptV3)} {checked n : ℤ}
    (h : writeVerdicts H V judge maxReceipts l checked b = .ok (n, b')) (uri : String) :
    b'.objects.find? uri = b.objects.find? uri ∨
      ∃ item ∈ l, verdictUri V b.name item.2 = uri ∧ ∃ b₀ v,
        judge b₀ item.1 item.2 = .ok (some v) ∧
        b'.objects.find? uri = some (H.libraries.platform.dumps v.toDict) := by
  induction l generalizing checked b with
  | nil =>
    cases h
    exact Or.inl rfl
  | cons item l ih =>
    obtain ⟨receiptUri, receipt⟩ := item
    have hrest : ∀ {checked' : ℤ} {b₁ : Bucket β},
        writeVerdicts H V judge maxReceipts l checked' b₁ = .ok (n, b') → b₁.name = b.name →
        b'.objects.find? uri = b₁.objects.find? uri ∨
          ∃ item ∈ (receiptUri, receipt) :: l, verdictUri V b.name item.2 = uri ∧ ∃ b₀ v,
            judge b₀ item.1 item.2 = .ok (some v) ∧
            b'.objects.find? uri = some (H.libraries.platform.dumps v.toDict) := by
      intro checked' b₁ hrun hname
      refine (ih hrun).imp_right ?_
      rintro ⟨item, hitem, hpath, hjudged⟩
      exact ⟨item, List.mem_cons_of_mem _ hitem, hname ▸ hpath, hjudged⟩
    rw [writeVerdicts] at h
    split_ifs at h
    · cases h
      exact Or.inl rfl
    obtain ⟨found, hfound, h⟩ := bind_eq_ok.mp h
    cases found with
    | true => exact hrest h rfl
    | false =>
      simp only [Bool.false_eq_true, if_false] at h
      obtain ⟨judged, hjudged, h⟩ := bind_eq_ok.mp h
      cases judged with
      | none => exact hrest h rfl
      | some v =>
        obtain ⟨b₁, hput, h⟩ := bind_eq_ok.mp h
        obtain ⟨-, rfl⟩ := (putJson_eq_ok H V).mp hput
        rcases hrest h rfl with hsame | hnew
        · by_cases huri : uri = verdictUri V b.name receipt
          · refine Or.inr ⟨(receiptUri, receipt), List.mem_cons_self, huri.symm, b, v, hjudged, ?_⟩
            rw [hsame, find?_store, if_pos huri]
          · rw [find?_store, if_neg huri] at hsame
            exact Or.inl hsame
        · exact Or.inr hnew

/-- The verdict carries the audit result, whose auditor passed the checks. -/
structure DerivedFrom (H : Host β τ) (V : ValidatorConfig β) (receipt : JobReceiptV3)
    (audit : AuditResultV3) (v : VerificationVerdictV3) : Prop where
  verified : verifyAuditResult V H.libraries.platform audit receipt = .ok true
  carried : v.comparison = [("audit", audit.toDict)]
  status : v.status = audit.status

theorem derivedFrom_of_judge {uri : String} {receipt : JobReceiptV3} {v : VerificationVerdictV3}
    (h : judgeByAuditResult H V b uri receipt = .ok (some v)) :
    ∃ audit, findAuditResult H V b receipt = some audit ∧ DerivedFrom H V receipt audit v := by
  unfold judgeByAuditResult at h
  split at h
  · cases h
  next audit haudit =>
  obtain ⟨valid, hvalid, h⟩ := bind_eq_ok.mp h
  cases valid with
  | false => cases h
  | true =>
    obtain ⟨manifest, -, h⟩ := bind_eq_ok.mp h
    obtain ⟨v', hv, h⟩ := bind_eq_ok.mp h
    cases h
    simp only [verdictFromAudit, ReadProgram.run_bind] at hv
    obtain ⟨graph, -, hv⟩ := bind_eq_ok.mp hv
    obtain ⟨cu, -, hv⟩ := bind_eq_ok.mp hv
    cases hv
    exact ⟨audit, haudit, hvalid, rfl, rfl⟩

theorem verifyAuditResult_eq_true {p : Platform β} {audit : AuditResultV3}
    {receipt : JobReceiptV3} : verifyAuditResult V p audit receipt = .ok true ↔
      ∃ signature, audit.auditorSignature = some signature ∧ signature ≠ "" ∧
        audit.receiptId = receipt.receiptId ∧ audit.manifestHash = receipt.manifestHash ∧
        (V.auditEligibleHotkeys = [] ∨ audit.auditorHotkey ∈ V.auditEligibleHotkeys) ∧
        verifyIdentityDict p audit.unsignedDict audit.auditorHotkey signature = .ok true := by
  unfold verifyAuditResult
  cases audit.auditorSignature with
  | none => simp
  | some signature =>
    simp only [Option.some.injEq, exists_eq_left']
    split_ifs with hempty hids hlist
    · simp [hempty]
    · constructor
      · intro h
        cases h
      · rintro ⟨-, hreceipt, hmanifest, -⟩
        exact absurd hids (by simp [hreceipt, hmanifest])
    · constructor
      · intro h
        cases h
      · rintro ⟨-, -, -, hallowed, -⟩
        rcases hallowed with hnil | hmem
        · exact absurd hlist.1 (by simp [hnil])
        · exact absurd hmem hlist.2
    · obtain ⟨hreceipt, hmanifest⟩ := not_or.mp hids
      have hallowed : V.auditEligibleHotkeys = [] ∨
          audit.auditorHotkey ∈ V.auditEligibleHotkeys := by
        by_contra hnot
        obtain ⟨hnil, hmem⟩ := not_or.mp hnot
        exact hlist ⟨by simpa using hnil, hmem⟩
      exact ⟨fun h => ⟨hempty, not_not.mp hreceipt, not_not.mp hmanifest, hallowed, h⟩,
        fun h => h.2.2.2.2⟩

theorem DerivedFrom.listed {receipt : JobReceiptV3} {audit : AuditResultV3}
    {v : VerificationVerdictV3} (h : DerivedFrom H V receipt audit v)
    (hlist : V.auditEligibleHotkeys ≠ []) : audit.auditorHotkey ∈ V.auditEligibleHotkeys := by
  obtain ⟨_, -, -, -, -, hallowed, -⟩ := verifyAuditResult_eq_true.mp h.verified
  exact hallowed.resolve_left hlist

end Verdicts

section Miners

variable [DecidableEq ω]

end Miners

section Auditors

def gpuWorker (hotkey : String) : WorkerIdentity where
  hotkeySs58 := hotkey
  workerId := "w"
  hostId := "host"
  gpuIndex := some 0
  sessionNonce := "nonce"

def twoAuditors : Office Json Unit where
  bucket := jobBucket
  queues := ⟨CasCell.absent, fun _ => {}, fun _ => none, fun _ => []⟩
  quotas := fun _ => QuotaBook.updateWorkers {} [] [gpuWorker "A", gpuWorker "B"]

def auditConfig : AuditJobConfig Json := { netuid := 0, runId := "r", validatorHotkey := "v" }

def auditOf (hotkey : String) : EStateM.Result Halt (Office Json Unit) JobManifestV3 :=
  emitAuditJob scoringHost auditConfig (fun _ => none) () 0 "s3://b/receipt"
    (signedReceipt "x" hotkey "j") idleJob "audit" twoAuditors

def assigneeOf (hotkey : String) : Option String :=
  match auditOf hotkey with
  | .ok m _ => some m.assignedHotkey
  | .error _ _ => none

theorem auditOf_eq_ok {hotkey auditor : String} (h : assigneeOf hotkey = some auditor) :
    ∃ m t, auditOf hotkey = .ok m t ∧ m.assignedHotkey = auditor := by
  unfold assigneeOf at h
  split at h
  · next m t hrun => exact ⟨m, t, hrun, Option.some.inj h⟩
  · cases h

def passedAudit (auditor : String) : AuditResultV3 :=
  AuditResultV3.sign plainPlatform
    { auditId := "audit", receiptId := "x", manifestHash := idleJob.manifestHash plainPlatform
      jobId := "j", runId := "r", minerHotkey := "A", auditorHotkey := auditor, status := "pass"
      reason := "ok", replayComputeSec := .finite 1, checkedUnix := .finite 2 }
    (.secret auditor)

def withAudit (b : Bucket Json) (auditor : String) : SortedDict String Json :=
  b.objects.insert (joinUri "b" (auditResultKey 0 "r" auditor "x")) (passedAudit auditor).toDict

def auditedBucket (auditor : String) : Bucket Json :=
  { honestBucket with objects := withAudit honestBucket auditor }

def xVerdictUri (V : ValidatorConfig Json) : String :=
  verdictUri V "b" (signedReceipt "x" "A" "j")

/-- The verdict for the receipt after a pass over the audit results: its status, and the auditor
of the result that it carries. -/
def verdictOf (V : ValidatorConfig Json) (auditor : String) : Option (String × Option String) :=
  (consumeAuditResults scoringHost V (auditedBucket auditor)).toOption.bind fun out =>
    ((out.2.getJson plainPlatform (xVerdictUri V)).bind
      VerificationVerdictV3.fromDict).toOption.map fun v =>
        (v.status, (field? "audit" v.comparison).bind fun j =>
          (AuditResultV3.fromDict j).toOption.map AuditResultV3.auditorHotkey)

def listingValidator : ValidatorConfig Json := { validator with auditEligibleHotkeys := ["B"] }

end Auditors

end SelfAudits

import Teuton.ScoreIsolation

/-! Receipts whose audit has to wait for a drand round. The audit is inconclusive while an artifact
is locked, and the pass stores this verdict like any other; later passes skip receipts that have a
verdict, so that the receipt is judged again only if the verdict is taken away. -/
namespace TimelockedReceipts

open PyJson Signatures ObjectStore BucketPaths Protocol AuditReplay
open ScoreWindows ReplayVerifier VerdictObjects VerdictWrites ScoreIsolation ProtocolRoundTrip

variable {β τ : Type}

def AuditPending (H : Host β τ) (V : ValidatorConfig β) (b : Bucket β)
    (item : String × JobReceiptV3) : Prop :=
  ∃ manifest message c,
    (findManifest H.libraries.platform b.name V.netuid item.2).run b.get = .ok manifest ∧
    (checkReceipt H.libraries (auditConfig V) (H.auditTimes item.1) manifest item.2
      { receiptUri := item.1 }).run b.get = .ok (.error (.timelockPending message), c)

/-- In the pass over `l`, the turn of the receipt comes on the bucket `turn`, and the verdict `v`
is stored. -/
def JudgedAt (H : Host β τ) (V : ValidatorConfig β) (l : List (String × JobReceiptV3))
    (b b' : Bucket β) (item : String × JobReceiptV3) (turn : Bucket β) (v : VerificationVerdictV3) :
    Prop :=
  ∃ l₁ l₂, l = l₁ ++ item :: l₂ ∧ Writes H V l₁ b turn ∧
    turn.objects.find? (verdictUri V turn.name item.2) = none ∧
    (verify H V turn.name item.1 item.2).run turn.get = .ok v ∧
    Writes H V l₂ (store H V turn item.2 v) b'

/-- A pass in which the audit of the receipt has met a locked artifact. -/
def PendingPass (H : Host β τ) (V : ValidatorConfig β) (b b' : Bucket β)
    (item : String × JobReceiptV3) : Prop :=
  (∃ n, runOnce H V b = .ok (n, b')) ∧
    ∃ turn v, JudgedAt H V (sampleReceipts H V b) b b' item turn v ∧ AuditPending H V turn item

/-- Nothing has changed since, or the verdict of this receipt has been taken away. -/
structure Between (V : ValidatorConfig β) (b b' : Bucket β) (receipt : JobReceiptV3) : Prop where
  agree : AgreeOn (· ≠ verdictUri V b.name receipt) b b'
  verdict : b'.objects.find? (verdictUri V b.name receipt) =
      b.objects.find? (verdictUri V b.name receipt) ∨
    b'.objects.find? (verdictUri V b.name receipt) = none

/-- The pass from `b` to `b'` leaves for the receipt the verdict of an audit of its own. -/
def Settled (H : Host β τ) (V : ValidatorConfig β) (b b' : Bucket β)
    (item : String × JobReceiptV3) : Prop :=
  ∃ turn v, AgreeOn (fun uri => ¬ IsVerdictUri V b.name uri) b turn ∧
    (verify H V b.name item.1 item.2).run turn.get = .ok v ∧
    b'.objects.find? (verdictUri V b.name item.2) = some (H.libraries.platform.dumps v.toDict)

section Passes

variable {H H' : Host β τ} {V : ValidatorConfig β} {b b' b₁ b₂ b₃ turn : Bucket β}
variable {item : String × JobReceiptV3} {l : List (String × JobReceiptV3)}
variable {v : VerificationVerdictV3}

theorem verify_audit {bucket uri : String} {receipt : JobReceiptV3} {s : String → Py β}
    (h : (verify H V bucket uri receipt).run s = .ok v) :
    ∃ manifest audit,
      (findManifest H.libraries.platform bucket V.netuid receipt).run s = .ok manifest ∧
      (AuditReplay.run H.libraries (auditConfig V) (H.auditTimes uri) uri manifest receipt
        V.validatorHotkey).run s = .ok audit ∧ v.status = audit.status := by
  unfold verify verdictFromAudit at h
  simp only [ReadProgram.run_bind] at h
  obtain ⟨manifest, hmanifest, h⟩ := bind_eq_ok.mp h
  obtain ⟨audit, haudit, h⟩ := bind_eq_ok.mp h
  obtain ⟨graph, -, h⟩ := bind_eq_ok.mp h
  obtain ⟨cu, -, h⟩ := bind_eq_ok.mp h
  cases h
  exact ⟨manifest, audit, hmanifest, haudit, rfl⟩

theorem status_of_pending (hpending : AuditPending H V turn item)
    (h : (verify H V turn.name item.1 item.2).run turn.get = .ok v) :
    v.status = "inconclusive" := by
  obtain ⟨manifest, message, c, hmanifest, hcheck⟩ := hpending
  obtain ⟨manifest', audit, hmanifest', haudit, hstatus⟩ := verify_audit h
  rw [hmanifest] at hmanifest'
  cases hmanifest'
  unfold AuditReplay.run at haudit
  rw [ReadProgram.run_bind, hcheck] at haudit
  cases haudit
  exact hstatus

theorem JudgedAt.stored (h : JudgedAt H V l b b' item turn v) :
    b'.objects.find? (verdictUri V b.name item.2) =
      some (H.libraries.platform.dumps v.toDict) := by
  obtain ⟨l₁, l₂, -, hbefore, -, -, hafter⟩ := h
  rw [← hbefore.name]
  apply hafter.keeps
  rw [find?_store, if_pos rfl]

theorem Writes.judged (h : Writes H V l b b') (hitem : item ∈ l)
    (habsent : b.objects.find? (verdictUri V b.name item.2) = none)
    (halone : ∀ other ∈ l, other ≠ item →
      verdictUri V b.name other.2 ≠ verdictUri V b.name item.2) :
    ∃ turn v, JudgedAt H V l b b' item turn v := by
  induction h with
  | nil b => cases hitem
  | @skip uri receipt rest b b' valid present tail ih =>
    rcases List.mem_cons.mp hitem with rfl | hrest
    · exact absurd habsent present
    · obtain ⟨turn, v, l₁, l₂, rfl, hbefore, hrun⟩ :=
        ih hrest habsent fun other ho => halone other (List.mem_cons_of_mem _ ho)
      exact ⟨turn, v, (uri, receipt) :: l₁, l₂, rfl, .skip valid present hbefore, hrun⟩
  | @write uri receipt rest b b' w valid absent verified tail ih =>
    by_cases hhead : (uri, receipt) = item
    · subst hhead
      exact ⟨b, w, [], rest, rfl, .nil b, absent, verified, tail⟩
    · have hrest : item ∈ rest := (List.mem_cons.mp hitem).resolve_left (Ne.symm hhead)
      have hne := halone (uri, receipt) List.mem_cons_self hhead
      have hstill : (store H V b receipt w).objects.find? (verdictUri V b.name item.2) = none := by
        rw [find?_store, if_neg (Ne.symm hne)]
        exact habsent
      obtain ⟨turn, v, l₁, l₂, rfl, hbefore, hrun⟩ :=
        ih hrest hstill fun other ho => halone other (List.mem_cons_of_mem _ ho)
      exact ⟨turn, v, (uri, receipt) :: l₁, l₂, rfl, .write valid absent verified hbefore, hrun⟩

theorem mem_listedReceipts_agree (H' : Host β τ)
    (hsame : H'.libraries.platform = H.libraries.platform)
    (h : AgreeOn (fun uri => ¬ IsVerdictUri V b.name uri) b b')
    (hitem : item ∈ listedReceipts H V b) : item ∈ listedReceipts H' V b' := by
  obtain ⟨hlisted, hload⟩ := mem_listedReceipts.mp hitem
  obtain ⟨hfind, hunder⟩ := mem_jsonUris.mp hlisted
  have hobject : b'.objects.find? item.1 = b.objects.find? item.1 := by
    apply h.objects
    intro hverdict
    exact listed_not_onBranch (receiptsPrefix_branch _ _) (by decide) hunder (hverdict.onBranch V)
  refine mem_listedReceipts.mpr ⟨mem_jsonUris.mpr ⟨by rw [hobject]; exact hfind, ?_⟩, ?_⟩
  · rw [h.name]
    exact hunder
  · rw [hsame, loadReceipt_congr hobject]
    exact hload

theorem Between.agreeOnOthers (h : Between V b b' item.2) :
    AgreeOn (fun uri => ¬ IsVerdictUri V b.name uri) b b' := by
  refine ⟨h.agree.name, ?_⟩
  intro uri huri
  apply h.agree.objects
  rintro rfl
  exact huri (verdictUri_isVerdict V item.2)

theorem status_of_dumps {p : Platform β} (hp : p.Lawful) {v w : VerificationVerdictV3}
    (hv : WellTypedVerdict v) (hw : WellTypedVerdict w) (h : p.dumps v.toDict = p.dumps w.toDict) :
    v.status = w.status := by
  have hcanonical : ∀ u : VerificationVerdictV3, WellTypedVerdict u → Canonical u.toDict :=
    fun u hu => (canonical_signed (verdict_unsignedFields_canonical hu) (by simp)).1
  have hloads := congrArg p.loads h
  rw [hp.loads_dumps _ (hcanonical v hv), hp.loads_dumps _ (hcanonical w hw)] at hloads
  have hdict := congrArg VerificationVerdictV3.fromDict (Except.ok.inj hloads)
  rw [verdict_fromDict_toDict, verdict_fromDict_toDict] at hdict
  exact congrArg VerificationVerdictV3.status (Except.ok.inj hdict)

end Passes

section Locked

def drand (revealed : Bool) : ArtifactCrypto.TimelockProvider Json where
  encrypt := fun body _ _ => .ok body
  decrypt := fun _ round _ =>
    if revealed then .ok (.int 7)
    else .error (.timelockPending ("drand round " ++ toString round ++ " is not revealed"))

def lockedHost (revealed : Bool) : Host Json ℤ :=
  { scoringHost with libraries := { scoringHost.libraries with timelock := drand revealed } }

def lockedPolicy : ArtifactCryptoPolicy :=
  { mode := CryptoMode.drandTimelock.value, drandRound := some 10 }

def lockedJob : JobManifestV3 :=
  JobManifestV3.sign plainPlatform
    { jobId := "j", runId := "r", stepId := 0, kind := "train"
      graphRef := { sha256 := PassedReceipts.constGraph.graphId plainPlatform, uri := "s3://b/g" }
      params := [], inputs := []
      outputs := [{ name := "y", uri := "s3://b/y", crypto := some lockedPolicy }]
      assignedHotkey := "A", assignedWorker := none, attempt := 0, deadlineUnix := 0
      createdUnix := 0 }
    (.secret "owner-dev-secret")

def lockedReceipt : JobReceiptV3 :=
  (plainReceipt "x" "A" "j" (lockedJob.manifestHash plainPlatform)).sign plainPlatform
    (.secret "miner-dev-secret")

def lockedOutput : Json :=
  ((ArtifactCrypto.encodeEnvelope plainPlatform (drand false)
    (some (hmacSigner plainPlatform "A" "A")) "teuton-dev-encryption" (.int 7)
    (some lockedPolicy)).toOption).getD .null

def lockedBucket : Bucket Json where
  name := "b"
  objects := .ofEntries
    [("s3://b/g", PassedReceipts.constGraph.toDict), ("s3://b/y", lockedOutput),
     (joinUri "b" (jobManifestKey 0 "r" "j"), lockedJob.toDict plainPlatform),
     (joinUri "b" (receiptKey 0 "r" "A" "j" 0), lockedReceipt.toDict)]

def lockedItem : String × JobReceiptV3 := (joinUri "b" (receiptKey 0 "r" "A" "j" 0), lockedReceipt)

def storedStatus (b : Bucket Json) : Option String :=
  (b.getJson plainPlatform (verdictUri validator b.name lockedReceipt) >>=
    VerificationVerdictV3.fromDict).toOption.map VerificationVerdictV3.status

def freshStatus (b : Bucket Json) : Option String :=
  ((verify (lockedHost true) validator b.name lockedItem.1 lockedReceipt).run b.get).toOption.map
    VerificationVerdictV3.status

def raised (b : Bucket Json) : Option PyErr :=
  ((findManifest plainPlatform b.name 0 lockedReceipt).run b.get).toOption.bind fun manifest =>
    ((checkReceipt (lockedHost false).libraries (auditConfig validator)
      ((lockedHost false).auditTimes lockedItem.1) manifest lockedReceipt
      { receiptUri := lockedItem.1 }).run b.get).toOption.bind fun result =>
        match result.1 with
        | .error e => some e
        | .ok _ => none

theorem pending_of_raised {b : Bucket Json} {message : String}
    (h : raised b = some (.timelockPending message)) :
    AuditPending (lockedHost false) validator b lockedItem := by
  obtain ⟨manifest, hmanifest, h⟩ := Option.bind_eq_some_iff.mp h
  obtain ⟨⟨r, c⟩, hcheck, h⟩ := Option.bind_eq_some_iff.mp h
  cases r with
  | ok outcome => cases h
  | error e =>
    cases h
    exact ⟨manifest, message, c, toOption_eq_some.mp hmanifest, toOption_eq_some.mp hcheck⟩

def withoutVerdict (b : Bucket Json) : Bucket Json :=
  { b with objects := b.objects.erase (verdictUri validator b.name lockedReceipt) }

/-- A pass before the round, then the status of a fresh audit after it, the status that a second
pass after the round leaves, and whether such a pass returns when the verdict is taken away. -/
def twoPasses (b : Bucket Json) : Option (Option String × Option String × Bool) :=
  (runOnce (lockedHost false) validator b).toOption.bind fun first =>
    (runOnce (lockedHost true) validator first.2).toOption.map fun second =>
      (freshStatus first.2, storedStatus second.2,
        (runOnce (lockedHost true) validator (withoutVerdict first.2)).toOption.isSome)

-- one evaluation, so that the kernel shares what the runs have in common
theorem locked_facts : (raised lockedBucket, twoPasses lockedBucket) =
    (some (.timelockPending "drand round 10 is not revealed"),
      some (some "pass", some "inconclusive", true)) := by decide +kernel

theorem locked_pending : AuditPending (lockedHost false) validator lockedBucket lockedItem :=
  pending_of_raised (Prod.mk.inj locked_facts).1

theorem locked_listed (revealed : Bool) :
    listedReceipts (lockedHost revealed) validator lockedBucket = [lockedItem] := by
  have huris : jsonUris lockedBucket (receiptsPrefix 0 "r") = [lockedItem.1] := by decide +kernel
  have hvalid : ValidUri lockedItem.1 := by decide +kernel
  have hloads : loadReceipt plainPlatform lockedBucket lockedItem.1 = .ok lockedReceipt := by
    refine loadReceipt_plain (Bucket.get_eq_ok.mpr ⟨hvalid, ?_⟩)
      (plainReceipt_wellTyped "x" "A" "j" (lockedJob.manifestHash plainPlatform))
    rw [lockedBucket, SortedDict.find?_ofEntries]
    simp [lockedItem]
  change (jsonUris lockedBucket (receiptsPrefix 0 "r")).filterMap (fun uri =>
    (loadReceipt plainPlatform lockedBucket uri).toOption.map (uri, ·)) = _
  rw [huris, List.filterMap_cons, hloads]
  rfl

theorem sampled_locked {revealed : Bool} {b : Bucket Json} {other : String × JobReceiptV3}
    (h : AgreeOn (fun uri => ¬ IsVerdictUri validator b.name uri) b lockedBucket)
    (hother : other ∈ sampleReceipts (lockedHost revealed) validator b) : other = lockedItem := by
  have hmem := mem_listedReceipts_agree (lockedHost revealed) rfl h
    ((mem_sampleReceipts (le_refl 1)).mp hother)
  rw [locked_listed] at hmem
  exact List.mem_singleton.mp hmem

theorem withoutVerdict_between (b : Bucket Json) :
    Between validator b (withoutVerdict b) lockedReceipt := by
  refine ⟨⟨rfl, ?_⟩, .inr ?_⟩
  · intro uri huri
    exact (SortedDict.find?_erase _ _ _).trans (if_neg huri)
  · exact (SortedDict.find?_erase _ _ _).trans (if_pos rfl)

theorem pendingPass_locked {n : ℤ} {b₁ : Bucket Json}
    (h : runOnce (lockedHost false) validator lockedBucket = .ok (n, b₁)) :
    PendingPass (lockedHost false) validator lockedBucket b₁ lockedItem := by
  have hsame : ∀ other ∈ sampleReceipts (lockedHost false) validator lockedBucket,
      other = lockedItem := fun other => sampled_locked ⟨rfl, fun _ _ => rfl⟩
  have hitem : lockedItem ∈ sampleReceipts (lockedHost false) validator lockedBucket := by
    rw [mem_sampleReceipts (le_refl 1), locked_listed]
    exact List.mem_singleton_self _
  have habsent : lockedBucket.objects.find? (verdictUri validator "b" lockedReceipt) = none := by
    have hnot : verdictUri validator "b" lockedReceipt ∉ lockedBucket.objects.keys := by
      decide +kernel
    by_contra hfind
    exact hnot (SortedDict.mem_keys.mpr hfind)
  obtain ⟨turn, v, hjudged⟩ := Writes.judged (writes_of_writeVerdicts _ _ h) hitem habsent
    fun other hother hne => absurd (hsame other hother) hne
  refine ⟨⟨n, h⟩, turn, v, hjudged, ?_⟩
  -- nothing comes before the only receipt of the pass
  obtain ⟨l₁, l₂, hsplit, hbefore, -, -, -⟩ := hjudged
  have hlength : (sampleReceipts (lockedHost false) validator lockedBucket).length = 1 := by
    rw [sampleReceipts, (shuffle_perm _ _).length_eq, locked_listed]
    rfl
  rw [hsplit] at hlength
  obtain rfl : l₁ = [] := by
    apply List.eq_nil_of_length_eq_zero
    simp at hlength
    omega
  cases hbefore
  exact locked_pending

end Locked

end TimelockedReceipts

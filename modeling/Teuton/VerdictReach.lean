import Teuton.ScoreIsolation

/-! Where the verifier writes verdicts and where the scoring looks for them. The path of a
verdict is built from the run named in the receipt and from the receipt id with its slashes and
colons replaced; the scoring lists the configured run and joins by the receipt id itself. -/
namespace VerdictReach

open PyJson PyText Signatures ObjectStore BucketPaths Protocol ScoreWindows
open BucketBranches ReplayVerifier VerdictObjects VerdictWrites ScoreIsolation

variable {β τ : Type}

/-- The scoring finds a verdict for every receipt of the run, so that no window counts more
receipts than verdicts. -/
def VerdictsReachScores (p : Platform β) (b : Bucket β) (a : ScoreArgs) : Prop :=
  (∃ receipts verdicts, loadReceipts p b a = .ok receipts ∧ loadVerdicts p b a = .ok verdicts ∧
    ∀ r ∈ receipts, ((KeyedDict.ofList verdicts : Verdicts).get? r.receiptId).isSome) ∧
  ∀ windows b', summarizeScores p b a = .ok (windows, b') →
    ∀ w ∈ windows.vals, w.verdicts = w.receipts

def OwnCredentials (p : Platform β) (V : ValidatorConfig β) (a : ScoreArgs) : Prop :=
  ∀ v : VerificationVerdictV3,
    v.validatorSignature = some (recordSignature p v.unsignedDict (verdictSigner V)) →
      verdictValid p a v = .ok true

structure NoVerdicts (V : ValidatorConfig β) (b : Bucket β) : Prop where
  none_stored : ∀ uri, IsVerdictUri V b.name uri → b.objects.find? uri = none
  none_listed : jsonUris b (verdictsPrefix V.netuid V.runId) = []

/-- The directory for the verdicts of the run that the receipt names is below that of the
configured run; for run names without slashes, the two are the same. -/
def NamesThisRun (V : ValidatorConfig β) (r : JobReceiptV3) : Prop :=
  startsWith (r.runId ++ "/validator=" ++ V.validatorHotkey ++ "/") (V.runId ++ "/") = true

instance (V : ValidatorConfig β) (r : JobReceiptV3) : Decidable (NamesThisRun V r) :=
  inferInstanceAs (Decidable (_ = true))

/-- Two receipts of one run whose ids look alike in a key have the same id. -/
def IdsStayApart (rs : List JobReceiptV3) : Prop :=
  ∀ r ∈ rs, ∀ r' ∈ rs, r.runId = r'.runId → safeId r.receiptId = safeId r'.receiptId →
    r.receiptId = r'.receiptId

section Paths

variable {V : ValidatorConfig β} {bucket : String} {r r' : JobReceiptV3}

theorem safeId_no_slash (receiptId : String) : '/' ∉ (safeId receiptId ++ ".json").toList := by
  have hinner := replaceChar_not_mem (show '/' ≠ '_' by decide) receiptId
  have houter : '/' ∉ (safeId receiptId).toList := by
    simp only [safeId, replaceChar.eq_def ':', String.toList_ofList, List.mem_map, not_exists,
      not_and]
    intro c hc heq
    split_ifs at heq with hcolon
    · exact absurd heq (by decide)
    · rw [heq] at hc
      exact hinner hc
  rw [String.toList_append, List.mem_append, not_or]
  exact ⟨houter, by decide⟩

theorem verdictUri_eq (V : ValidatorConfig β) (bucket : String) (r : JobReceiptV3) :
    verdictUri V bucket r =
      joinUri bucket (root V.netuid ++ "/verdicts/") ++
        (r.runId ++ "/validator=" ++ V.validatorHotkey) ++ "/" ++ (safeId r.receiptId ++ ".json") := by
  have hpart : "/validator=" = "/" ++ "validator=" := rfl
  simp only [verdictUri, verdictKey, verdictsPrefix, joinUri, String.append_assoc, hpart]

theorem verdictUri_cut (V : ValidatorConfig β) (bucket : String) (r : JobReceiptV3) :
    (verdictUri V bucket r).toList =
      (joinUri bucket (root V.netuid ++ "/verdicts/") ++
        (r.runId ++ "/validator=" ++ V.validatorHotkey)).toList ++
          '/' :: (safeId r.receiptId ++ ".json").toList := by
  rw [verdictUri_eq, String.toList_append, String.toList_append, List.append_assoc]
  rfl

theorem verdictUri_eq_iff : verdictUri V bucket r = verdictUri V bucket r' ↔
    r.runId = r'.runId ∧ safeId r.receiptId = safeId r'.receiptId := by
  constructor
  · intro h
    have hlists := congrArg String.toList h
    rw [verdictUri_cut, verdictUri_cut] at hlists
    obtain ⟨hdir, hname⟩ := cut_at_last (safeId_no_slash _) (safeId_no_slash _) hlists
    simp only [String.toList_append, List.append_assoc] at hdir hname
    have hrun := List.append_cancel_right (List.append_cancel_left hdir)
    exact ⟨String.toList_inj.mp hrun, String.toList_inj.mp (List.append_cancel_right hname)⟩
  · rintro ⟨hrun, hid⟩
    simp only [verdictUri, verdictKey, hrun, hid]

theorem startsWith_verdictUri (V : ValidatorConfig β) (bucket : String) (r : JobReceiptV3) :
    startsWith (verdictUri V bucket r) (joinUri bucket (verdictsPrefix V.netuid V.runId)) = true ↔
      NamesThisRun V r := by
  have hpre : (joinUri bucket (verdictsPrefix V.netuid V.runId)).toList =
      (joinUri bucket (root V.netuid ++ "/verdicts/") ++ V.runId).toList ++ ['/'] := by
    simp only [joinUri, verdictsPrefix, String.toList_append, List.append_assoc]
    rfl
  rw [NamesThisRun, startsWith, startsWith, List.isPrefixOf_iff_prefix,
    List.isPrefixOf_iff_prefix, hpre, verdictUri_cut, isPrefix_up_to_last (safeId_no_slash _)]
  simp only [String.toList_append, List.append_assoc, List.prefix_append_right_inj]
  rfl

theorem validUri_of_longer {key more : String} (hkey : key ≠ "")
    (h : ValidUri (joinUri bucket (key ++ more))) : ValidUri (joinUri bucket key) := by
  refine parseUri_joinUri_of_parse hkey (fun hline => ?_) h
  rw [String.toList_append]
  exact List.mem_append_left _ hline

theorem isListed_verdictUri (hvalid : ValidUri (verdictUri V bucket r)) :
    isListed bucket (verdictsPrefix V.netuid V.runId) (verdictUri V bucket r) = true ↔
      NamesThisRun V r := by
  have hjson : endsWith (verdictUri V bucket r) ".json" = true := by
    rw [verdictUri_eq]
    exact endsWith_append_right _ (endsWith_append_right _ (endsWith_self ".json"))
  rw [isListed, hjson, Bool.true_and, ← startsWith_verdictUri V bucket r]
  unfold listStart
  split
  · rfl
  · next e herror =>
    -- the prefix is no key: then nothing of the verdict tree is listed, and no key starts with it
    constructor
    · intro hnested
      exact absurd ((verdictUri_isVerdict V r).onBranch V) (not_onBranch_of_nested hnested)
    · intro hstart
      obtain ⟨rest, hrest⟩ := startsWith_iff.mp hstart
      have hlonger : verdictUri V bucket r =
          joinUri bucket (verdictsPrefix V.netuid V.runId ++ String.ofList rest) := by
        apply String.toList_inj.mp
        rw [hrest]
        simp [joinUri, String.toList_append]
      have hnonempty : verdictsPrefix V.netuid V.runId ≠ "" := by
        intro hempty
        have := congrArg String.length hempty
        simp [verdictsPrefix] at this
      obtain ⟨parts, hparts⟩ := validUri_of_longer hnonempty (hlonger ▸ hvalid)
      rw [herror] at hparts
      cases hparts

end Paths

section Windows

theorem verdicts_eq_receipts (p : Platform β) (b : Bucket β) (a : ScoreArgs) (verdicts : Verdicts)
    {receipts : List JobReceiptV3}
    (h : ∀ r ∈ receipts, (verdicts.get? r.receiptId).isSome) (hotkey : String)
    {w : MinerScoreWindow}
    (hw : (scoreReceipts p b a verdicts receipts).windows.get? hotkey = some w) :
    w.verdicts = w.receipts := by
  induction receipts using List.reverseRecOn generalizing w with
  | nil => cases hw
  | append_singleton rs r ih =>
    rw [scoreReceipts_append, get?_scoreReceipt] at hw
    have hrs : ∀ {w}, (scoreReceipts p b a verdicts rs).windows.get? hotkey = some w →
        w.verdicts = w.receipts := ih fun r' hr' => h r' (List.mem_append_left _ hr')
    split_ifs at hw
    · obtain ⟨v, hv⟩ := Option.isSome_iff_exists.mp (h r (by simp))
      cases hw
      have hbefore : (windowOf a (scoreReceipts p b a verdicts rs).windows hotkey).verdicts =
          (windowOf a (scoreReceipts p b a verdicts rs).windows hotkey).receipts := by
        rw [windowOf]
        cases hfind : (scoreReceipts p b a verdicts rs).windows.get? hotkey with
        | none => rfl
        | some w => exact hrs hfind
      rw [hv, creditWindow]
      dsimp only
      split_ifs <;> simp only [hbefore]
    · exact hrs hw

theorem windows_balanced {p : Platform β} {b b' : Bucket β} {a : ScoreArgs}
    {receipts : List JobReceiptV3} {verdicts : List VerificationVerdictV3} {windows : Windows}
    (hreceipts : loadReceipts p b a = .ok receipts) (hverdicts : loadVerdicts p b a = .ok verdicts)
    (hall : ∀ r ∈ receipts, ((KeyedDict.ofList verdicts : Verdicts).get? r.receiptId).isSome)
    (h : summarizeScores p b a = .ok (windows, b')) : ∀ w ∈ windows.vals, w.verdicts = w.receipts := by
  obtain ⟨receipts', verdicts', hreceipts', hverdicts', rfl⟩ := summarizeScores_ok h
  rw [hreceipts] at hreceipts'
  rw [hverdicts] at hverdicts'
  cases hreceipts'
  cases hverdicts'
  intro w hw
  obtain ⟨w₀, hw₀, rfl⟩ := List.mem_map.mp hw
  have hbalanced : w₀.verdicts = w₀.receipts :=
    verdicts_eq_receipts p b a _ (fun r hr => hall r (KeyedDict.mem_of_mem_ofList hr))
      w₀.hotkeySs58 (KeyedDict.get?_eq_some.mpr ⟨hw₀, rfl⟩)
  exact hbalanced

end Windows

section Pass

variable {H : Host β τ} {V : ValidatorConfig β} {a : ScoreArgs} {b b' : Bucket β}
variable {l : List (String × JobReceiptV3)}

theorem Writes.present (h : Writes H V l b b') :
    ∀ item ∈ l, b'.objects.find? (verdictUri V b.name item.2) ≠ none := by
  induction h with
  | nil b => simp
  | @skip uri receipt rest b b' valid present tail ih =>
    refine List.forall_mem_cons.mpr ⟨?_, ih⟩
    obtain ⟨body, hbody⟩ := Option.ne_none_iff_exists'.mp present
    simp [tail.keeps hbody]
  | @write uri receipt rest b b' v valid absent verified tail ih =>
    refine List.forall_mem_cons.mpr ⟨?_, ih⟩
    have hstored : (store H V b receipt v).objects.find? (verdictUri V b.name receipt) =
        some (H.libraries.platform.dumps v.toDict) := by
      rw [find?_store, if_pos rfl]
    simp [tail.keeps hstored]

structure HoldsVerdictOf (H : Host β τ) (V : ValidatorConfig β) (a : ScoreArgs) (b : Bucket β)
    (uri : String) (r : JobReceiptV3) : Prop where
  path : verdictUri V b.name r = uri
  loads : ∃ v, loadVerdict H.libraries.platform b a uri = .ok (some v) ∧ v.receiptId = r.receiptId

/-- In a bucket that had no verdicts, what a pass leaves at the path of a verdict is the verdict
of a receipt with this path, and the scoring accepts it. -/
theorem holdsVerdict_of_writes (hp : H.libraries.platform.Lawful)
    (hcredentials : OwnCredentials H.libraries.platform V a)
    (hexecution : ∀ item ∈ l, Canonical (.obj item.2.execution))
    (h : Writes H V l b b') {uri : String} (hbefore : b.objects.find? uri = none)
    (hafter : b'.objects.find? uri ≠ none) :
    ∃ item ∈ l, HoldsVerdictOf H V a b' uri item.2 := by
  rcases h.new uri with hsame | ⟨-, item, hitem, hpath, s, v, hverify, hfind⟩
  · exact absurd (hsame.trans hbefore) hafter
  · have hv := verify_verdict (hexecution item hitem) hverify
    have hget : b'.get uri = .ok (H.libraries.platform.dumps v.toDict) :=
      Bucket.get_eq_ok.mpr ⟨hpath ▸ h.valid item hitem, hfind⟩
    refine ⟨item, hitem, by rw [h.name]; exact hpath, v, ?_, hv.receiptId⟩
    rw [loadVerdict_written hp hget hv.wellTyped, hcredentials v hv.signed]
    rfl

structure ReceiptsReadable (H : Host β τ) (V : ValidatorConfig β) (b : Bucket β) : Prop where
  parse : ∀ uri ∈ jsonUris b (receiptsPrefix V.netuid V.runId),
    ∃ r, loadReceipt H.libraries.platform b uri = .ok r
  distinct : ((listedReceipts H V b).map fun item => item.2.receiptId).Nodup

theorem eq_of_same_id (hreadable : ReceiptsReadable H V b) {item other : String × JobReceiptV3}
    (hitem : item ∈ listedReceipts H V b) (hother : other ∈ listedReceipts H V b)
    (h : item.2.receiptId = other.2.receiptId) : item = other :=
  List.inj_on_of_nodup_map hreadable.distinct hitem hother h

structure FullPass (H : Host β τ) (V : ValidatorConfig β) (a : ScoreArgs) (b b' : Bucket β) : Prop
    where
  lawful : H.libraries.platform.Lawful
  credentials : OwnCredentials H.libraries.platform V a
  sameRun : SameRun V a
  allSampled : 1 ≤ V.sampleRate
  fresh : NoVerdicts V b
  readable : ReceiptsReadable H V b
  returned : ∃ n, runOnce H V b = .ok (n, b')

theorem FullPass.writes (h : FullPass H V a b b') : Writes H V (sampleReceipts H V b) b b' := by
  obtain ⟨n, hn⟩ := h.returned
  exact writes_of_writeVerdicts H V hn

theorem FullPass.holdsVerdict (h : FullPass H V a b b') {uri : String}
    (huri : IsVerdictUri V b.name uri ∨ uri ∈ jsonUris b' (verdictsPrefix a.netuid a.runId))
    (hafter : b'.objects.find? uri ≠ none) :
    ∃ item ∈ listedReceipts H V b, HoldsVerdictOf H V a b' uri item.2 := by
  have hbefore : b.objects.find? uri = none := by
    rcases huri with huri | huri
    · exact h.fresh.none_stored uri huri
    · by_contra hfind
      have hlisted := (mem_jsonUris.mp huri).2
      rw [h.writes.name, h.sameRun.netuid, h.sameRun.runId] at hlisted
      have hmem := mem_jsonUris.mpr ⟨hfind, hlisted⟩
      rw [h.fresh.none_listed] at hmem
      cases hmem
  obtain ⟨item, hitem, hholds⟩ := holdsVerdict_of_writes h.lawful h.credentials
    (fun item hitem => execution_of_listed h.lawful ((mem_sampleReceipts h.allSampled).mp hitem))
    h.writes hbefore hafter
  exact ⟨item, (mem_sampleReceipts h.allSampled).mp hitem, hholds⟩

theorem FullPass.loads (h : FullPass H V a b b') :
    loadReceipts H.libraries.platform b' a = .ok ((listedReceipts H V b).map Prod.snd) ∧
    ∃ verdicts, loadVerdicts H.libraries.platform b' a = .ok verdicts ∧
      ∀ v, v ∈ verdicts ↔ ∃ uri ∈ jsonUris b' (verdictsPrefix a.netuid a.runId),
        loadVerdict H.libraries.platform b' a uri = .ok (some v) := by
  constructor
  · exact (loadReceipts_eq_ok h.sameRun h.writes.agree).mpr ⟨h.readable.parse, rfl⟩
  · refine ⟨_, loadVerdicts_eq_ok.mpr ⟨?_, rfl⟩, ?_⟩
    · intro uri huri
      obtain ⟨item, -, hholds⟩ := h.holdsVerdict (Or.inr huri) (mem_jsonUris.mp huri).1
      obtain ⟨v, hv, -⟩ := hholds.loads
      exact ⟨some v, hv⟩
    · intro v
      rw [List.mem_filterMap]
      refine exists_congr fun uri => and_congr_right fun _ => ?_
      cases hload : loadVerdict H.libraries.platform b' a uri with
      | error e => simp [Except.toOption]
      | ok o => simp [Except.toOption]

theorem FullPass.found_iff (h : FullPass H V a b b') {item : String × JobReceiptV3}
    (hitem : item ∈ listedReceipts H V b) :
    (∃ uri ∈ jsonUris b' (verdictsPrefix a.netuid a.runId), ∃ v,
      loadVerdict H.libraries.platform b' a uri = .ok (some v) ∧
        v.receiptId = item.2.receiptId) ↔
    NamesThisRun V item.2 ∧
      HoldsVerdictOf H V a b' (verdictUri V b.name item.2) item.2 := by
  have hvalid := h.writes.valid item ((mem_sampleReceipts h.allSampled).mpr hitem)
  have hpresent := Writes.present h.writes item ((mem_sampleReceipts h.allSampled).mpr hitem)
  have hlisted : verdictUri V b.name item.2 ∈ jsonUris b' (verdictsPrefix a.netuid a.runId) ↔
      NamesThisRun V item.2 := by
    rw [mem_jsonUris, h.writes.name, h.sameRun.netuid, h.sameRun.runId, isListed_verdictUri hvalid]
    exact and_iff_right hpresent
  constructor
  · rintro ⟨uri, huri, v, hv, hid⟩
    obtain ⟨other, hother, hholds⟩ := h.holdsVerdict (Or.inr huri) (mem_jsonUris.mp huri).1
    obtain ⟨v', hv', hid'⟩ := hholds.loads
    rw [hv] at hv'
    cases hv'
    obtain rfl := eq_of_same_id h.readable hitem hother (hid.symm.trans hid')
    have hpath := hholds.path
    rw [h.writes.name] at hpath
    subst hpath
    exact ⟨hlisted.mp huri, hholds⟩
  · rintro ⟨hnames, hholds⟩
    exact ⟨_, hlisted.mpr hnames, hholds.loads⟩

theorem FullPass.own_iff (h : FullPass H V a b b') :
    (∀ item ∈ listedReceipts H V b, HoldsVerdictOf H V a b' (verdictUri V b.name item.2) item.2) ↔
      IdsStayApart ((listedReceipts H V b).map Prod.snd) := by
  simp only [IdsStayApart, List.forall_mem_map]
  constructor
  · intro hall item hitem other hother hrun hid
    obtain ⟨v, hv, hv'⟩ := (hall item hitem).loads
    obtain ⟨w, hw, hw'⟩ := (hall other hother).loads
    rw [verdictUri_eq_iff.mpr ⟨hrun, hid⟩, hw] at hv
    cases hv
    exact hv'.symm.trans hw'
  · intro hapart item hitem
    have hpresent := Writes.present h.writes item ((mem_sampleReceipts h.allSampled).mpr hitem)
    obtain ⟨other, hother, hholds⟩ :=
      h.holdsVerdict (Or.inl (verdictUri_isVerdict V item.2)) hpresent
    have hpath := hholds.path
    rw [h.writes.name] at hpath
    obtain ⟨hrun, hid⟩ := verdictUri_eq_iff.mp hpath
    obtain rfl := eq_of_same_id h.readable hother hitem (hapart other hother item hitem hrun hid)
    exact hholds

/-- After a full pass the scoring finds a verdict for every receipt exactly if all of them name
the run and no two ids of one run differ in slashes, colons and underscores only. -/
theorem verdicts_reach_scores_iff (h : FullPass H V a b b') :
    VerdictsReachScores H.libraries.platform b' a ↔
      (∀ item ∈ listedReceipts H V b, NamesThisRun V item.2) ∧
      IdsStayApart ((listedReceipts H V b).map Prod.snd) := by
  obtain ⟨hreceipts, verdicts, hverdicts, hmem⟩ := h.loads
  have hfound : (∀ r ∈ (listedReceipts H V b).map Prod.snd,
      ((KeyedDict.ofList verdicts : Verdicts).get? r.receiptId).isSome) ↔
      ∀ item ∈ listedReceipts H V b, NamesThisRun V item.2 ∧
        HoldsVerdictOf H V a b' (verdictUri V b.name item.2) item.2 := by
    rw [List.forall_mem_map]
    refine forall₂_congr fun item hitem => ?_
    rw [← h.found_iff hitem, KeyedDict.isSome_get?, KeyedDict.mem_keys_ofList, List.mem_map]
    simp only [hmem]
    constructor
    · rintro ⟨v, ⟨uri, huri, hv⟩, hid⟩
      exact ⟨uri, huri, v, hv, hid⟩
    · rintro ⟨uri, huri, v, hv, hid⟩
      exact ⟨v, ⟨uri, huri, hv⟩, hid⟩
  rw [← h.own_iff, ← forall₂_and, ← hfound]
  constructor
  · rintro ⟨⟨receipts, verdicts', hreceipts', hverdicts', hall⟩, -⟩
    rw [hreceipts] at hreceipts'
    rw [hverdicts] at hverdicts'
    cases hreceipts'
    cases hverdicts'
    exact hall
  · intro hall
    exact ⟨⟨_, verdicts, hreceipts, hverdicts, hall⟩,
      fun windows b'' hsummary => windows_balanced hreceipts hverdicts hall hsummary⟩

end Pass

section Lookalikes

theorem ownCredentials_of_secret {p : Platform β} (hp : p.Lawful) {V : ValidatorConfig β}
    {a : ScoreArgs} (hsigner : V.validatorSigner = none)
    (hsecret : a.validatorSecret = V.validatorSecret) : OwnCredentials p V a := by
  intro v hv
  have hsigned : v.validatorSignature = some (signDict p v.unsignedDict a.validatorSecret) := by
    rw [hv, verdictSigner, hsigner, hsecret]
    rfl
  have hascii : isAscii (signDict p v.unsignedDict a.validatorSecret) = true :=
    isAscii_hexEncode _
  have hnonempty : signDict p v.unsignedDict a.validatorSecret ≠ "" := by
    intro hempty
    have hlength := hp.hmac_length a.validatorSecret (canonicalJson p v.unsignedDict)
    have hhex := congrArg String.toList hempty
    rw [signDict, hexEncode, String.toList_ofList] at hhex
    cases hbytes : p.hmacSha256 a.validatorSecret (canonicalJson p v.unsignedDict) with
    | nil =>
      rw [hbytes] at hlength
      cases hlength
    | cons x xs =>
      rw [hbytes] at hhex
      cases hhex
  obtain ⟨valid, hvalid⟩ := verdictValid_returns p a hsigned hascii
  have hsame : verifyDict p v.unsignedDict a.validatorSecret
      (signDict p v.unsignedDict a.validatorSecret) = .ok true := by
    simp [verifyDict, compareDigest, hascii]
  rw [hvalid]
  simp only [verdictValid, hsigned, hnonempty, if_false, hsame] at hvalid
  obtain ⟨accepted, -, hvalid⟩ := bind_eq_ok.mp hvalid
  cases accepted <;> cases hvalid <;> rfl

def ownArgs : ScoreArgs := { netuid := 0, runId := "r", validatorHotkey := "v" }

theorem fullPass_of_checks {b b' : Bucket Json} {n : ℤ}
    (hkeys : ∀ uri ∈ b.objects.keys, ¬ IsVerdictUri validator b.name uri)
    (hlisted : jsonUris b (verdictsPrefix 0 "r") = [])
    (hparse : ∀ uri ∈ jsonUris b (receiptsPrefix 0 "r"),
      (loadReceipt plainPlatform b uri).toOption.isSome)
    (hdistinct : ((listedReceipts scoringHost validator b).map fun item => item.2.receiptId).Nodup)
    (hreturned : runOnce scoringHost validator b = .ok (n, b')) :
    FullPass scoringHost validator ownArgs b b' where
  lawful := plainPlatform_lawful
  credentials := ownCredentials_of_secret plainPlatform_lawful rfl rfl
  sameRun := ⟨rfl, rfl⟩
  allSampled := le_refl 1
  fresh := by
    refine ⟨?_, hlisted⟩
    intro uri huri
    by_contra hfind
    exact hkeys uri (SortedDict.mem_keys.mpr hfind) huri
  readable := by
    refine ⟨?_, hdistinct⟩
    intro uri huri
    obtain ⟨r, hr⟩ := Option.isSome_iff_exists.mp (hparse uri huri)
    exact ⟨r, toOption_eq_some.mp hr⟩
  returned := ⟨n, hreturned⟩

/-- Some window of the scoring after the pass counts a receipt without verdict. -/
def missesVerdict (b : Bucket Json) : Bool :=
  (scoringPass scoringHost validator b ownArgs).toOption.any fun out =>
    out.1.vals.any fun w => w.verdicts ≠ w.receipts

theorem not_reach_of_misses {b : Bucket Json} (h : missesVerdict b = true) :
    ∃ n b', runOnce scoringHost validator b = .ok (n, b') ∧
      ¬ VerdictsReachScores plainPlatform b' ownArgs := by
  unfold missesVerdict at h
  cases hpass : scoringPass scoringHost validator b ownArgs with
  | error e =>
    rw [hpass] at h
    cases h
  | ok out =>
    obtain ⟨windows, b''⟩ := out
    rw [hpass] at h
    obtain ⟨w, hw, hne⟩ := List.any_eq_true.mp h
    obtain ⟨⟨n, b'⟩, hrun, hsummary⟩ := bind_eq_ok.mp hpass
    refine ⟨n, b', hrun, ?_⟩
    rintro ⟨-, hbalanced⟩
    exact (of_decide_eq_true hne) (hbalanced windows b'' hsummary w hw)

def lookalikeBucket : Bucket Json :=
  withObject (withObject jobBucket "A" (signedReceipt "a/b" "A" "j").toDict) "B"
    (signedReceipt "a:b" "B" "j").toDict

def jobsOfTwoRuns : SortedDict String Json :=
  jobBucket.objects.insert (joinUri "b" (jobManifestKey 0 "q" "j")) (idleJob.toDict plainPlatform)

/-- A receipt below the prefix of the run that names another run, with a manifest there. -/
def otherRunBucket : Bucket Json :=
  withObject { jobBucket with objects := jobsOfTwoRuns } "A"
    (JobReceiptV3.toDict { signedReceipt "x" "A" "j" with runId := "q" })

/-- One of the two receipts with lookalike ids is scored without a verdict, and so is a receipt
that names another run. -/
theorem receipts_scored_without_verdict :
    (∃ b', FullPass scoringHost validator ownArgs lookalikeBucket b' ∧
      ¬ VerdictsReachScores plainPlatform b' ownArgs) ∧
    ∃ b', FullPass scoringHost validator ownArgs otherRunBucket b' ∧
      ¬ VerdictsReachScores plainPlatform b' ownArgs := by
  have hall : ∀ b ∈ [lookalikeBucket, otherRunBucket],
      (∀ uri ∈ b.objects.keys, ¬ IsVerdictUri validator b.name uri) ∧
      jsonUris b (verdictsPrefix 0 "r") = [] ∧
      (∀ uri ∈ jsonUris b (receiptsPrefix 0 "r"),
        (loadReceipt plainPlatform b uri).toOption.isSome) ∧
      ((listedReceipts scoringHost validator b).map fun item => item.2.receiptId).Nodup ∧
      missesVerdict b = true := by
    decide +kernel
  have hscored : ∀ b ∈ [lookalikeBucket, otherRunBucket],
      ∃ b', FullPass scoringHost validator ownArgs b b' ∧
        ¬ VerdictsReachScores plainPlatform b' ownArgs := by
    intro b hb
    obtain ⟨hkeys, hlisted, hparse, hdistinct, hmisses⟩ := hall b hb
    obtain ⟨n, b', hreturned, hnot⟩ := not_reach_of_misses hmisses
    exact ⟨b', fullPass_of_checks hkeys hlisted hparse hdistinct hreturned, hnot⟩
  exact ⟨hscored _ List.mem_cons_self, hscored _ (List.mem_cons_of_mem _ List.mem_cons_self)⟩

/-- Two receipts with ids that stay apart are both scored with their verdicts. -/
theorem shared_verdicts_reach_scores :
    ∃ b', FullPass scoringHost validator ownArgs sharedBucket b' ∧
      VerdictsReachScores plainPlatform b' ownArgs := by
  have hchecks : (∀ uri ∈ sharedBucket.objects.keys, ¬ IsVerdictUri validator "b" uri) ∧
      jsonUris sharedBucket (verdictsPrefix 0 "r") = [] ∧
      (runOnce scoringHost validator sharedBucket).toOption.isSome := by
    decide +kernel
  obtain ⟨hkeys, hlisted, hreturns⟩ := hchecks
  obtain ⟨⟨n, b'⟩, hreturned⟩ := Option.isSome_iff_exists.mp hreturns
  have hpass : FullPass scoringHost validator ownArgs sharedBucket b' := by
    apply fullPass_of_checks hkeys hlisted _ _ (toOption_eq_some.mp hreturned)
    · rw [shared_uris]
      simp only [List.forall_mem_cons, shared_loads.1, shared_loads.2]
      exact ⟨rfl, rfl, by simp⟩
    · rw [shared_listed]
      decide +kernel
  refine ⟨b', hpass, (verdicts_reach_scores_iff hpass).mpr ?_⟩
  rw [shared_listed]
  constructor
  · decide +kernel
  · simp only [IdsStayApart, List.forall_mem_map]
    decide +kernel

end Lookalikes

end VerdictReach

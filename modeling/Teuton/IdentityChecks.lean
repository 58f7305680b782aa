import Teuton.PassedReceipts
import Teuton.ReplayVerifier

/-! The checks that accept a record on the word of a hotkey. Miner, auditor, verifier, scorer
and artifact reader each guard the check in their own way, and each puts the same question to
`verify_identity_payload`: is this a signature of the payload by this identity? -/
namespace IdentityChecks

open PyJson PyText Signatures Protocol AuditReplay ScoreWindows ReplayVerifier
open ArtifactCrypto (strOr)
open PassedReceipts (walletPlatform walletSignature borrowedReceipt)

variable {β : Type}

structure MinerWorkerConfig where
  ownerSecret : String := "owner-dev-secret"
  ownerHotkey : String := ""

/-- The miner's check before it runs a job. It differs from the auditor's in the last line: the
shared secret is tried as an identity too. -/
def MinerWorker.verifyManifestSignature (p : Platform β) (cfg : MinerWorkerConfig)
    (manifest : JobManifestV3) : Py Bool :=
  if cfg.ownerSecret = "skip" then .ok true
  else
    let signature := strOr manifest.ownerSignature ""
    if signature = "" then .ok false
    else if cfg.ownerHotkey ≠ "" then
      verifyIdentityDict p manifest.unsignedDict cfg.ownerHotkey signature
    else verifyIdentityDict p manifest.unsignedDict cfg.ownerSecret signature

inductive Check (β : Type) where
  | minerManifest (cfg : MinerWorkerConfig) (manifest : JobManifestV3)
  | auditorManifest (cfg : AuditReplayConfig) (manifest : JobManifestV3)
  | auditorReceipt (cfg : AuditReplayConfig) (receipt : JobReceiptV3)
  | auditResult (cfg : ValidatorConfig β) (audit : AuditResultV3) (receipt : JobReceiptV3)
  | verdict (args : ScoreArgs) (v : VerificationVerdictV3)
  | artifact (payload : β) (signature : String) (identity : Option String)

def Check.result (p : Platform β) : Check β → Py Bool
  | .minerManifest cfg manifest => MinerWorker.verifyManifestSignature p cfg manifest
  | .auditorManifest cfg manifest => AuditReplay.verifyManifestSignature p cfg manifest
  | .auditorReceipt cfg receipt => verifyReceiptSignature p cfg receipt
  | .auditResult cfg audit receipt => verifyAuditResult cfg p audit receipt
  | .verdict args v => verdictValid p args v
  | .artifact payload signature identity => identityVerifier p payload signature identity

structure Question (β : Type) where
  payload : β
  identity : String
  signature : String

def Question.answer (p : Platform β) (q : Question β) : Py Bool :=
  verifyIdentityPayload p q.payload q.identity q.signature

def Question.hotkeySigned (p : Platform β) (q : Question β) : Bool :=
  verifyHotkeyPayload p q.payload q.identity q.signature

/-- The HMAC of the payload under the identity, computed from what the record itself shows. -/
def Question.publicHmac (p : Platform β) (q : Question β) : String :=
  signPayload p q.payload q.identity

def ask (p : Platform β) (value : Json) (identity : String) (signature : Option String) :
    Option (Question β) :=
  if strOr signature "" = "" then none
  else some ⟨canonicalJson p value, identity, strOr signature ""⟩

def Check.asks (p : Platform β) : Check β → Option (Question β)
  | .minerManifest cfg manifest =>
    if cfg.ownerSecret = "skip" then none
    else ask p manifest.unsignedDict
      (if cfg.ownerHotkey ≠ "" then cfg.ownerHotkey else cfg.ownerSecret) manifest.ownerSignature
  | .auditorManifest cfg manifest =>
    if cfg.ownerSecret = "skip" ∨ cfg.ownerHotkey = "" then none
    else ask p manifest.unsignedDict cfg.ownerHotkey manifest.ownerSignature
  | .auditorReceipt _ receipt =>
    ask p receipt.unsignedDict receipt.worker.hotkeySs58 receipt.minerSignature
  | .auditResult cfg audit receipt =>
    if audit.receiptId ≠ receipt.receiptId ∨ audit.manifestHash ≠ receipt.manifestHash then none
    else if !cfg.auditEligibleHotkeys.isEmpty ∧ audit.auditorHotkey ∉ cfg.auditEligibleHotkeys
    then none
    else ask p audit.unsignedDict audit.auditorHotkey audit.auditorSignature
  | .verdict args v =>
    ask p v.unsignedDict
      (if args.validatorHotkey = "" then v.validatorHotkey else args.validatorHotkey)
      v.validatorSignature
  | .artifact payload signature identity =>
    match identity with
    | none => none
    | some i => if i = "" then none else some ⟨payload, i, signature⟩

/-- What a check does with a signature the identity did not make: two of them try a shared
secret next. -/
def Check.secretCheck (p : Platform β) : Check β → Py Bool
  | .auditorReceipt cfg receipt =>
    verifyDict p receipt.unsignedDict (minerSigningSecret cfg receipt)
      (strOr receipt.minerSignature "")
  | .verdict args v =>
    verifyDict p v.unsignedDict args.validatorSecret (strOr v.validatorSignature "")
  | _ => .ok false

theorem strOr_of_ne {s : String} (h : s ≠ "") : strOr (some s) "" = s := if_neg h

variable {c : Check β} {p : Platform β} {q : Question β}

theorem ask_eq_some {value : Json} {identity : String}
    {signature : Option String} (h : ask p value identity signature = some q) :
    ∃ s, signature = some s ∧ s ≠ "" ∧ q = ⟨canonicalJson p value, identity, s⟩ := by
  unfold ask at h
  cases signature with
  | none => exact nomatch h
  | some s =>
    by_cases hs : s = ""
    · simp [strOr, hs] at h
    · rw [strOr_of_ne hs, if_neg hs] at h
      exact ⟨s, rfl, hs, (Option.some.inj h).symm⟩

/-- An answer `True` accepts the record; after any other answer the shared secret decides. -/
def Question.thenSecret (p : Platform β) (q : Question β) (secretCheck : Py Bool) : Py Bool := do
  if ← q.answer p then return true
  secretCheck

theorem thenSecret_false (p : Platform β) (q : Question β) :
    q.thenSecret p (.ok false) = q.answer p := by
  unfold Question.thenSecret
  cases q.answer p with
  | error e => rfl
  | ok accepted => cases accepted <;> rfl

theorem result_of_asks (h : c.asks p = some q) :
    c.result p = q.thenSecret p (c.secretCheck p) := by
  cases c with
  | minerManifest cfg manifest =>
    simp only [Check.asks] at h
    split_ifs at h with hskip hhotkey
    all_goals
      obtain ⟨s, hsig, hs, rfl⟩ := ask_eq_some h
      simp [Check.result, MinerWorker.verifyManifestSignature, hskip, hhotkey, hsig, hs,
        strOr_of_ne hs, Check.secretCheck, thenSecret_false, Question.answer, verifyIdentityDict]
  | auditorManifest cfg manifest =>
    simp only [Check.asks] at h
    split_ifs at h with hguard
    obtain ⟨hskip, hhotkey⟩ := not_or.mp hguard
    obtain ⟨s, hsig, hs, rfl⟩ := ask_eq_some h
    simp [Check.result, AuditReplay.verifyManifestSignature, hskip, hhotkey, hsig, hs,
      strOr_of_ne hs, Check.secretCheck, thenSecret_false, Question.answer, verifyIdentityDict]
  | auditorReceipt cfg receipt =>
    obtain ⟨s, hsig, hs, rfl⟩ := ask_eq_some h
    simp [Check.result, verifyReceiptSignature, hsig, hs, strOr_of_ne hs, Check.secretCheck,
      Question.thenSecret, Question.answer, verifyIdentityDict]
  | auditResult cfg audit receipt =>
    simp only [Check.asks] at h
    split_ifs at h with hids heligible
    obtain ⟨s, hsig, hs, rfl⟩ := ask_eq_some h
    simp only [Check.result, verifyAuditResult, hsig, hs, hids, heligible, if_false]
    exact (thenSecret_false p ⟨canonicalJson p audit.unsignedDict, audit.auditorHotkey, s⟩).symm
  | verdict args v =>
    obtain ⟨s, hsig, hs, rfl⟩ := ask_eq_some h
    simp only [Check.result, verdictValid, hsig, hs, if_false, Check.secretCheck, strOr_of_ne hs]
    rfl
  | artifact payload signature identity =>
    cases identity with
    | none => cases h
    | some i =>
      simp only [Check.asks] at h
      split_ifs at h with hi
      cases h
      simp [Check.result, identityVerifier, hi, Check.secretCheck, thenSecret_false,
        Question.answer]

theorem result_of_answer (h : c.asks p = some q)
    (ha : q.answer p = .ok true) : c.result p = .ok true := by
  rw [result_of_asks h, Question.thenSecret, ha]
  rfl

/-- What a check of hotkey signatures is for. No record is accepted as the identity's unless the
hotkey check accepts its signature, and so none with a signature that is computed from the
payload and the identity alone, which no hotkey check accepts. -/
structure Check.RestsOnKey (p : Platform β) (c : Check β) : Prop where
  hotkeySigned : ∀ q, c.asks p = some q → q.answer p = .ok true → q.hotkeySigned p = true
  unforgeable : ∀ forge : β → String → String,
    (∀ payload identity,
      verifyHotkeyPayload p payload identity (forge payload identity) = false) →
    ∀ q, c.asks p = some q → q.signature = forge q.payload q.identity → q.answer p ≠ .ok true

def Check.NotPublicHmac (p : Platform β) (c : Check β) : Prop :=
  ∀ q, c.asks p = some q → q.signature ≠ q.publicHmac p

theorem answer_eq_true_iff (p : Platform β) (q : Question β) :
    q.answer p = .ok true ↔ q.hotkeySigned p = true ∨ q.signature = q.publicHmac p :=
  verifyIdentityPayload_iff p q.payload q.identity q.signature

theorem publicHmac_accepted (hp : p.Lawful)
    (h : c.asks p = some q) (hs : q.signature = q.publicHmac p) :
    c.result p = .ok true ∧ q.answer p = .ok true ∧ q.hotkeySigned p = false := by
  have ha := (answer_eq_true_iff p q).mpr (Or.inr hs)
  refine ⟨result_of_answer h ha, ha, ?_⟩
  rw [Question.hotkeySigned, hs]
  exact not_verifyHotkeyPayload_signPayload hp q.payload q.identity q.identity

theorem check_rests_on_key_iff {p : Platform β} (hp : p.Lawful) (c : Check β) :
    c.RestsOnKey p ↔ c.NotPublicHmac p := by
  constructor
  · intro h q hq hs
    obtain ⟨-, ha, hhotkey⟩ := publicHmac_accepted hp hq hs
    exact Bool.false_ne_true (hhotkey.symm.trans (h.hotkeySigned q hq ha))
  · intro h
    have hhotkey : ∀ q, c.asks p = some q → q.answer p = .ok true → q.hotkeySigned p = true :=
      fun q hq ha => ((answer_eq_true_iff p q).mp ha).resolve_right (h q hq)
    refine ⟨hhotkey, fun forge hforge q hq hs ha => ?_⟩
    have htrue := hhotkey q hq ha
    rw [Question.hotkeySigned, hs, hforge] at htrue
    cases htrue

theorem walletPlatform_lawful : walletPlatform.Lawful :=
  { plainPlatform_lawful with
    bittensor_length := by
      intro identity payload sig h
      have hsig : sig = walletSignature identity := of_decide_eq_true (Except.ok.inj h)
      rw [hsig, walletSignature, List.length_append, List.length_replicate]
      omega }

theorem ask_signDict (hp : p.Lawful) (value : Json) (identity secret : String) :
    ask p value identity (some (signDict p value secret)) =
      some ⟨canonicalJson p value, identity, signDict p value secret⟩ := by
  have hs : signDict p value secret ≠ "" := signPayload_ne_empty hp _ _
  rw [ask, strOr_of_ne hs, if_neg hs]

/-- The same record with the HMAC of its payload under the identity in place of its signature. -/
def Check.forge (p : Platform β) : Check β → Check β
  | .minerManifest cfg manifest =>
    .minerManifest cfg (manifest.sign p
      (.secret (if cfg.ownerHotkey ≠ "" then cfg.ownerHotkey else cfg.ownerSecret)))
  | .auditorManifest cfg manifest =>
    .auditorManifest cfg (manifest.sign p (.secret cfg.ownerHotkey))
  | .auditorReceipt cfg receipt =>
    .auditorReceipt cfg (receipt.sign p (.secret receipt.worker.hotkeySs58))
  | .auditResult cfg audit receipt =>
    .auditResult cfg (audit.sign p (.secret audit.auditorHotkey)) receipt
  | .verdict args v =>
    .verdict args (v.sign p
      (.secret (if args.validatorHotkey = "" then v.validatorHotkey else args.validatorHotkey)))
  | .artifact payload _ identity =>
    .artifact payload (signPayload p payload (identity.getD "")) identity

theorem forge_asks (hp : p.Lawful)
    (h : c.asks p = some q) :
    (c.forge p).asks p = some { q with signature := q.publicHmac p } := by
  have hask (value : Json) (identity : String) := ask_signDict hp value identity identity
  cases c with
  | minerManifest cfg manifest =>
    by_cases hskip : cfg.ownerSecret = "skip"
    · simp [Check.asks, hskip] at h
    · rw [Check.asks, if_neg hskip] at h
      obtain ⟨s, -, -, rfl⟩ := ask_eq_some h
      exact (if_neg hskip).trans (hask _ _)
  | auditorManifest cfg manifest =>
    simp only [Check.asks] at h
    split_ifs at h with hguard
    obtain ⟨s, -, -, rfl⟩ := ask_eq_some h
    exact (if_neg hguard).trans (hask _ _)
  | auditorReceipt cfg receipt =>
    obtain ⟨s, -, -, rfl⟩ := ask_eq_some h
    exact hask _ _
  | auditResult cfg audit receipt =>
    simp only [Check.asks] at h
    split_ifs at h with hids heligible
    obtain ⟨s, -, -, rfl⟩ := ask_eq_some h
    exact (if_neg hids).trans ((if_neg heligible).trans (hask _ _))
  | verdict args v =>
    obtain ⟨s, -, -, rfl⟩ := ask_eq_some h
    exact hask _ _
  | artifact payload signature identity =>
    cases identity with
    | none => exact nomatch h
    | some i =>
      simp only [Check.asks] at h
      split_ifs at h with hi
      cases h
      exact if_neg hi

theorem forge_accepted (hp : p.Lawful)
    (h : c.asks p = some q) :
    (c.forge p).result p = .ok true ∧ ∃ q', (c.forge p).asks p = some q' ∧
      q'.identity = q.identity ∧ q'.answer p = .ok true ∧ q'.hotkeySigned p = false := by
  have hq := forge_asks hp h
  obtain ⟨hresult, ha, hhotkey⟩ := publicHmac_accepted hp hq rfl
  exact ⟨hresult, _, hq, rfl, ha, hhotkey⟩

def fleetHotkey : String := "5EsaSvMVXmY4ovWia7PsUHhZKi7eeqVkoZwcCBBr9Qzo8gM8"

/-- A receipt in the name of a miner of the fleet, signed with somebody else's wallet. -/
def strangersReceipt : JobReceiptV3 :=
  { borrowedReceipt with
    worker := { borrowedReceipt.worker with hotkeySs58 := fleetHotkey } }

theorem ask_walletSignature (value : Json) (identity hotkey : String) :
    ask walletPlatform value identity (some (hexEncode (walletSignature hotkey))) =
      some ⟨canonicalJson walletPlatform value, identity, hexEncode (walletSignature hotkey)⟩ := by
  have hs : hexEncode (walletSignature hotkey) ≠ "" := by
    intro h
    have hlen := congrArg (fun s => (signatureBytes s).length) h
    rw [signatureBytes_hexEncode, walletSignature, List.length_append, List.length_replicate,
      show (signatureBytes "").length = 0 by decide] at hlen
    omega
  rw [ask, strOr_of_ne hs, if_neg hs]

theorem address_hmac_accepted :
    let c : Check Json := (Check.auditorReceipt {} strangersReceipt).forge walletPlatform
    ¬ c.RestsOnKey walletPlatform ∧ c.result walletPlatform = .ok true ∧
    ∃ q, c.asks walletPlatform = some q ∧ q.identity = fleetHotkey ∧
      q.answer walletPlatform = .ok true ∧ q.hotkeySigned walletPlatform = false := by
  intro c
  have hasks : (Check.auditorReceipt {} strangersReceipt).asks walletPlatform = some _ :=
    ask_walletSignature _ _ "B"
  obtain ⟨hresult, q, hq, hidentity, ha, hhotkey⟩ := forge_accepted walletPlatform_lawful hasks
  refine ⟨fun hkey => ?_, hresult, q, hq, hidentity, ha, hhotkey⟩
  exact Bool.false_ne_true (hhotkey.symm.trans (hkey.hotkeySigned q hq ha))

/-- The receipt with the wallet signature of its own hotkey. -/
theorem wallet_receipt_rests_on_key :
    let c : Check Json := .auditorReceipt {} borrowedReceipt
    c.result walletPlatform = .ok true ∧ c.RestsOnKey walletPlatform := by
  intro c
  have hasks := ask_walletSignature borrowedReceipt.unsignedDict "B" "B"
  have hanswer : (Question.mk (canonicalJson walletPlatform borrowedReceipt.unsignedDict) "B"
      (hexEncode (walletSignature "B"))).answer walletPlatform = .ok true := by
    refine (answer_eq_true_iff _ _).mpr (Or.inl ?_)
    simp [Question.hotkeySigned, verifyHotkeyPayload, signatureBytes_hexEncode, walletPlatform]
  refine ⟨result_of_answer hasks hanswer, (check_rests_on_key_iff walletPlatform_lawful c).mpr ?_⟩
  intro q hq hs
  cases hasks.symm.trans hq
  have hlen := congrArg (fun s => (signatureBytes s).length) hs
  simp only [Question.publicHmac, signPayload, signatureBytes_hexEncode, walletSignature,
    walletPlatform_lawful.hmac_length, List.length_append, List.length_replicate] at hlen
  omega

end IdentityChecks

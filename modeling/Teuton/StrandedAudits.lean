import Teuton.AuditInfluence
import Teuton.QueueAdditions

/-! Audit jobs over whole runs. The manifest is stored first, the grant and the queue follow, and
the stored manifest is what later passes take as "already emitted". So a call must not end
between the manifest and the published queue; where it ends elsewhere, the next complete pass
leaves every receipt that waits for an audit with a job in the published queue. -/
namespace StrandedAudits

open PyJson PyText Signatures ObjectStore BucketPaths BucketBranches Protocol OrchestratorQueue
open QueueWriters QueueAdditions ScoreWindows ReplayVerifier VerdictWrites AuditJobs AuditInfluence
open ScoreIsolation SelfAudits

variable {β τ ω : Type}

section Queue

def Published (p : Platform β) (cell : CasCell β) (jobId : String) : Prop :=
  ∃ v, cell.current = some v ∧ jobId ∈ jobIds p v.body

def FreshTag (cell : CasCell β) (tag : String) : Prop :=
  tag ≠ "" ∧ ∀ v ∈ cell.versions, v.tag ≠ tag

/-- No call is in progress, no addition has been lost, and every stored snapshot is one that a
flush has built. -/
structure QueueKept (p : Platform β) (q : System β ω Unit) : Prop where
  additions : QueueAdditions.Invariant p q
  idle : q.calls () = none
  readable : ∀ v ∈ q.cell.versions, ∃ W now, v.body = payloadBody p .audit W now

variable {H : Host β τ} {faults : Faults} {s t : Office β ω} {q q' : System β ω Unit} {w : ω}

theorem not_busy_of_idle (h : q.calls () = none) (w : ω) : ¬ Busy q w := by
  rintro ⟨⟨⟩, k, hcall⟩
  rw [h] at hcall
  cases hcall

variable {p : Platform β} {event : Event ω Unit}

theorem QueueKept.read (loads_dumps : p.Rereads)
    (h : QueueKept p q) : ∃ state, readQueue p q.cell = .ok state ∧
      ∀ W : Writer, Writer.ifMatch (W.merge state).etag = q.cell.currentTag := by
  cases hcurrent : q.cell.current with
  | none =>
    refine ⟨none, by rw [readQueue, getWithEtag, hcurrent], ?_⟩
    intro W
    rw [CasCell.currentTag, hcurrent]
    rfl
  | some v =>
    obtain ⟨W₀, now, hbody⟩ := h.readable v (CasCell.mem_of_current hcurrent)
    have hversion : q.cell.current = some ⟨v.tag, payloadBody p .audit W₀ now⟩ := by
      rw [hcurrent, ← hbody]
    refine ⟨_, readQueue_payloadBody loads_dumps hversion, ?_⟩
    intro W
    rw [CasCell.currentTag_of_current hcurrent]
    rfl

variable [DecidableEq ω]

theorem perform_of_exec (h : exec H.libraries.platform .audit s.queues event = some q) :
    perform H event s = .ok ⟨⟩ { s with queues := q } := by
  rw [perform, attempt_eq_ok]
  simp only [h]

theorem flushStep_of_exec {point : Point} (hfault : faults point = none)
    (h : exec H.libraries.platform .audit s.queues event = some q) :
    flushStep H faults w point event s = .ok ⟨⟩ { s with queues := q } := by
  have hstep : (reach faults point >>= fun _ => perform H event) s =
      .ok ⟨⟩ { s with queues := q } :=
    Effects.bind_eq_ok.mpr ⟨⟨⟩, s, reach_eq_ok.mpr ⟨hfault, rfl⟩, perform_of_exec h⟩
  rw [flushStep, hstep]

theorem additions_of_exec (loads_dumps : p.Rereads)
    (hq : QueueAdditions.Invariant p q) (h : exec p .audit q event = some q')
    (hadd : AddOnly q event) : QueueAdditions.Invariant p q' :=
  step_preserves_invariant loads_dumps hq hadd (step_of_exec h)

theorem entryIds_merge_own (W : Writer) (state : Option QueueState) :
    entryIds W.outstanding.vals ⊆ entryIds (W.merge state).outstanding.vals := by
  cases state with
  | none => exact subset_rfl
  | some st => exact fun j hj => KeyedDict.mem_keys_setDefaults.mpr (Or.inl hj)

structure Flushed (p : Platform β) (w : ω) (q q' : System β ω Unit) : Prop where
  kept : QueueKept p q'
  published : ∀ j, Published p q.cell j → Published p q'.cell j
  own : ∀ j ∈ entryIds (q.writers w).outstanding.vals, Published p q'.cell j

theorem flushed_of_put (loads_dumps : p.Rereads) {now : ℤ} {newTag : String}
    {W : Writer} {q₀ : System β ω Unit} (h : QueueKept p q) (hq₀ : QueueAdditions.Invariant p q₀)
    (hcell : q₀.cell = q.cell) {retry : Bool} {prior : Option String}
    (hcall : q₀.calls () =
      some (w, .built retry W.outstanding.vals (payloadBody p .audit W now) prior))
    (hmatch : Writer.ifMatch prior = q₀.cell.currentTag) (hfresh : FreshTag q.cell newTag)
    (hentries : entryIds (q.writers w).outstanding.vals ⊆ entryIds W.outstanding.vals) :
    ∃ q₁ q₂, exec p .audit q₀ (.put () newTag) = some q₁ ∧
      exec p .audit q₁ (.finish ()) = some q₂ ∧ Flushed p w q q₂ := by
  have hput : Writer.ifMatch prior = q₀.cell.currentTag ∧ newTag ≠ "" ∧
      ∀ v ∈ q₀.cell.versions, v.tag ≠ newTag := ⟨hmatch, by rw [hcell]; exact hfresh⟩
  have haccept : q₀.cell.Accepts ⟨newTag, payloadBody p .audit W now⟩ :=
    ⟨hput.2.1, fun v hv ht => absurd ht (hput.2.2 v hv)⟩
  let q₁ := (q₀.stored _ haccept).act w (q₀.writers w) ()
    (some (.published W.outstanding.vals newTag))
  let q₂ := q₁.act w ((q₁.writers w).finishFlush newTag) () none
  have hexec : exec p .audit q₀ (.put () newTag) = some q₁ := by
    simp only [exec, hcall]
    rw [dif_pos hput]
  have hfinish : exec p .audit q₁ (.finish ()) = some q₂ := by
    simp [exec, q₁, q₂, System.act]
  have hq₁ := additions_of_exec loads_dumps hq₀ hexec trivial
  have hq₂ := additions_of_exec loads_dumps hq₁ hfinish trivial
  have hcurrent : q₂.cell.current = some ⟨newTag, payloadBody p .audit W now⟩ :=
    CasCell.current_store (h := haccept)
  have hversions : ∀ v, v ∈ q₂.cell.versions ↔
      v ∈ q₀.cell.versions ∨ v = ⟨newTag, payloadBody p .audit W now⟩ :=
    fun _ => CasCell.mem_store (h := haccept)
  have hids : jobIds p (payloadBody p .audit W now) = entryIds W.outstanding.vals := by
    rw [jobIds, publishedEntries_payloadBody loads_dumps]
  refine ⟨q₁, q₂, hexec, hfinish, ⟨hq₂, by simp [q₂, System.act], ?_⟩, ?_, ?_⟩
  · intro v hv
    rcases (hversions v).mp hv with hv | rfl
    · exact h.readable v (hcell ▸ hv)
    · exact ⟨W, now, rfl⟩
  · rintro j ⟨v, hv, hj⟩
    have hmem : v ∈ q₂.cell.versions :=
      (hversions v).mpr (Or.inl (by rw [hcell]; exact CasCell.mem_of_current hv))
    exact ⟨_, hcurrent, hq₂.growing.le_current hmem hcurrent hj⟩
  · intro j hj
    refine ⟨_, hcurrent, ?_⟩
    rw [hids]
    exact hentries hj

/-- A flush without a fault returns and has published the writer's entries, after a merge if
another manager has published in the meantime. -/
theorem flush_publishes (w : ω) (now : ℤ) (loads_dumps : H.libraries.platform.Rereads)
    (hkept : QueueKept H.libraries.platform s.queues) {newTag : String}
    (hfresh : FreshTag s.queues.cell newTag)
    (hfaults : ∀ point ∈ [Point.flush, .readForMerge, .putAgain, .finishFlush],
      faults point = none) :
    ∃ q, flush H faults w now newTag s = .ok ⟨⟩ { s with queues := q } ∧
      Flushed H.libraries.platform w s.queues q := by
  set p := H.libraries.platform with hp
  let W := s.queues.writers w
  let q₀ := s.queues.act w W.bumpSnapshotId ()
    (some (.built false W.outstanding.vals (payloadBody p .audit W now) W.etag))
  have hstart : exec p .audit s.queues (.flushStart () w true now) = some q₀ := by
    simp [exec, hkept.idle, q₀, W]
  have hq₀ : QueueAdditions.Invariant p q₀ :=
    additions_of_exec loads_dumps hkept.additions hstart (not_busy_of_idle hkept.idle w)
  have hcall₀ : q₀.calls () =
      some (w, .built false W.outstanding.vals (payloadBody p .audit W now) W.etag) := by
    simp [q₀, System.act]
  by_cases hmatch : Writer.ifMatch W.etag = q₀.cell.currentTag
  · obtain ⟨q₁, q₂, hput, hfinish, hflushed⟩ := flushed_of_put loads_dumps hkept hq₀ rfl hcall₀
      hmatch hfresh subset_rfl
    refine ⟨q₂, ?_, hflushed⟩
    unfold flush
    refine Effects.bind_eq_ok.mpr ⟨⟨⟩, _, perform_of_exec hstart, ?_⟩
    refine Effects.bind_eq_ok.mpr ⟨_, _, Effects.get_eq_ok.mpr ⟨rfl, rfl⟩, ?_⟩
    have hown : ((q₀.writers w).etag) = W.etag := by simp [q₀, System.act, Writer.bumpSnapshotId]
    simp only [hown]
    rw [if_pos hmatch]
    exact Effects.bind_eq_ok.mpr ⟨⟨⟩, _, flushStep_of_exec (hfaults _ (by simp)) hput,
      flushStep_of_exec (hfaults _ (by simp)) hfinish⟩
  · -- Another manager has published: read, merge and build the payload again.
    obtain ⟨state, hread, hetag⟩ := hkept.read loads_dumps
    let q₁ := q₀.act w (q₀.writers w) () (some .refused)
    let q₂ := q₁.act w (q₁.writers w) () (some (.mergeRead state))
    let q₃ := q₂.act w ((q₂.writers w).merge state) () (some .merged)
    let W' := q₃.writers w
    let q₄ := q₃.act w W'.bumpSnapshotId ()
      (some (.built true W'.outstanding.vals (payloadBody p .audit W' now) W'.etag))
    have hrefused : exec p .audit q₀ (.putRefused ()) = some q₁ := by
      simp only [exec, hcall₀]
      rw [if_pos hmatch]
      rfl
    have hreadMerge : exec p .audit q₁ (.readForMerge ()) = some q₂ := by
      have hcell : readQueue p q₀.cell = .ok state := hread
      simp [exec, hcell, q₁, q₂, System.act]
    have hmerge : exec p .audit q₂ (.merge ()) = some q₃ := by
      simp [exec, q₂, q₃, System.act]
    have hrebuild : exec p .audit q₃ (.rebuild () now) = some q₄ := by
      simp [exec, q₃, q₄, W', System.act]
    have hq₁ := additions_of_exec loads_dumps hq₀ hrefused trivial
    have hq₂ := additions_of_exec loads_dumps hq₁ hreadMerge trivial
    have hq₃ := additions_of_exec loads_dumps hq₂ hmerge trivial
    have hq₄ := additions_of_exec loads_dumps hq₃ hrebuild trivial
    have hcall₄ : q₄.calls () =
        some (w, .built true W'.outstanding.vals (payloadBody p .audit W' now) W'.etag) := by
      simp [q₄, System.act]
    have hW' : W' = (q₀.writers w).merge state := by
      simp [W', q₃, q₂, q₁, System.act]
    have hmatch' : Writer.ifMatch W'.etag = q₄.cell.currentTag := by
      rw [hW']
      exact hetag _
    have hentries : entryIds W.outstanding.vals ⊆ entryIds W'.outstanding.vals := by
      have hown : (q₀.writers w).outstanding = W.outstanding := by
        simp [q₀, System.act, Writer.bumpSnapshotId]
      rw [hW', ← hown]
      exact entryIds_merge_own _ _
    obtain ⟨q₅, q₆, hput, hfinish, hflushed⟩ := flushed_of_put loads_dumps hkept hq₄ rfl hcall₄
      hmatch' hfresh hentries
    refine ⟨q₆, ?_, hflushed⟩
    unfold flush
    refine Effects.bind_eq_ok.mpr ⟨⟨⟩, _, perform_of_exec hstart, ?_⟩
    refine Effects.bind_eq_ok.mpr ⟨_, _, Effects.get_eq_ok.mpr ⟨rfl, rfl⟩, ?_⟩
    have hown : ((q₀.writers w).etag) = W.etag := by simp [q₀, System.act, Writer.bumpSnapshotId]
    simp only [hown]
    rw [if_neg hmatch]
    refine Effects.bind_eq_ok.mpr ⟨⟨⟩, _, flushStep_of_exec (hfaults _ (by simp)) hrefused, ?_⟩
    refine Effects.bind_eq_ok.mpr ⟨⟨⟩, _, flushStep_of_exec (hfaults _ (by simp)) hreadMerge, ?_⟩
    refine Effects.bind_eq_ok.mpr ⟨⟨⟩, _, perform_of_exec hmerge, ?_⟩
    refine Effects.bind_eq_ok.mpr ⟨⟨⟩, _, perform_of_exec hrebuild, ?_⟩
    exact Effects.bind_eq_ok.mpr ⟨⟨⟩, _, flushStep_of_exec (hfaults _ (by simp)) hput,
      flushStep_of_exec (hfaults _ (by simp)) hfinish⟩

end Queue

section Objects

variable {H : Host β τ} {cfg : AuditJobConfig β} {b c d : Bucket β} {uri bucket : String}

/-- An object of the jobs or the assignments part of the run's audits, where emissions write. -/
def IsEmission (cfg : AuditJobConfig β) (bucket uri : String) : Prop :=
  ∃ letter ∈ ['j', 'a'], startsWith uri (joinUri bucket (auditRoot cfg.netuid cfg.runId ++ "/") ++
    String.singleton letter) = true

theorem isEmission_uri {key : String} (letter : Char) (hletter : letter ∈ ['j', 'a']) (rest : String)
    (hkey : key = auditRoot cfg.netuid cfg.runId ++ ("/" ++ String.singleton letter ++ rest)) :
    IsEmission cfg bucket (joinUri bucket key) := by
  refine ⟨letter, hletter, ?_⟩
  have hsplit : joinUri bucket key = joinUri bucket (auditRoot cfg.netuid cfg.runId ++ "/") ++
      String.singleton letter ++ rest := by
    simp only [hkey, joinUri, String.append_assoc]
  rw [hsplit]
  exact startsWith_append _ _

theorem manifestUri_isEmission (jobId : String) :
    IsEmission cfg bucket (manifestUri cfg bucket jobId) := by
  refine isEmission_uri 'j' (by simp) ("obs/" ++ jobId ++ "/manifest.json") ?_
  simp only [auditJobManifestKey, auditJobsPrefix, String.append_assoc]
  rfl

theorem IsEmission.onBranch (h : IsEmission cfg bucket uri) : OnBranch cfg.netuid bucket 'a' uri := by
  obtain ⟨letter, -, hstart⟩ := h
  have hsplit : joinUri bucket (auditRoot cfg.netuid cfg.runId ++ "/") ++ String.singleton letter =
      joinUri bucket (auditRoot cfg.netuid cfg.runId ++ "/" ++ String.singleton letter) := by
    simp only [joinUri, String.append_assoc]
  rw [hsplit] at hstart
  refine onBranch_of_startsWith ("udits/" ++ cfg.runId ++ "/" ++ String.singleton letter) ?_ hstart
  simp only [auditRoot, String.append_assoc]
  rfl

theorem result_not_isEmission
    (h : isListed bucket (auditResultsPrefix cfg.netuid cfg.runId) uri = true) :
    ¬ IsEmission cfg bucket uri := by
  intro hemission
  have hstart : startsWith uri (listStart bucket (auditResultsPrefix cfg.netuid cfg.runId)) = true :=
    (Bool.and_eq_true_iff.mp h).2
  unfold listStart at hstart
  split at hstart
  · have hresults : joinUri bucket (auditResultsPrefix cfg.netuid cfg.runId) =
        joinUri bucket (auditRoot cfg.netuid cfg.runId ++ "/") ++ String.singleton 'r' ++
          "esults/" := by
      simp only [auditResultsPrefix, joinUri, String.append_assoc]
      rfl
    rw [hresults] at hstart
    obtain ⟨letter, hletter, hother⟩ := hemission
    have hne : 'r' ≠ letter := by
      rintro rfl
      simp at hletter
    rw [← String.append_empty (s := _ ++ String.singleton letter),
      not_startsWith_both hne hstart] at hother
    cases hother
  · exact not_onBranch_of_nested hstart hemission.onBranch

structure Grown (cfg : AuditJobConfig β) (b c : Bucket β) : Prop where
  name : c.name = b.name
  kept : ∀ uri, b.objects.find? uri ≠ none → c.objects.find? uri ≠ none
  others : ∀ uri, ¬ IsEmission cfg b.name uri → c.objects.find? uri = b.objects.find? uri

theorem Grown.refl (b : Bucket β) : Grown cfg b b := ⟨rfl, fun _ h => h, fun _ _ => rfl⟩

theorem Grown.trans (h : Grown cfg b c) (h' : Grown cfg c d) : Grown cfg b d where
  name := h'.name.trans h.name
  kept := fun uri huri => h'.kept uri (h.kept uri huri)
  others := fun uri huri =>
    (h'.others uri (h.name ▸ huri)).trans (h.others uri huri)

theorem grown_of_put {body : β} (huri : IsEmission cfg b.name uri) (h : b.put uri body = .ok c) :
    Grown cfg b c := by
  obtain ⟨-, rfl⟩ := Bucket.put_eq_ok.mp h
  refine ⟨rfl, ?_, ?_⟩
  · intro other hother
    rw [SortedDict.find?_insert]
    split_ifs
    · simp
    · exact hother
  · intro other hother
    rw [SortedDict.find?_insert, if_neg]
    rintro rfl
    exact hother huri

theorem Grown.hasVerdict_eq (h : Grown cfg b c) (receipt : JobReceiptV3) :
    hasVerdict (verifierConfig cfg) c receipt = hasVerdict (verifierConfig cfg) b receipt := by
  unfold hasVerdict
  rw [h.name]
  apply bucket_exists_congr
  apply h.others
  intro hemission
  exact ((verdictUri_isVerdict (verifierConfig cfg) receipt).onBranch _).unique (by decide)
    hemission.onBranch

theorem Grown.findAuditResult_eq (h : Grown cfg b c) {receipt : JobReceiptV3}
    (hrun : receipt.runId = cfg.runId) :
    findAuditResult H (verifierConfig cfg) c receipt =
      findAuditResult H (verifierConfig cfg) b receipt := by
  apply findAuditResult_congr h.name
  intro uri huri
  apply h.others
  rw [hrun] at huri
  exact result_not_isEmission huri

theorem Grown.sampleReceipts_eq (h : Grown cfg b c) :
    sampleReceipts H (verifierConfig cfg) c = sampleReceipts H (verifierConfig cfg) b := by
  unfold sampleReceipts
  rw [listedReceipts_congr h.name]
  intro uri huri
  apply h.others
  intro hemission
  exact listed_not_onBranch (receiptsPrefix_branch _ _) (by decide) huri hemission.onBranch

def Stored (cfg : AuditJobConfig β) (b : Bucket β) (jobId : String) : Prop :=
  b.objects.find? (manifestUri cfg b.name jobId) ≠ none

theorem manifestUri_inj {jobId jobId' : String}
    (h : manifestUri cfg bucket jobId = manifestUri cfg bucket jobId') : jobId = jobId' := by
  have hlists := congrArg String.toList h
  simp only [manifestUri, auditJobManifestKey, joinUri, String.toList_append, List.append_assoc,
    List.append_cancel_left_eq, List.append_cancel_right_eq] at hlists
  exact String.toList_injective hlists

theorem grantUri_ne_manifestUri {runId jobId hotkey jobId' : String} (hrun : runId = cfg.runId) :
    joinUri bucket (auditAssignmentKey cfg.netuid runId jobId hotkey) ≠
      manifestUri cfg bucket jobId' := by
  rw [hrun]
  intro heq
  have hlists := congrArg String.toList heq
  simp [manifestUri, auditAssignmentKey, auditJobManifestKey, auditJobsPrefix, joinUri] at hlists

end Objects

section Pass

variable {H : Host β τ} {cfg : AuditJobConfig β} {faults : Faults} {w : ω} {s t : Office β ω}
variable {receiptUri jobId : String} {receipt : JobReceiptV3} {target m : JobManifestV3} {now : ℤ}
variable {halt : Halt} {clock : Readings}

def GrantsIssued (H : Host β τ) (cfg : AuditJobConfig β) (bucket : String) : Prop :=
  ∀ now m (b : Bucket β), b.name = bucket → ∃ out, emitAssignmentGrant H cfg now m b = .ok out

/-- Nothing fails between a stored manifest and the published queue: the grant, the queue and the
flush work, and the process stops only before the pass has come to its receipts. -/
structure SafeFaults (faults : Faults) : Prop where
  grant : ∀ uri, faults (.grant uri) = none
  enqueue : ∀ uri, faults (.enqueue uri) = none
  flush : ∀ point ∈ [Point.flush, .readForMerge, .putAgain, .finishFlush], faults point = none
  stops : ∀ point, faults point = some .stopped → point = .discover ∨ point = .list

theorem emitAssignmentGrant_grown {b c : Bucket β} {grantUri : Option String}
    (hrun : m.runId = cfg.runId) (h : emitAssignmentGrant H cfg now m b = .ok (grantUri, c)) :
    Grown cfg b c ∧ ∀ jobId, Stored cfg c jobId → Stored cfg b jobId := by
  unfold emitAssignmentGrant at h
  split at h
  · cases h
    exact ⟨Grown.refl b, fun _ hstored => hstored⟩
  · obtain ⟨b', hstore, hdone⟩ := bind_eq_ok.mp h
    cases hdone
    obtain ⟨grant, -, hstore⟩ := bind_eq_ok.mp hstore
    obtain ⟨encrypted, -, hput⟩ := bind_eq_ok.mp hstore
    have huri : IsEmission cfg b.name (b.uriForKey
        (auditAssignmentKey cfg.netuid m.runId m.jobId m.assignedHotkey)) := by
      refine isEmission_uri 'a' (by simp)
        ("ssignments/" ++ m.jobId ++ "/hotkey=" ++ m.assignedHotkey ++ ".json") ?_
      rw [hrun]
      simp only [auditAssignmentKey, String.append_assoc]
      rfl
    refine ⟨grown_of_put huri hput, ?_⟩
    intro jobId hstored
    obtain ⟨-, rfl⟩ := Bucket.put_eq_ok.mp hput
    have hne : manifestUri cfg b.name jobId ≠ b.uriForKey
        (auditAssignmentKey cfg.netuid m.runId m.jobId m.assignedHotkey) :=
      Ne.symm (grantUri_ne_manifestUri hrun)
    change (b.objects.insert _ _).find? (manifestUri cfg b.name jobId) ≠ none at hstored
    rwa [SortedDict.find?_insert, if_neg hne] at hstored

variable [DecidableEq ω]

theorem emitAuditJob_stored
    (h : emitAuditJob H cfg faults w now receiptUri receipt target jobId s = .ok m t) :
    Grown cfg s.bucket t.bucket ∧ Stored cfg t.bucket jobId ∧
      (∀ other, Stored cfg t.bucket other → Stored cfg s.bucket other ∨ other = jobId) ∧
      t.emitted = s.emitted ∧ ∃ entry : QueueEntry, entry.jobId = jobId ∧
        t.queues = s.queues.mutate w (.add entry) := by
  obtain ⟨worker, quota, grantUri, b, b', -, rfl, hput, hgrant, rfl⟩ := emitAuditJob_ok h
  have hfirst : Grown cfg s.bucket b := grown_of_put (manifestUri_isEmission jobId) hput
  obtain ⟨hsecond, hback⟩ := emitAssignmentGrant_grown (by rfl) hgrant
  obtain ⟨-, rfl⟩ := Bucket.put_eq_ok.mp hput
  refine ⟨hfirst.trans hsecond, ?_, ?_, rfl, _, rfl, rfl⟩
  · unfold Stored
    rw [hsecond.name]
    apply hsecond.kept
    simp
  · intro other hother
    have hstored := hback other hother
    unfold Stored at hstored
    rw [SortedDict.find?_insert] at hstored
    split_ifs at hstored with heq
    · exact Or.inr (manifestUri_inj heq)
    · exact Or.inl hstored

theorem emitAuditJob_error (hsafe : SafeFaults faults)
    (hgrants : GrantsIssued H cfg s.bucket.name)
    (h : emitAuditJob H cfg faults w now receiptUri receipt target jobId s = .error halt t) :
    halt ≠ .stopped ∧ t.bucket = s.bucket ∧ t.queues = s.queues ∧ t.emitted = s.emitted := by
  have hstop : ∀ point, point ≠ .discover → point ≠ .list → faults point ≠ some .stopped := by
    intro point hdiscover hlist hfault
    rcases hsafe.stops point hfault with rfl | rfl
    · exact hdiscover rfl
    · exact hlist rfl
  rcases Effects.bind_eq_error.mp h with hpick | ⟨worker, _, hpick, h⟩
  · rcases Effects.bind_eq_error.mp hpick with hreach | ⟨_, _, hreach, hpick⟩
    · obtain ⟨hfault, rfl⟩ := reach_eq_error.mp hreach
      refine ⟨?_, rfl, rfl, rfl⟩
      rintro rfl
      exact hstop _ (by simp) (by simp) hfault
    · obtain ⟨-, rfl⟩ := reach_eq_ok.mp hreach
      obtain ⟨⟨e, -, rfl⟩, rfl⟩ := attempt_eq_error.mp hpick
      exact ⟨by simp, rfl, rfl, rfl⟩
  obtain ⟨quota, -, rfl⟩ := pickWorker_ok hpick
  rcases Effects.bind_eq_error.mp h with hget | ⟨_, _, hget, h⟩
  · exact absurd hget Effects.get_ne_error
  obtain ⟨rfl, rfl⟩ := Effects.get_eq_ok.mp hget
  rcases Effects.bind_eq_error.mp h with hreach | ⟨_, _, hreach, h⟩
  · obtain ⟨hfault, rfl⟩ := reach_eq_error.mp hreach
    refine ⟨?_, rfl, rfl, rfl⟩
    rintro rfl
    exact hstop _ (by simp) (by simp) hfault
  obtain ⟨-, rfl⟩ := reach_eq_ok.mp hreach
  rcases Effects.bind_eq_error.mp h with hput | ⟨_, _, hput, h⟩
  · obtain ⟨⟨e, -, rfl⟩, rfl⟩ := attempt_eq_error.mp hput
    exact ⟨by simp, rfl, rfl, rfl⟩
  -- From here on the manifest is stored, and nothing may raise.
  obtain ⟨b, hstored, hdone⟩ := bind_eq_ok.mp (attempt_eq_ok.mp hput)
  cases hdone
  rcases Effects.bind_eq_error.mp h with hreach | ⟨_, _, hreach, h⟩
  · have hfault := (reach_eq_error.mp hreach).1
    rw [hsafe.grant] at hfault
    cases hfault
  obtain ⟨-, rfl⟩ := reach_eq_ok.mp hreach
  rcases Effects.bind_eq_error.mp h with hgrant | ⟨_, _, -, h⟩
  · obtain ⟨⟨e, hraise, -⟩, -⟩ := attempt_eq_error.mp hgrant
    obtain ⟨out, hout⟩ := hgrants now
      (auditManifest H cfg s.bucket.name now worker receiptUri receipt target jobId) b
      (Bucket.name_of_put hstored)
    rcases bind_eq_error.mp hraise with hraise | ⟨_, _, hraise⟩
    · exact absurd (hout.symm.trans hraise) (by simp)
    · cases hraise
  rcases Effects.bind_eq_error.mp h with hreach | ⟨_, _, -, h⟩
  · have hfault := (reach_eq_error.mp hreach).1
    rw [hsafe.enqueue] at hfault
    cases hfault
  rcases Effects.bind_eq_error.mp h with hadd | ⟨_, _, -, h⟩
  · exact absurd hadd Effects.modify_ne_error
  · cases h

/-- Every stored audit manifest has its job in the published queue or, once the pass has emitted
a job, in the queue of the manager that runs it. -/
structure PassKept (H : Host β τ) (cfg : AuditJobConfig β) (w : ω) (s : Office β ω) : Prop where
  queue : QueueKept H.libraries.platform s.queues
  listed : ∀ jobId, Stored cfg s.bucket jobId →
    Published H.libraries.platform s.queues.cell jobId ∨
      jobId ∈ entryIds (s.queues.writers w).outstanding.vals ∧ 0 < s.emitted

omit [DecidableEq ω] in
theorem PassKept.congr (h : PassKept H cfg w s) (hbucket : t.bucket = s.bucket)
    (hqueues : t.queues = s.queues) (hemitted : t.emitted = s.emitted) : PassKept H cfg w t := by
  constructor
  · rw [hqueues]
    exact h.queue
  · rw [hbucket, hqueues, hemitted]
    exact h.listed

theorem QueueKept.add {p : Platform β} {q : System β ω Unit} (h : QueueKept p q) (w : ω)
    (entry : QueueEntry) : QueueKept p (q.mutate w (.add entry)) :=
  ⟨h.additions.mutate_add w entry, h.idle, h.readable⟩

theorem mem_mutate_add {q : System β ω Unit} {entry : QueueEntry} {jobId : String} :
    jobId ∈ entryIds ((q.mutate w (.add entry)).writers w).outstanding.vals ↔
      jobId ∈ entryIds (q.writers w).outstanding.vals ∨ jobId = entry.jobId := by
  have hwriter : (q.mutate w (.add entry)).writers w = (q.writers w).add entry := by
    simp [System.mutate, Mutator.apply]
  rw [hwriter]
  exact KeyedDict.mem_keys_set

/-- A receipt that has neither a verdict nor a result has its manifest stored. -/
def Attended (H : Host β τ) (cfg : AuditJobConfig β) (b : Bucket β) (receipt : JobReceiptV3) :
    Prop :=
  receipt.runId = cfg.runId → hasVerdict (verifierConfig cfg) b receipt = .ok false →
    findAuditResult H (verifierConfig cfg) b receipt = none →
      Stored cfg b (auditJobId H.libraries.platform receipt)

theorem Attended.grown {b c : Bucket β} (h : Attended H cfg b receipt) (hgrown : Grown cfg b c) :
    Attended H cfg c receipt := by
  intro hrun hverdict hresult
  rw [hgrown.hasVerdict_eq] at hverdict
  rw [hgrown.findAuditResult_eq hrun] at hresult
  unfold Stored
  rw [hgrown.name]
  exact hgrown.kept _ (h hrun hverdict hresult)

/-- What a part of a pass leaves behind: the bucket has grown, and the object of the queue has
not been touched. -/
structure PassStep (H : Host β τ) (cfg : AuditJobConfig β) (w : ω) (s t : Office β ω) : Prop where
  kept : PassKept H cfg w t
  grown : Grown cfg s.bucket t.bucket
  cell : t.queues.cell = s.queues.cell

theorem PassKept.auditReceipt (hs : PassKept H cfg w s)
    (h : auditReceipt H cfg faults w clock receiptUri receipt s = .ok ⟨⟩ t) :
    PassStep H cfg w s t ∧ Attended H cfg t.bucket receipt := by
  rcases auditReceipt_ok h with ⟨htest, rfl⟩ | ⟨htest, target, m, u, hemit, rfl⟩
  · refine ⟨⟨hs, Grown.refl _, rfl⟩, ?_⟩
    intro hrun hverdict hresult
    unfold needsAudit at htest
    rw [hverdict] at htest
    simp only [ok_bind, Bool.false_eq_true, if_false, hresult, Option.isSome_none] at htest
    obtain ⟨found, hfound, hdone⟩ := bind_eq_ok.mp htest
    obtain ⟨_, -, hpresent⟩ := bind_eq_ok.mp hfound
    cases found with
    | false => cases hdone
    | true => exact Option.isSome_iff_ne_none.mp (Except.ok.inj hpresent)
  · obtain ⟨hgrown, hstored, hback, hemitted, entry, hid, hqueues⟩ := emitAuditJob_stored hemit
    refine ⟨⟨⟨?_, ?_⟩, hgrown, ?_⟩, fun _ _ _ => hstored⟩
    · change QueueKept _ u.queues
      rw [hqueues]
      exact hs.queue.add w entry
    · intro jobId hjob
      change Published _ u.queues.cell jobId ∨
        jobId ∈ entryIds (u.queues.writers w).outstanding.vals ∧ 0 < u.emitted + 1
      rw [hqueues, mem_mutate_add, hid]
      rcases hback jobId hjob with hold | rfl
      · rcases hs.listed jobId hold with hpublished | ⟨hheld, -⟩
        · exact Or.inl hpublished
        · exact Or.inr ⟨Or.inl hheld, Nat.succ_pos _⟩
      · exact Or.inr ⟨Or.inr rfl, Nat.succ_pos _⟩
    · change u.queues.cell = _
      rw [hqueues]
      rfl

theorem PassKept.auditReceipt_raises (hsafe : SafeFaults faults)
    (hgrants : GrantsIssued H cfg s.bucket.name) (hs : PassKept H cfg w s)
    (h : AuditJobs.auditReceipt H cfg faults w clock receiptUri receipt s = .error halt t) :
    halt ≠ .stopped ∧ PassStep H cfg w s t := by
  have hstay : ∀ {u : Office β ω}, u.bucket = s.bucket → u.queues = s.queues →
      u.emitted = s.emitted → PassStep H cfg w s u := by
    intro u hbucket hqueues hemitted
    refine ⟨hs.congr hbucket hqueues hemitted, ?_, by rw [hqueues]⟩
    rw [hbucket]
    exact Grown.refl _
  rcases auditReceipt_error h with ⟨rfl, hwhy⟩ | ⟨target, hemit⟩
  · refine ⟨?_, hstay rfl rfl rfl⟩
    rintro rfl
    rcases hwhy with hfault | hfault | ⟨e, he⟩
    · rcases hsafe.stops _ hfault with hpoint | hpoint <;> cases hpoint
    · rcases hsafe.stops _ hfault with hpoint | hpoint <;> cases hpoint
    · cases he
  · obtain ⟨hstop, hbucket, hqueues, hemitted⟩ := emitAuditJob_error hsafe hgrants hemit
    exact ⟨hstop, hstay hbucket hqueues hemitted⟩

omit [DecidableEq ω] in
theorem PassStep.trans {u : Office β ω} (h : PassStep H cfg w s t) (h' : PassStep H cfg w t u) :
    PassStep H cfg w s u :=
  ⟨h'.kept, h.grown.trans h'.grown, h'.cell.trans h.cell⟩

theorem PassKept.auditReceipts (hs : PassKept H cfg w s) (faults : Faults) (clock : Readings)
    (maxJobs : Option ℤ) (receipts : List (String × JobReceiptV3)) :
    (∀ t, auditReceipts H cfg faults w clock maxJobs receipts s = .ok ⟨⟩ t →
      PassStep H cfg w s t ∧
        (maxJobs = none → ∀ item ∈ receipts, Attended H cfg t.bucket item.2)) ∧
    (SafeFaults faults → GrantsIssued H cfg s.bucket.name → ∀ halt t,
      auditReceipts H cfg faults w clock maxJobs receipts s = .error halt t →
        halt ≠ .stopped ∧ PassStep H cfg w s t) := by
  induction receipts generalizing s with
  | nil =>
    constructor
    · intro t h
      cases h
      exact ⟨⟨hs, Grown.refl _, rfl⟩, by simp⟩
    · intro _ _ halt t h
      cases h
  | cons item receipts ih =>
    obtain ⟨receiptUri, receipt⟩ := item
    constructor
    · intro t h
      obtain ⟨_, _, hget, h⟩ := Effects.bind_eq_ok.mp h
      obtain ⟨rfl, rfl⟩ := Effects.get_eq_ok.mp hget
      by_cases hcap : maxJobs.any (· ≤ (s.emitted : ℤ)) = true
      · rw [if_pos hcap] at h
        cases h
        refine ⟨⟨hs, Grown.refl _, rfl⟩, ?_⟩
        rintro rfl
        cases hcap
      · rw [if_neg hcap] at h
        obtain ⟨_, u, hfirst, hrest⟩ := Effects.bind_eq_ok.mp h
        obtain ⟨hstep, hattended⟩ := hs.auditReceipt hfirst
        obtain ⟨hsteps, hall⟩ := (ih hstep.kept).1 t hrest
        refine ⟨hstep.trans hsteps, ?_⟩
        intro hmax item hitem
        rcases List.mem_cons.mp hitem with rfl | hitem
        · exact hattended.grown hsteps.grown
        · exact hall hmax item hitem
    · intro hsafe hgrants halt t h
      rcases Effects.bind_eq_error.mp h with hget | ⟨_, _, hget, h⟩
      · exact absurd hget Effects.get_ne_error
      obtain ⟨rfl, rfl⟩ := Effects.get_eq_ok.mp hget
      by_cases hcap : maxJobs.any (· ≤ (s.emitted : ℤ)) = true
      · rw [if_pos hcap] at h
        cases h
      · rw [if_neg hcap] at h
        rcases Effects.bind_eq_error.mp h with hfirst | ⟨_, u, hfirst, hrest⟩
        · exact hs.auditReceipt_raises hsafe hgrants hfirst
        · have hstep := (hs.auditReceipt hfirst).1
          obtain ⟨hstop, hsteps⟩ := (ih hstep.kept).2 hsafe
            (by rw [hstep.grown.name]; exact hgrants) halt t hrest
          exact ⟨hstop, hstep.trans hsteps⟩

end Pass

section Runs

variable {H : Host β τ} {cfg : AuditJobConfig β} {faults : Faults} {w : ω} {s t : Office β ω}
variable {clock : Readings}

/-- Every stored audit manifest has its job in the published queue. -/
structure Kept (H : Host β τ) (cfg : AuditJobConfig β) (s : Office β ω) : Prop where
  queue : QueueKept H.libraries.platform s.queues
  listed : ∀ jobId, Stored cfg s.bucket jobId →
    Published H.libraries.platform s.queues.cell jobId

variable [DecidableEq ω]

theorem PassKept.publish (loads_dumps : H.libraries.platform.Rereads)
    (hs : PassKept H cfg w s) (hfresh : FreshTag s.queues.cell clock.newTag)
    (hfaults : ∀ point ∈ [Point.flush, .readForMerge, .putAgain, .finishFlush],
      faults point = none) :
    ∃ t, publishIfEmitted H faults w clock s = .ok ⟨⟩ t ∧ Kept H cfg t ∧ t.bucket = s.bucket := by
  unfold publishIfEmitted
  by_cases hemitted : 0 < s.emitted
  · obtain ⟨q, hflush, hflushed⟩ := flush_publishes w clock.flush loads_dumps hs.queue hfresh
      hfaults
    refine ⟨{ s with queues := q }, ?_, ⟨hflushed.kept, ?_⟩, rfl⟩
    · refine Effects.bind_eq_ok.mpr ⟨s, s, Effects.get_eq_ok.mpr ⟨rfl, rfl⟩, ?_⟩
      rw [if_pos hemitted]
      exact hflush
    · intro jobId hstored
      rcases hs.listed jobId hstored with hpublished | ⟨hheld, -⟩
      · exact hflushed.published jobId hpublished
      · exact hflushed.own jobId hheld
  · refine ⟨s, ?_, ⟨hs.queue, ?_⟩, rfl⟩
    · refine Effects.bind_eq_ok.mpr ⟨s, s, Effects.get_eq_ok.mpr ⟨rfl, rfl⟩, ?_⟩
      rw [if_neg hemitted]
      rfl
    · intro jobId hstored
      rcases hs.listed jobId hstored with hpublished | ⟨-, hpositive⟩
      · exact hpublished
      · exact absurd hpositive hemitted

/-- A call of the process, or a change of the bucket by somebody else. -/
inductive Call (β ω : Type) where
  | construct (w : ω) (faults : Faults)
  | runOnce (w : ω) (faults : Faults) (clock : Readings) (maxJobs : Option ℤ)
  | outside (b : Bucket β)

/-- The state that a call leaves behind, whether it returns, raises or is stopped. -/
def Call.perform (H : Host β τ) (cfg : AuditJobConfig β) (s : Office β ω) : Call β ω → Office β ω
  | .construct w faults => Effects.after (AuditJobs.construct H faults w) s
  | .runOnce w faults clock maxJobs =>
    Effects.after (AuditJobs.runOnce H cfg faults w clock maxJobs) s
  | .outside b => { s with bucket := b }

/-- The condition on a call: a pass does not fail between a manifest and the published queue and
gets a new tag for its snapshot, and nobody else writes audit manifests. A construction may
fail at any point. -/
def Call.Safe (cfg : AuditJobConfig β) (s : Office β ω) : Call β ω → Prop
  | .construct _ _ => True
  | .runOnce _ faults clock _ => SafeFaults faults ∧ FreshTag s.queues.cell clock.newTag
  | .outside b => b.name = s.bucket.name ∧ ∀ jobId, Stored cfg b jobId → Stored cfg s.bucket jobId

def performAll (H : Host β τ) (cfg : AuditJobConfig β) (s : Office β ω) (calls : List (Call β ω)) :
    Office β ω :=
  calls.foldl (Call.perform H cfg) s

def SafeCalls (H : Host β τ) (cfg : AuditJobConfig β) : Office β ω → List (Call β ω) → Prop
  | _, [] => True
  | s, call :: calls => call.Safe cfg s ∧ SafeCalls H cfg (call.perform H cfg s) calls

theorem PassKept.emitAndPublish (hs : PassKept H cfg w s) (loads_dumps : H.libraries.platform.Rereads)
    (hsafe : SafeFaults faults) (hgrants : GrantsIssued H cfg s.bucket.name)
    (hfresh : FreshTag s.queues.cell clock.newTag) (maxJobs : Option ℤ)
    (receipts : List (String × JobReceiptV3)) :
    Kept H cfg (Effects.after (emitAndPublish H cfg faults w clock maxJobs receipts) s) ∧
      Grown cfg s.bucket
        (Effects.after (emitAndPublish H cfg faults w clock maxJobs receipts) s).bucket ∧
      ∀ n t, emitAndPublish H cfg faults w clock maxJobs receipts s = .ok n t → maxJobs = none →
        ∀ item ∈ receipts, Attended H cfg t.bucket item.2 := by
  obtain ⟨hok, herror⟩ := hs.auditReceipts faults clock maxJobs receipts
  cases hloop : AuditJobs.auditReceipts H cfg faults w clock maxJobs receipts s with
  | ok u t =>
    obtain ⟨hstep, hattended⟩ := hok t hloop
    obtain ⟨t', hpublish, hkept, hbucket⟩ := hstep.kept.publish loads_dumps
      (hstep.cell ▸ hfresh) hsafe.flush
    have hrun : AuditJobs.emitAndPublish H cfg faults w clock maxJobs receipts s =
        .ok t'.emitted t' := by
      rw [AuditJobs.emitAndPublish, hloop]
      simp only [hpublish]
    rw [Effects.after_of_ok hrun, hrun]
    refine ⟨hkept, hbucket ▸ hstep.grown, ?_⟩
    intro n t'' hdone
    cases hdone
    rw [hbucket]
    exact hattended
  | error halt t =>
    obtain ⟨hstop, hstep⟩ := herror hsafe hgrants halt t hloop
    cases halt with
    | stopped => exact absurd rfl hstop
    | raised e =>
      obtain ⟨t', hpublish, hkept, hbucket⟩ := hstep.kept.publish loads_dumps
        (hstep.cell ▸ hfresh) hsafe.flush
      have hrun : AuditJobs.emitAndPublish H cfg faults w clock maxJobs receipts s =
          .error (.raised e) t' := by
        rw [AuditJobs.emitAndPublish, hloop]
        simp only [hpublish]
      rw [Effects.after_of_error hrun, hrun]
      refine ⟨hkept, hbucket ▸ hstep.grown, ?_⟩
      intro n t'' hdone
      cases hdone

def discovered (H : Host β τ) (cfg : AuditJobConfig β) (w : ω) (clock : Readings)
    (s : Office β ω) : Office β ω :=
  { s with
    emitted := 0
    quotas := Function.update s.quotas w
      (discoverAuditors H cfg clock.discover s.bucket (s.quotas w)) }

theorem runOnce_cases (H : Host β τ) (cfg : AuditJobConfig β) (faults : Faults) (w : ω)
    (clock : Readings) (maxJobs : Option ℤ) (s : Office β ω) :
    (∃ halt t, runOnce H cfg faults w clock maxJobs s = .error halt t ∧ t.bucket = s.bucket ∧
      t.queues = s.queues) ∨
    runOnce H cfg faults w clock maxJobs s = emitAndPublish H cfg faults w clock maxJobs
      (sampleReceipts H (verifierConfig cfg) s.bucket) (discovered H cfg w clock s) := by
  unfold AuditJobs.runOnce reach
  cases hdiscover : faults .discover with
  | some halt => exact Or.inl ⟨halt, _, rfl, rfl, rfl⟩
  | none =>
    cases hlist : faults .list with
    | some halt => exact Or.inl ⟨halt, _, rfl, rfl, rfl⟩
    | none => exact Or.inr rfl

theorem Kept.runOnce (hs : Kept H cfg s) (loads_dumps : H.libraries.platform.Rereads)
    (hsafe : SafeFaults faults) (hgrants : GrantsIssued H cfg s.bucket.name)
    (hfresh : FreshTag s.queues.cell clock.newTag) (w : ω) (maxJobs : Option ℤ) :
    Kept H cfg (Effects.after (runOnce H cfg faults w clock maxJobs) s) ∧
      (Effects.after (AuditJobs.runOnce H cfg faults w clock maxJobs) s).bucket.name =
        s.bucket.name ∧
      ∀ n t, AuditJobs.runOnce H cfg faults w clock maxJobs s = .ok n t → maxJobs = none →
        ∀ item ∈ sampleReceipts H (verifierConfig cfg) t.bucket,
          Attended H cfg t.bucket item.2 := by
  rcases runOnce_cases H cfg faults w clock maxJobs s with
    ⟨halt, t, hrun, hbucket, hqueues⟩ | hrun
  · rw [Effects.after_of_error hrun, hrun, hbucket]
    refine ⟨⟨by rw [hqueues]; exact hs.queue, by rw [hbucket, hqueues]; exact hs.listed⟩, rfl, ?_⟩
    intro n t hdone
    cases hdone
  · have hstart : PassKept H cfg w (discovered H cfg w clock s) :=
      ⟨hs.queue, fun jobId hstored => Or.inl (hs.listed jobId hstored)⟩
    obtain ⟨hkept, hgrown, hattended⟩ := hstart.emitAndPublish loads_dumps hsafe hgrants hfresh
      maxJobs (sampleReceipts H (verifierConfig cfg) s.bucket)
    have hafter : Effects.after (AuditJobs.runOnce H cfg faults w clock maxJobs) s =
        Effects.after (AuditJobs.emitAndPublish H cfg faults w clock maxJobs
          (sampleReceipts H (verifierConfig cfg) s.bucket)) (discovered H cfg w clock s) := by
      rw [Effects.after, hrun, Effects.after]
    rw [hafter]
    refine ⟨hkept, hgrown.name, ?_⟩
    intro n t hdone hmax item hitem
    rw [hrun] at hdone
    rw [Effects.after_of_ok hdone] at hgrown
    rw [hgrown.sampleReceipts_eq] at hitem
    exact hattended n t hdone hmax item hitem

theorem QueueKept.restart {p : Platform β} {q : System β ω Unit} (h : QueueKept p q) (w : ω) :
    QueueKept p (q.restart w) := by
  refine ⟨h.additions.restart w, ?_, h.readable⟩
  simp [System.restart, h.idle]

theorem QueueKept.reconcile {p : Platform β}
    (loads_dumps : p.Rereads) {q : System β ω Unit}
    (h : QueueKept p q) (w : ω) :
    ∃ q₁ q₂, exec p .audit q (.readForReconcile () w []) = some q₁ ∧
      exec p .audit q₁ (.reconcile ()) = some q₂ ∧ QueueKept p q₂ ∧ q₂.cell = q.cell := by
  obtain ⟨state, hread, -⟩ := h.read loads_dumps
  let q₁ := q.act w (q.writers w) () (some (.reconcileRead state []))
  let q₂ := q₁.act w ((q₁.writers w).reconcile state []) () none
  have hfirst : exec p .audit q (.readForReconcile () w []) = some q₁ := by
    simp [exec, h.idle, hread, q₁]
  have hsecond : exec p .audit q₁ (.reconcile ()) = some q₂ := by
    simp [exec, q₁, q₂, System.act]
  have hq₁ := additions_of_exec loads_dumps h.additions hfirst ⟨rfl, not_busy_of_idle h.idle w⟩
  have hq₂ := additions_of_exec loads_dumps hq₁ hsecond trivial
  exact ⟨q₁, q₂, hfirst, hsecond, ⟨hq₂, by simp [q₂, System.act], h.readable⟩, rfl⟩

theorem Kept.construct (hs : Kept H cfg s) (loads_dumps : H.libraries.platform.Rereads) (faults : Faults) (w : ω) :
    Kept H cfg (Effects.after (construct H faults w) s) ∧
      (Effects.after (AuditJobs.construct H faults w) s).bucket = s.bucket := by
  have hrestart := hs.queue.restart w
  cases hfault : faults .reconcile with
  | some halt =>
    have hrun : AuditJobs.construct H faults w s = .error halt
        { s with queues := s.queues.restart w, quotas := Function.update s.quotas w {} } := by
      unfold AuditJobs.construct reach
      rw [hfault]
      rfl
    rw [Effects.after_of_error hrun]
    exact ⟨⟨hrestart, hs.listed⟩, rfl⟩
  | none =>
    obtain ⟨q₁, q₂, hfirst, hsecond, hkept, hcell⟩ := hrestart.reconcile loads_dumps w
    have hrun : AuditJobs.construct H faults w s = .ok ⟨⟩
        { s with queues := q₂, quotas := Function.update s.quotas w {} } := by
      unfold AuditJobs.construct
      refine Effects.bind_eq_ok.mpr ⟨⟨⟩, _, Effects.modify_eq_ok.mpr rfl, ?_⟩
      refine Effects.bind_eq_ok.mpr ⟨⟨⟩, _, reach_eq_ok.mpr ⟨hfault, rfl⟩, ?_⟩
      exact Effects.bind_eq_ok.mpr ⟨⟨⟩, _, perform_of_exec hfirst, perform_of_exec hsecond⟩
    rw [Effects.after_of_ok hrun]
    refine ⟨⟨hkept, ?_⟩, rfl⟩
    intro jobId hstored
    rw [hcell]
    exact hs.listed jobId hstored

theorem Kept.perform (hs : Kept H cfg s) (loads_dumps : H.libraries.platform.Rereads)
    (hgrants : GrantsIssued H cfg s.bucket.name) {call : Call β ω} (hsafe : call.Safe cfg s) :
    Kept H cfg (call.perform H cfg s) ∧ (call.perform H cfg s).bucket.name = s.bucket.name := by
  cases call with
  | construct w faults =>
    obtain ⟨hkept, hbucket⟩ := hs.construct loads_dumps faults w
    exact ⟨hkept, congrArg Bucket.name hbucket⟩
  | runOnce w faults clock maxJobs =>
    obtain ⟨hkept, hname, -⟩ := hs.runOnce loads_dumps hsafe.1 hgrants hsafe.2 w maxJobs
    exact ⟨hkept, hname⟩
  | outside b => exact ⟨⟨hs.queue, fun jobId h => hs.listed jobId (hsafe.2 jobId h)⟩, hsafe.1⟩

theorem Kept.performAll (hs : Kept H cfg s) (loads_dumps : H.libraries.platform.Rereads)
    (hgrants : GrantsIssued H cfg s.bucket.name) {calls : List (Call β ω)}
    (hsafe : SafeCalls H cfg s calls) :
    Kept H cfg (performAll H cfg s calls) ∧
      (StrandedAudits.performAll H cfg s calls).bucket.name = s.bucket.name := by
  induction calls generalizing s with
  | nil => exact ⟨hs, rfl⟩
  | cons call calls ih =>
    obtain ⟨hkept, hname⟩ := hs.perform loads_dumps hgrants hsafe.1
    obtain ⟨hall, hsame⟩ := ih hkept (hname ▸ hgrants) hsafe.2
    exact ⟨hall, hsame.trans hname⟩

structure Opening (cfg : AuditJobConfig β) (s : Office β ω) : Prop where
  queue : Start s.queues
  unpublished : s.queues.cell.versions = []
  unstored : ∀ jobId, ¬ Stored cfg s.bucket jobId

omit [DecidableEq ω] in
theorem Opening.kept (h : Opening cfg s) : Kept H cfg s := by
  refine ⟨⟨initial_invariant h.queue, h.queue.calls (), ?_⟩, ?_⟩
  · intro v hv
    rw [h.unpublished] at hv
    cases hv
  · intro jobId hstored
    exact absurd hstored (h.unstored jobId)

end Runs

section Failures

def heartbeat : Json :=
  mkObj [("worker", (gpuWorker "B").toDict), ("run_id", .str "r"), ("last_seen_unix", .int 0)]

def withHeartbeat : SortedDict String Json :=
  honestBucket.objects.insert (joinUri "b" (auditorsPrefix 0 ++ "B/heartbeat.json")) heartbeat

def office : Office Json Unit where
  bucket := { honestBucket with objects := withHeartbeat }
  queues := ⟨CasCell.absent, fun _ => {}, fun _ => none, fun _ => []⟩
  quotas := fun _ => {}

def readings (newTag : String) : Readings := ⟨0, fun _ => 0, 0, newTag⟩

def failingAt (point : Point) (halt : Halt) : Faults := fun other =>
  if other = point then some halt else none

/-- A manager is constructed and makes a pass, which fails; then a new one is constructed. -/
def failedPass (faults : Faults) : List (Call Json Unit) :=
  [.construct () fun _ => none, .runOnce () faults (readings "e1") none,
    .construct () fun _ => none]

def nextPass (faults : Faults) : EStateM.Result Halt (Office Json Unit) ℕ :=
  AuditJobs.runOnce scoringHost auditConfig (fun _ => none) () (readings "e2") none
    (performAll scoringHost auditConfig office (failedPass faults))

def waits (b : Bucket Json) (item : String × JobReceiptV3) : Bool :=
  item.2.runId = "r" ∧ hasVerdict (verifierConfig auditConfig) b item.2 = .ok false ∧
    (findAuditResult scoringHost (verifierConfig auditConfig) b item.2).isNone

def leavesUnpublished (faults : Faults) : Bool :=
  match nextPass faults with
  | .ok _ t =>
    (sampleReceipts scoringHost (verifierConfig auditConfig) t.bucket).any (waits t.bucket) &&
      t.queues.cell.versions.isEmpty
  | .error _ _ => false

/-- After the failed pass and the next one, which returns, a receipt still waits for its audit and
no audit job for it is published. -/
def LeavesStranded (faults : Faults) : Prop :=
  ∃ n t, nextPass faults = .ok n t ∧
    ∃ item ∈ sampleReceipts scoringHost (verifierConfig auditConfig) t.bucket,
      item.2.runId = "r" ∧ hasVerdict (verifierConfig auditConfig) t.bucket item.2 = .ok false ∧
      findAuditResult scoringHost (verifierConfig auditConfig) t.bucket item.2 = none ∧
      ¬ Published plainPlatform t.queues.cell (auditJobId plainPlatform item.2)

theorem stranded_of_unpublished {faults : Faults} (h : leavesUnpublished faults = true) :
    LeavesStranded faults := by
  unfold leavesUnpublished at h
  split at h
  · next n t hrun =>
    obtain ⟨hany, hempty⟩ := Bool.and_eq_true_iff.mp h
    obtain ⟨item, hitem, hwaits⟩ := List.any_eq_true.mp hany
    obtain ⟨hrunId, hverdict, hresult⟩ := of_decide_eq_true hwaits
    refine ⟨n, t, hrun, item, hitem, hrunId, hverdict, Option.isNone_iff_eq_none.mp hresult, ?_⟩
    rintro ⟨v, hv, -⟩
    have hmem := CasCell.mem_of_current hv
    rw [List.isEmpty_iff.mp hempty] at hmem
    cases hmem
  · cases h

def xReceiptUri : String := joinUri "b" (receiptKey 0 "r" "A" "j" 0)

theorem office_opening : Opening auditConfig office := by
  refine ⟨⟨Nat.zero_le 1, fun _ => rfl, fun _ => rfl, fun _ => rfl⟩, rfl, ?_⟩
  intro jobId hstored
  have hkeys : (office.bucket.objects.keys.all fun k => ['j', 'a'].all fun letter =>
      !startsWith k (joinUri "b" (auditRoot 0 "r" ++ "/") ++ String.singleton letter)) = true := by
    decide +kernel
  have hemission : IsEmission auditConfig "b" (manifestUri auditConfig "b" jobId) :=
    manifestUri_isEmission jobId
  obtain ⟨letter, hletter, hstart⟩ := hemission
  have hnot := List.all_eq_true.mp
    (List.all_eq_true.mp hkeys _ (SortedDict.mem_keys.mpr hstored)) letter hletter
  rw [Bool.not_eq_true'] at hnot
  exact Bool.false_ne_true (hnot.symm.trans hstart)

def pickFails : Faults := failingAt (.pickWorker xReceiptUri) (.raised (.runtimeError ""))

theorem pickFails_safe : SafeFaults pickFails where
  grant := fun _ => rfl
  enqueue := fun _ => rfl
  flush := by decide
  stops := by
    intro point h
    unfold pickFails failingAt at h
    split_ifs at h
    cases h

end Failures

end StrandedAudits

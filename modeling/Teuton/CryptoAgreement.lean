import Teuton.ArtifactCrypto
import Teuton.RoundEmission
import Teuton.StreamEmission

/-! Whether the jobs of a run agree on how artifacts are wrapped. Outputs carry the configured
crypto policy, resolved for the worker; inputs carry a copied policy, the configured one or
none, depending on the emitter. The two sides agree in every run when the configured policy
asks for nothing, and in no run in which an artifact is handed over through a reference that
carries none. -/
namespace CryptoAgreement

open PyJson Signatures Protocol ArtifactCrypto
open JobEmission

variable {β : Type}

structure SameCrypto (c d : ArtifactCryptoPolicy) : Prop where
  mode : c.mode = d.mode
  requiredSigner : c.requiredSigner = d.requiredSigner
  keyId : c.keyId = d.keyId
  drandRound : c.drandRound = d.drandRound
  drandChainHash : c.drandChainHash = d.drandChainHash
  drandPublicKey : c.drandPublicKey = d.drandPublicKey

/-- The policy asks for nothing: artifacts are stored as they are, by whoever. -/
def AsksNothing (policy : Option ArtifactCryptoPolicy) : Prop :=
  SameCrypto (defaultPolicy policy) {}

structure HandsOver (p : Platform β) (output input : ArtifactRef) : Prop where
  sameCrypto : SameCrypto (defaultPolicy input.crypto) (defaultPolicy output.crypto)
  readable : ∀ (timelock : TimelockProvider β) (signer : Option (Signer β))
    (verifier : Option (Verifier β)) (secret : String) (plaintext : β),
    (encodeEnvelope p timelock signer secret plaintext output.crypto >>= fun blob =>
      decodeEnvelope p timelock verifier secret blob input.crypto) = .ok plaintext

/-- Every input that names an output of an earlier job is read the way it was written. -/
def Agrees (p : Platform β) (jobs : List JobManifestV3) : Prop :=
  jobs.Pairwise fun producer consumer => ∀ output ∈ producer.outputs, ∀ input ∈ consumer.inputs,
    input.uri = output.uri → HandsOver p output input

theorem SameCrypto.symm {c d : ArtifactCryptoPolicy} (h : SameCrypto c d) : SameCrypto d c :=
  ⟨h.mode.symm, h.requiredSigner.symm, h.keyId.symm, h.drandRound.symm, h.drandChainHash.symm,
    h.drandPublicKey.symm⟩

theorem SameCrypto.trans {c d e : ArtifactCryptoPolicy} (h : SameCrypto c d)
    (h' : SameCrypto d e) : SameCrypto c e :=
  ⟨h.mode.trans h'.mode, h.requiredSigner.trans h'.requiredSigner, h.keyId.trans h'.keyId,
    h.drandRound.trans h'.drandRound, h.drandChainHash.trans h'.drandChainHash,
    h.drandPublicKey.trans h'.drandPublicKey⟩

theorem asksNothing_none : AsksNothing none := ⟨rfl, rfl, rfl, rfl, rfl, rfl⟩

theorem asksNothing_resolve (hotkey : String) (policy : Option ArtifactCryptoPolicy) :
    AsksNothing (policy.map (resolvePolicy hotkey)) ↔ AsksNothing policy := by
  cases policy with
  | none => rfl
  | some c =>
    by_cases hc : c.requiredSigner = some "assigned_hotkey"
    · have hresolved : resolvePolicy hotkey c = { c with requiredSigner := some hotkey } :=
        if_pos hc
      constructor
      · intro h
        have hsigner := h.requiredSigner
        simp [defaultPolicy, hresolved] at hsigner
      · intro h
        have hsigner := h.requiredSigner
        simp [defaultPolicy, hc] at hsigner
    · have hresolved : resolvePolicy hotkey c = c := if_neg hc
      simp [hresolved]

theorem handsOver_of_asksNothing {p : Platform β} {output input : ArtifactRef}
    (ho : AsksNothing output.crypto) (hi : AsksNothing input.crypto) :
    HandsOver p output input := by
  refine ⟨hi.trans ho.symm, fun timelock signer verifier secret plaintext => ?_⟩
  have hencode : encodeEnvelope p timelock signer secret plaintext output.crypto = .ok plaintext :=
    if_pos ho.mode
  rw [hencode]
  exact if_pos hi.mode

inductive FromConfig (policy : Option ArtifactCryptoPolicy) : Option ArtifactCryptoPolicy → Prop
  | none : FromConfig policy none
  | configured : FromConfig policy policy
  | resolved (hotkey : String) : FromConfig policy (policy.map (resolvePolicy hotkey))

def Resolved (policy : Option ArtifactCryptoPolicy) (ref : ArtifactRef) : Prop :=
  ∃ hotkey, ref.crypto = policy.map (resolvePolicy hotkey)

/-- All references of the jobs come from the configuration, and the outputs are resolved. -/
structure JobsFrom (policy : Option ArtifactCryptoPolicy) (jobs : List JobManifestV3) : Prop where
  inputs : ∀ job ∈ jobs, ∀ ref ∈ job.inputs, FromConfig policy ref.crypto
  outputs : ∀ job ∈ jobs, ∀ ref ∈ job.outputs, Resolved policy ref

theorem FromConfig.asksNothing {policy c : Option ArtifactCryptoPolicy} (h : FromConfig policy c)
    (hpolicy : AsksNothing policy) : AsksNothing c := by
  cases h with
  | none => exact asksNothing_none
  | configured => exact hpolicy
  | resolved hotkey => exact (asksNothing_resolve hotkey policy).mpr hpolicy

theorem Resolved.fromConfig {policy : Option ArtifactCryptoPolicy} {ref : ArtifactRef}
    (h : Resolved policy ref) : FromConfig policy ref.crypto := by
  obtain ⟨hotkey, hcrypto⟩ := h
  exact hcrypto ▸ .resolved hotkey

theorem agrees_of_asksNothing {p : Platform β} {policy : Option ArtifactCryptoPolicy}
    {jobs : List JobManifestV3} (h : JobsFrom policy jobs) (hpolicy : AsksNothing policy) :
    Agrees p jobs := by
  refine List.Pairwise.imp_of_mem (R := fun _ _ => True) ?_ (List.pairwise_of_forall fun _ _ => trivial)
  intro producer consumer hproducer hconsumer _ output houtput input hinput _
  exact handsOver_of_asksNothing
    ((h.outputs producer hproducer output houtput).fromConfig.asksNothing hpolicy)
    ((h.inputs consumer hconsumer input hinput).asksNothing hpolicy)

/-- A job reads an output of an earlier job through a reference without a policy. -/
def PlainHandover (jobs : List JobManifestV3) : Prop :=
  ∃ before consumer after, jobs = before ++ consumer :: after ∧
    ∃ producer ∈ before, ∃ output ∈ producer.outputs, ∃ input ∈ consumer.inputs,
      input.uri = output.uri ∧ input.crypto = none

theorem asksNothing_of_plainHandover {p : Platform β} {policy : Option ArtifactCryptoPolicy}
    {jobs : List JobManifestV3} (h : JobsFrom policy jobs) (hplain : PlainHandover jobs)
    (hagrees : Agrees p jobs) : AsksNothing policy := by
  obtain ⟨before, consumer, after, rfl, producer, hproducer, output, houtput, input, hinput, huri,
    hnone⟩ := hplain
  have hpair := List.pairwise_append.mp hagrees
  have hover := hpair.2.2 producer hproducer consumer List.mem_cons_self output houtput input hinput
    huri
  have hmem : producer ∈ before ++ consumer :: after := List.mem_append_left _ hproducer
  obtain ⟨hotkey, hcrypto⟩ := h.outputs producer hmem output houtput
  have hsame := hover.sameCrypto
  rw [hnone, hcrypto] at hsame
  exact (asksNothing_resolve hotkey policy).mp hsame.symm

theorem PlainHandover.append {jobs : List JobManifestV3} (h : PlainHandover jobs)
    (more : List JobManifestV3) : PlainHandover (jobs ++ more) := by
  obtain ⟨before, consumer, after, rfl, hover⟩ := h
  exact ⟨before, consumer, after ++ more, by simp, hover⟩

theorem JobsFrom.snoc {policy : Option ArtifactCryptoPolicy} {jobs : List JobManifestV3}
    {job : JobManifestV3} (h : JobsFrom policy jobs)
    (hinputs : ∀ ref ∈ job.inputs, FromConfig policy ref.crypto)
    (houtputs : ∀ ref ∈ job.outputs, Resolved policy ref) : JobsFrom policy (jobs ++ [job]) := by
  constructor <;> intro j hj
  all_goals
    rcases List.mem_append.mp hj with hj | hj
  · exact h.inputs j hj
  · exact List.mem_singleton.mp hj ▸ hinputs
  · exact h.outputs j hj
  · exact List.mem_singleton.mp hj ▸ houtputs

section Rounds

open RoundEmission

variable {p : Platform β} {cfg : RunConfig β} {task : RoundTask}

structure RoundInvariant (p : Platform β) (cfg : RunConfig β) (jobs : List RoundJob)
    (s : RunState β) : Prop where
  refs : JobsFrom cfg.cryptoPolicy s.jobs
  stored : Stored p cfg s
  ids : s.emitted = jobs.map RoundJob.jobId

variable {s : RunState β} {jobs : List RoundJob}

theorem RoundInvariant.mem_of_load
    (h : RoundInvariant p cfg jobs s) {jobId : String} (hid : jobId ∈ s.emitted)
    {job : JobManifestV3} (hload : loadJob p cfg s.bucket jobId = .ok job) : job ∈ s.jobs := by
  obtain ⟨job₀, hjob₀, rfl⟩ := List.mem_map.mp hid
  obtain ⟨job', hjob', hload'⟩ := h.stored job₀ hjob₀
  cases hload.symm.trans hload'
  exact hjob'

theorem RoundInvariant.id_mem
    (h : RoundInvariant p cfg jobs s) {e : RoundJob} (he : e ∈ jobs) : e.jobId ∈ s.emitted :=
  h.ids ▸ List.mem_map_of_mem he

theorem RoundInvariant.emit (hp : p.Lawful) {s' : RunState β}
    (h : RoundInvariant p cfg jobs s) {worker : WorkerIdentity} {now : ℤ} {e : RoundJob}
    (hready : ∀ d ∈ e.needs, d ∈ jobs) (hemit : emit p cfg task worker now s e = .ok s') :
    RoundInvariant p cfg (jobs ++ [e]) s' := by
  obtain ⟨spec, m, hrefs, hm⟩ := emit_eq_ok hp hemit
  refine ⟨?_, hm.stored h.stored, ?_⟩
  · rw [hm.jobs]
    apply h.refs.snoc
    · rw [hm.inputs]
      intro ref href
      rcases hrefs.inputs ref href with hnone | hconfigured | hcopied
      · exact hnone ▸ .none
      · exact hconfigured ▸ .configured
      · obtain ⟨job, ⟨jobId, hid, hload⟩, output, houtput, hcrypto⟩ := hcopied
        have hemitted : jobId ∈ s.emitted := by
          rcases hid with hid | hid
          · exact hid
          · obtain ⟨d, hd, rfl⟩ := List.mem_map.mp hid
            exact h.id_mem (hready d hd)
        exact hcrypto ▸ (h.refs.outputs job (h.mem_of_load hemitted hload) output houtput).fromConfig
    · rw [hm.outputs]
      intro ref href
      obtain ⟨ref₀, href₀, rfl⟩ := List.mem_map.mp href
      exact ⟨worker.hotkeySs58, by rw [hrefs.outputs ref₀ href₀]⟩
  · rw [RunState.emitted, hm.jobs, List.map_append, List.map_append, ← h.ids]
    simp [RunState.emitted, hm.jobId, hrefs.jobId]

theorem roundInvariant_of_run (hp : p.Lawful)
    (hrun : Run p cfg task jobs s) (hordered : Ordered jobs) : RoundInvariant p cfg jobs s := by
  induction hrun with
  | start b => exact ⟨⟨by simp, by simp⟩, by simp [Stored], rfl⟩
  | @emit jobs s s' e worker now earlier emitted ih =>
    have hbefore := ih (hordered.initial (List.prefix_append jobs [e]))
    exact hbefore.emit hp (hordered jobs e [] rfl) emitted
  | others earlier keeps ih =>
    have hbefore := ih hordered
    exact ⟨hbefore.refs, keeps.stored hbefore.stored, hbefore.ids⟩

theorem plainHandover_of_outer (hp : p.Lawful)
    (hrun : Run p cfg task jobs s) (hordered : Ordered jobs) {step : ℤ} {ub : ℕ}
    (houter : .outer step ub ∈ jobs) : PlainHandover s.jobs := by
  induction hrun with
  | start b => simp at houter
  | @emit jobs s s' e worker now earlier emitted ih =>
    have hordered₀ := hordered.initial (List.prefix_append jobs [e])
    rcases List.mem_append.mp houter with houter | houter
    · obtain ⟨spec, m, -, hm⟩ := emit_eq_ok hp emitted
      exact hm.jobs ▸ (ih hordered₀ houter).append [m]
    · obtain rfl := List.mem_singleton.mp houter
      have hbefore := roundInvariant_of_run hp earlier hordered₀
      obtain ⟨job, m, hload, hjobs, hover⟩ := emitOuter_eq_ok hp emitted
      have hneeds : .reduce step ub ∈ jobs := hordered jobs _ [] rfl _ (by simp [RoundJob.needs])
      have hmem := hbefore.mem_of_load (hbefore.id_mem hneeds) hload
      exact ⟨s.jobs, m, [], hjobs, job, hmem, hover⟩
  | others earlier keeps ih => exact ih hordered houter

end Rounds

section Streams

open StreamEmission

variable {p : Platform β} {cfg : StreamingRunConfig β} {params : StreamingParams}

structure StreamInvariant (cfg : StreamingRunConfig β) (bucket : String) (jobs : List StreamJob)
    (s : StreamState β) : Prop where
  name : s.bucket.name = bucket
  refs : JobsFrom cfg.cryptoPolicy s.log
  held : ∀ job ∈ s.jobs.vals, job ∈ s.log
  written : ∀ e ∈ jobs, ∀ w ∈ e.writesWeights, ∃ job ∈ s.log, ∃ output ∈ job.outputs,
    output.uri = epochWeightsUri cfg bucket w.1 w.2

variable {s : StreamState β} {jobs : List StreamJob}

theorem StreamInvariant.emit {bucket : String} {s' : StreamState β}
    (h : StreamInvariant cfg bucket jobs s) {worker : WorkerIdentity} {now : ℤ} {e : StreamJob}
    (hemit : emit p cfg params worker now s e = .ok s') :
    StreamInvariant cfg bucket (jobs ++ [e]) s' := by
  obtain ⟨spec, m, hrefs, hm⟩ := emit_eq_ok hemit
  refine ⟨hm.name.trans h.name, ?_, ?_, ?_⟩
  · rw [hm.log]
    apply h.refs.snoc
    · rw [hm.inputs]
      intro ref href
      rcases hrefs.inputs ref href with hnone | ⟨job, hjob, output, houtput, hcrypto⟩
      · exact hnone ▸ .none
      · exact hcrypto ▸ (h.refs.outputs job (h.held job hjob) output houtput).fromConfig
    · rw [hm.outputs]
      intro ref href
      obtain ⟨ref₀, href₀, rfl⟩ := List.mem_map.mp href
      exact ⟨worker.hotkeySs58, by rw [hrefs.outputs ref₀ href₀]⟩
  · rw [hm.jobs, hm.log]
    intro job hjob
    rcases KeyedDict.mem_upsert hjob with rfl | hjob
    · simp
    · exact List.mem_append_left _ (h.held job hjob)
  · rw [hm.log]
    intro d hd w hw
    rcases List.mem_append.mp hd with hd | hd
    · obtain ⟨job, hjob, hwritten⟩ := h.written d hd w hw
      exact ⟨job, List.mem_append_left _ hjob, hwritten⟩
    · rw [List.mem_singleton.mp hd] at hw
      obtain ⟨ref, href, huri⟩ := hrefs.writes w hw
      refine ⟨m, by simp, ?_⟩
      rw [hm.outputs]
      exact ⟨_, List.mem_map_of_mem href, huri.trans (by rw [h.name])⟩

theorem streamInvariant_of_run
    (hrun : Run p cfg params jobs s) : StreamInvariant cfg s.bucket.name jobs s := by
  induction hrun with
  | start b => exact ⟨rfl, ⟨by simp, by simp⟩, by simp [KeyedDict.empty], by simp⟩
  | emit e worker now earlier emitted ih =>
    obtain ⟨spec, m, -, hm⟩ := emit_eq_ok emitted
    exact hm.name ▸ ih.emit emitted
  | @others jobs s b earlier name ih =>
    have hsame : StreamInvariant cfg s.bucket.name jobs { s with bucket := b } :=
      ⟨name, ih.refs, ih.held, ih.written⟩
    rw [← name] at hsame
    exact hsame
  | drop earlier test ih =>
    exact ⟨rfl, ih.refs, fun job hjob => ih.held job (List.mem_filter.mp hjob).1, ih.written⟩

theorem epochWeightsUri_congr (bucket : String) {epoch epoch' : ℤ}
    (h : effectiveEpoch cfg epoch = effectiveEpoch cfg epoch') (stageId : ℤ) :
    epochWeightsUri cfg bucket epoch stageId = epochWeightsUri cfg bucket epoch' stageId := by
  unfold effectiveEpoch at h
  simp only [epochWeightsUri, h]

theorem plainHandover_of_rereads
    (hrun : Run p cfg params jobs s) {d e : StreamJob} (hsub : [d, e].Sublist jobs)
    (hrereads : Rereads cfg params d e) : PlainHandover s.log := by
  induction hrun with
  | start b => simp at hsub
  | @emit jobs s s' e' worker now earlier emitted ih =>
    obtain ⟨spec, m, hrefs, hm⟩ := emit_eq_ok emitted
    have hbefore := streamInvariant_of_run earlier
    by_cases hold : [d, e].Sublist jobs
    · exact hm.log ▸ (ih hold).append [m]
    · -- the second of the two jobs is the one just emitted
      have hlast : d ∈ jobs ∧ e = e' := by
        obtain ⟨l₁, l₂, hsplit, hl₁, hl₂⟩ := List.sublist_append_iff.mp hsub
        rcases List.sublist_singleton.mp hl₂ with rfl | rfl
        · rw [List.append_nil] at hsplit
          exact absurd (hsplit ▸ hl₁) hold
        · obtain ⟨rfl, rfl⟩ : l₁ = [d] ∧ e' = e := by
            cases l₁ with
            | nil => simp at hsplit
            | cons x l₁ => cases l₁ <;> simp_all
          exact ⟨List.singleton_sublist.mp hl₁, rfl⟩
      obtain ⟨hd, rfl⟩ := hlast
      obtain ⟨w, hw, r, hr, hepoch, hstage⟩ := hrereads
      obtain ⟨job, hjob, output, houtput, huri⟩ := hbefore.written d hd w hw
      obtain ⟨input, hinput, hread, hnone⟩ := hrefs.reads r hr
      refine ⟨s.log, m, [], hm.log, job, hjob, output, houtput, input, hm.inputs ▸ hinput, ?_, hnone⟩
      rw [hread, huri, hstage]
      exact epochWeightsUri_congr _ hepoch _
  | others earlier name ih => exact ih hsub
  | drop earlier test ih => exact ih hsub

end Streams

open RoundEmission (RoundTask RoundJob) in
open StreamEmission in
/-- In every run of either manager the jobs agree if the configured policy asks for nothing. In a
run that has emitted an outer job, or in which a streaming job reads weights written in the
same run, they agree in no other case. -/
theorem crypto_agreement_iff {p : Platform β} (hp : p.Lawful) :
    (∀ (cfg : RunConfig β) (task : RoundTask) (start : ℤ) (n : ℕ) (jobs : List RoundJob)
      (s : RoundEmission.RunState β), jobs <+: RoundEmission.steps task start n →
      RoundEmission.Run p cfg task jobs s →
      (AsksNothing cfg.cryptoPolicy → Agrees p s.jobs) ∧
      ((∃ step ub, .outer step ub ∈ jobs) →
        (Agrees p s.jobs ↔ AsksNothing cfg.cryptoPolicy))) ∧
    (∀ (cfg : StreamingRunConfig β) (params : StreamingParams) (jobs : List StreamJob)
      (s : StreamState β), StreamEmission.Run p cfg params jobs s →
      (AsksNothing cfg.cryptoPolicy → Agrees p s.log) ∧
      ((∃ d e, [d, e].Sublist jobs ∧ Rereads cfg params d e) →
        (Agrees p s.log ↔ AsksNothing cfg.cryptoPolicy))) := by
  constructor
  · intro cfg task start n jobs s hstart hrun
    have hordered := (RoundEmission.ordered_steps task start n).initial hstart
    have hrefs := (roundInvariant_of_run hp hrun hordered).refs
    refine ⟨agrees_of_asksNothing hrefs, ?_⟩
    rintro ⟨step, ub, houter⟩
    have hplain := plainHandover_of_outer hp hrun hordered houter
    exact ⟨asksNothing_of_plainHandover hrefs hplain, agrees_of_asksNothing hrefs⟩
  · intro cfg params jobs s hrun
    have hrefs := (streamInvariant_of_run hrun).refs
    refine ⟨agrees_of_asksNothing hrefs, ?_⟩
    rintro ⟨d, e, hsub, hrereads⟩
    have hplain := plainHandover_of_rereads hrun hsub hrereads
    exact ⟨asksNothing_of_plainHandover hrefs hplain, agrees_of_asksNothing hrefs⟩

section TwoEpochs

open StreamEmission

def oneStage : PipelineStage where
  stageId := 0
  forwardGraph := { outputs := [] }
  backwardGraph := some { outputs := [] }
  outerGraph := some { outputs := [] }
  weightsInputName := some "W"

def oneStageParams : StreamingParams := { nStages := 1, nMicrobatches := 1, training := true }

def twoEpochs : List StreamJob :=
  emitEpoch [oneStage] oneStageParams 0 ++ emitEpoch [oneStage] oneStageParams 1

def twoEpochsConfig (policy : Option ArtifactCryptoPolicy) : StreamingRunConfig Json :=
  { netuid := 0, runId := "r", cryptoPolicy := policy }

def twoEpochsEnd (policy : Option ArtifactCryptoPolicy) : Py (StreamState Json) :=
  emitAll plainPlatform (twoEpochsConfig policy) oneStageParams
    { hotkeySs58 := "A", workerId := "w", hostId := "host", gpuIndex := none,
      sessionNonce := "nonce" }
    0 twoEpochs { bucket := ⟨"b", .empty⟩ }

theorem twoEpochs_run (policy : Option ArtifactCryptoPolicy)
    (h : (twoEpochsEnd policy).toOption.isSome = true) :
    ∃ s, StreamEmission.Run plainPlatform (twoEpochsConfig policy) oneStageParams twoEpochs s := by
  obtain ⟨s, hs⟩ := Option.isSome_iff_exists.mp h
  have hend : twoEpochsEnd policy = .ok s := toOption_eq_some.mp hs
  unfold twoEpochsEnd at hend
  exact ⟨s, List.nil_append twoEpochs ▸ run_of_emitAll (.start _) hend⟩

theorem twoEpochs_reread (policy : Option ArtifactCryptoPolicy) :
    ∃ d e, [d, e].Sublist twoEpochs ∧ Rereads (twoEpochsConfig policy) oneStageParams d e :=
  epochs_reread rfl (List.mem_singleton_self _) rfl (twoEpochsConfig policy) 0

def signedByWorker : ArtifactCryptoPolicy :=
  { mode := "signed", requiredSigner := some "assigned_hotkey" }

theorem signed_weights_read_without_policy :
    ∃ s, StreamEmission.Run plainPlatform (twoEpochsConfig (some signedByWorker)) oneStageParams
      twoEpochs s ∧ ¬ Agrees plainPlatform s.log := by
  obtain ⟨s, hrun⟩ := twoEpochs_run (some signedByWorker) (by decide +kernel)
  obtain ⟨d, e, hsub, hrereads⟩ := twoEpochs_reread (some signedByWorker)
  refine ⟨s, hrun, fun hagrees => ?_⟩
  have hrefs := (streamInvariant_of_run hrun).refs
  have hplain := plainHandover_of_rereads hrun hsub hrereads
  have hmode := (asksNothing_of_plainHandover hrefs hplain hagrees).mode
  exact absurd hmode (by decide)

theorem plain_epochs_agree :
    ∃ s, StreamEmission.Run plainPlatform (twoEpochsConfig none) oneStageParams twoEpochs s ∧
      Agrees plainPlatform s.log := by
  obtain ⟨s, hrun⟩ := twoEpochs_run none (by decide +kernel)
  exact ⟨s, hrun, ((crypto_agreement_iff plainPlatform_lawful).2 _ _ _ _ hrun).1 asksNothing_none⟩

end TwoEpochs

end CryptoAgreement

import Teuton.CorruptOutputs
import Teuton.EnvelopeRoundTrip
import Teuton.ExecutionSteps
import Teuton.PassedDigests

/-! Honest work and its audit. The executor and the audit are two pipelines over the same
objects. A job that was executed honestly passes the audit exactly if the audit accepts the
envelope signatures of its outputs, and if inputs of the same name have the same bytes. -/
namespace HonestWork

open PyJson PyText Signatures ObjectStore GraphIr Protocol ArtifactCrypto GraphEval TensorIo
open AuditReplay AssignmentGrants JobExecution ExecutionSteps EnvelopeRoundTrip PassedReceipts
open PassedDigests

variable {β τ : Type}

section Inputs

variable {W : WorkerLibraries β τ} {cfg : ExecutorConfig}
variable {grants : String → Option PresignedUrlGrant} {b : Bucket β} {refs : List ArtifactRef}

def opened (W : WorkerLibraries β τ) (cfg : ExecutorConfig) (s : String → Py β)
    (ref : ArtifactRef) : Py τ :=
  s ref.uri >>= fun body => openInput W cfg body ref

/-- Inputs that may be taken from the cache for one another are opened under the same policy. -/
def SharedPolicies (refs : List ArtifactRef) : Prop :=
  ∀ r₁ ∈ refs, ∀ r₂ ∈ refs, r₁.uri = r₂.uri → isInputCacheable r₁.uri = true →
    defaultPolicy r₁.crypto = defaultPolicy r₂.crypto

theorem openInput_congr {r₁ r₂ : ArtifactRef}
    (h : defaultPolicy r₁.crypto = defaultPolicy r₂.crypto) (body : β) :
    openInput W cfg body r₁ = openInput W cfg body r₂ := by
  unfold openInput decodeEnvelope
  rw [h]

/-- The executor has not written anything, and what it has cached are inputs of the job. -/
structure Reading (W : WorkerLibraries β τ) (cfg : ExecutorConfig) (b : Bucket β)
    (refs : List ArtifactRef) (e : JobExecutor (Bucket β) τ) : Prop where
  store : e.store = b
  outputs : ∀ uri, e.outputCache.find? uri = none
  inputs : ∀ uri t, e.inputCache.find? uri = some t → ∀ ref ∈ refs, ref.uri = uri →
    opened W cfg b.get ref = .ok t

theorem reading_decodeInput (hshared : SharedPolicies refs) {ref : ArtifactRef} (href : ref ∈ refs)
    {value : τ} {e e' : JobExecutor (Bucket β) τ} (he : Reading W cfg b refs e)
    (h : decodeInput W directStores cfg grants ref e = .ok value e') :
    opened W cfg b.get ref = .ok value ∧ Reading W cfg b refs e' := by
  rcases decodeInput_ok h with ⟨hcached, rfl⟩ | ⟨-, hload⟩
  · rw [he.outputs, Option.none_or] at hcached
    exact ⟨he.inputs _ _ hcached ref href rfl, he⟩
  obtain ⟨body, _, hget, hopen, hcache⟩ := loadInput_ok hload
  obtain ⟨hbody, rfl⟩ := directGet_ok hget
  rw [he.store] at hbody
  have hopened : opened W cfg b.get ref = .ok value := bind_eq_ok.mpr ⟨body, hbody, hopen⟩
  refine ⟨hopened, ?_⟩
  rcases hcache with ⟨hcacheable, hcache⟩ | ⟨-, rfl⟩
  · obtain ⟨c, hc, rfl⟩ := cacheInput_ok hcache
    refine ⟨he.store, he.outputs, ?_⟩
    intro uri t ht r hr huri
    rcases TensorCache.find?_of_cacheTensor hc ht with ⟨hsame, rfl⟩ | hold
    · have hpolicy := hshared ref href r hr (hsame.trans huri.symm) hcacheable
      rw [← hopened, opened, opened, huri, hsame]
      refine bind_congr fun body => ?_
      exact (openInput_congr hpolicy body).symm
    · exact he.inputs uri t hold r hr huri
  · exact he

def bindInputs (refs : List ArtifactRef) (values : List τ) : SortedDict String τ :=
  .ofEntries ((refs.map ArtifactRef.name).zip values)

theorem decodeInputs_fresh (hshared : SharedPolicies refs) {inputs : SortedDict String τ}
    {e e' : JobExecutor (Bucket β) τ} (he : Reading W cfg b refs e)
    (hempty : ∀ uri, e.inputCache.find? uri = none)
    (h : decodeInputs W directStores cfg grants refs e = .ok inputs e') :
    ∃ values, refs.mapM (opened W cfg b.get) = .ok values ∧ inputs = bindInputs refs values ∧
      e'.store = b := by
  unfold decodeInputs at h
  obtain ⟨_, _, hget, h⟩ := Effects.bind_eq_ok.mp h
  obtain ⟨rfl, rfl⟩ := Effects.get_eq_ok.mp hget
  have hnone : refs.partition (fun ref => isCached e ref.uri) = ([], refs) := by
    have hfalse : (fun ref : ArtifactRef => isCached e ref.uri) = fun _ => false := by
      funext ref
      simp [isCached, hempty, he.outputs]
    rw [hfalse, List.partition_eq_filter_filter]
    simp
  rw [hnone] at h
  obtain ⟨values, e₁, hvalues, h⟩ := Effects.bind_eq_ok.mp h
  cases h
  obtain ⟨hopened, hreading⟩ := Effects.mapM_spec hvalues he
    fun ref href value u v hu hstep => reading_decodeInput hshared href hu hstep
  exact ⟨values, hopened, rfl, hreading.store⟩

end Inputs

section Execution

variable {W : WorkerLibraries β τ} {cfg : ExecutorConfig} {miner : Miner β}
variable {times : ExecutionTimes} {manifest : JobManifestV3} {receipt : JobReceiptV3}
variable {grants : String → Option PresignedUrlGrant} {b : Bucket β}

def Computes (W : WorkerLibraries β τ) (cfg : ExecutorConfig) (s : String → Py β)
    (manifest : JobManifestV3) (outputs : SortedDict String τ) : Prop :=
  ∃ graph values, s manifest.graphRef.uri >>= readGraph W manifest.graphRef.sha256 = .ok graph ∧
    manifest.inputs.mapM (opened W cfg s) = .ok values ∧
    (evaluate W.torch graph (bindInputs manifest.inputs values) manifest.params).run s =
      .ok outputs

theorem execute_fresh (hshared : SharedPolicies manifest.inputs)
    (hfault : miner.faultMode = "" ∨ miner.faultMode = "none")
    {e' : JobExecutor (Bucket β) τ}
    (h : execute W directStores cfg grants miner times manifest { store := b } =
      .ok receipt e') :
    ∃ outputs sealed digests, Computes W cfg b.get manifest outputs ∧
      manifest.outputs.mapM (sealOutput W cfg (miner.artifactSigner W) outputs) = .ok sealed ∧
      (∀ uri, e'.store.get uri = uploaded b sealed uri) ∧
      manifest.inputs.mapM (digested W e'.store) = .ok digests ∧
      receipt = (receiptOf W miner times manifest digests (sealed.map SealedOutput.digest)).sign
        W.platform (.signer (miner.artifactSigner W)) := by
  obtain ⟨graph, e₁, inputs, e₂, computed, sealed, e₃, e₄, digests, hgraph, hinputs, heval,
    hsealed, hput, hcache, hdigests, hreceipt⟩ := execute_ok h
  rcases fetchGraph_ok hgraph with ⟨hcached, -⟩ | ⟨-, hread, rfl⟩
  · cases hcached
  have hreading : Reading W cfg b manifest.inputs
      ({ store := b, graphs := KeyedDict.empty.set (manifest.graphRef.sha256, graph) } :
        JobExecutor (Bucket β) τ) :=
    { store := rfl
      outputs := fun _ => rfl
      inputs := fun _ _ hnone => by cases hnone }
  obtain ⟨values, hvalues, rfl, hstore⟩ := decodeInputs_fresh hshared hreading (fun _ => rfl)
    hinputs
  have hnofault : applyFaults W manifest computed miner.worker.workerId miner.faultMode
      miner.faultRate = computed := by
    simp [applyFaults, hfault]
  rw [hnofault] at hsealed
  obtain ⟨-, hget⟩ := putOutputs_ok hput
  have hkept := cacheOutputs_ok hcache
  obtain ⟨hdigested, rfl⟩ := digestInputs_ok hdigests
  have hsame : e'.store = e₃.store := by rw [hkept]
  have heval' : (evaluate W.torch graph (bindInputs manifest.inputs values) manifest.params).run
      b.get = .ok computed := by
    rw [← heval, hstore]
    rfl
  refine ⟨computed, sealed, digests, ⟨graph, values, hread, hvalues, heval'⟩, hsealed, ?_,
    hdigested, hreceipt⟩
  intro uri
  rw [hsame, hget, hstore]

theorem sealOutput_ok {signer : Signer β} {outputs : SortedDict String τ} {ref : ArtifactRef}
    {sealed : SealedOutput β} (h : sealOutput W cfg signer outputs ref = .ok sealed) :
    ∃ value plain, outputs.find? ref.name = some value ∧
      encodeOutput W value (endsWith ref.uri ".json") = .ok plain ∧
      encodeEnvelope W.platform W.timelock (some signer) cfg.encryptionSecret plain ref.crypto =
        .ok sealed.body ∧
      digestBody W.platform ref.name ref.uri sealed.body ref.crypto = .ok sealed.digest ∧
      sealed.uri = ref.uri := by
  unfold sealOutput at h
  cases hvalue : outputs.find? ref.name with
  | none =>
    rw [hvalue] at h
    cases h
  | some value =>
    rw [hvalue] at h
    obtain ⟨plain, hplain, h⟩ := bind_eq_ok.mp h
    obtain ⟨body, hbody, h⟩ := bind_eq_ok.mp h
    obtain ⟨digest, hdigest, h⟩ := bind_eq_ok.mp h
    cases h
    exact ⟨value, plain, rfl, hplain, hbody, hdigest, rfl⟩

theorem digestBody_ok {p : Platform β} {name uri : String} {body : β}
    {policy : Option ArtifactCryptoPolicy} {d : ArtifactDigest}
    (h : digestBody p name uri body policy = .ok d) :
    d.name = name ∧ d.uri = uri ∧ d.sharded = none ∧
      ∀ sha, digestMatches d sha = true ↔ sha256Hex p body = sha := by
  simp only [digestBody] at h
  split_ifs at h with hmode
  · cases h
    exact ⟨rfl, rfl, rfl, fun sha => by simp [digestMatches]⟩
  · simp only [bind_eq_ok, pure_eq_ok] at h
    obtain ⟨-, -, -, -, -, -, -, -, -, -, -, -, rfl⟩ := h
    exact ⟨rfl, rfl, rfl, fun sha => by simp [digestMatches]⟩

end Execution

section Audit

variable {W : WorkerLibraries β τ} {cfg : ExecutorConfig} {audit : AuditReplayConfig}
variable {s : String → Py β} {digests : List ArtifactDigest} {manifest : JobManifestV3}
variable {receipt : JobReceiptV3}

def SameSecret (cfg : ExecutorConfig) (audit : AuditReplayConfig) : Prop :=
  audit.encryptionSecret = cfg.encryptionSecret

theorem opened_eq_ok {ref : ArtifactRef} {t : τ} (hsecret : SameSecret cfg audit) :
    opened W cfg s ref = .ok t ↔ ∃ body plain, s ref.uri = .ok body ∧
      openArtifact W.toLibraries audit body ref = .ok plain ∧ W.torch.decodeTensor plain = .ok t := by
  unfold SameSecret at hsecret
  simp only [opened, openInput, openArtifact, bind_eq_ok, hsecret]
  constructor
  · rintro ⟨body, hbody, plain, hplain, ht⟩
    exact ⟨body, plain, hbody, hplain, ht⟩
  · rintro ⟨body, plain, hbody, hplain, ht⟩
    exact ⟨body, hbody, plain, hplain, ht⟩

theorem loadInput_yields (hsecret : SameSecret cfg audit) (hplain : ∀ d ∈ digests, d.sharded = none)
    {ref : ArtifactRef} (hagrees : InputAgrees W.toLibraries s digests ref) {t : τ}
    (hopened : opened W cfg s ref = .ok t) (c : Comparison) :
    ∃ c', Yields s (AuditReplay.loadInput W.toLibraries audit digests ref) c t c' := by
  obtain ⟨body, hbody, hmatches⟩ := hagrees
  obtain ⟨body', plain, hbody', hopen, ht⟩ := (opened_eq_ok hsecret).mp hopened
  rw [hbody] at hbody'
  cases hbody'
  have hall : (digestNamed digests ref.name).all
      (digestMatches · (sha256Hex W.platform body)) = true := by
    cases hnamed : digestNamed digests ref.name with
    | none => rfl
    | some d => exact hmatches d hnamed
  have hunsharded : ((digestNamed digests ref.name).bind ArtifactDigest.sharded).isSome = false := by
    cases hnamed : digestNamed digests ref.name with
    | none => rfl
    | some d => simp [hplain d (digestNamed_eq_some hnamed).1]
  have hask : (ReadProgram.ask ref.uri : Fetch β β).run s = .ok body := hbody
  have hnote : Yields s (extend (Comparison.noteInput · ref.name (inputEntry
      (digestNamed digests ref.name) (sha256Hex W.platform body)
      (W.platform.toBytes body).length ref))) c () (c.noteInput ref.name (inputEntry
      (digestNamed digests ref.name) (sha256Hex W.platform body)
      (W.platform.toBytes body).length ref)) := rfl
  refine ⟨c.noteInput ref.name (inputEntry (digestNamed digests ref.name)
    (sha256Hex W.platform body) (W.platform.toBytes body).length ref), ?_⟩
  unfold AuditReplay.loadInput
  rw [Yields, (yields_lift hask c).bind_run, hnote.bind_run]
  simp only [hall, hunsharded, Bool.false_eq_true, if_true, if_false]
  rw [(yields_done hopen _).bind_run]
  exact yields_done ht _

theorem loadInputs_yields (hsecret : SameSecret cfg audit) (hplain : ∀ d ∈ digests, d.sharded = none)
    {refs : List ArtifactRef} (hagree : ∀ ref ∈ refs, InputAgrees W.toLibraries s digests ref)
    {values : List τ} (hopened : refs.mapM (opened W cfg s) = .ok values)
    (inputs : SortedDict String τ) (c : Comparison) :
    ∃ c', Yields s (AuditReplay.loadInputs W.toLibraries audit digests refs inputs) c
      (((refs.map ArtifactRef.name).zip values).foldl (fun d p => d.insert p.1 p.2) inputs) c' := by
  induction refs generalizing values inputs c with
  | nil => exact ⟨c, rfl⟩
  | cons ref refs ih =>
    rw [List.mapM_cons] at hopened
    obtain ⟨t, ht, hrest⟩ := bind_eq_ok.mp hopened
    obtain ⟨ts, hts, hvalues⟩ := bind_eq_ok.mp hrest
    cases hvalues
    obtain ⟨c₁, hfirst⟩ := loadInput_yields hsecret hplain (hagree ref List.mem_cons_self) ht c
    obtain ⟨c₂, hloaded⟩ := ih (fun r hr => hagree r (List.mem_cons_of_mem _ hr)) hts
      (inputs.insert ref.name t) c₁
    refine ⟨c₂, ?_⟩
    rw [AuditReplay.loadInputs, Yields, hfirst.bind_run]
    exact hloaded

theorem compareOutputs_yields {L : Libraries β τ} {outputs : SortedDict String τ}
    {refs : List ArtifactRef}
    (h : ∀ ref ∈ refs, OutputMatches L audit s outputs manifest receipt ref) (c : Comparison) :
    ∃ c', Yields s (compareOutputs L audit outputs manifest receipt refs) c [] c' := by
  induction refs generalizing c with
  | nil => exact ⟨c, rfl⟩
  | cons ref refs ih =>
    obtain ⟨cmp, hcmp, hok⟩ := h ref List.mem_cons_self
    obtain ⟨c₁, hrest⟩ := ih (fun r hr => h r (List.mem_cons_of_mem _ hr))
      (c.noteOutput ref.name (.obj cmp.entry))
    refine ⟨c₁, ?_⟩
    rw [compareOutputs, Yields, (yields_lift hcmp c).bind_run]
    change ((compareOutputs L audit outputs manifest receipt refs >>= _ : Audit β (List String))
      (c.noteOutput ref.name (.obj cmp.entry))).run s = _
    rw [hrest.bind_run, if_pos hok]
    rfl

theorem run_passes {L : Libraries β τ} {outputs : SortedDict String τ} {receiptUri : String}
    (auditTimes : Times) (auditorHotkey : String)
    (howner : verifyManifestSignature L.platform audit manifest = .ok true)
    (hminer : verifyReceiptSignature L.platform audit receipt = .ok true)
    (hhash : manifest.manifestHash L.platform = receipt.manifestHash)
    (hreplay : CorruptOutputs.ReplaysTo L audit s manifest receipt receiptUri outputs)
    (hmatch : ∀ ref ∈ manifest.outputs, OutputMatches L audit s outputs manifest receipt ref) :
    ∃ res, (run L audit auditTimes receiptUri manifest receipt auditorHotkey).run s = .ok res ∧
      res.status = "pass" := by
  obtain ⟨c, hcheck⟩ := CorruptOutputs.checkReceipt_run auditTimes howner hminer hhash hreplay
  obtain ⟨c', hcompare⟩ := compareOutputs_yields hmatch c
  rw [hcompare.bind_run] at hcheck
  obtain ⟨res, hrun, hstatus⟩ := CorruptOutputs.run_status auditorHotkey hcheck
  exact ⟨res, hrun, hstatus⟩

end Audit

section Objects

variable {W : WorkerLibraries β τ} {cfg : ExecutorConfig} {audit : AuditReplayConfig}
variable {signer : Signer β} {manifest : JobManifestV3} {receipt : JobReceiptV3}
variable {outputs : SortedDict String τ} {sealed : List (SealedOutput β)}
variable {digests : List ArtifactDigest} {b b' : Bucket β}

/-- Outputs do not overwrite each other, the graph or a constant of the graph, and inputs that
share a cached object share its policy. -/
structure Layout (W : WorkerLibraries β τ) (s : String → Py β) (manifest : JobManifestV3) :
    Prop where
  outputs : ∀ r₁ ∈ manifest.outputs, ∀ r₂ ∈ manifest.outputs, r₁.uri = r₂.uri →
    r₁.name = r₂.name ∧ r₁.crypto = r₂.crypto
  graph : ∀ ref ∈ manifest.outputs, ref.uri ≠ manifest.graphRef.uri
  blobs : ∀ graph, s manifest.graphRef.uri >>= readGraph W manifest.graphRef.sha256 = .ok graph →
    ∀ ref ∈ manifest.outputs, ref.uri ∉ graphBlobUris graph
  inputs : SharedPolicies manifest.inputs

theorem get_of_not_output
    (hsealed : manifest.outputs.mapM (sealOutput W cfg signer outputs) = .ok sealed)
    (hget : ∀ uri, b'.get uri = uploaded b sealed uri) {uri : String}
    (huri : ∀ ref ∈ manifest.outputs, ref.uri ≠ uri) : b'.get uri = b.get uri := by
  rw [hget, uploaded]
  cases hlatest : KeyedDict.latest SealedOutput.uri uri sealed with
  | none => rfl
  | some output =>
    obtain ⟨hmem, hsame⟩ := KeyedDict.mem_of_latest hlatest
    obtain ⟨ref, href, hseal⟩ := exists_item_of_mapM hsealed hmem
    obtain ⟨-, -, -, -, -, -, houtput⟩ := sealOutput_ok hseal
    exact absurd (houtput.symm.trans hsame) (huri ref href)

variable {ref : ArtifactRef} {L : Libraries β τ} {s : String → Py β}

theorem get_of_output (hlayout : ∀ r₁ ∈ manifest.outputs, ∀ r₂ ∈ manifest.outputs,
      r₁.uri = r₂.uri → r₁.name = r₂.name ∧ r₁.crypto = r₂.crypto)
    (hsealed : manifest.outputs.mapM (sealOutput W cfg signer outputs) = .ok sealed)
    (hget : ∀ uri, b'.get uri = uploaded b sealed uri)
    (href : ref ∈ manifest.outputs) :
    ∃ output, sealOutput W cfg signer outputs ref = .ok output ∧
      b'.get ref.uri = .ok output.body := by
  obtain ⟨output, hmem, hseal⟩ := exists_result_of_mapM hsealed href
  obtain ⟨-, -, -, -, -, -, huri⟩ := sealOutput_ok hseal
  refine ⟨output, hseal, ?_⟩
  rw [hget, uploaded]
  cases hlatest : KeyedDict.latest SealedOutput.uri ref.uri sealed with
  | none =>
    have hnone := List.find?_eq_none.mp hlatest output (List.mem_reverse.mpr hmem)
    simp [huri] at hnone
  | some last =>
    obtain ⟨hlast, hsame⟩ := KeyedDict.mem_of_latest hlatest
    obtain ⟨r, hr, hsealr⟩ := exists_item_of_mapM hsealed hlast
    obtain ⟨value₁, plain₁, hvalue₁, hplain₁, hbody₁, -, huri₁⟩ := sealOutput_ok hsealr
    obtain ⟨value₂, plain₂, hvalue₂, hplain₂, hbody₂, -, -⟩ := sealOutput_ok hseal
    have hruri : r.uri = ref.uri := huri₁.symm.trans hsame
    obtain ⟨hname, hcrypto⟩ := hlayout r hr ref href hruri
    rw [hname, hvalue₂] at hvalue₁
    cases hvalue₁
    rw [hruri, hplain₂] at hplain₁
    cases hplain₁
    rw [hcrypto, hbody₂] at hbody₁
    exact hbody₁.symm

def NamesAgree (W : WorkerLibraries β τ) (s : String → Py β) (manifest : JobManifestV3) : Prop :=
  ∀ r₁ ∈ manifest.inputs, ∀ r₂ ∈ manifest.inputs, r₁.name = r₂.name → ∀ x y,
    s r₁.uri = .ok x → s r₂.uri = .ok y → sha256Hex W.platform x = sha256Hex W.platform y

theorem digested_ok {d : ArtifactDigest} (h : digested W b ref = .ok d) :
    ∃ body, b.get ref.uri = .ok body ∧ d.name = ref.name ∧ d.sharded = none ∧
      ∀ sha, digestMatches d sha = true ↔ sha256Hex W.platform body = sha := by
  obtain ⟨body, hbody, hdigest⟩ := bind_eq_ok.mp h
  obtain ⟨hname, -, hsharded, hmatches⟩ := digestBody_ok hdigest
  exact ⟨body, hbody, hname, hsharded, hmatches⟩

theorem inputsAgree_iff (hdigests : manifest.inputs.mapM (digested W b) = .ok digests) :
    (∀ ref ∈ manifest.inputs, InputAgrees W.toLibraries b.get digests ref) ↔
      NamesAgree W b.get manifest := by
  constructor
  · intro hagree r₁ hr₁ r₂ hr₂ hname x y hx hy
    obtain ⟨d₁, hd₁, hdigest₁⟩ := exists_result_of_mapM hdigests hr₁
    obtain ⟨-, -, hname₁, -, -⟩ := digested_ok hdigest₁
    obtain ⟨x', hx', hmatch₁⟩ := hagree r₁ hr₁
    obtain ⟨y', hy', hmatch₂⟩ := hagree r₂ hr₂
    rw [hx] at hx'
    cases hx'
    rw [hy] at hy'
    cases hy'
    cases hnamed : digestNamed digests r₁.name with
    | none => exact absurd hname₁ (digestNamed_eq_none hnamed d₁ hd₁)
    | some d =>
      obtain ⟨hmem, -⟩ := digestNamed_eq_some hnamed
      obtain ⟨r, -, hdigest⟩ := exists_item_of_mapM hdigests hmem
      obtain ⟨body, -, -, -, hmatches⟩ := digested_ok hdigest
      have hsha₁ := (hmatches _).mp (hmatch₁ d hnamed)
      have hsha₂ := (hmatches _).mp (hmatch₂ d (hname ▸ hnamed))
      exact hsha₁.symm.trans hsha₂
  · intro hagree ref href
    obtain ⟨d₀, -, hdigest₀⟩ := exists_result_of_mapM hdigests href
    obtain ⟨body, hbody, -, -, -⟩ := digested_ok hdigest₀
    refine ⟨body, hbody, fun d hnamed => ?_⟩
    obtain ⟨hmem, hdname⟩ := digestNamed_eq_some hnamed
    obtain ⟨r, hr, hdigest⟩ := exists_item_of_mapM hdigests hmem
    obtain ⟨body', hbody', hrname, -, hmatches⟩ := digested_ok hdigest
    exact (hmatches _).mpr (hagree r hr ref href (hrname.symm.trans hdname) _ _ hbody' hbody)

theorem fetchGraph_of_readGraph {sha uri : String} {graph : Graph}
    (h : s uri >>= readGraph W sha = .ok graph) (mismatch : String) :
    (GraphIr.fetchGraph W.platform sha uri mismatch).run s = .ok graph := by
  obtain ⟨body, hbody, hread⟩ := bind_eq_ok.mp h
  simp only [readGraph, bind_eq_ok, guard_eq_ok, pure_eq_ok, ne_eq, not_not] at hread
  obtain ⟨j, hj, g, hg, hsha, rfl⟩ := hread
  simp [GraphIr.fetchGraph, fetchJson, hbody, hj, hg, hsha]

theorem computes_after (hlayout : Layout W b.get manifest)
    (hdisjoint : ∀ out ∈ manifest.outputs, ∀ ref ∈ manifest.inputs, out.uri ≠ ref.uri)
    (hkept : ∀ uri, (∀ ref ∈ manifest.outputs, ref.uri ≠ uri) → b'.get uri = b.get uri)
    (h : Computes W cfg b.get manifest outputs) : Computes W cfg b'.get manifest outputs := by
  obtain ⟨graph, values, hgraph, hvalues, heval⟩ := h
  refine ⟨graph, values, ?_, ?_, ?_⟩
  · rw [hkept _ hlayout.graph]
    exact hgraph
  · rw [← hvalues]
    refine mapM_congr fun ref href => ?_
    rw [opened, opened, hkept _ fun out hout => hdisjoint out hout ref href]
  · rw [← heval]
    refine (evaluate_readsOnly W.torch _ manifest.params graph).run_congr fun uri huri => ?_
    refine hkept uri fun ref href heq => hlayout.blobs graph hgraph ref href ?_
    rw [heq]
    exact huri

/-- The signature of the miner under every envelope of an output is one that the audit accepts. -/
def EnvelopesAccepted (W : WorkerLibraries β τ) (cfg : ExecutorConfig) (signer : Signer β)
    (s : String → Py β) (manifest : JobManifestV3) : Prop :=
  ∀ outputs, Computes W cfg s manifest outputs → ∀ ref ∈ manifest.outputs,
    ∀ value plain payload, outputs.find? ref.name = some value →
      encodeTensor W.platform W.torch W.buffers value = .ok plain →
      (defaultPolicy ref.crypto).mode ≠ CryptoMode.none.value →
      payloadOf W.platform W.timelock signer cfg.encryptionSecret (defaultPolicy ref.crypto)
        plain = .ok payload →
      SignatureAccepted signer (identityVerify W.platform) payload

theorem openArtifact_of_observed {digest : Option ArtifactDigest} {body : β} {t : τ}
    (hplain : (digest.bind ArtifactDigest.sharded).isSome = false) (hbody : s ref.uri = .ok body)
    (h : (observedOutput L audit ref digest).run s = .ok t) :
    ∃ plain, openArtifact L audit body ref = .ok plain := by
  simp only [observedOutput, hplain, Bool.false_eq_true, if_false, ReadProgram.run_bind,
    ReadProgram.run_ask, ReadProgram.run_lift, hbody, ok_bind] at h
  obtain ⟨plain, hopen, -⟩ := bind_eq_ok.mp h
  exact ⟨plain, hopen⟩

theorem observed_of_opened {digest : Option ArtifactDigest} {body plain : β} {t : τ}
    (hplain : (digest.bind ArtifactDigest.sharded).isSome = false)
    (hjson : endsWith ref.uri ".json" = false) (hbody : s ref.uri = .ok body)
    (hopen : openArtifact L audit body ref = .ok plain)
    (ht : L.torch.decodeTensor plain = .ok t) :
    (observedOutput L audit ref digest).run s = .ok t := by
  simp [observedOutput, hplain, hjson, hbody, hopen, ht]

def SelfEqual (L : Libraries β τ) (policy : VerificationPolicy) : Prop :=
  ∀ t, ∃ details, compareTensors L policy t t = .ok (true, details)

theorem compareTensors_self (policy : VerificationPolicy) (t : τ)
    (hequal : ∀ u, L.torch.equal u u = .ok true)
    (hclose : ∀ u rtol atol, L.torch.allclose u u rtol atol = .ok true)
    (hdiff : ∀ u, ∃ x, L.torch.maxAbsDiff u u = .ok x)
    (hselect : ∀ u idx, ∃ v, L.torch.indexSelect u idx = .ok v) :
    ∃ details, compareTensors L policy t t = .ok (true, details) := by
  -- both sides are the same tensor, whole or sampled
  have hcompared (u : τ) (comparator : String) (total : ℕ) : ∃ details, (do
      if comparator = "exact" then
        let ok ← L.torch.equal u u
        let maxAbs ← if ok then pure (.finite 0) else L.torch.maxAbsDiff u u
        return (ok, comparator, maxAbs, L.torch.numel u, total)
      else
        let ok ← L.torch.allclose u u policy.rtol policy.atol
        let maxAbs ← if L.torch.numel u = 0 then pure (.finite 0) else L.torch.maxAbsDiff u u
        return (ok, comparator, maxAbs, L.torch.numel u, total) :
      Py (Bool × String × PyFloat × ℕ × ℕ)) = .ok (true, details) := by
    obtain ⟨x, hx⟩ := hdiff u
    simp only [hequal, hclose, hx, ok_bind, if_true]
    split_ifs
    · exact ⟨_, rfl⟩
    · exact ⟨_, rfl⟩
    · exact ⟨_, rfl⟩
  simp only [compareTensors]
  by_cases hsampled : 0 < policy.maxSampleElements ∧
      policy.maxSampleElements < L.torch.numel (L.torch.flatten t)
  · obtain ⟨v, hv⟩ := hselect (L.torch.flatten t) (L.torch.sampleIndices policy.sampleSeed
      (L.torch.numel (L.torch.flatten t)) policy.maxSampleElements.toNat)
    simp only [hsampled, and_self, if_true, hv, ok_bind]
    exact hcompared v _ _
  · simp only [hsampled, if_false]
    exact hcompared _ _ _

theorem outputMatches_of_observed {value : τ} (hself : SelfEqual L manifest.verificationPolicy)
    (hvalue : outputs.find? ref.name = some value)
    (hobserved : (observedOutput L audit ref (receipt.outputDigests.find? fun d =>
      d.name = ref.name ∧ d.uri = ref.uri)).run s = .ok value) :
    OutputMatches L audit s outputs manifest receipt ref := by
  obtain ⟨details, hdetails⟩ := hself value
  unfold OutputMatches compareOutput
  rw [hvalue]
  simp only [ReadProgram.run_bind, hobserved, ok_bind, ne_eq, not_true, if_false,
    ReadProgram.run_lift, hdetails]
  exact ⟨_, rfl, rfl⟩

end Objects

/-- What is documented of the libraries, and what the deployment provides: the rounds of timelocked
artifacts are out, tensors compare equal to themselves, and the audit has the encryption secret
of the executor. -/
structure Deployment (W : WorkerLibraries β τ) (cfg : ExecutorConfig) (audit : AuditReplayConfig)
    (policy : VerificationPolicy) : Prop where
  lawful : W.platform.Lawful
  bytes : W.platform.Bytes
  buffers : W.buffers.Lawful W.torch
  decode : W.torch.decodeTensor = decodeTensor W.platform W.buffers
  revealed : Revealed W.timelock
  selfEqual : SelfEqual W.toLibraries policy
  secret : SameSecret cfg audit

section Outputs

variable {W : WorkerLibraries β τ} {cfg : ExecutorConfig} {audit : AuditReplayConfig}
variable {signer : Signer β} {manifest : JobManifestV3} {receipt : JobReceiptV3}
variable {outputs : SortedDict String τ} {s : String → Py β}

theorem openArtifact_sealed_iff (hD : Deployment W cfg audit manifest.verificationPolicy)
    {ref : ArtifactRef} (hrequired : strOr (defaultPolicy ref.crypto).requiredSigner "" = "" ∨
      strOr (defaultPolicy ref.crypto).requiredSigner "" = signer.identity) {plain body : β}
    (hsealed : encodeEnvelope W.platform W.timelock (some signer) cfg.encryptionSecret plain
      ref.crypto = .ok body) (x : β) :
    openArtifact W.toLibraries audit body ref = .ok x ↔
      x = plain ∧ ((defaultPolicy ref.crypto).mode ≠ CryptoMode.none.value → ∀ payload,
        payloadOf W.platform W.timelock signer cfg.encryptionSecret (defaultPolicy ref.crypto)
          plain = .ok payload → SignatureAccepted signer (identityVerify W.platform) payload) := by
  rw [openArtifact, hD.secret]
  exact decodeEnvelope_encodeEnvelope_iff hD.lawful hD.bytes hD.revealed hsealed hrequired
    (identityVerify W.platform) x

theorem unsharded_find (hunsharded : ∀ d ∈ receipt.outputDigests, d.sharded = none)
    (ref : ArtifactRef) : ((receipt.outputDigests.find? fun d =>
      d.name = ref.name ∧ d.uri = ref.uri).bind ArtifactDigest.sharded).isSome = false := by
  cases hfind : receipt.outputDigests.find? fun d => d.name = ref.name ∧ d.uri = ref.uri with
  | none => rfl
  | some d => simp [hunsharded d (List.mem_of_find?_eq_some hfind)]

theorem computes_unique {outputs₁ outputs₂ : SortedDict String τ}
    (h₁ : Computes W cfg s manifest outputs₁) (h₂ : Computes W cfg s manifest outputs₂) :
    outputs₁ = outputs₂ := by
  obtain ⟨graph₁, values₁, hgraph₁, hvalues₁, heval₁⟩ := h₁
  obtain ⟨graph₂, values₂, hgraph₂, hvalues₂, heval₂⟩ := h₂
  rw [hgraph₁] at hgraph₂
  cases hgraph₂
  rw [hvalues₁] at hvalues₂
  cases hvalues₂
  rw [heval₁] at heval₂
  exact Except.ok.inj heval₂

theorem replaysTo_of_computes (hD : Deployment W cfg audit manifest.verificationPolicy)
    (hplain : isTensorParallel manifest = false)
    (hunsharded : ∀ d ∈ receipt.inputDigests, d.sharded = none)
    (hagree : ∀ ref ∈ manifest.inputs, InputAgrees W.toLibraries s receipt.inputDigests ref)
    (h : Computes W cfg s manifest outputs) (receiptUri : String) :
    CorruptOutputs.ReplaysTo W.toLibraries audit s manifest receipt receiptUri outputs := by
  obtain ⟨graph, values, hgraph, hvalues, heval⟩ := h
  obtain ⟨c, hloaded⟩ := loadInputs_yields hD.secret hunsharded hagree hvalues .empty
    { receiptUri := receiptUri }
  refine ⟨graph, _, c, c, fetchGraph_of_readGraph hgraph _, hloaded, ?_⟩
  simp only [replay, hplain, Bool.false_eq_true, if_false]
  exact yields_lift heval c

end Outputs

section Honest

variable {W : WorkerLibraries β τ} {cfg : ExecutorConfig} {audit : AuditReplayConfig}
variable {miner : Miner β} {times : ExecutionTimes} {manifest : JobManifestV3}
variable {receipt : JobReceiptV3} {outputs : SortedDict String τ} {b b' : Bucket β}

/-- The bucket `b'` and the receipt are what an honest execution on `b` leaves behind. -/
structure HonestRun (W : WorkerLibraries β τ) (cfg : ExecutorConfig) (signer : Signer β)
    (manifest : JobManifestV3) (outputs : SortedDict String τ) (b b' : Bucket β)
    (receipt : JobReceiptV3) : Prop where
  computes : Computes W cfg b.get manifest outputs
  stored : ∃ sealed, manifest.outputs.mapM (sealOutput W cfg signer outputs) = .ok sealed ∧
    (∀ uri, b'.get uri = uploaded b sealed uri) ∧
    receipt.outputDigests = sealed.map SealedOutput.digest
  digests : manifest.inputs.mapM (digested W b') = .ok receipt.inputDigests
  hash : manifest.manifestHash W.platform = receipt.manifestHash

theorem honestRun_of_execute (hshared : SharedPolicies manifest.inputs)
    (hfault : miner.faultMode = "" ∨ miner.faultMode = "none") {e : JobExecutor (Bucket β) τ}
    {grants : String → Option PresignedUrlGrant}
    (h : execute W directStores cfg grants miner times manifest { store := b } = .ok receipt e) :
    ∃ outputs, HonestRun W cfg (miner.artifactSigner W) manifest outputs b e.store receipt := by
  obtain ⟨outputs, sealed, digests, hcomputes, hsealed, hget, hdigests, rfl⟩ :=
    execute_fresh hshared hfault h
  exact ⟨outputs, hcomputes, ⟨sealed, hsealed, hget, rfl⟩, hdigests, rfl⟩

variable {signer : Signer β} (hH : HonestRun W cfg signer manifest outputs b b' receipt)
include hH

theorem HonestRun.kept {uri : String} (huri : ∀ ref ∈ manifest.outputs, ref.uri ≠ uri) :
    b'.get uri = b.get uri := by
  obtain ⟨sealed, hsealed, hget, -⟩ := hH.stored
  exact get_of_not_output hsealed hget huri

theorem HonestRun.unshardedInputs : ∀ d ∈ receipt.inputDigests, d.sharded = none := by
  intro d hd
  obtain ⟨ref, -, hdigest⟩ := exists_item_of_mapM hH.digests hd
  obtain ⟨-, -, -, hsharded, -⟩ := digested_ok hdigest
  exact hsharded

theorem HonestRun.unshardedOutputs : ∀ d ∈ receipt.outputDigests, d.sharded = none := by
  intro d hd
  obtain ⟨sealed, hsealed, -, hdigests⟩ := hH.stored
  rw [hdigests] at hd
  obtain ⟨output, houtput, rfl⟩ := List.mem_map.mp hd
  obtain ⟨ref, -, hseal⟩ := exists_item_of_mapM hsealed houtput
  obtain ⟨-, -, -, -, -, hdigest, -⟩ := sealOutput_ok hseal
  exact (digestBody_ok hdigest).2.2.1

theorem HonestRun.output (hlayout : Layout W b.get manifest) {ref : ArtifactRef}
    (href : ref ∈ manifest.outputs) (hjson : endsWith ref.uri ".json" = false) :
    ∃ value plain body, outputs.find? ref.name = some value ∧
      encodeTensor W.platform W.torch W.buffers value = .ok plain ∧
      encodeEnvelope W.platform W.timelock (some signer) cfg.encryptionSecret plain ref.crypto =
        .ok body ∧ b'.get ref.uri = .ok body := by
  obtain ⟨sealed, hsealed, hget, -⟩ := hH.stored
  obtain ⟨output, hseal, hbody⟩ := get_of_output hlayout.outputs hsealed hget href
  obtain ⟨value, plain, hvalue, hencode, henvelope, -, -⟩ := sealOutput_ok hseal
  rw [encodeOutput, hjson, if_neg Bool.false_ne_true] at hencode
  exact ⟨value, plain, output.body, hvalue, hencode, henvelope, hbody⟩

theorem HonestRun.namesAgree_iff
    (hdisjoint : ∀ out ∈ manifest.outputs, ∀ ref ∈ manifest.inputs, out.uri ≠ ref.uri) :
    NamesAgree W b'.get manifest ↔ NamesAgree W b.get manifest := by
  refine forall₂_congr fun r₁ hr₁ => forall₂_congr fun r₂ hr₂ => ?_
  rw [hH.kept fun out hout => hdisjoint out hout r₁ hr₁,
    hH.kept fun out hout => hdisjoint out hout r₂ hr₂]

variable (hD : Deployment W cfg audit manifest.verificationPolicy)
  (hlayout : Layout W b.get manifest)
  (hjson : ∀ ref ∈ manifest.outputs, endsWith ref.uri ".json" = false)
  (hrequired : ∀ ref ∈ manifest.outputs,
    strOr (defaultPolicy ref.crypto).requiredSigner "" = "" ∨
      strOr (defaultPolicy ref.crypto).requiredSigner "" = signer.identity)
include hD hlayout hjson hrequired

theorem HonestRun.accepted_of_matches {replayed : SortedDict String τ}
    (hmatch : ∀ ref ∈ manifest.outputs,
      OutputMatches W.toLibraries audit b'.get replayed manifest receipt ref) :
    EnvelopesAccepted W cfg signer b.get manifest := by
  intro outputs' hcomputes ref href value plain payload hvalue hencode hmode hpayload
  cases computes_unique hH.computes hcomputes
  obtain ⟨value', plain', body, hvalue', hencode', hsealed, hbody⟩ :=
    hH.output hlayout href (hjson ref href)
  rw [hvalue] at hvalue'
  cases hvalue'
  rw [hencode] at hencode'
  cases hencode'
  obtain ⟨_, observed, _, -, hobserved, -, -⟩ := storedMatches_of_matches (hmatch ref href)
  obtain ⟨x, hx⟩ := openArtifact_of_observed (unsharded_find hH.unshardedOutputs ref) hbody
    hobserved
  exact ((openArtifact_sealed_iff hD (hrequired ref href) hsealed x).mp hx).2 hmode payload
    hpayload

theorem HonestRun.accepted_of_pass {auditTimes : Times} {receiptUri auditorHotkey : String}
    {res : AuditResultV3}
    (hrun : (run W.toLibraries audit auditTimes receiptUri manifest receipt auditorHotkey).run
      b'.get = .ok res) (hpass : res.status = "pass") :
    (∀ ref ∈ manifest.inputs,
      InputAgrees W.toLibraries b'.get receipt.inputDigests ref) ∧
      EnvelopesAccepted W cfg signer b.get manifest := by
  obtain ⟨outcome, c, hyields, hstatus⟩ := yields_of_pass hrun hpass
  obtain ⟨_, _, replayed, _, _, _, -, -, -, hagree, hmatch⟩ :=
    (checkReceipt_pass hyields hstatus).replayed
  exact ⟨hagree, hH.accepted_of_matches hD hlayout hjson hrequired hmatch⟩

theorem HonestRun.matches_of_accepted
    (haccepted : EnvelopesAccepted W cfg signer b.get manifest) : ∀ ref ∈ manifest.outputs,
      OutputMatches W.toLibraries audit b'.get outputs manifest receipt ref := by
  intro ref href
  obtain ⟨value, plain, body, hvalue, hencode, hsealed, hbody⟩ :=
    hH.output hlayout href (hjson ref href)
  have hopen := (openArtifact_sealed_iff hD (hrequired ref href) hsealed plain).mpr
    ⟨rfl, fun hmode payload hpayload => haccepted outputs hH.computes ref href value plain
      payload hvalue hencode hmode hpayload⟩
  have hdecoded : W.torch.decodeTensor plain = .ok value := by
    rw [hD.decode]
    exact decodeTensor_encodeTensor hD.lawful hD.bytes hD.buffers hencode
  exact outputMatches_of_observed hD.selfEqual hvalue
    (observed_of_opened (unsharded_find hH.unshardedOutputs ref) (hjson ref href) hbody hopen
      hdecoded)

end Honest

/-- A job that was executed honestly and whose receipt is accepted as the miner's passes the
audit exactly if the audit accepts the miner's signature under every envelope, and inputs of the
same name have the same bytes. -/
theorem honest_work_passes_iff {W : WorkerLibraries β τ} {cfg : ExecutorConfig}
    {audit : AuditReplayConfig} {miner : Miner β} {times : ExecutionTimes}
    {manifest : JobManifestV3} {receipt : JobReceiptV3} {b : Bucket β}
    {e : JobExecutor (Bucket β) τ} {grants : String → Option PresignedUrlGrant}
    (auditTimes : Times) (receiptUri auditorHotkey : String)
    (hD : Deployment W cfg audit manifest.verificationPolicy)
    (howner : verifyManifestSignature W.platform audit manifest = .ok true)
    (hplain : isTensorParallel manifest = false)
    (hjson : ∀ ref ∈ manifest.outputs, endsWith ref.uri ".json" = false)
    (hidentity : (miner.artifactSigner W).identity = miner.worker.hotkeySs58)
    (hrequired : ∀ ref ∈ manifest.outputs,
      strOr (defaultPolicy ref.crypto).requiredSigner "" = "" ∨
        strOr (defaultPolicy ref.crypto).requiredSigner "" = miner.worker.hotkeySs58)
    (hdisjoint : ∀ out ∈ manifest.outputs, ∀ ref ∈ manifest.inputs, out.uri ≠ ref.uri)
    (hlayout : Layout W b.get manifest)
    (hfault : miner.faultMode = "" ∨ miner.faultMode = "none")
    (hexecute : execute W directStores cfg grants miner times manifest { store := b } =
      .ok receipt e)
    (hminer : verifyReceiptSignature W.platform audit receipt = .ok true) :
    (∃ res, (run W.toLibraries audit auditTimes receiptUri manifest receipt auditorHotkey).run
        e.store.get = .ok res ∧ res.status = "pass") ↔
      EnvelopesAccepted W cfg (miner.artifactSigner W) b.get manifest ∧
        NamesAgree W b.get manifest := by
  obtain ⟨outputs, hH⟩ := honestRun_of_execute hlayout.inputs hfault hexecute
  rw [← hidentity] at hrequired
  constructor
  · rintro ⟨res, hrun, hpass⟩
    obtain ⟨hagree, haccepted⟩ := hH.accepted_of_pass hD hlayout hjson hrequired hrun hpass
    exact ⟨haccepted, (hH.namesAgree_iff hdisjoint).mp ((inputsAgree_iff hH.digests).mp hagree)⟩
  · rintro ⟨haccepted, hnames⟩
    have hagree := (inputsAgree_iff hH.digests).mpr ((hH.namesAgree_iff hdisjoint).mpr hnames)
    have hcomputes := computes_after hlayout hdisjoint (fun _ => hH.kept) hH.computes
    have hreplay := replaysTo_of_computes hD hplain hH.unshardedInputs hagree hcomputes receiptUri
    exact run_passes auditTimes auditorHotkey howner hminer hH.hash hreplay
      (hH.matches_of_accepted hD hlayout hjson hrequired haccepted)

section Secrets

open JsonBytes ByteTensors

/-- The HMAC signer of an executor without a wallet is accepted under envelopes only where its
secret is as good as the hotkey. -/
theorem hmacSigner_accepted_iff {p : Platform β} (hp : p.Lawful) (secret identity : String)
    (payload : β) :
    SignatureAccepted (hmacSigner p secret identity) (identityVerify p) payload ↔
      identity ≠ "" ∧ signPayload p payload secret = signPayload p payload identity := by
  have hne := signPayload_ne_empty hp payload secret
  have hverify : verifyIdentityPayload p payload identity (signPayload p payload secret) =
      .ok true ↔ signPayload p payload secret = signPayload p payload identity := by
    rw [verifyIdentityPayload_iff, not_verifyHotkeyPayload_signPayload hp]
    simp
  unfold SignatureAccepted
  by_cases hidentity : identity = ""
  · simp [hmacSigner, identityVerify, Json.truthy, hidentity]
  · simp [hmacSigner, identityVerify, Json.truthy, hidentity, hne, hverify]

def HonestWorkPasses (W : WorkerLibraries β τ) (cfg : ExecutorConfig)
    (audit : AuditReplayConfig) : Prop :=
  ∀ (miner : Miner β) (times : ExecutionTimes) manifest receipt (b : Bucket β) e grants
    (auditTimes : Times) receiptUri auditorHotkey,
    verifyManifestSignature W.platform audit manifest = .ok true →
    isTensorParallel manifest = false →
    (∀ ref ∈ manifest.outputs, endsWith ref.uri ".json" = false) →
    (miner.artifactSigner W).identity = miner.worker.hotkeySs58 →
    (∀ ref ∈ manifest.outputs, strOr (defaultPolicy ref.crypto).requiredSigner "" = "" ∨
      strOr (defaultPolicy ref.crypto).requiredSigner "" = miner.worker.hotkeySs58) →
    (∀ out ∈ manifest.outputs, ∀ ref ∈ manifest.inputs, out.uri ≠ ref.uri) →
    (miner.faultMode = "" ∨ miner.faultMode = "none") →
    execute W directStores cfg grants miner times manifest { store := b } = .ok receipt e →
    verifyReceiptSignature W.platform audit receipt = .ok true →
    ∃ res, (run W.toLibraries audit auditTimes receiptUri manifest receipt auditorHotkey).run
      e.store.get = .ok res ∧ res.status = "pass"

def byteWorker : WorkerLibraries (List UInt8) (List UInt8) where
  toLibraries := byteLibraries
  buffers := byteBuffers
  elementSize := fun _ => 1
  tolist := fun t => .arr (t.map fun x => .int x.toNat)
  randnLike := fun _ t => t
  zerosLike := fun t => t.map fun _ => 0
  increment := fun i t => t.modify i (· + 1)

theorem byteWorker_deployment (policy : VerificationPolicy) :
    Deployment byteWorker {} {} policy where
  lawful := bytePlatform_lawful
  bytes := bytePlatform_bytes
  buffers := byteBuffers_lawful
  decode := rfl
  revealed := by
    intro body round policy ciphertext h
    exact h.symm
  selfEqual := fun t => compareTensors_self policy t (fun u => by simp [byteWorker, byteLibraries,
    byteTorch]) (fun u rtol atol => by simp [byteWorker, byteLibraries, byteTorch])
    (fun u => ⟨_, rfl⟩) fun u idx => ⟨_, rfl⟩
  secret := rfl

def sealedManifest : JobManifestV3 :=
  JobManifestV3.sign bytePlatform
    { jobId := "j", runId := "r", stepId := 0, kind := "train"
      graphRef := { sha256 := constGraph.graphId bytePlatform, uri := "s3://b/g" }
      params := [], inputs := []
      outputs := [{ name := "y", uri := "s3://b/y",
                    crypto := some { mode := CryptoMode.signed.value } }]
      assignedHotkey := "A", assignedWorker := none, attempt := 0, deadlineUnix := 0
      createdUnix := 0 }
    (.secret "owner-dev-secret")

/-- The miner with hotkey `A`, whose receipts and envelopes are signed with a secret. -/
def secretMiner (secret : String) : Miner (List UInt8) where
  worker := { hotkeySs58 := "A", workerId := "w", hostId := "host", gpuIndex := none,
              sessionNonce := "nonce" }
  secret := secret

def graphBucket : Bucket (List UInt8) where
  name := "b"
  objects := .ofEntries [("s3://b/g", putJson constGraph.toDict)]

def sealedRun (secret : String) :
    EStateM.Result PyErr (JobExecutor (Bucket (List UInt8)) (List UInt8)) JobReceiptV3 :=
  execute byteWorker directStores {} (fun _ => none) (secretMiner secret)
    ⟨.finite 0, .finite 1, .finite 1⟩ sealedManifest { store := graphBucket }

theorem sealedManifest_signed :
    verifyManifestSignature bytePlatform {} sealedManifest = .ok true :=
  verifyManifestSignature_sign bytePlatform_lawful rfl _

theorem sealedRun_ok (secret : String) (h : secret ∈ ["A", "miner-dev-secret"]) :
    ∃ receipt e, sealedRun secret = .ok receipt e ∧
      verifyReceiptSignature bytePlatform {} receipt = .ok true := by
  have hreturns : ∀ secret ∈ ["A", "miner-dev-secret"], (match sealedRun secret with
      | .ok _ _ => true
      | .error _ _ => false) = true := by decide +kernel
  have hok := hreturns secret h
  cases hrun : sealedRun secret with
  | error e s => simp [hrun] at hok
  | ok receipt e =>
    refine ⟨receipt, e, rfl, ?_⟩
    obtain ⟨_, _, _, _, _, _, _, _, _, -, -, -, -, -, -, -, rfl⟩ := execute_ok hrun
    refine verifyReceiptSignature_signed bytePlatform_lawful rfl ?_
    simpa [secretMiner, receiptOf, JobReceiptV3.sign, minerSigningSecret] using h

theorem readGraph_of_stored {W : WorkerLibraries β τ} (hp : W.platform.Lawful) {g : Graph}
    (hcanonical : Canonical g.toDict) (hread : Graph.fromDict g.toDict = .ok g) :
    readGraph W (g.graphId W.platform) (W.platform.dumps g.toDict) = .ok g := by
  simp [readGraph, hp.loads_dumps _ hcanonical, hread]

theorem sealedManifest_layout : Layout byteWorker graphBucket.get sealedManifest where
  outputs := by
    intro r₁ hr₁ r₂ hr₂ _
    cases List.mem_singleton.mp hr₁
    cases List.mem_singleton.mp hr₂
    exact ⟨rfl, rfl⟩
  graph := by decide
  blobs := by
    intro graph hgraph
    have hcanonical : Canonical constGraph.toDict := (isCanonical_iff _).mp (by decide +kernel)
    have hfind : graphBucket.objects.find? "s3://b/g" = some (putJson constGraph.toDict) := by
      simp only [graphBucket, SortedDict.ofEntries, List.foldl, SortedDict.find?_insert]
      simp
    have hget : graphBucket.get "s3://b/g" = .ok (putJson constGraph.toDict) :=
      Bucket.get_eq_ok.mpr ⟨⟨("b", "g"), by decide⟩, hfind⟩
    have hread := readGraph_of_stored (W := byteWorker) bytePlatform_lawful hcanonical rfl
    obtain ⟨body, hbody, hsame⟩ := bind_eq_ok.mp hgraph
    have hbody' : body = putJson constGraph.toDict := Except.ok.inj (hbody.symm.trans hget)
    rw [hbody'] at hsame
    have hconst : graph = constGraph := Except.ok.inj (hsame.symm.trans hread)
    rw [hconst]
    intro ref _
    simp [graphBlobUris, constGraph, blobUris]
  inputs := by
    intro r₁ hr₁
    cases hr₁

theorem signPayload_default_ne (payload : List UInt8) :
    signPayload bytePlatform payload "miner-dev-secret" ≠ signPayload bytePlatform payload "A" := by
  intro h
  have hchecksum := congrArg signatureBytes h
  simp only [signPayload, signatureBytes_hexEncode] at hchecksum
  have hlength := congrArg UInt8.toNat (List.cons.inj hchecksum).1
  have hdefault : (putStr "miner-dev-secret").length = 17 := by decide
  have hhotkey : (putStr "A").length = 2 := by decide
  rw [List.length_append, List.length_append, hdefault, hhotkey] at hlength
  simp only [UInt8.toNat_ofNat'] at hlength
  omega

/-- The receipt of the default miner is accepted and the envelope under its output is not. -/
theorem default_signer_fails : ¬ HonestWorkPasses byteWorker {} {} := by
  intro hpasses
  obtain ⟨receipt, e, hrun, hminer⟩ := sealedRun_ok "miner-dev-secret" (by simp)
  have hjson : ∀ ref ∈ sealedManifest.outputs, endsWith ref.uri ".json" = false := by decide
  have hrequired : ∀ ref ∈ sealedManifest.outputs,
      strOr (defaultPolicy ref.crypto).requiredSigner "" = "" ∨
        strOr (defaultPolicy ref.crypto).requiredSigner "" = "A" := by decide
  obtain ⟨res, hres, hpass⟩ := hpasses (secretMiner "miner-dev-secret") _ sealedManifest receipt
    graphBucket e _ ⟨.finite 1, .finite 2⟩ "s3://b/receipt" "v" sealedManifest_signed rfl hjson
    rfl hrequired (by simp [sealedManifest, JobManifestV3.sign]) (Or.inl rfl) hrun hminer
  obtain ⟨outputs, hH⟩ := honestRun_of_execute sealedManifest_layout.inputs (Or.inl rfl) hrun
  obtain ⟨-, haccepted⟩ := hH.accepted_of_pass (byteWorker_deployment _) sealedManifest_layout
    hjson hrequired hres hpass
  have href : _ ∈ sealedManifest.outputs := List.mem_singleton_self _
  obtain ⟨value, plain, body, hvalue, hencode, -, -⟩ :=
    hH.output sealedManifest_layout href (hjson _ href)
  have hsignature := haccepted outputs hH.computes _ href value plain _ hvalue hencode (by decide)
    rfl
  exact signPayload_default_ne _
    ((hmacSigner_accepted_iff bytePlatform_lawful "miner-dev-secret" "A" _).mp hsignature).2

/-- The miner that signs with its hotkey as the secret passes. -/
theorem hotkey_secret_passes : ∃ receipt e res, sealedRun "A" = .ok receipt e ∧
    (run byteLibraries {} ⟨.finite 1, .finite 2⟩ "s3://b/receipt" sealedManifest receipt "v").run
      e.store.get = .ok res ∧ res.status = "pass" := by
  obtain ⟨receipt, e, hrun, hminer⟩ := sealedRun_ok "A" (by simp)
  have haccepted : EnvelopesAccepted byteWorker {} ((secretMiner "A").artifactSigner byteWorker)
      graphBucket.get sealedManifest := by
    intro outputs _ ref _ value plain payload _ _ _ _
    exact (hmacSigner_accepted_iff bytePlatform_lawful "A" "A" payload).mpr ⟨by decide, rfl⟩
  have hnames : NamesAgree byteWorker graphBucket.get sealedManifest := by
    intro r₁ hr₁
    cases hr₁
  obtain ⟨res, hres, hpass⟩ := (honest_work_passes_iff ⟨.finite 1, .finite 2⟩ "s3://b/receipt"
    "v" (byteWorker_deployment _) sealedManifest_signed rfl (by decide) rfl (by decide)
    (by simp [sealedManifest, JobManifestV3.sign]) sealedManifest_layout (Or.inl rfl) hrun
    hminer).mpr ⟨haccepted, hnames⟩
  exact ⟨receipt, e, res, hrun, hres, hpass⟩

end Secrets

end HonestWork

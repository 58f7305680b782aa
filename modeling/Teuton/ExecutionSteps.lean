import Teuton.JobExecution

/-! What the steps of an execution do to the executor and to a bucket that it accesses directly.
Only the upload of the outputs changes the bucket. -/
namespace ExecutionSteps

open PyJson PyText Signatures ObjectStore GraphIr Protocol GraphEval
open AssignmentGrants JobExecution

variable {β τ σ : Type}

section Steps

variable {W : WorkerLibraries β τ} {S : Stores σ β} {cfg : ExecutorConfig}
variable {grants : String → Option PresignedUrlGrant}

variable {value : τ} {uri : String} {e e' : JobExecutor σ τ}

theorem execute_ok {miner : Miner β} {times : ExecutionTimes} {manifest : JobManifestV3}
    {receipt : JobReceiptV3}
    (h : execute W S cfg grants miner times manifest e = .ok receipt e') :
    ∃ graph e₁ inputs e₂ computed sealed e₃ e₄ digests,
      JobExecution.fetchGraph W S manifest.graphRef.sha256 manifest.graphRef.uri e =
        .ok graph e₁ ∧
      decodeInputs W S cfg grants manifest.inputs e₁ = .ok inputs e₂ ∧
      (evaluate W.torch graph inputs manifest.params).run (S.bucket e₂.store).get =
        .ok computed ∧
      manifest.outputs.mapM (sealOutput W cfg (miner.artifactSigner W)
        (applyFaults W manifest computed miner.worker.workerId miner.faultMode
          miner.faultRate)) = .ok sealed ∧
      sealed.forM (putOutput S grants) e₂ = .ok ⟨⟩ e₃ ∧
      cacheOutputs W cfg (applyFaults W manifest computed miner.worker.workerId miner.faultMode
        miner.faultRate) manifest.outputs e₃ = .ok ⟨⟩ e₄ ∧
      manifest.inputs.mapM (digestInput W S grants) e₄ = .ok digests e' ∧
      receipt = (receiptOf W miner times manifest digests (sealed.map SealedOutput.digest)).sign
        W.platform (.signer (miner.artifactSigner W)) := by
  unfold execute at h
  obtain ⟨graph, e₁, hgraph, h⟩ := Effects.bind_eq_ok.mp h
  obtain ⟨inputs, e₂, hinputs, h⟩ := Effects.bind_eq_ok.mp h
  obtain ⟨_, _, hget, h⟩ := Effects.bind_eq_ok.mp h
  obtain ⟨rfl, rfl⟩ := Effects.get_eq_ok.mp hget
  obtain ⟨computed, _, heval, h⟩ := Effects.bind_eq_ok.mp h
  obtain ⟨hcomputed, rfl⟩ := Effects.lift_eq_ok.mp heval
  obtain ⟨sealed, _, hseal, h⟩ := Effects.bind_eq_ok.mp h
  obtain ⟨hsealed, rfl⟩ := Effects.lift_eq_ok.mp hseal
  obtain ⟨_, e₃, hput, h⟩ := Effects.bind_eq_ok.mp h
  obtain ⟨_, e₄, hcache, h⟩ := Effects.bind_eq_ok.mp h
  obtain ⟨digests, e₅, hdigests, h⟩ := Effects.bind_eq_ok.mp h
  cases h
  exact ⟨graph, e₁, inputs, e₂, computed, sealed, e₃, e₄, digests, hgraph, hinputs, hcomputed,
    hsealed, hput, hcache, hdigests, rfl⟩

theorem fetchGraph_ok {sha : String} {graph : Graph}
    (h : JobExecution.fetchGraph W S sha uri e = .ok graph e') :
    (e.graphs.get? sha).map Prod.snd = some graph ∧ e' = e ∨
    e.graphs.get? sha = none ∧ (S.bucket e.store).get uri >>= readGraph W sha = .ok graph ∧
      e' = { e with graphs := e.graphs.set (sha, graph) } := by
  unfold JobExecution.fetchGraph at h
  obtain ⟨_, _, hget, h⟩ := Effects.bind_eq_ok.mp h
  obtain ⟨rfl, rfl⟩ := Effects.get_eq_ok.mp hget
  cases hcached : e.graphs.get? sha with
  | some entry =>
    rw [hcached] at h
    cases h
    exact Or.inl ⟨rfl, rfl⟩
  | none =>
    rw [hcached] at h
    obtain ⟨g, _, hread, h⟩ := Effects.bind_eq_ok.mp h
    obtain ⟨hg, rfl⟩ := Effects.lift_eq_ok.mp hread
    obtain ⟨_, e₁, hmodify, h⟩ := Effects.bind_eq_ok.mp h
    have he₁ := Effects.modify_eq_ok.mp hmodify
    cases h
    exact Or.inr ⟨rfl, hg, he₁⟩

theorem cacheInput_ok (h : cacheInput W cfg uri value e = .ok ⟨⟩ e') :
    ∃ c, e.inputCache.cacheTensor W.size cfg.inputMax uri value = .ok c ∧
      e' = { e with inputCache := c } := by
  have hupdate := Effects.update_eq_ok.mp h
  obtain ⟨c, hc, he'⟩ := bind_eq_ok.mp hupdate
  cases he'
  exact ⟨c, hc, rfl⟩

theorem cacheOutput_ok (h : cacheOutput W cfg uri value e = .ok ⟨⟩ e') :
    ∃ c, e.outputCache.cacheTensor W.size cfg.outputMax uri value = .ok c ∧
      e' = { e with outputCache := c } := by
  have hupdate := Effects.update_eq_ok.mp h
  obtain ⟨c, hc, he'⟩ := bind_eq_ok.mp hupdate
  cases he'
  exact ⟨c, hc, rfl⟩

theorem loadInput_ok {ref : ArtifactRef}
    (h : JobExecution.loadInput W S cfg grants ref e = .ok value e') :
    ∃ body e₁, onStore (S.get ref.uri (grants ref.uri)) e = .ok body e₁ ∧
      openInput W cfg body ref = .ok value ∧
      (isInputCacheable ref.uri = true ∧ cacheInput W cfg ref.uri value e₁ = .ok ⟨⟩ e' ∨
        isInputCacheable ref.uri = false ∧ e' = e₁) := by
  unfold JobExecution.loadInput at h
  obtain ⟨body, e₁, hbody, h⟩ := Effects.bind_eq_ok.mp h
  obtain ⟨v, _, hlift, h⟩ := Effects.bind_eq_ok.mp h
  obtain ⟨hopen, rfl⟩ := Effects.lift_eq_ok.mp hlift
  refine ⟨body, e₁, hbody, ?_⟩
  cases hcacheable : isInputCacheable ref.uri with
  | true =>
    simp only [hcacheable, if_true] at h
    obtain ⟨_, e₂, hcache, h⟩ := Effects.bind_eq_ok.mp h
    cases h
    exact ⟨hopen, Or.inl ⟨rfl, hcache⟩⟩
  | false =>
    simp only [hcacheable, Bool.false_eq_true, if_false] at h
    cases h
    exact ⟨hopen, Or.inr ⟨rfl, rfl⟩⟩

theorem decodeInput_ok {ref : ArtifactRef}
    (h : decodeInput W S cfg grants ref e = .ok value e') :
    (e.outputCache.find? ref.uri).or (e.inputCache.find? ref.uri) = some value ∧ e' = e ∨
    (e.outputCache.find? ref.uri).or (e.inputCache.find? ref.uri) = none ∧
      JobExecution.loadInput W S cfg grants ref e = .ok value e' := by
  unfold decodeInput at h
  obtain ⟨_, _, hget, h⟩ := Effects.bind_eq_ok.mp h
  obtain ⟨rfl, rfl⟩ := Effects.get_eq_ok.mp hget
  cases hcached : (e.outputCache.find? ref.uri).or (e.inputCache.find? ref.uri) with
  | some v =>
    rw [hcached] at h
    cases h
    exact Or.inl ⟨rfl, rfl⟩
  | none =>
    rw [hcached] at h
    exact Or.inr ⟨rfl, h⟩

end Steps

section Direct

variable {W : WorkerLibraries β τ} {cfg : ExecutorConfig}
variable {grants : String → Option PresignedUrlGrant}

variable {e e' : JobExecutor (Bucket β) τ}

theorem directGet_ok {uri : String} {grant : Option PresignedUrlGrant} {body : β}
    (h : onStore (directStores.get uri grant) e = .ok body e') :
    e.store.get uri = .ok body ∧ e' = e := by
  obtain ⟨b, hlift, rfl⟩ := Effects.zoom_eq_ok.mp h
  obtain ⟨hb, rfl⟩ := Effects.lift_eq_ok.mp hlift
  exact ⟨hb, rfl⟩

theorem directPut_ok {uri : String} {body : β} {grant : Option PresignedUrlGrant}
    (h : onStore (directStores.put uri body grant) e = .ok ⟨⟩ e') :
    ∃ b, e.store.put uri body = .ok b ∧ e' = { e with store := b } := by
  obtain ⟨b, hupdate, rfl⟩ := Effects.zoom_eq_ok.mp h
  simp only [directStores] at hupdate
  obtain ⟨b₁, hb₁, heq⟩ := bind_eq_ok.mp (Effects.update_eq_ok.mp hupdate)
  cases heq
  exact ⟨b, hb₁, rfl⟩

def uploaded (b : Bucket β) (sealed : List (SealedOutput β)) (uri : String) : Py β :=
  match KeyedDict.latest SealedOutput.uri uri sealed with
  | some output => .ok output.body
  | none => b.get uri

theorem putOutputs_ok {sealed : List (SealedOutput β)}
    (h : sealed.forM (putOutput directStores grants) e = .ok ⟨⟩ e') :
    e' = { e with store := e'.store } ∧ ∀ uri, e'.store.get uri = uploaded e.store sealed uri := by
  refine Effects.forM_induction (R := fun done (s : JobExecutor (Bucket β) τ) =>
    s = { e with store := s.store } ∧ ∀ uri, s.store.get uri = uploaded e.store done uri) h
    ⟨rfl, fun _ => rfl⟩ ?_
  rintro done output u v ⟨hu, hget⟩ hput
  obtain ⟨b, hb, rfl⟩ := directPut_ok hput
  obtain ⟨⟨parts, hparts⟩, rfl⟩ := Bucket.put_eq_ok.mp hb
  refine ⟨by rw [hu], fun uri => ?_⟩
  unfold uploaded KeyedDict.latest
  rw [List.reverse_append]
  by_cases huri : output.uri = uri
  · subst huri
    have hfind : (u.store.objects.insert output.uri output.body).find? output.uri =
        some output.body := by
      simp
    simpa using Bucket.get_eq_ok.mpr ⟨⟨parts, hparts⟩, hfind⟩
  · have hsame : (u.store.objects.insert output.uri output.body).find? uri =
        u.store.objects.find? uri := by
      rw [SortedDict.find?_insert, if_neg (Ne.symm huri)]
    have hkept : Bucket.get { u.store with
        objects := u.store.objects.insert output.uri output.body } uri = u.store.get uri :=
      Bucket.get_congr hsame
    rw [hkept, hget uri]
    simp [uploaded, KeyedDict.latest, huri]

theorem cacheOutputs_ok {outputs : SortedDict String τ} {refs : List ArtifactRef}
    {e e' : JobExecutor σ τ} (h : cacheOutputs W cfg outputs refs e = .ok ⟨⟩ e') :
    e' = { e with outputCache := e'.outputCache } := by
  refine Effects.forM_induction (R := fun _ (s : JobExecutor σ τ) =>
    s = { e with outputCache := s.outputCache }) h rfl ?_
  intro done ref u v hu hstep
  cases hfind : outputs.find? ref.name with
  | none =>
    rw [hfind] at hstep
    cases hstep
  | some value =>
    rw [hfind] at hstep
    obtain ⟨c, -, rfl⟩ := cacheOutput_ok hstep
    rw [hu]

def digested (W : WorkerLibraries β τ) (b : Bucket β) (ref : ArtifactRef) : Py ArtifactDigest :=
  b.get ref.uri >>= fun body => digestBody W.platform ref.name ref.uri body ref.crypto

theorem digestInputs_ok {refs : List ArtifactRef} {digests : List ArtifactDigest}
    (h : refs.mapM (digestInput W directStores grants) e = .ok digests e') :
    refs.mapM (digested W e.store) = .ok digests ∧ e' = e := by
  refine Effects.mapM_spec (I := fun s => s = e) h rfl ?_
  rintro ref - d u v rfl hstep
  obtain ⟨body, _, hget, hlift⟩ := Effects.bind_eq_ok.mp hstep
  obtain ⟨hbody, rfl⟩ := directGet_ok hget
  obtain ⟨hdigest, rfl⟩ := Effects.lift_eq_ok.mp hlift
  exact ⟨bind_eq_ok.mpr ⟨body, hbody, hdigest⟩, rfl⟩

end Direct

section Within

variable {W : WorkerLibraries β τ} {S : Stores σ β} {cfg : ExecutorConfig}
variable {grants : String → Option PresignedUrlGrant}
variable {R : JobExecutor σ τ → JobExecutor σ τ → Prop} [IsPreorder (JobExecutor σ τ) R]

def OfStore (R : JobExecutor σ τ → JobExecutor σ τ → Prop) : Prop :=
  ∀ e e', e'.store = e.store → R e e'

def OffTensors (R : JobExecutor σ τ → JobExecutor σ τ → Prop) : Prop :=
  ∀ e e', e'.store = e.store → e'.graphs = e.graphs → R e e'

omit [IsPreorder (JobExecutor σ τ) R] in
theorem OfStore.offTensors (hR : OfStore R) : OffTensors R := fun e e' h _ => hR e e' h

theorem within_fetchGraph (hR : OfStore R) (sha uri : String) :
    Effects.Within R (JobExecution.fetchGraph W S sha uri) := by
  refine Effects.within_get.bind fun e => ?_
  split
  · exact Effects.within_pure _
  · refine (Effects.within_lift _).bind fun graph => ?_
    refine Effects.Within.bind (Effects.within_modify fun e => hR _ _ rfl) fun _ => ?_
    exact Effects.within_pure _

theorem within_cacheInput (hR : OffTensors R) (uri : String) (value : τ) :
    Effects.Within R (cacheInput W cfg uri value) := by
  refine Effects.within_update fun e _ e' h => ?_
  obtain ⟨cache, -, hpure⟩ := bind_eq_ok.mp h
  cases hpure
  exact hR _ _ rfl rfl

theorem within_cacheOutput (hR : OffTensors R) (uri : String) (value : τ) :
    Effects.Within R (cacheOutput W cfg uri value) := by
  refine Effects.within_update fun e _ e' h => ?_
  obtain ⟨cache, -, hpure⟩ := bind_eq_ok.mp h
  cases hpure
  exact hR _ _ rfl rfl

variable {ref : ArtifactRef} {refs : List ArtifactRef}

theorem within_decodeInput (hR : OffTensors R)
    (hget : Effects.Within R (onStore (S.get ref.uri (grants ref.uri)))) :
    Effects.Within R (decodeInput W S cfg grants ref) := by
  refine Effects.within_get.bind fun e => ?_
  split
  · exact Effects.within_pure _
  · refine hget.bind fun body => (Effects.within_lift _).bind fun value => ?_
    split_ifs
    · exact (within_cacheInput hR _ _).bind fun _ => Effects.within_pure _
    · exact Effects.within_pure _

theorem within_decodeInputs_of_each
    (h : ∀ ref ∈ refs, Effects.Within R (decodeInput W S cfg grants ref)) :
    Effects.Within R (decodeInputs W S cfg grants refs) := by
  refine Effects.within_get.bind fun e => ?_
  refine (Effects.Within.mapM fun ref href => h ref ?_).bind fun _ => Effects.within_pure _
  replace href : ref ∈ (refs.partition fun ref => isCached e ref.uri).1 ++
      (refs.partition fun ref => isCached e ref.uri).2 := href
  rw [List.partition_eq_filter_filter] at href
  rcases List.mem_append.mp href with href | href <;> exact List.mem_of_mem_filter href

theorem within_decodeInputs (hR : OffTensors R)
    (hget : ∀ ref ∈ refs, Effects.Within R (onStore (S.get ref.uri (grants ref.uri)))) :
    Effects.Within R (decodeInputs W S cfg grants refs) :=
  within_decodeInputs_of_each fun ref href => within_decodeInput hR (hget ref href)

theorem within_cacheOutputs (hR : OffTensors R) (outputs : SortedDict String τ)
    (refs : List ArtifactRef) : Effects.Within R (cacheOutputs W cfg outputs refs) := by
  refine Effects.Within.forM fun ref _ => ?_
  split
  · exact Effects.within_lift _
  · exact within_cacheOutput hR _ _

theorem within_digestInput (hget : Effects.Within R (onStore (S.get ref.uri (grants ref.uri)))) :
    Effects.Within R (digestInput W S grants ref) :=
  hget.bind fun _ => Effects.within_lift _

theorem sealOutput_uri {signer : Signer β} {outputs : SortedDict String τ}
    {sealed : SealedOutput β} (h : sealOutput W cfg signer outputs ref = .ok sealed) :
    sealed.uri = ref.uri := by
  unfold sealOutput at h
  split at h
  · cases h
  · obtain ⟨plain, -, h⟩ := bind_eq_ok.mp h
    obtain ⟨body, -, h⟩ := bind_eq_ok.mp h
    obtain ⟨digest, -, h⟩ := bind_eq_ok.mp h
    cases h
    rfl

theorem sealed_uris {signer : Signer β} {outputs : SortedDict String τ}
    {sealed : List (SealedOutput β)} (h : refs.mapM (sealOutput W cfg signer outputs) = .ok sealed) :
    sealed.map SealedOutput.uri = refs.map ArtifactRef.uri := by
  induction refs generalizing sealed with
  | nil =>
    cases h
    rfl
  | cons ref refs ih =>
    rw [List.mapM_cons] at h
    obtain ⟨first, hfirst, h⟩ := bind_eq_ok.mp h
    obtain ⟨rest, hrest, h⟩ := bind_eq_ok.mp h
    cases h
    rw [List.map_cons, List.map_cons, sealOutput_uri hfirst, ih hrest]

theorem within_execute_of_parts (miner : Miner β) (times : ExecutionTimes)
    {manifest : JobManifestV3}
    (hgraph : ∀ sha uri, Effects.Within R (JobExecution.fetchGraph W S sha uri))
    (hdecode : Effects.Within R (decodeInputs W S cfg grants manifest.inputs))
    (hput : ∀ uri ∈ manifest.outputs.map ArtifactRef.uri, ∀ body,
      Effects.Within R (onStore (S.put uri body (grants uri))))
    (hcache : ∀ outputs, Effects.Within R (cacheOutputs W cfg outputs manifest.outputs))
    (hdigest : ∀ ref ∈ manifest.inputs, Effects.Within R (digestInput W S grants ref)) :
    Effects.Within R (execute W S cfg grants miner times manifest) := by
  refine (hgraph _ _).bind fun graph => hdecode.bind fun inputs => ?_
  refine Effects.within_get.bind fun _ => (Effects.within_lift _).bind fun computed => ?_
  intro e
  refine Effects.ends_lift_bind ?_ fun _ _ => refl e
  intro sealed hsealed
  have huris := sealed_uris hsealed
  have hupload : Effects.Within R (sealed.forM (putOutput S grants)) := by
    refine Effects.Within.forM fun output houtput => hput output.uri ?_ output.body
    rw [← huris]
    exact List.mem_map_of_mem houtput
  refine hupload.bind (fun _ => (hcache _).bind fun _ => ?_) e
  exact (Effects.Within.mapM hdigest).bind fun _ => Effects.within_pure _

theorem within_execute (W : WorkerLibraries β τ) (cfg : ExecutorConfig) (hR : OfStore R)
    (miner : Miner β) (times : ExecutionTimes) {manifest : JobManifestV3}
    (hget : ∀ ref ∈ manifest.inputs, Effects.Within R (onStore (S.get ref.uri (grants ref.uri))))
    (hput : ∀ uri ∈ manifest.outputs.map ArtifactRef.uri, ∀ body,
      Effects.Within R (onStore (S.put uri body (grants uri)))) :
    Effects.Within R (execute W S cfg grants miner times manifest) :=
  within_execute_of_parts miner times (within_fetchGraph hR)
    (within_decodeInputs hR.offTensors hget) hput
    (fun _ => within_cacheOutputs hR.offTensors _ _) fun ref href => within_digestInput (hget ref href)

end Within

section Writes

variable {S : Stores (Bucket β) β}

/-- Reading changes nothing, and an upload stores the body at its place or raises. -/
structure Faithful (S : Stores (Bucket β) β) : Prop where
  get : ∀ uri grant b, Effects.Ends (S.get uri grant) b fun _ b' => b' = b
  put : ∀ uri body grant b,
    Effects.Ends (S.put uri body grant) b fun _ b' => b' = b ∨ b.put uri body = .ok b'

theorem faithful_direct : Faithful (directStores : Stores (Bucket β) β) where
  get := fun uri _ b => by
    simp only [Effects.Ends, directStores]
    cases b.get uri <;> rfl
  put := fun uri body _ b => by
    refine Effects.ends_update.mpr ⟨?_, fun _ _ => .inl rfl⟩
    intro _ b' h
    obtain ⟨b₁, hput, hpure⟩ := bind_eq_ok.mp h
    cases hpure
    exact .inr hput

def ChangedOnly (uris : List String) (e e' : JobExecutor (Bucket β) τ) : Prop :=
  e'.store.name = e.store.name ∧
    ∀ uri ∉ uris, e'.store.objects.find? uri = e.store.objects.find? uri

variable {uris : List String}

instance : IsPreorder (JobExecutor (Bucket β) τ) (ChangedOnly uris) where
  refl := fun _ => ⟨rfl, fun _ _ => rfl⟩
  trans := fun _ _ _ h h' =>
    ⟨h'.1.trans h.1, fun uri huri => (h'.2 uri huri).trans (h.2 uri huri)⟩

theorem changedOnly_ofStore : OfStore (ChangedOnly (β := β) (τ := τ) uris) := by
  intro e e' h
  rw [ChangedOnly, h]
  exact ⟨rfl, fun _ _ => rfl⟩

theorem within_onStore {α : Type} {x : EStateM PyErr (Bucket β) α}
    (h : ∀ b, Effects.Ends x b fun _ b' => b'.name = b.name ∧
      ∀ uri ∉ uris, b'.objects.find? uri = b.objects.find? uri) :
    Effects.Within (ChangedOnly (τ := τ) uris) (onStore x) := by
  intro e
  refine Effects.ends_iff.mpr ⟨?_, ?_⟩
  · intro a e' hrun
    obtain ⟨b, hx, rfl⟩ := Effects.zoom_eq_ok.mp hrun
    exact (h e.store).of_ok hx
  · intro err e' hrun
    obtain ⟨b, hx, rfl⟩ := Effects.zoom_eq_error.mp hrun
    exact (h e.store).of_error hx

theorem within_read (hS : Faithful S) (uri : String) (grant : Option PresignedUrlGrant) :
    Effects.Within (ChangedOnly (τ := τ) uris) (onStore (S.get uri grant)) := by
  refine within_onStore fun b => (hS.get uri grant b).mono ?_
  rintro _ _ rfl
  exact ⟨rfl, fun _ _ => rfl⟩

theorem within_upload (hS : Faithful S) {uri : String} (body : β) (grant : Option PresignedUrlGrant)
    (huri : uri ∈ uris) :
    Effects.Within (ChangedOnly (τ := τ) uris) (onStore (S.put uri body grant)) := by
  refine within_onStore fun b => (hS.put uri body grant b).mono ?_
  rintro _ b' (rfl | hput)
  · exact ⟨rfl, fun _ _ => rfl⟩
  · obtain ⟨-, rfl⟩ := Bucket.put_eq_ok.mp hput
    refine ⟨rfl, fun other hother => ?_⟩
    rw [SortedDict.find?_insert, if_neg]
    rintro rfl
    exact hother huri

theorem execute_writes (W : WorkerLibraries β τ) (cfg : ExecutorConfig)
    (grants : String → Option PresignedUrlGrant) (hS : Faithful S) (miner : Miner β)
    (times : ExecutionTimes) (manifest : JobManifestV3) :
    Effects.Within (ChangedOnly (manifest.outputs.map ArtifactRef.uri))
      (execute W S cfg grants miner times manifest) :=
  within_execute W cfg changedOnly_ofStore miner times (fun _ _ => within_read hS _ _)
    fun _ huri body => within_upload hS body _ huri

end Writes

end ExecutionSteps

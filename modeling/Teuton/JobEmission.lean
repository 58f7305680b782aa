import Teuton.BucketBranches
import Teuton.GraphIr
import Teuton.ProtocolRoundTrip

/-! What the two run managers have in common when they emit a job. The outputs are wrapped under
the crypto policy of the configuration, with the placeholder signer replaced by the hotkey of
the worker that gets the job, and the manifest is signed by the owner. -/
namespace JobEmission

open PyJson Signatures ObjectStore BucketPaths BucketBranches GraphIr Protocol
open ProtocolRoundTrip

variable {β : Type}

structure RunConfig (β : Type) where
  netuid : ℤ
  runId : String
  ownerSecret : String := "owner-dev-secret"
  ownerSigner : Option (Signer β) := none
  cryptoPolicy : Option ArtifactCryptoPolicy := none

def ownerKey (cfg : RunConfig β) : SignerOrSecret β :=
  match cfg.ownerSigner with
  | some signer => .signer signer
  | none => .secret cfg.ownerSecret

def outputRef (cfg : RunConfig β) (name uri : String) : ArtifactRef :=
  { name := name, uri := uri, crypto := cfg.cryptoPolicy }

def resolveOutputCrypto (worker : WorkerIdentity) (ref : ArtifactRef) : Py ArtifactRef :=
  match ref.crypto with
  | none => .ok ref
  | some policy =>
    if policy.requiredSigner ≠ some "assigned_hotkey" then .ok ref
    else do
      let crypto ← ArtifactCryptoPolicy.fromDict policy.toDict
      return { ref with crypto := some { crypto with requiredSigner := some worker.hotkeySs58 } }

def param (params : Fields) (k : String) : Json := (field? k params).getD .null

/-- The requirements as the parameters state them; a tensor-parallel job that states none needs
a GPU for each rank. -/
def rawRequirements (params : Fields) : Py Json :=
  let raw := (param params "resource_requirements").orElse (.obj [])
  match raw.truthy, param params "distributed_runner" with
  | false, .str "gpt_tensor_parallel_v1" => do
    let parallelism ← (param params "parallelism").fieldsOrEmpty
    let worldSize ← (((param parallelism "tensor_parallel_size").orElse
      (param params "tp_world_size")).orElse (.int 1)).toInt
    return mkObj [("min_gpus", .int worldSize), ("placement", .str "single_host"),
      ("parallelism", .obj parallelism)]
  | _, _ => .ok raw

def resourceRequirements (params : Fields) : Py ResourceRequirements := do
  ResourceRequirements.fromDict (← rawRequirements params)

structure JobSpec where
  jobId : String
  kind : String
  stepId : ℤ
  graph : Graph
  params : Fields
  inputs : List ArtifactRef
  outputs : List ArtifactRef

def signedManifest (p : Platform β) (cfg : RunConfig β) (bucket : String) (spec : JobSpec)
    (worker : WorkerIdentity) (now deadline : ℤ) (critical : Bool) : Py JobManifestV3 := do
  let requirements ← resourceRequirements spec.params
  let outputs ← spec.outputs.mapM (resolveOutputCrypto worker)
  let sha := spec.graph.graphId p
  return JobManifestV3.sign p
    { jobId := spec.jobId
      runId := cfg.runId
      stepId := spec.stepId
      kind := spec.kind
      graphRef := { sha256 := sha, uri := joinUri bucket (graphKey cfg.netuid cfg.runId sha) }
      params := spec.params
      inputs := spec.inputs
      outputs := outputs
      assignedHotkey := worker.hotkeySs58
      assignedWorker := some worker.workerId
      attempt := 0
      deadlineUnix := deadline
      createdUnix := now
      resourceRequirements := requirements
      verificationPolicy := { critical := critical } }
    (ownerKey cfg)

def manifestUri (cfg : RunConfig β) (bucket jobId : String) : String :=
  joinUri bucket (jobManifestKey cfg.netuid cfg.runId jobId)

def publishGraph (p : Platform β) (cfg : RunConfig β) (b : Bucket β) (graph : Graph) :
    Py (Bucket β) := do
  let uri := b.uriForKey (graphKey cfg.netuid cfg.runId (graph.graphId p))
  if ← b.exists uri then return b
  b.put uri (graph.toCanonicalJson p)

def resolvePolicy (hotkey : String) (policy : ArtifactCryptoPolicy) : ArtifactCryptoPolicy :=
  if policy.requiredSigner = some "assigned_hotkey" then
    { policy with requiredSigner := some hotkey }
  else policy

theorem resolveOutputCrypto_eq (worker : WorkerIdentity) (ref : ArtifactRef) :
    resolveOutputCrypto worker ref =
      .ok { ref with crypto := ref.crypto.map (resolvePolicy worker.hotkeySs58) } := by
  obtain ⟨name, uri, sha256, sizeBytes, crypto⟩ := ref
  cases crypto with
  | none => rfl
  | some policy =>
    by_cases h : policy.requiredSigner = some "assigned_hotkey"
    · simp [resolveOutputCrypto, resolvePolicy, h, cryptoPolicy_fromDict_toDict]
    · simp [resolveOutputCrypto, resolvePolicy, h]

theorem mapM_resolveOutputCrypto (worker : WorkerIdentity) (outputs : List ArtifactRef) :
    outputs.mapM (resolveOutputCrypto worker) = .ok (outputs.map fun ref =>
      { ref with crypto := ref.crypto.map (resolvePolicy worker.hotkeySs58) }) := by
  rw [mapM_eq_ok]
  refine ⟨fun ref _ => ⟨_, resolveOutputCrypto_eq worker ref⟩, ?_⟩
  rw [← List.filterMap_eq_map]
  exact List.filterMap_congr fun ref _ => by rw [resolveOutputCrypto_eq]; rfl

theorem canonical_requirements {x : Json} {r : ResourceRequirements} (hx : Canonical x)
    (h : ResourceRequirements.fromDict x = .ok r) : Canonical (.obj r.parallelism) := by
  simp only [ResourceRequirements.fromDict, bind_eq_ok] at h
  obtain ⟨fields, hfields, _, _, _, _, _, _, _, _, entry, hentry, l, hl, hr⟩ := h
  cases hr
  have hd := canonical_fieldsOrEmpty hx hfields
  exact canonical_fieldsOrEmpty (canonical_get hd .null hentry) hl

theorem resourceRequirements_wellTyped {params : Fields} {r : ResourceRequirements}
    (hparams : Canonical (.obj params)) (h : resourceRequirements params = .ok r) :
    Canonical (.obj r.parallelism) := by
  have hparam (k : String) : Canonical (param params k) := canonical_field hparams
  have hraw : Canonical ((param params "resource_requirements").orElse (.obj [])) := by
    unfold Json.orElse
    split_ifs
    · exact hparam _
    · exact canonical_obj_iff.mpr ⟨List.Pairwise.nil, by simp⟩
  obtain ⟨raw, hchosen, h⟩ := bind_eq_ok.mp h
  refine canonical_requirements ?_ h
  simp only [rawRequirements] at hchosen
  split at hchosen
  · obtain ⟨parallelism, hparallelism, hchosen⟩ := bind_eq_ok.mp hchosen
    obtain ⟨worldSize, -, hchosen⟩ := bind_eq_ok.mp hchosen
    cases hchosen
    apply canonical_mkObj
    simp [canonical_fieldsOrEmpty (hparam _) hparallelism]
  · cases hchosen
    exact hraw

variable {p : Platform β} {cfg : RunConfig β}

theorem signedManifest_eq_ok {bucket : String}
    {spec : JobSpec} {worker : WorkerIdentity} {now deadline : ℤ} {critical : Bool}
    {m : JobManifestV3} (h : signedManifest p cfg bucket spec worker now deadline critical = .ok m) :
    m.jobId = spec.jobId ∧ m.inputs = spec.inputs ∧
    m.outputs = (spec.outputs.map fun ref =>
      { ref with crypto := ref.crypto.map (resolvePolicy worker.hotkeySs58) }) ∧
    (Canonical (.obj spec.params) → WellTypedManifest m) := by
  obtain ⟨requirements, hrequirements, h⟩ := bind_eq_ok.mp h
  obtain ⟨outputs, houtputs, h⟩ := bind_eq_ok.mp h
  rw [mapM_resolveOutputCrypto] at houtputs
  cases houtputs
  cases h
  refine ⟨rfl, rfl, rfl, fun hparams => ⟨hparams, ?_⟩⟩
  exact resourceRequirements_wellTyped hparams hrequirements

theorem signedManifest_assigned {bucket : String}
    {spec : JobSpec} {worker : WorkerIdentity} {now deadline : ℤ} {critical : Bool}
    {m : JobManifestV3} (h : signedManifest p cfg bucket spec worker now deadline critical = .ok m) :
    m.assignedHotkey = worker.hotkeySs58 := by
  obtain ⟨_, -, h⟩ := bind_eq_ok.mp h
  obtain ⟨_, -, h⟩ := bind_eq_ok.mp h
  cases h
  rfl

theorem publishGraph_eq_ok {b b' : Bucket β} {graph : Graph}
    (h : publishGraph p cfg b graph = .ok b') : b'.name = b.name ∧ ∀ jobId,
      b'.objects.find? (manifestUri cfg b.name jobId) =
        b.objects.find? (manifestUri cfg b.name jobId) := by
  obtain ⟨found, -, h⟩ := bind_eq_ok.mp h
  cases found with
  | true =>
    cases h
    exact ⟨rfl, fun _ => rfl⟩
  | false =>
    obtain ⟨-, rfl⟩ := Bucket.put_eq_ok.mp h
    refine ⟨rfl, fun jobId => ?_⟩
    have hne : manifestUri cfg b.name jobId ≠
        b.uriForKey (graphKey cfg.netuid cfg.runId (graph.graphId p)) := by
      intro heq
      have hjob : OnBranch cfg.netuid b.name 'j' (manifestUri cfg b.name jobId) :=
        manifestUri_onBranch _ _ _
      have hgraph : OnBranch cfg.netuid b.name 'r' (manifestUri cfg b.name jobId) :=
        heq ▸ graphUri_onBranch _ _ _
      exact hjob.unique (by decide) hgraph
    rw [SortedDict.find?_insert, if_neg hne]

theorem publishGraph_error {b : Bucket β} {graph : Graph}
    {e : PyErr} (h : publishGraph p cfg b graph = .error e) :
    ∃ message, e = .valueError message := by
  rcases bind_eq_error.mp h with h | ⟨found, -, h⟩
  · exact Bucket.exists_error h
  · cases found with
    | true => cases h
    | false => exact Bucket.put_error h

end JobEmission

import Teuton.JobEmission
import Teuton.KeyedDict

/-! The streaming run manager. An epoch emits the forward jobs of all pipeline stages for every
microbatch and, in training, the backward jobs in reverse and one outer job for each stage,
without waiting in between. References to outputs of the same epoch are copied from the
manifests the manager holds in memory; references to weights are built from their path. -/
namespace StreamEmission

open PyJson Signatures ObjectStore GraphIr Protocol JobEmission

variable {β : Type}

structure StreamingRunConfig (β : Type) extends RunConfig β where
  stressEmit : Bool := false
  stressPinWeightsEpoch : ℤ := 0

structure PipelineStage where
  stageId : ℤ
  forwardGraph : Graph
  backwardGraph : Option Graph := none
  outerGraph : Option Graph := none
  forwardInputNames : List String := []
  forwardOutputNames : List String := []
  weightsInputName : Option String := none
  backwardEmitsDxIn : Bool := true

structure StaticInput where
  name : String
  uri : String
  scope : String

structure StreamingParams where
  nStages : ℤ
  nMicrobatches : ℕ
  commonParams : Fields := []
  forwardParams : Fields := []
  deadlineSeconds : ℤ := 1200
  training : Bool := false
  targetStaticUri : Option String := none
  staticInputs : List StaticInput := []

structure StreamState (β : Type) where
  bucket : Bucket β
  jobs : KeyedDict JobManifestV3.jobId := KeyedDict.empty
  log : List JobManifestV3 := []

section Emitters

variable (p : Platform β) (cfg : StreamingRunConfig β) (params : StreamingParams)

def runPath (cfg : StreamingRunConfig β) : String := "runs/" ++ cfg.runId

def epochWeightsUri (bucket : String) (epoch stageId : ℤ) : String :=
  let effective := if cfg.stressEmit then cfg.stressPinWeightsEpoch else epoch
  joinUri bucket (runPath cfg ++ "/weights/epoch=" ++ toString effective ++ "/stage_" ++
    toString stageId ++ "_W.bin")

def stagePath (epoch stageId : ℤ) : String :=
  runPath cfg ++ "/streaming/epoch=" ++ toString epoch ++ "/stage=" ++ toString stageId

def fwdOutputUri (bucket : String) (epoch stageId : ℤ) (mb : ℕ) (name : String) : String :=
  joinUri bucket (stagePath cfg epoch stageId ++ "/outputs/mb=" ++ toString mb ++ "/" ++ name ++
    ".bin")

def fwdDoneUri (bucket : String) (epoch stageId : ℤ) (mb : ℕ) : String :=
  joinUri bucket (stagePath cfg epoch stageId ++ "/outputs/mb=" ++ toString mb ++ "/done.json")

def bwdOutputUri (bucket : String) (epoch stageId : ℤ) (mb : ℕ) (name : String) : String :=
  joinUri bucket (stagePath cfg epoch stageId ++ "/bwd/mb=" ++ toString mb ++ "/" ++ name ++
    ".bin")

def stageJobId (epoch stageId : ℤ) : String :=
  "j-e" ++ toString epoch ++ "-s" ++ toString stageId

def fwdJobId (epoch stageId : ℤ) (mb : ℕ) : String :=
  stageJobId epoch stageId ++ "-mb" ++ toString mb ++ "-fwd"

def bwdJobId (epoch stageId : ℤ) (mb : ℕ) : String :=
  stageJobId epoch stageId ++ "-mb" ++ toString mb ++ "-bwd"

def outerJobId (epoch stageId : ℤ) : String := stageJobId epoch stageId ++ "-outer"

def weightsName (stage : PipelineStage) : String :=
  match stage.weightsInputName with
  | some name => if name = "" then "W" else name
  | none => "W"

def weightsRef (bucket : String) (epoch : ℤ) (stage : PipelineStage) (name : String) :
    ArtifactRef :=
  { name := name, uri := epochWeightsUri cfg bucket epoch stage.stageId }

def isTail (stage : PipelineStage) : Bool := stage.stageId == params.nStages - 1

def isHead (stage : PipelineStage) : Bool := stage.stageId == 0

def targetRefs (stage : PipelineStage) : List ArtifactRef :=
  match params.targetStaticUri with
  | some uri => if isTail params stage ∧ uri ≠ "" then [{ name := "target", uri := uri }] else []
  | none => []

def staticRefs (stage : PipelineStage) : List ArtifactRef :=
  let head := isHead stage
  let tail := isTail params stage
  (params.staticInputs.filter fun i => i.scope = "all" ∨ i.scope = "head" ∧ head ∨
    i.scope = "tail" ∧ tail ∨ i.scope = "head_and_tail" ∧ (head ∨ tail)).map
    fun i => { name := i.name, uri := i.uri }

/-- The expression `{**common, **own}`; of two entries with one key the later one counts. -/
def mergeParams (common own : Fields) : Fields := mkFields (own ++ common)

variable (worker : WorkerIdentity) (now : ℤ) (s : StreamState β)

def getJob (jobId : String) : Py JobManifestV3 :=
  match s.jobs.get? jobId with
  | some job => .ok job
  | none => .error (.keyError jobId)

def firstOutput (job : JobManifestV3) : Py ArtifactRef :=
  match job.outputs with
  | [] => .error .indexError
  | ref :: _ => .ok ref

def namedOutput (job : JobManifestV3) (name : String) : Py ArtifactRef :=
  match job.outputs.find? fun ref => ref.name = name with
  | some ref => .ok ref
  | none => .error .stopIteration

def renamed (name : String) (ref : ArtifactRef) : ArtifactRef :=
  { name := name, uri := ref.uri, crypto := ref.crypto }

def emitJob (spec : JobSpec) : Py (StreamState β) := do
  let manifest ← signedManifest p cfg.toRunConfig s.bucket.name spec worker now
    (now + params.deadlineSeconds) (spec.kind == "pipe_outer")
  let b ← s.bucket.putJson p (manifestUri cfg.toRunConfig s.bucket.name spec.jobId)
    (manifest.toDict p)
  return ⟨b, s.jobs.set manifest, s.log ++ [manifest]⟩

def upstreamRefs (epoch : ℤ) (mb : ℕ) (stage : PipelineStage) (names : List String) :
    Py (List ArtifactRef) :=
  if isHead stage then .ok []
  else names.mapM fun name => do
    let job ← getJob s (fwdJobId epoch (stage.stageId - 1) mb)
    return renamed name (← firstOutput job)

def forwardWeights (bucket : String) (epoch : ℤ) (stage : PipelineStage) : List ArtifactRef :=
  match stage.weightsInputName with
  | some name =>
    if name ≠ "" ∧ params.training then [weightsRef cfg bucket epoch stage name] else []
  | none => []

def doneOutputs (bucket : String) (epoch : ℤ) (mb : ℕ) (stage : PipelineStage) :
    List ArtifactRef :=
  if isTail params stage then
    let name := if params.training then "loss" else "done"
    [outputRef cfg.toRunConfig name (fwdDoneUri cfg bucket epoch stage.stageId mb)]
  else []

def forwardSpec (epoch : ℤ) (mb : ℕ) (stage : PipelineStage) : Py JobSpec := do
  let sid := stage.stageId
  let bucket := s.bucket.name
  let upstream ← upstreamRefs s epoch mb stage stage.forwardInputNames
  let target := if params.training then targetRefs params stage else []
  return {
    jobId := fwdJobId epoch sid mb
    kind := "pipe_forward"
    stepId := epoch
    graph := stage.forwardGraph
    params := mergeParams (mergeParams params.commonParams params.forwardParams)
      [("epoch", .int epoch), ("stage", .int sid), ("mb", .int mb),
       ("mb_seed", .int (epoch * 10000 + mb))]
    inputs := upstream ++ forwardWeights cfg params bucket epoch stage ++ target ++
      staticRefs params stage
    outputs := (stage.forwardOutputNames.map fun name =>
      outputRef cfg.toRunConfig name (fwdOutputUri cfg bucket epoch sid mb name)) ++
      doneOutputs cfg params bucket epoch mb stage }

def gradientRefs (epoch : ℤ) (mb : ℕ) (stage : PipelineStage) : Py (List ArtifactRef) :=
  if isTail params stage then .ok []
  else do
    let job ← getJob s (bwdJobId epoch (stage.stageId + 1) mb)
    return [renamed "dL_dx_out" (← namedOutput job "dL_dx_in")]

def dxOutputs (bucket : String) (epoch : ℤ) (mb : ℕ) (stage : PipelineStage) : List ArtifactRef :=
  if !isHead stage && stage.backwardEmitsDxIn then
    [outputRef cfg.toRunConfig "dL_dx_in"
      (bwdOutputUri cfg bucket epoch stage.stageId mb "dL_dx_in")]
  else []

def backwardSpec (epoch : ℤ) (mb : ℕ) (stage : PipelineStage) : Py JobSpec := do
  let sid := stage.stageId
  let bucket := s.bucket.name
  let upstream ← upstreamRefs s epoch mb stage ["x_in"]
  let gradient ← gradientRefs params s epoch mb stage
  match stage.backwardGraph with
  | none => .error .attributeError
  | some graph =>
    return {
      jobId := bwdJobId epoch sid mb
      kind := "pipe_backward"
      stepId := epoch
      graph := graph
      params := mergeParams params.commonParams
        [("epoch", .int epoch), ("stage", .int sid), ("mb", .int mb),
         ("mb_seed", .int (epoch * 10000 + mb))]
      inputs := [weightsRef cfg bucket epoch stage (weightsName stage)] ++ upstream ++
        targetRefs params stage ++ staticRefs params stage ++ gradient
      outputs := outputRef cfg.toRunConfig "dW" (bwdOutputUri cfg bucket epoch sid mb "dW") ::
        dxOutputs cfg bucket epoch mb stage }

def weightGradients (epoch : ℤ) (stage : PipelineStage) : Py (List ArtifactRef) :=
  (List.range params.nMicrobatches).mapM fun mb => do
    let job ← getJob s (bwdJobId epoch stage.stageId mb)
    return renamed ("dW_" ++ toString mb) (← namedOutput job "dW")

def outerSpec (epoch : ℤ) (stage : PipelineStage) : Py JobSpec := do
  let sid := stage.stageId
  let bucket := s.bucket.name
  let gradients ← weightGradients params s epoch stage
  match stage.outerGraph with
  | none => .error .attributeError
  | some graph =>
    return {
      jobId := outerJobId epoch sid
      kind := "pipe_outer"
      stepId := epoch
      graph := graph
      params := mergeParams params.commonParams [("epoch", .int epoch), ("stage", .int sid)]
      inputs := weightsRef cfg bucket epoch stage (weightsName stage) :: gradients
      outputs := [outputRef cfg.toRunConfig "W_new"
        (epochWeightsUri cfg bucket (epoch + 1) sid)] }

end Emitters

inductive StreamJob where
  | forward (epoch : ℤ) (mb : ℕ) (stage : PipelineStage)
  | backward (epoch : ℤ) (mb : ℕ) (stage : PipelineStage)
  | outer (epoch : ℤ) (stage : PipelineStage)

def StreamJob.spec (cfg : StreamingRunConfig β) (params : StreamingParams) (s : StreamState β) :
    StreamJob → Py JobSpec
  | .forward epoch mb stage => forwardSpec cfg params s epoch mb stage
  | .backward epoch mb stage => backwardSpec cfg params s epoch mb stage
  | .outer epoch stage => outerSpec cfg params s epoch stage

theorem spec_congr {cfg : StreamingRunConfig β} {params : StreamingParams} {s s' : StreamState β}
    (hname : s.bucket.name = s'.bucket.name) (hjobs : s.jobs = s'.jobs) (e : StreamJob) :
    e.spec cfg params s = e.spec cfg params s' := by
  have hget : getJob s = getJob s' := by
    funext jobId
    rw [getJob, getJob, hjobs]
  cases e with
  | forward epoch mb stage =>
    simp only [StreamJob.spec, forwardSpec, upstreamRefs, hget, hname]
  | backward epoch mb stage =>
    simp only [StreamJob.spec, backwardSpec, upstreamRefs, gradientRefs, hget, hname]
  | outer epoch stage =>
    simp only [StreamJob.spec, outerSpec, weightGradients, hget, hname]

def emit (p : Platform β) (cfg : StreamingRunConfig β) (params : StreamingParams)
    (worker : WorkerIdentity) (now : ℤ) (s : StreamState β) (e : StreamJob) :
    Py (StreamState β) := do
  emitJob p cfg params worker now s (← e.spec cfg params s)

def emitEpoch (stages : List PipelineStage) (params : StreamingParams) (epoch : ℤ)
    (forwardOnly : Bool := false) : List StreamJob :=
  ((List.range params.nMicrobatches).flatMap fun mb => stages.map (.forward epoch mb)) ++
  if forwardOnly || !params.training then []
  else
    ((List.range params.nMicrobatches).flatMap fun mb =>
      (stages.reverse.filter (·.backwardGraph.isSome)).map (.backward epoch mb)) ++
    (stages.filter (·.outerGraph.isSome)).map (.outer epoch)

/-- The graphs that `emit_epoch` stores before it emits a job. -/
def publishGraphs (p : Platform β) (cfg : StreamingRunConfig β) (stages : List PipelineStage)
    (b : Bucket β) : Py (Bucket β) :=
  (stages.flatMap fun stage => [some stage.forwardGraph, stage.backwardGraph,
    stage.outerGraph].filterMap id).foldlM (publishGraph p cfg.toRunConfig) b

theorem publishGraphs_ok {p : Platform β} {cfg : StreamingRunConfig β}
    {stages : List PipelineStage} {b b' : Bucket β} (h : publishGraphs p cfg stages b = .ok b') :
    b'.name = b.name := by
  rw [publishGraphs] at h
  generalize (stages.flatMap fun stage => _) = graphs at h
  induction graphs generalizing b with
  | nil =>
    cases h
    rfl
  | cons graph graphs ih =>
    rw [List.foldlM_cons] at h
    obtain ⟨b₁, hfirst, h⟩ := bind_eq_ok.mp h
    exact (ih h).trans (publishGraph_eq_ok hfirst).1

theorem publishGraphs_error {p : Platform β} {cfg : StreamingRunConfig β}
    {stages : List PipelineStage} {b : Bucket β} {e : PyErr}
    (h : publishGraphs p cfg stages b = .error e) : ∃ message, e = .valueError message := by
  rw [publishGraphs] at h
  generalize (stages.flatMap fun stage => _) = graphs at h
  induction graphs generalizing b with
  | nil => cases h
  | cons graph graphs ih =>
    rw [List.foldlM_cons] at h
    rcases bind_eq_error.mp h with h | ⟨b₁, -, h⟩
    · exact publishGraph_error h
    · exact ih h

def StreamJob.readsWeights (params : StreamingParams) : StreamJob → Option (ℤ × ℤ)
  | .forward epoch _ stage =>
    match stage.weightsInputName with
    | some name => if name ≠ "" ∧ params.training then some (epoch, stage.stageId) else none
    | none => none
  | .backward epoch _ stage => some (epoch, stage.stageId)
  | .outer epoch stage => some (epoch, stage.stageId)

def StreamJob.writesWeights : StreamJob → Option (ℤ × ℤ)
  | .outer epoch stage => some (epoch + 1, stage.stageId)
  | _ => none

def effectiveEpoch (cfg : StreamingRunConfig β) (epoch : ℤ) : ℤ :=
  if cfg.stressEmit then cfg.stressPinWeightsEpoch else epoch

def Rereads (cfg : StreamingRunConfig β) (params : StreamingParams) (d e : StreamJob) : Prop :=
  ∃ w ∈ d.writesWeights, ∃ r ∈ e.readsWeights params,
    effectiveEpoch cfg r.1 = effectiveEpoch cfg w.1 ∧ r.2 = w.2

theorem epochs_reread {stages : List PipelineStage} {params : StreamingParams}
    (htraining : params.training = true) {stage : PipelineStage} (hstage : stage ∈ stages)
    (houter : stage.outerGraph.isSome = true) (cfg : StreamingRunConfig β) (epoch : ℤ) :
    ∃ d e, [d, e].Sublist (emitEpoch stages params epoch ++ emitEpoch stages params (epoch + 1)) ∧
      Rereads cfg params d e := by
  have hmem : ∀ n, StreamJob.outer n stage ∈ emitEpoch stages params n := by
    intro n
    have hfilter : stage ∈ stages.filter (·.outerGraph.isSome) :=
      List.mem_filter.mpr ⟨hstage, houter⟩
    simp only [emitEpoch, htraining, Bool.not_true, Bool.or_false, Bool.false_eq_true, if_false]
    exact List.mem_append_right _ (List.mem_append_right _ (List.mem_map_of_mem hfilter))
  refine ⟨.outer epoch stage, .outer (epoch + 1) stage, ?_, _, rfl, _, rfl, rfl, rfl⟩
  exact (List.singleton_sublist.mpr (hmem epoch)).append (List.singleton_sublist.mpr (hmem _))

section Runs

variable (p : Platform β) (cfg : StreamingRunConfig β) (params : StreamingParams)

/-- The states a streaming manager goes through, with the jobs it has emitted. Workers and clock
readings are arbitrary, the bucket is shared with others (the graphs of an epoch are stored
there, too), and manifests may be dropped from memory. -/
inductive Run : List StreamJob → StreamState β → Prop where
  | start (b : Bucket β) : Run [] { bucket := b }
  | emit {jobs s s'} (e : StreamJob) (worker : WorkerIdentity) (now : ℤ) (earlier : Run jobs s)
      (emitted : emit p cfg params worker now s e = .ok s') : Run (jobs ++ [e]) s'
  | others {jobs s b} (earlier : Run jobs s) (name : b.name = s.bucket.name) :
      Run jobs { s with bucket := b }
  | drop {jobs s} (earlier : Run jobs s) (test : JobManifestV3 → Bool) :
      Run jobs { s with jobs := s.jobs.filter test }

structure Emission (s s' : StreamState β) (hotkey : String) (spec : JobSpec) (m : JobManifestV3) :
    Prop where
  jobs : s'.jobs = s.jobs.set m
  log : s'.log = s.log ++ [m]
  name : s'.bucket.name = s.bucket.name
  jobId : m.jobId = spec.jobId
  inputs : m.inputs = spec.inputs
  outputs : m.outputs = spec.outputs.map fun ref =>
    { ref with crypto := ref.crypto.map (resolvePolicy hotkey) }

variable {p cfg params}

variable {mb : ℕ} {epoch now : ℤ} {job : JobManifestV3} {stage : PipelineStage}
variable {s s' : StreamState β} {worker : WorkerIdentity} {refs : List ArtifactRef}

theorem emission_of_emitJob {spec : JobSpec} (h : emitJob p cfg params worker now s spec = .ok s') :
    ∃ m, Emission s s' worker.hotkeySs58 spec m := by
  obtain ⟨m, hm, h⟩ := bind_eq_ok.mp h
  obtain ⟨b', hput, h⟩ := bind_eq_ok.mp h
  cases h
  obtain ⟨-, rfl⟩ := Bucket.put_eq_ok.mp hput
  obtain ⟨hid, hinputs, houtputs, -⟩ := signedManifest_eq_ok hm
  exact ⟨m, rfl, rfl, rfl, hid, hinputs, houtputs⟩

/-- An input without a policy, or with the policy of an output of a job held in memory. -/
def PlainOrCopied (s : StreamState β) (ref : ArtifactRef) : Prop :=
  ref.crypto = none ∨ ∃ job ∈ s.jobs.vals, ∃ output ∈ job.outputs, ref.crypto = output.crypto

structure Refs (cfg : StreamingRunConfig β) (params : StreamingParams) (s : StreamState β)
    (e : StreamJob) (spec : JobSpec) : Prop where
  outputs : ∀ ref ∈ spec.outputs, ref.crypto = cfg.cryptoPolicy
  inputs : ∀ ref ∈ spec.inputs, PlainOrCopied s ref
  reads : ∀ r ∈ e.readsWeights params, ∃ ref ∈ spec.inputs,
    ref.uri = epochWeightsUri cfg s.bucket.name r.1 r.2 ∧ ref.crypto = none
  writes : ∀ w ∈ e.writesWeights, ∃ ref ∈ spec.outputs,
    ref.uri = epochWeightsUri cfg s.bucket.name w.1 w.2

theorem mem_of_getJob {jobId : String}
    (h : getJob s jobId = .ok job) : job ∈ s.jobs.vals := by
  unfold getJob at h
  split at h
  next job' hget =>
    cases h
    exact (KeyedDict.get?_eq_some.mp hget).1
  · cases h

theorem mem_of_firstOutput {ref : ArtifactRef}
    (h : firstOutput job = .ok ref) : ref ∈ job.outputs := by
  unfold firstOutput at h
  split at h
  · cases h
  next ref' rest houtputs =>
    cases h
    rw [houtputs]
    exact List.mem_cons_self

theorem mem_of_namedOutput {name : String} {ref : ArtifactRef}
    (h : namedOutput job name = .ok ref) : ref ∈ job.outputs := by
  unfold namedOutput at h
  split at h
  next ref' hfind =>
    cases h
    exact List.mem_of_find?_eq_some hfind
  · cases h

theorem upstreamRefs_copied {names : List String}
    (h : upstreamRefs s epoch mb stage names = .ok refs) : ∀ ref ∈ refs, PlainOrCopied s ref := by
  unfold upstreamRefs at h
  split_ifs at h with hhead
  · cases h
    simp
  · obtain ⟨-, rfl⟩ := mapM_eq_ok.mp h
    intro ref href
    obtain ⟨name, -, href⟩ := List.mem_filterMap.mp href
    obtain ⟨job, hjob, href⟩ := bind_eq_ok.mp (toOption_eq_some.mp href)
    obtain ⟨output, houtput, href⟩ := bind_eq_ok.mp href
    cases href
    exact Or.inr ⟨job, mem_of_getJob hjob, output, mem_of_firstOutput houtput, rfl⟩

theorem gradientRefs_copied (h : gradientRefs params s epoch mb stage = .ok refs) :
    ∀ ref ∈ refs, PlainOrCopied s ref := by
  unfold gradientRefs at h
  split_ifs at h with htail
  · cases h
    simp
  · obtain ⟨job, hjob, h⟩ := bind_eq_ok.mp h
    obtain ⟨output, houtput, h⟩ := bind_eq_ok.mp h
    cases h
    intro ref href
    rw [List.mem_singleton.mp href]
    exact Or.inr ⟨job, mem_of_getJob hjob, output, mem_of_namedOutput houtput, rfl⟩

theorem weightGradients_copied (h : weightGradients params s epoch stage = .ok refs) :
    ∀ ref ∈ refs, PlainOrCopied s ref := by
  obtain ⟨-, rfl⟩ := mapM_eq_ok.mp h
  intro ref href
  obtain ⟨mb, -, href⟩ := List.mem_filterMap.mp href
  obtain ⟨job, hjob, href⟩ := bind_eq_ok.mp (toOption_eq_some.mp href)
  obtain ⟨output, houtput, href⟩ := bind_eq_ok.mp href
  cases href
  exact Or.inr ⟨job, mem_of_getJob hjob, output, mem_of_namedOutput houtput, rfl⟩

theorem targetRefs_plain (s : StreamState β) (stage : PipelineStage) :
    ∀ ref ∈ targetRefs params stage, PlainOrCopied s ref := by
  intro ref href
  unfold targetRefs at href
  split at href
  · split_ifs at href
    · rw [List.mem_singleton.mp href]
      exact Or.inl rfl
    · simp at href
  · simp at href

theorem staticRefs_plain (s : StreamState β) (stage : PipelineStage) :
    ∀ ref ∈ staticRefs params stage, PlainOrCopied s ref := by
  intro ref href
  obtain ⟨i, -, rfl⟩ := List.mem_map.mp href
  exact Or.inl rfl

theorem forwardWeights_plain (s : StreamState β) (bucket : String) (epoch : ℤ)
    (stage : PipelineStage) :
    ∀ ref ∈ forwardWeights cfg params bucket epoch stage, PlainOrCopied s ref := by
  intro ref href
  unfold forwardWeights at href
  split at href
  · split_ifs at href
    · rw [List.mem_singleton.mp href]
      exact Or.inl rfl
    · simp at href
  · simp at href

theorem mem_forwardWeights {r : ℤ × ℤ}
    (h : r ∈ (StreamJob.forward epoch mb stage).readsWeights params) (bucket : String) :
    ∃ ref ∈ forwardWeights cfg params bucket epoch stage,
      ref.uri = epochWeightsUri cfg bucket r.1 r.2 ∧ ref.crypto = none := by
  simp only [StreamJob.readsWeights, Option.mem_def] at h
  unfold forwardWeights
  split at h
  · split_ifs at h with hweights
    cases h
    rw [if_pos hweights]
    exact ⟨_, List.mem_singleton_self _, rfl, rfl⟩
  · cases h

theorem doneOutputs_crypto (bucket : String) (epoch : ℤ) (mb : ℕ) (stage : PipelineStage) :
    ∀ ref ∈ doneOutputs cfg params bucket epoch mb stage, ref.crypto = cfg.cryptoPolicy := by
  intro ref href
  unfold doneOutputs at href
  by_cases htail : isTail params stage
  · rw [if_pos htail] at href
    rw [List.mem_singleton.mp href]
    rfl
  · rw [if_neg htail] at href
    simp at href

theorem dxOutputs_crypto (bucket : String) (epoch : ℤ) (mb : ℕ) (stage : PipelineStage) :
    ∀ ref ∈ dxOutputs cfg bucket epoch mb stage, ref.crypto = cfg.cryptoPolicy := by
  intro ref href
  unfold dxOutputs at href
  split_ifs at href
  · rw [List.mem_singleton.mp href]
    rfl
  · simp at href

theorem spec_eq_ok {e : StreamJob} {spec : JobSpec}
    (h : e.spec cfg params s = .ok spec) : Refs cfg params s e spec := by
  cases e with
  | forward epoch mb stage =>
    obtain ⟨upstream, hupstream, h⟩ := bind_eq_ok.mp h
    cases h
    refine ⟨?_, ?_, ?_, fun w hw => nomatch hw⟩
    · intro ref href
      rcases List.mem_append.mp href with href | href
      · obtain ⟨name, -, rfl⟩ := List.mem_map.mp href
        rfl
      · exact doneOutputs_crypto _ epoch mb stage ref href
    · intro ref href
      simp only [List.mem_append] at href
      rcases href with ((href | href) | href) | href
      · exact upstreamRefs_copied hupstream ref href
      · exact forwardWeights_plain s _ epoch stage ref href
      · split_ifs at href
        · exact targetRefs_plain s stage ref href
        · simp at href
      · exact staticRefs_plain s stage ref href
    · intro r hr
      obtain ⟨ref, href, huri, hcrypto⟩ := mem_forwardWeights hr s.bucket.name
      exact ⟨ref, by simp [href], huri, hcrypto⟩
  | backward epoch mb stage =>
    obtain ⟨upstream, hupstream, h⟩ := bind_eq_ok.mp h
    obtain ⟨gradient, hgradient, h⟩ := bind_eq_ok.mp h
    split at h
    · cases h
    cases h
    refine ⟨?_, ?_, ?_, fun w hw => nomatch hw⟩
    · intro ref href
      rcases List.mem_cons.mp href with rfl | href
      · rfl
      · exact dxOutputs_crypto _ epoch mb stage ref href
    · intro ref href
      simp only [List.mem_append] at href
      rcases href with (((href | href) | href) | href) | href
      · rw [List.mem_singleton.mp href]
        exact Or.inl rfl
      · exact upstreamRefs_copied hupstream ref href
      · exact targetRefs_plain s stage ref href
      · exact staticRefs_plain s stage ref href
      · exact gradientRefs_copied hgradient ref href
    · intro r hr
      cases hr
      exact ⟨weightsRef cfg s.bucket.name epoch stage (weightsName stage), by simp, rfl, rfl⟩
  | outer epoch stage =>
    obtain ⟨gradients, hgradients, h⟩ := bind_eq_ok.mp h
    split at h
    · cases h
    cases h
    refine ⟨?_, ?_, ?_, ?_⟩
    · intro ref href
      rw [List.mem_singleton.mp href]
      rfl
    · intro ref href
      rcases List.mem_cons.mp href with rfl | href
      · exact Or.inl rfl
      · exact weightGradients_copied hgradients ref href
    · intro r hr
      cases hr
      exact ⟨weightsRef cfg s.bucket.name epoch stage (weightsName stage), by simp, rfl, rfl⟩
    · intro w hw
      cases hw
      exact ⟨_, List.mem_singleton_self _, rfl⟩

theorem emit_eq_ok {e : StreamJob}
    (h : emit p cfg params worker now s e = .ok s') :
    ∃ spec m, Refs cfg params s e spec ∧ Emission s s' worker.hotkeySs58 spec m := by
  obtain ⟨spec, hspec, h⟩ := bind_eq_ok.mp h
  obtain ⟨m, hm⟩ := emission_of_emitJob h
  exact ⟨spec, m, spec_eq_ok hspec, hm⟩

def emitAll (p : Platform β) (cfg : StreamingRunConfig β) (params : StreamingParams)
    (worker : WorkerIdentity) (now : ℤ) (jobs : List StreamJob) (s : StreamState β) :
    Py (StreamState β) :=
  jobs.foldlM (emit p cfg params worker now) s

theorem run_of_emitAll {jobs more : List StreamJob}
    (hs : Run p cfg params jobs s)
    (h : emitAll p cfg params worker now more s = .ok s') : Run p cfg params (jobs ++ more) s' := by
  induction more generalizing jobs s with
  | nil =>
    cases h
    rw [List.append_nil]
    exact hs
  | cons e more ih =>
    rw [emitAll, List.foldlM_cons] at h
    obtain ⟨s₁, hemit, h⟩ := bind_eq_ok.mp h
    have hnext := ih (.emit e worker now hs hemit) h
    rw [List.append_assoc] at hnext
    exact hnext

end Runs

end StreamEmission

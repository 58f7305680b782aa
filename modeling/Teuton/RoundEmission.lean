import Mathlib.Data.List.Infix
import Teuton.JobEmission

/-! The run manager of round-based tasks. A step emits a forward job, the inner jobs of every
replica, one reduce and one outer job for each block, and an evaluation. The jobs refer to the
outputs of earlier jobs, which the manager looks up in the manifests it has stored. Everything
else in the bucket is written by others while the manager waits. -/
namespace RoundEmission

open PyJson Signatures ObjectStore BucketPaths GraphIr Protocol ProtocolRoundTrip JobEmission

variable {β : Type}

structure RoundTask where
  nUb : ℕ
  innerReplicas : ℕ
  forward : Graph
  inner : Graph
  outer : Graph
  eval : Graph
  buildReduceGraph : ℕ → Graph

structure RunState (β : Type) where
  bucket : Bucket β
  jobs : List JobManifestV3 := []

def RunState.emitted (s : RunState β) : List String := s.jobs.map JobManifestV3.jobId

section Emitters

variable (p : Platform β) (cfg : RunConfig β) (task : RoundTask)

def loadJob (b : Bucket β) (jobId : String) : Py JobManifestV3 := do
  JobManifestV3.fromDict (← b.getJson p (manifestUri cfg b.name jobId))

def weightRef (bucket name : String) (step : ℤ) (ub : ℕ) : ArtifactRef :=
  { name := name
    uri := joinUri bucket (weightsKey cfg.netuid cfg.runId step ub)
    crypto := if 0 < step then cfg.cryptoPolicy else none }

variable (worker : WorkerIdentity) (now : ℤ) (s : RunState β)

def emitJob (spec : JobSpec) : Py (RunState β) := do
  let b ← publishGraph p cfg s.bucket spec.graph
  let manifest ← signedManifest p cfg b.name spec worker now (now + 600)
    (spec.kind == "outer_step")
  let b ← b.putJson p (manifestUri cfg b.name spec.jobId) (manifest.toDict p)
  return ⟨b, s.jobs ++ [manifest]⟩

def artifactUri (jobId name : String) : String :=
  s.bucket.uriForKey
    (artifactKey cfg.netuid cfg.runId jobId worker.hotkeySs58 worker.workerId 0 name)

def stepId (step : ℤ) : String := "step" ++ toString step

def ubId (step : ℤ) (ub : ℕ) : String := stepId step ++ "-ub" ++ toString ub

def forwardSpec (step : ℤ) : JobSpec where
  jobId := stepId step ++ "-forward_pass"
  kind := "forward_pass"
  stepId := step
  graph := task.forward
  params := [("round_id", .int step)]
  inputs := (List.range task.nUb).map fun ub =>
    weightRef cfg s.bucket.name ("weights_" ++ toString ub) step ub
  outputs := (List.range task.nUb).map fun ub =>
    outputRef cfg ("target_" ++ toString ub)
      (s.bucket.uriForKey (targetKey cfg.netuid cfg.runId step ub))

def innerSpec (step : ℤ) (ub replica : ℕ) : Py JobSpec := do
  let jobId := ubId step ub ++ "-inner-r" ++ toString replica
  let forwardJob ← loadJob p cfg s.bucket (stepId step ++ "-forward_pass")
  match forwardJob.outputs[ub]? with
  | none => .error .indexError
  | some target =>
    return {
      jobId := jobId
      kind := "inner_step"
      stepId := step
      graph := task.inner
      params := mkFields [("ub", .int ub), ("replica", .int replica)]
      inputs := [weightRef cfg s.bucket.name "weights" step ub,
        { name := "target", uri := target.uri, crypto := target.crypto }]
      outputs := [outputRef cfg "delta" (artifactUri cfg worker s jobId "delta")] }

/-- The outputs of the inner jobs of a block, read back from their manifests. -/
def loadDeltas (step : ℤ) (ub : ℕ) : Py (List ArtifactRef) := do
  let ids := s.emitted.filter fun id => (ubId step ub ++ "-inner").toList <:+: id.toList
  let manifests ← ids.mapM (loadJob p cfg s.bucket)
  return manifests.flatMap JobManifestV3.outputs

def reduceSpec (step : ℤ) (ub : ℕ) : Py JobSpec := do
  let deltas ← loadDeltas p cfg s step ub
  let jobId := ubId step ub ++ "-reduce"
  return {
    jobId := jobId
    kind := "reduce"
    stepId := step
    graph := task.buildReduceGraph deltas.length
    params := mkFields [("ub", .int ub), ("n_inputs", .int deltas.length)]
    inputs := deltas.zipIdx.map fun (ref, i) =>
      { name := "d_" ++ toString i, uri := ref.uri, crypto := ref.crypto }
    outputs := [outputRef cfg "reduced" (artifactUri cfg worker s jobId "reduced")] }

def outerSpec (step : ℤ) (ub : ℕ) : Py JobSpec := do
  let reduceJob ← loadJob p cfg s.bucket (ubId step ub ++ "-reduce")
  match reduceJob.outputs[0]? with
  | none => .error .indexError
  | some reduced =>
    return {
      jobId := ubId step ub ++ "-outer"
      kind := "outer_step"
      stepId := step
      graph := task.outer
      params := [("ub", .int ub)]
      inputs := [weightRef cfg s.bucket.name "weights" step ub,
        { name := "reduced_delta", uri := reduced.uri }]
      outputs := [outputRef cfg "new_weights"
        (s.bucket.uriForKey (weightsKey cfg.netuid cfg.runId (step + 1) ub))] }

def evalSpec (step : ℤ) : JobSpec where
  jobId := stepId step ++ "-eval"
  kind := "eval"
  stepId := step
  graph := task.eval
  params := [("round_id", .int (step + 1))]
  inputs := (List.range task.nUb).map fun ub =>
    weightRef cfg s.bucket.name ("weights_" ++ toString ub) (step + 1) ub
  outputs := [outputRef cfg "metrics" (s.bucket.uriForKey
    (runRoot cfg.netuid cfg.runId ++ "/metrics/step=" ++ toString step ++ ".json"))]

end Emitters

inductive RoundJob where
  | forward (step : ℤ)
  | inner (step : ℤ) (ub replica : ℕ)
  | reduce (step : ℤ) (ub : ℕ)
  | outer (step : ℤ) (ub : ℕ)
  | eval (step : ℤ)
  deriving DecidableEq, Repr

def RoundJob.spec (p : Platform β) (cfg : RunConfig β) (task : RoundTask)
    (worker : WorkerIdentity) (s : RunState β) : RoundJob → Py JobSpec
  | .forward step => .ok (forwardSpec cfg task s step)
  | .inner step ub replica => innerSpec p cfg task worker s step ub replica
  | .reduce step ub => reduceSpec p cfg task worker s step ub
  | .outer step ub => outerSpec p cfg task s step ub
  | .eval step => .ok (evalSpec cfg task s step)

def emit (p : Platform β) (cfg : RunConfig β) (task : RoundTask) (worker : WorkerIdentity)
    (now : ℤ) (s : RunState β) (e : RoundJob) : Py (RunState β) := do
  emitJob p cfg worker now s (← e.spec p cfg task worker s)

def runStep (task : RoundTask) (step : ℤ) : List RoundJob :=
  [.forward step] ++
  ((List.range task.nUb).flatMap fun ub => (List.range task.innerReplicas).map (.inner step ub)) ++
  (List.range task.nUb).map (.reduce step) ++
  (List.range task.nUb).map (.outer step) ++
  [.eval step]

def RoundJob.jobId : RoundJob → String
  | .forward step => stepId step ++ "-forward_pass"
  | .inner step ub replica => ubId step ub ++ "-inner-r" ++ toString replica
  | .reduce step ub => ubId step ub ++ "-reduce"
  | .outer step ub => ubId step ub ++ "-outer"
  | .eval step => stepId step ++ "-eval"

def RoundJob.needs : RoundJob → List RoundJob
  | .inner step _ _ => [.forward step]
  | .outer step ub => [.reduce step ub]
  | _ => []

def Ordered (jobs : List RoundJob) : Prop :=
  ∀ before e after, jobs = before ++ e :: after → ∀ d ∈ e.needs, d ∈ before

theorem ordered_nil : Ordered [] := by
  intro before e after h
  simp at h

theorem Ordered.append {l m : List RoundJob} (hl : Ordered l)
    (hm : ∀ before e after, m = before ++ e :: after → ∀ d ∈ e.needs, d ∈ l ++ before) :
    Ordered (l ++ m) := by
  intro before e after h d hd
  rcases List.append_eq_append_iff.mp h with ⟨rest, hbefore, hrest⟩ | ⟨rest, hl', hrest⟩
  · exact hbefore ▸ hm rest e after hrest d hd
  · cases rest with
    | nil =>
      rw [List.append_nil] at hl'
      rw [List.nil_append] at hrest
      subst hl'
      simpa using hm [] e after hrest.symm d hd
    | cons x rest =>
      obtain ⟨rfl, -⟩ := List.cons.inj hrest
      exact hl before e rest hl' d hd

theorem Ordered.append_of_needs {l m : List RoundJob} (hl : Ordered l)
    (hm : ∀ e ∈ m, ∀ d ∈ e.needs, d ∈ l) : Ordered (l ++ m) := by
  refine hl.append fun before e after h d hd => ?_
  exact List.mem_append_left _ (hm e (h ▸ by simp) d hd)

theorem Ordered.append_ordered {l m : List RoundJob} (hl : Ordered l) (hm : Ordered m) :
    Ordered (l ++ m) :=
  hl.append fun before e after h d hd => List.mem_append_right _ (hm before e after h d hd)

theorem Ordered.initial {l m : List RoundJob} (hm : Ordered m) (h : l <+: m) : Ordered l := by
  obtain ⟨rest, rfl⟩ := h
  intro before e after hl d hd
  exact hm before e (after ++ rest) (by simp [hl]) d hd

theorem ordered_runStep (task : RoundTask) (step : ℤ) : Ordered (runStep task step) := by
  unfold runStep
  refine ((((ordered_nil.append_of_needs ?_).append_of_needs ?_).append_of_needs ?_).append_of_needs
    ?_).append_of_needs ?_
  · simp [RoundJob.needs]
  · intro e he d hd
    simp only [List.mem_flatMap, List.mem_map] at he
    obtain ⟨ub, -, replica, -, rfl⟩ := he
    simpa [RoundJob.needs] using hd
  · intro e he d hd
    obtain ⟨ub, -, rfl⟩ := List.mem_map.mp he
    simp [RoundJob.needs] at hd
  · intro e he d hd
    obtain ⟨ub, hub, rfl⟩ := List.mem_map.mp he
    obtain rfl : d = .reduce step ub := by simpa [RoundJob.needs] using hd
    exact List.mem_append_right _ (List.mem_map_of_mem hub)
  · simp [RoundJob.needs]

def steps (task : RoundTask) (start : ℤ) (n : ℕ) : List RoundJob :=
  (List.range n).flatMap fun i => runStep task (start + i)

theorem ordered_steps (task : RoundTask) (start : ℤ) (n : ℕ) : Ordered (steps task start n) := by
  unfold steps
  induction List.range n with
  | nil => exact ordered_nil
  | cons i l ih => exact (ordered_runStep task (start + i)).append_ordered ih

section Runs

variable (p : Platform β) (cfg : RunConfig β) (task : RoundTask)

/-- What others do to the bucket: they leave the manifests of the run as they are. -/
structure KeepsManifests (s : RunState β) (b : Bucket β) : Prop where
  name : b.name = s.bucket.name
  manifests : ∀ job ∈ s.jobs, b.objects.find? (manifestUri cfg s.bucket.name job.jobId) =
    s.bucket.objects.find? (manifestUri cfg s.bucket.name job.jobId)

/-- The states a manager goes through, with the jobs it has emitted. Workers and clock readings
are arbitrary. -/
inductive Run : List RoundJob → RunState β → Prop where
  | start (b : Bucket β) : Run [] ⟨b, []⟩
  | emit {jobs s s'} (e : RoundJob) (worker : WorkerIdentity) (now : ℤ) (earlier : Run jobs s)
      (emitted : emit p cfg task worker now s e = .ok s') : Run (jobs ++ [e]) s'
  | others {jobs s b} (earlier : Run jobs s) (keeps : KeepsManifests cfg s b) :
      Run jobs { s with bucket := b }

structure Emission (s s' : RunState β) (hotkey : String) (spec : JobSpec) (m : JobManifestV3) :
    Prop where
  jobs : s'.jobs = s.jobs ++ [m]
  name : s'.bucket.name = s.bucket.name
  jobId : m.jobId = spec.jobId
  inputs : m.inputs = spec.inputs
  outputs : m.outputs = spec.outputs.map fun ref =>
    { ref with crypto := ref.crypto.map (resolvePolicy hotkey) }
  loaded : loadJob p cfg s'.bucket spec.jobId = .ok m
  others : ∀ jobId, loadJob p cfg s'.bucket jobId = .ok m ∨
    loadJob p cfg s'.bucket jobId = loadJob p cfg s.bucket jobId

variable {p cfg task}

variable {now : ℤ} {spec : JobSpec} {b : Bucket β} {s s' : RunState β} {worker : WorkerIdentity}

theorem loadJob_congr {b' : Bucket β} {jobId : String} (hname : b'.name = b.name)
    (h : b'.objects.find? (manifestUri cfg b.name jobId) =
      b.objects.find? (manifestUri cfg b.name jobId)) :
    loadJob p cfg b' jobId = loadJob p cfg b jobId := by
  unfold loadJob Bucket.getJson
  rw [hname, Bucket.get_congr h]

theorem loadJob_stored (hp : p.Lawful) {jobId : String} {m : JobManifestV3}
    (hm : WellTypedManifest m)
    (h : b.get (manifestUri cfg b.name jobId) = .ok (p.dumps (m.toDict p))) :
    loadJob p cfg b jobId = .ok m := by
  have hc : Canonical (m.toDict p) := (canonical_signed (manifest_unsignedFields_canonical hm)
    (by simp)).1
  rw [loadJob, Bucket.getJson, h, ok_bind, hp.loads_dumps _ hc, ok_bind, manifest_fromDict_toDict]

theorem emission_of_emitJob (hp : p.Lawful)
    (hparams : Canonical (.obj spec.params))
    (h : emitJob p cfg worker now s spec = .ok s') :
    ∃ m, Emission p cfg s s' worker.hotkeySs58 spec m := by
  obtain ⟨b, hgraph, h⟩ := bind_eq_ok.mp h
  obtain ⟨m, hm, h⟩ := bind_eq_ok.mp h
  obtain ⟨b', hput, h⟩ := bind_eq_ok.mp h
  cases h
  obtain ⟨hname, hkept⟩ := publishGraph_eq_ok hgraph
  obtain ⟨hid, hinputs, houtputs, htyped⟩ := signedManifest_eq_ok hm
  obtain ⟨hvalid, rfl⟩ := Bucket.put_eq_ok.mp hput
  refine ⟨m, rfl, hname, hid, hinputs, houtputs, ?_, fun jobId => ?_⟩
  · refine loadJob_stored hp (htyped hparams) (Bucket.get_eq_ok.mpr ⟨hvalid, ?_⟩)
    exact (SortedDict.find?_insert _ _ _ _).trans (if_pos rfl)
  · by_cases heq : manifestUri cfg b.name jobId = manifestUri cfg b.name spec.jobId
    · left
      refine loadJob_stored hp (htyped hparams) (Bucket.get_eq_ok.mpr ⟨heq ▸ hvalid, ?_⟩)
      exact (SortedDict.find?_insert _ _ _ _).trans (if_pos heq)
    · right
      refine loadJob_congr hname ?_
      rw [SortedDict.find?_insert, ← hname, if_neg heq, hname]
      exact hkept jobId

/-- Every manifest of the run can be loaded, possibly replaced by a later one. -/
def Stored (p : Platform β) (cfg : RunConfig β) (s : RunState β) : Prop :=
  ∀ job ∈ s.jobs, ∃ job' ∈ s.jobs, loadJob p cfg s.bucket job.jobId = .ok job'

theorem Emission.stored {hotkey : String}
    {m : JobManifestV3} (h : Emission p cfg s s' hotkey spec m) (hs : Stored p cfg s) :
    Stored p cfg s' := by
  intro job hjob
  rw [h.jobs] at hjob ⊢
  rcases List.mem_append.mp hjob with hjob | hjob
  · rcases h.others job.jobId with hload | hload
    · exact ⟨m, by simp, hload⟩
    · obtain ⟨job', hjob', hload'⟩ := hs job hjob
      exact ⟨job', List.mem_append_left _ hjob', hload.trans hload'⟩
  · rw [List.mem_singleton.mp hjob]
    exact ⟨m, by simp, h.jobId ▸ h.loaded⟩

theorem KeepsManifests.stored (h : KeepsManifests cfg s b)
    (hs : Stored p cfg s) : Stored p cfg { s with bucket := b } := by
  intro job hjob
  obtain ⟨job', hjob', hload⟩ := hs job hjob
  exact ⟨job', hjob', (loadJob_congr h.name (h.manifests job hjob)).trans hload⟩

def Loads (p : Platform β) (cfg : RunConfig β) (s : RunState β) (e : RoundJob)
    (job : JobManifestV3) : Prop :=
  ∃ jobId, (jobId ∈ s.emitted ∨ jobId ∈ e.needs.map RoundJob.jobId) ∧
    loadJob p cfg s.bucket jobId = .ok job

/-- The references of a job: outputs carry the configured policy, inputs none, the configured
one, or the one of an output of a manifest that was loaded. -/
structure Refs (p : Platform β) (cfg : RunConfig β) (s : RunState β) (e : RoundJob)
    (spec : JobSpec) : Prop where
  jobId : spec.jobId = e.jobId
  params : Canonical (.obj spec.params)
  outputs : ∀ ref ∈ spec.outputs, ref.crypto = cfg.cryptoPolicy
  inputs : ∀ ref ∈ spec.inputs, ref.crypto = none ∨ ref.crypto = cfg.cryptoPolicy ∨
    ∃ job, Loads p cfg s e job ∧ ∃ output ∈ job.outputs, ref.crypto = output.crypto

theorem weightRef_crypto (bucket name : String) (step : ℤ) (ub : ℕ) :
    (weightRef cfg bucket name step ub).crypto = none ∨
      (weightRef cfg bucket name step ub).crypto = cfg.cryptoPolicy := by
  unfold weightRef
  by_cases h : 0 < step
  · exact Or.inr (if_pos h)
  · exact Or.inl (if_neg h)

theorem canonical_params (l : Fields) (h : CanonicalFields l) : Canonical (.obj (mkFields l)) :=
  canonical_mkObj h

theorem spec_eq_ok {e : RoundJob}
    (h : e.spec p cfg task worker s = .ok spec) : Refs p cfg s e spec := by
  have hweights {bucket name : String} {step : ℤ} {ub : ℕ} {P : Prop} :
      (weightRef cfg bucket name step ub).crypto = none ∨
      (weightRef cfg bucket name step ub).crypto = cfg.cryptoPolicy ∨ P :=
    (weightRef_crypto bucket name step ub).imp_right Or.inl
  cases e with
  | forward step =>
    cases h
    refine ⟨rfl, canonical_params [_] (by simp), ?_, ?_⟩
    · simp [forwardSpec, outputRef]
    · intro ref href
      obtain ⟨ub, -, rfl⟩ := List.mem_map.mp href
      exact hweights
  | inner step ub replica =>
    obtain ⟨forwardJob, hload, h⟩ := bind_eq_ok.mp h
    split at h
    · cases h
    next target htarget =>
    cases h
    refine ⟨rfl, canonical_params _ (by simp), ?_, ?_⟩
    · simp [outputRef]
    · intro ref href
      simp only [List.mem_cons, List.not_mem_nil, or_false] at href
      rcases href with rfl | rfl
      · exact hweights
      · refine Or.inr (Or.inr ⟨forwardJob, ⟨_, Or.inr ?_, hload⟩, target, ?_, rfl⟩)
        · exact List.mem_map.mpr ⟨.forward step, by simp [RoundJob.needs], rfl⟩
        · exact List.mem_of_getElem? htarget
  | reduce step ub =>
    obtain ⟨deltas, hdeltas, h⟩ := bind_eq_ok.mp h
    obtain ⟨manifests, hmanifests, hdeltas⟩ := bind_eq_ok.mp hdeltas
    cases hdeltas
    cases h
    refine ⟨rfl, canonical_params _ (by simp), ?_, ?_⟩
    · simp [outputRef]
    · intro ref href
      obtain ⟨⟨delta, i⟩, hindexed, rfl⟩ := List.mem_map.mp href
      obtain ⟨job, hjob, hdelta⟩ := List.mem_flatMap.mp (List.fst_mem_of_mem_zipIdx hindexed)
      obtain ⟨-, rfl⟩ := mapM_eq_ok.mp hmanifests
      obtain ⟨jobId, hjobId, hload⟩ := List.mem_filterMap.mp hjob
      exact Or.inr (Or.inr ⟨job, ⟨jobId, Or.inl (List.mem_filter.mp hjobId).1,
        toOption_eq_some.mp hload⟩, delta, hdelta, rfl⟩)
  | outer step ub =>
    obtain ⟨reduceJob, hload, h⟩ := bind_eq_ok.mp h
    split at h
    · cases h
    next reduced hreduced =>
    cases h
    refine ⟨rfl, canonical_params [_] (by simp), ?_, ?_⟩
    · simp [outputRef]
    · intro ref href
      simp only [List.mem_cons, List.not_mem_nil, or_false] at href
      rcases href with rfl | rfl
      · exact hweights
      · exact Or.inl rfl
  | eval step =>
    cases h
    refine ⟨rfl, canonical_params [_] (by simp), ?_, ?_⟩
    · simp [evalSpec, outputRef]
    · intro ref href
      obtain ⟨ub, -, rfl⟩ := List.mem_map.mp href
      exact hweights

theorem emit_eq_ok (hp : p.Lawful)
    {e : RoundJob} (h : emit p cfg task worker now s e = .ok s') :
    ∃ spec m, Refs p cfg s e spec ∧ Emission p cfg s s' worker.hotkeySs58 spec m := by
  obtain ⟨spec, hspec, h⟩ := bind_eq_ok.mp h
  have hrefs := spec_eq_ok hspec
  obtain ⟨m, hm⟩ := emission_of_emitJob hp hrefs.params h
  exact ⟨spec, m, hrefs, hm⟩

theorem emitOuter_eq_ok (hp : p.Lawful)
    {step : ℤ} {ub : ℕ} (h : emit p cfg task worker now s (.outer step ub) = .ok s') :
    ∃ job m, loadJob p cfg s.bucket (RoundJob.reduce step ub).jobId = .ok job ∧
      s'.jobs = s.jobs ++ [m] ∧ ∃ output ∈ job.outputs, ∃ input ∈ m.inputs,
        input.uri = output.uri ∧ input.crypto = none := by
  obtain ⟨spec, hspec, h⟩ := bind_eq_ok.mp h
  obtain ⟨m, hm⟩ := emission_of_emitJob hp (spec_eq_ok hspec).params h
  obtain ⟨reduceJob, hload, hspec⟩ := bind_eq_ok.mp hspec
  split at hspec
  · cases hspec
  next reduced hreduced =>
  cases hspec
  refine ⟨reduceJob, m, hload, hm.jobs, reduced, List.mem_of_getElem? hreduced, ?_⟩
  rw [hm.inputs]
  exact ⟨_, List.mem_cons_of_mem _ List.mem_cons_self, rfl, rfl⟩

end Runs

end RoundEmission

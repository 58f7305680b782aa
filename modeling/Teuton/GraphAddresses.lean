import Teuton.ExecutionSteps
import Teuton.JsonBytes
import Teuton.ScoreWindows

/-! Content addresses of graphs. The address is computed from the graph that was read, not from
the bytes that were stored, so it identifies a graph because writing and reading a graph are
inverse. Executors and auditors keep the graphs they have read, under the address that was
checked when they were read. -/
namespace GraphIr

open PyJson Signatures ObjectStore Protocol JobExecution ExecutionSteps

variable {β σ τ : Type}

/-- The dictionaries of the graph are JSON values with string keys, each represented by its
fields in key order. -/
structure Graph.Normal (g : Graph) : Prop where
  args : ∀ op ∈ g.ops, ∀ a ∈ op.args, Canonical (.obj a)
  kwargs : ∀ op ∈ g.ops, Canonical (.obj op.kwargs)
  refs : ∀ o ∈ g.outputs, Canonical (.obj o.ref)

section Records

@[simp] theorem tensorSpec_fromDict_toDict (t : TensorSpec) :
    TensorSpec.fromDict t.toDict = .ok t := by
  simp [TensorSpec.fromDict, TensorSpec.toDict, -List.mapM_map]

@[simp] theorem mapM_tensorSpec (l : List TensorSpec) :
    (l.map TensorSpec.toDict).mapM TensorSpec.fromDict = .ok l :=
  mapM_ok fun t _ => tensorSpec_fromDict_toDict t

@[simp] theorem paramSpec_fromDict_toDict (s : ParamSpec) :
    ParamSpec.fromDict s.toDict = .ok s := by
  simp [ParamSpec.fromDict, ParamSpec.toDict]

@[simp] theorem mapM_toFields (l : List Fields) : (l.map Json.obj).mapM Json.toFields = .ok l :=
  mapM_ok fun _ _ => rfl

@[simp] theorem op_fromDict_toDict (o : Op) : Op.fromDict o.toDict = .ok o := by
  simp [Op.fromDict, Op.toDict, -List.mapM_map]

@[simp] theorem graphOutput_fromDict_toDict (o : GraphOutput) :
    GraphOutput.fromDict o.toDict = .ok o := by
  simp [GraphOutput.fromDict, GraphOutput.toDict, Json.toFields]

theorem graph_fromDict_toDict (g : Graph) : Graph.fromDict g.toDict = .ok g := by
  have hparams : (g.params.map ParamSpec.toDict).mapM ParamSpec.fromDict = .ok g.params :=
    mapM_ok fun s _ => paramSpec_fromDict_toDict s
  have houtputs : (g.outputs.map GraphOutput.toDict).mapM GraphOutput.fromDict = .ok g.outputs :=
    mapM_ok fun o _ => graphOutput_fromDict_toDict o
  have hops : (g.ops.map Op.toDict).mapM Op.fromDict = .ok g.ops :=
    mapM_ok fun o _ => op_fromDict_toDict o
  simp [Graph.fromDict, Graph.toDict, hparams, houtputs, hops, -List.mapM_map]

theorem canonical_tensorSpec (t : TensorSpec) : Canonical t.toDict := by
  apply canonical_mkObj
  simp

theorem canonical_paramSpec (s : ParamSpec) : Canonical s.toDict := by
  apply canonical_mkObj
  simp

theorem canonical_op {o : Op} (hargs : ∀ a ∈ o.args, Canonical (.obj a))
    (hkwargs : Canonical (.obj o.kwargs)) : Canonical o.toDict := by
  apply canonical_mkObj
  simpa [hkwargs, canonical_tensorSpec] using hargs

theorem Graph.Normal.canonical {g : Graph} (h : g.Normal) : Canonical g.toDict := by
  have houtputs : ∀ o ∈ g.outputs, Canonical o.toDict := by
    intro o ho
    apply canonical_mkObj
    simpa using h.refs o ho
  have hops : ∀ o ∈ g.ops, Canonical o.toDict := fun o ho =>
    canonical_op (h.args o ho) (h.kwargs o ho)
  apply canonical_mkObj
  simpa [canonical_tensorSpec, canonical_paramSpec] using ⟨houtputs, hops⟩

theorem canonical_listed {d x : Json} {k : String} {l : List Json} (hd : Canonical d)
    (hx : d.get k (.arr []) = .ok x) (hl : x.toList = .ok l) : ∀ y ∈ l, Canonical y :=
  canonical_toList (canonical_get hd (canonical_arr_iff.mpr (by simp)) hx) hl

theorem op_of_fromDict {d : Json} {o : Op} (hd : Canonical d) (h : Op.fromDict d = .ok o) :
    (∀ a ∈ o.args, Canonical (.obj a)) ∧ Canonical (.obj o.kwargs) := by
  simp only [Op.fromDict, bind_eq_ok, pure_eq_ok] at h
  obtain ⟨_, -, _, -, _, -, _, -, x, hx, items, hitems, args, hargs, y, hy, kwargs, hkwargs, _, -,
    _, -, _, -, rfl⟩ := h
  constructor
  · intro a ha
    obtain ⟨item, hitem, hfields⟩ := exists_item_of_mapM hargs ha
    exact canonical_toFields (canonical_listed hd hx hitems item hitem) hfields
  · exact canonical_fieldsOrEmpty (canonical_get hd .null hy) hkwargs

theorem ref_of_fromDict {d : Json} {o : GraphOutput} (hd : Canonical d)
    (h : GraphOutput.fromDict d = .ok o) : Canonical (.obj o.ref) := by
  simp only [GraphOutput.fromDict, bind_eq_ok, pure_eq_ok] at h
  obtain ⟨_, -, _, -, x, hx, fields, hfields, rfl⟩ := h
  exact canonical_toFields (canonical_getItem hd hx) hfields

theorem normal_of_fromDict {d : Json} {g : Graph} (hd : Canonical d)
    (h : Graph.fromDict d = .ok g) : g.Normal := by
  simp only [Graph.fromDict, bind_eq_ok, pure_eq_ok] at h
  obtain ⟨_, -, _, -, _, -, _, -, _, -, x, hx, outs, houts, outputs, houtputs, _, -, _, -, _, -, y,
    hy, items, hitems, ops, hops, rfl⟩ := h
  have hop : ∀ o ∈ ops, (∀ a ∈ o.args, Canonical (.obj a)) ∧ Canonical (.obj o.kwargs) := by
    intro o ho
    obtain ⟨item, hitem, hread⟩ := exists_item_of_mapM hops ho
    exact op_of_fromDict (canonical_listed hd hy hitems item hitem) hread
  refine ⟨fun o ho => (hop o ho).1, fun o ho => (hop o ho).2, ?_⟩
  intro o ho
  obtain ⟨item, hitem, hread⟩ := exists_item_of_mapM houtputs ho
  exact ref_of_fromDict (canonical_listed hd hx houts item hitem) hread

end Records

section Addresses

/-- Text with non-ASCII characters left as they are is decoded like any other. -/
def ReadsUtf8 (p : Platform β) : Prop := ∀ j, Canonical j → p.loads (p.dumpsUtf8 j) = .ok j

variable {p : Platform β}

variable {g : Graph} {sha : String}

theorem graph_of_loads (hutf8 : ReadsUtf8 p) (hg : g.Normal) :
    (p.loads (g.toCanonicalJson p) >>= Graph.fromDict) = .ok g := by
  rw [Graph.toCanonicalJson, hutf8 _ hg.canonical, ok_bind, graph_fromDict_toDict]

theorem eq_of_graphId (hutf8 : ReadsUtf8 p) (hfree : Function.Injective (sha256Hex p))
    {g' : Graph} (hg : g.Normal) (hg' : g'.Normal) (h : g.graphId p = g'.graphId p) : g = g' := by
  have htext : g.toCanonicalJson p = g'.toCanonicalJson p := hfree h
  have hload := graph_of_loads hutf8 hg
  rw [htext, graph_of_loads hutf8 hg'] at hload
  exact (Except.ok.inj hload).symm

structure HasAddress (p : Platform β) (sha : String) (g : Graph) : Prop where
  normal : g.Normal
  address : g.graphId p = sha

theorem HasAddress.unique (hutf8 : ReadsUtf8 p) (hfree : Function.Injective (sha256Hex p))
    {g' : Graph} (h : HasAddress p sha g) (h' : HasAddress p sha g') : g = g' :=
  eq_of_graphId hutf8 hfree h.normal h'.normal (h.address.trans h'.address.symm)

theorem hasAddress_of_fetch (hp : p.Lawful) {s : String → Py β} {uri mismatch : String}
    (h : (fetchGraph p sha uri mismatch).run s = .ok g) : HasAddress p sha g := by
  simp only [fetchGraph, fetchJson, ReadProgram.run_bind, ReadProgram.run_lift, bind_eq_ok] at h
  obtain ⟨d, ⟨body, -, hd⟩, graph, hread, h⟩ := h
  split_ifs at h with hsha
  · cases h
    exact ⟨normal_of_fromDict (hp.loads_canonical _ _ hd) hread, hsha⟩
  · cases h

theorem fetch_of_stored (hutf8 : ReadsUtf8 p) {s : String → Py β} (hg : g.Normal)
    {uri : String} (hget : s uri = .ok (g.toCanonicalJson p)) (mismatch : String) :
    (fetchGraph p (g.graphId p) uri mismatch).run s = .ok g := by
  simp [fetchGraph, fetchJson, hget, Graph.toCanonicalJson, hutf8 _ hg.canonical,
    graph_fromDict_toDict]

theorem hasAddress_of_readGraph {W : WorkerLibraries β τ} (hp : W.platform.Lawful)
    {body : β} (h : readGraph W sha body = .ok g) : HasAddress W.platform sha g := by
  simp only [readGraph, bind_eq_ok, guard_eq_ok, pure_eq_ok, ne_eq, not_not] at h
  obtain ⟨d, hd, graph, hread, hsha, rfl⟩ := h
  exact ⟨normal_of_fromDict (hp.loads_canonical _ _ hd) hread, hsha⟩

end Addresses

section Fetchers

abbrev GraphCache := KeyedDict (Prod.fst : String × Graph → String)

/-- The method `AuditReplayRunner.fetch_graph` on the auditor's cache. -/
def auditorFetchGraph (p : Platform β) (b : Bucket β) (sha uri : String) (cache : GraphCache) :
    Py (Graph × GraphCache) :=
  match cache.get? sha with
  | some (_, graph) => .ok (graph, cache)
  | none => do
    let graph ← (fetchGraph p sha uri "graph hash mismatch").run b.get
    return (graph, cache.set (sha, graph))

/-- The caches of an auditor after any number of fetches, each from whatever the bucket holds at
that moment. A fetch that raises leaves the cache as it was. -/
inductive AuditorReaches (p : Platform β) : GraphCache → Prop where
  | fresh : AuditorReaches p .empty
  | fetch {cache cache' : GraphCache} {b : Bucket β} {sha uri : String} {g : Graph} :
      AuditorReaches p cache → auditorFetchGraph p b sha uri cache = .ok (g, cache') →
      AuditorReaches p cache'

/-- The states of an executor after any number of jobs and fetches, however they end, with
arbitrary changes of the store in between. -/
inductive ExecutorReaches (W : WorkerLibraries β τ) (S : Stores σ β) : JobExecutor σ τ → Prop where
  | fresh (s : σ) : ExecutorReaches W S { store := s }
  | changed {e : JobExecutor σ τ} (s : σ) :
      ExecutorReaches W S e → ExecutorReaches W S { e with store := s }
  | fetch {e : JobExecutor σ τ} (sha uri : String) :
      ExecutorReaches W S e →
      ExecutorReaches W S (Effects.after (JobExecution.fetchGraph W S sha uri) e)
  | execute {e : JobExecutor σ τ} (cfg : ExecutorConfig)
      (grants : String → Option AssignmentGrants.PresignedUrlGrant) (miner : Miner β)
      (times : ExecutionTimes) (manifest : JobManifestV3) :
      ExecutorReaches W S e →
      ExecutorReaches W S (Effects.after (execute W S cfg grants miner times manifest) e)

def Addressed (p : Platform β) (cache : GraphCache) : Prop :=
  ∀ sha g, cache.get? sha = some (sha, g) → HasAddress p sha g

variable {p : Platform β} {W : WorkerLibraries β τ} {S : Stores σ β}

theorem addressed_empty : Addressed p .empty := by
  intro sha g h
  simp at h

variable {g : Graph} {sha uri : String} {cache : GraphCache} {e : JobExecutor σ τ}

theorem Addressed.set (h : Addressed p cache)
    (hg : HasAddress p sha g) : Addressed p (cache.set (sha, g)) := by
  intro sha' g' hfind
  rw [KeyedDict.get?_set] at hfind
  split_ifs at hfind
  · cases hfind
    exact hg
  · exact h sha' g' hfind

theorem Addressed.of_get? {entry : String × Graph}
    (h : Addressed p cache) (hfind : cache.get? sha = some entry) :
    HasAddress p sha entry.2 := by
  have hkey : entry.1 = sha := (KeyedDict.get?_eq_some.mp hfind).2
  refine h sha entry.2 ?_
  rw [hfind, ← hkey]

theorem auditorFetchGraph_ok {b : Bucket β} {cache' : GraphCache}
    (hp : p.Lawful) (hcache : Addressed p cache)
    (h : auditorFetchGraph p b sha uri cache = .ok (g, cache')) :
    HasAddress p sha g ∧ Addressed p cache' := by
  unfold auditorFetchGraph at h
  cases hfind : cache.get? sha with
  | some entry =>
    simp only [hfind] at h
    cases h
    exact ⟨hcache.of_get? hfind, hcache⟩
  | none =>
    simp only [hfind, bind_eq_ok, pure_eq_ok] at h
    obtain ⟨graph, hfetch, h⟩ := h
    cases h
    have hg := hasAddress_of_fetch hp hfetch
    exact ⟨hg, hcache.set hg⟩

theorem AuditorReaches.addressed (hp : p.Lawful)
    (h : AuditorReaches p cache) : Addressed p cache := by
  induction h with
  | fresh => exact addressed_empty
  | fetch _ hfetch ih => exact (auditorFetchGraph_ok hp ih hfetch).2

def KeepsAddressed (p : Platform β) (e e' : JobExecutor σ τ) : Prop :=
  Addressed p e.graphs → Addressed p e'.graphs

instance : IsPreorder (JobExecutor σ τ) (KeepsAddressed p) where
  refl _ := id
  trans _ _ _ h h' := h' ∘ h

theorem fetchGraph_hasAddress (hp : W.platform.Lawful)
    {e' : JobExecutor σ τ} (he : Addressed W.platform e.graphs)
    (h : JobExecution.fetchGraph W S sha uri e = .ok g e') :
    HasAddress W.platform sha g ∧ Addressed W.platform e'.graphs := by
  rcases fetchGraph_ok h with ⟨hcached, rfl⟩ | ⟨-, hread, rfl⟩
  · obtain ⟨entry, hfind, rfl⟩ := Option.map_eq_some_iff.mp hcached
    exact ⟨he.of_get? hfind, he⟩
  · obtain ⟨body, -, hread⟩ := bind_eq_ok.mp hread
    have hg := hasAddress_of_readGraph hp hread
    exact ⟨hg, he.set hg⟩

theorem fetchGraph_error {err : PyErr} {e' : JobExecutor σ τ}
    (h : JobExecution.fetchGraph W S sha uri e = .error err e') : e' = e := by
  unfold JobExecution.fetchGraph at h
  rcases Effects.bind_eq_error.mp h with hget | ⟨_, _, hget, h⟩
  · cases hget
  obtain ⟨rfl, rfl⟩ := Effects.get_eq_ok.mp hget
  cases hfind : e.graphs.get? sha with
  | some entry =>
    rw [hfind] at h
    cases h
  | none =>
    rw [hfind] at h
    rcases Effects.bind_eq_error.mp h with hread | ⟨_, _, _, h⟩
    · exact (Effects.lift_eq_error.mp hread).2.symm
    · rcases Effects.bind_eq_error.mp h with hset | ⟨_, _, _, h⟩
      · exact absurd hset Effects.modify_ne_error
      · cases h

theorem keepsAddressed_fetchGraph (hp : W.platform.Lawful) (sha uri : String) :
    Effects.Within (KeepsAddressed W.platform) (JobExecution.fetchGraph W S sha uri) := by
  intro e
  refine Effects.ends_iff.mpr ⟨fun g e' h he => (fetchGraph_hasAddress hp he h).2, ?_⟩
  intro err e' h
  rw [fetchGraph_error h]
  exact id

theorem keepsAddressed_onStore {α : Type} (x : EStateM PyErr σ α) :
    Effects.Within (KeepsAddressed p) (onStore x : EStateM PyErr (JobExecutor σ τ) α) := by
  intro e
  refine Effects.ends_iff.mpr ⟨?_, ?_⟩
  · intro a e' h
    obtain ⟨s, -, rfl⟩ := Effects.zoom_eq_ok.mp h
    exact id
  · intro err e' h
    obtain ⟨s, -, rfl⟩ := Effects.zoom_eq_error.mp h
    exact id

theorem keepsAddressed_execute (hp : W.platform.Lawful) (cfg : ExecutorConfig)
    (grants : String → Option AssignmentGrants.PresignedUrlGrant) (miner : Miner β)
    (times : ExecutionTimes) (manifest : JobManifestV3) :
    Effects.Within (KeepsAddressed W.platform)
      (execute W S cfg grants miner times manifest) := by
  have hoff : OffTensors (KeepsAddressed (σ := σ) (τ := τ) W.platform) := by
    intro e e' _ hgraphs he
    rwa [hgraphs]
  exact within_execute_of_parts miner times (keepsAddressed_fetchGraph hp)
    (within_decodeInputs hoff fun _ _ => keepsAddressed_onStore _)
    (fun _ _ _ => keepsAddressed_onStore _) (fun _ => within_cacheOutputs hoff _ _)
    fun _ _ => within_digestInput (keepsAddressed_onStore _)

theorem ExecutorReaches.addressed (hp : W.platform.Lawful)
    (h : ExecutorReaches W S e) : Addressed W.platform e.graphs := by
  induction h with
  | fresh s => exact addressed_empty
  | changed s _ ih => exact ih
  | fetch sha uri _ ih =>
    obtain ⟨_, hkeeps⟩ := (keepsAddressed_fetchGraph hp sha uri _).after
    exact hkeeps ih
  | execute cfg grants miner times manifest _ ih =>
    obtain ⟨_, hkeeps⟩ := (keepsAddressed_execute hp cfg grants miner times manifest _).after
    exact hkeeps ih

inductive Fetches (p : Platform β) (sha : String) (g : Graph) : Prop where
  | executor {σ τ : Type} {W : WorkerLibraries β τ} {S : Stores σ β} {e e' : JobExecutor σ τ}
      {uri : String} : W.platform = p → ExecutorReaches W S e →
      JobExecution.fetchGraph W S sha uri e = .ok g e' → Fetches p sha g
  | auditor {b : Bucket β} {cache cache' : GraphCache} {uri : String} : AuditorReaches p cache →
      auditorFetchGraph p b sha uri cache = .ok (g, cache') → Fetches p sha g
  | validator {b : Bucket β} {manifest : JobManifestV3} : manifest.graphRef.sha256 = sha →
      (ScoreWindows.fetchManifestGraph p manifest).run b.get = .ok g → Fetches p sha g

theorem Fetches.hasAddress (hp : p.Lawful) (h : Fetches p sha g) :
    HasAddress p sha g := by
  cases h with
  | executor hplatform hreach hfetch =>
    subst hplatform
    exact (fetchGraph_hasAddress hp (hreach.addressed hp) hfetch).1
  | auditor hreach hfetch => exact (auditorFetchGraph_ok hp (hreach.addressed hp) hfetch).1
  | validator hsha hfetch =>
    subst hsha
    exact hasAddress_of_fetch hp hfetch

theorem executor_loads (hp : W.platform.Lawful) (hutf8 : ReadsUtf8 W.platform)
    (hfree : Function.Injective (sha256Hex W.platform)) (hg : g.Normal)
    (he : ExecutorReaches W S e)
    (hget : (S.bucket e.store).get uri = .ok (g.toCanonicalJson W.platform)) :
    ∃ e', JobExecution.fetchGraph W S (g.graphId W.platform) uri e = .ok g e' := by
  have hread : readGraph W (g.graphId W.platform) (g.toCanonicalJson W.platform) = .ok g := by
    simp [readGraph, Graph.toCanonicalJson, hutf8 _ hg.canonical, graph_fromDict_toDict]
  cases hfind : e.graphs.get? (g.graphId W.platform) with
  | some entry =>
    have hsame := ((he.addressed hp).of_get? hfind).unique hutf8 hfree ⟨hg, rfl⟩
    refine ⟨e, Effects.bind_eq_ok.mpr ⟨e, e, rfl, ?_⟩⟩
    rw [hfind, ← hsame]
    rfl
  | none =>
    have hload : (S.bucket e.store).get uri >>= readGraph W (g.graphId W.platform) = .ok g :=
      bind_eq_ok.mpr ⟨_, hget, hread⟩
    refine ⟨{ e with graphs := e.graphs.set (g.graphId W.platform, g) },
      Effects.bind_eq_ok.mpr ⟨e, e, rfl, ?_⟩⟩
    rw [hfind]
    exact Effects.bind_eq_ok.mpr ⟨g, e, Effects.lift_eq_ok.mpr ⟨hload, rfl⟩, rfl⟩

theorem auditor_loads (hp : p.Lawful) (hutf8 : ReadsUtf8 p)
    (hfree : Function.Injective (sha256Hex p)) (hg : g.Normal)
    {b : Bucket β} (hcache : AuditorReaches p cache)
    (hget : b.get uri = .ok (g.toCanonicalJson p)) :
    ∃ cache', auditorFetchGraph p b (g.graphId p) uri cache = .ok (g, cache') := by
  unfold auditorFetchGraph
  cases hfind : cache.get? (g.graphId p) with
  | some entry =>
    have hsame := ((hcache.addressed hp).of_get? hfind).unique hutf8 hfree ⟨hg, rfl⟩
    exact ⟨cache, by rw [← hsame]⟩
  | none =>
    refine ⟨_, bind_eq_ok.mpr ⟨g, fetch_of_stored hutf8 hg hget _, rfl⟩⟩

structure LoadsEverywhere (p : Platform β) (g : Graph) (uri : String) : Prop where
  executor : ∀ (σ τ : Type) (W : WorkerLibraries β τ) (S : Stores σ β) (e : JobExecutor σ τ),
    W.platform = p → ExecutorReaches W S e →
    (S.bucket e.store).get uri = .ok (g.toCanonicalJson p) →
    ∃ e', JobExecution.fetchGraph W S (g.graphId p) uri e = .ok g e'
  auditor : ∀ (b : Bucket β) (cache : GraphCache), AuditorReaches p cache →
    b.get uri = .ok (g.toCanonicalJson p) →
    ∃ cache', auditorFetchGraph p b (g.graphId p) uri cache = .ok (g, cache')
  validator : ∀ (b : Bucket β) (manifest : JobManifestV3),
    manifest.graphRef = ⟨g.graphId p, uri⟩ → b.get uri = .ok (g.toCanonicalJson p) →
    (ScoreWindows.fetchManifestGraph p manifest).run b.get = .ok g

end Fetchers

end GraphIr

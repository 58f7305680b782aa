import Teuton.Dispatch
import Teuton.DistributedExecution
import Teuton.HonestWork

/-! Whether the grant that is minted for a job covers what its execution touches. The managers and
the command line predict from the manifest which objects these are; the executor finds out while
it runs, from the stored inputs and from the number of its devices. -/
namespace GrantSufficiency

open PyJson PyText Signatures ObjectStore BucketPaths Protocol AuditReplay AssignmentGrants
open JobExecution ExecutionSteps DistributedExecution MinerWorker

variable {β τ : Type}

section Minting

inductive Emitter where
  | manager
  | oneoff

/-- The objects that the emitters mint grants for. The managers add the shards of the outputs. -/
def grantedPuts : Emitter → JobManifestV3 → Py (List String)
  | .manager, manifest => outputGrantUris manifest
  | .oneoff, manifest => .ok (manifest.outputs.map ArtifactRef.uri)

def receiptPlace (netuid : ℤ) (bucket : String) (manifest : JobManifestV3) : String :=
  joinUri bucket (receiptKey netuid manifest.runId manifest.assignedHotkey manifest.jobId
    manifest.attempt)

def grantedUris (emitter : Emitter) (netuid : ℤ) (bucket : String) (manifest : JobManifestV3) :
    GrantedUris :=
  ⟨manifest.inputs.map ArtifactRef.uri, grantedPuts emitter manifest,
    some (receiptPlace netuid bucket manifest)⟩

/-- A broker presigns for the method and the object that it is asked for. -/
structure Presigns (broker : GrantBroker) : Prop where
  get : ∀ uri ttl g, broker.getGrant uri ttl = .ok g → g.method = "GET" ∧ g.canonicalUri = uri
  put : ∀ uri ttl g, broker.putGrant uri ttl = .ok g → g.method = "PUT" ∧ g.canonicalUri = uri

/-- The class `LocalGrantBroker`, with the sealing of grants. -/
def localBroker (now : ℤ) (encryptForHotkey : AssignmentGrantV3 → String → Py Json) :
    GrantBroker where
  getGrant := fun uri ttl => .ok ⟨"GET", uri, uri, now + ttl, none⟩
  putGrant := fun uri ttl => .ok ⟨"PUT", uri, uri, now + ttl, none⟩
  encryptForHotkey := encryptForHotkey

theorem presigns_local (now : ℤ) (encryptForHotkey : AssignmentGrantV3 → String → Py Json) :
    Presigns (localBroker now encryptForHotkey) where
  get := by
    rintro uri ttl g ⟨⟩
    exact ⟨rfl, rfl⟩
  put := by
    rintro uri ttl g ⟨⟩
    exact ⟨rfl, rfl⟩

variable {broker : GrantBroker} {ttl now netuid : ℤ} {manifest : JobManifestV3}
variable {grant : AssignmentGrantV3} {bucket : String} {emitter : Emitter}

structure Covers (gets puts : List String) (receipt : String) (grant : AssignmentGrantV3) :
    Prop where
  gets : grant.inputGets.map PresignedUrlGrant.canonicalUri = gets
  isGet : ∀ g ∈ grant.inputGets, g.method = "GET"
  puts : grant.outputPuts.map PresignedUrlGrant.canonicalUri = puts
  isPut : ∀ g ∈ grant.outputPuts, g.method = "PUT"
  receipt : ∃ g, grant.receiptPut = some g ∧ g.method = "PUT" ∧ g.canonicalUri = receipt

theorem minted_list {mint : String → Py PresignedUrlGrant} {method : String}
    (hmint : ∀ uri g, mint uri = .ok g → g.method = method ∧ g.canonicalUri = uri)
    {uris : List String} {grants : List PresignedUrlGrant} (h : uris.mapM mint = .ok grants) :
    grants.map PresignedUrlGrant.canonicalUri = uris ∧ ∀ g ∈ grants, g.method = method := by
  induction uris generalizing grants with
  | nil =>
    cases h
    simp
  | cons uri uris ih =>
    rw [List.mapM_cons] at h
    obtain ⟨g, hg, h⟩ := bind_eq_ok.mp h
    obtain ⟨rest, hrest, h⟩ := bind_eq_ok.mp h
    cases h
    obtain ⟨hmethod, huri⟩ := hmint uri g hg
    obtain ⟨huris, hmethods⟩ := ih hrest
    refine ⟨by rw [List.map_cons, huri, huris], ?_⟩
    exact List.forall_mem_cons.mpr ⟨hmethod, hmethods⟩

theorem covers_of_mint (hbroker : Presigns broker) (h : mintGrant broker ttl now manifest
    (grantedUris emitter netuid bucket manifest) = .ok grant) :
    ∃ puts, grantedPuts emitter manifest = .ok puts ∧
      Covers (manifest.inputs.map ArtifactRef.uri) puts (receiptPlace netuid bucket manifest)
        grant := by
  obtain ⟨gets, hgets, h⟩ := bind_eq_ok.mp h
  obtain ⟨puts, hputs, h⟩ := bind_eq_ok.mp h
  obtain ⟨outputPuts, houtputs, h⟩ := bind_eq_ok.mp h
  obtain ⟨receiptPut, hreceipt, h⟩ := bind_eq_ok.mp h
  cases h
  obtain ⟨hgetUris, hget⟩ := minted_list (fun uri g => hbroker.get uri ttl g) hgets
  obtain ⟨hputUris, hput⟩ := minted_list (fun uri g => hbroker.put uri ttl g) houtputs
  refine ⟨puts, hputs, hgetUris, hget, hputUris, hput, ?_⟩
  obtain ⟨g, hg, hsome⟩ := bind_eq_ok.mp hreceipt
  cases hsome
  exact ⟨g, rfl, hbroker.put _ _ g hg⟩

end Minting

section Lookup

variable {gets puts : List String} {receipt uri : String} {grant : AssignmentGrantV3}

structure Access where
  method : String
  uri : String
  grant : Option PresignedUrlGrant

/-- The transport accepts the access until the grant expires. -/
def Access.Granted (a : Access) : Prop :=
  ∃ g, a.grant = some g ∧ g.method = a.method ∧ g.canonicalUri = a.uri

theorem granted_iff_validate {a : Access} :
    a.Granted ↔ ∃ now g, validate now a.grant a.method a.uri = .ok g := by
  simp only [validate_eq_ok]
  constructor
  · rintro ⟨g, hgrant, hmethod, huri⟩
    exact ⟨g.expiresUnix, g, hgrant, hmethod, huri, le_refl _⟩
  · rintro ⟨now, g, hgrant, hmethod, huri, -⟩
    exact ⟨g, hgrant, hmethod, huri⟩

def lookup (grant : AssignmentGrantV3) (uri : String) : Option PresignedUrlGrant :=
  (grantsByUri grant).find? uri

theorem lookup_eq (grant : AssignmentGrantV3) (uri : String) :
    lookup grant uri =
      ((grant.inputGets ++ grant.outputPuts ++ grant.receiptPut.toList).reverse.find?
      fun g => g.canonicalUri = uri) := by
  rw [lookup, grantsByUri, SortedDict.find?_ofEntries, ← List.map_reverse, List.find?_map,
    Option.map_map]
  simp [Function.comp_def]

theorem find?_reverse_some {l : List PresignedUrlGrant} {g : PresignedUrlGrant}
    (h : l.reverse.find? (fun g => g.canonicalUri = uri) = some g) :
    g ∈ l ∧ g.canonicalUri = uri :=
  ⟨List.mem_reverse.mp (List.mem_of_find?_eq_some h), by simpa using List.find?_some h⟩

theorem find?_reverse_none {l : List PresignedUrlGrant}
    (h : l.reverse.find? (fun g => g.canonicalUri = uri) = none) :
    uri ∉ l.map PresignedUrlGrant.canonicalUri := by
  intro hmem
  obtain ⟨g, hg, huri⟩ := List.mem_map.mp hmem
  have := List.find?_eq_none.mp h g (List.mem_reverse.mpr hg)
  simp [huri] at this

theorem lookup_cases (h : Covers gets puts receipt grant) (uri : String) :
    ((uri ∈ puts ∨ uri = receipt) ∧
      ∃ g, lookup grant uri = some g ∧ g.method = "PUT" ∧ g.canonicalUri = uri) ∨
    ((uri ∉ puts ∧ uri ≠ receipt) ∧ uri ∈ gets ∧
      ∃ g, lookup grant uri = some g ∧ g.method = "GET" ∧ g.canonicalUri = uri) ∨
    ((uri ∉ puts ∧ uri ≠ receipt) ∧ uri ∉ gets ∧ lookup grant uri = none) := by
  obtain ⟨r, hr, hrput, hruri⟩ := h.receipt
  rw [lookup_eq, hr]
  simp only [Option.toList_some, List.reverse_append, List.reverse_singleton,
    List.singleton_append, List.find?_cons, List.find?_append]
  by_cases hreceipt : r.canonicalUri = uri
  · rw [decide_eq_true hreceipt]
    exact .inl ⟨.inr (hreceipt.symm.trans hruri), r, rfl, hrput, hreceipt⟩
  · rw [decide_eq_false hreceipt]
    have hne : uri ≠ receipt := fun heq => hreceipt (hruri.trans heq.symm)
    cases hput : grant.outputPuts.reverse.find? (fun g => g.canonicalUri = uri) with
    | some g =>
      obtain ⟨hmem, huri⟩ := find?_reverse_some hput
      refine .inl ⟨.inl ?_, g, rfl, h.isPut g hmem, huri⟩
      rw [← h.puts, ← huri]
      exact List.mem_map_of_mem hmem
    | none =>
      have hputs : uri ∉ puts := h.puts ▸ find?_reverse_none hput
      cases hget : grant.inputGets.reverse.find? (fun g => g.canonicalUri = uri) with
      | some g =>
        obtain ⟨hmem, huri⟩ := find?_reverse_some hget
        refine .inr (.inl ⟨⟨hputs, hne⟩, ?_, g, rfl, h.isGet g hmem, huri⟩)
        rw [← h.gets, ← huri]
        exact List.mem_map_of_mem hmem
      | none => exact .inr (.inr ⟨⟨hputs, hne⟩, h.gets ▸ find?_reverse_none hget, rfl⟩)

theorem granted_put_iff (h : Covers gets puts receipt grant) :
    Access.Granted ⟨"PUT", uri, lookup grant uri⟩ ↔ uri ∈ puts ∨ uri = receipt := by
  rcases lookup_cases h uri with ⟨hput, hg⟩ | ⟨⟨hput, hne⟩, -, g, hg, hmethod, -⟩ |
    ⟨⟨hput, hne⟩, -, hg⟩
  · exact ⟨fun _ => hput, fun _ => hg⟩
  · simp [Access.Granted, hg, hmethod, hput, hne]
  · simp [Access.Granted, hg, hput, hne]

theorem granted_get_iff (h : Covers gets puts receipt grant) :
    Access.Granted ⟨"GET", uri, lookup grant uri⟩ ↔ uri ∈ gets ∧ uri ∉ puts ∧ uri ≠ receipt := by
  rcases lookup_cases h uri with ⟨hput, g, hg, hmethod, -⟩ | ⟨hne, hget, hg⟩ | ⟨hne, hget, hg⟩
  · have hnot : ¬ (uri ∈ gets ∧ uri ∉ puts ∧ uri ≠ receipt) := by tauto
    simp [Access.Granted, hg, hmethod, hnot]
  · exact ⟨fun _ => ⟨hget, hne⟩, fun _ => hg⟩
  · simp [Access.Granted, hg, hget]

end Lookup

section Footprint

variable (W : GroupLibraries β τ) (devices : List String) (manifest : JobManifestV3)

def IsGroupJob : Prop := 1 < devices.length ∧ isTensorParallel manifest = true

instance : Decidable (IsGroupJob devices manifest) := inferInstanceAs (Decidable (_ ∧ _))

def shardReads (b : Bucket β) (ref : ArtifactRef) : List String :=
  if endsWith ref.uri ".json" then
    match b.get ref.uri >>= isShardManifest W.platform with
    | .ok true => (getShardedTensor W.toLibraries ref.uri).keysRead b.get
    | _ => []
  else []

def readUris (b : Bucket β) : List String :=
  manifest.inputs.map ArtifactRef.uri ++
    if IsGroupJob devices manifest then manifest.inputs.flatMap (shardReads W b) else []

def shardingOf : Fields :=
  match ((field? "output_sharding" manifest.params).getD .null).fieldsOrEmpty with
  | .ok sharding => sharding
  | .error _ => []

def shardWrites (sharding : Fields) (ref : ArtifactRef) : List String :=
  if (shardConfig sharding ref).truthy then
    match worldSizeOf devices (shardConfig sharding ref) with
    | .ok worldSize => (List.range worldSize.toNat).map (shardUri ref.uri)
    | .error _ => []
  else []

def writeUris : List String :=
  manifest.outputs.map ArtifactRef.uri ++
    if IsGroupJob devices manifest then
      manifest.outputs.flatMap (shardWrites devices (shardingOf manifest))
    else []

def Touches (b : Bucket β) (method uri : String) : Prop :=
  method = "GET" ∧ uri ∈ readUris W devices manifest b ∨
  method = "PUT" ∧ uri ∈ writeUris devices manifest

end Footprint

section Log

variable (grants : String → Option PresignedUrlGrant)

/-- The bucket with a list of the uses of the transport, which does not look at the grants. -/
def loggedStores : Stores (Bucket β × List Access) β where
  bucket := Prod.fst
  get := fun uri grant s =>
    Effects.lift (s.1.get uri) (s.1, s.2 ++ [⟨"GET", uri, grant⟩])
  put := fun uri body grant s =>
    match s.1.put uri body with
    | .ok b => .ok ⟨⟩ (b, s.2 ++ [⟨"PUT", uri, grant⟩])
    | .error e => .error e (s.1, s.2 ++ [⟨"PUT", uri, grant⟩])

abbrev Logging (β τ : Type) := JobExecutor (Bucket β × List Access) τ

/-- The log has grown by allowed uses, each with the grant for its URI. -/
def Logs (allowed : String → String → Prop) (e e' : Logging β τ) : Prop :=
  ∃ new, e'.store.2 = e.store.2 ++ new ∧
    ∀ a ∈ new, a.grant = grants a.uri ∧ allowed a.method a.uri

def LogsReads (b : Bucket β) (allowed : String → String → Prop) (e e' : Logging β τ) : Prop :=
  e.store.1 = b → e'.store.1 = b ∧ Logs grants allowed e e'

variable {grants} {allowed : String → String → Prop} {b : Bucket β} {e e' e'' : Logging β τ}
variable {uri : String}

theorem Logs.refl (e : Logging β τ) : Logs grants allowed e e := ⟨[], by simp⟩

theorem Logs.trans (h : Logs grants allowed e e') (h' : Logs grants allowed e' e'') :
    Logs grants allowed e e'' := by
  obtain ⟨new, hnew, hall⟩ := h
  obtain ⟨new', hnew', hall'⟩ := h'
  refine ⟨new ++ new', by rw [hnew', hnew, List.append_assoc], ?_⟩
  intro a ha
  rcases List.mem_append.mp ha with ha | ha
  · exact hall a ha
  · exact hall' a ha

instance : IsPreorder (Logging β τ) (Logs grants allowed) where
  refl := Logs.refl
  trans := fun _ _ _ => Logs.trans

instance : IsPreorder (Logging β τ) (LogsReads grants b allowed) where
  refl := fun e hb => ⟨hb, Logs.refl e⟩
  trans := fun _ _ _ h h' hb => ⟨(h' (h hb).1).1, (h hb).2.trans (h' (h hb).1).2⟩

theorem logs_ofStore : OfStore (Logs (β := β) (τ := τ) grants allowed) := by
  intro e e' h
  exact ⟨[], by rw [h, List.append_nil], by simp⟩

def Logged (grants : String → Option PresignedUrlGrant) (method uri : String) (e : Logging β τ) :
    Prop := ⟨method, uri, grants uri⟩ ∈ e.store.2

theorem Logs.keeps {method : String} (h : Logs grants allowed e e')
    (hlogged : Logged grants method uri e) : Logged grants method uri e' := by
  obtain ⟨new, hnew, -⟩ := h
  rw [Logged, hnew]
  exact List.mem_append_left _ hlogged

theorem items_logged {α γ : Type} {f : α → EStateM PyErr (Logging β τ) γ}
    {l : List α} {results : List γ} (uses : α → String → String → Prop)
    (hwithin : ∀ a, Effects.Within (Logs grants fun _ _ => True) (f a))
    (hlog : ∀ a r u v, f a u = .ok r v → ∀ method uri, uses a method uri →
      Logged grants method uri v)
    (h : l.mapM f e = .ok results e') :
    ∀ a ∈ l, ∀ method uri, uses a method uri → Logged grants method uri e' := by
  refine Effects.mapM_items (R := fun (done : List α) (u : Logging β τ) =>
    ∀ a ∈ done, ∀ method uri, uses a method uri → Logged grants method uri u) h (by simp) ?_
  intro done a _ r u v hdone hrun b hb method uri huse
  rcases List.mem_append.mp hb with hb | hb
  · have hkeeps : Logs grants (fun _ _ => True) u v := (hwithin a u).of_ok hrun
    exact hkeeps.keeps (hdone b hb method uri huse)
  · cases List.mem_singleton.mp hb
    exact hlog a r u v hrun method uri huse

theorem ends_logged_get (e : Logging β τ) :
    Effects.Ends (onStore (loggedStores.get uri (grants uri))) e fun r e' =>
      r = e.store.1.get uri ∧
      e' = { e with store := (e.store.1, e.store.2 ++ [⟨"GET", uri, grants uri⟩]) } := by
  simp only [Effects.Ends, onStore, Effects.zoom, loggedStores, Effects.lift]
  cases e.store.1.get uri <;> exact ⟨rfl, rfl⟩

theorem ends_logged_put (e : Logging β τ) (body : β) :
    Effects.Ends (onStore (loggedStores.put uri body (grants uri))) e fun _ e' =>
      e'.store.2 = e.store.2 ++ [⟨"PUT", uri, grants uri⟩] := by
  simp only [Effects.Ends, onStore, Effects.zoom, loggedStores]
  cases e.store.1.put uri body <;> rfl

theorem within_get (h : allowed "GET" uri) : Effects.Within (Logs (β := β) (τ := τ) grants allowed)
    (onStore (loggedStores.get uri (grants uri))) := fun e =>
  (ends_logged_get e).mono fun _ e' ⟨_, he'⟩ => ⟨[⟨"GET", uri, grants uri⟩], by rw [he'], by simpa⟩

theorem within_put (h : allowed "PUT" uri) (body : β) :
    Effects.Within (Logs (τ := τ) grants allowed)
      (onStore (loggedStores.put uri body (grants uri))) := fun e =>
  (ends_logged_put e body).mono fun _ e' he' => ⟨[⟨"PUT", uri, grants uri⟩], he', by simpa⟩

theorem logged_of_get {r : β} (h : onStore (loggedStores.get uri (grants uri)) e = .ok r e') :
    Logged grants "GET" uri e' := by
  obtain ⟨-, rfl⟩ := (ends_logged_get e).of_ok h
  exact List.mem_append_right _ (List.mem_singleton_self _)

theorem logged_of_put {body : β} {r : PUnit}
    (h : onStore (loggedStores.put uri body (grants uri)) e = .ok r e') :
    Logged grants "PUT" uri e' := by
  rw [Logged, (ends_logged_put e body).of_ok h]
  exact List.mem_append_right _ (List.mem_singleton_self _)

end Log

section Reads

variable {W : GroupLibraries β τ} {cfg : ExecutorConfig} {b : Bucket β}
variable {grants : String → Option PresignedUrlGrant} {allowed : String → String → Prop}
variable {e e' : Logging β τ} {ref : ArtifactRef}

theorem runReads_logs {α : Type} (prog : Fetch β α) (hb : e.store.1 = b)
    (hallowed : ∀ u ∈ prog.keysRead b.get, allowed "GET" u) :
    Effects.Ends (runReads loggedStores grants prog) e fun _ e' => e'.store.1 = b ∧
      Logs grants allowed e e' ∧ ∀ u ∈ prog.keysRead b.get, Logged grants "GET" u e' := by
  induction prog generalizing e with
  | done result =>
    have hsame : e.store.1 = b ∧ Logs grants allowed e e ∧
        ∀ u ∈ (ReadProgram.done result : Fetch β α).keysRead b.get, Logged grants "GET" u e :=
      ⟨hb, Logs.refl e, by simp [ReadProgram.keysRead]⟩
    cases result <;> exact hsame
  | read uri next ih =>
    simp only [ReadProgram.keysRead, List.forall_mem_cons] at hallowed ⊢
    have hget : Effects.Ends (Effects.attempt (onStore (loggedStores.get uri (grants uri)))) e
        fun r e₁ => r = .ok (b.get uri) ∧ e₁.store.1 = b ∧ Logs grants allowed e e₁ ∧
          Logged grants "GET" uri e₁ := by
      refine (ends_logged_get e).attempt ?_
      rintro r e₁ ⟨rfl, rfl⟩
      refine ⟨by rw [hb], hb, ⟨[⟨"GET", uri, grants uri⟩], rfl, by simpa using hallowed.1⟩, ?_⟩
      exact List.mem_append_right _ (List.mem_singleton_self _)
    refine hget.bind ?_ ?_
    · rintro r e₁ ⟨hr, hb₁, hlogs, hlogged⟩
      cases hr
      refine (ih (b.get uri) hb₁ hallowed.2).mono ?_
      rintro _ e₂ ⟨hb₂, hlogs₂, hall⟩
      exact ⟨hb₂, hlogs.trans hlogs₂, hlogs₂.keeps hlogged, hall⟩
    · rintro err e₁ ⟨hr, -⟩
      cases hr

theorem joinedInput_logs {body : β} (hb : e.store.1 = b) (hbody : b.get ref.uri = .ok body)
    (hjson : endsWith ref.uri ".json" = true)
    (hallowed : ∀ u ∈ shardReads W b ref, allowed "GET" u) :
    Effects.Ends (joinedInput W loggedStores grants ref.uri body) e fun _ e' => e'.store.1 = b ∧
      Logs grants allowed e e' ∧ ∀ u ∈ shardReads W b ref, Logged grants "GET" u e' := by
  unfold shardReads at hallowed ⊢
  rw [if_pos hjson, hbody, ok_bind] at hallowed ⊢
  refine Effects.ends_lift_bind ?_ ?_
  · intro sharded hsharded
    rw [hsharded] at hallowed ⊢
    cases sharded with
    | true => exact runReads_logs _ hb hallowed
    | false => exact ⟨hb, Logs.refl e, by simp⟩
  · intro err herr
    rw [herr]
    exact ⟨hb, Logs.refl e, by simp⟩

theorem tryJoin_logs {body : β} (hb : e.store.1 = b) (hbody : b.get ref.uri = .ok body)
    (hallowed : ∀ u ∈ shardReads W b ref, allowed "GET" u) :
    Effects.Ends (tryJoin W loggedStores grants ref.uri body) e fun _ e' => e'.store.1 = b ∧
      Logs grants allowed e e' ∧ ∀ u ∈ shardReads W b ref, Logged grants "GET" u e' := by
  unfold tryJoin
  split_ifs with hjson
  · exact (joinedInput_logs hb hbody hjson hallowed).attempt fun _ _ h => h
  · refine ⟨hb, Logs.refl e, ?_⟩
    rw [shardReads, if_neg hjson]
    simp

theorem loadGroupInput_logs (hb : e.store.1 = b) (huri : allowed "GET" ref.uri)
    (hallowed : ∀ u ∈ shardReads W b ref, allowed "GET" u) :
    Effects.Ends (loadGroupInput W loggedStores cfg grants ref) e fun r e' => e'.store.1 = b ∧
      Logs grants allowed e e' ∧
      ∀ value, r = .ok value → ∀ u ∈ shardReads W b ref, Logged grants "GET" u e' := by
  have hfirst : ∀ e₁ : Logging β τ,
      e₁ = { e with store := (e.store.1, e.store.2 ++ [⟨"GET", ref.uri, grants ref.uri⟩]) } →
      e₁.store.1 = b ∧ Logs grants allowed e e₁ := by
    rintro e₁ rfl
    exact ⟨hb, [⟨"GET", ref.uri, grants ref.uri⟩], rfl, by simpa using huri⟩
  refine (ends_logged_get e).bind ?_ ?_
  · rintro body e₁ ⟨hbody, he₁⟩
    obtain ⟨hb₁, hlogs⟩ := hfirst e₁ he₁
    have hbody' : b.get ref.uri = .ok body := by rw [← hb, ← hbody]
    refine (tryJoin_logs hb₁ hbody' hallowed).bind ?_ ?_
    · rintro joined e₂ ⟨hb₂, hlogs₂, hall⟩
      -- Whether the shards were joined or not, what follows does not use the transport.
      have hdone : e₂.store.1 = b ∧ Logs grants allowed e e₂ ∧
          ∀ u ∈ shardReads W b ref, Logged grants "GET" u e₂ := ⟨hb₂, hlogs.trans hlogs₂, hall⟩
      cases joined with
      | ok value => exact ⟨hdone.1, hdone.2.1, fun _ _ => hdone.2.2⟩
      | error err =>
        cases hdecode : decodeGroupInput W cfg body ref with
        | ok value => exact ⟨hdone.1, hdone.2.1, fun _ _ => hdone.2.2⟩
        | error err' => exact ⟨hdone.1, hdone.2.1, fun _ _ => hdone.2.2⟩
    · rintro err e₂ ⟨hb₂, hlogs₂, hall⟩
      exact ⟨hb₂, hlogs.trans hlogs₂, fun _ _ => hall⟩
  · rintro err e₁ ⟨-, he₁⟩
    obtain ⟨hb₁, hlogs⟩ := hfirst e₁ he₁
    refine ⟨hb₁, hlogs, ?_⟩
    rintro value ⟨⟩

theorem loadGroupInputs_logs {refs : List ArtifactRef} (hb : e.store.1 = b)
    (hallowed : ∀ ref ∈ refs, allowed "GET" ref.uri ∧ ∀ u ∈ shardReads W b ref, allowed "GET" u) :
    Effects.Ends (loadGroupInputs W loggedStores cfg grants refs) e fun r e' => e'.store.1 = b ∧
      Logs grants allowed e e' ∧ ∀ values, r = .ok values →
        ∀ ref ∈ refs, ∀ u ∈ shardReads W b ref, Logged grants "GET" u e' := by
  have hwithin : ∀ ref ∈ refs, Effects.Within (LogsReads grants b allowed)
      (loadGroupInput W loggedStores cfg grants ref) := by
    intro ref href e
    refine Effects.ends_iff.mpr ⟨fun value e' hrun hb => ?_, fun err e' hrun hb => ?_⟩
    · have := (loadGroupInput_logs hb (hallowed ref href).1 (hallowed ref href).2).of_ok hrun
      exact ⟨this.1, this.2.1⟩
    · have := (loadGroupInput_logs hb (hallowed ref href).1 (hallowed ref href).2).of_error hrun
      exact ⟨this.1, this.2.1⟩
  have hloop := Effects.Within.mapM hwithin e
  refine Effects.ends_bind ?_ ?_
  · intro values e₁ hrun
    obtain ⟨hb₁, hlogs⟩ := hloop.of_ok hrun hb
    refine ⟨hb₁, hlogs, fun _ _ => ?_⟩
    refine (Effects.mapM_items (R := fun done e' => e'.store.1 = b ∧
      ∀ ref ∈ done, ∀ u ∈ shardReads W b ref, Logged grants "GET" u e') hrun ⟨hb, by simp⟩ ?_).2
    rintro done ref href value u v ⟨hu, hdone⟩ hload
    obtain ⟨hv, hnew, hread⟩ :=
      (loadGroupInput_logs hu (hallowed ref href).1 (hallowed ref href).2).of_ok hload
    refine ⟨hv, ?_⟩
    intro ref' href' uri huri
    rcases List.mem_append.mp href' with href' | href'
    · exact hnew.keeps (hdone ref' href' uri huri)
    · cases List.mem_singleton.mp href'
      exact hread value rfl uri huri
  · intro err e₁ hrun
    obtain ⟨hb₁, hlogs⟩ := hloop.of_error hrun hb
    refine ⟨hb₁, hlogs, ?_⟩
    rintro values ⟨⟩

end Reads

section Writes

variable {W : GroupLibraries β τ} {cfg : ExecutorConfig} {devices : List String}
variable {grants : String → Option PresignedUrlGrant} {allowed : String → String → Prop}
variable {e e' : Logging β τ} {ref : ArtifactRef} {uri name : String} {value : τ}
variable {worldSize d : ℤ}

def SplitsEvenly (W : GroupLibraries β τ) : Prop := ∀ t n d, (W.tensorSplit t n d).length = n

theorem length_shardTensor (hsplit : SplitsEvenly W) {parts : List τ}
    (h : shardTensor W value worldSize d = .ok parts) : parts.length = worldSize.toNat := by
  unfold shardTensor at h
  obtain ⟨-, h⟩ := guard_eq_ok.mp h
  obtain ⟨-, h⟩ := guard_eq_ok.mp h
  rw [← pure_eq_ok.mp h]
  exact hsplit _ _ _

theorem putShard_within {shard : τ × ℕ} (h : allowed "PUT" (shardUri uri shard.2)) :
    Effects.Within (Logs grants allowed) (putShard W loggedStores grants uri d shard) :=
  (Effects.within_lift _).bind fun _ => (within_put h _).bind fun _ => Effects.within_pure _

theorem putShardedTensor_within (hsplit : SplitsEvenly W) (huri : allowed "PUT" uri)
    (hshards : ∀ rank < worldSize.toNat, allowed "PUT" (shardUri uri rank)) :
    Effects.Within (Logs grants allowed)
      (putShardedTensor W loggedStores grants uri value name worldSize d) := by
  intro e
  refine Effects.ends_lift_bind ?_ fun _ _ => Logs.refl e
  intro parts hparts
  have hput : Effects.Within (Logs grants allowed)
      (parts.zipIdx.mapM (putShard W loggedStores grants uri d)) := by
    refine Effects.Within.mapM fun shard hshard => putShard_within (hshards _ ?_)
    rw [← length_shardTensor hsplit hparts]
    simpa using (List.mem_zipIdx' hshard).1
  exact (hput.bind fun _ => (Effects.within_lift _).bind fun _ =>
    (within_put huri _).bind fun _ => Effects.within_pure _) e

theorem putShard_logged {shard : τ × ℕ} {spec : ShardSpec}
    (h : putShard W loggedStores grants uri d shard e = .ok spec e') :
    Logged grants "PUT" (shardUri uri shard.2) e' := by
  obtain ⟨body, _, hbody, h⟩ := Effects.bind_eq_ok.mp h
  obtain ⟨-, rfl⟩ := Effects.lift_eq_ok.mp hbody
  obtain ⟨_, e₁, hput, h⟩ := Effects.bind_eq_ok.mp h
  cases h
  exact logged_of_put hput

theorem putShardedTensor_logged (hsplit : SplitsEvenly W) {manifest : ShardedTensorManifest}
    (h : putShardedTensor W loggedStores grants uri value name worldSize d e = .ok manifest e') :
    Logged grants "PUT" uri e' ∧
      ∀ rank < worldSize.toNat, Logged grants "PUT" (shardUri uri rank) e' := by
  obtain ⟨parts, _, hlift, h⟩ := Effects.bind_eq_ok.mp h
  obtain ⟨hparts, rfl⟩ := Effects.lift_eq_ok.mp hlift
  obtain ⟨shards, e₁, hshards, h⟩ := Effects.bind_eq_ok.mp h
  obtain ⟨dtype, _, hdtype, h⟩ := Effects.bind_eq_ok.mp h
  obtain ⟨-, rfl⟩ := Effects.lift_eq_ok.mp hdtype
  obtain ⟨_, e₂, hput, h⟩ := Effects.bind_eq_ok.mp h
  cases h
  refine ⟨logged_of_put hput, ?_⟩
  intro rank hrank
  rw [← length_shardTensor hsplit hparts] at hrank
  have hmem : (parts[rank], rank) ∈ parts.zipIdx :=
    List.mk_mem_zipIdx_iff_getElem?.mpr (List.getElem?_eq_getElem hrank)
  have hkeeps : Logs grants (fun _ _ => True) e₁ e' := (within_put trivial _ e₁).of_ok hput
  have hall := items_logged (fun shard method u => method = "PUT" ∧ u = shardUri uri shard.2)
    (fun _ => putShard_within trivial)
    (fun _ _ _ _ hput _ _ ⟨hmethod, hu⟩ => hmethod ▸ hu ▸ putShard_logged hput) hshards
  have hshard : Logged grants "PUT" (shardUri uri rank) e₁ :=
    hall (parts[rank], rank) hmem "PUT" (shardUri uri rank) ⟨rfl, rfl⟩
  exact hkeeps.keeps hshard

variable {signer : Signer β} {outputs : SortedDict String τ} {sharding : Fields}

theorem mem_shardWrites {shardCfg : Json} (hcfg : shardConfig sharding ref = shardCfg)
    (hsharded : shardCfg.truthy = true) {n : ℤ} (hn : worldSizeOf devices shardCfg = .ok n)
    {u : String} :
    u ∈ shardWrites devices sharding ref ↔ ∃ rank < n.toNat, u = shardUri ref.uri rank := by
  subst hcfg
  simp [shardWrites, hsharded, hn, eq_comm]

theorem putSharded_within (hsplit : SplitsEvenly W) {shardCfg : Json}
    (huri : allowed "PUT" ref.uri)
    (hshards : ∀ n, worldSizeOf devices shardCfg = .ok n → ∀ rank < n.toNat,
      allowed "PUT" (shardUri ref.uri rank)) :
    Effects.Within (Logs grants allowed)
      (putSharded W loggedStores devices grants ref value shardCfg) := by
  intro e
  unfold putSharded
  split_ifs
  · exact Effects.ends_lift_bind (fun _ h => by cases h) fun _ _ => Logs.refl e
  · refine Effects.ends_lift_bind (fun worldSize hsize => ?_) fun _ _ => Logs.refl e
    refine Effects.ends_lift_bind (fun d _ => ?_) fun _ _ => Logs.refl e
    exact (putShardedTensor_within hsplit huri (hshards worldSize hsize)).bind
      (fun _ => Effects.within_pure _) e

theorem putSharded_logged (hsplit : SplitsEvenly W) {shardCfg : Json} {digest : ArtifactDigest}
    (h : putSharded W loggedStores devices grants ref value shardCfg e = .ok digest e') :
    Logged grants "PUT" ref.uri e' ∧ ∃ n, worldSizeOf devices shardCfg = .ok n ∧
      ∀ rank < n.toNat, Logged grants "PUT" (shardUri ref.uri rank) e' := by
  unfold putSharded at h
  split_ifs at h
  · obtain ⟨_, _, hlift, -⟩ := Effects.bind_eq_ok.mp h
    obtain ⟨hfalse, -⟩ := Effects.lift_eq_ok.mp hlift
    cases hfalse
  · obtain ⟨n, _, hlift, h⟩ := Effects.bind_eq_ok.mp h
    obtain ⟨hn, rfl⟩ := Effects.lift_eq_ok.mp hlift
    obtain ⟨d, _, hlift, h⟩ := Effects.bind_eq_ok.mp h
    obtain ⟨-, rfl⟩ := Effects.lift_eq_ok.mp hlift
    obtain ⟨manifest, e₁, hput, h⟩ := Effects.bind_eq_ok.mp h
    cases h
    obtain ⟨huri, hshards⟩ := putShardedTensor_logged hsplit hput
    exact ⟨huri, n, hn, hshards⟩

theorem placeOutput_within (hsplit : SplitsEvenly W) (huri : allowed "PUT" ref.uri)
    (hshards : ∀ u ∈ shardWrites devices sharding ref, allowed "PUT" u) :
    Effects.Within (Logs grants allowed)
      (placeOutput W loggedStores cfg devices grants signer outputs sharding ref) := by
  unfold placeOutput
  split
  · exact Effects.within_lift _
  · split_ifs with hsharded
    · refine (putSharded_within hsplit huri ?_).bind fun _ => Effects.within_pure _
      intro n hn rank hrank
      exact hshards _ ((mem_shardWrites rfl hsharded hn).mpr ⟨rank, hrank, rfl⟩)
    · exact (Effects.within_lift _).bind fun _ => Effects.within_pure _

theorem placeOutput_ok (hsplit : SplitsEvenly W)
    {placed : Option (SealedOutput β) × ArtifactDigest}
    (h : placeOutput W loggedStores cfg devices grants signer outputs sharding ref e =
      .ok placed e') :
    (∀ u ∈ shardWrites devices sharding ref, Logged grants "PUT" u e') ∧
      match placed.1 with
      | some sealed => sealed.uri = ref.uri
      | none => Logged grants "PUT" ref.uri e' := by
  unfold placeOutput at h
  cases hfind : outputs.find? ref.name with
  | none =>
    simp only [hfind] at h
    obtain ⟨hfalse, -⟩ := Effects.lift_eq_ok.mp h
    cases hfalse
  | some value =>
    simp only [hfind] at h
    split_ifs at h with hsharded
    · obtain ⟨digest, e₁, hput, h⟩ := Effects.bind_eq_ok.mp h
      cases h
      obtain ⟨huri, n, hn, hshards⟩ := putSharded_logged hsplit hput
      refine ⟨?_, huri⟩
      intro u hu
      obtain ⟨rank, hrank, rfl⟩ := (mem_shardWrites rfl hsharded hn).mp hu
      exact hshards rank hrank
    · obtain ⟨sealed, _, hlift, h⟩ := Effects.bind_eq_ok.mp h
      obtain ⟨hsealed, rfl⟩ := Effects.lift_eq_ok.mp hlift
      cases h
      refine ⟨?_, sealOutput_uri hsealed⟩
      simp [shardWrites, hsharded]

theorem placed_cases (hsplit : SplitsEvenly W) {refs : List ArtifactRef}
    {placed : List (Option (SealedOutput β) × ArtifactDigest)}
    (h : refs.mapM (placeOutput W loggedStores cfg devices grants signer outputs sharding) e =
      .ok placed e') :
    (∀ sealed ∈ placed.filterMap Prod.fst, sealed.uri ∈ refs.map ArtifactRef.uri) ∧
    ∀ ref ∈ refs, (∀ u ∈ shardWrites devices sharding ref, Logged grants "PUT" u e') ∧
      (Logged grants "PUT" ref.uri e' ∨
        ∃ sealed ∈ placed.filterMap Prod.fst, sealed.uri = ref.uri) := by
  induction refs generalizing e placed with
  | nil =>
    cases h
    simp
  | cons ref refs ih =>
    rw [List.mapM_cons] at h
    obtain ⟨first, e₁, hfirst, h⟩ := Effects.bind_eq_ok.mp h
    obtain ⟨rest, e₂, hrest, h⟩ := Effects.bind_eq_ok.mp h
    cases h
    obtain ⟨hshards, huri⟩ := placeOutput_ok hsplit hfirst
    obtain ⟨hwaiting, hdone⟩ := ih hrest
    have hkeeps : Logs grants (fun _ _ => True) e₁ e' :=
      (Effects.Within.mapM (fun _ _ => placeOutput_within hsplit trivial fun _ _ => trivial)
        e₁).of_ok hrest
    have hsub : ∀ sealed ∈ rest.filterMap Prod.fst,
        sealed ∈ (first :: rest).filterMap Prod.fst := by
      intro sealed hsealed
      exact ((List.sublist_cons_self first rest).filterMap Prod.fst).subset hsealed
    obtain ⟨kept, digest⟩ := first
    constructor
    · intro sealed hsealed
      cases kept with
      | none => exact List.mem_cons_of_mem _ (hwaiting sealed hsealed)
      | some output =>
        rcases List.mem_cons.mp hsealed with rfl | hsealed
        · exact huri ▸ List.mem_cons_self
        · exact List.mem_cons_of_mem _ (hwaiting sealed hsealed)
    · refine List.forall_mem_cons.mpr ⟨⟨fun u hu => hkeeps.keeps (hshards u hu), ?_⟩, ?_⟩
      · cases kept with
        | none => exact .inl (hkeeps.keeps huri)
        | some output => exact .inr ⟨output, by simp, huri⟩
      · intro other hother
        refine ⟨(hdone other hother).1, (hdone other hother).2.imp_right ?_⟩
        rintro ⟨sealed, hsealed, hsame⟩
        exact ⟨sealed, hsub sealed hsealed, hsame⟩

end Writes

section Execution

variable {W : GroupLibraries β τ} {cfg : ExecutorConfig} {devices : List String}
variable {grants : String → Option PresignedUrlGrant} {allowed : String → String → Prop}
variable {e e' : Logging β τ} {manifest : JobManifestV3} {miner : Miner β}
variable {times : ExecutionTimes}

theorem digests_logged {refs : List ArtifactRef} {digests : List ArtifactDigest}
    (h : refs.mapM (digestInput W.toWorkerLibraries loggedStores grants) e = .ok digests e') :
    ∀ ref ∈ refs, Logged grants "GET" ref.uri e' := by
  have hall := items_logged (fun ref method u => method = "GET" ∧ u = ref.uri)
    (fun ref => within_digestInput (within_get trivial)) ?_ h
  · intro ref href
    exact hall ref href "GET" ref.uri ⟨rfl, rfl⟩
  · rintro ref digest u v hrun method uri ⟨rfl, rfl⟩
    obtain ⟨body, u₁, hget, hrun⟩ := Effects.bind_eq_ok.mp hrun
    obtain ⟨-, rfl⟩ := Effects.lift_eq_ok.mp hrun
    exact logged_of_get hget

theorem uploads_logged {sealed : List (SealedOutput β)}
    (h : sealed.forM (putOutput loggedStores grants) e = .ok ⟨⟩ e') :
    ∀ output ∈ sealed, Logged grants "PUT" output.uri e' := by
  refine Effects.forM_induction (R := fun (done : List (SealedOutput β)) (u : Logging β τ) =>
    ∀ output ∈ done, Logged grants "PUT" output.uri u) h (by simp) ?_
  intro done output u v hdone hput other hother
  have hkeeps : Logs grants (fun _ _ => True) u v := (within_put trivial _ u).of_ok hput
  rcases List.mem_append.mp hother with hother | hother
  · exact hkeeps.keeps (hdone other hother)
  · cases List.mem_singleton.mp hother
    exact logged_of_put hput

/-- What a job may read and write, and what it has read and written when it is done. -/
def Footprint (W : GroupLibraries β τ) (devices : List String) (manifest : JobManifestV3)
    (grants : String → Option PresignedUrlGrant) (e : Logging β τ) (r : Py JobReceiptV3)
    (e' : Logging β τ) : Prop :=
  Logs grants (Touches W devices manifest e.store.1) e e' ∧
    ∀ receipt, r = .ok receipt → ∀ method uri, Touches W devices manifest e.store.1 method uri →
      Logged grants method uri e'

section Touched

variable {b : Bucket β} {ref : ArtifactRef} {u : String}

theorem touches_input (h : ref ∈ manifest.inputs) : Touches W devices manifest b "GET" ref.uri :=
  .inl ⟨rfl, List.mem_append_left _ (List.mem_map_of_mem h)⟩

theorem touches_output (h : u ∈ manifest.outputs.map ArtifactRef.uri) :
    Touches W devices manifest b "PUT" u :=
  .inr ⟨rfl, List.mem_append_left _ h⟩

theorem touches_shardReads (hgroup : IsGroupJob devices manifest) (h : ref ∈ manifest.inputs)
    (hu : u ∈ shardReads W b ref) : Touches W devices manifest b "GET" u := by
  refine .inl ⟨rfl, List.mem_append_right _ ?_⟩
  rw [if_pos hgroup]
  exact List.mem_flatMap.mpr ⟨ref, h, hu⟩

theorem touches_shardWrites (hgroup : IsGroupJob devices manifest) (h : ref ∈ manifest.outputs)
    (hu : u ∈ shardWrites devices (shardingOf manifest) ref) :
    Touches W devices manifest b "PUT" u := by
  refine .inr ⟨rfl, List.mem_append_right _ ?_⟩
  rw [if_pos hgroup]
  exact List.mem_flatMap.mpr ⟨ref, h, hu⟩

theorem touches_cases {P : String → String → Prop}
    (hinputs : ∀ ref ∈ manifest.inputs, P "GET" ref.uri)
    (houtputs : ∀ ref ∈ manifest.outputs, P "PUT" ref.uri)
    (hreads : IsGroupJob devices manifest → ∀ ref ∈ manifest.inputs, ∀ u ∈ shardReads W b ref,
      P "GET" u)
    (hwrites : IsGroupJob devices manifest → ∀ ref ∈ manifest.outputs,
      ∀ u ∈ shardWrites devices (shardingOf manifest) ref, P "PUT" u)
    {method : String} (h : Touches W devices manifest b method u) : P method u := by
  rcases h with ⟨rfl, h⟩ | ⟨rfl, h⟩
  · rcases List.mem_append.mp h with h | h
    · obtain ⟨ref, href, rfl⟩ := List.mem_map.mp h
      exact hinputs ref href
    · split_ifs at h with hgroup
      · obtain ⟨ref, href, hu⟩ := List.mem_flatMap.mp h
        exact hreads hgroup ref href u hu
      · cases h
  · rcases List.mem_append.mp h with h | h
    · obtain ⟨ref, href, rfl⟩ := List.mem_map.mp h
      exact houtputs ref href
    · split_ifs at h with hgroup
      · obtain ⟨ref, href, hu⟩ := List.mem_flatMap.mp h
        exact hwrites hgroup ref href u hu
      · cases h

end Touched

theorem failed_footprint {err : PyErr}
    (h : Logs grants (Touches W devices manifest e.store.1) e e') :
    Footprint W devices manifest grants e (.error err) e' :=
  ⟨h, fun _ herr => by cases herr⟩

theorem publish_footprint (hsplit : SplitsEvenly W) (hgroup : IsGroupJob devices manifest)
    {e e₁ : Logging β τ} {signer : Signer β} {outputs : SortedDict String τ}
    {finish : List (Option (SealedOutput β) × ArtifactDigest) → List ArtifactDigest → JobReceiptV3}
    (hlogs : Logs grants (Touches W devices manifest e.store.1) e e₁)
    (hreads : ∀ ref ∈ manifest.inputs, ∀ u ∈ shardReads W e.store.1 ref,
      Logged grants "GET" u e₁) :
    Effects.Ends (do
      let placed ← manifest.outputs.mapM
        (placeOutput W loggedStores cfg devices grants signer outputs (shardingOf manifest))
      (placed.filterMap Prod.fst).forM (putOutput loggedStores grants)
      let digests ← manifest.inputs.mapM (digestInput W.toWorkerLibraries loggedStores grants)
      return finish placed digests) e₁ (Footprint W devices manifest grants e) := by
  have hplace : Effects.Within (Logs grants (Touches W devices manifest e.store.1))
      (manifest.outputs.mapM
        (placeOutput W loggedStores cfg devices grants signer outputs (shardingOf manifest))) :=
    Effects.Within.mapM fun ref href => placeOutput_within hsplit
      (touches_output (List.mem_map_of_mem href)) fun u hu => touches_shardWrites hgroup href hu
  have hdigest : Effects.Within (Logs grants (Touches W devices manifest e.store.1))
      (manifest.inputs.mapM (digestInput W.toWorkerLibraries loggedStores grants)) :=
    Effects.Within.mapM fun ref href => within_digestInput (within_get (touches_input href))
  refine Effects.ends_bind ?_ fun err e₂ hrun => failed_footprint (hlogs.trans ?_)
  · intro placed e₂ hplaced
    have hlogs₂ := (hplace e₁).of_ok hplaced
    obtain ⟨hwaiting, hdone⟩ := placed_cases hsplit hplaced
    have hupload : Effects.Within (Logs (τ := τ) grants (Touches W devices manifest e.store.1))
        ((placed.filterMap Prod.fst).forM (putOutput loggedStores grants)) :=
      Effects.Within.forM fun sealed hsealed =>
        within_put (touches_output (hwaiting sealed hsealed)) _
    refine Effects.ends_bind ?_ fun err e₃ hrun =>
      failed_footprint (hlogs.trans (hlogs₂.trans ((hupload e₂).of_error hrun)))
    intro _ e₃ hput
    have hlogs₃ := (hupload e₂).of_ok hput
    refine Effects.ends_bind ?_ fun err e₄ hrun => failed_footprint
      (hlogs.trans (hlogs₂.trans (hlogs₃.trans ((hdigest e₃).of_error hrun))))
    intro digests e₄ hdigests
    have hlogs₄ := (hdigest e₃).of_ok hdigests
    refine ⟨hlogs.trans (hlogs₂.trans (hlogs₃.trans hlogs₄)), ?_⟩
    intro receipt _ method uri htouches
    refine touches_cases (P := fun method u => Logged grants method u e₄) ?_ ?_ ?_ ?_ htouches
    · exact digests_logged hdigests
    · intro ref href
      rcases (hdone ref href).2 with hlogged | ⟨sealed, hsealed, huri⟩
      · exact (hlogs₃.trans hlogs₄).keeps hlogged
      · rw [← huri]
        exact hlogs₄.keeps (uploads_logged hput sealed hsealed)
    · intro _ ref href u hu
      exact (hlogs₂.trans (hlogs₃.trans hlogs₄)).keeps (hreads ref href u hu)
    · intro _ ref href u hu
      exact (hlogs₃.trans hlogs₄).keeps ((hdone ref href).1 u hu)
  · exact (hplace e₁).of_error hrun

theorem executeTensorParallel_footprint (hsplit : SplitsEvenly W)
    (hgroup : IsGroupJob devices manifest) (e : Logging β τ) :
    Effects.Ends (executeTensorParallel W loggedStores cfg devices grants miner times manifest) e
      (Footprint W devices manifest grants e) := by
  refine Effects.ends_lift_bind (fun _ _ => ?_) fun err _ => failed_footprint (Logs.refl e)
  refine Effects.ends_get_bind ?_
  refine Effects.ends_lift_bind (fun _ _ => ?_) fun err _ => failed_footprint (Logs.refl e)
  have hreads : ∀ ref ∈ manifest.inputs, Touches W devices manifest e.store.1 "GET" ref.uri ∧
      ∀ u ∈ shardReads W e.store.1 ref, Touches W devices manifest e.store.1 "GET" u :=
    fun ref href => ⟨touches_input href, fun u hu => touches_shardReads hgroup href hu⟩
  refine (loadGroupInputs_logs rfl hreads).bind ?_ ?_
  · rintro inputs e₁ ⟨-, hlogs, hread⟩
    refine Effects.ends_lift_bind (fun outputs _ => ?_) fun err _ => failed_footprint hlogs
    refine Effects.ends_lift_bind (fun sharding hsharding => ?_) fun err _ => failed_footprint hlogs
    have hsame : sharding = shardingOf manifest := by
      rw [shardingOf, hsharding]
    rw [hsame]
    exact publish_footprint hsplit hgroup hlogs (hread inputs rfl)
  · rintro err e₁ ⟨-, hlogs, -⟩
    exact failed_footprint hlogs

theorem execute_single_footprint (hsingle : ¬ IsGroupJob devices manifest) (e : Logging β τ) :
    Effects.Ends (JobExecution.execute W.toWorkerLibraries loggedStores cfg grants miner times
      manifest) e (Footprint W devices manifest grants e) := by
  have hallowed : Effects.Within (Logs grants (Touches W devices manifest e.store.1))
      (JobExecution.execute W.toWorkerLibraries loggedStores cfg grants miner times manifest) :=
    within_execute W.toWorkerLibraries cfg logs_ofStore miner times
      (fun ref href => within_get (touches_input href))
      (fun uri huri body => within_put (touches_output huri) body)
  have hwithin := hallowed e
  refine Effects.ends_iff.mpr ⟨?_, fun err e' hrun => failed_footprint (hwithin.of_error hrun)⟩
  intro receipt e' hrun
  refine ⟨hwithin.of_ok hrun, ?_⟩
  intro _ _ method uri htouches
  obtain ⟨graph, e₁, inputs, e₂, computed, sealed, e₃, e₄, digests, -, -, -, hsealed, hput, hcache,
    hdigests, -⟩ := execute_ok hrun
  have hkeeps : Logs grants (fun _ _ => True) e₃ e' :=
    (((within_cacheOutputs logs_ofStore.offTensors _ _) e₃).of_ok hcache).trans
      ((Effects.Within.mapM (fun _ _ => within_digestInput (within_get trivial)) e₄).of_ok hdigests)
  refine touches_cases (P := fun method u => Logged grants method u e') ?_ ?_
    (fun hgroup => absurd hgroup hsingle) (fun hgroup => absurd hgroup hsingle) htouches
  · exact digests_logged hdigests
  · intro ref href
    have hmem : ref.uri ∈ sealed.map SealedOutput.uri := by
      rw [sealed_uris hsealed]
      exact List.mem_map_of_mem href
    obtain ⟨output, houtput, huri⟩ := List.mem_map.mp hmem
    rw [← huri]
    exact hkeeps.keeps (uploads_logged hput output houtput)

theorem execute_footprint (hsplit : SplitsEvenly W) (e : Logging β τ) :
    Effects.Ends (DistributedExecution.execute W loggedStores cfg devices grants miner times
      manifest) e (Footprint W devices manifest grants e) := by
  unfold DistributedExecution.execute
  by_cases hgroup : IsGroupJob devices manifest
  · have hnot : ¬ (devices.length ≤ 1 ∨ (!isTensorParallel manifest) = true) := by
      simpa [IsGroupJob] using hgroup
    rw [if_neg hnot]
    exact executeTensorParallel_footprint hsplit hgroup e
  · have hsingle : devices.length ≤ 1 ∨ (!isTensorParallel manifest) = true := by
      by_contra hnot
      exact hgroup (by simpa [IsGroupJob] using hnot)
    rw [if_pos hsingle]
    refine (execute_single_footprint hgroup e).bind ?_ fun err e' h => h
    rintro receipt e' ⟨hlogs, hlogged⟩
    exact ⟨hlogs, fun _ _ => hlogged receipt rfl⟩

end Execution

section Sufficiency

variable (W : GroupLibraries β τ) (devices : List String) (manifest : JobManifestV3)

/-- The job reads only declared inputs that it does not write, and it writes only objects that a
grant to write was minted for. -/
structure Sufficient (b : Bucket β) (puts : List String) (receipt : String) : Prop where
  reads : ∀ u ∈ readUris W devices manifest b,
    u ∈ manifest.inputs.map ArtifactRef.uri ∧ u ∉ puts ∧ u ≠ receipt
  writes : ∀ u ∈ writeUris devices manifest, u ∈ puts ∨ u = receipt

variable {W devices manifest}

theorem sufficient_iff {b : Bucket β} {puts : List String} {receipt : String}
    {grant : AssignmentGrantV3}
    (h : Covers (manifest.inputs.map ArtifactRef.uri) puts receipt grant) :
    Sufficient W devices manifest b puts receipt ↔
      ∀ method u, Touches W devices manifest b method u →
        Access.Granted ⟨method, u, lookup grant u⟩ := by
  constructor
  · rintro hs method u (⟨rfl, hu⟩ | ⟨rfl, hu⟩)
    · exact (granted_get_iff h).mpr (hs.reads u hu)
    · exact (granted_put_iff h).mpr (hs.writes u hu)
  · intro hall
    refine ⟨fun u hu => ?_, fun u hu => ?_⟩
    · exact (granted_get_iff h).mp (hall "GET" u (.inl ⟨rfl, hu⟩))
    · exact (granted_put_iff h).mp (hall "PUT" u (.inr ⟨rfl, hu⟩))

/-- However an execution ends, sufficient grants cover every use of the transport it has made; and
an execution that is completed has made only granted uses exactly when the grants suffice. The
grant for the receipt is always there. -/
theorem grants_suffice_iff (devices : List String) {broker : GrantBroker}
    (hbroker : Presigns broker) {ttl now netuid : ℤ} {emitter : Emitter} {bucket : String} {grant : AssignmentGrantV3} (hsplit : SplitsEvenly W)
    (hmint : mintGrant broker ttl now manifest (grantedUris emitter netuid bucket manifest) =
      .ok grant)
    (cfg : ExecutorConfig) (miner : Miner β) (times : ExecutionTimes) (b : Bucket β) :
    ∃ puts, grantedPuts emitter manifest = .ok puts ∧
      Access.Granted ⟨"PUT", receiptPlace netuid bucket manifest,
        lookup grant (receiptPlace netuid bucket manifest)⟩ ∧
      Effects.Ends (DistributedExecution.execute W loggedStores cfg devices (lookup grant) miner
        times manifest) { store := (b, []) } fun r e' =>
          (Sufficient W devices manifest b puts (receiptPlace netuid bucket manifest) →
            ∀ a ∈ e'.store.2, a.Granted) ∧
          ∀ receipt, r = .ok receipt → ((∀ a ∈ e'.store.2, a.Granted) ↔
            Sufficient W devices manifest b puts (receiptPlace netuid bucket manifest)) := by
  obtain ⟨puts, hputs, hcovers⟩ := covers_of_mint hbroker hmint
  refine ⟨puts, hputs, (granted_put_iff hcovers).mpr (.inr rfl), ?_⟩
  refine (execute_footprint hsplit _).mono ?_
  rintro r e' ⟨⟨new, hnew, hall⟩, hlogged⟩
  have hlog : e'.store.2 = new := by simpa using hnew
  have hgranted : Sufficient W devices manifest b puts (receiptPlace netuid bucket manifest) →
      ∀ a ∈ e'.store.2, a.Granted := by
    intro hs a ha
    obtain ⟨hgrant, htouches⟩ := hall a (hlog ▸ ha)
    have := (sufficient_iff hcovers).mp hs a.method a.uri htouches
    rwa [← hgrant] at this
  refine ⟨hgranted, ?_⟩
  intro receipt hr
  refine ⟨?_, hgranted⟩
  intro huses
  refine (sufficient_iff hcovers).mpr ?_
  intro method u htouches
  exact huses _ (hlogged receipt hr method u htouches)

def byteGroup : GroupLibraries (List UInt8) (List UInt8) where
  toWorkerLibraries := HonestWork.byteWorker
  tensorSplit := fun t n _ => (List.range n).map fun rank =>
    (t.drop (rank * t.length / n)).take ((rank + 1) * t.length / n - rank * t.length / n)
  ranks := fun _ _ _ => .ok (.ofEntries [("y", [0, 1, 2])])
  cudaAvailable := true
  planHash := fun _ => ""

theorem byteGroup_splits : SplitsEvenly byteGroup := by
  intro t n d
  simp [byteGroup]

def shardedJob (shardCfg : Fields) : JobManifestV3 :=
  { jobId := "j", runId := "r", stepId := 0, kind := "train"
    graphRef := { sha256 := PassedReceipts.constGraph.graphId JsonBytes.bytePlatform,
                  uri := "s3://b/g" }
    params := mkFields
      [("runner", .str "gpt_tensor_parallel_v1"),
       ("output_sharding", .obj [("y", .obj shardCfg)])]
    inputs := [], outputs := [{ name := "y", uri := "s3://b/y.json" }]
    assignedHotkey := "A", assignedWorker := none, attempt := 0, deadlineUnix := 0
    createdUnix := 0, resourceRequirements := { minGpus := 2, placement := "single_host" } }

def noSealing : AssignmentGrantV3 → String → Py Json := fun _ _ => .error .typeError

def mintSharded (emitter : Emitter) (shardCfg : Fields) : Py AssignmentGrantV3 :=
  mintGrant (localBroker 0 noSealing) 60 0 (shardedJob shardCfg)
    (grantedUris emitter 0 "b" (shardedJob shardCfg))

def runSharded (shardCfg : Fields) (grant : AssignmentGrantV3) :
    EStateM.Result PyErr (Logging (List UInt8) (List UInt8)) JobReceiptV3 :=
  DistributedExecution.execute byteGroup loggedStores {} ["cuda:0", "cuda:1", "cuda:2"]
    (lookup grant) (HonestWork.secretMiner "A") ⟨.finite 0, .finite 1, .finite 1⟩
    (shardedJob shardCfg) { store := (HonestWork.graphBucket, []) }

/-- The uses of the transport in a completed run, each with whether there was a grant. -/
def usesOf : EStateM.Result PyErr (Logging (List UInt8) (List UInt8)) JobReceiptV3 →
    Option (List (String × String × Bool))
  | .ok _ e => some (e.store.2.map fun a => (a.method, a.uri, a.grant.isSome))
  | .error _ _ => none

/-- Without a configured world size the executor writes a shard for each of its three devices,
and the grants are for the two that the job asks for. -/
theorem third_shard_not_granted : ∃ grant receipt e,
    mintSharded .manager [("partition_dim", .int 0)] = .ok grant ∧
    runSharded [("partition_dim", .int 0)] grant = .ok receipt e ∧ ∃ a ∈ e.store.2,
      a.method = "PUT" ∧ a.uri = "s3://b/y.rank2.bin" ∧ ¬ a.Granted := by
  have huses : (mintSharded .manager [("partition_dim", .int 0)]).toOption.map (fun grant =>
      usesOf (runSharded [("partition_dim", .int 0)] grant)) =
      some (some [("PUT", "s3://b/y.rank0.bin", true), ("PUT", "s3://b/y.rank1.bin", true),
        ("PUT", "s3://b/y.rank2.bin", false), ("PUT", "s3://b/y.json", true)]) := by
    decide +kernel
  obtain ⟨grant, hgrant, huses⟩ := Option.map_eq_some_iff.mp huses
  cases hrun : runSharded [("partition_dim", .int 0)] grant with
  | error err e =>
    rw [hrun] at huses
    cases huses
  | ok receipt e =>
    rw [hrun] at huses
    have hlist := Option.some.inj huses
    have hmem : ("PUT", "s3://b/y.rank2.bin", false) ∈
        e.store.2.map fun a => (a.method, a.uri, a.grant.isSome) := by
      rw [hlist]
      simp
    obtain ⟨a, ha, hsame⟩ := List.mem_map.mp hmem
    obtain ⟨hmethod, huri, hnone⟩ : a.method = "PUT" ∧ a.uri = "s3://b/y.rank2.bin" ∧
        a.grant.isSome = false := by simpa using hsame
    refine ⟨grant, receipt, e, toOption_eq_some.mp hgrant, hrun, a, ha, hmethod, huri, ?_⟩
    rintro ⟨g, hg, -⟩
    simp [hg] at hnone

def sizedConfig : Fields := [("partition_dim", .int 0), ("world_size", .int 3)]

def sizedPuts : List String :=
  ["s3://b/y.json", "s3://b/y.rank0.bin", "s3://b/y.rank1.bin", "s3://b/y.rank2.bin"]

theorem sizedPuts_granted : grantedPuts .manager (shardedJob sizedConfig) = .ok sizedPuts := by
  decide +kernel

theorem sized_sufficient (b : Bucket (List UInt8)) (receipt : String) :
    Sufficient byteGroup ["cuda:0", "cuda:1", "cuda:2"] (shardedJob sizedConfig) b sizedPuts
      receipt where
  reads := by
    intro u hu
    simp [readUris, shardedJob] at hu
  writes := by
    intro u hu
    have hall : ∀ u ∈ writeUris ["cuda:0", "cuda:1", "cuda:2"] (shardedJob sizedConfig),
        u ∈ sizedPuts := by decide +kernel
    exact .inl (hall u hu)

/-- With the world size in the parameters the grants of the managers suffice. -/
theorem configured_shards_granted : ∃ grant receipt e,
    mintSharded .manager sizedConfig = .ok grant ∧
    runSharded sizedConfig grant = .ok receipt e ∧ e.store.2.length = 4 ∧
    ∀ a ∈ e.store.2, a.Granted := by
  have huses : (mintSharded .manager sizedConfig).toOption.map (fun grant =>
      (usesOf (runSharded sizedConfig grant)).map List.length) = some (some 4) := by
    decide +kernel
  obtain ⟨grant, hgrant, huses⟩ := Option.map_eq_some_iff.mp huses
  have hmint := toOption_eq_some.mp hgrant
  cases hrun : runSharded sizedConfig grant with
  | error err e =>
    rw [hrun] at huses
    cases huses
  | ok receipt e =>
    rw [hrun] at huses
    obtain ⟨puts, hputs, -, hends⟩ := grants_suffice_iff ["cuda:0", "cuda:1", "cuda:2"]
      (presigns_local 0 noSealing) byteGroup_splits hmint {} (HonestWork.secretMiner "A")
      ⟨.finite 0, .finite 1, .finite 1⟩ HonestWork.graphBucket
    cases Except.ok.inj (hputs.symm.trans sizedPuts_granted)
    refine ⟨grant, receipt, e, hmint, hrun, by simpa [usesOf] using huses, ?_⟩
    exact (hends.of_ok hrun).1 (sized_sufficient _ _)

end Sufficiency

end GrantSufficiency

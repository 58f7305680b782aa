import Teuton.ExecutionSteps
import Teuton.PassedReceipts

/-! The digests of the inputs in a receipt, for an executor whose bucket others write to. The
executor takes the digests from a second fetch, after it uploaded its outputs, and the tensors may
come from its caches. -/
namespace InputDigests

open PyJson (Py PyErr Json)
open PyText Signatures ObjectStore Protocol
open AssignmentGrants JobExecution ExecutionSteps PassedReceipts Effects

variable {β τ : Type}

section Sharing

def writeAll (b : Bucket β) (writes : List (String × β)) : Bucket β :=
  writes.foldl (fun b write => { b with objects := b.objects.insert write.1 write.2 }) b

/-- The bucket with the writes of others that are still to come, one batch before each access of
the executor, and with a record of what the executor fetched. -/
structure World (β : Type) where
  bucket : Bucket β
  plan : List (List (String × β)) := []
  fetched : List (String × β) := []

def World.turn (w : World β) : World β :=
  match w.plan with
  | [] => w
  | writes :: plan => { w with bucket := writeAll w.bucket writes, plan := plan }

def World.record (w : World β) (uri : String) (body : β) : World β :=
  { w with fetched := w.fetched ++ [(uri, body)] }

/-- The class `DirectArtifactTransport` on a bucket with other writers. -/
def sharedStores : Stores (World β) β where
  bucket := World.bucket
  get := fun uri _ => do
    modify World.turn
    let w ← get
    let body ← lift (w.bucket.get uri)
    modify fun w => w.record uri body
    return body
  put := fun uri body _ => do
    modify World.turn
    update fun w => do return (⟨⟩, { w with bucket := ← w.bucket.put uri body })

/-- One call of `execute`: what others write before it and during it, and its arguments. -/
structure Call (β : Type) where
  before : List (String × β) := []
  plan : List (List (String × β)) := []
  grants : String → Option PresignedUrlGrant
  miner : Miner β
  times : ExecutionTimes
  manifest : JobManifestV3

def Call.arrive (call : Call β) (e : JobExecutor (World β) τ) : JobExecutor (World β) τ :=
  { e with store := { e.store with
      bucket := writeAll e.store.bucket call.before
      plan := call.plan } }

variable (W : WorkerLibraries β τ) (cfg : ExecutorConfig)

def Call.run (call : Call β) : EStateM PyErr (JobExecutor (World β) τ) JobReceiptV3 := do
  modify call.arrive
  execute W sharedStores cfg call.grants call.miner call.times call.manifest

/-- A sequence of calls. The executor goes on after a call that raised. -/
def runCalls (calls : List (Call β)) (e : JobExecutor (World β) τ) : JobExecutor (World β) τ :=
  calls.foldl (fun e call => after (call.run W cfg) e) e

/-- The call as far as `evaluate`: the tensors that it passes there. -/
def Call.load (call : Call β) :
    EStateM PyErr (JobExecutor (World β) τ) (SortedDict String τ) := do
  modify call.arrive
  let _ ← JobExecution.fetchGraph W sharedStores call.manifest.graphRef.sha256
    call.manifest.graphRef.uri
  decodeInputs W sharedStores cfg call.grants call.manifest.inputs

/-- The tensor was decoded from a body that the executor had fetched from the place. -/
def DecodedFrom (w : World β) (uri : String) (body : β) (value : τ) : Prop :=
  (uri, body) ∈ w.fetched ∧
    ∃ ref : ArtifactRef, ref.uri = uri ∧ openInput W cfg body ref = .ok value

/-- The digest is the one of the bytes from which the tensor passed to `evaluate` was decoded. -/
def Describes (w : World β) (inputs : SortedDict String τ) (ref : ArtifactRef)
    (digest : ArtifactDigest) : Prop :=
  ∃ body value, inputs.find? ref.name = some value ∧ DecodedFrom W cfg w ref.uri body value ∧
    digestBody W.platform ref.name ref.uri body ref.crypto = .ok digest

/-- What others write around the call leaves the object at the place as it is, and the job has no
output there. -/
def Spares (uri : String) (object : Option β) (call : Call β) : Prop :=
  (∀ write ∈ call.before ++ call.plan.flatten, write.1 = uri → some write.2 = object) ∧
    ∀ ref ∈ call.manifest.outputs, ref.uri ≠ uri

end Sharing

theorem find?_writeAll {b : Bucket β} {uri : String} {writes : List (String × β)}
    (h : ∀ write ∈ writes, write.1 = uri → some write.2 = b.objects.find? uri) :
    (writeAll b writes).objects.find? uri = b.objects.find? uri := by
  induction writes generalizing b with
  | nil => rfl
  | cons write writes ih =>
    have hfirst : (b.objects.insert write.1 write.2).find? uri = b.objects.find? uri := by
      rw [SortedDict.find?_insert]
      split_ifs with huri
      · exact h write List.mem_cons_self huri.symm
      · rfl
    have hrest := ih (b := { b with objects := b.objects.insert write.1 write.2 }) ?_
    · exact hrest.trans hfirst
    · intro later hlater huri
      exact (h later (List.mem_cons_of_mem _ hlater) huri).trans hfirst.symm

/-! ### One place -/

section Place

variable (W : WorkerLibraries β τ) (cfg : ExecutorConfig) (uri : String) (object : Option β)

/-- The place holds the one object, others will not change it, nothing else was fetched from
there, and the tensor cached for it was decoded from what was fetched. -/
structure Kept (e : JobExecutor (World β) τ) : Prop where
  stored : e.store.bucket.objects.find? uri = object
  planned : ∀ writes ∈ e.store.plan, ∀ write ∈ writes, write.1 = uri → some write.2 = object
  fetched : ∀ body, (uri, body) ∈ e.store.fetched → some body = object
  cached : ∀ value, e.inputCache.find? uri = some value →
    ∃ body, DecodedFrom W cfg e.store uri body value
  unmade : e.outputCache.find? uri = none

def Keeps (e e' : JobExecutor (World β) τ) : Prop :=
  Kept W cfg uri object e → Kept W cfg uri object e' ∧ e.store.fetched ⊆ e'.store.fetched

instance : IsPreorder (JobExecutor (World β) τ) (Keeps W cfg uri object) where
  refl := fun _ h => ⟨h, fun _ hx => hx⟩
  trans := fun _ _ _ h h' he =>
    ⟨(h' (h he).1).1, fun _ hx => (h' (h he).1).2 ((h he).2 hx)⟩

variable {W cfg uri object}

variable {body : β} {value : τ} {place : String} {e e' : JobExecutor (World β) τ}
variable {grant : Option PresignedUrlGrant}

theorem DecodedFrom.mono {w w' : World β} (h : w.fetched ⊆ w'.fetched)
    (hw : DecodedFrom W cfg w uri body value) : DecodedFrom W cfg w' uri body value :=
  ⟨h hw.1, hw.2⟩

theorem Kept.turn (h : Kept W cfg uri object e) :
    Kept W cfg uri object { e with store := e.store.turn } := by
  unfold World.turn
  split
  · exact h
  next writes plan hplan =>
    have hbatch := h.planned writes (hplan ▸ List.mem_cons_self)
    refine ⟨?_, ?_, h.fetched, h.cached, h.unmade⟩
    · rw [find?_writeAll fun write hwrite hkey => (hbatch write hwrite hkey).trans h.stored.symm]
      exact h.stored
    · exact fun later hlater => h.planned later (hplan ▸ List.mem_cons_of_mem _ hlater)

theorem fetched_turn (w : World β) : w.turn.fetched = w.fetched := by
  unfold World.turn
  split
  · rfl
  · rfl

theorem sharedGet_ok (h : onStore (sharedStores.get place grant) e = .ok body e') :
    e.store.turn.bucket.get place = .ok body ∧
      e' = { e with store := e.store.turn.record place body } := by
  obtain ⟨w, hrun, rfl⟩ := zoom_eq_ok.mp h
  obtain ⟨_, _, hturn, hrun⟩ := bind_eq_ok.mp hrun
  cases modify_eq_ok.mp hturn
  obtain ⟨_, _, hget, hrun⟩ := bind_eq_ok.mp hrun
  obtain ⟨rfl, rfl⟩ := get_eq_ok.mp hget
  obtain ⟨_, _, hlift, hrun⟩ := bind_eq_ok.mp hrun
  obtain ⟨hbody, rfl⟩ := lift_eq_ok.mp hlift
  obtain ⟨_, _, hrecord, hrun⟩ := bind_eq_ok.mp hrun
  cases modify_eq_ok.mp hrecord
  cases hrun
  exact ⟨hbody, rfl⟩

theorem sharedGet_error {err : PyErr}
    (h : onStore (sharedStores.get place grant) e = .error err e') :
    e' = { e with store := e.store.turn } := by
  obtain ⟨w, hrun, rfl⟩ := zoom_eq_error.mp h
  rcases bind_eq_error.mp hrun with hturn | ⟨_, _, hturn, hrun⟩
  · exact absurd hturn modify_ne_error
  cases modify_eq_ok.mp hturn
  rcases bind_eq_error.mp hrun with hget | ⟨_, _, hget, hrun⟩
  · exact absurd hget get_ne_error
  obtain ⟨rfl, rfl⟩ := get_eq_ok.mp hget
  rcases bind_eq_error.mp hrun with hlift | ⟨_, _, hlift, hrun⟩
  · obtain ⟨-, rfl⟩ := lift_eq_error.mp hlift
    rfl
  rcases bind_eq_error.mp hrun with hrecord | ⟨_, _, hrecord, hrun⟩
  · exact absurd hrecord modify_ne_error
  · cases hrun

theorem Kept.get (he : Kept W cfg uri object e)
    (h : onStore (sharedStores.get uri grant) e = .ok body e') :
    object = some body ∧ (uri, body) ∈ e'.store.fetched := by
  obtain ⟨hbody, rfl⟩ := sharedGet_ok h
  refine ⟨?_, List.mem_append_right _ (List.mem_singleton_self _)⟩
  rw [← he.turn.stored]
  exact (Bucket.get_eq_ok.mp hbody).2

theorem Kept.record (h : Kept W cfg uri object e)
    (hbody : e.store.bucket.get place = .ok body) :
    Kept W cfg uri object { e with store := e.store.record place body } := by
  have hmono : e.store.fetched ⊆ (e.store.record place body).fetched :=
    List.subset_append_left _ _
  refine ⟨h.stored, h.planned, ?_, ?_, h.unmade⟩
  · intro fetched hfetched
    rcases List.mem_append.mp hfetched with hold | hnew
    · exact h.fetched fetched hold
    · cases List.mem_singleton.mp hnew
      rw [← h.stored]
      exact (Bucket.get_eq_ok.mp hbody).2.symm
  · intro value hvalue
    obtain ⟨source, hsource⟩ := h.cached value hvalue
    exact ⟨source, hsource.mono hmono⟩

theorem keeps_get (place : String) (grant : Option PresignedUrlGrant) :
    Within (Keeps W cfg uri object) (onStore (sharedStores.get place grant)) := by
  intro e
  refine ends_iff.mpr ⟨?_, ?_⟩
  · intro body e' h he
    obtain ⟨hbody, rfl⟩ := sharedGet_ok h
    refine ⟨Kept.record he.turn hbody, ?_⟩
    intro x hx
    refine List.mem_append_left _ ?_
    rwa [fetched_turn]
  · intro err e' h he
    cases sharedGet_error h
    refine ⟨he.turn, ?_⟩
    intro x hx
    rwa [fetched_turn]

theorem keeps_put (hplace : place ≠ uri) (body : β)
    (grant : Option PresignedUrlGrant) :
    Within (Keeps W cfg uri object) (onStore (sharedStores.put place body grant)) := by
  intro e
  refine ends_iff.mpr ⟨?_, ?_⟩
  · intro _ e' h he
    obtain ⟨w, hrun, rfl⟩ := zoom_eq_ok.mp h
    obtain ⟨_, _, hturn, hrun⟩ := bind_eq_ok.mp hrun
    cases modify_eq_ok.mp hturn
    obtain ⟨b, hb, hw⟩ := PyJson.bind_eq_ok.mp (update_eq_ok.mp hrun)
    cases hw
    obtain ⟨-, rfl⟩ := Bucket.put_eq_ok.mp hb
    have hkept := he.turn
    refine ⟨⟨?_, hkept.planned, hkept.fetched, hkept.cached, hkept.unmade⟩, ?_⟩
    · rw [← hkept.stored, SortedDict.find?_insert, if_neg hplace.symm]
    · intro x hx
      rwa [fetched_turn]
  · intro err e' h he
    obtain ⟨w, hrun, rfl⟩ := zoom_eq_error.mp h
    rcases bind_eq_error.mp hrun with hturn | ⟨_, _, hturn, hrun⟩
    · exact absurd hturn modify_ne_error
    cases modify_eq_ok.mp hturn
    obtain ⟨-, rfl⟩ := update_eq_error.mp hrun
    refine ⟨he.turn, ?_⟩
    intro x hx
    rwa [fetched_turn]

theorem keeps_fetchGraph (sha place : String) :
    Within (Keeps W cfg uri object) (JobExecution.fetchGraph W sharedStores sha place) := by
  refine within_get.bind fun e => ?_
  split
  · exact within_pure _
  · refine (within_lift _).bind fun graph => ?_
    refine Within.bind (within_modify fun e he => ⟨?_, fun _ hx => hx⟩) fun _ => within_pure _
    exact ⟨he.stored, he.planned, he.fetched, he.cached, he.unmade⟩

theorem Kept.cacheInput (he : Kept W cfg uri object e)
    (hsource : place = uri → ∃ body, DecodedFrom W cfg e.store uri body value)
    (h : JobExecution.cacheInput W cfg place value e = .ok ⟨⟩ e') :
    Kept W cfg uri object e' := by
  obtain ⟨c, hc, rfl⟩ := cacheInput_ok h
  refine ⟨he.stored, he.planned, he.fetched, ?_, he.unmade⟩
  intro kept hkept
  rcases TensorCache.find?_of_cacheTensor hc hkept with ⟨hplace, rfl⟩ | hold
  · exact hsource hplace
  · exact he.cached kept hold

theorem keeps_cacheOutput (hplace : place ≠ uri) (value : τ) :
    Within (Keeps W cfg uri object) (cacheOutput (σ := World β) W cfg place value) := by
  refine within_update fun e _ e' h he => ?_
  obtain ⟨c, hc, hpure⟩ := PyJson.bind_eq_ok.mp h
  cases hpure
  refine ⟨⟨he.stored, he.planned, he.fetched, he.cached, ?_⟩, fun _ hx => hx⟩
  refine Option.eq_none_iff_forall_ne_some.mpr fun kept hkept => ?_
  rcases TensorCache.find?_of_cacheTensor hc hkept with ⟨hsame, -⟩ | hold
  · exact hplace hsame
  · rw [he.unmade] at hold
    cases hold

variable {grants : String → Option PresignedUrlGrant}

theorem decodeInput_source {ref : ArtifactRef}
    (he : Kept W cfg uri object e)
    (h : decodeInput W sharedStores cfg grants ref e = .ok value e') :
    Kept W cfg uri object e' ∧ e.store.fetched ⊆ e'.store.fetched ∧
      (ref.uri = uri → ∃ body, DecodedFrom W cfg e'.store uri body value) := by
  rcases decodeInput_ok h with ⟨hcached, rfl⟩ | ⟨-, hload⟩
  · refine ⟨he, fun _ hx => hx, ?_⟩
    rintro rfl
    rw [he.unmade, Option.none_or] at hcached
    exact he.cached value hcached
  · obtain ⟨body, e₁, hget, hopen, hend⟩ := loadInput_ok hload
    obtain ⟨he₁, hmono⟩ := (keeps_get ref.uri _ e).of_ok hget he
    have hsource : ref.uri = uri → ∃ body, DecodedFrom W cfg e₁.store uri body value := by
      intro hplace
      have hfetched := sharedGet_ok hget
      refine ⟨body, ?_, ref, hplace, hopen⟩
      rw [hfetched.2, ← hplace]
      exact List.mem_append_right _ (List.mem_singleton_self _)
    rcases hend with ⟨-, hcache⟩ | ⟨-, rfl⟩
    · have hkept := he₁.cacheInput hsource hcache
      obtain ⟨c, -, rfl⟩ := cacheInput_ok hcache
      exact ⟨hkept, hmono, hsource⟩
    · exact ⟨he₁, hmono, hsource⟩

theorem keeps_decodeInput (ref : ArtifactRef) :
    Within (Keeps W cfg uri object) (decodeInput W sharedStores cfg grants ref) := by
  intro e
  refine ends_iff.mpr ⟨?_, ?_⟩
  · intro value e' h he
    obtain ⟨hkept, hmono, -⟩ := decodeInput_source he h
    exact ⟨hkept, hmono⟩
  · intro err e' h he
    rcases bind_eq_error.mp h with hget | ⟨_, _, hget, h⟩
    · exact absurd hget get_ne_error
    obtain ⟨rfl, rfl⟩ := get_eq_ok.mp hget
    cases hcached : (e.outputCache.find? ref.uri).or (e.inputCache.find? ref.uri) with
    | some value =>
      simp only [hcached] at h
      cases h
    | none =>
      simp only [hcached] at h
      rcases bind_eq_error.mp h with hfetch | ⟨body, e₁, hfetch, h⟩
      · exact (keeps_get ref.uri _ e).of_error hfetch he
      have hkept := (keeps_get ref.uri _ e).of_ok hfetch he
      rcases bind_eq_error.mp h with hopen | ⟨value, _, hopen, h⟩
      · obtain ⟨-, rfl⟩ := lift_eq_error.mp hopen
        exact hkept
      obtain ⟨-, rfl⟩ := lift_eq_ok.mp hopen
      split_ifs at h
      · rcases bind_eq_error.mp h with hcache | ⟨_, _, -, h⟩
        · obtain ⟨-, rfl⟩ := update_eq_error.mp hcache
          exact hkept
        · cases h
      · cases h

theorem keeps_cacheOutputs {refs : List ArtifactRef} (hrefs : ∀ ref ∈ refs, ref.uri ≠ uri)
    (outputs : SortedDict String τ) :
    Within (Keeps W cfg uri object) (cacheOutputs (σ := World β) W cfg outputs refs) := by
  refine Within.forM fun ref href => ?_
  split
  · exact within_lift _
  · exact keeps_cacheOutput (hrefs ref href) _

theorem keeps_execute {call : Call β} (hcall : Spares uri object call) :
    Within (Keeps W cfg uri object)
      (execute W sharedStores cfg call.grants call.miner call.times call.manifest) := by
  refine within_execute_of_parts _ _ keeps_fetchGraph
    (within_decodeInputs_of_each fun ref _ => keeps_decodeInput ref) ?_
    (keeps_cacheOutputs hcall.2) fun ref _ => within_digestInput (keeps_get _ _)
  intro place hplace body
  obtain ⟨ref, href, rfl⟩ := List.mem_map.mp hplace
  exact keeps_put (hcall.2 ref href) body _

theorem Kept.arrive {call : Call β} (hcall : Spares uri object call)
    (h : Kept W cfg uri object e) : Kept W cfg uri object (call.arrive e) := by
  refine ⟨?_, ?_, h.fetched, h.cached, h.unmade⟩
  · have hspared : ∀ write ∈ call.before, write.1 = uri →
        some write.2 = e.store.bucket.objects.find? uri := by
      intro write hwrite hkey
      rw [h.stored]
      exact hcall.1 write (List.mem_append_left _ hwrite) hkey
    exact (find?_writeAll hspared).trans h.stored
  · intro writes hwrites write hwrite hkey
    refine hcall.1 write (List.mem_append_right _ ?_) hkey
    exact List.mem_flatten.mpr ⟨writes, hwrites, hwrite⟩

theorem Kept.runCalls {calls : List (Call β)} (hcalls : ∀ call ∈ calls, Spares uri object call)
    (h : Kept W cfg uri object e) :
    Kept W cfg uri object (runCalls W cfg calls e) := by
  induction calls generalizing e with
  | nil => exact h
  | cons call calls ih =>
    have hcall := hcalls call List.mem_cons_self
    refine ih (fun later hlater => hcalls later (List.mem_cons_of_mem _ hlater)) ?_
    obtain ⟨_, hkept⟩ := (keeps_execute hcall (call.arrive e)).after
    exact (hkept (h.arrive hcall)).1

end Place

/-! ### Receipts -/

section Receipts

variable {W : WorkerLibraries β τ} {cfg : ExecutorConfig} {uri : String} {object : Option β}
variable {grants : String → Option PresignedUrlGrant}

theorem exists_partner {α γ : Type} {R : α → γ → Prop} {l : List α} {l' : List γ}
    (h : List.Forall₂ R l l') {a : α} (ha : a ∈ l) : ∃ b, (a, b) ∈ l.zip l' ∧ R a b := by
  induction h with
  | nil => cases ha
  | @cons c b l l' hfirst _ ih =>
    rcases List.mem_cons.mp ha with rfl | hrest
    · exact ⟨b, List.mem_cons_self, hfirst⟩
    · obtain ⟨b', hb', hR⟩ := ih hrest
      exact ⟨b', List.mem_cons_of_mem _ hb', hR⟩

variable {refs : List ArtifactRef} {e : JobExecutor (World β) τ}

theorem decodeInputs_ok {σ : Type} {S : Stores σ β}
    {inputs : SortedDict String τ} {e e' : JobExecutor σ τ}
    (h : decodeInputs W S cfg grants refs e = .ok inputs e') :
    ∃ order values, List.Perm order refs ∧
      order.mapM (decodeInput W S cfg grants) e = .ok values e' ∧
      inputs = .ofEntries ((order.map ArtifactRef.name).zip values) := by
  obtain ⟨_, _, hget, h⟩ := bind_eq_ok.mp h
  obtain ⟨rfl, rfl⟩ := get_eq_ok.mp hget
  obtain ⟨values, _, hvalues, hinputs⟩ := bind_eq_ok.mp h
  cases hinputs
  refine ⟨(refs.partition fun ref => isCached e ref.uri).1 ++
    (refs.partition fun ref => isCached e ref.uri).2, values, ?_, hvalues, rfl⟩
  rw [List.partition_eq_filter_filter]
  exact List.filter_append_perm _ _

theorem decodeInputs_source {inputs : SortedDict String τ}
    {e' : JobExecutor (World β) τ} (hnames : (refs.map ArtifactRef.name).Nodup)
    (he : Kept W cfg uri object e)
    (h : decodeInputs W sharedStores cfg grants refs e = .ok inputs e') :
    ∀ ref ∈ refs, ref.uri = uri → ∃ body value, inputs.find? ref.name = some value ∧
      DecodedFrom W cfg e'.store uri body value := by
  obtain ⟨order, values, hperm, hvalues, rfl⟩ := decodeInputs_ok h
  obtain ⟨-, -, hsources⟩ := mapM_forall₂ (I := Kept W cfg uri object)
    (Q := fun ref value s => ref.uri = uri → ∃ body, DecodedFrom W cfg s.store uri body value)
    hvalues he
    (fun ref _ value u v hu hstep => by
      obtain ⟨hkept, -, hsource⟩ := decodeInput_source hu hstep
      exact ⟨hkept, hsource⟩)
    (fun ref _ value u v hu hstep ref' value' hold hplace => by
      obtain ⟨-, hmono, -⟩ := decodeInput_source hu hstep
      obtain ⟨body, hbody⟩ := hold hplace
      exact ⟨body, hbody.mono hmono⟩)
  intro ref href hplace
  obtain ⟨value, hpair, hsource⟩ := exists_partner hsources (hperm.mem_iff.mpr href)
  obtain ⟨body, hbody⟩ := hsource hplace
  refine ⟨body, value, SortedDict.find?_ofEntries_of_mem ?_ ?_, hbody⟩
  · rw [List.map_fst_zip (by rw [List.length_map, hsources.length_eq])]
    exact (hperm.map ArtifactRef.name).nodup_iff.mpr hnames
  · rw [List.zip_map_left]
    exact List.mem_map_of_mem (f := Prod.map ArtifactRef.name id) hpair

theorem digestInputs_source {digests : List ArtifactDigest}
    {e' : JobExecutor (World β) τ} (he : Kept W cfg uri object e)
    (h : refs.mapM (digestInput W sharedStores grants) e = .ok digests e') :
    List.Forall₂ (fun ref digest => ref.uri = uri → ∃ body, object = some body ∧
      digestBody W.platform ref.name ref.uri body ref.crypto = .ok digest) refs digests := by
  refine (mapM_forall₂ (I := Kept W cfg uri object) (Q := fun ref digest _ => ref.uri = uri →
    ∃ body, object = some body ∧
      digestBody W.platform ref.name ref.uri body ref.crypto = .ok digest) h he ?_ ?_).2.2
  swap
  · intro _ _ _ _ _ _ _ _ _ hold
    exact hold
  intro ref _ digest u v hu hstep
  obtain ⟨body, u₁, hget, hlift⟩ := bind_eq_ok.mp hstep
  obtain ⟨hdigest, rfl⟩ := lift_eq_ok.mp hlift
  refine ⟨((keeps_get ref.uri _ u).of_ok hget hu).1, ?_⟩
  rintro rfl
  exact ⟨body, (hu.get hget).1, hdigest⟩

/-- The executor has no tensor for the place, and the record begins here. -/
structure Begins (uri : String) (e : JobExecutor (World β) τ) : Prop where
  nothingPlanned : e.store.plan = []
  nothingFetched : e.store.fetched = []
  notCached : e.inputCache.find? uri = none
  notMade : e.outputCache.find? uri = none

theorem Begins.kept (h : Begins uri e) :
    Kept W cfg uri (e.store.bucket.objects.find? uri) e := by
  refine ⟨rfl, ?_, ?_, ?_, h.notMade⟩
  · rw [h.nothingPlanned]
    exact fun _ hwrites => absurd hwrites List.not_mem_nil
  · rw [h.nothingFetched]
    exact fun _ hbody => absurd hbody List.not_mem_nil
  · rw [h.notCached]
    exact fun _ hvalue => absurd hvalue nofun

end Receipts

/-- As long as nobody changes the object at a place and no job of the run has an output there, the
digest that a receipt has for an input at that place is the one of the bytes from which the tensor
passed to `evaluate` was decoded, and all fetches from there returned these bytes. -/
theorem inputs_described (W : WorkerLibraries β τ) (cfg : ExecutorConfig) {uri : String}
    {e : JobExecutor (World β) τ} (hbegin : Begins uri e) {earlier : List (Call β)} {call : Call β}
    (hspares : ∀ c ∈ earlier ++ [call], Spares uri (e.store.bucket.objects.find? uri) c)
    (hnames : (call.manifest.inputs.map ArtifactRef.name).Nodup) {receipt : JobReceiptV3}
    {e' : JobExecutor (World β) τ}
    (h : call.run W cfg (runCalls W cfg earlier e) = .ok receipt e') :
    (∃ inputs e₂, call.load W cfg (runCalls W cfg earlier e) = .ok inputs e₂ ∧
      List.Forall₂ (fun ref digest => ref.uri = uri → Describes W cfg e₂.store inputs ref digest)
        call.manifest.inputs receipt.inputDigests) ∧
    ∀ body, (uri, body) ∈ e'.store.fetched → e.store.bucket.objects.find? uri = some body := by
  have hearlier : Kept W cfg uri (e.store.bucket.objects.find? uri) (runCalls W cfg earlier e) :=
    hbegin.kept.runCalls fun c hc => hspares c (List.mem_append_left _ hc)
  have hcall := hspares call (List.mem_append_right _ (List.mem_singleton_self call))
  obtain ⟨_, _, harrive, hexec⟩ := bind_eq_ok.mp h
  cases modify_eq_ok.mp harrive
  have hstart := hearlier.arrive hcall
  obtain ⟨graph, e₁, inputs, e₂, computed, sealed, e₃, e₄, digests, hgraph, hinputs, -, hsealed,
    hput, hcache, hdigests, rfl⟩ := execute_ok hexec
  have he₁ := ((keeps_fetchGraph _ _ _).of_ok hgraph hstart).1
  obtain ⟨he₂, -⟩ :=
    (within_decodeInputs_of_each (fun ref _ => keeps_decodeInput ref) e₁).of_ok hinputs he₁
  have hsources := decodeInputs_source hnames he₁ hinputs
  have hupload : Within (Keeps W cfg uri (e.store.bucket.objects.find? uri))
      (sealed.forM (putOutput sharedStores call.grants)) := by
    refine Within.forM fun output houtput => keeps_put ?_ _ _
    have huri : output.uri ∈ call.manifest.outputs.map ArtifactRef.uri := by
      rw [← sealed_uris hsealed]
      exact List.mem_map_of_mem houtput
    obtain ⟨ref, href, hsame⟩ := List.mem_map.mp huri
    rw [← hsame]
    exact hcall.2 ref href
  have he₃ := ((hupload e₂).of_ok hput he₂).1
  have he₄ := ((keeps_cacheOutputs hcall.2 _ e₃).of_ok hcache he₃).1
  have hend := ((keeps_execute hcall _).of_ok hexec hstart).1
  have hload : call.load W cfg (runCalls W cfg earlier e) = .ok inputs e₂ := by
    refine bind_eq_ok.mpr ⟨⟨⟩, call.arrive (runCalls W cfg earlier e), rfl, ?_⟩
    exact bind_eq_ok.mpr ⟨graph, e₁, hgraph, hinputs⟩
  refine ⟨⟨inputs, e₂, hload, ?_⟩, ?_⟩
  · have hdescribed := digestInputs_source he₄ hdigests
    refine List.forall₂_iff_zip.mpr ⟨hdescribed.length_eq, ?_⟩
    intro ref digest hpair hplace
    obtain ⟨body, hbody, hdigest⟩ := (List.forall₂_iff_zip.mp hdescribed).2 hpair hplace
    obtain ⟨source, value, hvalue, hsource⟩ :=
      hsources ref (List.of_mem_zip hpair).1 hplace
    -- what was decoded and what was digested are the one object
    have hsame : source = body :=
      Option.some.inj ((he₂.fetched source hsource.1).trans hbody)
    subst hplace
    exact ⟨source, value, hvalue, hsource, hsame ▸ hdigest⟩
  · intro body hbody
    exact (hend.fetched body hbody).symm

/-! ### A job with one input -/

section OneInput

def numberPlatform : Platform Json :=
  { walletPlatform with
    sha256 := fun body =>
      match body with
      | .int n => List.replicate 32 (UInt8.ofNat n.toNat)
      | _ => List.replicate 32 0 }

def numberWorker : WorkerLibraries Json ℤ where
  platform := numberPlatform
  torch := scalarTorch
  timelock := scalarLibraries.timelock
  buffers := { toBytes := fun _ => [], fromBuffer := fun _ _ _ => .ok 0 }
  elementSize := fun _ => 8
  tolist := .int
  randnLike := fun _ t => t
  zerosLike := fun _ => 0
  increment := fun _ t => t + 1

def xRef : ArtifactRef := { name := "x", uri := "s3://b/x" }

def oneInputJob : JobManifestV3 :=
  { assignedManifest with
    graphRef := { sha256 := constGraph.graphId numberPlatform, uri := "s3://b/g" }
    inputs := [xRef]
    outputs := [{ name := "y", uri := "s3://b/y.json" }] }

def oneInputCall (plan : List (List (String × Json))) : Call Json where
  plan := plan
  grants := fun _ => none
  miner := { worker := { borrowedReceipt.worker with hotkeySs58 := "A", workerId := "wA" } }
  times := ⟨.finite 0, .finite 1, .finite 1⟩
  manifest := oneInputJob

def oneInputStart : JobExecutor (World Json) ℤ where
  store := { bucket := ⟨"b", .ofEntries [("s3://b/g", constGraph.toDict), ("s3://b/x", .int 3)]⟩ }

def lateWrite : List (List (String × Json)) := [[], [], [("s3://b/x", .int 4)]]

/-- The digests of what was fetched before `evaluate`. -/
def fetchedFirst (plan : List (List (String × Json))) : Option (List String) :=
  match (oneInputCall plan).load numberWorker {} oneInputStart with
  | .ok _ e => some (e.store.fetched.map fun item => sha256Hex numberPlatform item.2)
  | .error _ _ => none

def signedDigests (plan : List (List (String × Json))) (e : JobExecutor (World Json) ℤ) :
    Option (List String) :=
  match (oneInputCall plan).run numberWorker {} e with
  | .ok receipt _ => some (receipt.inputDigests.map ArtifactDigest.sha256)
  | .error _ _ => none

theorem raced_facts :
    fetchedFirst lateWrite = some [sha256Hex numberPlatform (.int 3)] ∧
      signedDigests lateWrite oneInputStart = some [sha256Hex numberPlatform (.int 4)] ∧
      sha256Hex numberPlatform (.int 3) ≠ sha256Hex numberPlatform (.int 4) := by
  decide +kernel

/-- Another process replaces the input between the two fetches: the job was computed on the number
3, and the receipt has the digest of the number 4. -/
theorem replaced_input_misdescribed : ∃ inputs e receipt e',
    (oneInputCall lateWrite).load numberWorker {} oneInputStart = .ok inputs e ∧
    (oneInputCall lateWrite).run numberWorker {} oneInputStart = .ok receipt e' ∧
    ¬ List.Forall₂ (Describes numberWorker {} e.store inputs) oneInputJob.inputs
      receipt.inputDigests := by
  obtain ⟨hfetched, hsigned, hne⟩ := raced_facts
  unfold fetchedFirst at hfetched
  unfold signedDigests at hsigned
  split at hfetched
  next inputs e hload =>
    split at hsigned
    next receipt e' hrun =>
      refine ⟨inputs, e, receipt, e', hload, hrun, ?_⟩
      intro hall
      replace hall : List.Forall₂ (Describes numberWorker {} e.store inputs) [xRef]
        receipt.inputDigests := hall
      cases hdigests : receipt.inputDigests with
      | nil =>
        rw [hdigests] at hall
        cases hall
      | cons digest rest =>
        rw [hdigests] at hall hsigned
        obtain ⟨body, value, -, hsource, hdigest⟩ := (List.forall₂_cons.mp hall).1
        have hthree : sha256Hex numberPlatform body = sha256Hex numberPlatform (.int 3) := by
          rw [← List.mem_singleton, ← Option.some.inj hfetched]
          exact List.mem_map_of_mem (f := fun item => sha256Hex numberPlatform item.2) hsource.1
        have hfour : digest.sha256 = sha256Hex numberPlatform (.int 4) :=
          (List.cons.inj (Option.some.inj hsigned)).1
        cases hdigest
        exact hne (hthree.symm.trans hfour)
    next => cases hsigned
  next => cases hfetched

/-- With nobody else at the bucket the second of two executions is described as well. -/
theorem second_execution_described : ∃ receipt e' inputs e₂,
    (oneInputCall []).run numberWorker {} (runCalls numberWorker {} [oneInputCall []]
      oneInputStart) = .ok receipt e' ∧
    (oneInputCall []).load numberWorker {} (runCalls numberWorker {} [oneInputCall []]
      oneInputStart) = .ok inputs e₂ ∧
    List.Forall₂ (fun ref digest => ref.uri = "s3://b/x" →
      Describes numberWorker {} e₂.store inputs ref digest) oneInputJob.inputs
      receipt.inputDigests := by
  have hruns : (signedDigests [] (runCalls numberWorker {} [oneInputCall []]
      oneInputStart)).isSome = true := by decide +kernel
  unfold signedDigests at hruns
  split at hruns
  next receipt e' hrun =>
    have hspares : ∀ c ∈ [oneInputCall []] ++ [oneInputCall []],
        Spares "s3://b/x" (oneInputStart.store.bucket.objects.find? "s3://b/x") c := by
      intro c hc
      have hsame : c = oneInputCall [] := by simpa using hc
      subst hsame
      refine ⟨fun _ hwrite => absurd hwrite List.not_mem_nil, ?_⟩
      decide
    obtain ⟨⟨inputs, e₂, hload, hall⟩, -⟩ := inputs_described numberWorker {}
      (e := oneInputStart) ⟨rfl, rfl, rfl, rfl⟩ hspares (by decide) hrun
    exact ⟨receipt, e', inputs, e₂, hrun, hload, hall⟩
  next => cases hruns

end OneInput

end InputDigests

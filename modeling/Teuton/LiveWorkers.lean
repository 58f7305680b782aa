import Teuton.StreamManager

/-! Which workers get work. A discovery finds the workers whose heartbeats are fresh and enters them
into the quota book; picks look at the book only. Nothing ever takes a worker out of the book, so
that a worker whose heartbeat has expired is picked like any other. -/
namespace LiveWorkers

open PyJson Signatures ObjectStore BucketPaths Protocol JobEmission Scheduler Discovery Dispatch

variable {β : Type}

def name (w : WorkerIdentity) : String × String := (w.hotkeySs58, w.workerId)

/-- The calls of a manager. Between them the heartbeats change in any way, so that a discovery
meets an arbitrary bucket. -/
inductive Event (β : Type) where
  | discover (heartbeats : Bucket β) (now : ℚ)
  | pick (requirements : ResourceRequirements) (hotkeyFilter : String → Bool) (estimatedCu : ℚ≥0)
  | release (hotkey : String) (estimatedCu : ℚ≥0)

structure Floor where
  book : QuotaBook := {}
  found : List DiscoveryRecord := []

/-- The worker is one of the found ones, as its latest heartbeat describes it. -/
def Live (found : List DiscoveryRecord) (w : WorkerIdentity) : Prop :=
  ∃ r ∈ found, r.worker = w ∧
    ∀ r' ∈ found, name r'.worker = name w → r'.lastSeenUnix ≤ r.lastSeenUnix

def Registered (q : QuotaBook) (w : WorkerIdentity) : Prop :=
  ∃ a ∈ q.accounts.vals, w ∈ a.workers.vals

section Calls

variable (p : Platform β) (cfg : RunConfig β) (d : DispatchConfig)

def scan (heartbeats : Bucket β) (now : ℚ) : List DiscoveryRecord :=
  Discovery.discoverWorkers p heartbeats cfg.netuid .train cfg.runId d.discoveryHeartbeatTtlSec now

def apply (s : Floor) : Event β → Floor
  | .discover heartbeats now =>
    { book := (Dispatch.discoverWorkers p cfg d now ⟨heartbeats, s.book, {}⟩).quota
      found := scan p cfg d heartbeats now }
  | .pick requirements hotkeyFilter estimatedCu =>
    match s.book.pickWorker requirements hotkeyFilter estimatedCu with
    | .ok (_, book) => { s with book := book }
    | .error _ => s
  | .release hotkey estimatedCu => { s with book := s.book.release hotkey estimatedCu }

def OwnKeys (heartbeats : Bucket β) (now : ℚ) : Prop :=
  ∀ uri ∈ heartbeats.list (heartbeats.uriForKey (minersPrefix cfg.netuid)), ∀ r,
    liveRecord p heartbeats cfg.netuid .train cfg.runId d.discoveryHeartbeatTtlSec now uri = some r →
      uri = heartbeats.uriForKey
        (workerHeartbeatKey cfg.netuid r.worker.hotkeySs58 r.worker.workerId)

def Keeps (s : Floor) : Event β → Prop
  | .discover heartbeats now => OwnKeys p cfg d heartbeats now ∧
      ∀ r ∈ s.found, ∃ r' ∈ scan p cfg d heartbeats now, name r'.worker = name r.worker
  | .pick .. | .release .. => True

inductive Run : Floor → Prop where
  | start : Run {}
  | call {s} (e : Event β) : Run s → Keeps p cfg d s e → Run (apply p cfg d s e)

end Calls

section Book

variable {q : QuotaBook} {w w' : WorkerIdentity}

theorem registered_changeInflight {hotkey : String} {f : ℚ≥0 → ℚ≥0}
    (h : Registered (q.changeInflight hotkey f) w) : Registered q w := by
  obtain ⟨a, ha, hw⟩ := h
  obtain ⟨a, ha', rfl⟩ := List.mem_map.mp ha
  refine ⟨a, ha', ?_⟩
  unfold MinerAccount.addInflight at hw
  split_ifs at hw
  · exact hw
  · exact hw

theorem registered_setDefault {identity : MinerIdentity} {quota : ℚ}
    (h : ∃ a ∈ (q.accounts.setDefault (.fresh identity quota)).vals, w ∈ a.workers.vals) :
    Registered q w := by
  obtain ⟨a, ha, hw⟩ := h
  unfold KeyedDict.setDefault at ha
  split_ifs at ha
  · exact ⟨a, ha, hw⟩
  · rcases KeyedDict.mem_upsert ha with rfl | ha
    · cases hw
    · exact ⟨a, ha, hw⟩

theorem mem_addWorker {a : MinerAccount} (h : w ∈ (a.addWorker w').workers.vals) :
    w = w' ∨ w ∈ a.workers.vals ∧ name w ≠ name w' := by
  unfold MinerAccount.addWorker at h
  split_ifs at h with hhotkey
  · rcases KeyedDict.mem_upsert h with rfl | hold
    · exact .inl rfl
    · by_cases hid : w.workerId = w'.workerId
      · have hnew : w' ∈ (a.workers.set w').vals :=
          (KeyedDict.get?_eq_some.mp ((KeyedDict.get?_set _ _ _).trans (if_pos rfl))).1
        exact .inl (KeyedDict.eq_of_key_eq h hnew hid)
      · exact .inr ⟨hold, fun hname => hid (Prod.mk.inj hname).2⟩
  · refine .inr ⟨h, fun hname => hhotkey ?_⟩
    rw [← (Prod.mk.inj hname).1]
    exact a.owned w h

theorem registered_register (h : Registered (q.register w') w) :
    w = w' ∨ Registered q w ∧ name w ≠ name w' := by
  obtain ⟨a, ha, hw⟩ := h
  obtain ⟨a, ha', rfl⟩ := List.mem_map.mp ha
  rcases mem_addWorker hw with rfl | ⟨hold, hne⟩
  · exact .inl rfl
  · exact .inr ⟨registered_setDefault ⟨a, ha', hold⟩, hne⟩

theorem registered_foldl {workers : List WorkerIdentity}
    (h : Registered (workers.foldl QuotaBook.register q) w) :
    w ∈ workers ∨ Registered q w ∧ ∀ v ∈ workers, name w ≠ name v := by
  induction workers generalizing q with
  | nil => exact .inr ⟨h, by simp⟩
  | cons v workers ih =>
    rcases ih h with hmem | ⟨hbook, hne⟩
    · exact .inl (List.mem_cons_of_mem v hmem)
    · rcases registered_register hbook with rfl | ⟨hold, hv⟩
      · exact .inl List.mem_cons_self
      · exact .inr ⟨hold, List.forall_mem_cons.mpr ⟨hv, hne⟩⟩

theorem registered_updateWorkers {identities : List MinerIdentity} {workers : List WorkerIdentity}
    (h : Registered (q.updateWorkers identities workers) w) :
    w ∈ workers ∨ Registered q w ∧ ∀ v ∈ workers, name w ≠ name v := by
  have hnamed : ∀ (identities : List MinerIdentity) (accounts : KeyedDict MinerAccount.hotkey),
      (∃ a ∈ (accounts.setDefaults (identities.map (MinerAccount.fresh · q.baseQuota))).vals,
        w ∈ a.workers.vals) → ∃ a ∈ accounts.vals, w ∈ a.workers.vals := by
    intro identities
    induction identities with
    | nil => exact fun accounts h => h
    | cons identity identities ih =>
      intro accounts h
      exact registered_setDefault (q := { q with accounts := accounts }) (ih _ h)
  exact (registered_foldl h).imp_right fun h => ⟨hnamed _ _ h.1, h.2⟩

end Book

section Runs

variable {p : Platform β} {cfg : RunConfig β} {d : DispatchConfig} {s : Floor}

theorem scan_names_nodup {heartbeats : Bucket β} {now : ℚ} (h : OwnKeys p cfg d heartbeats now) :
    ((scan p cfg d heartbeats now).map fun r => name r.worker).Nodup := by
  have hperm := List.perm_insertionSort (fun r s : DiscoveryRecord => r.le s = true)
    (((heartbeats.list (heartbeats.uriForKey (minersPrefix cfg.netuid))).filter
      (PyText.endsWith · "/heartbeat.json")).filterMap
        (liveRecord p heartbeats cfg.netuid .train cfg.runId d.discoveryHeartbeatTtlSec now))
  refine (hperm.map fun r => name r.worker).nodup_iff.mpr ?_
  have hkeys : (heartbeats.list (heartbeats.uriForKey (minersPrefix cfg.netuid))).Nodup :=
    (SortedDict.keys_sorted _).nodup.filter _
  rw [List.Nodup, List.pairwise_map, List.pairwise_filterMap]
  refine (hkeys.filter _).imp_of_mem ?_
  intro uri uri' huri huri' hne r hr r' hr' hname
  rw [h uri (List.mem_of_mem_filter huri) r hr, h uri' (List.mem_of_mem_filter huri') r' hr',
    (Prod.mk.inj hname).1, (Prod.mk.inj hname).2] at hne
  exact hne rfl

theorem live_of_nodup {found : List DiscoveryRecord} {r : DiscoveryRecord}
    (hnodup : (found.map fun r => name r.worker).Nodup) (hr : r ∈ found) : Live found r.worker := by
  refine ⟨r, hr, rfl, ?_⟩
  intro r' hr' hname
  rw [List.inj_on_of_nodup_map hnodup hr' hr hname]

/-- The book has only workers that the latest discovery has found, and each only once. -/
structure Current (s : Floor) : Prop where
  nodup : (s.found.map fun r => name r.worker).Nodup
  found : ∀ w, Registered s.book w → ∃ r ∈ s.found, r.worker = w

theorem Current.pick {requirements : ResourceRequirements} {hotkeyFilter : String → Bool}
    {estimatedCu : ℚ≥0} {w : WorkerIdentity} {book : QuotaBook} (h : Current s)
    (hpick : s.book.pickWorker requirements hotkeyFilter estimatedCu = .ok (w, book)) :
    Live s.found w ∧ Current { s with book := book } := by
  obtain ⟨a, ha, -, hw, -, -, rfl⟩ := pickWorker_eq_ok hpick
  obtain ⟨r, hr, rfl⟩ := h.found w ⟨a, ha, hw⟩
  exact ⟨live_of_nodup h.nodup hr, h.nodup, fun v hv => h.found v (registered_changeInflight hv)⟩

theorem Current.apply (h : Current s) {e : Event β} (hkeeps : Keeps p cfg d s e) :
    Current (apply p cfg d s e) := by
  cases e with
  | discover heartbeats now =>
    obtain ⟨hown, hstill⟩ := hkeeps
    refine ⟨scan_names_nodup hown, fun w hw => ?_⟩
    rcases registered_updateWorkers hw with hmem | ⟨hold, hother⟩
    · exact List.mem_map.mp hmem
    · -- the worker was found before, and the scan has found it again
      obtain ⟨r, hr, rfl⟩ := h.found w hold
      obtain ⟨r', hr', hname⟩ := hstill r hr
      exact absurd hname.symm (hother _ (List.mem_map_of_mem hr'))
  | pick requirements hotkeyFilter estimatedCu =>
    cases hpick : s.book.pickWorker requirements hotkeyFilter estimatedCu with
    | error err => simpa only [LiveWorkers.apply, hpick] using h
    | ok result => simpa only [LiveWorkers.apply, hpick] using (h.pick hpick).2
  | release hotkey estimatedCu =>
    exact ⟨h.nodup, fun w hw => h.found w (registered_changeInflight hw)⟩

theorem current_of_run (h : Run p cfg d s) : Current s := by
  induction h with
  | start =>
    refine ⟨List.nodup_nil, ?_⟩
    rintro w ⟨a, ha, -⟩
    cases ha
  | call e _ hkeeps ih => exact ih.apply hkeeps

/-- As long as no discovery loses a worker, each worker that is picked has been found by the latest
discovery and is described by its latest heartbeat. -/
theorem picked_worker_live (h : Run p cfg d s) {requirements : ResourceRequirements}
    {hotkeyFilter : String → Bool} {estimatedCu : ℚ≥0} {w : WorkerIdentity} {book : QuotaBook}
    (hpick : s.book.pickWorker requirements hotkeyFilter estimatedCu = .ok (w, book)) :
    Live s.found w :=
  ((current_of_run h).pick hpick).1

end Runs

section OneWorker

def heartbeat (devices lastSeen : ℤ) : Bucket Json :=
  ⟨"b", SortedDict.empty.insert "s3://b/v3/netuid=0/miners/A/workers/w/heartbeat.json"
    (mkObj [("worker", mkObj [("hotkey_ss58", .str "A"), ("worker_id", .str "w"),
        ("capabilities", mkObj [("world_size", .int devices)])]),
      ("run_id", .str "r"), ("last_seen_unix", .int lastSeen)])⟩

def oneRun : RunConfig Json := { netuid := 0, runId := "r" }

def calls : List (Event Json) → Floor := List.foldl (apply plainPlatform oneRun {}) {}

def picked (s : Floor) (requirements : ResourceRequirements) : Option (String × Option ℤ) :=
  (s.book.pickWorker requirements).toOption.map fun r =>
    (r.1.workerId, (worldSize r.1).toOption)

/-- A hundred seconds later the heartbeat has expired and the discovery finds no worker, and the
worker is picked all the same. -/
theorem expired_worker_picked :
    (calls [.discover (heartbeat 1 0) 0, .discover (heartbeat 1 0) 100]).found.length = 0 ∧
    picked (calls [.discover (heartbeat 1 0) 0, .discover (heartbeat 1 0) 100]) {} =
      some ("w", some 1) := by
  decide +kernel

theorem ownKeys_heartbeat {heartbeats : Bucket Json} {now : ℚ}
    (h : ∀ uri ∈ heartbeats.list (heartbeats.uriForKey (minersPrefix 0)),
      (liveRecord plainPlatform heartbeats 0 .train "r" (some 30) now uri).all (fun r =>
        uri = heartbeats.uriForKey
          (workerHeartbeatKey 0 r.worker.hotkeySs58 r.worker.workerId)) = true) :
    OwnKeys plainPlatform oneRun {} heartbeats now := by
  intro uri huri r hr
  have hall := h uri huri
  change liveRecord plainPlatform heartbeats 0 .train "r" (some 30) now uri = some r at hr
  rw [hr] at hall
  exact of_decide_eq_true hall

/-- The worker has got more devices; the pick sees what its second heartbeat says. -/
theorem changed_worker_picked : ∃ w book,
    let s := calls [.discover (heartbeat 1 0) 0, .discover (heartbeat 4 20) 40]
    s.book.pickWorker { minGpus := 4 } = .ok (w, book) ∧ w.workerId = "w" ∧ Live s.found w := by
  have hpick : picked (calls [.discover (heartbeat 1 0) 0, .discover (heartbeat 4 20) 40])
      { minGpus := 4 } = some ("w", some 4) := by decide +kernel
  obtain ⟨⟨w, book⟩, hbook, hw⟩ := Option.map_eq_some_iff.mp hpick
  have hfirst : Keeps plainPlatform oneRun {} {} (.discover (heartbeat 1 0) 0) :=
    ⟨ownKeys_heartbeat (by decide +kernel), by simp⟩
  have hsecond : Keeps plainPlatform oneRun {} (calls [.discover (heartbeat 1 0) 0])
      (.discover (heartbeat 4 20) 40) :=
    ⟨ownKeys_heartbeat (by decide +kernel), by decide +kernel⟩
  refine ⟨w, book, toOption_eq_some.mp hbook, (Prod.mk.inj hw).1, ?_⟩
  exact picked_worker_live ((Run.start.call _ hfirst).call _ hsecond) (toOption_eq_some.mp hbook)

end OneWorker

end LiveWorkers

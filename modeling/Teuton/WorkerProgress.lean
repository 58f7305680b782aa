import Teuton.MinerMemory

/-! When a tick of the worker returns, and what it gets done. A failed job is skipped when its
exception is one of those that the worker expects; any other exception, also one of an upload, ends
the tick and with it the loop of the process. While all entries are harmless in this sense, each
tick completes a job or comes to the last entry of the queue. -/
namespace WorkerProgress

open PyJson (Py PyErr Json)
open Signatures ObjectStore Protocol AssignmentGrants Effects OrchestratorQueue
open MinerWorker MinerMemory
open AuditJobs (Halt)

variable {β ε : Type}

section Turns

variable (S : Services β ε) (cfg : WorkerConfig) (around : Surroundings β)

def jobStored (manifest : JobManifestV3) (grant : Option AssignmentGrantV3) (s : Station β ε) :
    Bool :=
  match S.execute manifest (grant.map grantsByUri) (s.bucket, s.executor) with
  | .ok receipt w => (putReceipt S cfg manifest grant receipt w.1).isOk
  | .error _ _ => false

/-- The execution of a job raises one of the exceptions that the worker expects. -/
def jobFailsSoftly (manifest : JobManifestV3) (grant : Option AssignmentGrantV3)
    (s : Station β ε) : Bool :=
  match S.execute manifest (grant.map grantsByUri) (s.bucket, s.executor) with
  | .error (.raised e) _ => isSoft e
  | _ => false

/-- The replay of an audit raises, which is expected, or its result can be uploaded. -/
def auditReturns (manifest : JobManifestV3) (grant : Option AssignmentGrantV3) (s : Station β ε) :
    Bool :=
  match S.auditReplay manifest (grant.map grantsByUri) s.bucket with
  | .ok audit => (putAuditResult S cfg manifest (grant.map grantsByUri) audit s.bucket).isOk
  | .error _ => true

/-- Nothing that happens at the turn of the entry ends the tick: no check raises, the execution
raises only what is expected, and the upload of its result succeeds. -/
def harmless (role : Role) (entry : QueueEntry) (s : Station β ε) : Bool :=
  match screen S cfg role around.grantUnix s.bucket entry with
  | .ok (.run manifest grant) =>
    match role with
    | .train => jobStored S cfg manifest grant s || jobFailsSoftly S manifest grant s
    | .audit => auditReturns S cfg manifest grant s
  | .ok _ => true
  | .error _ => false

def executable (entry : QueueEntry) (s : Station β ε) : Bool :=
  match screen S cfg .train around.grantUnix s.bucket entry with
  | .ok (.run manifest grant) => jobStored S cfg manifest grant s
  | _ => false

def act (role : Role) (entry : QueueEntry) : Decision → Program β ε Bool
  | .skip jobId reason => do
    markSkipped S cfg around jobId reason
    return false
  | .done jobId => do
    remember around jobId
    return false
  | .run manifest grant =>
    match role with
    | .audit => executeAuditReplay S cfg around manifest grant
    | .train => executeJob S cfg around entry manifest grant

variable {S cfg around} {role : Role} {entry : QueueEntry} {s t : Station β ε} {done : Bool}
variable {manifest : JobManifestV3} {grant : Option AssignmentGrantV3}

theorem executeQueueEntry_eq_ok : executeQueueEntry S cfg around role entry s = .ok done t ↔
    ∃ decision, screen S cfg role around.grantUnix s.bucket entry = .ok decision ∧
      act S cfg around role entry decision s = .ok done t := by
  have hmap : ∀ {decision}, (screen S cfg role around.grantUnix s.bucket entry).mapError
      Halt.raised = .ok decision ↔
        screen S cfg role around.grantUnix s.bucket entry = .ok decision := by
    intro decision
    cases screen S cfg role around.grantUnix s.bucket entry <;> simp [Except.mapError]
  constructor
  · intro h
    obtain ⟨_, _, hget, h⟩ := bind_eq_ok.mp h
    obtain ⟨rfl, rfl⟩ := get_eq_ok.mp hget
    obtain ⟨decision, _, hlift, h⟩ := bind_eq_ok.mp h
    obtain ⟨hscreen, rfl⟩ := lift_eq_ok.mp hlift
    exact ⟨decision, hmap.mp hscreen, h⟩
  · rintro ⟨decision, hscreen, h⟩
    exact bind_eq_ok.mpr ⟨s, s, rfl,
      bind_eq_ok.mpr ⟨decision, s, lift_eq_ok.mpr ⟨hmap.mpr hscreen, rfl⟩, h⟩⟩

theorem reach_ok (hstops : ∀ point, around.stops point = false) (point : Point) :
    reach around point s = .ok ⟨⟩ s := by
  rw [reach, hstops point]
  rfl

theorem onBucket_ok {f : Bucket β → Py (Bucket β)} {b : Bucket β} (h : f s.bucket = .ok b) :
    onBucket f s = .ok ⟨⟩ { s with bucket := b } :=
  update_eq_ok.mpr (by rw [h])

theorem markSkipped_ok (S : Services β ε) (cfg : WorkerConfig) (around : Surroundings β)
    (jobId reason : String) (s : Station β ε) : ∃ t,
    markSkipped S cfg around jobId reason s = .ok ⟨⟩ t ∧ t.completedJobs = s.completedJobs := by
  refine ⟨_, modify_eq_ok.mpr rfl, ?_⟩
  split
  · rfl
  · rfl

theorem callExecutor_ok {receipt : JobReceiptV3} {w : Bucket β × ε}
    (h : S.execute manifest (grant.map grantsByUri) (s.bucket, s.executor) = .ok receipt w) :
    callExecutor S manifest grant s =
      .ok (.ok receipt) { s with bucket := w.1, executor := w.2 } := by
  rw [callExecutor, h]

theorem callExecutor_soft {e : PyErr} {w : Bucket β × ε} (hsoft : isSoft e = true)
    (h : S.execute manifest (grant.map grantsByUri) (s.bucket, s.executor) =
      .error (.raised e) w) :
    callExecutor S manifest grant s =
      .ok (.error e) { s with bucket := w.1, executor := w.2 } := by
  rw [callExecutor, h]
  exact if_pos hsoft

theorem executeJob_stored (hstops : ∀ point, around.stops point = false)
    (h : jobStored S cfg manifest grant s = true) : ∃ t,
    executeJob S cfg around entry manifest grant s = .ok true t ∧
      t.completedJobs = manifest.jobId :: s.completedJobs := by
  unfold jobStored at h
  split at h
  next receipt w hexecute =>
    cases hput : putReceipt S cfg manifest grant receipt w.1 with
    | error e =>
      rw [hput] at h
      cases h
    | ok b =>
      refine ⟨_, bind_eq_ok.mpr ⟨⟨⟩, _, modify_eq_ok.mpr rfl, bind_eq_ok.mpr
        ⟨.ok receipt, _, callExecutor_ok hexecute, bind_eq_ok.mpr ⟨⟨⟩, _, reach_ok hstops _,
          bind_eq_ok.mpr ⟨⟨⟩, _, onBucket_ok hput, bind_eq_ok.mpr ⟨⟨⟩, _, modify_eq_ok.mpr rfl,
            bind_eq_ok.mpr ⟨⟨⟩, _, reach_ok hstops _, rfl⟩⟩⟩⟩⟩⟩, rfl⟩
  · cases h

theorem executeJob_soft (h : jobFailsSoftly S manifest grant s = true) : ∃ t,
    executeJob S cfg around entry manifest grant s = .ok false t ∧
      t.completedJobs = s.completedJobs := by
  unfold jobFailsSoftly at h
  split at h
  next e w hexecute =>
    obtain ⟨t, hskip, hsame⟩ := markSkipped_ok S cfg around manifest.jobId
      ("execute_err: " ++ S.describe e) { s with
        log := s.log ++ [.executed entry manifest grant], bucket := w.1, executor := w.2 }
    exact ⟨t, bind_eq_ok.mpr ⟨⟨⟩, _, modify_eq_ok.mpr rfl, bind_eq_ok.mpr
      ⟨.error e, _, callExecutor_soft h hexecute, bind_eq_ok.mpr ⟨⟨⟩, t, hskip, rfl⟩⟩⟩, hsame⟩
  · cases h

theorem reach_returned {point : Point} {u : PUnit} (h : reach around point s = .ok u t) :
    t = s := by
  unfold reach at h
  split_ifs at h
  · cases h
  · cases h
    rfl

theorem onBucket_returned {f : Bucket β → Py (Bucket β)} {u : PUnit}
    (h : onBucket f s = .ok u t) : (f s.bucket).isOk = true := by
  have hupdate := update_eq_ok.mp h
  cases hf : f s.bucket with
  | ok b => rfl
  | error e =>
    rw [hf] at hupdate
    cases hupdate

theorem executeJob_returned
    (h : executeJob S cfg around entry manifest grant s = .ok done t) :
    (jobStored S cfg manifest grant s || jobFailsSoftly S manifest grant s) = true := by
  obtain ⟨_, s₁, hrecord, h⟩ := bind_eq_ok.mp h
  obtain ⟨result, s₂, hcall, h⟩ := bind_eq_ok.mp h
  obtain rfl := modify_eq_ok.mp hrecord
  simp only [callExecutor] at hcall
  rw [Bool.or_eq_true]
  unfold jobStored jobFailsSoftly
  cases hexecute : S.execute manifest (grant.map grantsByUri) (s.bucket, s.executor) with
  | ok receipt w =>
    rw [hexecute] at hcall
    cases hcall
    obtain ⟨_, s₃, hreach, h⟩ := bind_eq_ok.mp h
    obtain ⟨_, s₄, hput, -⟩ := bind_eq_ok.mp h
    obtain rfl := reach_returned hreach
    exact .inl (onBucket_returned hput)
  | error halt w =>
    rw [hexecute] at hcall
    cases halt with
    | stopped => cases hcall
    | raised e =>
      right
      by_contra hhard
      simp only [hhard] at hcall
      cases hcall

theorem executeAuditReplay_returns (hstops : ∀ point, around.stops point = false)
    (h : auditReturns S cfg manifest grant s = true) : ∃ done t,
    executeAuditReplay S cfg around manifest grant s = .ok done t ∧
      s.completedJobs ⊆ t.completedJobs := by
  unfold auditReturns at h
  split at h
  next audit haudit =>
    cases hput : putAuditResult S cfg manifest (grant.map grantsByUri) audit s.bucket with
    | error e =>
      rw [hput] at h
      cases h
    | ok b =>
      have hremember : ∀ s' : Station β ε, ∃ t, (remember around manifest.jobId : Program β ε PUnit)
          s' = .ok ⟨⟩ t ∧ s'.completedJobs ⊆ t.completedJobs :=
        fun s' => ⟨_, rfl, List.subset_cons_self _ _⟩
      obtain ⟨t, ht, hgrows⟩ := hremember { s with bucket := b }
      refine ⟨true, t, bind_eq_ok.mpr ⟨s, s, rfl, ?_⟩, hgrows⟩
      rw [haudit]
      exact bind_eq_ok.mpr ⟨⟨⟩, _, reach_ok hstops _, bind_eq_ok.mpr ⟨⟨⟩, _, onBucket_ok hput,
        bind_eq_ok.mpr ⟨⟨⟩, _, reach_ok hstops _, bind_eq_ok.mpr ⟨⟨⟩, t, ht, rfl⟩⟩⟩⟩
  next e haudit =>
    obtain ⟨t, hskip, hsame⟩ := markSkipped_ok S cfg around manifest.jobId
      ("audit_err: " ++ S.describe e) s
    refine ⟨false, t, bind_eq_ok.mpr ⟨s, s, rfl, ?_⟩, hsame ▸ List.Subset.refl _⟩
    rw [haudit]
    exact bind_eq_ok.mpr ⟨⟨⟩, t, hskip, rfl⟩

theorem executeAuditReplay_returned
    (h : executeAuditReplay S cfg around manifest grant s = .ok done t) :
    auditReturns S cfg manifest grant s = true := by
  obtain ⟨_, _, hget, h⟩ := bind_eq_ok.mp h
  obtain ⟨rfl, rfl⟩ := get_eq_ok.mp hget
  unfold auditReturns
  cases haudit : S.auditReplay manifest (grant.map grantsByUri) s.bucket with
  | error e => rfl
  | ok audit =>
    rw [haudit] at h
    obtain ⟨_, s₁, hreach, h⟩ := bind_eq_ok.mp h
    obtain ⟨_, s₂, hput, -⟩ := bind_eq_ok.mp h
    obtain rfl := reach_returned hreach
    exact onBucket_returned hput

theorem harmless_returns (hstops : ∀ point, around.stops point = false)
    (h : harmless S cfg around role entry s = true) : ∃ done t,
    executeQueueEntry S cfg around role entry s = .ok done t ∧
      s.completedJobs ⊆ t.completedJobs ∧
      (role = .train → done = true → ∃ manifest grant,
        screen S cfg .train around.grantUnix s.bucket entry = .ok (.run manifest grant) ∧
          manifest.jobId ∈ t.completedJobs) := by
  unfold harmless at h
  cases hscreen : screen S cfg role around.grantUnix s.bucket entry with
  | error e =>
    rw [hscreen] at h
    cases h
  | ok decision =>
    rw [hscreen] at h
    have hact : ∀ {done t}, act S cfg around role entry decision s = .ok done t →
        executeQueueEntry S cfg around role entry s = .ok done t :=
      fun hrun => executeQueueEntry_eq_ok.mpr ⟨decision, hscreen, hrun⟩
    cases decision with
    | skip jobId reason =>
      obtain ⟨t, hskip, hsame⟩ := markSkipped_ok S cfg around jobId reason s
      exact ⟨false, t, hact (bind_eq_ok.mpr ⟨⟨⟩, t, hskip, rfl⟩), hsame ▸ List.Subset.refl _,
        fun _ hdone => by cases hdone⟩
    | done jobId =>
      exact ⟨false, _, hact rfl, List.subset_cons_self jobId _, fun _ hdone => by cases hdone⟩
    | run manifest grant =>
      cases role with
      | audit =>
        obtain ⟨done, t, hrun, hgrows⟩ := executeAuditReplay_returns hstops h
        exact ⟨done, t, hact hrun, hgrows, fun hrole => by cases hrole⟩
      | train =>
        rcases (Bool.or_eq_true _ _).mp h with hstored | hsoft
        · obtain ⟨t, hrun, hjobs⟩ := executeJob_stored hstops hstored
          refine ⟨true, t, hact hrun, hjobs ▸ List.subset_cons_self _ _, fun _ _ => ?_⟩
          exact ⟨manifest, grant, hscreen, hjobs ▸ List.mem_cons_self⟩
        · obtain ⟨t, hrun, hjobs⟩ := executeJob_soft hsoft
          exact ⟨false, t, hact hrun, hjobs ▸ List.Subset.refl _, fun _ hdone => by cases hdone⟩

theorem harmless_of_returned (h : executeQueueEntry S cfg around role entry s = .ok done t) :
    harmless S cfg around role entry s = true := by
  obtain ⟨decision, hscreen, h⟩ := executeQueueEntry_eq_ok.mp h
  unfold harmless
  rw [hscreen]
  cases decision with
  | skip jobId reason => rfl
  | done jobId => rfl
  | run manifest grant =>
    cases role with
    | audit => exact executeAuditReplay_returned h
    | train => exact executeJob_returned h

theorem executable_done (hstops : ∀ point, around.stops point = false)
    (h : executable S cfg around entry s = true) :
    ∃ t, executeQueueEntry S cfg around .train entry s = .ok true t := by
  unfold executable at h
  split at h
  next manifest grant hscreen =>
    obtain ⟨t, hrun, -⟩ := executeJob_stored hstops h
    exact ⟨t, executeQueueEntry_eq_ok.mpr ⟨_, hscreen, hrun⟩⟩
  · cases h

end Turns

section Loop

variable {S : Services β ε} {cfg : WorkerConfig} {around : Surroundings β} {role : Role}
variable {entries : List QueueEntry} {entry first : QueueEntry} {s t : Station β ε} {done : Bool}

/-- The entry is neither skipped as completed nor as somebody else's. -/
def Open (cfg : WorkerConfig) (entry : QueueEntry) (s : Station β ε) : Prop :=
  entry.jobId ∉ s.completedJobs ∧ isAssigned cfg entry = true

theorem not_open_iff : ¬ Open cfg entry s ↔
    entry.jobId ∈ s.completedJobs ∨ isAssigned cfg entry = false := by
  rw [Open, not_and_or, not_not, Bool.not_eq_true]

theorem executeEntries_past (h : ¬ Open cfg first s) :
    executeEntries S cfg around role (first :: entries) s =
      executeEntries S cfg around role entries s := by
  change (if first.jobId ∈ s.completedJobs then _ else _ : Program β ε Bool) s = _
  split_ifs with hdone hassigned
  · rfl
  · rfl
  · exact absurd ⟨hdone, by simpa using hassigned⟩ h

theorem executeEntries_open (h : Open cfg first s) :
    executeEntries S cfg around role (first :: entries) s =
      (executeQueueEntry S cfg around role first >>= fun done =>
        if done then pure true else executeEntries S cfg around role entries) s := by
  change (if first.jobId ∈ s.completedJobs then _ else _ : Program β ε Bool) s = _
  rw [if_neg h.1, if_neg (by simp [h.2])]

theorem executeEntries_returns (hstops : ∀ point, around.stops point = false)
    (h : ∀ entry t, Comes S cfg around role entries s entry t → Open cfg entry t →
      harmless S cfg around role entry t = true) :
    ∃ done t, executeEntries S cfg around role entries s = .ok done t ∧
      s.completedJobs ⊆ t.completedJobs := by
  induction entries generalizing s with
  | nil => exact ⟨false, s, rfl, List.Subset.refl _⟩
  | cons first entries ih =>
    by_cases hopen : Open cfg first s
    · rw [executeEntries_open hopen]
      obtain ⟨done, s', hrun, hgrows, -⟩ := harmless_returns hstops (h first s .here hopen)
      cases done with
      | true => exact ⟨true, s', bind_eq_ok.mpr ⟨true, s', hrun, rfl⟩, hgrows⟩
      | false =>
        obtain ⟨done, t, hrest, hgrows'⟩ := ih fun entry t hcomes =>
          h entry t (.failed hopen.1 hopen.2 hrun hcomes)
        exact ⟨done, t, bind_eq_ok.mpr ⟨false, s', hrun, hrest⟩,
          fun j hj => hgrows' (hgrows hj)⟩
    · rw [executeEntries_past hopen]
      exact ih fun entry t hcomes => h entry t (.past (not_open_iff.mp hopen) hcomes)

theorem harmless_of_comes (hcomes : Comes S cfg around role entries s entry t)
    (hopen : Open cfg entry t) {u : Station β ε}
    (h : executeEntries S cfg around role entries s = .ok done u) :
    harmless S cfg around role entry t = true := by
  induction hcomes with
  | here =>
    rw [executeEntries_open hopen] at h
    obtain ⟨_, _, hrun, -⟩ := bind_eq_ok.mp h
    exact harmless_of_returned hrun
  | past hpast _ ih =>
    rw [executeEntries_past (not_open_iff.mpr hpast)] at h
    exact ih hopen h
  | failed hnew hassigned hrun _ ih =>
    rw [executeEntries_open ⟨hnew, hassigned⟩] at h
    obtain ⟨done, s', hrun', h⟩ := bind_eq_ok.mp h
    rw [hrun] at hrun'
    cases hrun'
    exact ih hopen h

theorem executeEntries_completes (hstops : ∀ point, around.stops point = false)
    (hharmless : ∀ entry t, Comes S cfg around .train entries s entry t → Open cfg entry t →
      harmless S cfg around .train entry t = true)
    (hnamed : ∀ entry t, Comes S cfg around .train entries s entry t → Open cfg entry t →
      ∀ manifest grant, screen S cfg .train around.grantUnix t.bucket entry =
        .ok (.run manifest grant) → manifest.jobId = entry.jobId)
    (hexecutable : ∀ t, Comes S cfg around .train entries s entry t → Open cfg entry t →
      executable S cfg around entry t = true)
    (hentry : entry ∈ entries) (hopen : Open cfg entry s)
    (hrun : executeEntries S cfg around .train entries s = .ok done t) :
    ∃ x ∈ entries, x.jobId ∉ s.completedJobs ∧ x.jobId ∈ t.completedJobs := by
  induction entries generalizing s with
  | nil => cases hentry
  | cons first entries ih =>
    by_cases hfirst : Open cfg first s
    · rw [executeEntries_open hfirst] at hrun
      obtain ⟨done', s', hturn, hrun⟩ := bind_eq_ok.mp hrun
      obtain ⟨done'', s'', hturn', hgrows, hjob⟩ :=
        harmless_returns hstops (hharmless first s .here hfirst)
      rw [hturn] at hturn'
      cases hturn'
      cases done' with
      | true =>
        cases hrun
        obtain ⟨manifest, grant, hscreen, hmem⟩ := hjob rfl rfl
        rw [hnamed first s .here hfirst manifest grant hscreen] at hmem
        exact ⟨first, List.mem_cons_self, hfirst.1, hmem⟩
      | false =>
        have hother : entry ∈ entries := by
          refine (List.mem_cons.mp hentry).resolve_left ?_
          rintro rfl
          obtain ⟨t, hdone⟩ := executable_done hstops (hexecutable s .here hfirst)
          rw [hturn] at hdone
          cases hdone
        by_cases hdone : entry.jobId ∈ s'.completedJobs
        · obtain ⟨_, t', hrest, hgrows'⟩ := executeEntries_returns hstops fun e u hcomes =>
            hharmless e u (.failed hfirst.1 hfirst.2 hturn hcomes)
          change executeEntries S cfg around .train entries s' = .ok done t at hrun
          rw [hrun] at hrest
          cases hrest
          exact ⟨entry, hentry, hopen.1, hgrows' hdone⟩
        · obtain ⟨x, hx, hnew, hmem⟩ := ih
            (fun e u hcomes => hharmless e u (.failed hfirst.1 hfirst.2 hturn hcomes))
            (fun e u hcomes => hnamed e u (.failed hfirst.1 hfirst.2 hturn hcomes))
            (fun u hcomes => hexecutable u (.failed hfirst.1 hfirst.2 hturn hcomes))
            hother ⟨hdone, hopen.2⟩ hrun
          exact ⟨x, List.mem_cons_of_mem _ hx, fun hold => hnew (hgrows hold), hmem⟩
    · have hother : entry ∈ entries := by
        refine (List.mem_cons.mp hentry).resolve_left ?_
        rintro rfl
        exact hfirst hopen
      have hpast := not_open_iff.mp hfirst
      rw [executeEntries_past hfirst] at hrun
      obtain ⟨x, hx, hnew, hmem⟩ := ih
        (fun e u hcomes => hharmless e u (.past hpast hcomes))
        (fun e u hcomes => hnamed e u (.past hpast hcomes))
        (fun u hcomes => hexecutable u (.past hpast hcomes)) hother hopen hrun
      exact ⟨x, List.mem_cons_of_mem _ hx, hnew, hmem⟩

end Loop

section Ticks

variable (S : Services β ε) (cfg : WorkerConfig)

def Turn (around : Surroundings β) (s : Station β ε) (role : Role) (entry : QueueEntry)
    (t : Station β ε) : Prop :=
  TickComes S cfg around s role entry t ∧ Open cfg entry t

/-- Ticks in a row, each of which meets a condition; others may change the bucket in between. -/
inductive Ticks (tickOk : Surroundings β → Station β ε → Prop) :
    ℕ → Station β ε → Station β ε → Prop where
  | none {s} : Ticks tickOk 0 s s
  | tick {n s u} (around) : tickOk around s →
      Ticks tickOk n (after (MinerWorker.tick S cfg around) s) u → Ticks tickOk (n + 1) s u
  | others {n s u} (b) : Ticks tickOk n { s with bucket := b } u → Ticks tickOk n s u

/-- The process is not killed and can write its heartbeat. -/
structure Alive (around : Surroundings β) (s : Station β ε) : Prop where
  stops : ∀ point, around.stops point = false
  heartbeat : ∃ parts, parseUri (heartbeatUri S cfg s.bucket.name) = .ok parts

/-- A tick on this snapshot whose turns are harmless and find manifests of the jobs that the
entries name; the given entry is executable at its turn. -/
structure Careful (snapshot : List QueueEntry) (entry : QueueEntry) (around : Surroundings β)
    (s : Station β ε) : Prop where
  alive : Alive S cfg around s
  reads : ∃ s₁, readTrainQueue S cfg around s = .ok snapshot s₁
  harmless : ∀ role e t, Turn S cfg around s role e t → harmless S cfg around role e t = true
  named : ∀ e t, Turn S cfg around s .train e t → ∀ manifest grant,
    screen S cfg .train around.grantUnix t.bucket e = .ok (.run manifest grant) →
      manifest.jobId = e.jobId
  executable : ∀ t, Turn S cfg around s .train entry t → executable S cfg around entry t = true

variable {S cfg} {around : Surroundings β} {s t u : Station β ε} {done : Bool}

theorem readTrainQueue_returns (h : Alive S cfg around s) :
    ∃ entries s₁, readTrainQueue S cfg around s = .ok entries s₁ := by
  have hbeat : ∃ s', heartbeat S cfg around false s = .ok ⟨⟩ s' := by
    change ∃ s', (if (false || !decide (around.heartbeatUnix - s.lastHeartbeat <
      cfg.heartbeatInterval)) = true then _ else _ : Program β ε PUnit) s = .ok ⟨⟩ s'
    split_ifs
    · obtain ⟨parts, hparts⟩ := h.heartbeat
      exact ⟨_, bind_eq_ok.mpr ⟨⟨⟩, _, modify_eq_ok.mpr rfl,
        onBucket_ok (Bucket.put_eq_ok.mpr ⟨⟨parts, hparts⟩, rfl⟩)⟩⟩
    · exact ⟨s, rfl⟩
  obtain ⟨s', hbeat⟩ := hbeat
  have hfetch : ∃ entries s₁, fetchTrainQueueEntries S around s' = .ok entries s₁ := by
    unfold fetchTrainQueueEntries
    split
    · exact ⟨_, _, rfl⟩
    · exact ⟨_, _, rfl⟩
  obtain ⟨entries, s₁, hfetch⟩ := hfetch
  exact ⟨entries, s₁, bind_eq_ok.mpr ⟨⟨⟩, s', hbeat, hfetch⟩⟩

theorem readTrainQueue_memory {entries : List QueueEntry}
    (h : readTrainQueue S cfg around s = .ok entries t) : t.completedJobs = s.completedJobs := by
  have hcalm : Effects.Within (Calm cfg) (readTrainQueue S cfg around) :=
    (calm_heartbeat false).bind fun _ => calm_fetch
  exact ((hcalm s).of_ok h).memory

theorem auditStart_memory (S : Services β ε) (around : Surroundings β) (s : Station β ε) :
    (auditStart S around s).2.completedJobs = s.completedJobs := by
  unfold auditStart
  split
  · rfl
  · rfl
  · rfl

theorem auditOtherwise_returns (trained : Bool) (s : Station β ε)
    (hstops : ∀ point, around.stops point = false)
    (h : trained = false → isAuditEligible cfg = true → ∀ entry t,
      Comes S cfg around .audit (auditStart S around s).1 (auditStart S around s).2 entry t →
        Open cfg entry t → harmless S cfg around .audit entry t = true) :
    ∃ done t, auditOtherwise S cfg around trained s = .ok done t ∧
      s.completedJobs ⊆ t.completedJobs := by
  cases trained with
  | true => exact ⟨true, s, rfl, List.Subset.refl _⟩
  | false =>
    cases heligible : isAuditEligible cfg with
    | false =>
      refine ⟨false, s, ?_, List.Subset.refl _⟩
      rw [auditOtherwise, heligible]
      rfl
    | true =>
      obtain ⟨done, t, hrun, hgrows⟩ := executeEntries_returns hstops (h rfl heligible)
      rw [auditStart_memory] at hgrows
      refine ⟨done, t, ?_, hgrows⟩
      rw [auditOtherwise, heligible]
      exact tickAuditJobs_eq.trans hrun

theorem tick_of_parts {entries : List QueueEntry} {s₁ s₂ s₃ : Station β ε} {trained : Bool}
    (hread : readTrainQueue S cfg around s = .ok entries s₁)
    (htrain : executeEntries S cfg around .train entries.reverse s₁ = .ok trained s₂)
    (haudit : auditOtherwise S cfg around trained s₂ = .ok done s₃) :
    ∃ t, tick S cfg around s = .ok done t ∧ t.completedJobs = s₃.completedJobs := by
  have hparts : ∀ t, (do
      if done then modify fun s => { s with idleIters := 0 }
      else idle cfg
      return done : Program β ε Bool) s₃ = .ok done t → tick S cfg around s = .ok done t := by
    intro t hlast
    rw [tick_eq]
    exact bind_eq_ok.mpr ⟨entries, s₁, hread, bind_eq_ok.mpr ⟨trained, s₂, htrain,
      bind_eq_ok.mpr ⟨done, s₃, haudit, hlast⟩⟩⟩
  cases done with
  | true => exact ⟨_, hparts _ rfl, rfl⟩
  | false => exact ⟨_, hparts _ rfl, rfl⟩

theorem tick_returns (halive : Alive S cfg around s)
    (h : ∀ role e t, Turn S cfg around s role e t → harmless S cfg around role e t = true) :
    ∃ done t, tick S cfg around s = .ok done t ∧ s.completedJobs ⊆ t.completedJobs := by
  obtain ⟨entries, s₁, hread⟩ := readTrainQueue_returns halive
  obtain ⟨trained, s₂, htrain, hgrows⟩ := executeEntries_returns halive.stops
    fun e t hcomes hopen => h .train e t ⟨.train hread hcomes, hopen⟩
  obtain ⟨done, s₃, haudit, hgrows'⟩ := auditOtherwise_returns trained s₂ halive.stops
    fun htrained heligible e t hcomes hopen =>
      h .audit e t ⟨.audit hread (htrained ▸ htrain) heligible hcomes, hopen⟩
  obtain ⟨t, htick, hjobs⟩ := tick_of_parts hread htrain haudit
  refine ⟨done, t, htick, ?_⟩
  rw [hjobs, ← readTrainQueue_memory hread]
  exact fun j hj => hgrows' (hgrows hj)

variable {entry : QueueEntry} {snapshot : List QueueEntry}

theorem harmless_of_tick (h : tick S cfg around s = .ok done t) {role : Role}
    (hturn : Turn S cfg around s role entry u) : harmless S cfg around role entry u = true := by
  rw [tick_eq] at h
  obtain ⟨entries, s₁, hread, h⟩ := bind_eq_ok.mp h
  obtain ⟨trained, s₂, htrain, h⟩ := bind_eq_ok.mp h
  obtain ⟨finished, s₃, haudit, -⟩ := bind_eq_ok.mp h
  obtain ⟨hcomes, hopen⟩ := hturn
  cases hcomes with
  | train hread' hcomes =>
    rw [hread] at hread'
    cases hread'
    exact harmless_of_comes hcomes hopen htrain
  | audit hread' htrain' heligible hcomes =>
    rw [hread] at hread'
    cases hread'
    rw [htrain] at htrain'
    cases htrain'
    rw [auditOtherwise, heligible] at haudit
    exact harmless_of_comes hcomes hopen (tickAuditJobs_eq.symm.trans haudit)

def remaining (snapshot : List QueueEntry) (s : Station β ε) : ℕ :=
  snapshot.countP fun e => e.jobId ∉ s.completedJobs

theorem remaining_lt (hgrows : s.completedJobs ⊆ t.completedJobs)
    {x : QueueEntry} (hx : x ∈ snapshot) (hnew : x.jobId ∉ s.completedJobs)
    (hdone : x.jobId ∈ t.completedJobs) : remaining snapshot t < remaining snapshot s := by
  obtain ⟨before, after, rfl⟩ := List.append_of_mem hx
  have hle : ∀ l : List QueueEntry, remaining l t ≤ remaining l s := fun l =>
    List.countP_mono_left fun e _ => by
      simp only [decide_eq_true_eq]
      exact fun hopen hold => hopen (hgrows hold)
  have hbefore := hle before
  have hafter := hle after
  simp only [remaining, List.countP_append, List.countP_cons, hnew, hdone, not_true_eq_false,
    not_false_eq_true, decide_true, decide_false, if_true, Bool.false_eq_true, if_false] at *
  omega

theorem Careful.completes (h : Careful S cfg snapshot entry around s) (hentry : entry ∈ snapshot)
    (hopen : Open cfg entry s) : ∃ done t, tick S cfg around s = .ok done t ∧
      s.completedJobs ⊆ t.completedJobs ∧ remaining snapshot t < remaining snapshot s := by
  obtain ⟨s₁, hread⟩ := h.reads
  have hmemory := readTrainQueue_memory hread
  have hharmless : ∀ e t, Comes S cfg around .train snapshot.reverse s₁ e t → Open cfg e t →
      WorkerProgress.harmless S cfg around .train e t = true :=
    fun e t hcomes hopen => h.harmless .train e t ⟨.train hread hcomes, hopen⟩
  obtain ⟨trained, s₂, htrain, -⟩ := executeEntries_returns h.alive.stops hharmless
  have hopen₁ : Open cfg entry s₁ := ⟨by rw [hmemory]; exact hopen.1, hopen.2⟩
  obtain ⟨x, hx, hnew, hdone⟩ := executeEntries_completes h.alive.stops hharmless
    (fun e t hcomes hopen => h.named e t ⟨.train hread hcomes, hopen⟩)
    (fun t hcomes hopen => h.executable t ⟨.train hread hcomes, hopen⟩)
    (List.mem_reverse.mpr hentry) hopen₁ htrain
  obtain ⟨done, s₃, haudit, hgrows⟩ := auditOtherwise_returns trained s₂ h.alive.stops
    fun htrained heligible e t hcomes hopen =>
      h.harmless .audit e t ⟨.audit hread (htrained ▸ htrain) heligible hcomes, hopen⟩
  obtain ⟨t, htick, hjobs⟩ := tick_of_parts hread htrain haudit
  obtain ⟨_, t', htick', hall⟩ := tick_returns h.alive h.harmless
  rw [htick] at htick'
  cases htick'
  refine ⟨done, t, htick, hall, remaining_lt hall (List.mem_reverse.mp hx) (hmemory ▸ hnew) ?_⟩
  rw [hjobs]
  exact hgrows hdone

theorem Ticks.completes {n : ℕ}
    (h : Ticks S cfg (Careful S cfg snapshot entry) n s u) (hentry : entry ∈ snapshot)
    (hassigned : isAssigned cfg entry = true)
    (hn : entry.jobId ∈ s.completedJobs ∨ remaining snapshot s ≤ n) :
    entry.jobId ∈ u.completedJobs := by
  induction h with
  | none =>
    rcases hn with hdone | hn
    · exact hdone
    · by_contra hnew
      have hpos : 0 < remaining snapshot _ :=
        List.countP_pos_iff.mpr ⟨entry, hentry, by simpa using hnew⟩
      omega
  | @tick n s u around hcareful _ ih =>
    by_cases hdone : entry.jobId ∈ s.completedJobs
    · obtain ⟨_, t, htick, hgrows⟩ := tick_returns hcareful.alive hcareful.harmless
      rw [after_of_ok htick] at ih
      exact ih (.inl (hgrows hdone))
    · obtain ⟨_, t, htick, -, hless⟩ := hcareful.completes hentry ⟨hdone, hassigned⟩
      rw [after_of_ok htick] at ih
      have hle := hn.resolve_left hdone
      exact ih (.inr (by omega))
  | others b _ ih => exact ih hn

end Ticks

section OneJob

open JobExecution ScoreIsolation MinerSafety
open PassedReceipts (constGraph)
open BucketPaths (assignmentKey jobManifestKey)

def scalarWorker : WorkerLibraries Json ℤ where
  toLibraries := scoringHost.libraries
  buffers := { toBytes := fun _ => [], fromBuffer := fun _ _ _ => .ok 0 }
  elementSize := fun _ => 8
  tolist := .int
  randnLike := fun _ t => t
  zerosLike := fun _ => 0
  increment := fun _ t => t + 1

def scalarMiner : Miner Json where
  worker := minerIdentity

def scalarServices : Services Json (JobExecutor (Bucket Json) ℤ) :=
  oneDevice scalarWorker directStores {} scalarMiner (fun _ => ⟨.finite 0, .finite 1, .finite 1⟩)
    { platform := plainPlatform
      identity := minerIdentity
      newExecutor := { store := ⟨"b", SortedDict.empty⟩ }
      execute := fun _ _ => throw .stopped
      put := fun uri body _ b => b.put uri body
      decrypt := fun _ _ => .ok idleGrant
      auditReplay := fun _ _ _ => .error (.valueError "no replay")
      describe := fun _ => "exception" }

theorem scalarServices_reliable : Reliable scalarServices grantWorker :=
  reliable_oneDevice _ _ _ _ _ ExecutionSteps.faithful_direct ⟨by decide, by decide⟩ rfl
    fun _ _ _ _ _ h => h

/-- The job of the graph that computes the number 7 under the name `y`, with these outputs. -/
def constJob (outputs : List ArtifactRef) : JobManifestV3 :=
  { idleJob with
    graphRef := { sha256 := constGraph.graphId plainPlatform, uri := "s3://b/g" }
    outputs := outputs }.sign plainPlatform (.secret "owner-dev-secret")

def constStation (outputs : List ArtifactRef) : Station Json (JobExecutor (Bucket Json) ℤ) where
  bucket := ⟨"b", .ofEntries [("s3://b/g", constGraph.toDict),
    (joinUri "b" (jobManifestKey 0 "r" "j"), (constJob outputs).toDict plainPlatform),
    (joinUri "b" (assignmentKey 0 "r" "j" "A"), .null)]⟩
  executor := scalarServices.newExecutor

def tickRaises (s : Station Json (JobExecutor (Bucket Json) ℤ)) : Option PyErr :=
  match tick scalarServices directWorker idleSurroundings s with
  | .error (.raised e) _ => some e
  | _ => none

/-- The first tick comes to the one entry, and its job is executable under the name that the entry
gives it. -/
def goodStart (s : Station Json (JobExecutor (Bucket Json) ℤ)) : Bool :=
  match readTrainQueue scalarServices grantWorker idleSurroundings s with
  | .ok [entry] s₁ =>
    entry = idleEntry && executable scalarServices grantWorker idleSurroundings entry s₁ &&
      match screen scalarServices grantWorker .train idleSurroundings.grantUnix s₁.bucket entry with
      | .ok (.run manifest _) => manifest.jobId = entry.jobId
      | _ => false
  | _ => false

theorem goodStart_const : goodStart (constStation []) = true := by decide +kernel

theorem harmless_of_executable {S : Services β ε} {cfg : WorkerConfig} {around : Surroundings β}
    {entry : QueueEntry} {s : Station β ε} (h : executable S cfg around entry s = true) :
    harmless S cfg around .train entry s = true := by
  unfold executable at h
  unfold harmless
  split at h
  next hscreen =>
    rw [hscreen]
    simp [h]
  · cases h

theorem turn_single {S : Services β ε} {cfg : WorkerConfig} {around : Surroundings β}
    {entry e : QueueEntry} {s s₁ t : Station β ε} {role : Role}
    (hread : readTrainQueue S cfg around s = .ok [entry] s₁) (haudit : isAuditEligible cfg = false)
    (h : Turn S cfg around s role e t) : role = .train ∧ e = entry ∧ t = s₁ := by
  cases h.1 with
  | train hread' hcomes =>
    rw [hread] at hread'
    cases hread'
    cases hcomes with
    | here => exact ⟨rfl, rfl, rfl⟩
    | past _ hcomes => cases hcomes
    | failed _ _ _ hcomes => cases hcomes
  | audit _ _ heligible _ =>
    rw [haudit] at heligible
    cases heligible

theorem careful_of_goodStart {s : Station Json (JobExecutor (Bucket Json) ℤ)}
    (halive : Alive scalarServices grantWorker idleSurroundings s) (h : goodStart s = true) :
    Careful scalarServices grantWorker [idleEntry] idleEntry idleSurroundings s := by
  unfold goodStart at h
  split at h
  next entry s₁ hread =>
    simp only [Bool.and_eq_true, decide_eq_true_eq] at h
    obtain ⟨⟨rfl, hexecutable⟩, hname⟩ := h
    refine ⟨halive, ⟨s₁, hread⟩, ?_, ?_, ?_⟩
    · intro role e t hturn
      obtain ⟨rfl, rfl, rfl⟩ := turn_single hread rfl hturn
      exact harmless_of_executable hexecutable
    · intro e t hturn manifest grant hscreen
      obtain ⟨-, rfl, rfl⟩ := turn_single hread rfl hturn
      rw [hscreen] at hname
      simpa using hname
    · intro t hturn
      obtain ⟨-, -, rfl⟩ := turn_single hread rfl hturn
      exact hexecutable
  · cases h

end OneJob

end WorkerProgress

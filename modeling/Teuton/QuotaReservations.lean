import Teuton.RoundManager
import Teuton.StreamBackpressure

/-! What is left of a round that is given up. A stress epoch is given up when no worker can be
found for one of its jobs, a step when the outputs of one of its jobs do not arrive in time, a
single job when its grant cannot be stored. Every reservation of the round would have to be
released by then. -/
namespace QuotaReservations

open PyJson Signatures ObjectStore Protocol JobEmission OrchestratorQueue Scheduler Dispatch
open Effects StreamEmission RoundEmission

variable {β : Type}

/-- The reservations are what they were before the round, and no job of it is queued. -/
def Restored (before after : Desk β) (round : List JobManifestV3) : Prop :=
  (∀ hotkey, after.quota.inflight hotkey = before.quota.inflight hotkey) ∧
    ∀ manifest ∈ round, manifest.jobId ∉ after.queue.outstanding.keys

theorem inflight_le_reserved {d : DispatchConfig} {s : Desk β} {q : QuotaBook}
    {requirements : Py ResourceRequirements} {worker : WorkerIdentity}
    (h : Picks d s requirements worker)
    (hquota : q = s.quota.changeInflight worker.hotkeySs58 (· + 1)) (hotkey : String) :
    s.quota.inflight hotkey ≤ q.inflight hotkey := by
  rw [hquota, QuotaBook.inflight_changeInflight h.account]
  split_ifs
  · exact le_self_add
  · exact le_refl _

theorem inflight_lt_reserved {d : DispatchConfig} {s : Desk β} {q : QuotaBook}
    {requirements : Py ResourceRequirements} {worker : WorkerIdentity}
    (h : Picks d s requirements worker)
    (hquota : q = s.quota.changeInflight worker.hotkeySs58 (· + 1)) :
    s.quota.inflight worker.hotkeySs58 < q.inflight worker.hotkeySs58 := by
  rw [hquota, QuotaBook.inflight_changeInflight h.account, if_pos rfl]
  exact lt_add_one _

theorem not_restored_of_lt {before after : Desk β} {round : List JobManifestV3} {hotkey : String}
    (h : before.quota.inflight hotkey < after.quota.inflight hotkey) :
    ¬ Restored before after round := fun hrestored => h.ne (hrestored.1 hotkey).symm

section StressEpochs

variable {p : Platform β} {cfg : StreamingRunConfig β} {d : DispatchConfig}
  {params : StreamingParams}

def Assignable (cfg : StreamingRunConfig β) (d : DispatchConfig) (params : StreamingParams)
    (m : StreamManager.Manager β) (e : StreamJob) : Prop :=
  ∃ spec worker, e.spec cfg params m.stream = .ok spec ∧
    Picks d m.desk (resourceRequirements spec.params) worker

variable {err : PyErr} {clock : ℕ → ℤ × ℤ} {m m' : StreamManager.Manager β}

theorem emitOne_ok {clock : ℤ × ℤ} {e : StreamJob} {u : PUnit}
    (h : StreamManager.emitOne p cfg d params clock e m = .ok u m') :
    ∃ spec worker, e.spec cfg params m.stream = .ok spec ∧
      Picks d m.desk (resourceRequirements spec.params) worker ∧
      m'.quota = m.quota.changeInflight worker.hotkeySs58 (· + 1) := by
  obtain ⟨_, _, hget, hrest⟩ := Effects.bind_eq_ok.mp h
  obtain ⟨rfl, rfl⟩ := get_eq_ok.mp hget
  obtain ⟨spec, _, hlift, hrest⟩ := Effects.bind_eq_ok.mp hrest
  obtain ⟨hspec, rfl⟩ := lift_eq_ok.mp hlift
  obtain ⟨_, _, hemit, hrest⟩ := Effects.bind_eq_ok.mp hrest
  cases hrest
  obtain ⟨worker, _, _, hpicks, -, -, hquota, -⟩ := StreamManager.emitJob_ok hemit
  exact ⟨spec, worker, hspec, hpicks, hquota⟩

theorem emitOne_error {clock : ℤ × ℤ} {e : StreamJob}
    (h : StreamManager.emitOne p cfg d params clock e m = .error err m') :
    (¬ Assignable cfg d params m e ∧ m'.quota = m.quota ∧ m'.log = m.log) ∨
      ∃ spec worker, e.spec cfg params m.stream = .ok spec ∧
        Picks d m.desk (resourceRequirements spec.params) worker ∧
        m'.quota = m.quota.changeInflight worker.hotkeySs58 (· + 1) := by
  rcases Effects.bind_eq_error.mp h with hraise | ⟨_, _, hget, hrest⟩
  · exact absurd hraise get_ne_error
  obtain ⟨rfl, rfl⟩ := get_eq_ok.mp hget
  rcases Effects.bind_eq_error.mp hrest with hraise | ⟨spec, _, hlift, hrest⟩
  · obtain ⟨hspec, rfl⟩ := lift_eq_error.mp hraise
    left
    refine ⟨?_, rfl, rfl⟩
    rintro ⟨spec, worker, hok, -⟩
    rw [hspec] at hok
    cases hok
  obtain ⟨hspec, rfl⟩ := lift_eq_ok.mp hlift
  rcases Effects.bind_eq_error.mp hrest with hraise | ⟨_, _, _, hrest⟩
  · have hraised := StreamManager.emitJob_error hraise
    rcases hraised.quota with ⟨hquota, hnone⟩ | ⟨worker, hpicks, hquota⟩
    · left
      refine ⟨?_, hquota, hraised.log⟩
      rintro ⟨spec', worker, hok, hpicks⟩
      rw [hspec] at hok
      cases hok
      exact hnone worker hpicks
    · exact Or.inr ⟨spec, worker, hspec, hpicks, hquota⟩
  · cases hrest

theorem inflight_le_of_emitJobs {jobs : List (StreamJob × ℕ)}
    (h : StreamManager.emitJobs p cfg d params clock jobs m = .error err m') (hotkey : String) :
    m.quota.inflight hotkey ≤ m'.quota.inflight hotkey := by
  obtain ⟨done, ⟨e, i⟩, rest, t, -, hdone, hraise⟩ := forM_eq_error.mp h
  have hbefore : m.quota.inflight hotkey ≤ t.quota.inflight hotkey := by
    refine forM_induction (R := fun _ t => m.quota.inflight hotkey ≤ t.quota.inflight hotkey)
      hdone (le_refl _) ?_
    intro _ x u v hu hv
    obtain ⟨_, worker, -, hpicks, hquota⟩ := emitOne_ok hv
    exact hu.trans (inflight_le_reserved hpicks hquota hotkey)
  refine hbefore.trans ?_
  rcases emitOne_error hraise with ⟨-, hquota, -⟩ | ⟨_, worker, -, hpicks, hquota⟩
  · rw [hquota]
  · exact inflight_le_reserved hpicks hquota hotkey

/-- The jobs of an epoch leave the reservations alone only if the first of them finds no worker,
and then none of them is emitted. -/
theorem emission_restores_iff {jobs : List StreamJob} {n : ℕ}
    (h : StreamManager.emitJobs p cfg d params clock (jobs.zipIdx n) m = .error err m') :
    ((∀ e ∈ jobs.head?, ¬ Assignable cfg d params m e) → m'.quota = m.quota ∧ m'.log = m.log) ∧
      ((∀ hotkey, m'.quota.inflight hotkey = m.quota.inflight hotkey) →
        ∀ e ∈ jobs.head?, ¬ Assignable cfg d params m e) := by
  cases jobs with
  | nil => cases h
  | cons e jobs =>
    simp only [List.head?_cons, Option.mem_def, Option.some.injEq, forall_eq']
    rw [List.zipIdx_cons] at h
    rcases Effects.bind_eq_error.mp h with hraise | ⟨_, t, hfirst, hrest⟩
    · rcases emitOne_error hraise with ⟨hnone, hquota, hlog⟩ | ⟨spec, worker, hspec, hpicks, hquota⟩
      · exact ⟨fun _ => ⟨hquota, hlog⟩, fun _ => hnone⟩
      · refine ⟨fun hnone => absurd ⟨spec, worker, hspec, hpicks⟩ hnone, fun hsame => ?_⟩
        have hlt := inflight_lt_reserved hpicks hquota
        exact absurd (hsame worker.hotkeySs58).symm hlt.ne
    · obtain ⟨spec, worker, hspec, hpicks, hquota⟩ := emitOne_ok hfirst
      refine ⟨fun hnone => absurd ⟨spec, worker, hspec, hpicks⟩ hnone, fun hsame => ?_⟩
      have hlt := inflight_lt_reserved hpicks hquota
      have hle := inflight_le_of_emitJobs hrest worker.hotkeySs58
      exact absurd (hsame worker.hotkeySs58).symm (hlt.trans_le hle).ne

theorem assignable_withBucket {b : Bucket β}
    (hname : b.name = m.desk.bucket.name) (e : StreamJob) :
    Assignable cfg d params (m.withDesk { m.desk with bucket := b }) e ↔
      Assignable cfg d params m e := by
  have hspec : e.spec cfg params (m.withDesk { m.desk with bucket := b }).stream =
      e.spec cfg params m.stream := by
    apply StreamEmission.spec_congr
    · exact hname
    · rfl
  simp only [Assignable, hspec, picks_iff]
  rfl

theorem epoch_restored_iff {stages : List PipelineStage} {epoch : ℤ} {forwardOnly : Bool}
    {message : String}
    (h : StreamManager.emitEpoch p cfg d params stages epoch forwardOnly clock m =
      .error (.runtimeError message) m') :
    Restored m.desk (StreamManager.dropEpochJobs epoch m').desk (m'.log.drop m.log.length) ↔
      ∀ e ∈ (StreamEmission.emitEpoch stages params epoch forwardOnly).head?,
        ¬ Assignable cfg d params m e := by
  rcases Effects.bind_eq_error.mp h with hraise | ⟨_, _, hgraphs, hjobs⟩
  · -- the graphs are stored first, and that fails with another exception
    rcases PyJson.bind_eq_error.mp (update_eq_error.mp hraise).1 with hraise | ⟨_, -, hraise⟩
    · obtain ⟨_, heq⟩ := publishGraphs_error hraise
      cases heq
    · cases hraise
  obtain ⟨b, hb, hstate⟩ := PyJson.bind_eq_ok.mp (update_eq_ok.mp hgraphs)
  cases hstate
  have hiff := emission_restores_iff hjobs
  simp only [assignable_withBucket (publishGraphs_ok hb)] at hiff
  constructor
  · exact fun hrestored => hiff.2 hrestored.1
  · intro hnone
    obtain ⟨hquota, hlog⟩ := hiff.1 hnone
    refine ⟨fun hotkey => congrArg (QuotaBook.inflight · hotkey) hquota, ?_⟩
    have hround : m'.log.drop m.log.length = [] := by
      rw [hlog]
      exact List.drop_length
    rw [hround]
    exact fun manifest hmem => nomatch hmem

end StressEpochs

section Rounds

variable {p : Platform β} {cfg : RunConfig β} {d : DispatchConfig} {task : RoundTask}
  {around : String → RoundManager.Surroundings β}

/-- The reservations that a round holds are those of the jobs it has not waited for, and no other
job of the round is queued. -/
structure Account (m m' : RoundManager.Manager β) (unwaited : List JobManifestV3) : Prop where
  round : ∃ round, m'.jobs = m.jobs ++ round ∧ ∀ x ∈ round,
    x.jobId ∈ m'.queue.outstanding.keys → x.jobId ∈ unwaited.map JobManifestV3.jobId
  inflight : ∀ hotkey, m'.quota.inflight hotkey =
    m.quota.inflight hotkey + (unwaited.countP fun x => x.assignedHotkey = hotkey : ℕ)
  known : ∀ x ∈ unwaited, x.assignedHotkey ∈ m'.quota.accounts.keys

theorem account_refl (m : RoundManager.Manager β) : Account m m [] :=
  ⟨⟨[], by simp, by simp⟩, by simp, by simp⟩

variable {step : ℤ} {unwaited : List JobManifestV3} {m m' m₁ m₂ : RoundManager.Manager β}

theorem Account.emit (h : Account m m₁ unwaited) {e : RoundJob} {x : JobManifestV3}
    (hemit : RoundManager.emitOne p cfg d task around e m₁ = .ok x m₂) :
    Account m m₂ (unwaited ++ [x]) := by
  obtain ⟨worker, hpicks, hhotkey, hquota, ⟨uri, grantUri, hqueue⟩, hjobs⟩ :=
    RoundManager.emitOne_ok hemit
  obtain ⟨round, hround, hqueued⟩ := h.round
  have haccount : x.assignedHotkey ∈ m₁.quota.accounts.keys := hhotkey ▸ hpicks.account
  have hholds : m.quota.Holds m₂.quota (unwaited ++ [x]) := by
    rw [hquota, ← hhotkey]
    exact QuotaBook.Holds.reserve ⟨h.inflight, h.known⟩ haccount
  refine ⟨⟨round ++ [x], by rw [hjobs, hround, List.append_assoc], ?_⟩, hholds.inflight,
    hholds.known⟩
  intro y hy hkey
  rw [hqueue] at hkey
  have hcases : y.jobId ∈ m₁.queue.outstanding.keys ∨ y.jobId = x.jobId :=
    KeyedDict.mem_keys_set.mp hkey
  rw [List.map_append, List.mem_append]
  rcases hcases with hkey | hid
  · rcases List.mem_append.mp hy with hy | hy
    · exact Or.inl (hqueued y hy hkey)
    · rw [List.mem_singleton.mp hy]
      exact Or.inr (List.mem_singleton_self _)
  · rw [hid]
    exact Or.inr (List.mem_singleton_self _)

theorem Account.wait {x : JobManifestV3}
    (h : Account m m₁ (x :: unwaited))
    (hwaited : RoundManager.Waited x m₁.desk m₂.desk ∧ m₂.jobs = m₁.jobs) :
    Account m m₂ unwaited := by
  obtain ⟨⟨hquota, hqueue⟩, hjobs⟩ := hwaited
  obtain ⟨round, hround, hqueued⟩ := h.round
  have hholds : m.quota.Holds m₂.quota unwaited := by
    have hreleased : m₂.quota = m₁.quota.release x.assignedHotkey := hquota
    rw [hreleased]
    exact QuotaBook.Holds.release ⟨h.inflight, h.known⟩
  refine ⟨⟨round, hjobs.trans hround, ?_⟩, hholds.inflight, hholds.known⟩
  intro y hy hkey
  have herased : y.jobId ∈ (m₁.queue.outstanding.erase x.jobId).keys := by
    rw [← Writer.outstanding_remove]
    exact hqueue ▸ hkey
  obtain ⟨hkey, hne⟩ := KeyedDict.mem_keys_erase.mp herased
  have hmem := hqueued y hy hkey
  rw [List.map_cons, List.mem_cons] at hmem
  exact hmem.resolve_left hne

theorem Account.emitAll (h : Account m m₁ [])
    {batch : List RoundJob} {emitted : List JobManifestV3}
    (hemit : batch.mapM (RoundManager.emitOne p cfg d task around) m₁ = .ok emitted m₂) :
    Account m m₂ emitted := by
  refine mapM_induction (R := fun done u => Account m u done) hemit h ?_
  exact fun done e x u v hu hv => hu.emit hv

theorem Account.waitAll {waited : List JobManifestV3}
    (h : Account m m₁ (waited ++ unwaited))
    (hwait : waited.forM (RoundManager.waitOutputs p cfg around) m₁ = .ok ⟨⟩ m₂) :
    Account m m₂ unwaited := by
  induction waited generalizing m₁ with
  | nil =>
    cases hwait
    exact h
  | cons x waited ih =>
    obtain ⟨u, m', hfirst, hrest⟩ := Effects.bind_eq_ok.mp hwait
    exact ih (h.wait (RoundManager.waitOutputs_waited (Or.inl ⟨u, hfirst⟩))) hrest

theorem Account.batches {done : List (List RoundJob)}
    (hdone : done.forM (RoundManager.runBatch p cfg d task around) m = .ok ⟨⟩ m₁) :
    Account m m₁ [] := by
  refine forM_induction (R := fun _ u => Account m u []) hdone (account_refl m) ?_
  intro _ batch u v hu hbatch
  obtain ⟨emitted, w, hemit, hwait⟩ := Effects.bind_eq_ok.mp hbatch
  have hemitted := hu.emitAll hemit
  rw [← List.append_nil emitted] at hemitted
  exact hemitted.waitAll hwait

/-- A step in which the outputs of a job are late. The jobs that were emitted with it and come
after it have not been waited for. -/
inductive TimedOut (p : Platform β) (cfg : RunConfig β) (d : DispatchConfig) (task : RoundTask)
    (around : String → RoundManager.Surroundings β) (step : ℤ) (m : RoundManager.Manager β) :
    RoundManager.Manager β → List JobManifestV3 → Prop where
  | intro {done batch rest waited late unwaited message m₁ m₂ m₃ m'}
      (hbatches : RoundManager.batches task step = done ++ batch :: rest)
      (hdone : done.forM (RoundManager.runBatch p cfg d task around) m = .ok ⟨⟩ m₁)
      (hemitted : batch.mapM (RoundManager.emitOne p cfg d task around) m₁ =
        .ok (waited ++ late :: unwaited) m₂)
      (hwaited : waited.forM (RoundManager.waitOutputs p cfg around) m₂ = .ok ⟨⟩ m₃)
      (hlate : RoundManager.waitOutputs p cfg around late m₃ =
        .error (.timeoutError message) m') :
      TimedOut p cfg d task around step m m' unwaited

theorem TimedOut.runStep (h : TimedOut p cfg d task around step m m' unwaited) :
    ∃ message, RoundManager.runStep p cfg d task around step m =
      .error (.timeoutError message) m' := by
  obtain ⟨hbatches, hdone, hemitted, hwaited, hlate⟩ := h
  rename_i batch rest waited late message m₁ m₂ m₃
  have hwaits := forM_eq_error.mpr ⟨_, _, unwaited, _, rfl, hwaited, hlate⟩
  have hbatch : RoundManager.runBatch p cfg d task around batch m₁ =
      .error (.timeoutError message) m' :=
    Effects.bind_eq_error.mpr (Or.inr ⟨_, _, hemitted, hwaits⟩)
  exact ⟨message, forM_eq_error.mpr ⟨_, batch, rest, m₁, hbatches, hdone, hbatch⟩⟩

theorem TimedOut.account (h : TimedOut p cfg d task around step m m' unwaited) :
    Account m m' unwaited := by
  obtain ⟨-, hdone, hemitted, hwaited, hlate⟩ := h
  have hbefore := ((Account.batches hdone).emitAll hemitted).waitAll hwaited
  exact hbefore.wait (RoundManager.waitOutputs_waited (Or.inr ⟨_, hlate⟩))

theorem step_restored_iff (h : TimedOut p cfg d task around step m m' unwaited) :
    Restored m.desk m'.desk (m'.jobs.drop m.jobs.length) ↔ unwaited = [] := by
  obtain ⟨⟨round, hround, hqueued⟩, hinflight, -⟩ := h.account
  constructor
  · intro hrestored
    cases unwaited with
    | nil => rfl
    | cons x unwaited =>
      have hcount := hinflight x.assignedHotkey
      have hsame : m'.quota.inflight x.assignedHotkey = m.quota.inflight x.assignedHotkey :=
        hrestored.1 x.assignedHotkey
      simp [hsame] at hcount
  · rintro rfl
    refine ⟨fun hotkey => ?_, ?_⟩
    · change m'.quota.inflight hotkey = m.quota.inflight hotkey
      simpa using hinflight hotkey
    · intro manifest hmem hkey
      rw [hround, List.drop_left] at hmem
      exact absurd (hqueued manifest hmem hkey) (by simp)

end Rounds

/-- After a round that was given up, the reservations are back and no job is left in the queue
exactly in these cases: no worker was found for the first job of a stress epoch; no other job of
a step was waiting when one timed out. A job that fails at its grant stays reserved for. -/
theorem abandoned_round_restored_iff (p : Platform β) :
    (∀ cfg d params stages epoch forwardOnly clock (m m' : StreamManager.Manager β) message,
      StreamManager.emitEpoch p cfg d params stages epoch forwardOnly clock m =
        .error (.runtimeError message) m' →
      (Restored m.desk (StreamManager.dropEpochJobs epoch m').desk
          (m'.log.drop m.log.length) ↔
        ∀ e ∈ (StreamEmission.emitEpoch stages params epoch forwardOnly).head?,
          ¬ Assignable cfg d params m e)) ∧
    (∀ cfg d task around step (m m' : RoundManager.Manager β) unwaited,
      TimedOut p cfg d task around step m m' unwaited →
      (∃ message, RoundManager.runStep p cfg d task around step m =
        .error (.timeoutError message) m') ∧
      (Restored m.desk m'.desk (m'.jobs.drop m.jobs.length) ↔ unwaited = [])) ∧
    (∀ cfg d params now grantNow spec (m m₀ m' : StreamManager.Manager β) manifest e,
      StreamManager.emitJob p cfg { d with grantBroker := none } params now grantNow spec none m =
        .ok manifest m₀ →
      StreamManager.emitJob p cfg d params now grantNow spec none m = .error e m' →
      ¬ Restored m.desk m'.desk []) ∧
    (∀ cfg d task around job (m m₀ m' : RoundManager.Manager β) manifest e,
      RoundManager.emitOne p cfg { d with grantBroker := none } task around job m =
        .ok manifest m₀ →
      RoundManager.emitOne p cfg d task around job m = .error e m' →
      ¬ Restored m.desk m'.desk []) := by
  refine ⟨?_, ?_, ?_, ?_⟩
  · intro cfg d params stages epoch forwardOnly clock m m' message h
    exact epoch_restored_iff h
  · intro cfg d task around step m m' unwaited h
    exact ⟨h.runStep, step_restored_iff h⟩
  · intro cfg d params now grantNow spec m m₀ m' manifest e hdirect hraise
    obtain ⟨worker, _, _, hpicks, -⟩ := StreamManager.emitJob_ok hdirect
    rcases (StreamManager.emitJob_error hraise).quota with ⟨-, hnone⟩ | ⟨_, hpicked, hquota⟩
    · exact absurd hpicks (hnone worker)
    · exact not_restored_of_lt (inflight_lt_reserved hpicked hquota)
  · intro cfg d task around job m m₀ m' manifest e hdirect hraise
    obtain ⟨worker, hpicks, -⟩ := RoundManager.emitOne_ok hdirect
    rcases RoundManager.emitOne_error hraise with ⟨-, hnone⟩ | ⟨_, hpicked, hquota⟩
    · exact absurd hpicks (hnone worker)
    · exact not_restored_of_lt (inflight_lt_reserved hpicked hquota)

section OneStage

open StreamBackpressure

def oneStage : PipelineStage := { stageId := 0, forwardGraph := { outputs := [] } }

/-- A stress epoch of two microbatches, with room for one job in the queue of a hotkey. -/
def stressEpoch : EStateM PyErr (StreamManager.Manager Json) PUnit :=
  StreamManager.emitEpoch plainPlatform oneMinerConfig { maxInflightPerHotkey := 1 }
    { nStages := 1, nMicrobatches := 2 } [oneStage] 1000000 true fun _ => (0, 0)

def discovered : StreamManager.Manager Json :=
  StreamManager.discoverWorkers plainPlatform oneMinerConfig {} 0 idleManager.manager

def reservedAfter : EStateM.Result PyErr (StreamManager.Manager Json) PUnit → Option ℚ≥0
  | .error (.runtimeError _) m' =>
    some ((StreamManager.dropEpochJobs 1000000 m').quota.inflight "A")
  | _ => none

theorem raised_of_reservedAfter {r : EStateM.Result PyErr (StreamManager.Manager Json) PUnit}
    {cu : ℚ≥0} (h : reservedAfter r = some cu) : ∃ message m',
      r = .error (.runtimeError message) m' ∧
      (StreamManager.dropEpochJobs 1000000 m').quota.inflight "A" = cu := by
  unfold reservedAfter at h
  split at h
  next message m' => exact ⟨message, m', rfl, Option.some.inj h⟩
  · cases h

/-- The second job of the epoch finds no worker; what the first has reserved stays reserved. -/
theorem dropped_epoch_stays_reserved :
    ∃ message m', stressEpoch discovered = .error (.runtimeError message) m' ∧
      ¬ Restored discovered.desk (StreamManager.dropEpochJobs 1000000 m').desk
        (m'.log.drop discovered.log.length) := by
  have hfirst : reservedAfter (stressEpoch discovered) = some 1 := by decide +kernel
  obtain ⟨message, m', hepoch, hreserved⟩ := raised_of_reservedAfter hfirst
  have hbefore : discovered.quota.inflight "A" = 0 := by decide +kernel
  have hlt : discovered.quota.inflight "A" <
      (StreamManager.dropEpochJobs 1000000 m').quota.inflight "A" := by
    rw [hbefore, hreserved]
    exact zero_lt_one
  exact ⟨message, m', hepoch, not_restored_of_lt hlt⟩

/-- Without a miner nothing is reserved. -/
theorem unassigned_epoch_restored :
    ∃ message m', stressEpoch idleManager.manager = .error (.runtimeError message) m' ∧
      Restored idleManager.manager.desk (StreamManager.dropEpochJobs 1000000 m').desk
        (m'.log.drop idleManager.manager.log.length) := by
  have hnothing : reservedAfter (stressEpoch idleManager.manager) = some 0 := by decide +kernel
  obtain ⟨message, m', hepoch, -⟩ := raised_of_reservedAfter hnothing
  have hepoch' := hepoch
  rw [stressEpoch] at hepoch'
  refine ⟨message, m', hepoch,
    ((abandoned_round_restored_iff plainPlatform).1 _ _ _ _ _ _ _ _ _ _ hepoch').mpr ?_⟩
  rintro e - ⟨spec, worker, -, hpicks⟩
  exact absurd hpicks.account (by simp [idleManager, KeyedDict.empty, KeyedDict.keys])

end OneStage

end QuotaReservations

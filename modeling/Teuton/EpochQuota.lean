import Teuton.QuotaReservations

/-! Waiting for an epoch. Each poll takes finished jobs out of the queue, looks for the outputs of
the last stage and the new weights, and gives back the reservations of the jobs whose outputs are
there; when the epoch is complete, or the deadline passes, the reservations of its other jobs are
given back as well. What a poll sees of the bucket is arbitrary. -/
namespace EpochQuota

open PyJson Signatures Protocol JobEmission Scheduler Dispatch
open Effects StreamEmission StreamManager

variable {β : Type}

/-- The listing of the receipts and the two clock readings of a drain. -/
structure DrainSight where
  listing : Py Listing
  pruneNow : ℚ
  cursorNow : ℚ

/-- What one round of polling sees; the bucket may change between two looks. -/
structure Poll where
  drain : DrainSight
  doneExists : String → Bool
  weightsExist : String → Bool
  outputExists : String → Py Bool
  finalDrain : DrainSight

/-- A manager that waits, with the ids of the jobs whose reservation it has given back. -/
structure Waiting (β : Type) where
  manager : Manager β
  released : List String := []

inductive Outcome where
  | returned
  | timeoutError (message : String)
  deriving DecidableEq

def DrainSight.apply (sight : DrainSight) (m : Manager β) : Manager β :=
  (drainQueueViaReceipts sight.listing sight.pruneNow sight.cursorNow m).2

/-- An exception of the store counts as an output that is not there. -/
def jobOutputsPresent (outputExists : String → Py Bool) (manifest : JobManifestV3) : Bool :=
  manifest.outputs.all fun ref => match outputExists ref.uri with
    | .ok found => found
    | .error _ => false

namespace Waiting

def drain (sight : DrainSight) (w : Waiting β) : Waiting β :=
  { w with manager := sight.apply w.manager }

def release (w : Waiting β) (manifest : JobManifestV3) : Waiting β where
  manager := w.manager.withDesk { w.manager.desk with
    quota := w.manager.quota.release manifest.assignedHotkey }
  released := manifest.jobId :: w.released

/-- The loop over the manifests in memory that gives back the reservations of the epoch's jobs
that pass the test. -/
def releaseJobs (epoch : ℤ) (test : JobManifestV3 → Bool) (w : Waiting β) : Waiting β :=
  w.manager.jobs.vals.foldl (fun w manifest =>
    if manifest.jobId ∈ w.released ∨ ofEpoch epoch manifest = false then w
    else if test manifest then w.release manifest else w) w

def releaseRest (epoch : ℤ) (w : Waiting β) : Waiting β := w.releaseJobs epoch fun _ => true

end Waiting

section Loop

variable (cfg : StreamingRunConfig β) (params : StreamingParams) (stages : List PipelineStage)
  (epoch : ℤ)

def outerDone (poll : Poll) (bucket : String) : Bool :=
  !params.training || stages.all fun stage => stage.outerGraph.isNone ||
    poll.weightsExist (epochWeightsUri cfg bucket (epoch + 1) stage.stageId)

def doneCount (poll : Poll) (bucket : String) : ℕ :=
  (List.range params.nMicrobatches).countP fun mb =>
    poll.doneExists (fwdDoneUri cfg bucket epoch (params.nStages - 1) mb)

/-- The loop of `wait_epoch`; the list has the polls that come before the deadline. -/
def waitLoop : List Poll → Waiting β → Outcome × Waiting β
  | [], w => (.timeoutError ("streaming epoch " ++ toString epoch ++ " timed out"),
      w.releaseRest epoch)
  | poll :: polls, w =>
    let bucket := w.manager.desk.bucket.name
    let polled := (w.drain poll.drain).releaseJobs epoch (jobOutputsPresent poll.outputExists)
    if params.nMicrobatches ≤ doneCount cfg params epoch poll bucket ∧
        outerDone cfg params stages epoch poll bucket then
      (.returned, (polled.releaseRest epoch).drain poll.finalDrain)
    else waitLoop polls polled

def waitEpoch (polls : List Poll) (m : Manager β) : Outcome × Waiting β :=
  waitLoop cfg params stages epoch polls { manager := m }

end Loop

theorem unreleased_perm {round : List JobManifestV3}
    (hids : (round.map JobManifestV3.jobId).Nodup) {x : JobManifestV3} (hx : x ∈ round)
    {released : List String} (hnew : x.jobId ∉ released) :
    (round.filter fun y => y.jobId ∉ released).Perm
      (x :: round.filter fun y => y.jobId ∉ x.jobId :: released) := by
  induction round with
  | nil => cases hx
  | cons y round ih =>
    rw [List.map_cons, List.nodup_cons] at hids
    rcases List.mem_cons.mp hx with rfl | hx
    · have hrest : round.filter (fun z => z.jobId ∉ x.jobId :: released) =
          round.filter fun z => z.jobId ∉ released := by
        refine List.filter_congr fun z hz => ?_
        have hne : z.jobId ≠ x.jobId := fun h => hids.1 (h ▸ List.mem_map_of_mem hz)
        simp [hne]
      rw [List.filter_cons_of_pos (by simpa using hnew), List.filter_cons_of_neg (by simp), hrest]
    · have hne : y.jobId ≠ x.jobId := fun h => hids.1 (h ▸ List.mem_map_of_mem hx)
      have htail := ih hids.2 hx
      by_cases hy : y.jobId ∈ released
      · rw [List.filter_cons_of_neg (by simpa using hy),
          List.filter_cons_of_neg (by simp [hy])]
        exact htail
      · rw [List.filter_cons_of_pos (by simpa using hy),
          List.filter_cons_of_pos (by simp [hy, hne])]
        exact (htail.cons y).trans (List.Perm.swap x y _)

/-- The epoch's jobs are the manifests of the round; of these, the ones not yet released are what
the book holds beyond what it held before. -/
structure Ledger (epoch : ℤ) (before : QuotaBook) (round : List JobManifestV3)
    (w : Waiting β) : Prop where
  jobs : w.manager.jobs.vals.filter (ofEpoch epoch) = round
  once : w.released.Nodup
  own : w.released ⊆ round.map JobManifestV3.jobId
  holds : before.Holds w.manager.quota (round.filter fun x => x.jobId ∉ w.released)

namespace Ledger

variable {epoch : ℤ} {before : QuotaBook} {round : List JobManifestV3} {w : Waiting β}

theorem ids_nodup (h : Ledger epoch before round w) :
    (round.map JobManifestV3.jobId).Nodup := by
  rw [← h.jobs]
  exact w.manager.jobs.nodup.sublist (List.filter_sublist.map _)

theorem drain (h : Ledger epoch before round w) (sight : DrainSight) :
    Ledger epoch before round (w.drain sight) := ⟨h.jobs, h.once, h.own, h.holds⟩

theorem release (h : Ledger epoch before round w) {x : JobManifestV3} (hx : x ∈ round)
    (hnew : x.jobId ∉ w.released) : Ledger epoch before round (w.release x) where
  jobs := h.jobs
  once := List.nodup_cons.mpr ⟨hnew, h.once⟩
  own := List.cons_subset.mpr ⟨List.mem_map_of_mem hx, h.own⟩
  holds := (h.holds.perm (unreleased_perm h.ids_nodup hx hnew)).release

theorem releaseJobs (h : Ledger epoch before round w) (test : JobManifestV3 → Bool) :
    Ledger epoch before round (w.releaseJobs epoch test) ∧
      ∀ x ∈ round, test x = true → x.jobId ∈ (w.releaseJobs epoch test).released := by
  -- over the manifests still to come; those released so far stay released
  have hloop : ∀ (l : List JobManifestV3) (w : Waiting β), Ledger epoch before round w →
      (∀ x ∈ l, ofEpoch epoch x = true → x ∈ round) →
      let w' := l.foldl (fun w manifest =>
        if manifest.jobId ∈ w.released ∨ ofEpoch epoch manifest = false then w
        else if test manifest then w.release manifest else w) w
      Ledger epoch before round w' ∧ w.released ⊆ w'.released ∧
        ∀ x ∈ l, ofEpoch epoch x = true → test x = true → x.jobId ∈ w'.released := by
    intro l
    induction l with
    | nil => exact fun w hw _ => ⟨hw, List.Subset.refl _, fun x hx => nomatch hx⟩
    | cons x l ih =>
      intro w hw hround
      rw [List.foldl_cons]
      have hrest : ∀ y ∈ l, ofEpoch epoch y = true → y ∈ round :=
        fun y hy => hround y (List.mem_cons_of_mem x hy)
      split_ifs with hskip htest
      · obtain ⟨hledger, hgrow, hdone⟩ := ih w hw hrest
        refine ⟨hledger, hgrow, fun y hy hepoch hpass => ?_⟩
        rcases List.mem_cons.mp hy with rfl | hy
        · rcases hskip with hin | hout
          · exact hgrow hin
          · rw [hepoch] at hout
            cases hout
        · exact hdone y hy hepoch hpass
      · push Not at hskip
        have hx : x ∈ round := hround x List.mem_cons_self (Bool.eq_true_of_not_eq_false hskip.2)
        obtain ⟨hledger, hgrow, hdone⟩ := ih _ (hw.release hx hskip.1) hrest
        refine ⟨hledger, fun id hid => hgrow (List.mem_cons_of_mem _ hid), ?_⟩
        intro y hy hepoch hpass
        rcases List.mem_cons.mp hy with rfl | hy
        · exact hgrow List.mem_cons_self
        · exact hdone y hy hepoch hpass
      · obtain ⟨hledger, hgrow, hdone⟩ := ih w hw hrest
        refine ⟨hledger, hgrow, fun y hy hepoch hpass => ?_⟩
        rcases List.mem_cons.mp hy with rfl | hy
        · exact absurd hpass htest
        · exact hdone y hy hepoch hpass
  have hmem : ∀ x, x ∈ round ↔ x ∈ w.manager.jobs.vals ∧ ofEpoch epoch x = true := by
    intro x
    rw [← h.jobs, List.mem_filter]
  obtain ⟨hledger, -, hdone⟩ :=
    hloop w.manager.jobs.vals w h fun x hx hepoch => (hmem x).mpr ⟨hx, hepoch⟩
  exact ⟨hledger, fun x hx => hdone x ((hmem x).mp hx).1 ((hmem x).mp hx).2⟩

def Settled (round : List JobManifestV3) (w : Waiting β) : Prop :=
  w.released.Perm (round.map JobManifestV3.jobId)

theorem releaseRest (h : Ledger epoch before round w) :
    Ledger epoch before round (w.releaseRest epoch) ∧ Settled round (w.releaseRest epoch) := by
  obtain ⟨hledger, hall⟩ := h.releaseJobs fun _ => true
  refine ⟨hledger, (List.perm_ext_iff_of_nodup hledger.once hledger.ids_nodup).mpr fun id => ?_⟩
  refine ⟨fun hid => hledger.own hid, fun hid => ?_⟩
  obtain ⟨x, hx, rfl⟩ := List.mem_map.mp hid
  exact hall x hx rfl

theorem inflight_of_settled (h : Ledger epoch before round w) (hsettled : Settled round w)
    (hotkey : String) : w.manager.quota.inflight hotkey = before.inflight hotkey := by
  have hnone : (round.filter fun x => x.jobId ∉ w.released) = [] := by
    refine List.filter_eq_nil_iff.mpr fun x hx => ?_
    simpa using hsettled.mem_iff.mpr (List.mem_map_of_mem hx)
  have hinflight := h.holds.inflight hotkey
  rw [hnone] at hinflight
  simpa using hinflight

theorem waitLoop (cfg : StreamingRunConfig β) (params : StreamingParams)
    (stages : List PipelineStage) (polls : List Poll) (h : Ledger epoch before round w) :
    Ledger epoch before round (waitLoop cfg params stages epoch polls w).2 ∧
      Settled round (waitLoop cfg params stages epoch polls w).2 := by
  induction polls generalizing w with
  | nil => exact h.releaseRest
  | cons poll polls ih =>
    have hpolled := ((h.drain poll.drain).releaseJobs (jobOutputsPresent poll.outputExists)).1
    rw [EpochQuota.waitLoop]
    split_ifs with hdone
    · obtain ⟨hledger, hsettled⟩ := hpolled.releaseRest
      exact ⟨hledger.drain poll.finalDrain, hsettled⟩
    · exact ih hpolled

end Ledger

section Emission

variable {p : Platform β} {cfg : StreamingRunConfig β} {d : DispatchConfig}
  {params : StreamingParams}

def emitRound (p : Platform β) (cfg : StreamingRunConfig β) (d : DispatchConfig)
    (params : StreamingParams) (jobs : List ((ℤ × ℤ) × JobSpec)) :
    EStateM PyErr (Manager β) (List JobManifestV3) :=
  jobs.mapM fun (clock, spec) => emitJob p cfg d params clock.1 clock.2 spec

theorem emitRound_ok {jobs : List ((ℤ × ℤ) × JobSpec)} {round : List JobManifestV3}
    {m m' : Manager β} (h : emitRound p cfg d params jobs m = .ok round m') :
    m'.jobs = round.foldl KeyedDict.set m.jobs ∧ m.quota.Holds m'.quota round := by
  refine mapM_induction (R := fun done u => u.jobs = done.foldl KeyedDict.set m.jobs ∧
    m.quota.Holds u.quota done) h ⟨rfl, QuotaBook.holds_nil _⟩ ?_
  rintro done ⟨clock, spec⟩ x u v ⟨hjobs, hholds⟩ hemit
  obtain ⟨worker, _, _, hpicks, -, hsigned, hquota, -, hset, -⟩ := emitJob_ok hemit
  have hhotkey := signedManifest_assigned hsigned
  refine ⟨by rw [hset, hjobs, List.foldl_append]; rfl, ?_⟩
  rw [hquota, ← hhotkey]
  exact hholds.reserve (hhotkey ▸ hpicks.account)

theorem ledger_of_emitRound {jobs : List ((ℤ × ℤ) × JobSpec)} {round : List JobManifestV3}
    {m m' : Manager β} {epoch : ℤ} (h : emitRound p cfg d params jobs m = .ok round m')
    (hfresh : ∀ x ∈ m.jobs.vals, ofEpoch epoch x = false)
    (hepoch : ∀ x ∈ round, ofEpoch epoch x = true)
    (honce : (round.map JobManifestV3.jobId).Nodup) :
    Ledger epoch m.quota round { manager := m' } := by
  obtain ⟨hjobs, hholds⟩ := emitRound_ok h
  have hids : ((m.jobs.vals ++ round).map JobManifestV3.jobId).Nodup := by
    rw [List.map_append]
    refine m.jobs.nodup.append honce fun id hold hnew => ?_
    obtain ⟨x, hx, rfl⟩ := List.mem_map.mp hold
    obtain ⟨y, hy, hid⟩ := List.mem_map.mp hnew
    have hsame : ofEpoch epoch y = ofEpoch epoch x :=
      congrArg (PyText.startsWith · (epochPrefix epoch)) hid
    rw [hfresh x hx, hepoch y hy] at hsame
    cases hsame
  refine ⟨?_, List.nodup_nil, List.nil_subset _, by simpa using hholds⟩
  change m'.jobs.vals.filter (ofEpoch epoch) = round
  rw [hjobs, KeyedDict.vals_foldl_set hids, List.filter_append,
    List.filter_eq_nil_iff.mpr fun x hx => by simp [hfresh x hx],
    List.filter_eq_self.mpr hepoch, List.nil_append]

/-- An epoch leaves the reservations as they were before its jobs were emitted, whatever each poll
sees and however the wait ends: each job is released exactly once, and together the releases take
away exactly what they count, so none of them stops at zero. -/
theorem epoch_quota_conserved {jobs : List ((ℤ × ℤ) × JobSpec)} {round : List JobManifestV3}
    {m m' : Manager β} {epoch : ℤ} (h : emitRound p cfg d params jobs m = .ok round m')
    (hfresh : ∀ x ∈ m.jobs.vals, ofEpoch epoch x = false)
    (hepoch : ∀ x ∈ round, ofEpoch epoch x = true)
    (honce : (round.map JobManifestV3.jobId).Nodup) (stages : List PipelineStage)
    (polls : List Poll) :
    let ended := (waitEpoch cfg params stages epoch polls m').2
    (∀ hotkey, ended.manager.quota.inflight hotkey = m.quota.inflight hotkey) ∧
      ended.released.Perm (round.map JobManifestV3.jobId) ∧
      ∀ hotkey, ended.manager.quota.inflight hotkey +
        (round.countP fun x => x.assignedHotkey = hotkey : ℕ) = m'.quota.inflight hotkey := by
  obtain ⟨hledger, hsettled⟩ :=
    (ledger_of_emitRound h hfresh hepoch honce).waitLoop cfg params stages polls
  have hback := hledger.inflight_of_settled hsettled
  refine ⟨hback, hsettled, fun hotkey => ?_⟩
  rw [(emitRound_ok h).2.inflight]
  exact congrArg (· + _) (hback hotkey)

end Emission

section OneMiner

open StreamBackpressure

def twoMicrobatches : EStateM PyErr (Manager Json) (List JobManifestV3) :=
  emitRound plainPlatform oneMinerConfig {} { nStages := 1, nMicrobatches := 2 }
    [((0, 0), forwardJob "j-e7-f-s0-mb0"), ((0, 0), forwardJob "j-e7-f-s0-mb1")]

def blindPoll : Poll where
  drain := ⟨.ok (.plain []), 0, 0⟩
  doneExists := fun _ => false
  weightsExist := fun _ => false
  outputExists := fun _ => .error (.runtimeError "no answer")
  finalDrain := ⟨.ok (.plain []), 0, 0⟩

def emittedAs : EStateM.Result PyErr (Manager Json) (List JobManifestV3) →
    Option (List String × ℚ≥0)
  | .ok round m' => some (round.map JobManifestV3.jobId, m'.quota.inflight "A")
  | .error _ _ => none

theorem ok_of_emittedAs {r : EStateM.Result PyErr (Manager Json) (List JobManifestV3)}
    {ids : List String} {cu : ℚ≥0} (h : emittedAs r = some (ids, cu)) : ∃ round m',
      r = .ok round m' ∧ round.map JobManifestV3.jobId = ids ∧ m'.quota.inflight "A" = cu := by
  cases r with
  | ok round m' =>
    obtain ⟨hids, hcu⟩ := Prod.mk.inj (Option.some.inj h)
    exact ⟨round, m', rfl, hids, hcu⟩
  | error e m' => cases h

/-- Two units are reserved for two jobs; both are given back when the epoch times out. -/
theorem timed_out_epoch_conserved : ∃ round m',
    twoMicrobatches QuotaReservations.discovered = .ok round m' ∧ m'.quota.inflight "A" = 2 ∧
      let ended := (waitEpoch oneMinerConfig { nStages := 1, nMicrobatches := 2 }
        [QuotaReservations.oneStage] 7 [blindPoll, blindPoll] m').2
      ∀ hotkey, ended.manager.quota.inflight hotkey =
        QuotaReservations.discovered.quota.inflight hotkey := by
  have hemitted : emittedAs (twoMicrobatches QuotaReservations.discovered) =
      some (["j-e7-f-s0-mb0", "j-e7-f-s0-mb1"], 2) := by decide +kernel
  obtain ⟨round, m', hround, hids, hreserved⟩ := ok_of_emittedAs hemitted
  refine ⟨round, m', hround, hreserved,
    (epoch_quota_conserved hround (fun x hx => nomatch hx) ?_ ?_ _ _).1⟩
  · intro x hx
    have hid : x.jobId ∈ ["j-e7-f-s0-mb0", "j-e7-f-s0-mb1"] := hids ▸ List.mem_map_of_mem hx
    have hall : ∀ id ∈ ["j-e7-f-s0-mb0", "j-e7-f-s0-mb1"],
        PyText.startsWith id (epochPrefix 7) = true := by decide +kernel
    exact hall _ hid
  · rw [hids]
    decide

end OneMiner

end EpochQuota

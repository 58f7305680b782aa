import Mathlib.Algebra.Order.BigOperators.Group.List
import Teuton.Effects
import Teuton.QueueDirtyFlags
import Teuton.QueueVersions

/-! A queue whose operations do not overlap, and its restart. While nobody else writes the object,
each flush finds the version that its queue stored last, so that a flush leaves in the bucket what
the queue holds. A fresh queue that loads the object goes on from there, without the jobs that have
finished in the meantime. -/
namespace QueueRestart

open PyJson Signatures OrchestratorQueue QueueWriters QueueDirtyFlags Effects

variable {β : Type}

structure Service (β : Type) where
  uri : String
  tag : CasCell β → β → String
  accepts : ∀ (cell : CasCell β) (body : β), cell.Accepts ⟨tag cell body, body⟩

structure Queue (β : Type) where
  writer : Writer := {}
  object : CasCell β := CasCell.absent

def Queue.withWriter (q : Queue β) (f : Writer → Writer) : Queue β :=
  { q with writer := f q.writer }

section Operations

variable (S : Service β) (p : Platform β) (role : QueueRole)

def Service.stored (cell : CasCell β) (body : β) : CasCell β :=
  cell.store ⟨S.tag cell body, body⟩ (S.accepts cell body)

def putWithEtag (body : β) (ifMatch : String) : EStateM PyErr (Queue β) String :=
  update fun q =>
    if ifMatch = q.object.currentTag then
      .ok (S.tag q.object body, { q with object := S.stored q.object body })
    else .error (.preconditionFailed
      ("etag mismatch for " ++ S.uri ++ ": expected='" ++ ifMatch ++ "'"))

/-- The clause `except PreconditionFailed`. -/
def onConflict {α : Type} (x handler : EStateM PyErr (Queue β) α) : EStateM PyErr (Queue β) α :=
  fun q =>
    match x q with
    | .error (.preconditionFailed _) q' => handler q'
    | result => result

/-- A locked part of `flush` that builds a payload: the body and the tag that it replaces. -/
def buildPayload (now : ℤ) : EStateM PyErr (Queue β) (β × Option String) := do
  let q ← get
  modify (·.withWriter Writer.bumpSnapshotId)
  return (payloadBody p role q.writer now, q.writer.etag)

def publish (now : ℤ) : EStateM PyErr (Queue β) String := do
  let (body, prior) ← buildPayload p role now
  putWithEtag S body (Writer.ifMatch prior)

def mergeFromBucket : EStateM PyErr (Queue β) PUnit := do
  let q ← get
  let state ← readQueue p q.object
  modify (·.withWriter (Writer.merge · state))

def flush (force : Bool) (now retryNow : ℤ) : EStateM PyErr (Queue β) Bool := do
  let q ← get
  if q.writer.dirty || force then
    let newEtag ← onConflict (publish S p role now) do
      mergeFromBucket p
      publish S p role retryNow
    modify (·.withWriter (Writer.finishFlush · newEtag))
    return true
  else return false

def reconcileFromBucket (recent : List String) : EStateM PyErr (Queue β) PUnit := do
  let q ← get
  let state ← readQueue p q.object
  modify (·.withWriter (Writer.reconcile · state recent))

inductive Op where
  | mutate (m : Mutator)
  | flush (force : Bool) (now retryNow : ℤ)

def Op.apply (q : Queue β) : Op → Queue β
  | .mutate m => q.withWriter m.apply
  | .flush force now retryNow => after (QueueRestart.flush S p role force now retryNow) q

def applyAll (ops : List Op) (q : Queue β) : Queue β := ops.foldl (Op.apply S p role) q

end Operations

/-- The object shows a list of entries under a snapshot id; an absent object shows none. -/
def Shows (p : Platform β) (role : QueueRole) (cell : CasCell β) (snapshotId : ℤ)
    (l : List QueueEntry) : Prop :=
  (cell.current = none ∧ snapshotId = 0 ∧ l = []) ∨
    ∃ v W now, cell.current = some v ∧ v.body = payloadBody p role W now ∧
      snapshotId = W.snapshotId + 1 ∧ l = W.outstanding.vals

/-- The queue knows the version in the bucket, and holds what it shows unless it is dirty. -/
structure InSync (p : Platform β) (role : QueueRole) (q : Queue β) (shown : List QueueEntry) :
    Prop where
  tag : Writer.ifMatch q.writer.etag = q.object.currentTag
  positive : 0 ≤ q.writer.snapshotId
  shows : Shows p role q.object q.writer.snapshotId shown
  clean : q.writer.dirty = false → q.writer.outstanding.vals = shown

section Flushes

variable {S : Service β} {p : Platform β} {role : QueueRole} {q : Queue β}
variable {shown : List QueueEntry}

theorem Shows.lastPublished (loads_dumps : p.Rereads)
    {cell : CasCell β} {n : ℤ} (h : Shows p role cell n shown) : lastPublished p cell = shown := by
  rcases h with ⟨hnone, -, rfl⟩ | ⟨v, W, now, hcurrent, hbody, -, rfl⟩
  · rw [QueueDirtyFlags.lastPublished, hnone]
  · exact lastPublished_of_body loads_dumps hcurrent ⟨W, now, hbody, rfl⟩

theorem inSync_fresh (p : Platform β) (role : QueueRole) : InSync p role {} [] :=
  ⟨rfl, le_refl 0, .inl ⟨rfl, rfl, rfl⟩, fun _ => rfl⟩

theorem InSync.mutate (h : InSync p role q shown) (m : Mutator) :
    InSync p role (q.withWriter m.apply) shown := by
  refine ⟨?_, ?_, ?_, ?_⟩
  · exact (congrArg Writer.ifMatch (mutator_etag m q.writer)).trans h.tag
  · exact h.positive.trans_eq (QueueVersions.mutator_snapshotId m q.writer).symm
  · have hsame : (q.withWriter m.apply).writer.snapshotId = q.writer.snapshotId :=
      QueueVersions.mutator_snapshotId m q.writer
    rw [hsame]
    exact h.shows
  · intro hclean
    rcases mutator_unchanged_or_flagged m q.writer with hsame | hflagged
    · change (m.apply q.writer).dirty = false at hclean
      change (m.apply q.writer).outstanding.vals = shown
      rw [hsame] at hclean ⊢
      exact h.clean hclean
    · exact absurd (hflagged.1.symm.trans hclean) (by decide)

def flushed (S : Service β) (p : Platform β) (role : QueueRole) (q : Queue β) (now : ℤ) :
    Queue β :=
  let body := payloadBody p role q.writer now
  { writer := q.writer.bumpSnapshotId.finishFlush (S.tag q.object body)
    object := S.stored q.object body }

variable {now retryNow : ℤ} {force : Bool}

theorem publish_ok (h : Writer.ifMatch q.writer.etag = q.object.currentTag) :
    publish S p role now q = .ok (S.tag q.object (payloadBody p role q.writer now))
      ⟨q.writer.bumpSnapshotId, S.stored q.object (payloadBody p role q.writer now)⟩ :=
  bind_eq_ok.mpr ⟨(payloadBody p role q.writer now, q.writer.etag),
    q.withWriter Writer.bumpSnapshotId, rfl, update_eq_ok.mpr (if_pos h)⟩

theorem publish_conflict (h : Writer.ifMatch q.writer.etag ≠ q.object.currentTag) :
    publish S p role now q = .error (.preconditionFailed ("etag mismatch for " ++ S.uri ++
      ": expected='" ++ Writer.ifMatch q.writer.etag ++ "'"))
      (q.withWriter Writer.bumpSnapshotId) :=
  bind_eq_error.mpr (.inr ⟨(payloadBody p role q.writer now, q.writer.etag),
    q.withWriter Writer.bumpSnapshotId, rfl, update_eq_error.mpr ⟨if_neg h, rfl⟩⟩)

theorem after_flush (hgo : (q.writer.dirty || force) = true) :
    after (flush S p role force now retryNow) q =
      match onConflict (publish S p role now)
        (mergeFromBucket p >>= fun _ => publish S p role retryNow) q with
      | .ok newEtag q' => q'.withWriter (Writer.finishFlush · newEtag)
      | .error _ q' => q' := by
  have hflush : flush S p role force now retryNow q = (onConflict (publish S p role now)
      (mergeFromBucket p >>= fun _ => publish S p role retryNow) >>= fun newEtag => do
        modify (·.withWriter (Writer.finishFlush · newEtag))
        return true) q := by
    change (if (q.writer.dirty || force) = true then _ else _ : EStateM PyErr (Queue β) Bool) q = _
    rw [if_pos hgo]
  cases hpublish : onConflict (publish S p role now)
      (mergeFromBucket p >>= fun _ => publish S p role retryNow) q with
  | ok newEtag q' => exact after_of_ok (hflush.trans (bind_eq_ok.mpr ⟨newEtag, q', hpublish, rfl⟩))
  | error e q' => exact after_of_error (hflush.trans (bind_eq_error.mpr (.inl hpublish)))

theorem InSync.after_flush (h : InSync p role q shown)
    (hgo : (q.writer.dirty || force) = true) :
    after (flush S p role force now retryNow) q = flushed S p role q now := by
  rw [QueueRestart.after_flush hgo, onConflict, publish_ok h.tag]
  rfl

theorem flush_noop (hidle : (q.writer.dirty || force) = false) :
    flush S p role force now retryNow q = .ok false q := by
  refine bind_eq_ok.mpr ⟨q, q, rfl, ?_⟩
  rw [hidle]
  rfl

theorem InSync.flush (h : InSync p role q shown) (force : Bool) (now retryNow : ℤ) :
    InSync p role (after (flush S p role force now retryNow) q) q.writer.outstanding.vals ∧
      (after (QueueRestart.flush S p role force now retryNow) q).writer.outstanding =
        q.writer.outstanding ∧
      (after (QueueRestart.flush S p role force now retryNow) q).writer.dirty = false := by
  cases hgo : (q.writer.dirty || force) with
  | true =>
    rw [h.after_flush hgo]
    have hcurrent : (S.stored q.object (payloadBody p role q.writer now)).current =
        some ⟨S.tag q.object (payloadBody p role q.writer now), _⟩ :=
      CasCell.current_store (h := S.accepts _ _)
    refine ⟨⟨?_, ?_, .inr ⟨_, q.writer, now, hcurrent, rfl, rfl, rfl⟩, fun _ => rfl⟩, rfl, rfl⟩
    · exact (CasCell.currentTag_of_current hcurrent).symm
    · exact h.positive.trans (by simp [flushed, Writer.bumpSnapshotId, Writer.finishFlush])
  | false =>
    rw [after_of_ok (flush_noop hgo)]
    obtain ⟨hclean, -⟩ := Bool.or_eq_false_iff.mp hgo
    have hshown := h.clean hclean
    exact ⟨⟨h.tag, h.positive, hshown ▸ h.shows, fun _ => rfl⟩, rfl, hclean⟩

theorem outstanding_mutate {w w' : Writer} (h : w'.outstanding = w.outstanding) (m : Mutator) :
    (m.apply w').outstanding = (m.apply w).outstanding := by
  cases m with
  | add entry => exact congrArg (·.set entry) h
  | remove jobId =>
    simp only [Mutator.apply, Writer.outstanding_remove, h]
  | removeMany jobIds =>
    simp only [Mutator.apply, Writer.outstanding_removeMany, h]
  | replay jobId attempt deadlineUnix =>
    simp only [Mutator.apply, Writer.replay, h]
    cases w.outstanding.get? jobId with
    | none => exact h
    | some entry => rfl
  | pruneExpired now =>
    simp only [Mutator.apply, Writer.outstanding_pruneExpired, h]

/-- Two queues in sync that hold the same entries show the same lists from then on, whatever their
flags, tags and snapshot ids are. -/
theorem InSync.applyAll {q' : Queue β} (h : InSync p role q shown) (h' : InSync p role q' shown)
    (hsame : q'.writer.outstanding = q.writer.outstanding) (ops : List Op) :
    ∃ shown', InSync p role (applyAll S p role ops q) shown' ∧
      InSync p role (QueueRestart.applyAll S p role ops q') shown' := by
  induction ops generalizing q q' shown with
  | nil => exact ⟨shown, h, h'⟩
  | cons op ops ih =>
    cases op with
    | mutate m => exact ih (h.mutate m) (h'.mutate m) (outstanding_mutate hsame m)
    | flush force now retryNow =>
      obtain ⟨hsync, houtstanding, -⟩ := h.flush (S := S) force now retryNow
      obtain ⟨hsync', houtstanding', -⟩ := h'.flush (S := S) force now retryNow
      rw [hsame] at hsync' houtstanding'
      exact ih hsync hsync' (houtstanding'.trans houtstanding.symm)

theorem InSync.reconcile (loads_dumps : p.Rereads)
    (h : InSync p role q shown) (hclean : q.writer.dirty = false) (recent : List String) :
    ∃ fresh, reconcileFromBucket p recent ⟨{}, q.object⟩ = .ok ⟨⟩ ⟨fresh, q.object⟩ ∧
      fresh.outstanding = q.writer.outstanding.eraseAll recent ∧
      fresh.snapshotId = q.writer.snapshotId ∧ InSync p role ⟨fresh, q.object⟩ shown := by
  have hheld := h.clean hclean
  have hload : ∀ state, readQueue p q.object = .ok state →
      reconcileFromBucket p recent ⟨{}, q.object⟩ =
        .ok ⟨⟩ ⟨Writer.reconcile {} state recent, q.object⟩ := fun state hread =>
    bind_eq_ok.mpr ⟨_, _, rfl, bind_eq_ok.mpr ⟨state, _, lift_eq_ok.mpr ⟨hread, rfl⟩, rfl⟩⟩
  rcases h.shows with ⟨hnone, hid, rfl⟩ | ⟨v, W, now, hcurrent, hbody, hid, rfl⟩
  · have hread : readQueue p q.object = .ok none := by
      simp only [readQueue, getWithEtag, hnone]
    have hempty : q.writer.outstanding = KeyedDict.empty := KeyedDict.ext_vals hheld
    refine ⟨_, hload none hread, ?_, hid.symm, ?_, le_refl 0, .inl ⟨hnone, rfl, rfl⟩, ?_⟩
    · rw [hempty]
      rfl
    · simp [Writer.reconcile, Writer.ifMatch, CasCell.currentTag, hnone]
    · intro hdirty
      cases hdirty
  · have hread : readQueue p q.object =
        .ok (some { W.snapshot role now with etag := some v.tag }) :=
      readQueue_payloadBody loads_dumps (hcurrent.trans (by rw [← hbody]))
    have hsnapshot : max 0 (W.snapshotId + 1) = q.writer.snapshotId := by
      rw [← hid]
      exact max_eq_right h.positive
    have hentries : (KeyedDict.ofList W.outstanding.vals).eraseAll recent =
        q.writer.outstanding.eraseAll recent := by
      rw [← hheld, KeyedDict.ofList_vals]
    refine ⟨_, hload _ hread, hentries, hsnapshot, ?_, ?_, ?_, ?_⟩
    · exact (CasCell.currentTag_of_current hcurrent).symm
    · exact le_max_left 0 _
    · exact .inr ⟨v, W, now, hcurrent, hbody, hsnapshot.trans hid, rfl⟩
    · intro hdirty
      have hrecent : recent = [] := by simpa [Writer.reconcile] using hdirty
      subst hrecent
      exact congrArg KeyedDict.vals (KeyedDict.ofList_vals W.outstanding)

/-- A queue that was flushed last and is then restarted: the fresh queue holds the entries that are
not finished, under the same snapshot id, and readers see from it whatever they would see from the
old queue once the finished jobs are removed there. -/
theorem restart_equivalent (S : Service β) (role : QueueRole)
    (loads_dumps : ∀ j, Canonical j → p.loads (p.dumps j) = .ok j) (ops : List Op) (force : Bool)
    (now retryNow : ℤ) (recent : List String) :
    let old := applyAll S p role (ops ++ [.flush force now retryNow]) {}
    ∃ fresh, reconcileFromBucket p recent ⟨{}, old.object⟩ = .ok ⟨⟩ ⟨fresh, old.object⟩ ∧
      fresh.outstanding.vals = old.writer.outstanding.vals.filter (fun e => e.jobId ∉ recent) ∧
      fresh.snapshotId = old.writer.snapshotId ∧
      ((∀ e ∈ old.writer.outstanding.vals, e.jobId ∉ recent) →
        (old.writer.removeMany recent).2 = old.writer) ∧
      ∀ more, lastPublished p (applyAll S p role more ⟨fresh, old.object⟩).object =
        lastPublished p
          (applyAll S p role more ⟨(old.writer.removeMany recent).2, old.object⟩).object := by
  intro old
  obtain ⟨shown, hbefore, -⟩ := (inSync_fresh p role).applyAll (inSync_fresh p role) rfl ops
  obtain ⟨hsync, -, hclean⟩ := hbefore.flush (S := S) force now retryNow
  have hold : old = after (flush S p role force now retryNow) (applyAll S p role ops {}) := by
    simp [old, applyAll, Op.apply]
  rw [← hold] at hsync hclean
  obtain ⟨fresh, hload, houtstanding, hid, hfresh⟩ := hsync.reconcile loads_dumps hclean recent
  refine ⟨fresh, hload, ?_, hid, ?_, ?_⟩
  · rw [houtstanding, KeyedDict.vals_eraseAll]
  · intro hnone
    apply Writer.removeMany_of_disjoint
    intro j hj hmem
    obtain ⟨e, he, rfl⟩ := List.mem_map.mp hmem
    exact hnone e he hj
  · intro more
    have hremoved : InSync p role ⟨(old.writer.removeMany recent).2, old.object⟩ _ :=
      hsync.mutate (.removeMany recent)
    obtain ⟨shown', hleft, hright⟩ := hfresh.applyAll hremoved
      ((Writer.outstanding_removeMany old.writer recent).trans houtstanding.symm) (S := S) more
    rw [hleft.shows.lastPublished loads_dumps, hright.shows.lastPublished loads_dumps]

/-- The mutators alone, without the flushes. -/
def mutateAll : List Op → Writer → Writer
  | [], w => w
  | .mutate m :: ops, w => mutateAll ops (m.apply w)
  | .flush .. :: ops, w => mutateAll ops w

theorem InSync.outstanding_applyAll (h : InSync p role q shown) {w : Writer}
    (hsame : q.writer.outstanding = w.outstanding) (ops : List Op) :
    (∃ shown', InSync p role (QueueRestart.applyAll S p role ops q) shown') ∧
      (QueueRestart.applyAll S p role ops q).writer.outstanding =
        (mutateAll ops w).outstanding := by
  induction ops generalizing q w shown with
  | nil => exact ⟨⟨shown, h⟩, hsame⟩
  | cons op ops ih =>
    cases op with
    | mutate m => exact ih (h.mutate m) (outstanding_mutate hsame m)
    | flush force now retryNow =>
      obtain ⟨hsync, houtstanding, -⟩ := h.flush (S := S) force now retryNow
      exact ih hsync (houtstanding.trans hsame)

/-- Whatever a queue that writes alone has flushed on the way, after one more flush readers see the
entries that its mutators leave, as if it had never been flushed. -/
theorem flush_publishes_mutators (S : Service β) (role : QueueRole)
    (loads_dumps : p.Rereads) (ops : List Op) (force : Bool) (now retryNow : ℤ) :
    lastPublished p (applyAll S p role (ops ++ [.flush force now retryNow]) {}).object =
      (mutateAll ops {}).outstanding.vals := by
  obtain ⟨⟨shown, hsync⟩, houtstanding⟩ :=
    (inSync_fresh p role).outstanding_applyAll (S := S) rfl ops
  rw [applyAll, List.foldl_append, ← houtstanding]
  exact (hsync.flush force now retryNow).1.shows.lastPublished loads_dumps

end Flushes

section Steps

variable {S : Service β} {p : Platform β} {role : QueueRole}

def Queue.idle (q : Queue β) : System β Unit Unit :=
  ⟨q.object, fun _ => q.writer, fun _ => none, fun _ => []⟩

def Queue.during (q : Queue β) (k : Call β) : System β Unit Unit :=
  ⟨q.object, fun _ => q.writer, fun _ => some ((), k), fun _ => []⟩

theorem act_unit (s : System β Unit Unit) (W : Writer) (k : Option (Call β)) :
    s.act () W () k = ⟨s.cell, fun _ => W, fun _ => k.map fun k => ((), k), s.removed⟩ := by
  simp only [System.act, System.mk.injEq, true_and, and_true]
  exact ⟨funext fun _ => Function.update_self .., funext fun _ => Function.update_self ..⟩

section Single

variable {q : Queue β} {retry : Bool} {held : List QueueEntry} {body : β} {prior : Option String}

theorem step_build {force : Bool} (now : ℤ) (hgo : (q.writer.dirty || force) = true) :
    Step p role q.idle (.flushStart () () force now)
      ((q.withWriter Writer.bumpSnapshotId).during (.built false q.writer.outstanding.vals
        (payloadBody p role q.writer now) q.writer.etag)) := by
  have h : Step p role q.idle _ _ := .flushStart q.idle () () force now rfl hgo
  rwa [act_unit] at h

theorem step_put (h : Writer.ifMatch prior = q.object.currentTag) :
    Step p role (q.during (.built retry held body prior)) (.put () (S.tag q.object body))
      (Queue.during ⟨q.writer, S.stored q.object body⟩
        (.published held (S.tag q.object body))) := by
  have h : Step p role (q.during (.built retry held body prior)) _ _ :=
    .put _ () () retry held body prior _ rfl h (S.accepts q.object body)
  rwa [act_unit] at h

theorem step_putRefused (h : Writer.ifMatch prior ≠ q.object.currentTag) :
    Step p role (q.during (.built retry held body prior)) (.putRefused ())
      (if retry then q.idle else q.during .refused) := by
  have h : Step p role (q.during (.built retry held body prior)) _ _ :=
    .putRefused _ () () retry held body prior rfl h
  rw [act_unit] at h
  cases retry <;> exact h

theorem step_finish {newEtag : String} :
    Step p role (q.during (.published held newEtag)) (.finish ())
      (q.withWriter (Writer.finishFlush · newEtag)).idle := by
  have h : Step p role (q.during (.published held newEtag)) _ _ := .finish _ () () held newEtag rfl
  rwa [act_unit] at h

theorem step_read {state : Option QueueState} (h : readQueue p q.object = .ok state) :
    Step p role (q.during .refused) (.readForMerge ()) (q.during (.mergeRead state)) := by
  have h : Step p role (q.during .refused) _ _ := .readForMerge _ () () state rfl h
  rwa [act_unit] at h

theorem step_raise : Step p role (q.during .refused) (.raise ()) q.idle := by
  have h : Step p role (q.during .refused) _ _ := .raiseRead _ () () rfl
  rwa [act_unit] at h

theorem step_merge {state : Option QueueState} :
    Step p role (q.during (.mergeRead state)) (.merge ())
      ((q.withWriter (Writer.merge · state)).during .merged) := by
  have h : Step p role (q.during (.mergeRead state)) _ _ := .merge _ () () state rfl
  rwa [act_unit] at h

theorem step_rebuild (now : ℤ) : Step p role (q.during .merged) (.rebuild () now)
    ((q.withWriter Writer.bumpSnapshotId).during (.built true q.writer.outstanding.vals
      (payloadBody p role q.writer now) q.writer.etag)) := by
  have h : Step p role (q.during .merged) _ _ := .rebuild _ () () now rfl
  rwa [act_unit] at h

end Single

end Steps

section OneJob

def longTags : Service Json where
  uri := "s3://b/v3/netuid=0/runs/r/queues/train.json"
  tag := fun cell _ =>
    String.ofList (List.replicate ((cell.versions.map fun v => v.tag.length).sum + 1) 'v')
  accepts := by
    intro cell body
    refine ⟨?_, ?_⟩
    · intro h
      have hlength := congrArg String.length h
      simp at hlength
    · intro v hv htag
      have hlength := congrArg String.length htag
      have hle := List.single_le_sum (fun _ _ => Nat.zero_le _) _
        (List.mem_map_of_mem (f := fun v : Version Json => v.tag.length) hv)
      simp at hlength
      omega

def oldQueue : Queue Json :=
  applyAll longTags plainPlatform .train [.mutate (.add (plainEntry "x")), .flush false 0 0] {}

def seenNext (q : Queue Json) : List String :=
  (lastPublished plainPlatform (applyAll longTags plainPlatform .train
    [.mutate (.add (plainEntry "y")), .flush false 1 1] q).object).map QueueEntry.jobId

/-- Once its only job has finished, the restarted queue does not show it any more; the old queue
would still. -/
theorem finished_job_not_shown : ∃ fresh,
    reconcileFromBucket plainPlatform ["x"] ⟨{}, oldQueue.object⟩ =
      .ok ⟨⟩ ⟨fresh, oldQueue.object⟩ ∧
    seenNext ⟨fresh, oldQueue.object⟩ = ["y"] ∧ seenNext oldQueue = ["x", "y"] := by
  refine ⟨_, rfl, ?_⟩
  decide +kernel

def twoJobs : List Op := [.mutate (.add (plainEntry "x")), .mutate (.add (plainEntry "y"))]

/-- Of two jobs the restarted queue keeps the one that has not finished. -/
theorem unfinished_job_kept :
    let old := applyAll longTags plainPlatform .train (twoJobs ++ [.flush false 0 0]) {}
    ∃ fresh, reconcileFromBucket plainPlatform ["x"] ⟨{}, old.object⟩ =
        .ok ⟨⟩ ⟨fresh, old.object⟩ ∧
      fresh.outstanding.vals = [plainEntry "y"] ∧ fresh.snapshotId = 1 ∧
      ∀ more, lastPublished plainPlatform
          (applyAll longTags plainPlatform .train more ⟨fresh, old.object⟩).object =
        lastPublished plainPlatform (applyAll longTags plainPlatform .train more
          ⟨(old.writer.removeMany ["x"]).2, old.object⟩).object := by
  intro old
  obtain ⟨fresh, hload, hvals, hid, -, hmore⟩ := restart_equivalent longTags .train
    plainPlatform_lawful.loads_dumps twoJobs false 0 0 ["x"]
  have hold : old.writer.outstanding.vals.filter (fun e => e.jobId ∉ ["x"]) = [plainEntry "y"] ∧
      old.writer.snapshotId = 1 := by decide +kernel
  exact ⟨fresh, hload, hvals.trans hold.1, hid.trans hold.2, hmore⟩

/-- The first job is removed before the second one comes; only the second one is published. -/
theorem second_job_published :
    lastPublished plainPlatform (applyAll longTags plainPlatform .train
      [.mutate (.add (plainEntry "x")), .flush false 0 0, .mutate (.remove "x"),
        .mutate (.add (plainEntry "y")), .flush false 1 1] {}).object = [plainEntry "y"] :=
  (flush_publishes_mutators longTags .train plainPlatform_lawful.loads_dumps [.mutate (.add
    (plainEntry "x")), .flush false 0 0, .mutate (.remove "x"), .mutate (.add (plainEntry "y"))]
    false 1 1).trans rfl

end OneJob

end QueueRestart

import Teuton.CasCell
import Teuton.KeyedDict
import Teuton.Protocol

/-! The outstanding-work queue: its entries and published snapshots, and the in-memory state of
one `OrchestratorQueue`. Each operation on that state is the part of the source method that
runs under the lock; what happens between two such parts belongs to the schedule. -/
namespace OrchestratorQueue

open PyJson Signatures Protocol

variable {β : Type}

structure QueueEntry where
  jobId : String
  assignedHotkey : String
  assignedWorker : Option String
  manifestUri : String
  grantUri : Option String
  deadlineUnix : ℤ
  attempt : ℤ
  createdUnix : ℤ := 0
  deriving DecidableEq, Repr

def QueueEntry.toDict (e : QueueEntry) : Json :=
  mkObj
    [("job_id", .str e.jobId),
     ("assigned_hotkey", .str e.assignedHotkey),
     ("assigned_worker", ofOptStr e.assignedWorker),
     ("manifest_uri", .str e.manifestUri),
     ("grant_uri", ofOptStr e.grantUri),
     ("deadline_unix", .int e.deadlineUnix),
     ("attempt", .int e.attempt),
     ("created_unix", .int e.createdUnix)]

def QueueEntry.fromDict (d : Json) : Py QueueEntry := do
  return {
    jobId := ← (← d.getItem "job_id").toStr
    assignedHotkey := ← (← d.getItem "assigned_hotkey").toStr
    assignedWorker := ← (← d.get "assigned_worker").asOptStr
    manifestUri := ← (← d.getItem "manifest_uri").toStr
    grantUri := ← (← d.get "grant_uri").asOptStr
    deadlineUnix := ← ((← d.get "deadline_unix").orElse (.int 0)).toInt
    attempt := ← ((← d.get "attempt").orElse (.int 0)).toInt
    createdUnix := ← ((← d.get "created_unix").orElse (.int 0)).toInt }

def QueueEntry.fromManifest (m : JobManifestV3) (manifestUri : String) (grantUri : Option String) :
    QueueEntry :=
  { jobId := m.jobId
    assignedHotkey := m.assignedHotkey
    assignedWorker := m.assignedWorker
    manifestUri := manifestUri
    grantUri := grantUri
    deadlineUnix := m.deadlineUnix
    attempt := m.attempt
    createdUnix := m.createdUnix }

/-- The two queues of a run; any other role has no key in the bucket. -/
inductive QueueRole where
  | train
  | audit
  deriving DecidableEq, Repr

def QueueRole.value : QueueRole → String
  | .train => "train"
  | .audit => "audit"

structure QueueState where
  role : String
  snapshotUnix : ℤ
  snapshotId : ℤ
  outstanding : List QueueEntry
  etag : Option String := none
  version : ℤ := 1
  deriving DecidableEq, Repr

def QueueState.toPayload (s : QueueState) : Json :=
  mkObj
    [("version", .int s.version),
     ("role", .str s.role),
     ("snapshot_unix", .int s.snapshotUnix),
     ("snapshot_id", .int s.snapshotId),
     ("outstanding", .arr (s.outstanding.map QueueEntry.toDict))]

def QueueState.fromPayload (payload : Json) (etag : Option String) : Py QueueState := do
  let items ← ((← payload.get "outstanding").orElse (.arr [])).toList
  let outstanding ← items.mapM QueueEntry.fromDict
  return {
    role := ← ((← payload.get "role").orElse (.str "train")).toStr
    snapshotUnix := ← ((← payload.get "snapshot_unix").orElse (.int 0)).toInt
    snapshotId := ← ((← payload.get "snapshot_id").orElse (.int 0)).toInt
    outstanding := outstanding
    etag := etag
    version := ← ((← payload.get "version").orElse (.int 1)).toInt }

/-- What a reader makes of stored bytes: nothing when they are not a JSON object. -/
def decodeSnapshot (p : Platform β) (body : β) (etag : Option String) : Py (Option QueueState) :=
  match p.loads body with
  | .error _ => .ok none
  | .ok (.obj fields) => do return some (← QueueState.fromPayload (.obj fields) etag)
  | .ok _ => .ok none

def getWithEtag (cell : CasCell β) (ifNoneMatch : Option String := none) :
    Option β × Option String :=
  match cell.current with
  | none => (none, none)
  | some v => if ifNoneMatch = some v.tag then (none, some v.tag) else (some v.body, some v.tag)

def readQueue (p : Platform β) (cell : CasCell β) (ifNoneMatch : Option String := none) :
    Py (Option QueueState) :=
  match getWithEtag cell ifNoneMatch with
  | (none, _) => .ok none
  | (some body, etag) => decodeSnapshot p body etag

structure Writer where
  outstanding : KeyedDict QueueEntry.jobId := KeyedDict.empty
  snapshotId : ℤ := 0
  etag : Option String := none
  dirty : Bool := false
  pendingChanges : ℕ := 0

namespace Writer

def markDirty (w : Writer) (n : ℕ) : Writer :=
  { w with dirty := true, pendingChanges := w.pendingChanges + n }

def add (w : Writer) (entry : QueueEntry) : Writer :=
  markDirty { w with outstanding := w.outstanding.set entry } 1

def remove (w : Writer) (jobId : String) : Bool × Writer :=
  if jobId ∈ w.outstanding.keys then
    (true, markDirty { w with outstanding := w.outstanding.erase jobId } 1)
  else (false, w)

def removeNext (acc : ℕ × KeyedDict QueueEntry.jobId) (jobId : String) :
    ℕ × KeyedDict QueueEntry.jobId :=
  if jobId ∈ acc.2.keys then (acc.1 + 1, acc.2.erase jobId) else acc

def removeMany (w : Writer) (jobIds : List String) : ℕ × Writer :=
  let (removed, outstanding) := jobIds.foldl removeNext (0, w.outstanding)
  let w' := { w with outstanding := outstanding }
  (removed, if removed ≠ 0 then w'.markDirty removed else w')

def replay (w : Writer) (jobId : String) (attempt deadlineUnix : ℤ) : Writer :=
  match w.outstanding.get? jobId with
  | none => w
  | some entry =>
    markDirty { w with outstanding :=
      w.outstanding.set { entry with deadlineUnix := deadlineUnix, attempt := attempt } } 1

def expired (now : ℚ) (e : QueueEntry) : Bool := e.deadlineUnix ≠ 0 ∧ (e.deadlineUnix : ℚ) < now

def pruneExpired (w : Writer) (now : ℚ) : List QueueEntry × Writer :=
  let dropped := w.outstanding.vals.filter (expired now)
  let w' := { w with outstanding := w.outstanding.filter fun e => !expired now e }
  (dropped, if dropped.isEmpty then w' else w'.markDirty dropped.length)

/-- The locked part of `reconcile_from_bucket`, after the read. -/
def reconcile (w : Writer) (state : Option QueueState) (recent : List String) : Writer :=
  match state with
  | some st =>
    { outstanding := (KeyedDict.ofList st.outstanding).eraseAll recent
      snapshotId := max w.snapshotId st.snapshotId
      etag := st.etag
      dirty := !recent.isEmpty
      pendingChanges := 0 }
  | none =>
    { outstanding := KeyedDict.empty.eraseAll recent
      snapshotId := w.snapshotId
      etag := none
      dirty := true
      pendingChanges := 0 }

def depth (w : Writer) (hotkey : Option String := none) : ℕ :=
  match hotkey with
  | none => w.outstanding.vals.length
  | some hk => w.outstanding.vals.countP fun e => e.assignedHotkey = hk

/-- The snapshot that a locked part of `flush` builds, with the next snapshot id. -/
def snapshot (w : Writer) (role : QueueRole) (now : ℤ) : QueueState :=
  { role := role.value, snapshotUnix := now, snapshotId := w.snapshotId + 1,
    outstanding := w.outstanding.vals }

def bumpSnapshotId (w : Writer) : Writer := { w with snapshotId := w.snapshotId + 1 }

/-- The locked part of `_merge_from_bucket`, after the read. -/
def merge (w : Writer) (state : Option QueueState) : Writer :=
  match state with
  | some st =>
    { w with
      outstanding := w.outstanding.setDefaults st.outstanding
      snapshotId := max w.snapshotId st.snapshotId
      etag := st.etag }
  | none => { w with etag := none }

/-- The last locked part of `flush`. -/
def finishFlush (w : Writer) (newEtag : String) : Writer :=
  { w with etag := some newEtag, dirty := false, pendingChanges := 0 }

def shouldFlush (w : Writer) (flushMaxChanges : ℕ) : Bool :=
  w.dirty && (w.pendingChanges ≥ flushMaxChanges || w.pendingChanges > 0)

def ifMatch (etag : Option String) : String := etag.getD ""

end Writer

@[simp] theorem queueEntry_fromDict_toDict (e : QueueEntry) :
    QueueEntry.fromDict e.toDict = .ok e := by
  simp [QueueEntry.fromDict, QueueEntry.toDict]

theorem queueEntry_canonical (e : QueueEntry) : Canonical e.toDict := by
  apply canonical_mkObj
  simp

theorem queueState_canonical (s : QueueState) : Canonical s.toPayload := by
  apply canonical_mkObj
  have h : ∀ e ∈ s.outstanding, Canonical e.toDict := fun e _ => queueEntry_canonical e
  simpa using h

theorem fromPayload_toPayload {s : QueueState} (hrole : s.role ≠ "") (hversion : s.version ≠ 0)
    (etag : Option String) :
    QueueState.fromPayload s.toPayload etag = .ok { s with etag := etag } := by
  have hitems : ((Json.arr (s.outstanding.map QueueEntry.toDict)).orElse (.arr [])).toList =
      .ok (s.outstanding.map QueueEntry.toDict) := by
    cases s.outstanding <;> rfl
  have hentries : (s.outstanding.map QueueEntry.toDict).mapM QueueEntry.fromDict =
      .ok s.outstanding := mapM_ok fun e _ => queueEntry_fromDict_toDict e
  have hr : ((Json.str s.role).orElse (.str "train")).toStr = .ok s.role := by
    simp [Json.orElse, Json.truthy, hrole]
  have hv : ((Json.int s.version).orElse (.int 1)).toInt = .ok s.version := by
    simp [Json.orElse, Json.truthy, hversion]
  simp [QueueState.fromPayload, QueueState.toPayload, hitems, hentries, hr, hv, -List.mapM_map]

theorem role_value_ne_empty (role : QueueRole) : role.value ≠ "" := by
  cases role <;> decide

theorem decodeSnapshot_dumps {p : Platform β}
    (loads_dumps : p.Rereads) {s : QueueState}
    (hrole : s.role ≠ "") (hversion : s.version ≠ 0) (etag : Option String) :
    decodeSnapshot p (p.dumps s.toPayload) etag = .ok (some { s with etag := etag }) := by
  have hobj : s.toPayload = .obj (mkFields
      [("version", .int s.version), ("role", .str s.role),
       ("snapshot_unix", .int s.snapshotUnix), ("snapshot_id", .int s.snapshotId),
       ("outstanding", .arr (s.outstanding.map QueueEntry.toDict))]) := rfl
  have hfrom := fromPayload_toPayload hrole hversion etag
  rw [decodeSnapshot, loads_dumps _ (queueState_canonical s)]
  rw [hobj] at hfrom ⊢
  simp only [hfrom]
  rfl

theorem fromPayload_etag (payload : Json) (etag : Option String) :
    QueueState.fromPayload payload etag =
      (fun s : QueueState => { s with etag := etag }) <$> QueueState.fromPayload payload none := by
  simp only [QueueState.fromPayload, map_bind, map_pure]

theorem decodeSnapshot_etag (p : Platform β) (body : β) (etag : Option String) :
    decodeSnapshot p body etag =
      (Option.map fun s : QueueState => { s with etag := etag }) <$>
        decodeSnapshot p body none := by
  unfold decodeSnapshot
  cases p.loads body with
  | error e => rfl
  | ok j =>
    cases j with
    | obj fields =>
      simp only [fromPayload_etag (.obj fields) etag, bind_map_left, map_bind, map_pure,
        Option.map_some]
    | _ => rfl

namespace Writer

@[simp] theorem markDirty_outstanding (w : Writer) (n : ℕ) :
    (w.markDirty n).outstanding = w.outstanding := rfl

@[simp] theorem markDirty_etag (w : Writer) (n : ℕ) : (w.markDirty n).etag = w.etag := rfl

@[simp] theorem markDirty_snapshotId (w : Writer) (n : ℕ) :
    (w.markDirty n).snapshotId = w.snapshotId := rfl

theorem foldl_removeNext (jobIds : List String) (n : ℕ) (d : KeyedDict QueueEntry.jobId) :
    (jobIds.foldl removeNext (n, d)).2 = d.eraseAll jobIds ∧
      n ≤ (jobIds.foldl removeNext (n, d)).1 ∧
      ((jobIds.foldl removeNext (n, d)).1 = n → (jobIds.foldl removeNext (n, d)).2 = d) := by
  induction jobIds generalizing n d with
  | nil => exact ⟨rfl, le_refl n, fun _ => rfl⟩
  | cons j jobIds ih =>
    rw [List.foldl_cons]
    by_cases h : j ∈ d.keys
    · have hstep : removeNext (n, d) j = (n + 1, d.erase j) := if_pos h
      obtain ⟨h₁, h₂, h₃⟩ := ih (n + 1) (d.erase j)
      rw [hstep]
      refine ⟨h₁, by omega, ?_⟩
      intro hn
      omega
    · have hstep : removeNext (n, d) j = (n, d) := if_neg h
      obtain ⟨h₁, h₂, h₃⟩ := ih n d
      rw [hstep]
      refine ⟨?_, h₂, h₃⟩
      rw [h₁]
      change d.eraseAll jobIds = (d.erase j).eraseAll jobIds
      rw [KeyedDict.erase_of_not_mem h]

theorem outstanding_removeMany (w : Writer) (jobIds : List String) :
    (w.removeMany jobIds).2.outstanding = w.outstanding.eraseAll jobIds := by
  have h := (foldl_removeNext jobIds 0 w.outstanding).1
  unfold removeMany
  dsimp only
  split_ifs <;> exact h

theorem removeMany_of_disjoint {w : Writer} {jobIds : List String}
    (h : ∀ j ∈ jobIds, j ∉ w.outstanding.keys) : (w.removeMany jobIds).2 = w := by
  have hfold : jobIds.foldl removeNext (0, w.outstanding) = (0, w.outstanding) := by
    induction jobIds with
    | nil => rfl
    | cons j jobIds ih =>
      obtain ⟨hj, hrest⟩ := List.forall_mem_cons.mp h
      have hstep : removeNext (0, w.outstanding) j = (0, w.outstanding) := if_neg hj
      rw [List.foldl_cons, hstep]
      exact ih hrest
  simp only [removeMany, hfold]
  rfl

theorem outstanding_remove (w : Writer) (jobId : String) :
    (w.remove jobId).2.outstanding = w.outstanding.erase jobId := by
  unfold remove
  split_ifs with h
  · rfl
  · exact (KeyedDict.erase_of_not_mem h).symm

theorem outstanding_pruneExpired (w : Writer) (now : ℚ) :
    (w.pruneExpired now).2.outstanding = w.outstanding.filter fun e => !expired now e := by
  unfold pruneExpired
  dsimp only
  split_ifs <;> rfl

theorem depth_congr {w w' : Writer} (h : w'.outstanding = w.outstanding) (hotkey : Option String) :
    w'.depth hotkey = w.depth hotkey := by
  simp only [depth, h]

theorem depth_le_of_sublist {w w' : Writer}
    (h : w'.outstanding.vals.Sublist w.outstanding.vals) (hotkey : Option String) :
    w'.depth hotkey ≤ w.depth hotkey := by
  cases hotkey with
  | none => exact h.length_le
  | some hk => exact h.countP_le

theorem depth_removeMany_le (w : Writer) (jobIds : List String) (hotkey : Option String) :
    (w.removeMany jobIds).2.depth hotkey ≤ w.depth hotkey := by
  apply depth_le_of_sublist
  rw [outstanding_removeMany]
  exact KeyedDict.vals_eraseAll_sublist _ _

theorem depth_pruneExpired_le (w : Writer) (now : ℚ) (hotkey : Option String) :
    (w.pruneExpired now).2.depth hotkey ≤ w.depth hotkey := by
  apply depth_le_of_sublist
  rw [outstanding_pruneExpired]
  exact List.filter_sublist

theorem depth_add_le (w : Writer) (entry : QueueEntry) (hotkey : String) :
    (w.add entry).depth (some hotkey) ≤
      w.depth (some hotkey) + if entry.assignedHotkey = hotkey then 1 else 0 := by
  have h := w.outstanding.countP_set_le (fun e => decide (e.assignedHotkey = hotkey)) entry
  simp only [decide_eq_true_eq] at h
  exact h

theorem not_mem_of_dropped {w : Writer} {now : ℚ} {e : QueueEntry}
    (he : e ∈ (w.pruneExpired now).1) :
    e.jobId ∉ (w.pruneExpired now).2.outstanding.keys := by
  intro hmem
  rw [outstanding_pruneExpired, KeyedDict.mem_keys_filter] at hmem
  obtain ⟨e', he', hlive, hid⟩ := hmem
  obtain ⟨hvals, hexpired⟩ := List.mem_filter.mp he
  have heq : e' = e := KeyedDict.eq_of_key_eq he' hvals hid
  rw [heq, hexpired] at hlive
  cases hlive

end Writer

end OrchestratorQueue

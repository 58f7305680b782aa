import Teuton.StreamManager

/-! The drain of the queue through receipts, over time. Receipts land at any moment, also while
a listing is under way, and a listing may take long or fail. What a drain scans is bounded by a
cursor that the drain before it has left behind. -/
namespace ReceiptDrain

open PyJson PyText ObjectStore BucketPaths OrchestratorQueue StreamManager

variable {β : Type}

/-- A receipt object and the time when it landed, on the clock of the manager. -/
structure Landing where
  uri : String
  time : ℚ

/-- The manager and the receipts in its bucket. When the last listing that succeeded started, or
else the manager, is a history variable: no step reads it. -/
structure World (β : Type) where
  manager : Manager β
  landed : List Landing := []
  clock : ℚ
  covered : ℚ

/-- One call of the drain: when its listing starts, the clock readings, what the listing returns
and the receipts that land before the call returns. -/
structure Drain where
  start : ℚ
  pruneNow : ℚ
  cursorNow : ℚ
  during : List Landing := []
  listing : Py Listing

/-- A listing shows every receipt that landed before it started. A receipt that has been written
again meanwhile is shown with its later time; whole seconds are shown. -/
def Shows (landed : List Landing) : Listing → Prop
  | .withMeta entries => ∀ r ∈ landed, ∃ e ∈ entries, e.uri = r.uri ∧ truncate r.time ≤ e.mtime
  | .plain uris => ∀ r ∈ landed, r.uri ∈ uris

def Drain.covers (k : Drain) (earlier : ℚ) : ℚ :=
  match k.listing with
  | .ok _ => k.start
  | .error _ => earlier

inductive Step : World β → Option Drain → World β → Prop where
  | land (s : World β) (r : Landing) (htime : s.clock ≤ r.time) :
      Step s none { s with landed := r :: s.landed, clock := r.time }
  | work (s : World β) (m : Manager β) (hcursor : m.cursor = s.manager.cursor) :
      Step s none { s with manager := m }
  | drain (s : World β) (k : Drain) (hstart : s.clock ≤ k.start) (hend : k.start ≤ k.cursorNow)
      (hduring : ∀ r ∈ k.during, k.start ≤ r.time ∧ r.time ≤ k.cursorNow)
      (hshows : ∀ l, k.listing = .ok l → Shows s.landed l) :
      Step s (some k)
        { manager := (drainQueueViaReceipts k.listing k.pruneNow k.cursorNow s.manager).2
          landed := k.during ++ s.landed
          clock := k.cursorNow
          covered := k.covers s.covered }

/-- Finite runs whose drains all meet a condition on the state before the drain. -/
inductive Run (Allowed : World β → Drain → Prop) (start : World β) : World β → Prop where
  | nil : Run Allowed start start
  | snoc {s t e} : Run Allowed start s → (∀ k ∈ e, Allowed s k) → Step s e t →
      Run Allowed start t

structure Start (s : World β) : Prop where
  cursor : s.manager.cursor = s.clock
  covered : s.covered = s.clock

/-- The scan takes in everything that was written since it has to look. -/
def WithinLimit (cursor : ℚ) : Listing → Prop
  | .withMeta entries =>
    (entries.filter fun e => (scanSince cursor).all (· ≤ e.mtime)).length ≤ scanLimit
  | .plain uris => uris.length ≤ scanLimit

/-- The cursor is read at most five seconds after the start of the last listing that succeeded,
which is the listing of this drain unless it failed. -/
def Prompt (s : World β) (k : Drain) : Prop := k.cursorNow ≤ k.covers s.covered + 5

/-- The names that receipt URIs can carry without being misread. -/
structure PlainNames (bucket runId hotkey jobId : String) : Prop where
  path : ∀ part ∈ split '/' bucket ++ split '/' runId, startsWith part "hotkey=" = false
  hotkeyPart : '/' ∉ hotkey.toList
  jobIdPart : '/' ∉ jobId.toList
  named : jobId ≠ ""

def receiptUri (bucket : String) (netuid : ℤ) (runId hotkey jobId : String) (attempt : ℤ) :
    String := joinUri bucket (receiptKey netuid runId hotkey jobId attempt)

section Paths

theorem jobIdFromParts_append {before : List String}
    (h : ∀ part ∈ before, startsWith part "hotkey=" = false) {part jobId : String}
    (hpart : startsWith part "hotkey=" = true) (hjob : jobId ≠ "") (rest : List String) :
    jobIdFromParts (before ++ part :: jobId :: rest) = some jobId := by
  induction before with
  | nil => simp [jobIdFromParts, hpart, hjob]
  | cons x before ih =>
    have hx : startsWith x "hotkey=" = false := h x List.mem_cons_self
    have hrest := ih fun y hy => h y (List.mem_cons_of_mem x hy)
    cases before with
    | nil => simpa [jobIdFromParts, hx] using hrest
    | cons y before => simpa [jobIdFromParts, hx] using hrest

theorem netuid_part (netuid : ℤ) : '/' ∉ ("netuid=" ++ toString netuid).toList := by
  rw [String.toList_append, List.mem_append, not_or]
  refine ⟨by decide, fun h => ?_⟩
  rcases mem_toString_int h with h | h
  · cases h
  · revert h
    decide

theorem jobIdFromReceiptUri_receiptUri {bucket runId hotkey jobId : String}
    (h : PlainNames bucket runId hotkey jobId) (netuid attempt : ℤ) :
    jobIdFromReceiptUri (receiptUri bucket netuid runId hotkey jobId attempt) = some jobId := by
  have huri : receiptUri bucket netuid runId hotkey jobId attempt =
      "s3:" ++ "/" ++ ("" ++ "/" ++ (bucket ++ "/" ++ ("v3" ++ "/" ++
        (("netuid=" ++ toString netuid) ++ "/" ++ ("receipts" ++ "/" ++ (runId ++ "/" ++
          (("hotkey=" ++ hotkey) ++ "/" ++ (jobId ++ "/" ++
            ("attempt=" ++ toString attempt ++ ".json"))))))))) := by
    apply String.toList_injective
    simp [receiptUri, joinUri, receiptKey, receiptsPrefix, root, String.toList_append]
  have hstart : ∀ part ∈ split '/' "s3:" ++ (split '/' "" ++ (split '/' bucket ++
      (split '/' "v3" ++ (split '/' ("netuid=" ++ toString netuid) ++ (split '/' "receipts" ++
        split '/' runId))))), startsWith part "hotkey=" = false := by
    intro part hpart
    rw [split_of_not_mem (netuid_part netuid)] at hpart
    simp only [List.mem_append, List.mem_singleton] at hpart
    rcases hpart with hpart | hpart | hpart | hpart | rfl | hpart | hpart
    · revert part; decide
    · revert part; decide
    · exact h.path part (List.mem_append_left _ hpart)
    · revert part; decide
    · simp [startsWith, String.toList_append, List.isPrefixOf]
    · revert part; decide
    · exact h.path part (List.mem_append_right _ hpart)
  have hhotkey : '/' ∉ ("hotkey=" ++ hotkey).toList := by
    simpa [String.toList_append] using h.hotkeyPart
  rw [jobIdFromReceiptUri, huri]
  simp only [split_append, split_of_not_mem hhotkey, split_of_not_mem h.jobIdPart]
  have hparts := jobIdFromParts_append hstart (startsWith_append "hotkey=" hotkey) h.named
    (split '/' ("attempt=" ++ toString attempt ++ ".json"))
  simpa only [List.append_assoc, List.singleton_append] using hparts

theorem receiptUri_json (bucket : String) (netuid : ℤ) (runId hotkey jobId : String)
    (attempt : ℤ) :
    endsWith (receiptUri bucket netuid runId hotkey jobId attempt) ".json" = true := by
  have hkey : endsWith (receiptKey netuid runId hotkey jobId attempt) ".json" = true := by
    rw [receiptKey]
    exact endsWith_append_right _ (endsWith_self ".json")
  rw [receiptUri, joinUri]
  exact endsWith_append_right _ hkey

end Paths

section Scan

theorem truncate_mono {x y : ℚ} (hx : 0 ≤ x) (hxy : x ≤ y) : truncate x ≤ truncate y := by
  rw [truncate, truncate, if_pos hx, if_pos (hx.trans hxy)]
  exact Int.floor_le_floor hxy

theorem since_le {cursor time : ℚ} (h : cursor ≤ time + 5) :
    (scanSince cursor).all (fun n => decide (n ≤ truncate time)) = true := by
  simp only [scanSince]
  split_ifs with hpos
  · have hle : max 0 (cursor - 5) ≤ time := by
      rcases lt_max_iff.mp hpos with hzero | hcursor
      · exact absurd hzero (lt_irrefl _)
      · rw [max_eq_right hcursor.le]
        linarith
    have htruncate := truncate_mono hpos.le hle
    simpa using htruncate
  · rfl

theorem filterMap_listedJobId (since : Option ℤ) (entries : List ListedObject) :
    entries.filterMap (listedJobId since) =
      (entries.filter fun e => since.all (· ≤ e.mtime)).filterMap (listedJobId since) := by
  rw [List.filterMap_filter]
  refine List.filterMap_congr fun e _ => ?_
  by_cases hrecent : since.all (· ≤ e.mtime) = true
  · rw [if_pos hrecent]
  · rw [if_neg hrecent, listedJobId, if_neg fun h => hrecent h.2]

theorem mem_scan {cursor : ℚ} {l : Listing} (hlimit : WithinLimit cursor l)
    {landed : List Landing} (hshows : Shows landed l) {r : Landing} (hr : r ∈ landed)
    (hpace : cursor ≤ r.time + 5) (hjson : endsWith r.uri ".json" = true) {jobId : String}
    (hjob : jobIdFromReceiptUri r.uri = some jobId) :
    jobId ∈ scanRecentReceiptJobIds (scanSince cursor) scanLimit l := by
  cases l with
  | withMeta entries =>
    obtain ⟨e, he, huri, hmtime⟩ := hshows r hr
    have hrecent : (scanSince cursor).all (fun n => decide (n ≤ e.mtime)) = true := by
      have hsince := since_le hpace
      cases hs : scanSince cursor with
      | none => rfl
      | some n =>
        rw [hs] at hsince
        simp only [Option.all_some, decide_eq_true_eq] at hsince ⊢
        exact hsince.trans hmtime
    have hlisted : listedJobId (scanSince cursor) e = some jobId := by
      rw [listedJobId, if_pos ⟨by rw [huri, hjson], hrecent⟩, huri]
      exact hjob
    -- the limit cuts nothing off
    have hlength : (entries.filterMap (listedJobId (scanSince cursor))).length ≤ scanLimit := by
      rw [filterMap_listedJobId]
      exact (List.length_filterMap_le _ _).trans hlimit
    rw [scanRecentReceiptJobIds, List.take_of_length_le hlength]
    exact List.mem_filterMap.mpr ⟨e, he, hlisted⟩
  | plain uris =>
    have hlength : ((uris.filter (endsWith · ".json")).filterMap jobIdFromReceiptUri).length ≤
        scanLimit := by
      refine (List.length_filterMap_le _ _).trans ((List.length_filter_le _ _).trans hlimit)
    rw [scanRecentReceiptJobIds, List.take_of_length_le hlength]
    exact List.mem_filterMap.mpr ⟨r.uri, List.mem_filter.mpr ⟨hshows r hr, hjson⟩, hjob⟩

end Scan

theorem cursor_le_covered {start s : World β} (hstart : Start start) (hrun : Run Prompt start s) :
    s.manager.cursor ≤ s.covered + 5 := by
  induction hrun with
  | nil =>
    rw [hstart.cursor, hstart.covered]
    linarith
  | snoc _ hprompt hstep ih =>
    cases hstep with
    | land r htime => exact ih
    | work m hcursor => exact hcursor ▸ ih
    | drain k hstart hend hduring hshows => exact hprompt k rfl

theorem not_mem_drained {listing : Py Listing} {pruneNow cursorNow : ℚ} {m : Manager β}
    {jobId : String} {l : Listing} (hl : listing = .ok l)
    (h : jobId ∈ scanRecentReceiptJobIds (scanSince m.cursor) scanLimit l) :
    jobId ∉ (drainQueueViaReceipts listing pruneNow cursorNow m).2.queue.outstanding.keys := by
  subst hl
  intro hmem
  change jobId ∈ (((m.queue.removeMany _).2.pruneExpired pruneNow).2).outstanding.keys at hmem
  rw [Writer.outstanding_pruneExpired, KeyedDict.mem_keys_filter] at hmem
  obtain ⟨e, he, -, hid⟩ := hmem
  rw [Writer.outstanding_removeMany] at he
  have hkeys : jobId ∈ (m.queue.outstanding.eraseAll
      (scanRecentReceiptJobIds (scanSince m.cursor) scanLimit l)).keys :=
    hid ▸ List.mem_map_of_mem he
  exact (KeyedDict.mem_keys_eraseAll.mp hkeys).2 h

/-- A drain whose listing succeeds removes the jobs of all receipts that have landed since the
last such listing started. -/
theorem landed_receipt_drained {start s t : World β} (hstart : Start start)
    (hrun : Run Prompt start s) {k : Drain} (hdrain : Step s (some k) t) {l : Listing}
    (hlisting : k.listing = .ok l) (hlimit : WithinLimit s.manager.cursor l) {r : Landing}
    (hr : r ∈ s.landed) (hfirst : s.covered < r.time) {bucket runId hotkey jobId : String}
    {netuid attempt : ℤ} (huri : r.uri = receiptUri bucket netuid runId hotkey jobId attempt)
    (hnames : PlainNames bucket runId hotkey jobId) :
    jobId ∉ t.manager.queue.outstanding.keys := by
  have hcursor := cursor_le_covered hstart hrun
  have hpace : s.manager.cursor ≤ r.time + 5 := by linarith
  have hjob : jobIdFromReceiptUri r.uri = some jobId := by
    rw [huri]
    exact jobIdFromReceiptUri_receiptUri hnames netuid attempt
  have hjson : endsWith r.uri ".json" = true := by
    rw [huri]
    exact receiptUri_json bucket netuid runId hotkey jobId attempt
  cases hdrain with
  | drain k hstart hend hduring hshows =>
    exact not_mem_drained hlisting (mem_scan hlimit (hshows l hlisting) hr hpace hjson hjob)

section OneJob

def oneJob : Writer := ({} : Writer).add
  { jobId := "j", assignedHotkey := "A", assignedWorker := none, manifestUri := "m",
    grantUri := none, deadlineUnix := 0, attempt := 0 }

def started : World Json where
  manager := { desk := { bucket := ⟨"b", .empty⟩, queue := oneJob }, cursor := 100 }
  clock := 100
  covered := 100

def jobReceipt : String := receiptUri "b" 0 "r" "A" "j" 0

def firstDrain (cursorNow : ℚ) (during : List Landing) : Drain :=
  { start := 101, pruneNow := cursorNow, cursorNow := cursorNow, during := during,
    listing := .ok (.withMeta []) }

def secondDrain (start : ℚ) (mtime : ℤ) : Drain :=
  { start := start, pruneNow := start, cursorNow := start,
    listing := .ok (.withMeta [⟨jobReceipt, mtime⟩]) }

def drained (k : Drain) (s : World Json) : World Json where
  manager := (drainQueueViaReceipts k.listing k.pruneNow k.cursorNow s.manager).2
  landed := k.during ++ s.landed
  clock := k.cursorNow
  covered := k.covers s.covered

theorem step_firstDrain {cursorNow : ℚ} {during : List Landing} (h : 101 ≤ cursorNow)
    (hduring : ∀ r ∈ during, 101 ≤ r.time ∧ r.time ≤ cursorNow) :
    Step started (some (firstDrain cursorNow during))
      (drained (firstDrain cursorNow during) started) := by
  refine .drain started (firstDrain cursorNow during) ?_ h hduring ?_
  · change (100 : ℚ) ≤ 101
    norm_num
  · intro l hl
    cases hl
    exact fun r hr => nomatch hr

/-- A receipt that lands during a listing of one minute is missed by the next drain. -/
theorem receipt_missed_after_slow_listing :
    ∃ s t : World Json, Run (fun _ _ => True) started s ∧ ⟨jobReceipt, 102⟩ ∈ s.landed ∧
      s.covered < 102 ∧ "j" ∈ s.manager.queue.outstanding.keys ∧
      Step s (some (secondDrain 162 102)) t ∧
      "j" ∈ t.manager.queue.outstanding.keys := by
  let slow := firstDrain 161 [⟨jobReceipt, 102⟩]
  have hslow : Step started (some slow) (drained slow started) :=
    step_firstDrain (by norm_num) (by simp; norm_num)
  refine ⟨drained slow started, drained (secondDrain 162 102) (drained slow started),
    Run.nil.snoc (fun _ _ => trivial) hslow, List.mem_cons_self, ?_, by decide +kernel, ?_,
    by decide +kernel⟩
  · change (101 : ℚ) < 102
    norm_num
  · refine .drain _ _ ?_ (le_refl _) (by simp [secondDrain]) ?_
    · change (161 : ℚ) ≤ 162
      norm_num
    · intro l hl
      cases hl
      intro r hr
      obtain rfl : r = ⟨jobReceipt, 102⟩ := by simpa [slow, drained, firstDrain, started] using hr
      exact ⟨_, List.mem_singleton_self _, rfl, by decide +kernel⟩

theorem plainNames : PlainNames "b" "r" "A" "j" := by
  refine ⟨?_, by decide, by decide, by decide⟩
  decide +kernel

/-- A receipt that lands after a prompt drain is found by the next one. -/
theorem receipt_found_after_prompt_listing :
    ∃ s t : World Json, Run Prompt started s ∧ "j" ∈ s.manager.queue.outstanding.keys ∧
      Step s (some (secondDrain 104 103)) t ∧ "j" ∉ t.manager.queue.outstanding.keys := by
  let prompt := firstDrain 102 []
  let s : World Json := { drained prompt started with landed := [⟨jobReceipt, 103⟩], clock := 103 }
  have hprompt : Prompt started prompt := by
    change (102 : ℚ) ≤ 101 + 5
    norm_num
  have hfirst : Step started (some prompt) (drained prompt started) :=
    step_firstDrain (by norm_num) (by simp)
  have hland : Step (drained prompt started) none s := by
    refine .land (drained prompt started) ⟨jobReceipt, 103⟩ ?_
    change (102 : ℚ) ≤ 103
    norm_num
  have hrun : Run Prompt started s := by
    refine (Run.nil.snoc ?_ hfirst).snoc (by simp) hland
    intro k hk
    cases hk
    exact hprompt
  have hsecond : Step s (some (secondDrain 104 103)) (drained (secondDrain 104 103) s) := by
    refine .drain s (secondDrain 104 103) ?_ (le_refl _) (by simp [secondDrain]) ?_
    · change (103 : ℚ) ≤ 104
      norm_num
    · intro l hl
      cases hl
      intro r hr
      obtain rfl : r = ⟨jobReceipt, 103⟩ := List.mem_singleton.mp hr
      exact ⟨_, List.mem_singleton_self _, rfl, by decide +kernel⟩
  have hlimit : WithinLimit s.manager.cursor (.withMeta [⟨jobReceipt, 103⟩]) :=
    (List.length_filter_le _ _).trans (by decide)
  have hcovered : s.covered < 103 := by
    change (101 : ℚ) < 103
    norm_num
  exact ⟨s, _, hrun, by decide +kernel, hsecond,
    landed_receipt_drained ⟨rfl, rfl⟩ hrun hsecond rfl hlimit (List.mem_singleton_self _) hcovered
      rfl plainNames⟩

end OneJob

end ReceiptDrain

import Mathlib.Data.Finset.Basic
import Mathlib.Data.Finset.Lattice.Lemmas
import Teuton.ReceiptDrain
import Teuton.TeardownScope

/-! What a scan of the receipts finds. The job is looked for among the parts of the whole URI and
a counter ends the loop; nevertheless the scan finds the jobs of the run's recent receipts, and
nothing else. -/
namespace ReceiptScan

open PyJson PyText ObjectStore BucketPaths KeyBuilders StreamManager ReceiptDrain RunTeardown

variable {β : Type}

/-- A bucket with the time of the last change of each object, in whole seconds. -/
structure TimedBucket (β : Type) extends Bucket β where
  mtime : String → ℤ

def TimedBucket.listWithMeta (b : TimedBucket β) (prefixUri : String) : List ListedObject :=
  (b.list prefixUri).map fun uri => ⟨uri, b.mtime uri⟩

section Loop

variable {α : Type}

/-- The loop over a listing. The counter counts the objects that give a job, also when they give
the same one. -/
def collect (jobOf : α → Option String) (limit : ℤ) :
    ℤ → Finset String → List α → Finset String
  | _, out, [] => out
  | count, out, e :: rest =>
    if count ≥ limit then out
    else
      match jobOf e with
      | none => collect jobOf limit count out rest
      | some jobId => collect jobOf limit (count + 1) (insert jobId out) rest

variable {jobOf : α → Option String} {limit : ℤ}

theorem collect_eq_take (count : ℤ) (out : Finset String) (l : List α) :
    collect jobOf limit count out l =
      out ∪ ((l.filterMap jobOf).take (limit - count).toNat).toFinset := by
  induction l generalizing count out with
  | nil => simp [collect]
  | cons e rest ih =>
    rw [collect]
    by_cases hfull : count ≥ limit
    · have hzero : (limit - count).toNat = 0 := by omega
      rw [if_pos hfull, hzero]
      simp
    · rw [if_neg hfull]
      cases hjob : jobOf e with
      | none =>
        rw [List.filterMap_cons_none hjob]
        exact ih count out
      | some jobId =>
        -- one more of the places that are left is taken
        have hsucc : (limit - count).toNat = (limit - (count + 1)).toNat + 1 := by omega
        rw [List.filterMap_cons_some hjob, hsucc, List.take_succ_cons, List.toFinset_cons]
        change collect jobOf limit (count + 1) (insert jobId out) rest = _
        rw [ih (count + 1) (insert jobId out), Finset.union_insert, Finset.insert_union]

theorem mem_collect {l : List α} (h : ((l.filterMap jobOf).length : ℤ) ≤ limit) {jobId : String} :
    jobId ∈ collect jobOf limit 0 ∅ l ↔ ∃ e ∈ l, jobOf e = some jobId := by
  have hwhole : (l.filterMap jobOf).length ≤ (limit - 0).toNat := by omega
  rw [collect_eq_take, List.take_of_length_le hwhole]
  simp

end Loop

def scanRecentReceiptJobIds (b : TimedBucket β) (netuid : ℤ) (runId : String)
    (sinceUnix : Option ℚ) (limit : ℤ) : Finset String :=
  collect (listedJobId (sinceUnix.map truncate)) limit 0 ∅
    (b.listWithMeta (b.uriForKey (receiptsPrefix netuid runId)))

def Component (s : String) : Prop := SlashFree s ∧ s ≠ ""

instance (s : String) : Decidable (Component s) := inferInstanceAs (Decidable (_ ∧ _))

def PlainComponent (s : String) : Prop := Component s ∧ startsWith s "hotkey=" = false

instance (s : String) : Decidable (PlainComponent s) := inferInstanceAs (Decidable (_ ∧ _))

/-- What the names of the objects say: each object under the prefix is at the key of a receipt of
a miner for a job. -/
def ReceiptsOnly (b : Bucket β) (netuid : ℤ) (runId : String) : Prop :=
  ∀ uri ∈ b.list (b.uriForKey (receiptsPrefix netuid runId)), ∃ hotkey jobId attempt,
    Component hotkey ∧ Component jobId ∧ uri = receiptUri b.name netuid runId hotkey jobId attempt

def Recent (b : TimedBucket β) (sinceUnix : Option ℚ) (uri : String) : Prop :=
  ∀ since, sinceUnix = some since → truncate since ≤ b.mtime uri

structure RecentReceipt (b : TimedBucket β) (netuid : ℤ) (runId : String) (sinceUnix : Option ℚ)
    (hotkey jobId : String) (attempt : ℤ) : Prop where
  hotkeyPart : Component hotkey
  jobIdPart : Component jobId
  stored : b.objects.find? (receiptUri b.name netuid runId hotkey jobId attempt) ≠ none
  recent : Recent b sinceUnix (receiptUri b.name netuid runId hotkey jobId attempt)

instance (b : TimedBucket β) (sinceUnix : Option ℚ) : DecidablePred (Recent b sinceUnix) :=
  fun uri => match sinceUnix with
    | none => .isTrue fun _ h => nomatch h
    | some since => decidable_of_iff (truncate since ≤ b.mtime uri)
      ⟨fun h _ hsince => Option.some.inj hsince ▸ h, fun h => h since rfl⟩

def recentCount (b : TimedBucket β) (netuid : ℤ) (runId : String) (sinceUnix : Option ℚ) : ℕ :=
  ((b.list (b.uriForKey (receiptsPrefix netuid runId))).filter (Recent b sinceUnix ·)).length

def OtherReceipt (bucket : String) (netuid : ℤ) (runId uri : String) : Prop :=
  ∃ n r hotkey jobId attempt, SlashFree r ∧ (n, r) ≠ (netuid, runId) ∧
    uri = receiptUri bucket n r hotkey jobId attempt

section Exact

variable {b : TimedBucket β} {netuid : ℤ} {runId : String} {sinceUnix : Option ℚ} {limit : ℤ}

theorem receiptsPrefix_mem (netuid : ℤ) (runId : String) :
    receiptsPrefix netuid runId ∈ runPrefixes netuid runId := by
  simp [runPrefixes]

theorem recent_iff {uri : String} :
    (sinceUnix.map truncate).all (fun n => decide (n ≤ b.mtime uri)) = true ↔
      Recent b sinceUnix uri := by
  cases sinceUnix with
  | none => simp [Recent]
  | some since => simp [Recent]

theorem plainNames {bucket hotkey jobId : String} (hbucket : PlainComponent bucket)
    (hrun : PlainComponent runId) (hhotkey : Component hotkey) (hjob : Component jobId) :
    PlainNames bucket runId hotkey jobId where
  path := by
    intro part hpart
    rw [split_of_not_mem hbucket.1.1, split_of_not_mem hrun.1.1] at hpart
    simp only [List.cons_append, List.nil_append, List.mem_cons, List.not_mem_nil,
      or_false] at hpart
    rcases hpart with rfl | rfl
    · exact hbucket.2
    · exact hrun.2
  hotkeyPart := hhotkey.1
  jobIdPart := hjob.1
  named := hjob.2

theorem listedJobId_receipt {hotkey jobId : String} (hbucket : PlainComponent b.name)
    (hrun : PlainComponent runId) (hhotkey : Component hotkey) (hjob : Component jobId)
    (attempt : ℤ) :
    let uri := receiptUri b.name netuid runId hotkey jobId attempt
    listedJobId (sinceUnix.map truncate) ⟨uri, b.mtime uri⟩ =
      if Recent b sinceUnix uri then some jobId else none := by
  intro uri
  have hread := jobIdFromReceiptUri_receiptUri (plainNames hbucket hrun hhotkey hjob) netuid attempt
  have hjson := receiptUri_json b.name netuid runId hotkey jobId attempt
  by_cases hrecent : Recent b sinceUnix uri
  · rw [listedJobId, if_pos ⟨hjson, recent_iff.mpr hrecent⟩, if_pos hrecent]
    exact hread
  · rw [listedJobId, if_neg fun h => hrecent (recent_iff.mp h.2), if_neg hrecent]

theorem receipt_listed (hstored : Stored b.toBucket) {hotkey jobId : String} {attempt : ℤ}
    (h : b.objects.find? (receiptUri b.name netuid runId hotkey jobId attempt) ≠ none) :
    receiptUri b.name netuid runId hotkey jobId attempt ∈
      b.list (b.uriForKey (receiptsPrefix netuid runId)) := by
  refine mem_list.mpr ⟨h, ?_⟩
  have hne : receiptsPrefix netuid runId ≠ "" :=
    runPrefixes_ne_empty (receiptsPrefix_mem netuid runId)
  have hkey : receiptKey netuid runId hotkey jobId attempt = receiptsPrefix netuid runId ++
      ("hotkey=" ++ hotkey ++ "/" ++ jobId ++ "/attempt=" ++ toString attempt ++ ".json") := by
    simp only [receiptKey, String.append_assoc]
  have hparse := hstored _ h
  rw [receiptUri, hkey] at hparse ⊢
  exact startsWith_listStart hne hparse

theorem other_not_listed {bucket uri : String} (hrun : SlashFree runId)
    (h : OtherReceipt bucket netuid runId uri) :
    startsWith uri (listStart bucket (receiptsPrefix netuid runId)) ≠ true := by
  obtain ⟨n, r, hotkey, jobId, attempt, hr, hne, rfl⟩ := h
  refine foreign_not_listed hrun ?_ (receiptsPrefix_mem netuid runId)
  by_cases hn : n = netuid
  · subst hn
    refine .ofRun (.receipt hotkey jobId attempt) (fun heq => hne (by rw [heq])) ?_
    -- an id without a slash does not continue another one with a slash
    by_contra hext
    obtain ⟨rest, hrest⟩ := startsWith_iff.mp (by simpa using hext)
    exact hr (by simp [hrest])
  · exact .ofSubnet (.receipt hotkey jobId attempt) hn

theorem list_congr {b' : TimedBucket β} (hrun : SlashFree runId) (hname : b'.name = b.name)
    (hsame : ∀ uri, ¬ OtherReceipt b.name netuid runId uri →
      (b'.objects.find? uri = none ↔ b.objects.find? uri = none) ∧ b'.mtime uri = b.mtime uri) :
    b'.listWithMeta (b'.uriForKey (receiptsPrefix netuid runId)) =
      b.listWithMeta (b.uriForKey (receiptsPrefix netuid runId)) := by
  have hown : ∀ uri, startsWith uri (listStart b.name (receiptsPrefix netuid runId)) = true →
      ¬ OtherReceipt b.name netuid runId uri :=
    fun uri huri hother => other_not_listed hrun hother huri
  have hlist : b'.list (b'.uriForKey (receiptsPrefix netuid runId)) =
      b.list (b.uriForKey (receiptsPrefix netuid runId)) := by
    rw [list_uriForKey, list_uriForKey, hname]
    exact SortedDict.filter_keys_congr fun uri huri => (hsame uri (hown uri huri)).1
  rw [TimedBucket.listWithMeta, TimedBucket.listWithMeta, hlist]
  refine List.map_congr_left fun uri huri => ?_
  rw [(hsame uri (hown uri (mem_list.mp huri).2)).2]

theorem length_filterMap_le (b : TimedBucket β) (netuid : ℤ) (runId : String)
    (sinceUnix : Option ℚ) :
    ((b.listWithMeta (b.uriForKey (receiptsPrefix netuid runId))).filterMap
      (listedJobId (sinceUnix.map truncate))).length ≤ recentCount b netuid runId sinceUnix := by
  rw [filterMap_listedJobId, TimedBucket.listWithMeta, List.filter_map, List.filterMap_map]
  refine (List.length_filterMap_le _ _).trans (le_of_eq ?_)
  rw [recentCount]
  congr 1
  refine List.filter_congr fun uri _ => ?_
  rw [Bool.eq_iff_iff, decide_eq_true_iff]
  exact recent_iff

end Exact

/-- A scan that the limit does not cut short finds the jobs of the recent receipts; whatever
receipts other runs have, it finds the same. -/
theorem receipt_scan_exact (b : TimedBucket β) (netuid : ℤ) (runId : String)
    (hstored : Stored b.toBucket) (hbucket : PlainComponent b.name) (hrun : PlainComponent runId)
    (honly : ReceiptsOnly b.toBucket netuid runId) (sinceUnix : Option ℚ) (limit : ℤ)
    (hlimit : recentCount b netuid runId sinceUnix ≤ limit) :
    (∀ jobId, jobId ∈ scanRecentReceiptJobIds b netuid runId sinceUnix limit ↔
      ∃ hotkey attempt, RecentReceipt b netuid runId sinceUnix hotkey jobId attempt) ∧
    ∀ b' : TimedBucket β, b'.name = b.name →
      (∀ uri, ¬ OtherReceipt b.name netuid runId uri →
        (b'.objects.find? uri = none ↔ b.objects.find? uri = none) ∧
          b'.mtime uri = b.mtime uri) →
      scanRecentReceiptJobIds b' netuid runId sinceUnix limit =
        scanRecentReceiptJobIds b netuid runId sinceUnix limit := by
  refine ⟨fun jobId => ?_, fun b' hname hsame => ?_⟩
  · have hlength : (((b.listWithMeta (b.uriForKey (receiptsPrefix netuid runId))).filterMap
        (listedJobId (sinceUnix.map truncate))).length : ℤ) ≤ limit := by
      have hle := length_filterMap_le b netuid runId sinceUnix
      omega
    rw [scanRecentReceiptJobIds, mem_collect hlength]
    constructor
    · rintro ⟨e, he, hjob⟩
      obtain ⟨uri, huri, rfl⟩ := List.mem_map.mp he
      obtain ⟨hotkey, jobId', attempt, hhotkey, hjobPart, rfl⟩ := honly uri huri
      rw [listedJobId_receipt hbucket hrun hhotkey hjobPart] at hjob
      split_ifs at hjob with hrecent
      obtain rfl := Option.some.inj hjob
      exact ⟨hotkey, attempt, hhotkey, hjobPart, (mem_list.mp huri).1, hrecent⟩
    · rintro ⟨hotkey, attempt, h⟩
      refine ⟨_, List.mem_map.mpr ⟨_, receipt_listed hstored h.stored, rfl⟩, ?_⟩
      rw [listedJobId_receipt hbucket hrun h.hotkeyPart h.jobIdPart, if_pos h.recent]
  · rw [scanRecentReceiptJobIds, scanRecentReceiptJobIds, list_congr hrun.1.1 hname hsame]

/-- Two runs of one subnet, the id of one being the start of the other's; each has a receipt. -/
def twoRuns : TimedBucket Unit where
  name := "b"
  objects := .ofEntries [(receiptUri "b" 0 "a" "miner" "job" 0, ()),
    (receiptUri "b" 0 "ab" "miner" "other" 0, ())]
  mtime := fun _ => 7

theorem twoRuns_listings :
    twoRuns.objects.keys =
        [receiptUri "b" 0 "a" "miner" "job" 0, receiptUri "b" 0 "ab" "miner" "other" 0] ∧
      twoRuns.list (twoRuns.uriForKey (receiptsPrefix 0 "a")) =
        [receiptUri "b" 0 "a" "miner" "job" 0] ∧
      recentCount twoRuns 0 "a" (some (15 / 2)) = 1 ∧
      (parseUri (receiptUri "b" 0 "a" "miner" "job" 0)).toOption.isSome ∧
      (parseUri (receiptUri "b" 0 "ab" "miner" "other" 0)).toOption.isSome := by
  decide +kernel

theorem two_runs_scanned :
    recentCount twoRuns 0 "a" (some (15 / 2)) ≤ (1 : ℤ) ∧
      ∀ jobId, jobId ∈ scanRecentReceiptJobIds twoRuns 0 "a" (some (15 / 2)) 1 ↔
        ∃ hotkey attempt, RecentReceipt twoRuns 0 "a" (some (15 / 2)) hotkey jobId attempt := by
  obtain ⟨hkeys, hlist, hcount, hparse, hparse'⟩ := twoRuns_listings
  have hstored : Stored twoRuns.toBucket := by
    intro uri h
    have hmem := SortedDict.mem_keys.mpr h
    rw [hkeys] at hmem
    simp only [List.mem_cons, List.not_mem_nil, or_false] at hmem
    rcases hmem with rfl | rfl
    · exact (Option.isSome_iff_exists.mp hparse).imp fun _ => toOption_eq_some.mp
    · exact (Option.isSome_iff_exists.mp hparse').imp fun _ => toOption_eq_some.mp
  have honly : ReceiptsOnly twoRuns.toBucket 0 "a" := by
    intro uri huri
    rw [hlist, List.mem_singleton] at huri
    exact ⟨"miner", "job", 0, by decide, by decide, huri⟩
  have hlimit : recentCount twoRuns 0 "a" (some (15 / 2)) ≤ (1 : ℤ) := by
    rw [hcount]
    rfl
  exact ⟨hlimit, (receipt_scan_exact twoRuns 0 "a" hstored (by decide) (by decide) honly _ 1
    hlimit).1⟩

end ReceiptScan

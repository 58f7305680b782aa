import Teuton.KeyBuilders
import Teuton.RunTeardown

/-! What a teardown leaves alone. Every prefix that `wipe_run` lists names the subnet, the part of
the tree and the run, each closed by a slash, so no key of another run or subnet lies under it,
whatever ids extend each other; and the counter counts the objects that are gone. -/
namespace RunTeardown

open PyJson PyText ObjectStore BucketPaths PathSegments KeyBuilders

variable {β : Type}

section Scope

/-- A key that is none of the run's: it belongs to another subnet or to a run whose id does not
continue this one with a slash, or it is a heartbeat or a score. -/
inductive ForeignKey (netuid : ℤ) (runId : String) : String → Prop where
  | ofSubnet {n : ℤ} {r key : String} : RunKey n r key → n ≠ netuid → ForeignKey netuid runId key
  | ofRun {r key : String} : RunKey netuid r key → r ≠ runId →
      startsWith r (runId ++ "/") = false → ForeignKey netuid runId key
  | workerHeartbeat (n : ℤ) (hotkey workerId : String) :
      ForeignKey netuid runId (workerHeartbeatKey n hotkey workerId)
  | auditorHeartbeat (n : ℤ) (hotkey workerId : String) :
      ForeignKey netuid runId (auditorHeartbeatKey n hotkey workerId)
  | scores (n : ℤ) (windowId : String) : ForeignKey netuid runId (scoresKey n windowId)

variable {netuid n : ℤ} {runId r key pre branch : String} {l m : List Char}

theorem part_inj {label a b : String} (ha : SlashFree a) (hb : SlashFree b)
    (h : part label a l = part label b m) : a = b ∧ l = m := by
  obtain ⟨htext, hrest⟩ := append_sep_inj ha hb (List.append_cancel_left h)
  exact ⟨String.toList_inj.mp htext, hrest⟩

def branches : List String :=
  ["runs", "jobs", "artifacts", "receipts", "verdicts", "audits", "telemetry"]

theorem runPrefixes_text (h : pre ∈ runPrefixes netuid runId) (rest : List Char) :
    ∃ branch ∈ branches, pre.toList ++ rest =
      part "v3/netuid=" (toString netuid) (part "" branch (part "" runId rest)) := by
  simp only [runPrefixes, List.mem_cons, List.not_mem_nil, or_false] at h
  rcases h with rfl | rfl | rfl | rfl | rfl | rfl | rfl
  · exact ⟨"runs", by simp [branches], by simp [runRoot, root, part]⟩
  · exact ⟨"jobs", by simp [branches], by simp [jobsPrefix, root, part]⟩
  · exact ⟨"artifacts", by simp [branches], by simp [root, part]⟩
  · exact ⟨"receipts", by simp [branches], by simp [receiptsPrefix, root, part]⟩
  · exact ⟨"verdicts", by simp [branches], by simp [verdictsPrefix, root, part]⟩
  · exact ⟨"audits", by simp [branches], by simp [auditRoot, root, part]⟩
  · exact ⟨"telemetry", by simp [branches], by simp [telemetryRunPrefix, root, part]⟩

theorem slashFree_of_branches (h : branch ∈ branches) : SlashFree branch := by
  revert branch
  decide

theorem RunKey.text (h : RunKey n r key) : ∃ branch rest, SlashFree branch ∧
    key.toList = part "v3/netuid=" (toString n) (part "" branch (part "" r rest)) := by
  rcases h.cases with ⟨pre, hpre, rest, rfl⟩ | ⟨jobId, hotkey, rfl⟩
  · obtain ⟨branch, hbranch, htext⟩ := runPrefixes_text hpre rest.toList
    exact ⟨branch, rest.toList, slashFree_of_branches hbranch, by rw [String.toList_append, htext]⟩
  · refine ⟨"assignments", part "" jobId (file "hotkey=" hotkey ".json"), by decide, ?_⟩
    simp [assignmentKey, root, part, file]

theorem eq_of_part (hrun : SlashFree runId) (hext : startsWith r (runId ++ "/") = false)
    (h : part "" runId l = part "" r m) : r = runId := by
  have hsplit : runId.toList ++ '/' :: l = r.toList ++ '/' :: m := h
  rcases List.append_eq_append_iff.mp hsplit with ⟨mid, hmid, hrest⟩ | ⟨mid, hmid, hrest⟩
  · cases mid with
    | nil => exact String.toList_inj.mp (by simpa using hmid)
    | cons c mid =>
      obtain ⟨rfl, -⟩ := List.cons.inj hrest
      have hstarts : startsWith r (runId ++ "/") = true :=
        startsWith_iff.mpr ⟨mid, by simp [hmid]⟩
      rw [hstarts] at hext
      cases hext
  · cases mid with
    | nil => exact String.toList_inj.mp (by simpa using hmid.symm)
    | cons c mid =>
      obtain ⟨rfl, -⟩ := List.cons.inj hrest
      exact absurd (hmid ▸ List.mem_append_right _ List.mem_cons_self) hrun

theorem text_under_prefix {rest : List Char} (hpre : pre ∈ runPrefixes netuid runId)
    (hbranch : SlashFree branch)
    (htext : key.toList = part "v3/netuid=" (toString n) (part "" branch m))
    (hunder : key.toList = pre.toList ++ rest) :
    n = netuid ∧ branch ∈ branches ∧ m = part "" runId rest := by
  obtain ⟨branch', hbranch', htext'⟩ := runPrefixes_text hpre rest
  rw [hunder, htext'] at htext
  obtain ⟨hn, hbelow⟩ := part_inj (slash_not_mem_toString _) (slash_not_mem_toString _) htext
  obtain ⟨rfl, hrest⟩ := part_inj (slashFree_of_branches hbranch') hbranch hbelow
  have hnumber := congrArg readNumber hn
  rw [readNumber_toString, readNumber_toString] at hnumber
  exact ⟨hnumber.symm, hbranch', hrest.symm⟩

theorem ForeignKey.text (h : ForeignKey netuid runId key) :
    ∃ n branch m, SlashFree branch ∧
      key.toList = part "v3/netuid=" (toString n) (part "" branch m) ∧
      (n = netuid → branch ∈ branches → SlashFree runId → ∀ rest, m ≠ part "" runId rest) := by
  cases h with
  | ofSubnet hkey hn =>
    obtain ⟨branch, rest, hbranch, htext⟩ := hkey.text
    exact ⟨_, branch, _, hbranch, htext, fun heq => absurd heq hn⟩
  | ofRun hkey hr hext =>
    obtain ⟨branch, rest, hbranch, htext⟩ := hkey.text
    exact ⟨_, branch, _, hbranch, htext, fun _ _ hrun rest heq =>
      hr (eq_of_part hrun hext heq.symm)⟩
  | workerHeartbeat n hotkey workerId =>
    refine ⟨n, "miners", part "" hotkey (part "" "workers" (part "" workerId
      "heartbeat.json".toList)), by decide, ?_, fun _ h => absurd h (by decide)⟩
    simp [workerHeartbeatKey, minersPrefix, root, part]
  | auditorHeartbeat n hotkey workerId =>
    refine ⟨n, "auditors", part "" hotkey (part "" "workers" (part "" workerId
      "heartbeat.json".toList)), by decide, ?_, fun _ h => absurd h (by decide)⟩
    simp [auditorHeartbeatKey, auditorsPrefix, root, part]
  | scores n windowId =>
    refine ⟨n, "scores", file "window=" windowId "/scores.json", by decide, ?_,
      fun _ h => absurd h (by decide)⟩
    simp [scoresKey, root, part, file]

theorem under_listStart {bucket : String}
    (h : startsWith (joinUri bucket key) (listStart bucket pre) = true) :
    (∃ rest, key.toList = pre.toList ++ rest) ∨ ∃ rest, key.toList = 's' :: rest := by
  have hcancel : ∀ text : String, startsWith (joinUri bucket key) (joinUri bucket text) = true →
      ∃ rest, key.toList = text.toList ++ rest := by
    intro text htext
    obtain ⟨rest, hrest⟩ := startsWith_iff.mp htext
    refine ⟨rest, ?_⟩
    simpa [joinUri] using hrest
  unfold listStart at h
  cases hparse : parseUri (joinUri bucket pre) with
  | ok parts =>
    rw [hparse] at h
    exact Or.inl (hcancel _ h)
  | error e =>
    rw [hparse] at h
    obtain ⟨rest, hrest⟩ := hcancel _ h
    exact Or.inr ⟨_, by simpa [joinUri] using hrest⟩

theorem foreign_not_listed {bucket : String} (hrun : SlashFree runId)
    (h : ForeignKey netuid runId key) (hpre : pre ∈ runPrefixes netuid runId) :
    startsWith (joinUri bucket key) (listStart bucket pre) ≠ true := by
  intro hlisted
  obtain ⟨n, branch, m, hbranch, htext, hapart⟩ := h.text
  rcases under_listStart hlisted with ⟨rest, hunder⟩ | ⟨rest, hnested⟩
  · obtain ⟨hn, hmem, hrest⟩ := text_under_prefix hpre hbranch htext hunder
    exact hapart hn hmem hrun rest hrest
  · rw [htext] at hnested
    exact absurd (List.cons.inj hnested).1 (by decide)

end Scope

section Count

/-- The counter counts what has been seen, each object was there and is gone, and nothing else has
changed. -/
structure Tally (b : Bucket β) (s : Wiping β) : Prop where
  counted : s.deleted = s.seen.length
  nodup : s.seen.Nodup
  present : ∀ uri ∈ s.seen, b.objects.find? uri ≠ none
  gone : ∀ uri ∈ s.seen, s.bucket.objects.find? uri = none
  kept : ∀ uri, uri ∉ s.seen → s.bucket.objects.find? uri = b.objects.find? uri

variable {b : Bucket β} {s t : Wiping β}

theorem tally_start (b : Bucket β) : Tally b { bucket := b } :=
  ⟨rfl, List.nodup_nil, by simp, by simp, fun _ _ => rfl⟩

theorem Tally.present_of_find {uri : String} (h : Tally b s)
    (huri : s.bucket.objects.find? uri ≠ none) : b.objects.find? uri ≠ none := by
  by_cases hseen : uri ∈ s.seen
  · exact h.present uri hseen
  · rwa [← h.kept uri hseen]

theorem Tally.next {uri : String} (h : Tally b s) (huri : b.objects.find? uri ≠ none)
    (hstep : wipeNext s uri = .ok t) : Tally b t := by
  unfold wipeNext at hstep
  split_ifs at hstep with hseen
  · cases hstep
    exact h
  · obtain ⟨b', hdelete, hstep⟩ := bind_eq_ok.mp hstep
    cases hstep
    obtain ⟨-, rfl⟩ := Bucket.delete_eq_ok.mp hdelete
    refine ⟨by simp [h.counted], List.nodup_cons.mpr ⟨hseen, h.nodup⟩, ?_, ?_, ?_⟩
    · intro u hu
      rcases List.mem_cons.mp hu with rfl | hu
      · exact huri
      · exact h.present u hu
    · intro u hu
      rcases List.mem_cons.mp hu with rfl | hu
      · simp
      · simp [h.gone u hu]
    · intro u hu
      rw [List.mem_cons, not_or] at hu
      simp [hu.1, h.kept u hu.2]

theorem Tally.loop {uris : List String} (h : Tally b s)
    (huris : ∀ uri ∈ uris, b.objects.find? uri ≠ none) (hrun : uris.foldlM wipeNext s = .ok t) :
    Tally b t := by
  induction uris generalizing s with
  | nil =>
    cases hrun
    exact h
  | cons uri uris ih =>
    rw [List.foldlM_cons] at hrun
    obtain ⟨u, hstep, hrun⟩ := bind_eq_ok.mp hrun
    have hu := h.next (huris uri List.mem_cons_self) hstep
    exact ih hu (fun v hv => huris v (List.mem_cons_of_mem _ hv)) hrun

theorem Tally.prefixes {prefixes : List String} (h : Tally b s)
    (hrun : prefixes.foldlM wipePrefix s = .ok t) : Tally b t := by
  induction prefixes generalizing s with
  | nil =>
    cases hrun
    exact h
  | cons pre prefixes ih =>
    rw [List.foldlM_cons] at hrun
    obtain ⟨u, hstep, hrun⟩ := bind_eq_ok.mp hrun
    refine ih (h.loop (fun uri huri => ?_) hstep) hrun
    exact h.present_of_find (mem_list.mp huri).1

def disappeared (b b' : Bucket β) : List String :=
  b.objects.keys.filter fun uri => (b'.objects.find? uri).isNone

theorem Tally.deleted_eq (h : Tally b s) : s.deleted = (disappeared b s.bucket).length := by
  have hnodup : (disappeared b s.bucket).Nodup :=
    (b.objects.keys_sorted.imp ne_of_lt).filter _
  have hmem : ∀ uri, uri ∈ s.seen ↔ uri ∈ disappeared b s.bucket := by
    intro uri
    rw [disappeared, List.mem_filter, SortedDict.mem_keys, Option.isNone_iff_eq_none]
    constructor
    · intro hseen
      exact ⟨h.present uri hseen, h.gone uri hseen⟩
    · rintro ⟨hpresent, hgone⟩
      by_contra hseen
      exact hpresent (h.kept uri hseen ▸ hgone)
  rw [h.counted]
  exact ((List.perm_ext_iff_of_nodup h.nodup hnodup).mpr hmem).length_eq

end Count

/-- A teardown returns, leaves every key of others as it is, and returns the number of objects
that are gone. -/
theorem teardown_spares_others (b : Bucket β) (netuid : ℤ) {runId : String}
    (hrun : SlashFree runId) :
    (Stored b → ∃ n b', wipeRun b netuid runId = .ok (n, b')) ∧
    ∀ n b', wipeRun b netuid runId = .ok (n, b') →
      (∀ key, ForeignKey netuid runId key →
        b'.objects.find? (b.uriForKey key) = b.objects.find? (b.uriForKey key)) ∧
      n = (disappeared b b').length := by
  refine ⟨fun hb => wipeRun_returns hb netuid runId, fun n b' h => ⟨?_, ?_⟩⟩
  · intro key hkey
    obtain ⟨-, hfind⟩ := wipeRun_ok h
    rw [hfind, if_neg]
    rintro ⟨pre, hpre, hlisted⟩
    exact foreign_not_listed hrun hkey hpre hlisted
  · obtain ⟨s, hs, h⟩ := bind_eq_ok.mp h
    cases h
    exact ((tally_start b).prefixes hs).deleted_eq

/-- The run `a` is torn down next to the run `ab`. -/
theorem longer_run_spared :
    SlashFree "a" ∧
    ∀ n b', wipeRun (runBucket [stateKey 0 "a", stateKey 0 "ab"]) 0 "a" = .ok (n, b') →
      (∀ key, ForeignKey 0 "a" key →
        b'.objects.find? (joinUri "b" key) =
          (runBucket [stateKey 0 "a", stateKey 0 "ab"]).objects.find? (joinUri "b" key)) ∧
      n = (disappeared (runBucket [stateKey 0 "a", stateKey 0 "ab"]) b').length :=
  ⟨by decide, (teardown_spares_others _ 0 (by decide)).2⟩

end RunTeardown

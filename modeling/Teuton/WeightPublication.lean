import Mathlib.Algebra.Order.BigOperators.Group.List
import Mathlib.Algebra.BigOperators.Ring.List
import Mathlib.Data.List.Sort
import Mathlib.Data.Prod.Lex
import Mathlib.Tactic.FieldSimp
import Mathlib.Tactic.Linarith
import Mathlib.Tactic.Positivity
import Teuton.KeyedDict
import Teuton.PyText

/-! Weights on the chain. The scores of the hotkeys are normalised, hotkeys that are not
registered are dropped, and the weights of the others are set in the order of their uids. Scores
and weights are exact numbers. -/
namespace WeightPublication

open PyText

abbrev Scores := KeyedDict (Prod.fst : String × ℚ → String)

def Scores.get (scores : Scores) (hotkey : String) : ℚ :=
  ((scores.get? hotkey).map Prod.snd).getD 0

structure WeightUpdate where
  uids : List ℕ
  weights : List ℚ
  submitted : Bool := false
  reason : String := ""
  message : String := ""
  extrinsicHash : Option String := none
  blockHash : Option String := none
  droppedHotkeys : List String := []
  extra : List (String × String) := []

def clean (scores : Scores) : Scores :=
  scores.mapVals (fun item => (item.1, max 0 item.2)) fun _ => rfl

def total (scores : Scores) : ℚ := (scores.vals.map Prod.snd).sum

def normalizeScores (scores : Scores) : Scores :=
  let cleaned := clean scores
  if cleaned.vals.isEmpty then KeyedDict.empty
  else if total cleaned ≤ 0 then
    let equal : ℚ := 1 / cleaned.vals.length
    KeyedDict.ofList ((cleaned.keys.insertionSort (· ≤ ·)).map fun k => (k, equal))
  else cleaned.mapVals (fun item => (item.1, item.2 / total cleaned)) fun _ => rfl

def hotkeyToUid (hotkeys : List String) : KeyedDict (Prod.fst : String × ℕ → String) :=
  KeyedDict.ofList hotkeys.zipIdx

/-- What `set_weights` of the chain library gives back. Reading a part may raise; what is kept of
an exception is its representation. An empty tuple is an object without the attributes that are
looked for. -/
inductive ChainAnswer where
  | raised (repr : String)
  | tuple (first : Except String Bool) (second : Option (Option (Except String String)))
  | object (success : Except String Bool) (message : Except String String)
      (extrinsicHash blockHash : Option String) (repr : String)

structure Reading where
  submitted : Bool := false
  reason : String := ""
  message : String := ""
  extrinsicHash : Option String := none
  blockHash : Option String := none
  extra : List (String × String) := []

def isRateLimit (message : String) : Bool :=
  let low := String.ofList (message.toList.map Char.toLower)
  isInText "ratelimit" low || isInText "rate_limit" low || isInText "too soon" low

def tupleReason (submitted : Bool) (message : String) : String :=
  if !submitted && message != "" then
    if isRateLimit message then "ratelimited" else "chain_rejected"
  else if submitted then "success" else ""

def parseError (submitted : Bool) (repr : String) : Reading where
  submitted := submitted
  reason := "parse_error"
  extra := [("parse_error", repr)]

def readAnswer : ChainAnswer → Reading
  | .raised repr => { reason := "set_weights_exception", message := repr }
  | .tuple (.error repr) _ => parseError false repr
  | .tuple (.ok submitted) (some (some (.error repr))) => parseError submitted repr
  | .tuple (.ok submitted) (some (some (.ok message))) =>
    { submitted := submitted, reason := tupleReason submitted message, message := message }
  | .tuple (.ok submitted) _ => { submitted := submitted, reason := tupleReason submitted "" }
  | .object (.error repr) _ _ _ _ => parseError false repr
  | .object (.ok submitted) (.error repr) _ _ _ => parseError submitted repr
  | .object (.ok submitted) (.ok message) extrinsicHash blockHash repr =>
    { submitted := submitted
      reason :=
        if submitted then "success" else if message ≠ "" then "chain_rejected" else "unknown"
      message := message
      extrinsicHash := extrinsicHash
      blockHash := blockHash
      extra := [("raw_repr", String.ofList (repr.toList.take 300))] }

def missing (hotkeys : List String) (normalized : Scores) : List String :=
  (normalized.keys.filter fun h => h ∉ (hotkeyToUid hotkeys).keys).insertionSort (· ≤ ·)

def pairs (hotkeys : List String) (normalized : Scores) : List (ℕ ×ₗ ℚ) :=
  (normalized.vals.filterMap fun item =>
    ((hotkeyToUid hotkeys).get? item.1).map fun entry => toLex (entry.2, item.2)).insertionSort
      (· ≤ ·)

def dryRunUpdate (normalized : Scores) : WeightUpdate :=
  let items : List (String ×ₗ ℚ) := normalized.vals.map toLex
  let ordered := items.insertionSort (· ≤ ·)
  { uids := List.range ordered.length
    weights := ordered.map fun item => (ofLex item).2
    submitted := true
    reason := "dry_run" }

def publishWeights (dryRun : Bool) (hotkeys : List String)
    (answer : List ℕ → List ℚ → ChainAnswer) (scores : Scores) : WeightUpdate :=
  let normalized := normalizeScores scores
  if dryRun then dryRunUpdate normalized
  else if normalized.vals.isEmpty then { uids := [], weights := [], reason := "no_scores" }
  else
    let dropped := missing hotkeys normalized
    let found := pairs hotkeys normalized
    let uids := found.map fun pair => (ofLex pair).1
    let weights := found.map fun pair => (ofLex pair).2
    if uids.isEmpty then
      { uids := [], weights := [], reason := "no_mapped_hotkeys", droppedHotkeys := dropped }
    else
      let reading := readAnswer (answer uids weights)
      { uids := uids
        weights := weights
        submitted := reading.submitted
        reason := reading.reason
        message := reading.message
        extrinsicHash := reading.extrinsicHash
        blockHash := reading.blockHash
        droppedHotkeys := dropped
        extra := reading.extra }

section Normalisation

variable {scores : Scores}

variable {item : String × ℚ}

theorem get_of_mem (h : item ∈ scores.vals) : scores.get item.1 = item.2 := by
  have hfound : scores.get? item.1 = some item := KeyedDict.get?_eq_some.mpr ⟨h, rfl⟩
  simp [Scores.get, hfound]

theorem total_clean_pos (h : ∃ item ∈ scores.vals, 0 < item.2) : 0 < total (clean scores) := by
  obtain ⟨item, hitem, hpos⟩ := h
  have hmem : item.2 ∈ (clean scores).vals.map Prod.snd := by
    refine List.mem_map.mpr ⟨(item.1, max 0 item.2), List.mem_map.mpr ⟨item, hitem, rfl⟩, ?_⟩
    exact max_eq_right hpos.le
  have hnonneg : ∀ x ∈ (clean scores).vals.map Prod.snd, 0 ≤ x := by
    intro x hx
    obtain ⟨_, hy, rfl⟩ := List.mem_map.mp hx
    obtain ⟨_, _, rfl⟩ := List.mem_map.mp hy
    exact le_max_left _ _
  exact hpos.trans_le (List.single_le_sum hnonneg _ hmem)

/-- The entries of the normalised scores: all equal if no score is positive, and otherwise the
shares of the cleaned scores. -/
theorem mem_normalizeScores (h : item ∈ (normalizeScores scores).vals) :
    ∃ score, (item.1, score) ∈ scores.vals ∧
      ((total (clean scores) ≤ 0 ∧ item.2 = 1 / scores.vals.length) ∨
        0 < total (clean scores) ∧ item.2 = max 0 score / total (clean scores)) := by
  unfold normalizeScores at h
  simp only at h
  split_ifs at h with hempty htotal
  · cases h
  · have hlisted := KeyedDict.mem_of_mem_ofList h
    obtain ⟨k, hk, rfl⟩ := List.mem_map.mp hlisted
    obtain ⟨_, hy, rfl⟩ := List.mem_map.mp ((List.perm_insertionSort _ _).mem_iff.mp hk)
    obtain ⟨x, hx, rfl⟩ := List.mem_map.mp hy
    refine ⟨x.2, hx, Or.inl ⟨htotal, ?_⟩⟩
    simp [clean, KeyedDict.mapVals]
  · obtain ⟨_, hy, rfl⟩ := List.mem_map.mp h
    obtain ⟨x, hx, rfl⟩ := List.mem_map.mp hy
    exact ⟨x.2, hx, Or.inr ⟨not_le.mp htotal, rfl⟩⟩

theorem normalized_eq (h : item ∈ (normalizeScores scores).vals) :
    (total (clean scores) ≤ 0 ∧ item.2 = 1 / scores.vals.length) ∨
      0 < total (clean scores) ∧ item.2 = max 0 (scores.get item.1) / total (clean scores) := by
  obtain ⟨score, hmem, hcases⟩ := mem_normalizeScores h
  rw [get_of_mem hmem]
  exact hcases

theorem normalized_nonneg (h : item ∈ (normalizeScores scores).vals) :
    0 ≤ item.2 := by
  rcases normalized_eq h with ⟨-, heq⟩ | ⟨htotal, heq⟩ <;> rw [heq] <;> positivity

theorem normalized_mono {item' : String × ℚ} (h : item ∈ (normalizeScores scores).vals)
    (h' : item' ∈ (normalizeScores scores).vals) (hle : scores.get item.1 ≤ scores.get item'.1) :
    item.2 ≤ item'.2 := by
  rcases normalized_eq h with ⟨htotal, heq⟩ | ⟨htotal, heq⟩ <;>
    rcases normalized_eq h' with ⟨htotal', heq'⟩ | ⟨htotal', heq'⟩
  · rw [heq, heq']
  · exact absurd htotal' (not_lt.mpr htotal)
  · exact absurd htotal (not_lt.mpr htotal')
  · rw [heq, heq']
    gcongr

theorem normalized_eq_zero (h : item ∈ (normalizeScores scores).vals)
    (hpos : 0 < total (clean scores)) (hscore : scores.get item.1 ≤ 0) : item.2 = 0 := by
  rcases normalized_eq h with ⟨htotal, -⟩ | ⟨-, heq⟩
  · exact absurd hpos (not_lt.mpr htotal)
  · rw [heq, max_eq_left hscore, zero_div]

theorem sum_normalized (hpos : 0 < total (clean scores)) :
    ((normalizeScores scores).vals.map Prod.snd).sum = 1 := by
  have hne : (clean scores).vals.isEmpty = false := by
    rw [Bool.eq_false_iff]
    intro hempty
    rw [total, List.isEmpty_iff.mp hempty] at hpos
    exact absurd hpos (lt_irrefl 0)
  have hnormalized : (normalizeScores scores).vals.map Prod.snd =
      ((clean scores).vals.map Prod.snd).map (· / total (clean scores)) := by
    unfold normalizeScores
    simp only [hne, Bool.false_eq_true, if_false, if_neg (not_le.mpr hpos)]
    simp [KeyedDict.mapVals, List.map_map, Function.comp_def]
  rw [hnormalized]
  simp only [div_eq_mul_inv, List.sum_map_mul_right, List.map_id']
  exact mul_inv_cancel₀ hpos.ne'

end Normalisation

section Registration

variable {hotkeys : List String}

variable {hotkey : String}

theorem hotkeyToUid_eq_some (hnodup : hotkeys.Nodup) {entry : String × ℕ} :
    (hotkeyToUid hotkeys).get? hotkey = some entry ↔
      entry.1 = hotkey ∧ hotkeys[entry.2]? = some hotkey := by
  have hkeys : (hotkeys.zipIdx.map Prod.fst).Nodup := by simpa using hnodup
  have hvals : (hotkeyToUid hotkeys).vals = hotkeys.zipIdx := KeyedDict.vals_ofList hkeys
  rw [KeyedDict.get?_eq_some, hvals]
  obtain ⟨k, uid⟩ := entry
  rw [List.mk_mem_zipIdx_iff_getElem?]
  constructor
  · rintro ⟨hat, rfl⟩
    exact ⟨rfl, hat⟩
  · rintro ⟨rfl, hat⟩
    exact ⟨hat, rfl⟩

theorem mem_pairs (hnodup : hotkeys.Nodup) {normalized : Scores} {pair : ℕ ×ₗ ℚ} :
    pair ∈ pairs hotkeys normalized ↔
      ∃ item ∈ normalized.vals, hotkeys[(ofLex pair).1]? = some item.1 ∧
        (ofLex pair).2 = item.2 := by
  rw [pairs, (List.perm_insertionSort _ _).mem_iff, List.mem_filterMap]
  constructor
  · rintro ⟨item, hitem, hpair⟩
    obtain ⟨entry, hentry, rfl⟩ := Option.map_eq_some_iff.mp hpair
    exact ⟨item, hitem, ((hotkeyToUid_eq_some hnodup).mp hentry).2, rfl⟩
  · rintro ⟨item, hitem, hat, hweight⟩
    have hentry : (hotkeyToUid hotkeys).get? item.1 = some (item.1, (ofLex pair).1) :=
      (hotkeyToUid_eq_some hnodup).mpr ⟨rfl, hat⟩
    exact ⟨item, hitem, by rw [hentry, Option.map_some, ← hweight]; rfl⟩

theorem uids_nodup (hnodup : hotkeys.Nodup) (normalized : Scores) :
    ((pairs hotkeys normalized).map fun pair => (ofLex pair).1).Nodup := by
  let uidOf (hotkey : String) : Option ℕ := ((hotkeyToUid hotkeys).get? hotkey).map Prod.snd
  have hperm : ((pairs hotkeys normalized).map fun pair => (ofLex pair).1).Perm
      (normalized.keys.filterMap uidOf) := by
    refine ((List.perm_insertionSort _ _).map _).trans (List.Perm.of_eq ?_)
    have hkeys : normalized.keys = normalized.vals.map Prod.fst := rfl
    rw [hkeys, List.map_filterMap, List.filterMap_map]
    refine List.filterMap_congr fun item _ => ?_
    simp [uidOf, Function.comp_def]
  refine hperm.nodup_iff.mpr (normalized.nodup.filterMap ?_)
  intro hotkey hotkey' uid huid huid'
  obtain ⟨entry, hentry, rfl⟩ := Option.map_eq_some_iff.mp huid
  obtain ⟨entry', hentry', hsame⟩ := Option.map_eq_some_iff.mp huid'
  have hat := ((hotkeyToUid_eq_some hnodup).mp hentry).2
  have hat' := ((hotkeyToUid_eq_some hnodup).mp hentry').2
  rw [hsame, hat] at hat'
  exact Option.some.inj hat'

theorem mem_missing {normalized : Scores} :
    hotkey ∈ missing hotkeys normalized ↔ hotkey ∈ normalized.keys ∧ hotkey ∉ hotkeys := by
  have hregistered : hotkey ∈ (hotkeyToUid hotkeys).keys ↔ hotkey ∈ hotkeys := by
    rw [hotkeyToUid, KeyedDict.mem_keys_ofList]
    simp
  rw [missing, (List.perm_insertionSort _ _).mem_iff, List.mem_filter, decide_eq_true_eq,
    hregistered]

theorem keys_normalizeScores {scores : Scores} :
    hotkey ∈ (normalizeScores scores).keys ↔ hotkey ∈ scores.keys := by
  have hclean : (clean scores).keys = scores.keys := by
    simp [clean, KeyedDict.keys, KeyedDict.mapVals]
  unfold normalizeScores
  simp only
  split_ifs with hempty htotal
  · have hnone : scores.keys = [] := by
      rw [← hclean, KeyedDict.keys, List.isEmpty_iff.mp hempty, List.map_nil]
    rw [hnone]
    rfl
  · rw [KeyedDict.mem_keys_ofList, List.map_map]
    simp [Function.comp_def, hclean]
  · rw [← hclean]
    simp [KeyedDict.keys, KeyedDict.mapVals]

theorem sum_pairs_add_sum_missing (normalized : Scores) :
    ((pairs hotkeys normalized).map fun pair => (ofLex pair).2).sum +
      ((missing hotkeys normalized).map normalized.get).sum =
        (normalized.vals.map Prod.snd).sum := by
  let known (item : String × ℚ) : Bool := item.1 ∈ (hotkeyToUid hotkeys).keys
  have hpairs : ((pairs hotkeys normalized).map fun pair => (ofLex pair).2).Perm
      ((normalized.vals.filter known).map Prod.snd) := by
    refine ((List.perm_insertionSort _ _).map _).trans (List.Perm.of_eq ?_)
    rw [List.map_filterMap, ← List.filterMap_eq_filter, List.map_filterMap]
    refine List.filterMap_congr fun item _ => ?_
    have hget := KeyedDict.isSome_get? (d := hotkeyToUid hotkeys) (k := item.1)
    cases hfound : (hotkeyToUid hotkeys).get? item.1 with
    | none =>
      have hnot : known item = false := by simpa [known, hfound] using hget
      simp [hnot]
    | some entry =>
      have hin : known item = true := by simpa [known, hfound] using hget
      simp [hin]
  have hmissing : ((missing hotkeys normalized).map normalized.get).Perm
      ((normalized.vals.filter fun item => !known item).map Prod.snd) := by
    refine ((List.perm_insertionSort _ _).map _).trans (List.Perm.of_eq ?_)
    have hkeys : normalized.keys = normalized.vals.map Prod.fst := rfl
    rw [hkeys, List.filter_map, List.map_map]
    have htest : (normalized.vals.filter fun item => !known item) = normalized.vals.filter
        ((fun h => decide (h ∉ (hotkeyToUid hotkeys).keys)) ∘ Prod.fst) := by
      refine List.filter_congr fun item _ => ?_
      simp [known]
    rw [htest]
    refine List.map_congr_left fun item hitem => ?_
    exact get_of_mem (List.mem_filter.mp hitem).1
  rw [hpairs.sum_eq, hmissing.sum_eq, ← List.sum_append, ← List.map_append]
  exact ((List.filter_append_perm known normalized.vals).map Prod.snd).sum_eq

end Registration

section Publication

variable {hotkeys : List String} {answer : List ℕ → List ℚ → ChainAnswer} {scores : Scores}

theorem publishWeights_eq (hotkeys : List String) (answer : List ℕ → List ℚ → ChainAnswer)
    (scores : Scores) :
    (publishWeights false hotkeys answer scores).uids =
        (pairs hotkeys (normalizeScores scores)).map (fun pair => (ofLex pair).1) ∧
      (publishWeights false hotkeys answer scores).weights =
        (pairs hotkeys (normalizeScores scores)).map (fun pair => (ofLex pair).2) ∧
      (publishWeights false hotkeys answer scores).droppedHotkeys =
        missing hotkeys (normalizeScores scores) := by
  unfold publishWeights
  simp only [Bool.false_eq_true, if_false]
  split_ifs with hempty hnone
  · have hvals := List.isEmpty_iff.mp hempty
    simp [pairs, missing, KeyedDict.keys, hvals]
  · have hpairs : pairs hotkeys (normalizeScores scores) = [] := by simpa using hnone
    simp [hpairs]
  · exact ⟨rfl, rfl, rfl⟩

/-- The update gives this weight, at this position, to the uid of the hotkey. -/
def Assigned (hotkeys : List String) (update : WeightUpdate) (i : ℕ) (hotkey : String)
    (weight : ℚ) : Prop :=
  ∃ uid, update.uids[i]? = some uid ∧ hotkeys[uid]? = some hotkey ∧
    update.weights[i]? = some weight

theorem assigned_normalized (hnodup : hotkeys.Nodup) {i : ℕ} {hotkey : String} {weight : ℚ}
    (h : Assigned hotkeys (publishWeights false hotkeys answer scores) i hotkey weight) :
    (hotkey, weight) ∈ (normalizeScores scores).vals := by
  obtain ⟨huids, hweights, -⟩ := publishWeights_eq hotkeys answer scores
  obtain ⟨uid, huid, hat, hweight⟩ := h
  rw [huids, List.getElem?_map] at huid
  rw [hweights, List.getElem?_map] at hweight
  obtain ⟨pair, hpair, rfl⟩ := Option.map_eq_some_iff.mp huid
  rw [hpair, Option.map_some] at hweight
  obtain ⟨item, hitem, hat', hsame⟩ := (mem_pairs hnodup).mp (List.mem_of_getElem? hpair)
  rw [hat] at hat'
  have heq : (hotkey, weight) = item :=
    Prod.ext (Option.some.inj hat') ((Option.some.inj hweight).symm.trans hsame)
  exact heq ▸ hitem

/-- The published weights belong to their miners: the uids increase strictly, each weight is the
normalised score of the hotkey that is registered at its uid, weights are not negative and follow
the order of the scores; if some score is positive, a score that is not gets no weight, and what
the weights do not add up to is what the dropped hotkeys have. -/
theorem published_weights_belong (hotkeys : List String) (hnodup : hotkeys.Nodup)
    (answer : List ℕ → List ℚ → ChainAnswer) (scores : Scores) :
    let update := publishWeights false hotkeys answer scores
    let normalized := normalizeScores scores
    update.uids.Pairwise (· < ·) ∧ update.weights.length = update.uids.length ∧
    (∀ i < update.uids.length, ∃ hotkey weight, Assigned hotkeys update i hotkey weight) ∧
    (∀ i hotkey weight, Assigned hotkeys update i hotkey weight →
      hotkey ∈ scores.keys ∧ weight = normalized.get hotkey ∧ 0 ≤ weight) ∧
    (∀ i j hotkey hotkey' weight weight', Assigned hotkeys update i hotkey weight →
      Assigned hotkeys update j hotkey' weight' → scores.get hotkey ≤ scores.get hotkey' →
        weight ≤ weight') ∧
    (update.droppedHotkeys.Nodup ∧ ∀ hotkey, hotkey ∈ update.droppedHotkeys ↔
      hotkey ∈ scores.keys ∧ hotkey ∉ hotkeys) ∧
    ((∃ item ∈ scores.vals, 0 < item.2) →
      (∀ i hotkey weight, Assigned hotkeys update i hotkey weight → scores.get hotkey ≤ 0 →
        weight = 0) ∧
      update.weights.sum + (update.droppedHotkeys.map normalized.get).sum = 1) := by
  intro update normalized
  obtain ⟨huids, hweights, hdropped⟩ := publishWeights_eq hotkeys answer scores
  have hlength : update.weights.length = update.uids.length := by
    rw [hweights, huids, List.length_map, List.length_map]
  refine ⟨?_, hlength, ?_, ?_, ?_, ⟨?_, ?_⟩, ?_⟩
  · rw [huids, List.pairwise_map]
    have hsorted : (pairs hotkeys normalized).Pairwise (· ≤ ·) := List.pairwise_insertionSort _ _
    have hdistinct := List.pairwise_map.mp (uids_nodup hnodup normalized)
    refine (hsorted.and hdistinct).imp fun hboth => ?_
    rcases Prod.Lex.le_iff.mp hboth.1 with hlt | ⟨heq, -⟩
    · exact hlt
    · exact absurd heq hboth.2
  · intro i hi
    have hmem : update.uids[i] ∈ (pairs hotkeys normalized).map fun pair => (ofLex pair).1 :=
      huids ▸ List.getElem_mem hi
    obtain ⟨pair, hpair, huid⟩ := List.mem_map.mp hmem
    obtain ⟨item, -, hat, -⟩ := (mem_pairs hnodup).mp hpair
    refine ⟨item.1, update.weights[i], update.uids[i], List.getElem?_eq_getElem hi, huid ▸ hat, ?_⟩
    exact List.getElem?_eq_getElem (hlength ▸ hi)
  · intro i hotkey weight h
    have hitem := assigned_normalized hnodup h
    refine ⟨keys_normalizeScores.mp (List.mem_map_of_mem hitem), (get_of_mem hitem).symm, ?_⟩
    exact normalized_nonneg hitem
  · intro i j hotkey hotkey' weight weight' h h' hle
    exact normalized_mono (assigned_normalized hnodup h) (assigned_normalized hnodup h') hle
  · rw [hdropped, missing, (List.perm_insertionSort _ _).nodup_iff]
    exact (normalizeScores scores).nodup.filter _
  · intro hotkey
    rw [hdropped, mem_missing, keys_normalizeScores]
  · intro hsome
    have hpos := total_clean_pos hsome
    refine ⟨fun i hotkey weight h hle => normalized_eq_zero (assigned_normalized hnodup h) hpos hle,
      ?_⟩
    rw [hweights, hdropped, sum_pairs_add_sum_missing]
    exact sum_normalized hpos

def threeScores : Scores := KeyedDict.ofList [("A", 3), ("C", 1), ("B", -2)]

def accepting (_ : List ℕ) (_ : List ℚ) : ChainAnswer := .tuple (.ok true) none

/-- In a metagraph with `B` and `A`, in this order, `A` gets its share at the uid 1. -/
theorem three_scores_published :
    (publishWeights false ["B", "A"] accepting threeScores).uids = [0, 1] ∧
    (publishWeights false ["B", "A"] accepting threeScores).weights = [0, 3 / 4] ∧
    (publishWeights false ["B", "A"] accepting threeScores).droppedHotkeys = ["C"] ∧
    (publishWeights false ["B", "A"] accepting threeScores).weights.sum +
      ((publishWeights false ["B", "A"] accepting threeScores).droppedHotkeys.map
        (normalizeScores threeScores).get).sum = 1 := by
  refine ⟨by decide +kernel, by decide +kernel, by decide +kernel, ?_⟩
  obtain ⟨-, -, -, -, -, -, hsum⟩ :=
    published_weights_belong ["B", "A"] (by decide) accepting threeScores
  exact (hsum ⟨("A", 3), by decide +kernel, by decide +kernel⟩).2

end Publication

end WeightPublication

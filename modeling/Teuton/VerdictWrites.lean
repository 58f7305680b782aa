import Teuton.BucketBranches
import Teuton.VerdictObjects

/-! The effect of a verifier pass on the bucket. The pass only adds objects, and only verdicts;
what it adds for a receipt is what the receipt's verification returns on the bucket as it was
before the pass, provided that the verification reads no verdict and that no other receipt has
the same verdict path. -/
namespace VerdictWrites

open PyJson PyText Signatures ObjectStore BucketPaths BucketBranches Protocol ScoreWindows
open ReplayVerifier

variable {β τ : Type}

def IsVerdictUri (V : ValidatorConfig β) (bucket uri : String) : Prop :=
  startsWith uri (joinUri bucket (root V.netuid ++ "/verdicts/")) = true

instance (V : ValidatorConfig β) (bucket uri : String) : Decidable (IsVerdictUri V bucket uri) :=
  inferInstanceAs (Decidable (_ = true))

structure AgreeOn (test : String → Prop) (b b' : Bucket β) : Prop where
  name : b'.name = b.name
  objects : ∀ uri, test uri → b'.objects.find? uri = b.objects.find? uri

theorem AgreeOn.run_eq {α : Type} {test : String → Prop} {b b' : Bucket β} (h : AgreeOn test b b')
    {x : Fetch β α} (hx : ∀ k ∈ x.keysRead b.get, test k) : x.run b'.get = x.run b.get :=
  (ReadProgram.run_congr fun k hk => Bucket.get_congr (h.objects k (hx k hk)).symm).symm

theorem AgreeOn.keysRead_eq {α : Type} {test : String → Prop} {b b' : Bucket β}
    (h : AgreeOn test b b') {x : Fetch β α} (hx : ∀ k ∈ x.keysRead b.get, test k) :
    x.keysRead b'.get = x.keysRead b.get :=
  ReadProgram.keysRead_congr fun k hk => Bucket.get_congr (h.objects k (hx k hk)).symm

section Paths

variable {netuid : ℤ} {bucket uri key rest : String} {c d : Char}

theorem listed_not_onBranch (hkey : key = root netuid ++ ("/" ++ String.singleton c ++ rest))
    (hne : c ≠ d) (h : isListed bucket key uri = true) : ¬ OnBranch netuid bucket d uri := by
  have hstart : startsWith uri (listStart bucket key) = true := (Bool.and_eq_true_iff.mp h).2
  unfold listStart at hstart
  split at hstart
  · exact (onBranch_of_startsWith rest hkey hstart).unique hne
  · exact not_onBranch_of_nested hstart

variable (V : ValidatorConfig β)

theorem IsVerdictUri.onBranch (h : IsVerdictUri V bucket uri) :
    OnBranch V.netuid bucket 'v' uri :=
  onBranch_of_startsWith "erdicts/" rfl h

theorem verdictUri_isVerdict (receipt : JobReceiptV3) :
    IsVerdictUri V bucket (verdictUri V bucket receipt) := by
  have hsplit : verdictUri V bucket receipt =
      joinUri bucket (root V.netuid ++ "/verdicts/") ++ (receipt.runId ++ "/" ++ "validator=" ++
        V.validatorHotkey ++ "/" ++ safeId receipt.receiptId ++ ".json") := by
    simp only [verdictUri, verdictKey, verdictsPrefix, joinUri, String.append_assoc]
  unfold IsVerdictUri
  rw [hsplit]
  exact startsWith_append _ _

theorem receiptsPrefix_branch (netuid : ℤ) (runId : String) : receiptsPrefix netuid runId =
    root netuid ++ ("/" ++ String.singleton 'r' ++ ("eceipts/" ++ runId ++ "/")) := by
  simp only [receiptsPrefix, String.append_assoc]
  rfl

theorem verdictsPrefix_branch (netuid : ℤ) (runId : String) : verdictsPrefix netuid runId =
    root netuid ++ ("/" ++ String.singleton 'v' ++ ("erdicts/" ++ runId ++ "/")) := by
  simp only [verdictsPrefix, String.append_assoc]
  rfl

end Paths

section Pass

variable (H : Host β τ) (V : ValidatorConfig β)

def store (b : Bucket β) (receipt : JobReceiptV3) (v : VerificationVerdictV3) : Bucket β :=
  { b with objects :=
      b.objects.insert (verdictUri V b.name receipt) (H.libraries.platform.dumps v.toDict) }

def ValidUri (uri : String) : Prop := ∃ parts, parseUri uri = .ok parts

instance (uri : String) : Decidable (ValidUri uri) :=
  match h : parseUri uri with
  | .ok parts => isTrue ⟨parts, h⟩
  | .error _ => isFalse fun hvalid => by
      obtain ⟨parts, hparts⟩ := hvalid
      rw [h] at hparts
      cases hparts

inductive Writes : List (String × JobReceiptV3) → Bucket β → Bucket β → Prop where
  | nil (b : Bucket β) : Writes [] b b
  | skip {uri receipt rest b b'} (valid : ValidUri (verdictUri V b.name receipt))
      (present : b.objects.find? (verdictUri V b.name receipt) ≠ none)
      (tail : Writes rest b b') : Writes ((uri, receipt) :: rest) b b'
  | write {uri receipt rest b b' v} (valid : ValidUri (verdictUri V b.name receipt))
      (absent : b.objects.find? (verdictUri V b.name receipt) = none)
      (verified : (verify H V b.name uri receipt).run b.get = .ok v)
      (tail : Writes rest (store H V b receipt v) b') : Writes ((uri, receipt) :: rest) b b'

theorem hasVerdict_eq_ok {b : Bucket β} {receipt : JobReceiptV3} {found : Bool} :
    hasVerdict V b receipt = .ok found ↔ ValidUri (verdictUri V b.name receipt) ∧
      found = (b.objects.find? (verdictUri V b.name receipt)).isSome := by
  unfold hasVerdict Bucket.exists
  rw [bind_eq_ok]
  constructor
  · rintro ⟨parts, hparts, h⟩
    exact ⟨⟨parts, hparts⟩, (Except.ok.inj h).symm⟩
  · rintro ⟨⟨parts, hparts⟩, rfl⟩
    exact ⟨parts, hparts, rfl⟩

theorem putJson_eq_ok {b b' : Bucket β} {receipt : JobReceiptV3} {v : VerificationVerdictV3} :
    b.putJson H.libraries.platform (verdictUri V b.name receipt) v.toDict = .ok b' ↔
      ValidUri (verdictUri V b.name receipt) ∧ b' = store H V b receipt v :=
  Bucket.put_eq_ok

theorem writes_of_writeVerdicts {l : List (String × JobReceiptV3)} {checked n : ℤ}
    {b b' : Bucket β} (h : writeVerdicts H V (judgeByReplay H V) none l checked b = .ok (n, b')) :
    Writes H V l b b' := by
  induction l generalizing checked b with
  | nil =>
    cases h
    exact .nil _
  | cons item l ih =>
    obtain ⟨uri, receipt⟩ := item
    rw [writeVerdicts] at h
    simp only [Option.any_none, Bool.false_eq_true, if_false] at h
    obtain ⟨found, hfound, h⟩ := bind_eq_ok.mp h
    obtain ⟨hvalid, rfl⟩ := (hasVerdict_eq_ok V).mp hfound
    cases hfind : b.objects.find? (verdictUri V b.name receipt) with
    | some body =>
      simp only [hfind, Option.isSome_some, if_true] at h
      exact .skip hvalid (by simp [hfind]) (ih h)
    | none =>
      simp only [hfind, Option.isSome_none, Bool.false_eq_true, if_false] at h
      obtain ⟨judged, hjudged, h⟩ := bind_eq_ok.mp h
      obtain ⟨v, hv, hsome⟩ := bind_eq_ok.mp hjudged
      cases hsome
      obtain ⟨b₁, hput, h⟩ := bind_eq_ok.mp h
      obtain ⟨-, rfl⟩ := (putJson_eq_ok H V).mp hput
      exact .write hvalid hfind hv (ih h)

theorem writeVerdicts_of_writes {l : List (String × JobReceiptV3)} {b b' : Bucket β}
    (h : Writes H V l b b') (checked : ℤ) :
    ∃ n, writeVerdicts H V (judgeByReplay H V) none l checked b = .ok (n, b') := by
  induction h generalizing checked with
  | nil b => exact ⟨checked, rfl⟩
  | @skip uri receipt rest b b' valid present tail ih =>
    obtain ⟨n, hn⟩ := ih checked
    have hfound : hasVerdict V b receipt = .ok true :=
      (hasVerdict_eq_ok V).mpr ⟨valid, (Option.isSome_iff_ne_none.mpr present).symm⟩
    refine ⟨n, ?_⟩
    rw [writeVerdicts]
    simpa only [Option.any_none, Bool.false_eq_true, if_false, hfound, ok_bind, if_true] using hn
  | @write uri receipt rest b b' v valid absent verified tail ih =>
    obtain ⟨n, hn⟩ := ih (checked + 1)
    have hfound : hasVerdict V b receipt = .ok false :=
      (hasVerdict_eq_ok V).mpr ⟨valid, by simp [absent]⟩
    have hjudged : judgeByReplay H V b uri receipt = .ok (some v) := by
      rw [judgeByReplay, verified]
      rfl
    have hput := (putJson_eq_ok H V (v := v)).mpr ⟨valid, rfl⟩
    refine ⟨n, ?_⟩
    rw [writeVerdicts]
    simpa only [Option.any_none, Bool.false_eq_true, if_false, hfound, ok_bind, hjudged, hput]
      using hn

end Pass

section Effect

variable {H : Host β τ} {V : ValidatorConfig β} {l : List (String × JobReceiptV3)}
variable {b b' : Bucket β}

@[simp] theorem store_name (b : Bucket β) (receipt : JobReceiptV3) (v : VerificationVerdictV3) :
    (store H V b receipt v).name = b.name := rfl

theorem find?_store (b : Bucket β) (receipt : JobReceiptV3) (v : VerificationVerdictV3)
    (uri : String) : (store H V b receipt v).objects.find? uri =
      if uri = verdictUri V b.name receipt then some (H.libraries.platform.dumps v.toDict)
      else b.objects.find? uri :=
  SortedDict.find?_insert _ _ _ _

theorem Writes.name (h : Writes H V l b b') : b'.name = b.name := by
  induction h with
  | nil b => rfl
  | skip valid present tail ih => exact ih
  | write valid absent verified tail ih => exact ih

theorem Writes.valid (h : Writes H V l b b') :
    ∀ item ∈ l, ValidUri (verdictUri V b.name item.2) := by
  induction h with
  | nil b => simp
  | skip valid present tail ih => exact List.forall_mem_cons.mpr ⟨valid, ih⟩
  | write valid absent verified tail ih => exact List.forall_mem_cons.mpr ⟨valid, ih⟩

theorem Writes.keeps (h : Writes H V l b b') {uri : String} {body : β}
    (hbody : b.objects.find? uri = some body) : b'.objects.find? uri = some body := by
  induction h with
  | nil b => exact hbody
  | skip valid present tail ih => exact ih hbody
  | @write _ receipt rest b b' v valid absent verified tail ih =>
    apply ih
    have hne : uri ≠ verdictUri V b.name receipt := by
      rintro rfl
      rw [absent] at hbody
      cases hbody
    rw [find?_store, if_neg hne]
    exact hbody

theorem Writes.new (h : Writes H V l b b') (uri : String) :
    b'.objects.find? uri = b.objects.find? uri ∨
      b.objects.find? uri = none ∧ ∃ item ∈ l, verdictUri V b.name item.2 = uri ∧
        ∃ s v, (verify H V b.name item.1 item.2).run s = .ok v ∧
          b'.objects.find? uri = some (H.libraries.platform.dumps v.toDict) := by
  induction h with
  | nil b => exact Or.inl rfl
  | skip valid present tail ih =>
    rcases ih with ih | ⟨habsent, item, hitem, hnew⟩
    · exact Or.inl ih
    · exact Or.inr ⟨habsent, item, List.mem_cons_of_mem _ hitem, hnew⟩
  | @write at_ receipt rest b b' v valid absent verified tail ih =>
    by_cases huri : uri = verdictUri V b.name receipt
    · subst huri
      have hstored : (store H V b receipt v).objects.find? (verdictUri V b.name receipt) =
          some (H.libraries.platform.dumps v.toDict) := by
        rw [find?_store, if_pos rfl]
      exact Or.inr ⟨absent, (at_, receipt), List.mem_cons_self, rfl, b.get, v, verified,
        tail.keeps hstored⟩
    · rw [find?_store, if_neg huri] at ih
      rcases ih with ih | ⟨habsent, item, hitem, hnew⟩
      · exact Or.inl ih
      · exact Or.inr ⟨habsent, item, List.mem_cons_of_mem _ hitem, hnew⟩

theorem Writes.agree (h : Writes H V l b b') :
    AgreeOn (fun uri => ¬ IsVerdictUri V b.name uri) b b' := by
  refine ⟨h.name, ?_⟩
  intro uri huri
  rcases h.new uri with heq | ⟨-, item, -, rfl, -⟩
  · exact heq
  · exact absurd (verdictUri_isVerdict V item.2) huri

theorem agreeOn_store (b : Bucket β) (receipt : JobReceiptV3) (v : VerificationVerdictV3) :
    AgreeOn (fun uri => ¬ IsVerdictUri V b.name uri) b (store H V b receipt v) := by
  refine ⟨rfl, ?_⟩
  intro uri huri
  have hne : uri ≠ verdictUri V b.name receipt := by
    rintro rfl
    exact huri (verdictUri_isVerdict V receipt)
  rw [find?_store, if_neg hne]

/-- A receipt without verdict, whose verdict path no other receipt has and whose verification
reads no verdict, gets the verdict that its verification returns before the pass. -/
theorem Writes.written (h : Writes H V l b b') {item : String × JobReceiptV3} (hitem : item ∈ l)
    (habsent : b.objects.find? (verdictUri V b.name item.2) = none)
    (honly : ∀ other ∈ l, other ≠ item →
      verdictUri V b.name other.2 ≠ verdictUri V b.name item.2)
    (hreads : ∀ k ∈ (verify H V b.name item.1 item.2).keysRead b.get,
      ¬ IsVerdictUri V b.name k) :
    ∃ v, (verify H V b.name item.1 item.2).run b.get = .ok v ∧
      b'.objects.find? (verdictUri V b.name item.2) =
        some (H.libraries.platform.dumps v.toDict) := by
  induction h with
  | nil b => cases hitem
  | @skip at_ receipt rest b b' valid present tail ih =>
    rcases List.mem_cons.mp hitem with rfl | hitem
    · exact absurd habsent present
    · exact ih hitem habsent (fun other ho => honly other (List.mem_cons_of_mem _ ho)) hreads
  | @write at_ receipt rest b b' v valid absent verified tail ih =>
    by_cases hhead : (at_, receipt) = item
    · subst hhead
      refine ⟨v, verified, tail.keeps ?_⟩
      rw [find?_store, if_pos rfl]
    · have hitem' : item ∈ rest := (List.mem_cons.mp hitem).resolve_left (Ne.symm hhead)
      have hne := honly (at_, receipt) List.mem_cons_self hhead
      -- the verdict of another receipt changes neither the answer nor what is read
      have hagree := agreeOn_store (H := H) (V := V) b receipt v
      obtain ⟨w, hw, hfind⟩ := ih hitem'
        (by rw [store_name, find?_store, if_neg (Ne.symm hne)]; exact habsent)
        (fun other ho => honly other (List.mem_cons_of_mem _ ho))
        (by rw [store_name, hagree.keysRead_eq hreads]; exact hreads)
      rw [store_name, hagree.run_eq hreads] at hw
      exact ⟨w, hw, hfind⟩

/-- The pass returns if every verdict path is a key and every receipt without verdict can be
verified on all buckets that differ in verdicts only. -/
theorem writes_total (b₀ : Bucket β) (hagree : AgreeOn (fun uri => ¬ IsVerdictUri V b₀.name uri) b₀ b)
    (hkept : ∀ uri, b.objects.find? uri = none → b₀.objects.find? uri = none)
    (hvalid : ∀ item ∈ l, ValidUri (verdictUri V b₀.name item.2))
    (hverified : ∀ item ∈ l, b₀.objects.find? (verdictUri V b₀.name item.2) = none →
      ∀ b₁, AgreeOn (fun uri => ¬ IsVerdictUri V b₀.name uri) b₀ b₁ →
        ∃ v, (verify H V b₀.name item.1 item.2).run b₁.get = .ok v) :
    ∃ b', Writes H V l b b' := by
  induction l generalizing b with
  | nil => exact ⟨b, .nil b⟩
  | cons item l ih =>
    obtain ⟨uri, receipt⟩ := item
    obtain ⟨hvalid₁, hvalid₂⟩ := List.forall_mem_cons.mp hvalid
    obtain ⟨hverified₁, hverified₂⟩ := List.forall_mem_cons.mp hverified
    rw [← hagree.name] at hvalid₁ hverified₁
    by_cases hfind : b.objects.find? (verdictUri V b.name receipt) = none
    · obtain ⟨v, hv⟩ := hverified₁ (hkept _ hfind) b (hagree.name ▸ hagree)
      have hstore := agreeOn_store (H := H) (V := V) b receipt v
      rw [hagree.name] at hstore
      obtain ⟨b', htail⟩ := ih (b := store H V b receipt v)
        ⟨hagree.name, fun u hu => (hstore.objects u hu).trans (hagree.objects u hu)⟩
        (by
          intro u hu
          apply hkept
          rw [find?_store] at hu
          split_ifs at hu
          exact hu)
        hvalid₂ hverified₂
      exact ⟨b', .write hvalid₁ hfind hv htail⟩
    · obtain ⟨b', htail⟩ := ih hagree hkept hvalid₂ hverified₂
      exact ⟨b', .skip hvalid₁ hfind htail⟩

end Effect

end VerdictWrites

import Mathlib.Data.List.Sort
import Teuton.FileTrees
import Teuton.ObjectStore

/-! The store in a local directory against the store in S3. A listing asks for the keys that start
with a text. S3 answers just this; the local store walks a tree of directories, and takes one way
if the text names a directory and another one if it does not. -/
namespace LocalStore

open PyJson PyText ObjectStore FileTrees

variable {β : Type}

section Stores

structure LocalBucket where
  root : String
  bucket : String
  absolute : startsWith root "/" = true
  named : Name bucket

def listTarget (ownBucket prefixUri : String) : String × String :=
  match parseUri prefixUri with
  | .ok parts => parts
  | .error _ => (ownBucket, prefixUri)

namespace LocalBucket

def basePath (L : LocalBucket) (bucket : String) : String := join L.root bucket

def pathForUri (L : LocalBucket) (uri : String) : Py String := do
  let (bucket, key) ← parseUri uri
  return join (L.basePath bucket) key

/-- The temporary file is in the same directory, so that `os.replace` puts the whole content in
place at once. -/
def put (L : LocalBucket) (uri : String) (data : β) :
    EStateM (PyErr ⊕ OsError) (FileTree β) PUnit := do
  let path ← Effects.lift ((L.pathForUri uri).mapError .inl)
  let _ ← EStateM.adaptExcept .inr (FileTree.makedirs (dirname path))
  EStateM.adaptExcept .inr (FileTree.replace path data)

def walkRoot (L : LocalBucket) (bucket key : String) : String :=
  let parent := dirname (join (L.basePath bucket) key)
  if parent = "" then L.basePath bucket else parent

def listedPaths (L : LocalBucket) (t : FileTree β) (bucket key : String) : List String :=
  let base := L.basePath bucket
  if t.isDir (join base key) then (t.walk (join base key)).map (relpath · base)
  else if t.isDir (L.walkRoot bucket key) then
    ((t.walk (L.walkRoot bucket key)).map (relpath · base)).filter (startsWith · key)
  else []

def list (L : LocalBucket) (t : FileTree β) (prefixUri : String) : List String :=
  let (bucket, key) := listTarget L.bucket prefixUri
  ((L.listedPaths t bucket key).map (joinUri bucket)).insertionSort (· ≤ ·)

end LocalBucket

structure S3Object (β : Type) where
  bucket : String
  key : String
  body : β

def S3Object.place (o : S3Object β) : String × String := (o.bucket, o.key)

/-- The client's buckets, with the name of the one that is meant by default. -/
structure S3Bucket (β : Type) where
  bucket : String
  objects : KeyedDict (S3Object.place : S3Object β → String × String)

namespace S3Bucket

def put (s : S3Bucket β) (uri : String) (data : β) : Py (S3Bucket β) := do
  let (bucket, key) ← parseUri uri
  return { s with objects := s.objects.set ⟨bucket, key, data⟩ }

def list (s : S3Bucket β) (prefixUri : String) : List String :=
  let (bucket, key) := listTarget s.bucket prefixUri
  let found := s.objects.vals.filter fun o => o.bucket = bucket ∧ startsWith o.key key = true
  (found.map fun o => joinUri bucket o.key).insertionSort (· ≤ ·)

end S3Bucket

end Stores

/-- A key that can be stored as a file: a text in one line whose parts are names. -/
structure PlainKey (key : String) : Prop where
  line : '\n' ∉ key.toList
  parts : ∀ part ∈ split '/' key, Name part

def IsDirectoryOf (key other : String) : Prop :=
  ∃ rest, rest ≠ [] ∧ split '/' other = split '/' key ++ rest

/-- What a listing is to return: the URIs of the keys with the prefix in order, each once. -/
structure ListsExactly (bucket : String) (keys : List String) (pre : String) (out : List String) :
    Prop where
  sorted : out.Pairwise (· < ·)
  mem_iff : ∀ uri, uri ∈ out ↔ ∃ key ∈ keys, startsWith key pre = true ∧ uri = joinUri bucket key

section Listing

variable {bucket pre : String} {keys found : List String}

theorem joinUri_injective (bucket : String) : Function.Injective (joinUri bucket) := by
  intro key key' h
  have hlist := congrArg String.toList h
  simp only [joinUri, String.toList_append, List.append_assoc, List.append_cancel_left_eq] at hlist
  exact String.toList_injective hlist

theorem listsExactly_iff :
    ListsExactly bucket keys pre ((found.map (joinUri bucket)).insertionSort (· ≤ ·)) ↔
      found.Nodup ∧ ∀ key, key ∈ found ↔ key ∈ keys ∧ startsWith key pre = true := by
  have hperm := List.perm_insertionSort (· ≤ ·) (found.map (joinUri bucket))
  have hsorted := List.pairwise_insertionSort (· ≤ ·) (found.map (joinUri bucket))
  constructor
  · rintro ⟨hlt, hmem⟩
    have hnodup : (found.map (joinUri bucket)).Nodup := hperm.nodup_iff.mp (hlt.imp ne_of_lt)
    refine ⟨List.Nodup.of_map _ hnodup, fun key => ?_⟩
    have hkey := hmem (joinUri bucket key)
    rw [hperm.mem_iff, List.mem_map_of_injective (joinUri_injective bucket)] at hkey
    rw [hkey]
    constructor
    · rintro ⟨key', hkey', hpre, heq⟩
      obtain rfl := joinUri_injective bucket heq
      exact ⟨hkey', hpre⟩
    · rintro ⟨hkey, hpre⟩
      exact ⟨key, hkey, hpre, rfl⟩
  · rintro ⟨hnodup, hmem⟩
    refine ⟨?_, fun uri => ?_⟩
    · have hdistinct := hperm.nodup_iff.mpr (hnodup.map (joinUri_injective bucket))
      exact hsorted.imp₂ (fun _ _ hle hne => lt_of_le_of_ne hle hne) hdistinct
    · rw [hperm.mem_iff, List.mem_map]
      constructor
      · rintro ⟨key, hkey, rfl⟩
        obtain ⟨hkey, hpre⟩ := (hmem key).mp hkey
        exact ⟨key, hkey, hpre, rfl⟩
      · rintro ⟨key, hkey, hpre, rfl⟩
        exact ⟨key, (hmem key).mpr ⟨hkey, hpre⟩, rfl⟩

end Listing

theorem split_ne_nil (s : String) : split '/' s ≠ [] := by simp [split, List.splitOn_ne_nil]

section Puts

variable {L : LocalBucket} {t : FileTree β} {base names : List String} {keys : List String}
variable {key last : String}

def under (a : String) (names : List String) : String := names.foldl (fun x n => x ++ "/" ++ n) a

theorem under_concat (a : String) (names : List String) (last : String) :
    under a (names ++ [last]) = under a names ++ "/" ++ last := by simp [under]

theorem under_eq (a : String) {names : List String} (hne : names ≠ []) :
    under a names = a ++ "/" ++ pathText names := by
  induction names generalizing a with
  | nil => exact absurd rfl hne
  | cons name rest ih =>
    cases rest with
    | nil => rfl
    | cons next rest =>
      have hrest := ih (a ++ "/" ++ name) (List.cons_ne_nil _ _)
      change under (a ++ "/" ++ name) (next :: rest) = _
      rw [hrest, pathText_cons_cons]
      simp only [String.append_assoc]

theorem not_endsWith_slash {x name : String} (h : Name name) : endsWith (x ++ name) "/" = false := by
  by_contra hend
  obtain ⟨y, hy⟩ := exists_of_endsWith (by simpa using hend)
  obtain ⟨hempty, -, -, hslash⟩ := h
  cases hrev : name.toList.reverse with
  | nil => exact hempty (String.toList_injective (by simpa using hrev))
  | cons c l =>
    have hlist := congrArg (List.reverse ∘ String.toList) hy
    simp only [Function.comp, String.toList_append, List.reverse_append, hrev] at hlist
    have hc : c = '/' := by simpa using congrArg List.head? hlist
    exact hslash (List.mem_reverse.mp (by simp [hrev, hc]))

theorem basePath_text (L : LocalBucket) :
    L.basePath L.bucket ≠ "" ∧ endsWith (L.basePath L.bucket) "/" = false := by
  have hroot : L.root ≠ "" := by
    intro h
    have habsolute := L.absolute
    rw [h] at habsolute
    cases habsolute
  have hrelative := pathText_not_absolute (List.cons_ne_nil L.bucket [])
    (by simpa using L.named)
  have htext : ∃ x, L.basePath L.bucket = x ++ L.bucket := by
    rw [LocalBucket.basePath, join, if_neg (by simpa [pathText] using hrelative)]
    split_ifs with hend
    · exact ⟨_, rfl⟩
    · exact ⟨_, rfl⟩
  obtain ⟨x, hx⟩ := htext
  refine ⟨fun h => ?_, hx ▸ not_endsWith_slash L.named⟩
  rw [hx, String.append_eq_empty_iff] at h
  exact L.named.1 h.2

theorem PlainKey.relative (h : PlainKey key) : startsWith key "/" = false := by
  have hpath := pathText_not_absolute (split_ne_nil key) h.parts
  rwa [pathText_split] at hpath

theorem join_basePath {b : String} (hb : startsWith b "/" = false) :
    join (L.basePath L.bucket) b = L.basePath L.bucket ++ "/" ++ b := by
  obtain ⟨hne, hend⟩ := basePath_text L
  rw [join, if_neg (by simp [hb]), if_neg (by simp [hne, hend])]

theorem PlainKey.ne_empty (h : PlainKey key) : key ≠ "" := by
  rintro rfl
  exact (h.parts "" (by decide)).1 rfl

theorem parseUri_own (h : PlainKey key) :
    parseUri (joinUri L.bucket key) = .ok (L.bucket, key) := by
  have hbucket : L.bucket.toList ≠ [] := by simpa [String.toList_eq_nil_iff] using L.named.1
  have hkey : key.toList ≠ [] := by simpa [String.toList_eq_nil_iff] using h.ne_empty
  have hslash : ∀ c ∈ L.bucket.toList, (c ≠ '/' : Bool) = true := fun c hc => by
    have hne : c ≠ '/' := fun heq => L.named.2.2.2 (heq ▸ hc)
    simpa using hne
  have hrest : (joinUri L.bucket key).toList.drop "s3://".length =
      L.bucket.toList ++ '/' :: key.toList := by
    simp only [joinUri, String.toList_append, List.append_assoc]
    rfl
  have hstart : startsWith (joinUri L.bucket key) "s3://" = true := by
    rw [joinUri, String.append_assoc, String.append_assoc]
    exact startsWith_append _ _
  simp only [parseUri, hrest, hstart, List.takeWhile_append_of_pos hslash,
    List.dropWhile_append_of_pos hslash]
  simp [hbucket, hkey, h.line]

theorem adaptExcept_ok {ε ε' σ α : Type} {f : ε → ε'} {x : EStateM ε σ α} {s u : σ} {a : α}
    (h : x s = .ok a u) : EStateM.adaptExcept f x s = .ok a u := by
  rw [EStateM.adaptExcept, h]

/-- The files and directories of the bucket are those of these keys. -/
structure Holds (t : FileTree β) (base : List String) (keys : List String) : Prop where
  file : ∀ names, base ++ names ∈ t.files.keys ↔ ∃ key ∈ keys, names = split '/' key
  dir : ∀ names, base ++ names ∈ t.dirs ↔
    names = [] ∨ ∃ key ∈ keys, ∃ rest, rest ≠ [] ∧ split '/' key = names ++ rest

theorem under_text {a : String} (ha : a ≠ "" ∧ endsWith a "/" = false)
    (h : ∀ name ∈ names, Name name) :
    under a names ≠ "" ∧ endsWith (under a names) "/" = false := by
  cases names using List.reverseRecOn with
  | nil => exact ha
  | append_singleton names last =>
    have hlast : Name last := h last (by simp)
    rw [under_concat]
    exact ⟨fun heq => hlast.1 (String.append_eq_empty_iff.mp heq).2, not_endsWith_slash hlast⟩

theorem split_under (a : String) (h : ∀ name ∈ names, Name name) :
    split '/' (under a names) = split '/' a ++ names := by
  induction names using List.reverseRecOn with
  | nil => simp [under]
  | append_singleton names last ih =>
    rw [under_concat, split_append, ih fun name hname => h name (List.mem_append_left _ hname),
      split_of_not_mem (h last (by simp)).2.2.2, List.append_assoc]

theorem isPrefix_iff {pre : List String} :
    pre <+: names ↔ ∃ rest, rest ≠ [] ∧ names ++ [last] = pre ++ rest := by
  constructor
  · rintro ⟨rest, rfl⟩
    exact ⟨rest ++ [last], by simp, by simp⟩
  · rintro ⟨rest, hne, h⟩
    cases rest using List.reverseRecOn with
    | nil => exact absurd rfl hne
    | append_singleton rest x =>
      rw [← List.append_assoc] at h
      exact ⟨rest, (List.append_inj' h rfl).1.symm⟩

theorem put_ok (h : Holds t base keys) (hbase : t.lookup (L.basePath L.bucket) = some base)
    (hkey : PlainKey key) (hapart : ∀ other ∈ keys, ¬ IsDirectoryOf key other ∧
      ¬ IsDirectoryOf other key) (data : β) :
    ∃ t', L.put (joinUri L.bucket key) data t = .ok ⟨⟩ t' ∧ Holds t' base (keys ++ [key]) ∧
      t'.lookup (L.basePath L.bucket) = some base := by
  obtain ⟨names, last, hsplit⟩ : ∃ names last, split '/' key = names ++ [last] :=
    ⟨_, _, (List.dropLast_append_getLast (split_ne_nil key)).symm⟩
  have hparts : ∀ name ∈ names ++ [last], Name name := hsplit ▸ hkey.parts
  have hnames : ∀ name ∈ names, Name name := fun n hn => hparts n (List.mem_append_left _ hn)
  have hlast : Name last := hparts last (by simp)
  have hpath : join (L.basePath L.bucket) key =
      under (L.basePath L.bucket) names ++ "/" ++ last := by
    rw [join_basePath hkey.relative, ← under_concat, ← hsplit, under_eq _ (split_ne_nil key),
      pathText_split]
  have hdirname : dirname (join (L.basePath L.bucket) key) = under (L.basePath L.bucket) names := by
    obtain ⟨hne, hend⟩ := under_text (basePath_text L) hnames
    rw [hpath, dirname_append hne hend hlast.2.2.2]
  have hroot : base ∈ t.dirs := by simpa using (h.dir []).mpr (Or.inl rfl)
  -- the directories of the key
  obtain ⟨t₁, hmade, hfiles₁, hdirs₁⟩ := FileTree.makedirs_ok
    (split_under (L.basePath L.bucket) hnames) hbase hroot hnames (by
      intro pre _ hpre hfile
      obtain ⟨other, hother, rfl⟩ := (h.file pre).mp hfile
      obtain ⟨rest, hrest, heq⟩ := isPrefix_iff.mp hpre
      exact (hapart other hother).2 ⟨rest, hrest, hsplit.trans heq⟩)
  have hgrown : ∀ p ∈ t.dirs, p ∈ t₁.dirs := fun p hp => (hdirs₁ p).mpr (Or.inl hp)
  have hdir₁ : base ++ names ∈ t₁.dirs := by
    cases names with
    | nil => simpa using hgrown base hroot
    | cons name rest =>
      exact (hdirs₁ _).mpr (Or.inr ⟨_, List.cons_ne_nil _ _, List.prefix_rfl, rfl⟩)
  have hfollow : t₁.follow [] (split '/' (L.basePath L.bucket) ++ names) =
      some (base ++ names) := by
    have hbase₁ := FileTree.follow_mono hgrown (fun p hp => hfiles₁ ▸ hp) hbase
    rw [FileTree.follow_append, hbase₁]
    exact FileTree.follow_names (Or.inl (hgrown base hroot)) (Or.inl hdir₁)
  -- the file
  have hfree : base ++ names ++ [last] ∉ t₁.dirs := by
    rw [hdirs₁, List.append_assoc, ← hsplit]
    rintro (hdir | ⟨pre, -, hpre, heq⟩)
    · rcases (h.dir _).mp hdir with hnil | ⟨other, hother, rest, hrest, heq⟩
      · simp [hsplit] at hnil
      · exact (hapart other hother).1 ⟨rest, hrest, heq⟩
    · rw [← List.append_cancel_left heq, hsplit] at hpre
      have hlength := hpre.length_le
      simp at hlength
  have hwhole : split '/' (join (L.basePath L.bucket) key) =
      split '/' (L.basePath L.bucket) ++ names ++ [last] := by
    rw [hpath, split_append, split_under _ hnames, split_of_not_mem hlast.2.2.2]
  obtain ⟨t₂, hput, hdirs₂, hfiles₂⟩ : ∃ t₂,
      FileTree.replace (join (L.basePath L.bucket) key) data t₁ = .ok ⟨⟩ t₂ ∧
      t₂.dirs = t₁.dirs ∧
      ∀ p, p ∈ t₂.files.keys ↔ p ∈ t₁.files.keys ∨ p = base ++ names ++ [last] :=
    FileTree.replace_ok hwhole hfollow hdir₁ hlast hfree
  refine ⟨t₂, ?_, ⟨fun ns => ?_, fun ns => ?_⟩, ?_⟩
  · have huri : L.pathForUri (joinUri L.bucket key) = .ok (join (L.basePath L.bucket) key) := by
      rw [LocalBucket.pathForUri, parseUri_own hkey]
      rfl
    refine Effects.bind_eq_ok.mpr ⟨_, t, Effects.lift_eq_ok.mpr ⟨by rw [huri]; rfl, rfl⟩, ?_⟩
    rw [← hdirname] at hmade
    exact Effects.bind_eq_ok.mpr ⟨_, t₁, adaptExcept_ok hmade, adaptExcept_ok hput⟩
  · rw [hfiles₂, hfiles₁, h.file, List.append_assoc, List.append_cancel_left_eq, ← hsplit]
    simp [or_and_right, exists_or]
  · rw [hdirs₂, hdirs₁, h.dir, or_assoc]
    refine or_congr_right' fun hns => ⟨?_, ?_⟩
    · rintro (⟨other, hother, hproper⟩ | ⟨pre, -, hpre, heq⟩)
      · exact ⟨other, List.mem_append_left _ hother, hproper⟩
      · obtain ⟨rest, hrest, hwhole⟩ := isPrefix_iff.mp hpre
        rw [List.append_cancel_left heq]
        exact ⟨key, by simp, rest, hrest, hsplit.trans hwhole⟩
    · rintro ⟨other, hother, rest, hrest, heq⟩
      rcases List.mem_append.mp hother with hother | hother
      · exact Or.inl ⟨other, hother, rest, hrest, heq⟩
      · rw [List.mem_singleton.mp hother, hsplit] at heq
        exact Or.inr ⟨ns, hns, isPrefix_iff.mpr ⟨rest, hrest, heq⟩, rfl⟩
  · have hkept : ∀ p ∈ t.files.keys, p ∈ t₂.files.keys :=
      fun p hp => (hfiles₂ p).mpr (Or.inl (hfiles₁ ▸ hp))
    exact FileTree.follow_mono (fun p hp => hdirs₂ ▸ hgrown p hp) hkept hbase

/-- The bucket's directory is there and empty, as after the construction in a new place. -/
structure Fresh (L : LocalBucket) (t : FileTree β) (base : List String) : Prop where
  found : t.lookup (L.basePath L.bucket) = some base
  empty : Holds t base []

def LocalBucket.putAll (L : LocalBucket) (l : List (String × β)) :
    EStateM (PyErr ⊕ OsError) (FileTree β) PUnit :=
  l.forM fun (key, data) => L.put (joinUri L.bucket key) data

def S3Bucket.putAll (s : S3Bucket β) (l : List (String × β)) : Py (S3Bucket β) :=
  l.foldlM (fun s (key, data) => s.put (joinUri s.bucket key) data) s

theorem putAll_ok (h : Holds t base keys) (hbase : t.lookup (L.basePath L.bucket) = some base)
    {l : List (String × β)} (hplain : ∀ key ∈ l.map Prod.fst, PlainKey key)
    (hapart : ∀ a ∈ keys ++ l.map Prod.fst, ∀ b ∈ keys ++ l.map Prod.fst, ¬ IsDirectoryOf a b) :
    ∃ t', L.putAll l t = .ok ⟨⟩ t' ∧ Holds t' base (keys ++ l.map Prod.fst) ∧
      t'.lookup (L.basePath L.bucket) = some base := by
  induction l generalizing t keys with
  | nil => exact ⟨t, rfl, by simpa using h, hbase⟩
  | cons kv l ih =>
    rw [List.map_cons, List.append_cons] at hapart ⊢
    obtain ⟨t₁, hput, h₁, hbase₁⟩ := put_ok h hbase (hplain kv.1 (by simp)) (fun other hother =>
      ⟨hapart kv.1 (by simp) other (by simp [hother]),
        hapart other (by simp [hother]) kv.1 (by simp)⟩) kv.2
    obtain ⟨t₂, hrest, h₂, hbase₂⟩ := ih h₁ hbase₁
      (fun key hkey => hplain key (List.mem_cons_of_mem _ hkey)) hapart
    refine ⟨t₂, ?_, h₂, hbase₂⟩
    exact Effects.bind_eq_ok.mpr ⟨⟨⟩, t₁, hput, hrest⟩

end Puts

section S3

variable {L : LocalBucket} {s : S3Bucket β} {keys : List String} {l : List (String × β)}

theorem s3_putAll_ok (hbucket : s.bucket = L.bucket)
    (hplain : ∀ key ∈ l.map Prod.fst, PlainKey key) :
    ∃ s', s.putAll l = .ok s' ∧ s'.bucket = L.bucket ∧ ∀ place, place ∈ s'.objects.keys ↔
      place ∈ s.objects.keys ∨ ∃ key ∈ l.map Prod.fst, place = (L.bucket, key) := by
  induction l generalizing s with
  | nil => exact ⟨s, rfl, hbucket, by simp⟩
  | cons kv l ih =>
    have hput : s.put (joinUri s.bucket kv.1) kv.2 =
        .ok { s with objects := s.objects.set ⟨L.bucket, kv.1, kv.2⟩ } := by
      rw [S3Bucket.put, hbucket, parseUri_own (hplain kv.1 (by simp))]
      rfl
    obtain ⟨s', hrest, hbucket', hplaces⟩ :=
      @ih { s with objects := s.objects.set ⟨L.bucket, kv.1, kv.2⟩ } hbucket
        (fun key hkey => hplain key (List.mem_cons_of_mem _ hkey))
    refine ⟨s', ?_, hbucket', fun place => ?_⟩
    · rw [S3Bucket.putAll, List.foldlM_cons]
      exact bind_eq_ok.mpr ⟨_, hput, hrest⟩
    · rw [hplaces, KeyedDict.mem_keys_set, or_assoc, List.map_cons]
      simp [S3Object.place]

theorem s3_listsExactly {prefixUri pre : String} (htarget : listTarget s.bucket prefixUri =
    (s.bucket, pre)) (hkeys : ∀ key, (s.bucket, key) ∈ s.objects.keys ↔ key ∈ keys) :
    ListsExactly s.bucket keys pre (s.list prefixUri) := by
  have hlist : s.list prefixUri = (((s.objects.vals.filter fun o => o.bucket = s.bucket ∧
      startsWith o.key pre = true).map S3Object.key).map (joinUri s.bucket)).insertionSort
        (· ≤ ·) := by
    rw [S3Bucket.list, htarget, List.map_map]
    rfl
  rw [hlist, listsExactly_iff]
  refine ⟨List.Nodup.map_on ?_ ((List.Nodup.of_map _ s.objects.nodup).filter _), fun key => ?_⟩
  · intro o ho o' ho' heq
    simp only [List.mem_filter, decide_eq_true_eq] at ho ho'
    refine KeyedDict.eq_of_key_eq ho.1 ho'.1 ?_
    rw [S3Object.place, S3Object.place, ho.2.1, ho'.2.1, heq]
  · rw [← hkeys, KeyedDict.keys]
    simp only [List.mem_map, List.mem_filter, decide_eq_true_eq, S3Object.place, Prod.mk.injEq]
    constructor
    · rintro ⟨o, ⟨ho, hbucket, hpre⟩, rfl⟩
      exact ⟨⟨o, ho, hbucket, rfl⟩, hpre⟩
    · rintro ⟨⟨o, ho, hbucket, rfl⟩, hpre⟩
      exact ⟨o, ⟨ho, hbucket, hpre⟩, rfl⟩

end S3

section Walks

variable {L : LocalBucket} {t : FileTree β} {base : List String} {keys : List String}
variable {pre key : String}

/-- What the prefix must be for the walk to find the keys that start with it. If it names a
directory, the files there are those of these keys; if it does not, no other file under the
directory in which it would be is found by its path relative to the bucket. -/
structure FindsKeys (L : LocalBucket) (t : FileTree β) (base : List String) (keys : List String)
    (pre : String) : Prop where
  directory : ∀ d, t.lookup (join (L.basePath L.bucket) pre) = some d → d ∈ t.dirs →
    (∀ f ∈ t.below d, ∃ key ∈ keys, startsWith key pre = true ∧ f = base ++ split '/' key) ∧
    ∀ key ∈ keys, startsWith key pre = true → base ++ split '/' key ∈ t.below d
  otherwise : t.isDir (join (L.basePath L.bucket) pre) = false →
    ∀ d, t.lookup (L.walkRoot L.bucket pre) = some d → d ∈ t.dirs →
      ∀ f ∈ t.below d, startsWith (relTo base f) pre = true → base <+: f

theorem relTo_key (base : List String) (key : String) :
    relTo base (base ++ split '/' key) = key := by
  rw [relTo_append base (split_ne_nil key), pathText_split]

theorem Holds.key_of_file (h : Holds t base keys) {f : List String} (hf : f ∈ t.files.keys)
    (hbase : base <+: f) : relTo base f ∈ keys ∧ f = base ++ split '/' (relTo base f) := by
  obtain ⟨names, rfl⟩ := hbase
  obtain ⟨key, hkey, rfl⟩ := (h.file names).mp hf
  rw [relTo_key]
  exact ⟨hkey, rfl⟩

theorem file_of_key {f : List String} (hf : f ∈ t.files.keys) (hkey : PlainKey key)
    (h : relTo base f = key) : f = base ++ split '/' key :=
  eq_append_of_relTo (fun name => t.named f (Or.inr hf) name) hkey.parts h

theorem lookup_under (hbase : t.lookup (L.basePath L.bucket) = some base) {names : List String}
    (hdir : base ∈ t.dirs) (h : t.Present (base ++ names)) :
    t.lookup (under (L.basePath L.bucket) names) = some (base ++ names) := by
  have hnames : ∀ name ∈ names, Name name :=
    fun name hname => t.named _ h name (List.mem_append_right _ hname)
  rw [FileTree.lookup, split_under _ hnames, FileTree.follow_append]
  rw [FileTree.lookup] at hbase
  rw [hbase]
  exact FileTree.follow_names (Or.inl hdir) h

theorem walkRoot_covers (h : Holds t base keys) (hbase : t.lookup (L.basePath L.bucket) = some base)
    (hplain : PlainKey key) (hkey : key ∈ keys) (hpre : startsWith key pre = true) :
    ∃ d, t.lookup (L.walkRoot L.bucket pre) = some d ∧ d ∈ t.dirs ∧
      base ++ split '/' key ∈ t.below d := by
  have hroot : base ∈ t.dirs := by simpa using (h.dir []).mpr (Or.inl rfl)
  have hfile : base ++ split '/' key ∈ t.files.keys := (h.file _).mpr ⟨key, hkey, rfl⟩
  have htext := basePath_text L
  obtain ⟨rest, hrest⟩ := startsWith_iff.mp hpre
  have hrelative : startsWith pre "/" = false := by
    by_contra habsolute
    obtain ⟨more, hmore⟩ := startsWith_iff.mp (by simpa using habsolute)
    have hkeyAbsolute : startsWith key "/" = true :=
      startsWith_iff.mpr ⟨more ++ rest, by rw [hrest, hmore, List.append_assoc]⟩
    rw [hplain.relative] at hkeyAbsolute
    cases hkeyAbsolute
  rw [LocalBucket.walkRoot, join_basePath hrelative]
  by_cases hslash : '/' ∈ pre.toList
  · -- the text up to the last slash is a directory of the key
    obtain ⟨back, front, hsplit, hback⟩ := List.eq_append_cons_of_mem (List.mem_reverse.mpr hslash)
    obtain ⟨D, last, hD, hlast⟩ : ∃ D last : String, pre = D ++ "/" ++ last ∧ '/' ∉ last.toList := by
      refine ⟨String.ofList front.reverse, String.ofList back.reverse, ?_, by simpa using hback⟩
      apply String.toList_injective
      rw [← List.reverse_reverse pre.toList, hsplit]
      simp
    have hparts : split '/' key = split '/' D ++ split '/' (last ++ String.ofList rest) := by
      rw [← split_append]
      congr 1
      apply String.toList_injective
      simp [hrest, hD]
    have hnames : ∀ name ∈ split '/' D, Name name :=
      fun name hname => hplain.parts name (hparts ▸ List.mem_append_left _ hname)
    have hunder : L.basePath L.bucket ++ "/" ++ D = under (L.basePath L.bucket) (split '/' D) := by
      rw [under_eq _ (split_ne_nil D), pathText_split]
    obtain ⟨hne, hend⟩ := under_text htext hnames
    have hwhole : L.basePath L.bucket ++ "/" ++ pre =
        under (L.basePath L.bucket) (split '/' D) ++ "/" ++ last := by
      rw [← hunder, hD]
      simp only [String.append_assoc]
    rw [hparts, ← List.append_assoc] at hfile
    have hdir : base ++ split '/' D ∈ t.dirs :=
      FileTree.mem_dirs_of_append (split_ne_nil _) (Or.inr hfile)
    rw [hwhole, dirname_append hne hend hlast, if_neg hne]
    refine ⟨_, lookup_under hbase hroot (Or.inl hdir), hdir, FileTree.mem_below.mpr ?_⟩
    rw [hparts, ← List.append_assoc]
    exact ⟨hfile, _, split_ne_nil _, rfl⟩
  · rw [dirname_append htext.1 htext.2 hslash, if_neg htext.1]
    exact ⟨base, hbase, hroot, FileTree.mem_below.mpr ⟨hfile, _, split_ne_nil key, rfl⟩⟩

theorem listedPaths_of_dir (hbase : t.lookup (L.basePath L.bucket) = some base) {d : List String}
    (hd : t.lookup (join (L.basePath L.bucket) pre) = some d) (hdir : d ∈ t.dirs) :
    L.listedPaths t L.bucket pre = (t.below d).map (relTo base) := by
  rw [LocalBucket.listedPaths, if_pos (FileTree.isDir_iff.mpr ⟨d, hd, hdir⟩),
    FileTree.map_relpath_walk t hd, ← FileTree.eq_normpath hbase]

theorem listedPaths_of_walkRoot (hbase : t.lookup (L.basePath L.bucket) = some base)
    (hno : t.isDir (join (L.basePath L.bucket) pre) = false) {d : List String}
    (hd : t.lookup (L.walkRoot L.bucket pre) = some d) (hdir : d ∈ t.dirs) :
    L.listedPaths t L.bucket pre =
      ((t.below d).filter fun f => startsWith (relTo base f) pre).map (relTo base) := by
  rw [LocalBucket.listedPaths, hno, if_pos (FileTree.isDir_iff.mpr ⟨d, hd, hdir⟩),
    FileTree.map_relpath_walk t hd, ← FileTree.eq_normpath hbase, List.filter_map]
  rfl

theorem found_iff (hplain : ∀ key ∈ keys, PlainKey key)
    {files : List (List String)} (hnodup : files.Nodup) (hfiles : ∀ f ∈ files, f ∈ t.files.keys) :
    ((files.map (relTo base)).Nodup ∧
      ∀ key, key ∈ files.map (relTo base) ↔ key ∈ keys ∧ startsWith key pre = true) ↔
    (∀ f ∈ files, ∃ key ∈ keys, startsWith key pre = true ∧ f = base ++ split '/' key) ∧
      ∀ key ∈ keys, startsWith key pre = true → base ++ split '/' key ∈ files := by
  constructor
  · rintro ⟨-, hmem⟩
    refine ⟨fun f hf => ?_, fun key hkey hpre => ?_⟩
    · obtain ⟨hkey, hpre⟩ := (hmem _).mp (List.mem_map_of_mem hf)
      exact ⟨_, hkey, hpre, file_of_key (hfiles f hf) (hplain _ hkey) rfl⟩
    · obtain ⟨f, hf, heq⟩ := List.mem_map.mp ((hmem key).mpr ⟨hkey, hpre⟩)
      exact file_of_key (hfiles f hf) (hplain key hkey) heq ▸ hf
  · rintro ⟨hown, hall⟩
    refine ⟨List.Nodup.map_on ?_ hnodup, fun key => ?_⟩
    · intro f hf f' hf' heq
      obtain ⟨key, -, -, rfl⟩ := hown f hf
      obtain ⟨key', -, -, rfl⟩ := hown f' hf'
      rw [relTo_key, relTo_key] at heq
      rw [heq]
    · constructor
      · intro hfound
        obtain ⟨f, hf, rfl⟩ := List.mem_map.mp hfound
        obtain ⟨key, hkey, hpre, rfl⟩ := hown f hf
        rw [relTo_key]
        exact ⟨hkey, hpre⟩
      · rintro ⟨hkey, hpre⟩
        exact List.mem_map.mpr ⟨_, hall key hkey hpre, relTo_key base key⟩

theorem listedPaths_iff (h : Holds t base keys) (hplain : ∀ key ∈ keys, PlainKey key)
    (hbase : t.lookup (L.basePath L.bucket) = some base) :
    ((L.listedPaths t L.bucket pre).Nodup ∧ ∀ key, key ∈ L.listedPaths t L.bucket pre ↔
      key ∈ keys ∧ startsWith key pre = true) ↔ FindsKeys L t base keys pre := by
  have hbelow : ∀ d, ∀ f ∈ t.below d, f ∈ t.files.keys := fun d f hf => (FileTree.mem_below.mp hf).1
  cases hisDir : t.isDir (join (L.basePath L.bucket) pre) with
  | true =>
    obtain ⟨d, hd, hdir⟩ := FileTree.isDir_iff.mp hisDir
    rw [listedPaths_of_dir hbase hd hdir, found_iff hplain (t.nodup_below d) (hbelow d)]
    constructor
    · intro hfound
      refine ⟨fun d' hd' _ => ?_, fun hno => ?_⟩
      · obtain rfl := Option.some.inj (hd.symm.trans hd')
        exact hfound
      · rw [hisDir] at hno
        cases hno
    · exact fun hfinds => hfinds.directory d hd hdir
  | false =>
    have hnever : ∀ d, t.lookup (join (L.basePath L.bucket) pre) = some d → d ∉ t.dirs := by
      intro d hd hdir
      rw [FileTree.isDir_iff.mpr ⟨d, hd, hdir⟩] at hisDir
      cases hisDir
    cases hparent : t.isDir (L.walkRoot L.bucket pre) with
    | true =>
      obtain ⟨d, hd, hdir⟩ := FileTree.isDir_iff.mp hparent
      rw [listedPaths_of_walkRoot hbase hisDir hd hdir, found_iff hplain
        ((t.nodup_below d).filter _) fun f hf => hbelow d f (List.mem_filter.mp hf).1]
      constructor
      · rintro ⟨hown, -⟩
        refine ⟨fun d' hd' hdir' => absurd hdir' (hnever d' hd'), fun _ d' hd' _ f hf hpre => ?_⟩
        obtain rfl := Option.some.inj (hd.symm.trans hd')
        obtain ⟨key, -, -, rfl⟩ := hown f (List.mem_filter.mpr ⟨hf, hpre⟩)
        exact List.prefix_append _ _
      · intro hfinds
        refine ⟨fun f hf => ?_, fun key hkey hpre => ?_⟩
        · obtain ⟨hf, hpre⟩ := List.mem_filter.mp hf
          have hinside := hfinds.otherwise hisDir d hd hdir f hf hpre
          obtain ⟨hkey, heq⟩ := h.key_of_file (hbelow d f hf) hinside
          exact ⟨_, hkey, hpre, heq⟩
        · obtain ⟨d', hd', -, hcovered⟩ := walkRoot_covers h hbase (hplain key hkey) hkey hpre
          obtain rfl := Option.some.inj (hd.symm.trans hd')
          exact List.mem_filter.mpr ⟨hcovered, by rw [relTo_key]; exact hpre⟩
    | false =>
      -- no key starts with the prefix, and nothing is walked
      have hnone : ∀ d, t.lookup (L.walkRoot L.bucket pre) = some d → d ∉ t.dirs := by
        intro d hd hdir
        rw [FileTree.isDir_iff.mpr ⟨d, hd, hdir⟩] at hparent
        cases hparent
      have hempty : L.listedPaths t L.bucket pre = [] := by
        rw [LocalBucket.listedPaths, hisDir, hparent]
        rfl
      refine iff_of_true ?_ ⟨fun d hd hdir => absurd hdir (hnever d hd),
        fun _ d hd hdir => absurd hdir (hnone d hd)⟩
      rw [hempty]
      refine ⟨List.nodup_nil, fun key => ⟨fun hkey => absurd hkey List.not_mem_nil, ?_⟩⟩
      rintro ⟨hkey, hpre⟩
      obtain ⟨d, hd, hdir, -⟩ := walkRoot_covers h hbase (hplain key hkey) hkey hpre
      exact absurd hdir (hnone d hd)

end Walks

section Example

def dataBucket : LocalBucket := ⟨"/data", "b", by decide, by decide⟩

def emptyTree : FileTree Unit where
  files := .empty
  dirs := [[], ["data"], ["data", "b"]]
  rooted := by decide
  closed := by
    have hparent : ∀ p ∈ [[], ["data"], ["data", "b"]], p.dropLast ∈ [[], ["data"], ["data", "b"]] := by
      decide
    rintro p name (h | h)
    · simpa using hparent _ h
    · cases h
  apart := fun _ _ h => by cases h
  named := by simp [Name]

theorem fresh_emptyTree : Fresh dataBucket emptyTree ["data", "b"] where
  found := by decide +kernel
  empty := by
    refine ⟨fun names => ?_, fun names => ?_⟩
    · simp [emptyTree]
    · simp [emptyTree]

def twoKeys : List (String × Unit) := [("a/x", ()), ("ab", ())]

theorem twoKeys_parts : split '/' "a/x" = ["a", "x"] ∧ split '/' "ab" = ["ab"] := by decide

theorem twoKeys_plain : (∀ key ∈ twoKeys.map Prod.fst, PlainKey key) ∧
    ∀ a ∈ twoKeys.map Prod.fst, ∀ b ∈ twoKeys.map Prod.fst, ¬ IsDirectoryOf a b := by
  obtain ⟨hfirst, hsecond⟩ := twoKeys_parts
  simp only [twoKeys, List.map_cons, List.map_nil, List.forall_mem_cons, List.not_mem_nil,
    false_implies, implies_true, and_true, IsDirectoryOf, hfirst, hsecond]
  refine ⟨⟨⟨by decide, by decide⟩, by decide, by decide⟩, ⟨?_, ?_⟩, ?_, ?_⟩
  · rintro ⟨rest, hne, h⟩
    exact hne (by simpa using h)
  · rintro ⟨rest, -, h⟩
    simp at h
  · rintro ⟨rest, -, h⟩
    simp at h
  · rintro ⟨rest, hne, h⟩
    exact hne (by simpa using h)

end Example

end LocalStore

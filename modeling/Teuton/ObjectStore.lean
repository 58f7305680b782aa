import Teuton.ReadProgram
import Teuton.Signatures

/-! The object store as its readers and writers see it: bodies by URI, listed in key order.
Local directories and S3 differ below this interface only. -/
namespace ObjectStore

open PyJson PyText Signatures

variable {β : Type}

/-- Split `s3://bucket/key`; the key is not empty and has no line break. -/
def parseUri (uri : String) : Py (String × String) :=
  let rest := uri.toList.drop "s3://".length
  let bucket := rest.takeWhile (· ≠ '/')
  let key := (rest.dropWhile (· ≠ '/')).drop 1
  if startsWith uri "s3://" && !bucket.isEmpty && !key.isEmpty && !key.contains '\n' then
    .ok (String.ofList bucket, String.ofList key)
  else .error (.valueError ("not an s3:// URI: " ++ uri))

def joinUri (bucket key : String) : String := "s3://" ++ bucket ++ "/" ++ key

/-- When `joinUri` gives a URI that parses: the bucket name starts with some text other than a
slash, and the key, if the name has no slash itself, is not empty and has no line break. -/
theorem parseUri_joinUri {bucket key : String} :
    (∃ parts, parseUri (joinUri bucket key) = .ok parts) ↔
      bucket.toList.takeWhile (· ≠ '/') ≠ [] ∧
      (bucket.toList.dropWhile (· ≠ '/') ++ '/' :: key.toList).drop 1 ≠ [] ∧
      '\n' ∉ (bucket.toList.dropWhile (· ≠ '/') ++ '/' :: key.toList).drop 1 := by
  have htake : ∀ x y : List Char, (x ++ '/' :: y).takeWhile (· ≠ '/') = x.takeWhile (· ≠ '/') := by
    intro x y
    induction x with
    | nil => simp
    | cons c x ih =>
      by_cases hc : c = '/'
      · simp [hc]
      · simpa [hc] using ih
  have hdrop : ∀ x y : List Char,
      (x ++ '/' :: y).dropWhile (· ≠ '/') = x.dropWhile (· ≠ '/') ++ '/' :: y := by
    intro x y
    induction x with
    | nil => simp
    | cons c x ih =>
      by_cases hc : c = '/'
      · simp [hc]
      · simpa [hc] using ih
  have hrest : (joinUri bucket key).toList.drop "s3://".length =
      bucket.toList ++ '/' :: key.toList := by
    simp only [joinUri, String.toList_append, List.append_assoc]
    rfl
  have hstart : startsWith (joinUri bucket key) "s3://" = true := by
    rw [joinUri, String.append_assoc, String.append_assoc]
    exact startsWith_append _ _
  simp only [parseUri, hrest, htake, hdrop, hstart]
  split_ifs with h
  · simpa [and_assoc] using h
  · simpa [and_assoc] using h

/-- Another key of the same bucket parses as well if it is not empty and has no line break that
the first key does not have. -/
theorem parseUri_joinUri_of_parse {bucket key key' : String} (hkey : key' ≠ "")
    (hline : '\n' ∈ key'.toList → '\n' ∈ key.toList)
    (h : ∃ parts, parseUri (joinUri bucket key) = .ok parts) :
    ∃ parts, parseUri (joinUri bucket key') = .ok parts := by
  obtain ⟨hbucket, -, hfree⟩ := parseUri_joinUri.mp h
  refine parseUri_joinUri.mpr ⟨hbucket, ?_, ?_⟩
  · cases bucket.toList.dropWhile (· ≠ '/') with
    | nil => simpa using hkey
    | cons c rest => simp
  · intro hmem
    apply hfree
    cases hrest : bucket.toList.dropWhile (· ≠ '/') with
    | nil =>
      rw [hrest] at hmem
      exact hline hmem
    | cons c rest =>
      rw [hrest] at hmem
      rcases List.mem_append.mp hmem with hmem | hmem
      · exact List.mem_append_left _ hmem
      · rcases List.mem_cons.mp hmem with hslash | hmem
        · cases hslash
        · exact List.mem_append_right _ (List.mem_cons_of_mem _ (hline hmem))

structure Bucket (β : Type) where
  name : String
  objects : SortedDict String β

namespace Bucket

def uriForKey (b : Bucket β) (key : String) : String := joinUri b.name key

def get (b : Bucket β) (uri : String) : Py β := do
  let _ ← parseUri uri
  match b.objects.find? uri with
  | some body => .ok body
  | none => .error (.fileNotFoundError uri)

def «exists» (b : Bucket β) (uri : String) : Py Bool := do
  let _ ← parseUri uri
  return (b.objects.find? uri).isSome

def put (b : Bucket β) (uri : String) (body : β) : Py (Bucket β) := do
  let _ ← parseUri uri
  return { b with objects := b.objects.insert uri body }

def delete (b : Bucket β) (uri : String) : Py (Bucket β) := do
  let _ ← parseUri uri
  return { b with objects := b.objects.erase uri }

def list (b : Bucket β) (prefixUri : String) : List String :=
  let start := match parseUri prefixUri with
    | .ok _ => prefixUri
    | .error _ => b.uriForKey prefixUri
  b.objects.keys.filter (startsWith · start)

def getJson (p : Platform β) (b : Bucket β) (uri : String) : Py Json := do
  p.loads (← b.get uri)

def putJson (p : Platform β) (b : Bucket β) (uri : String) (value : Json) : Py (Bucket β) :=
  b.put uri (p.dumps value)

variable {body : β} {e : PyErr} {uri : String} {b b' : Bucket β}

theorem get_congr (h : b.objects.find? uri = b'.objects.find? uri) : b.get uri = b'.get uri := by
  rw [get, get, h]

theorem get_eq_ok :
    b.get uri = .ok body ↔ (∃ parts, parseUri uri = .ok parts) ∧ b.objects.find? uri = some body := by
  rw [get, bind_eq_ok]
  constructor
  · rintro ⟨parts, hparts, h⟩
    refine ⟨⟨parts, hparts⟩, ?_⟩
    cases hfind : b.objects.find? uri with
    | none =>
      rw [hfind] at h
      cases h
    | some x =>
      rw [hfind] at h
      cases h
      rfl
  · rintro ⟨⟨parts, hparts⟩, hfind⟩
    exact ⟨parts, hparts, by rw [hfind]⟩

theorem put_eq_ok :
    b.put uri body = .ok b' ↔ (∃ parts, parseUri uri = .ok parts) ∧
      b' = { b with objects := b.objects.insert uri body } := by
  rw [put, bind_eq_ok]
  constructor
  · rintro ⟨parts, hparts, h⟩
    exact ⟨⟨parts, hparts⟩, (Except.ok.inj h).symm⟩
  · rintro ⟨⟨parts, hparts⟩, rfl⟩
    exact ⟨parts, hparts, rfl⟩

theorem delete_eq_ok :
    b.delete uri = .ok b' ↔ (∃ parts, parseUri uri = .ok parts) ∧
      b' = { b with objects := b.objects.erase uri } := by
  rw [delete, bind_eq_ok]
  constructor
  · rintro ⟨parts, hparts, h⟩
    exact ⟨⟨parts, hparts⟩, (Except.ok.inj h).symm⟩
  · rintro ⟨⟨parts, hparts⟩, rfl⟩
    exact ⟨parts, hparts, rfl⟩

theorem exists_eq_true :
    b.exists uri = .ok true ↔ (∃ parts, parseUri uri = .ok parts) ∧ b.objects.find? uri ≠ none := by
  rw [«exists», bind_eq_ok]
  constructor
  · rintro ⟨parts, hparts, h⟩
    exact ⟨⟨parts, hparts⟩, Option.isSome_iff_ne_none.mp (Except.ok.inj h)⟩
  · rintro ⟨⟨parts, hparts⟩, hfind⟩
    exact ⟨parts, hparts, congrArg Except.ok (Option.isSome_iff_ne_none.mpr hfind)⟩

theorem parseUri_error (h : parseUri uri = .error e) :
    ∃ message, e = .valueError message := by
  simp only [parseUri] at h
  split_ifs at h
  cases h
  exact ⟨_, rfl⟩

theorem exists_error (h : b.exists uri = .error e) :
    ∃ message, e = .valueError message := by
  rcases bind_eq_error.mp h with h | ⟨_, _, h⟩
  · exact parseUri_error h
  · cases h

theorem put_error (h : b.put uri body = .error e) : ∃ message, e = .valueError message := by
  rcases bind_eq_error.mp h with h | ⟨_, _, h⟩
  · exact parseUri_error h
  · cases h

theorem get_of_put {u : String} (h : b.put u body = .ok b') :
    b'.get u = .ok body ∧ ∀ v, v ≠ u → b'.get v = b.get v := by
  obtain ⟨hparse, rfl⟩ := put_eq_ok.mp h
  refine ⟨get_eq_ok.mpr ⟨hparse, ?_⟩, fun v hv => get_congr ?_⟩
  · rw [SortedDict.find?_insert, if_pos rfl]
  · rw [SortedDict.find?_insert, if_neg hv]

theorem name_of_put (h : b.put uri body = .ok b') :
    b'.name = b.name := by
  obtain ⟨-, rfl⟩ := put_eq_ok.mp h
  rfl

end Bucket

abbrev Fetch (β : Type) := ReadProgram String (Py β) PyErr

def fetchJson (p : Platform β) (uri : String) : Fetch β Json := do
  p.loads (← ReadProgram.ask uri)

@[simp] theorem run_fetchJson (p : Platform β) (b : Bucket β) (uri : String) :
    (fetchJson p uri).run b.get = b.getJson p uri := by
  simp [fetchJson, Bucket.getJson]

end ObjectStore

import Mathlib.Data.List.Infix
import Teuton.Effects
import Teuton.KeyedDict
import Teuton.PyText

/-! A tree of directories and files without links, as POSIX path functions see it: absolute path
texts are followed part by part, directories are made on the way to a file, and the files below a
directory are named by their paths relative to another one. -/
namespace FileTrees

open PyText

variable {β : Type}

def Name (s : String) : Prop := s ≠ "" ∧ s ≠ "." ∧ s ≠ ".." ∧ '/' ∉ s.toList

instance (s : String) : Decidable (Name s) := inferInstanceAs (Decidable (_ ∧ _))

section Texts

def pathText : List String → String
  | [] => ""
  | [name] => name
  | name :: rest => name ++ "/" ++ pathText rest

def join (a b : String) : String :=
  if startsWith b "/" then b
  else if a = "" ∨ endsWith a "/" = true then a ++ b
  else a ++ "/" ++ b

/-- The call `os.path.dirname(path)`: the text up to the last slash, without slashes at its end
unless it has nothing else. -/
def dirname (path : String) : String :=
  let head := path.toList.reverse.dropWhile (· ≠ '/')
  if head.all (· = '/') then String.ofList head.reverse
  else String.ofList (head.dropWhile (· = '/')).reverse

/-- Where one part of a path text leads, were there all directories it needs. -/
def normStep (cwd : List String) (part : String) : List String :=
  if part = "" ∨ part = "." then cwd
  else if part = ".." then cwd.dropLast
  else cwd ++ [part]

/-- The parts of `os.path.normpath(path)` for an absolute path. -/
def normpath (path : String) : List String := (split '/' path).foldl normStep []

def common : List String → List String → ℕ
  | a :: l, b :: m => if a = b then common l m + 1 else 0
  | _, _ => 0

def relTo (start f : List String) : String :=
  let shared := common start f
  match List.replicate (start.length - shared) ".." ++ f.drop shared with
  | [] => "."
  | parts => pathText parts

/-- The call `os.path.relpath(path, start)` for absolute paths. -/
def relpath (path start : String) : String := relTo (normpath start) (normpath path)

variable {names : List String}

theorem pathText_cons_cons (name next : String) (rest : List String) :
    pathText (name :: next :: rest) = name ++ "/" ++ pathText (next :: rest) := rfl

theorem split_pathText (hne : names ≠ []) (h : ∀ name ∈ names, '/' ∉ name.toList) :
    split '/' (pathText names) = names := by
  induction names with
  | nil => exact absurd rfl hne
  | cons name rest ih =>
    have hname := split_of_not_mem (h name List.mem_cons_self)
    cases rest with
    | nil => exact hname
    | cons next rest =>
      have hrest := ih (List.cons_ne_nil _ _) fun n hn => h n (List.mem_cons_of_mem _ hn)
      rw [pathText_cons_cons, split_append, hname, hrest]
      rfl

theorem toList_pathText (names : List String) :
    (pathText names).toList = ['/'].intercalate (names.map String.toList) := by
  induction names with
  | nil => rfl
  | cons name rest ih =>
    cases rest with
    | nil => simp [pathText]
    | cons next rest =>
      rw [pathText_cons_cons, String.toList_append, String.toList_append, ih, List.map_cons,
        List.map_cons, List.map_cons, List.intercalate_cons_cons]
      rfl

theorem pathText_split (s : String) : pathText (split '/' s) = s := by
  apply String.toList_injective
  rw [toList_pathText, split, List.map_map]
  have hid : String.toList ∘ String.ofList = id := funext fun l => String.toList_ofList
  rw [hid, List.map_id, List.intercalate_splitOn]

theorem split_slash_end {a a' : String} (h : a = a' ++ "/") (b : String) :
    split '/' a = split '/' a' ++ [""] ∧ split '/' (a ++ b) = split '/' a' ++ split '/' b := by
  subst h
  refine ⟨?_, split_append a' b⟩
  have hsplit := split_append a' ""
  rwa [String.append_empty] at hsplit

theorem exists_of_endsWith {a : String} (h : endsWith a "/" = true) : ∃ a', a = a' ++ "/" := by
  rw [endsWith, List.isSuffixOf_iff_suffix] at h
  obtain ⟨l, hl⟩ := h
  exact ⟨String.ofList l, String.toList_injective (by simp [← hl])⟩

theorem split_join (a : String) {b : String} (hb : startsWith b "/" = false) :
    (a = "" ∧ split '/' (join a b) = split '/' b) ∨
    (split '/' (join a b) = split '/' a ++ split '/' b) ∨
    ∃ l, split '/' a = l ++ [""] ∧ split '/' (join a b) = l ++ split '/' b := by
  rw [join, if_neg (by simp [hb])]
  by_cases hempty : a = ""
  · subst hempty
    exact Or.inl ⟨rfl, by simp⟩
  · by_cases hend : endsWith a "/" = true
    · obtain ⟨a', ha'⟩ := exists_of_endsWith hend
      obtain ⟨hsplit, happend⟩ := split_slash_end ha' b
      rw [if_pos (Or.inr hend)]
      exact Or.inr (Or.inr ⟨_, hsplit, happend⟩)
    · rw [if_neg (by simp [hempty, hend])]
      exact Or.inr (Or.inl (split_append a b))

@[simp] theorem normStep_empty (cwd : List String) : normStep cwd "" = cwd := by simp [normStep]

theorem normStep_name {name : String} (h : Name name) (cwd : List String) :
    normStep cwd name = cwd ++ [name] := by
  rw [normStep, if_neg (by simp [h.1, h.2.1]), if_neg h.2.2.1]

theorem foldl_normStep_names (h : ∀ name ∈ names, Name name) (cwd : List String) :
    names.foldl normStep cwd = cwd ++ names := by
  induction names generalizing cwd with
  | nil => simp
  | cons name rest ih =>
    rw [List.foldl_cons, normStep_name (h name List.mem_cons_self),
      ih fun n hn => h n (List.mem_cons_of_mem _ hn)]
    simp

theorem normpath_join (a : String) {b : String} (hb : startsWith b "/" = false) :
    normpath (join a b) = (split '/' b).foldl normStep (normpath a) := by
  rw [normpath, normpath]
  rcases split_join a hb with ⟨rfl, h⟩ | h | ⟨l, ha, h⟩
  · rw [h]
    rfl
  · rw [h, List.foldl_append]
  · rw [h, ha, List.foldl_append, List.foldl_append]
    rfl

theorem take_common (l m : List String) : l.take (common l m) = m.take (common l m) := by
  induction l generalizing m with
  | nil => cases m <;> simp [common]
  | cons a l ih =>
    cases m with
    | nil => simp [common]
    | cons b m =>
      rw [common]
      split_ifs with hab
      · rw [List.take_succ_cons, List.take_succ_cons, ih m, hab]
      · rfl

theorem common_append (l m : List String) : common l (l ++ m) = l.length := by
  induction l with
  | nil => cases m <;> rfl
  | cons a l ih => simp [common, ih]

theorem relTo_append (start : List String) (hne : names ≠ []) :
    relTo start (start ++ names) = pathText names := by
  cases names with
  | nil => exact absurd rfl hne
  | cons name rest => simp [relTo, common_append]

theorem eq_append_of_relTo {start f : List String} {key : String}
    (hf : ∀ name ∈ f, Name name) (hkey : ∀ part ∈ split '/' key, Name part)
    (h : relTo start f = key) : f = start ++ split '/' key := by
  have hshared := take_common start f
  set shared := common start f with hs
  rw [relTo, ← hs] at h
  cases hparts : List.replicate (start.length - shared) ".." ++ f.drop shared with
  | nil =>
    rw [hparts] at h
    subst h
    exact absurd (hkey "." (by decide)) (by decide)
  | cons part rest =>
    rw [hparts] at h
    change pathText (part :: rest) = key at h
    have hslash : ∀ p ∈ part :: rest, '/' ∉ p.toList := by
      intro p hp
      rw [← hparts] at hp
      rcases List.mem_append.mp hp with hp | hp
      · rw [List.eq_of_mem_replicate hp]
        decide
      · exact (hf p (List.mem_of_mem_drop hp)).2.2.2
    have hsplit := split_pathText (List.cons_ne_nil _ _) hslash
    rw [h] at hsplit
    rw [← hparts] at hsplit
    -- a step upwards would be a part of the key
    have hup : start.length - shared = 0 := by
      by_contra hpos
      have hmem : ".." ∈ split '/' key := by
        rw [hsplit]
        exact List.mem_append_left _ (List.mem_replicate.mpr ⟨hpos, rfl⟩)
      exact (hkey _ hmem).2.2.1 rfl
    rw [hup, List.replicate_zero, List.nil_append] at hsplit
    have hwhole : start.take shared = start := List.take_of_length_le (by omega)
    rw [hsplit, ← hwhole, hshared, List.take_append_drop]

theorem dirname_append {a b : String} (ha : a ≠ "") (hend : endsWith a "/" = false)
    (hb : '/' ∉ b.toList) : dirname (a ++ "/" ++ b) = a := by
  have hhead : ((a ++ "/" ++ b).toList.reverse.dropWhile (· ≠ '/')) = '/' :: a.toList.reverse := by
    have htext : (a ++ "/" ++ b).toList.reverse = b.toList.reverse ++ '/' :: a.toList.reverse := by
      simp
    rw [htext, List.dropWhile_append_of_pos]
    · simp
    · intro c hc
      have hne : c ≠ '/' := fun heq => hb (heq ▸ List.mem_reverse.mp hc)
      simpa using hne
  obtain ⟨c, l, hlast⟩ : ∃ c l, a.toList.reverse = c :: l := by
    cases hrev : a.toList.reverse with
    | nil => exact absurd (String.toList_injective (by simpa using hrev)) ha
    | cons c l => exact ⟨c, l, rfl⟩
  have hc : c ≠ '/' := by
    rintro rfl
    have hsuffix : endsWith a "/" = true := by
      rw [endsWith, List.isSuffixOf_iff_suffix, ← List.reverse_prefix, hlast]
      exact ⟨l, rfl⟩
    rw [hend] at hsuffix
    cases hsuffix
  have hall : ('/' :: c :: l).all (· = '/') = false := by simp [hc]
  have hdrop : ('/' :: c :: l).dropWhile (· = '/') = a.toList.reverse := by simp [hc, hlast]
  rw [dirname, hhead, hlast]
  simp only [hall, hdrop, Bool.false_eq_true, if_false, List.reverse_reverse, String.ofList_toList]

theorem pathText_not_absolute (hne : names ≠ []) (h : ∀ name ∈ names, Name name) :
    startsWith (pathText names) "/" = false := by
  cases names with
  | nil => exact absurd rfl hne
  | cons name rest =>
    obtain ⟨more, hmore⟩ : ∃ more, (pathText (name :: rest)).toList = name.toList ++ more := by
      cases rest with
      | nil => exact ⟨[], by simp [pathText]⟩
      | cons next rest =>
        exact ⟨'/' :: (pathText (next :: rest)).toList, by simp [pathText_cons_cons]⟩
    obtain ⟨hempty, -, -, hslash⟩ := h name List.mem_cons_self
    cases hname : name.toList with
    | nil => exact absurd (String.toList_injective (by simpa using hname)) hempty
    | cons c l =>
      have hc : c ≠ '/' := fun heq => hslash (by simp [hname, heq])
      rw [startsWith, hmore, hname]
      simp [List.isPrefixOf, Ne.symm hc]

end Texts

inductive OsError where
  | notADirectory
  | isADirectory
  | fileExists
  deriving DecidableEq, Repr

/-- Directories and files by the names on the way to them from the root. -/
structure FileTree (β : Type) where
  files : KeyedDict (Prod.fst : List String × β → List String)
  dirs : List (List String)
  rooted : [] ∈ dirs
  closed : ∀ p name, p ++ [name] ∈ dirs ∨ p ++ [name] ∈ files.keys → p ∈ dirs
  apart : ∀ p ∈ dirs, p ∉ files.keys
  named : ∀ p, p ∈ dirs ∨ p ∈ files.keys → ∀ name ∈ p, Name name

namespace FileTree

variable (t : FileTree β)

def Present (p : List String) : Prop := p ∈ t.dirs ∨ p ∈ t.files.keys

instance (p : List String) : Decidable (t.Present p) := inferInstanceAs (Decidable (_ ∨ _))

def step (cwd : List String) (part : String) : Option (List String) :=
  if cwd ∈ t.dirs ∧ t.Present (normStep cwd part) then some (normStep cwd part) else none

def follow (cwd : List String) (parts : List String) : Option (List String) :=
  parts.foldlM t.step cwd

def lookup (path : String) : Option (List String) := t.follow [] (split '/' path)

def isDir (path : String) : Bool := (t.lookup path).any (· ∈ t.dirs)

def below (d : List String) : List (List String) :=
  t.files.keys.filter fun f => d.isPrefixOf f && f ≠ d

/-- The files that `os.walk(top)` comes by, as `os.path.join(dirpath, filename)`. -/
def walk (top : String) : List String :=
  match t.lookup top with
  | none => []
  | some d => (t.below d).map fun f => join top (pathText (f.drop d.length))

variable {t} {p q d cwd names parts : List String} {path name : String}

theorem mem_dirs_of_append (hq : q ≠ []) (h : t.Present (p ++ q)) : p ∈ t.dirs := by
  induction q using List.reverseRecOn with
  | nil => exact absurd rfl hq
  | append_singleton q name ih =>
    rw [← List.append_assoc] at h
    have hdir := t.closed (p ++ q) name h
    cases q with
    | nil => simpa using hdir
    | cons a q => exact ih (List.cons_ne_nil _ _) (Or.inl hdir)

theorem step_eq_some : t.step cwd name = some p ↔
    cwd ∈ t.dirs ∧ t.Present p ∧ p = normStep cwd name := by
  rw [step]
  split_ifs with h
  · constructor
    · rintro ⟨⟩
      exact ⟨h.1, h.2, rfl⟩
    · rintro ⟨-, -, rfl⟩
      rfl
  · constructor
    · rintro ⟨⟩
    · rintro ⟨hcwd, hp, rfl⟩
      exact absurd ⟨hcwd, hp⟩ h

theorem follow_cons : t.follow cwd (name :: parts) =
    (t.step cwd name).bind fun next => t.follow next parts := List.foldlM_cons

theorem follow_append (l m : List String) : t.follow cwd (l ++ m) =
    (t.follow cwd l).bind fun next => t.follow next m := List.foldlM_append

theorem eq_of_follow (h : t.follow cwd parts = some p) : p = parts.foldl normStep cwd := by
  induction parts generalizing cwd with
  | nil => exact (Option.some.inj h).symm
  | cons part parts ih =>
    rw [follow_cons] at h
    obtain ⟨next, hnext, h⟩ := Option.bind_eq_some_iff.mp h
    obtain ⟨-, -, rfl⟩ := step_eq_some.mp hnext
    exact ih h

theorem eq_normpath (h : t.lookup path = some p) : p = normpath path := eq_of_follow h

theorem follow_names (hcwd : t.Present cwd) (h : t.Present (cwd ++ names)) :
    t.follow cwd names = some (cwd ++ names) := by
  induction names generalizing cwd with
  | nil => simp [follow]
  | cons name rest ih =>
    have hdir : cwd ∈ t.dirs := mem_dirs_of_append (List.cons_ne_nil _ _) h
    have hname : Name name := t.named _ h name (by simp)
    have hnext : t.Present (cwd ++ [name]) := by
      cases rest with
      | nil => exact h
      | cons next rest =>
        refine Or.inl (mem_dirs_of_append (List.cons_ne_nil next rest) ?_)
        simpa using h
    have hstep : t.step cwd name = some (cwd ++ [name]) :=
      step_eq_some.mpr ⟨hdir, hnext, (normStep_name hname cwd).symm⟩
    rw [follow_cons, hstep, Option.bind_some, ih hnext (by simpa using h)]
    simp

theorem isDir_iff : t.isDir path = true ↔ ∃ d, t.lookup path = some d ∧ d ∈ t.dirs := by
  rw [isDir]
  cases t.lookup path <;> simp

theorem mem_below {f : List String} :
    f ∈ t.below d ↔ f ∈ t.files.keys ∧ ∃ names, names ≠ [] ∧ f = d ++ names := by
  rw [below, List.mem_filter, Bool.and_eq_true, List.isPrefixOf_iff_prefix, decide_eq_true_iff]
  constructor
  · rintro ⟨hf, ⟨names, rfl⟩, hne⟩
    exact ⟨hf, names, fun h => hne (by simp [h]), rfl⟩
  · rintro ⟨hf, names, hne, rfl⟩
    exact ⟨hf, List.prefix_append _ _, by simpa using hne⟩

theorem nodup_below (t : FileTree β) (d : List String) : (t.below d).Nodup :=
  t.files.nodup.filter _

theorem map_relpath_walk (t : FileTree β) {top : String} (h : t.lookup top = some d)
    (start : String) :
    (t.walk top).map (relpath · start) = (t.below d).map (relTo (normpath start)) := by
  rw [walk, h]
  simp only [List.map_map]
  refine List.map_congr_left fun f hf => ?_
  obtain ⟨hfile, names, hne, rfl⟩ := mem_below.mp hf
  have hnames : ∀ name ∈ names, Name name :=
    fun name hname => t.named _ (Or.inr hfile) name (List.mem_append_right _ hname)
  have hpath : normpath (join top (pathText names)) = d ++ names := by
    rw [normpath_join _ (pathText_not_absolute hne hnames),
      split_pathText hne fun name hname => (hnames name hname).2.2.2,
      foldl_normStep_names hnames, ← eq_normpath h]
  simp [relpath, hpath]

section Changes

def mkdir (t : FileTree β) (p : List String) (name : String) : FileTree β :=
  if h : p ∈ t.dirs ∧ Name name ∧ p ++ [name] ∉ t.files.keys then
    { t with
      dirs := (p ++ [name]) :: t.dirs
      rooted := List.mem_cons_of_mem _ t.rooted
      closed := by
        rintro q n (hq | hq)
        · rcases List.mem_cons.mp hq with hq | hq
          · rw [(List.append_inj' hq rfl).1]
            exact List.mem_cons_of_mem _ h.1
          · exact List.mem_cons_of_mem _ (t.closed q n (Or.inl hq))
        · exact List.mem_cons_of_mem _ (t.closed q n (Or.inr hq))
      apart := by
        intro q hq
        rcases List.mem_cons.mp hq with rfl | hq
        · exact h.2.2
        · exact t.apart q hq
      named := by
        rintro q (hq | hq) n hn
        · rcases List.mem_cons.mp hq with rfl | hq
          · rcases List.mem_append.mp hn with hn | hn
            · exact t.named p (Or.inl h.1) n hn
            · rw [List.mem_singleton.mp hn]
              exact h.2.1
          · exact t.named q (Or.inl hq) n hn
        · exact t.named q (Or.inr hq) n hn }
  else t

def write (t : FileTree β) (p : List String) (name : String) (data : β) : FileTree β :=
  if h : p ∈ t.dirs ∧ Name name ∧ p ++ [name] ∉ t.dirs then
    { t with
      files := t.files.set (p ++ [name], data)
      closed := by
        rintro q n (hq | hq)
        · exact t.closed q n (Or.inl hq)
        · rcases KeyedDict.mem_keys_set.mp hq with hq | hq
          · exact t.closed q n (Or.inr hq)
          · rw [(List.append_inj' hq rfl).1]
            exact h.1
      apart := by
        intro q hq hfile
        rcases KeyedDict.mem_keys_set.mp hfile with hfile | rfl
        · exact t.apart q hq hfile
        · exact h.2.2 hq
      named := by
        rintro q (hq | hq) n hn
        · exact t.named q (Or.inl hq) n hn
        · rcases KeyedDict.mem_keys_set.mp hq with hq | rfl
          · exact t.named q (Or.inr hq) n hn
          · rcases List.mem_append.mp hn with hn | hn
            · exact t.named p (Or.inl h.1) n hn
            · rw [List.mem_singleton.mp hn]
              exact h.2.1 }
  else t

/-- One step of `os.makedirs`: what is not there is made. -/
def makeNext (cwd : List String) (part : String) : EStateM OsError (FileTree β) (List String) :=
  Effects.update fun t =>
    if cwd ∈ t.dirs then
      if t.Present (normStep cwd part) then .ok (normStep cwd part, t)
      else .ok (normStep cwd part, t.mkdir cwd part)
    else .error .notADirectory

def makedirs (path : String) : EStateM OsError (FileTree β) (List String) := do
  let d ← (split '/' path).foldlM makeNext []
  if d ∈ (← get).dirs then return d else throw .fileExists

/-- The call `os.replace(tmp_path, path)` for a file with this content in the same directory. -/
def replace (path : String) (data : β) : EStateM OsError (FileTree β) PUnit :=
  Effects.update fun t =>
    match t.follow [] (split '/' path).dropLast, (split '/' path).getLast? with
    | some p, some name =>
      if p ∈ t.dirs then
        if Name name ∧ p ++ [name] ∉ t.dirs then .ok (⟨⟩, t.write p name data)
        else .error .isADirectory
      else .error .notADirectory
    | _, _ => .error .notADirectory

variable {t t' : FileTree β} {d cwd names parts l : List String} {name : String} {data : β}

theorem follow_mono (hdirs : ∀ p ∈ t.dirs, p ∈ t'.dirs)
    (hfiles : ∀ p ∈ t.files.keys, p ∈ t'.files.keys) (h : t.follow cwd parts = some d) :
    t'.follow cwd parts = some d := by
  induction parts generalizing cwd with
  | nil => exact h
  | cons part parts ih =>
    rw [follow_cons] at h ⊢
    obtain ⟨next, hnext, h⟩ := Option.bind_eq_some_iff.mp h
    obtain ⟨hcwd, hpresent, hnorm⟩ := step_eq_some.mp hnext
    have hpresent' : t'.Present next := hpresent.imp (hdirs next) (hfiles next)
    rw [step_eq_some.mpr ⟨hdirs cwd hcwd, hpresent', hnorm⟩]
    exact ih h

theorem makeNext_of_follow (h : t.follow cwd parts = some d) :
    parts.foldlM makeNext cwd t = .ok d t := by
  induction parts generalizing cwd with
  | nil =>
    obtain rfl := Option.some.inj h
    rfl
  | cons part parts ih =>
    rw [follow_cons] at h
    obtain ⟨next, hnext, h⟩ := Option.bind_eq_some_iff.mp h
    obtain ⟨hcwd, hpresent, rfl⟩ := step_eq_some.mp hnext
    rw [List.foldlM_cons]
    refine Effects.bind_eq_ok.mpr ⟨_, t, Effects.update_eq_ok.mpr ?_, ih h⟩
    rw [if_pos hcwd, if_pos hpresent]

theorem makeNext_name (hname : Name name) (hcwd : cwd ∈ t.dirs)
    (hfree : cwd ++ [name] ∉ t.files.keys) :
    ∃ t', makeNext cwd name t = .ok (cwd ++ [name]) t' ∧ t'.files = t.files ∧
      ∀ p, p ∈ t'.dirs ↔ p ∈ t.dirs ∨ p = cwd ++ [name] := by
  have hnext := normStep_name hname cwd
  by_cases hdir : cwd ++ [name] ∈ t.dirs
  · refine ⟨t, Effects.update_eq_ok.mpr ?_, rfl, fun p => ?_⟩
    · have hpresent : t.Present (cwd ++ [name]) := Or.inl hdir
      rw [if_pos hcwd, hnext, if_pos hpresent]
    · constructor
      · exact Or.inl
      · rintro (hp | rfl)
        · exact hp
        · exact hdir
  · have hmade : (t.mkdir cwd name).files = t.files ∧
        (t.mkdir cwd name).dirs = (cwd ++ [name]) :: t.dirs := by
      rw [mkdir, dif_pos ⟨hcwd, hname, hfree⟩]
      exact ⟨rfl, rfl⟩
    refine ⟨t.mkdir cwd name, Effects.update_eq_ok.mpr ?_, hmade.1, fun p => ?_⟩
    · have habsent : ¬ t.Present (cwd ++ [name]) := not_or.mpr ⟨hdir, hfree⟩
      rw [if_pos hcwd, hnext, if_neg habsent]
    · rw [hmade.2, List.mem_cons, or_comm]

theorem makeNext_names (hnames : ∀ name ∈ names, Name name) (hcwd : cwd ∈ t.dirs)
    (hfree : ∀ pre, pre ≠ [] → pre <+: names → cwd ++ pre ∉ t.files.keys) :
    ∃ t', names.foldlM makeNext cwd t = .ok (cwd ++ names) t' ∧ t'.files = t.files ∧
      ∀ p, p ∈ t'.dirs ↔ p ∈ t.dirs ∨ ∃ pre, pre ≠ [] ∧ pre <+: names ∧ p = cwd ++ pre := by
  induction names generalizing cwd t with
  | nil =>
    refine ⟨t, by simp [pure, EStateM.pure], rfl, fun p => ⟨Or.inl, ?_⟩⟩
    rintro (hp | ⟨pre, hne, hpre, -⟩)
    · exact hp
    · exact absurd (List.prefix_nil.mp hpre) hne
  | cons name rest ih =>
    have hone : cwd ++ [name] ∉ t.files.keys :=
      hfree [name] (List.cons_ne_nil _ _) (by simp)
    obtain ⟨t₁, hstep, hfiles₁, hdirs₁⟩ := makeNext_name (hnames name List.mem_cons_self) hcwd hone
    obtain ⟨t₂, hrest, hfiles₂, hdirs₂⟩ := ih (fun n hn => hnames n (List.mem_cons_of_mem _ hn))
      ((hdirs₁ _).mpr (Or.inr rfl)) (by
        intro pre hne hpre
        rw [hfiles₁, List.append_assoc]
        exact hfree (name :: pre) (List.cons_ne_nil _ _) (List.cons_prefix_cons.mpr ⟨rfl, hpre⟩))
    refine ⟨t₂, ?_, hfiles₂.trans hfiles₁, fun p => ?_⟩
    · rw [List.foldlM_cons, List.append_cons]
      exact Effects.bind_eq_ok.mpr ⟨_, t₁, hstep, hrest⟩
    · rw [hdirs₂, hdirs₁, or_assoc]
      refine or_congr_right ⟨?_, ?_⟩
      · rintro (rfl | ⟨pre, -, hpre, rfl⟩)
        · exact ⟨[name], List.cons_ne_nil _ _, by simp, rfl⟩
        · exact ⟨name :: pre, List.cons_ne_nil _ _, List.cons_prefix_cons.mpr ⟨rfl, hpre⟩, by simp⟩
      · rintro ⟨pre, hne, hpre, rfl⟩
        cases pre with
        | nil => exact absurd rfl hne
        | cons n pre =>
          obtain ⟨rfl, htail⟩ := List.cons_prefix_cons.mp hpre
          cases pre with
          | nil => exact Or.inl rfl
          | cons m pre => exact Or.inr ⟨m :: pre, List.cons_ne_nil _ _, htail, by simp⟩

theorem makedirs_ok {path : String} (hparts : split '/' path = l ++ names)
    (hl : t.follow [] l = some d) (hd : d ∈ t.dirs) (hnames : ∀ name ∈ names, Name name)
    (hfree : ∀ pre, pre ≠ [] → pre <+: names → d ++ pre ∉ t.files.keys) :
    ∃ t', makedirs path t = .ok (d ++ names) t' ∧ t'.files = t.files ∧
      ∀ p, p ∈ t'.dirs ↔ p ∈ t.dirs ∨ ∃ pre, pre ≠ [] ∧ pre <+: names ∧ p = d ++ pre := by
  obtain ⟨t', hmade, hfiles, hdirs⟩ := makeNext_names hnames hd hfree
  refine ⟨t', ?_, hfiles, hdirs⟩
  have hfold : (split '/' path).foldlM makeNext [] t = .ok (d ++ names) t' := by
    rw [hparts, List.foldlM_append]
    exact Effects.bind_eq_ok.mpr ⟨d, t, makeNext_of_follow hl, hmade⟩
  have hlast : d ++ names ∈ t'.dirs := by
    cases names with
    | nil => exact (hdirs _).mpr (Or.inl (by simpa using hd))
    | cons name rest =>
      exact (hdirs _).mpr (Or.inr ⟨_, List.cons_ne_nil _ _, List.prefix_rfl, rfl⟩)
  refine Effects.bind_eq_ok.mpr ⟨_, t', hfold, ?_⟩
  refine Effects.bind_eq_ok.mpr ⟨t', t', rfl, ?_⟩
  rw [if_pos hlast]
  rfl

theorem replace_ok {path : String} (hparts : split '/' path = l ++ [name])
    (hl : t.follow [] l = some d) (hd : d ∈ t.dirs) (hname : Name name)
    (hfree : d ++ [name] ∉ t.dirs) :
    ∃ t', replace path data t = .ok ⟨⟩ t' ∧ t'.dirs = t.dirs ∧
      ∀ p, p ∈ t'.files.keys ↔ p ∈ t.files.keys ∨ p = d ++ [name] := by
  have hwritten : (t.write d name data).dirs = t.dirs ∧
      (t.write d name data).files = t.files.set (d ++ [name], data) := by
    rw [write, dif_pos ⟨hd, hname, hfree⟩]
    exact ⟨rfl, rfl⟩
  refine ⟨t.write d name data, Effects.update_eq_ok.mpr ?_, hwritten.1, fun p => ?_⟩
  · rw [hparts, List.dropLast_concat, hl, List.getLast?_concat]
    simp only [if_pos hd, if_pos (And.intro hname hfree)]
  · rw [hwritten.2]
    exact KeyedDict.mem_keys_set

end Changes

end FileTree

end FileTrees

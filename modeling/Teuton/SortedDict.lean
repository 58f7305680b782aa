import Mathlib.Data.List.Induction
import Mathlib.Data.List.Sort
import Mathlib.Order.Lattice

/-! Dictionaries as entry lists with strictly increasing keys. Lookup and insertion are defined
on plain entry lists; the structure carries the order, so that a dictionary is determined by
what it finds and its key list by which keys it has. -/

structure SortedDict (κ ν : Type) [LinearOrder κ] where
  entries : List (κ × ν)
  sorted : entries.Pairwise fun p q => p.1 < q.1

namespace SortedDict

variable {κ ν : Type} [LinearOrder κ]

def lookup (k : κ) : List (κ × ν) → Option ν
  | [] => none
  | (k', v) :: l => if k = k' then some v else lookup k l

def insertEntry (p : κ × ν) : List (κ × ν) → List (κ × ν)
  | [] => [p]
  | q :: l =>
    if p.1 < q.1 then p :: q :: l
    else if p.1 = q.1 then p :: l
    else q :: insertEntry p l

@[simp] theorem lookup_nil (k : κ) : lookup k ([] : List (κ × ν)) = none := rfl

@[simp] theorem lookup_cons (k k' : κ) (v : ν) (l : List (κ × ν)) :
    lookup k ((k', v) :: l) = if k = k' then some v else lookup k l := rfl

theorem lookup_insertEntry (k : κ) (p : κ × ν) (l : List (κ × ν)) :
    lookup k (insertEntry p l) = if k = p.1 then some p.2 else lookup k l := by
  obtain ⟨k', v⟩ := p
  induction l with
  | nil => simp [insertEntry]
  | cons q l ih =>
    obtain ⟨k'', w⟩ := q
    by_cases h₁ : k' < k''
    · simp [insertEntry, h₁]
    by_cases h₂ : k' = k''
    · subst h₂
      by_cases h : k = k' <;> simp [insertEntry, h]
    · have hi : insertEntry (k', v) ((k'', w) :: l) = (k'', w) :: insertEntry (k', v) l := by
        simp only [insertEntry, if_neg h₁, if_neg h₂]
      rw [hi, lookup_cons, ih, lookup_cons]
      by_cases h : k = k''
      · simp [h, Ne.symm h₂]
      · simp [h]

variable {k : κ} {v : ν} {l : List (κ × ν)} {d : SortedDict κ ν}

theorem mem_insertEntry {p q : κ × ν} (h : q ∈ insertEntry p l) :
    q = p ∨ q ∈ l := by
  induction l with
  | nil => simpa [insertEntry] using h
  | cons r l ih =>
    simp only [insertEntry] at h
    split_ifs at h with h₁ h₂
    · simpa using h
    · rcases List.mem_cons.mp h with h | h
      · exact Or.inl h
      · exact Or.inr (List.mem_cons_of_mem _ h)
    · rcases List.mem_cons.mp h with h | h
      · exact Or.inr (h ▸ List.mem_cons_self)
      · exact (ih h).imp_right (List.mem_cons_of_mem _)

theorem sorted_insertEntry (p : κ × ν)
    (h : l.Pairwise fun p q => p.1 < q.1) :
    (insertEntry p l).Pairwise fun p q => p.1 < q.1 := by
  induction l with
  | nil => simp [insertEntry]
  | cons q l ih =>
    obtain ⟨hq, hl⟩ := List.pairwise_cons.mp h
    simp only [insertEntry]
    split_ifs with h₁ h₂
    · refine List.pairwise_cons.mpr ⟨?_, h⟩
      intro r hr
      rcases List.mem_cons.mp hr with rfl | hr
      · exact h₁
      · exact lt_trans h₁ (hq r hr)
    · exact List.pairwise_cons.mpr ⟨fun r hr => h₂ ▸ hq r hr, hl⟩
    · refine List.pairwise_cons.mpr ⟨?_, ih hl⟩
      intro r hr
      rcases mem_insertEntry hr with rfl | hr
      · exact lt_of_le_of_ne (le_of_not_gt h₁) (Ne.symm h₂)
      · exact hq r hr

def empty : SortedDict κ ν := ⟨[], List.Pairwise.nil⟩

def find? (d : SortedDict κ ν) (k : κ) : Option ν := lookup k d.entries

def insert (d : SortedDict κ ν) (k : κ) (v : ν) : SortedDict κ ν :=
  ⟨insertEntry (k, v) d.entries, sorted_insertEntry (k, v) d.sorted⟩

def keys (d : SortedDict κ ν) : List κ := d.entries.map Prod.fst

def ofEntries (l : List (κ × ν)) : SortedDict κ ν := l.foldl (fun d p => d.insert p.1 p.2) empty

@[simp] theorem find?_insert (d : SortedDict κ ν) (k j : κ) (v : ν) :
    (d.insert k v).find? j = if j = k then some v else d.find? j :=
  lookup_insertEntry j (k, v) d.entries

theorem mem_keys_of_lookup :
    k ∈ l.map Prod.fst ↔ lookup k l ≠ none := by
  induction l with
  | nil => simp
  | cons p l ih =>
    obtain ⟨k', v⟩ := p
    by_cases h : k = k'
    · simp [h]
    · rw [List.map_cons, List.mem_cons, lookup_cons, if_neg h, ih]
      simp [h]

theorem mem_keys : k ∈ d.keys ↔ d.find? k ≠ none :=
  mem_keys_of_lookup

theorem mem_of_lookup (h : lookup k l = some v) :
    (k, v) ∈ l := by
  induction l with
  | nil => cases h
  | cons p l ih =>
    obtain ⟨k', v'⟩ := p
    rw [lookup_cons] at h
    split_ifs at h with hk
    · cases h
      exact hk ▸ List.mem_cons_self
    · exact List.mem_cons_of_mem _ (ih h)

theorem mem_of_find? (h : d.find? k = some v) :
    (k, v) ∈ d.entries :=
  mem_of_lookup h

theorem lookup_of_mem
    (hl : l.Pairwise fun p q => p.1 < q.1) (h : (k, v) ∈ l) : lookup k l = some v := by
  induction l with
  | nil => cases h
  | cons p l ih =>
    obtain ⟨k', v'⟩ := p
    obtain ⟨hfirst, hl⟩ := List.pairwise_cons.mp hl
    rw [lookup_cons]
    rcases List.mem_cons.mp h with heq | hrest
    · cases heq
      exact if_pos rfl
    · rw [if_neg (hfirst (k, v) hrest).ne']
      exact ih hl hrest

theorem ext_find? {e : SortedDict κ ν} (h : ∀ k, d.find? k = e.find? k) : d = e := by
  have hmem : ∀ p, p ∈ d.entries ↔ p ∈ e.entries := by
    rintro ⟨k, v⟩
    constructor
    · intro hd
      exact mem_of_find? ((h k).symm.trans (lookup_of_mem d.sorted hd))
    · intro he
      exact mem_of_find? ((h k).trans (lookup_of_mem e.sorted he))
  have hnodup : ∀ d : SortedDict κ ν, d.entries.Nodup := fun d =>
    d.sorted.imp fun hlt heq => hlt.ne (congrArg Prod.fst heq)
  have hperm : d.entries.Perm e.entries :=
    (List.perm_ext_iff_of_nodup (hnodup d) (hnodup e)).mpr hmem
  have hentries : d.entries = e.entries :=
    hperm.eq_of_pairwise (fun p q _ _ hpq hqp => absurd hpq hqp.asymm) d.sorted e.sorted
  obtain ⟨_, _⟩ := d
  obtain ⟨_, _⟩ := e
  cases hentries
  rfl

def erase (d : SortedDict κ ν) (k : κ) : SortedDict κ ν :=
  ⟨d.entries.filter (·.1 ≠ k), d.sorted.filter _⟩

theorem lookup_filter_ne (k j : κ) (l : List (κ × ν)) :
    lookup j (l.filter (·.1 ≠ k)) = if j = k then none else lookup j l := by
  induction l with
  | nil => simp
  | cons p l ih =>
    obtain ⟨k', v⟩ := p
    by_cases hk : k' = k
    · rw [List.filter_cons_of_neg (by simpa using hk), ih, lookup_cons, hk]
      by_cases hj : j = k <;> simp [hj]
    · rw [List.filter_cons_of_pos (by simpa using hk), lookup_cons, ih, lookup_cons]
      by_cases hj : j = k'
      · simp [hk, hj]
      · simp [hj]

@[simp] theorem find?_erase (d : SortedDict κ ν) (k j : κ) :
    (d.erase k).find? j = if j = k then none else d.find? j :=
  lookup_filter_ne k j d.entries

theorem find?_ofEntries (l : List (κ × ν)) (k : κ) :
    (ofEntries l).find? k = (l.reverse.find? (·.1 = k)).map Prod.snd := by
  induction l using List.reverseRecOn with
  | nil => rfl
  | append_singleton l p ih =>
    rw [ofEntries, List.foldl_append, List.foldl_cons, List.foldl_nil, find?_insert,
      List.reverse_append, List.reverse_singleton, List.singleton_append, List.find?_cons]
    by_cases h : k = p.1
    · simp [h]
    · rw [if_neg h]
      have hne : decide (p.1 = k) = false := by simpa using Ne.symm h
      rw [hne]
      exact ih

theorem find?_ofEntries_of_mem (hnodup : (l.map Prod.fst).Nodup)
    (h : (k, v) ∈ l) : (ofEntries l).find? k = some v := by
  rw [find?_ofEntries]
  have hsome : (l.reverse.find? (·.1 = k)).isSome = true :=
    List.find?_isSome.mpr ⟨(k, v), List.mem_reverse.mpr h, by simp⟩
  obtain ⟨p, hp⟩ := Option.isSome_iff_exists.mp hsome
  have hk : p.1 = (k, v).1 := by simpa using List.find?_some hp
  have hmem : p ∈ l := List.mem_reverse.mp (List.mem_of_find?_eq_some hp)
  rw [hp, List.inj_on_of_nodup_map hnodup hmem h hk]
  rfl

theorem keys_sorted (d : SortedDict κ ν) : d.keys.Pairwise (· < ·) :=
  List.pairwise_map.mpr d.sorted

theorem filter_keys_congr {e : SortedDict κ ν} {test : κ → Bool}
    (h : ∀ k, test k = true → (d.find? k = none ↔ e.find? k = none)) :
    d.keys.filter test = e.keys.filter test := by
  have hd : (d.keys.filter test).Pairwise (· < ·) := d.keys_sorted.filter _
  have he : (e.keys.filter test).Pairwise (· < ·) := e.keys_sorted.filter _
  have hmem : ∀ k, k ∈ d.keys.filter test ↔ k ∈ e.keys.filter test := by
    intro k
    rw [List.mem_filter, List.mem_filter, mem_keys, mem_keys]
    constructor
    · rintro ⟨hk, ht⟩
      exact ⟨fun hn => hk ((h k ht).mpr hn), ht⟩
    · rintro ⟨hk, ht⟩
      exact ⟨fun hn => hk ((h k ht).mp hn), ht⟩
  have hperm := (List.perm_ext_iff_of_nodup (hd.imp ne_of_lt) (he.imp ne_of_lt)).mpr hmem
  exact hperm.eq_of_pairwise (fun a b _ _ hab hba => absurd hab hba.asymm) hd he

end SortedDict

import Mathlib.Algebra.BigOperators.Group.List.Basic
import Mathlib.Data.List.Nodup
import Mathlib.Tactic.Abel

/-! Insertion-ordered dictionaries whose values determine their keys. Assignment to a present
key replaces the value in place, assignment to a new key appends, and the key list is
duplicate-free by construction. -/

structure KeyedDict {κ ν : Type} (key : ν → κ) where
  vals : List ν
  nodup : (vals.map key).Nodup

namespace KeyedDict

variable {κ ν : Type} {key : ν → κ}

def keys (d : KeyedDict key) : List κ := d.vals.map key

def empty : KeyedDict key := ⟨[], List.nodup_nil⟩

def filter (test : ν → Bool) (d : KeyedDict key) : KeyedDict key :=
  ⟨d.vals.filter test, d.nodup.sublist (List.filter_sublist.map key)⟩

def mapVals (f : ν → ν) (hf : ∀ v, key (f v) = key v) (d : KeyedDict key) : KeyedDict key :=
  ⟨d.vals.map f, by
    rw [List.map_map, show key ∘ f = key from funext hf]
    exact d.nodup⟩

variable {k : κ} {u v : ν} {M : Type} {l : List ν} {d : KeyedDict key}

theorem ext_vals {e : KeyedDict key} (h : d.vals = e.vals) : d = e := by
  cases d
  cases e
  cases h
  rfl

@[simp] theorem keys_empty : (empty : KeyedDict key).keys = [] := rfl

theorem mem_keys_filter {test : ν → Bool} :
    k ∈ (d.filter test).keys ↔ ∃ v ∈ d.vals, test v = true ∧ key v = k := by
  simp [keys, filter, and_assoc]

theorem eq_of_key_eq (hu : u ∈ d.vals) (hv : v ∈ d.vals)
    (h : key u = key v) : u = v :=
  List.inj_on_of_nodup_map d.nodup hu hv h

variable [DecidableEq κ]

def upsert (key : ν → κ) (v : ν) : List ν → List ν
  | [] => [v]
  | u :: l => if key u = key v then v :: l else u :: upsert key v l

theorem map_upsert (v : ν) (l : List ν) :
    (upsert key v l).map key =
      if key v ∈ l.map key then l.map key else l.map key ++ [key v] := by
  induction l with
  | nil => simp [upsert]
  | cons u l ih =>
    by_cases h : key u = key v
    · simp [upsert, h]
    · have h' : key v ≠ key u := Ne.symm h
      rw [upsert, if_neg h, List.map_cons, ih]
      by_cases hm : key v ∈ l.map key <;> simp [hm, h']

theorem mem_upsert (h : u ∈ upsert key v l) : u = v ∨ u ∈ l := by
  induction l with
  | nil => simpa [upsert] using h
  | cons w l ih =>
    rw [upsert] at h
    split_ifs at h
    · rcases List.mem_cons.mp h with h | h
      · exact Or.inl h
      · exact Or.inr (List.mem_cons_of_mem w h)
    · rcases List.mem_cons.mp h with h | h
      · exact Or.inr (h ▸ List.mem_cons_self)
      · exact (ih h).imp_right (List.mem_cons_of_mem w)

theorem upsert_of_not_mem (h : key v ∉ l.map key) :
    upsert key v l = l ++ [v] := by
  induction l with
  | nil => rfl
  | cons u l ih =>
    rw [List.map_cons, List.mem_cons, not_or] at h
    rw [upsert, if_neg (Ne.symm h.1), ih h.2]
    rfl

def set (d : KeyedDict key) (v : ν) : KeyedDict key :=
  ⟨upsert key v d.vals, by
    rw [map_upsert]
    split_ifs with h
    · exact d.nodup
    · rw [List.nodup_append]
      refine ⟨d.nodup, List.nodup_singleton _, ?_⟩
      intro a ha b hb hab
      rw [List.mem_singleton] at hb
      exact h (hb ▸ hab ▸ ha)⟩

def setDefault (d : KeyedDict key) (v : ν) : KeyedDict key :=
  if key v ∈ d.keys then d else d.set v

def erase (d : KeyedDict key) (k : κ) : KeyedDict key := d.filter fun v => key v ≠ k

def get? (d : KeyedDict key) (k : κ) : Option ν := d.vals.find? fun v => key v = k

def ofList (l : List ν) : KeyedDict key := l.foldl set empty

def setDefaults (d : KeyedDict key) (l : List ν) : KeyedDict key := l.foldl setDefault d

def eraseAll (d : KeyedDict key) (ks : List κ) : KeyedDict key := ks.foldl erase d

@[simp] theorem mem_keys_set :
    k ∈ (d.set v).keys ↔ k ∈ d.keys ∨ k = key v := by
  change k ∈ (upsert key v d.vals).map key ↔ _
  rw [map_upsert]
  by_cases h : key v ∈ d.vals.map key
  · rw [if_pos h]
    constructor
    · exact Or.inl
    · rintro (hk | rfl)
      · exact hk
      · exact h
  · rw [if_neg h, List.mem_append, List.mem_singleton]
    rfl

@[simp] theorem mem_keys_setDefault :
    k ∈ (d.setDefault v).keys ↔ k ∈ d.keys ∨ k = key v := by
  by_cases h : key v ∈ d.keys
  · rw [setDefault, if_pos h]
    constructor
    · exact Or.inl
    · rintro (hk | rfl)
      · exact hk
      · exact h
  · rw [setDefault, if_neg h, mem_keys_set]

@[simp] theorem mem_keys_erase {j : κ} :
    k ∈ (d.erase j).keys ↔ k ∈ d.keys ∧ k ≠ j := by
  rw [erase, mem_keys_filter, keys, List.mem_map]
  simp only [decide_eq_true_eq]
  constructor
  · rintro ⟨v, hv, hj, rfl⟩
    exact ⟨⟨v, hv, rfl⟩, hj⟩
  · rintro ⟨⟨v, hv, rfl⟩, hj⟩
    exact ⟨v, hv, hj, rfl⟩

theorem erase_of_not_mem (h : k ∉ d.keys) : d.erase k = d := by
  apply ext_vals
  apply List.filter_eq_self.mpr
  intro v hv
  have hne : key v ≠ k := by
    intro hk
    exact h (hk ▸ List.mem_map_of_mem hv)
  simpa using hne

theorem mem_keys_setDefaults :
    k ∈ (d.setDefaults l).keys ↔ k ∈ d.keys ∨ k ∈ l.map key := by
  induction l generalizing d with
  | nil => simp [setDefaults]
  | cons v l ih =>
    have h : (d.setDefaults (v :: l)) = (d.setDefault v).setDefaults l := rfl
    rw [h, ih, mem_keys_setDefault, List.map_cons, List.mem_cons, or_assoc]

theorem mem_vals_setDefaults (h : u ∈ (d.setDefaults l).vals) : u ∈ d.vals ∨ u ∈ l := by
  induction l generalizing d with
  | nil => exact Or.inl h
  | cons v l ih =>
    rcases ih h with hu | hu
    · unfold setDefault at hu
      split_ifs at hu
      · exact Or.inl hu
      · rcases mem_upsert hu with rfl | hu
        · exact Or.inr List.mem_cons_self
        · exact Or.inl hu
    · exact Or.inr (List.mem_cons_of_mem v hu)

theorem mem_keys_eraseAll {ks : List κ} :
    k ∈ (d.eraseAll ks).keys ↔ k ∈ d.keys ∧ k ∉ ks := by
  induction ks generalizing d with
  | nil => simp [eraseAll]
  | cons j ks ih =>
    have h : d.eraseAll (j :: ks) = (d.erase j).eraseAll ks := rfl
    rw [h, ih, mem_keys_erase, List.mem_cons, not_or, and_assoc]

theorem eraseAll_of_disjoint {ks : List κ} (h : ∀ k ∈ ks, k ∉ d.keys) :
    d.eraseAll ks = d := by
  induction ks with
  | nil => rfl
  | cons k ks ih =>
    have hstep : d.eraseAll (k :: ks) = (d.erase k).eraseAll ks := rfl
    rw [hstep, erase_of_not_mem (h k List.mem_cons_self)]
    exact ih fun j hj => h j (List.mem_cons_of_mem k hj)

theorem mem_keys_foldl_set :
    k ∈ (l.foldl set d).keys ↔ k ∈ d.keys ∨ k ∈ l.map key := by
  induction l generalizing d with
  | nil => simp
  | cons v l ih => rw [List.foldl_cons, ih, mem_keys_set, List.map_cons, List.mem_cons, or_assoc]

theorem mem_keys_ofList :
    k ∈ (ofList l : KeyedDict key).keys ↔ k ∈ l.map key := by
  rw [ofList, mem_keys_foldl_set]
  simp

theorem vals_foldl_set (h : ((d.vals ++ l).map key).Nodup) :
    (l.foldl set d).vals = d.vals ++ l := by
  induction l generalizing d with
  | nil => simp
  | cons v l ih =>
    have hv : key v ∉ d.vals.map key := by
      intro hm
      rw [List.map_append, List.nodup_append] at h
      exact h.2.2 _ hm _ (List.mem_map_of_mem List.mem_cons_self) rfl
    have hs : (d.set v).vals = d.vals ++ [v] := upsert_of_not_mem hv
    rw [List.foldl_cons, ih, hs]
    · simp
    · rw [hs]
      simpa using h

theorem vals_ofList (h : (l.map key).Nodup) :
    (ofList l : KeyedDict key).vals = l := by
  exact vals_foldl_set (d := (empty : KeyedDict key)) h

@[simp] theorem ofList_vals (d : KeyedDict key) : ofList d.vals = d :=
  ext_vals (vals_ofList d.nodup)

theorem get?_eq_some :
    d.get? k = some v ↔ v ∈ d.vals ∧ key v = k := by
  constructor
  · intro h
    exact ⟨List.mem_of_find?_eq_some h, by simpa using List.find?_some h⟩
  · rintro ⟨hv, rfl⟩
    cases hu : d.get? (key v) with
    | none =>
      have hnone := List.find?_eq_none.mp hu v hv
      simp at hnone
    | some u =>
      have hu' : u ∈ d.vals := List.mem_of_find?_eq_some hu
      have hkey : key u = key v := by simpa using List.find?_some hu
      rw [eq_of_key_eq hu' hv hkey]

theorem isSome_get? : (d.get? k).isSome ↔ k ∈ d.keys := by
  rw [get?, List.find?_isSome, keys, List.mem_map]
  simp

theorem find?_upsert (v : ν) (k : κ) (l : List ν) :
    (upsert key v l).find? (fun u => key u = k) =
      if key v = k then some v else l.find? fun u => key u = k := by
  induction l with
  | nil =>
    by_cases h : key v = k <;> simp [upsert, h]
  | cons u l ih =>
    by_cases hu : key u = key v
    · by_cases h : key v = k <;> simp [upsert, hu, h]
    · rw [upsert, if_neg hu, List.find?_cons, List.find?_cons, ih]
      by_cases h : key v = k
      · have hk : key u ≠ k := h ▸ hu
        simp [h, hk]
      · simp [h]

theorem sum_upsert [AddCommGroup M] (f : ν → M) (v : ν) (l : List ν) :
    ((upsert key v l).map f).sum =
      (l.map f).sum + f v - ((l.find? fun u => key u = key v).map f).getD 0 := by
  induction l with
  | nil => simp [upsert]
  | cons u l ih =>
    by_cases h : key u = key v
    · simp only [upsert, h, if_true, List.map_cons, List.sum_cons, List.find?_cons, decide_true,
        Option.map_some, Option.getD_some]
      abel
    · simp only [upsert, h, if_false, List.map_cons, List.sum_cons, List.find?_cons, decide_false,
        ih]
      abel

theorem sum_set [AddCommGroup M] (f : ν → M) (d : KeyedDict key) (v : ν) :
    ((d.set v).vals.map f).sum =
      (d.vals.map f).sum + f v - ((d.get? (key v)).map f).getD 0 :=
  sum_upsert f v d.vals

theorem keys_erase (d : KeyedDict key) (k : κ) : (d.erase k).keys = d.keys.erase k := by
  rw [show d.keys.erase k = _ from List.Nodup.erase_eq_filter d.nodup k, keys, List.filter_map]
  congr 1
  apply List.filter_congr
  intro v _
  by_cases h : key v = k <;> simp [h]

theorem sum_erase [AddCommGroup M] (f : ν → M) (d : KeyedDict key) (k : κ) :
    ((d.erase k).vals.map f).sum = (d.vals.map f).sum - ((d.get? k).map f).getD 0 := by
  have hsum : ∀ l : List ν, (l.map key).Nodup → ((l.filter fun v => key v ≠ k).map f).sum =
      (l.map f).sum - ((l.find? fun v => key v = k).map f).getD 0 := by
    intro l hl
    induction l with
    | nil => simp
    | cons v l ih =>
      obtain ⟨hv, hl⟩ := List.nodup_cons.mp hl
      by_cases h : key v = k
      · have hrest : l.filter (fun u => key u ≠ k) = l := by
          apply List.filter_eq_self.mpr
          intro u hu
          simpa using fun hk : key u = k => hv (h ▸ hk ▸ List.mem_map_of_mem hu)
        rw [List.filter_cons_of_neg (by simp [h]), hrest]
        simp [h]
      · rw [List.filter_cons_of_pos (by simpa using h), List.map_cons, List.sum_cons, ih hl]
        simp [h, add_sub_assoc]
  exact hsum d.vals d.nodup

theorem countP_upsert_le (test : ν → Bool) (v : ν) (l : List ν) :
    (upsert key v l).countP test ≤ l.countP test + if test v then 1 else 0 := by
  induction l with
  | nil => simp [upsert, List.countP_cons]
  | cons u l ih =>
    rw [upsert]
    split_ifs with hkey htest htest
    · simp only [List.countP_cons, htest, if_true]
      omega
    · simp only [List.countP_cons, htest, Bool.false_eq_true, if_false]
      omega
    · rw [if_pos htest] at ih
      simp only [List.countP_cons]
      omega
    · rw [if_neg htest] at ih
      simp only [List.countP_cons]
      omega

theorem countP_set_le (d : KeyedDict key) (test : ν → Bool) (v : ν) :
    (d.set v).vals.countP test ≤ d.vals.countP test + if test v then 1 else 0 :=
  countP_upsert_le test v d.vals

theorem vals_eraseAll_sublist (d : KeyedDict key) (ks : List κ) :
    (d.eraseAll ks).vals.Sublist d.vals := by
  induction ks generalizing d with
  | nil => exact List.Sublist.refl _
  | cons k ks ih => exact (ih (d.erase k)).trans List.filter_sublist

theorem vals_eraseAll (d : KeyedDict key) (ks : List κ) :
    (d.eraseAll ks).vals = d.vals.filter fun v => key v ∉ ks := by
  induction ks generalizing d with
  | nil => simp [eraseAll]
  | cons k ks ih =>
    have hstep : d.eraseAll (k :: ks) = (d.erase k).eraseAll ks := rfl
    rw [hstep, ih, erase, filter, List.filter_filter]
    apply List.filter_congr
    intro v _
    by_cases hk : key v = k
    · simp [hk]
    · simp [hk]

@[simp] theorem get?_empty (k : κ) : (empty : KeyedDict key).get? k = none := rfl

@[simp] theorem get?_set (d : KeyedDict key) (v : ν) (k : κ) :
    (d.set v).get? k = if key v = k then some v else d.get? k :=
  find?_upsert v k d.vals

theorem get?_erase (d : KeyedDict key) (k u : κ) :
    (d.erase k).get? u = if k = u then none else d.get? u := by
  unfold get? erase filter
  rw [List.find?_filter]
  by_cases h : k = u
  · subst h
    rw [if_pos rfl, List.find?_eq_none]
    intro v _
    simp
  · rw [if_neg h]
    congr
    funext v
    by_cases hv : key v = u
    · simp [hv, Ne.symm h]
    · simp [hv]

theorem get?_mapVals {f : ν → ν} (hf : ∀ v, key (f v) = key v) (d : KeyedDict key) (k : κ) :
    (d.mapVals f hf).get? k = (d.get? k).map f := by
  unfold get? mapVals
  rw [List.find?_map]
  congr
  funext v
  simp [hf]

/-- The last value of a list with the given key, which is the one a dictionary filled from the
list holds. -/
def latest (key : ν → κ) (k : κ) (l : List ν) : Option ν := l.reverse.find? fun v => key v = k

theorem get?_foldl_set (d : KeyedDict key) (l : List ν) (k : κ) :
    (l.foldl set d).get? k = (latest key k l).or (d.get? k) := by
  induction l generalizing d with
  | nil => simp [latest]
  | cons v l ih =>
    rw [List.foldl_cons, ih, get?_set, latest, latest, List.reverse_cons, List.find?_append]
    by_cases h : key v = k <;> simp [h]

theorem get?_ofList (l : List ν) (k : κ) :
    (ofList l : KeyedDict key).get? k = latest key k l := by
  rw [ofList, get?_foldl_set, get?_empty, Option.or_none]

theorem mem_of_latest (h : latest key k l = some v) :
    v ∈ l ∧ key v = k :=
  ⟨List.mem_reverse.mp (List.mem_of_find?_eq_some h), by simpa using List.find?_some h⟩

theorem mem_of_mem_ofList (h : v ∈ (ofList l : KeyedDict key).vals) :
    v ∈ l := by
  have hget : (ofList l : KeyedDict key).get? (key v) = some v := get?_eq_some.mpr ⟨h, rfl⟩
  rw [get?_ofList] at hget
  exact (mem_of_latest hget).1

theorem latest_filterMap_filter {α : Type} (f : α → Option ν) (test : α → Bool) {l : List α}
    (h : ∀ a ∈ l, test a = false → ∀ v, f a = some v → key v ≠ k) :
    latest key k (l.filterMap f) = latest key k ((l.filter test).filterMap f) := by
  have hfind : ∀ m : List α, (∀ a ∈ m, a ∈ l) →
      (m.filterMap f).find? (fun v => key v = k) =
        ((m.filter test).filterMap f).find? fun v => key v = k := by
    intro m hm
    induction m with
    | nil => rfl
    | cons a m ih =>
      obtain ⟨ha, hm⟩ := List.forall_mem_cons.mp hm
      cases ht : test a with
      | true =>
        rw [List.filter_cons_of_pos ht]
        cases hf : f a with
        | none => rw [List.filterMap_cons_none hf, List.filterMap_cons_none hf, ih hm]
        | some v =>
          rw [List.filterMap_cons_some hf, List.filterMap_cons_some hf, List.find?_cons,
            List.find?_cons, ih hm]
      | false =>
        rw [List.filter_cons_of_neg (by simp [ht])]
        cases hf : f a with
        | none => rw [List.filterMap_cons_none hf, ih hm]
        | some v =>
          have hne : key v ≠ k := h a ha ht v hf
          rw [List.filterMap_cons_some hf, List.find?_cons_of_neg (by simpa using hne), ih hm]
  unfold latest
  rw [← List.filterMap_reverse, ← List.filterMap_reverse, ← List.filter_reverse]
  exact hfind l.reverse fun a ha => List.mem_reverse.mp ha

theorem filter_upsert (test : κ → Bool) (v : ν) (l : List ν) :
    (upsert key v l).filter (fun u => test (key u)) =
      if test (key v) = true then upsert key v (l.filter fun u => test (key u))
      else l.filter fun u => test (key u) := by
  induction l with
  | nil => cases h : test (key v) <;> simp [upsert, h]
  | cons u l ih =>
    by_cases huv : key u = key v
    · cases h : test (key v) <;> simp [upsert, huv, h]
    · rw [upsert, if_neg huv]
      cases hu : test (key u) with
      | true =>
        simp only [List.filter_cons, hu, if_true, ih, upsert, if_neg huv]
        split_ifs <;> rfl
      | false =>
        simp only [List.filter_cons, hu, Bool.false_eq_true, if_false, ih]

theorem filter_vals_ofList (test : κ → Bool) (l : List ν) :
    (ofList l : KeyedDict key).vals.filter (fun v => test (key v)) =
      (ofList (l.filter fun v => test (key v)) : KeyedDict key).vals := by
  have hfold : ∀ (m : List ν) (d e : KeyedDict key),
      d.vals.filter (fun v => test (key v)) = e.vals →
      (m.foldl set d).vals.filter (fun v => test (key v)) =
        ((m.filter fun v => test (key v)).foldl set e).vals := by
    intro m
    induction m with
    | nil => exact fun d e h => h
    | cons v m ih =>
      intro d e h
      have hset : (d.set v).vals.filter (fun v => test (key v)) =
          if test (key v) = true then (e.set v).vals else e.vals := by
        change (upsert key v d.vals).filter _ = if _ then upsert key v e.vals else e.vals
        rw [filter_upsert, h]
      cases hv : test (key v) with
      | true =>
        rw [hv, if_pos rfl] at hset
        rw [List.filter_cons, hv, if_pos rfl]
        exact ih (d.set v) (e.set v) hset
      | false =>
        rw [hv, if_neg Bool.false_ne_true] at hset
        rw [List.filter_cons, hv, if_neg Bool.false_ne_true]
        exact ih (d.set v) e hset
  exact hfold l empty empty rfl

end KeyedDict

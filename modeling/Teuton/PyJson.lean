import Mathlib.Data.Rat.Floor
import Teuton.PyText
import Teuton.SortedDict

/-! JSON values as Python programs see them after `json.loads`.
Integers and floats are different values; floats are exact rationals or one of the three
special values, so rounding is not represented. An object is a field list. The canonical
form has strictly increasing keys, which is what `sort_keys=True` keeps of a dictionary.
Reads follow the `d["k"]` and `d.get("k", default)` protocol and raise where Python does. -/
namespace PyJson

open PyText SortedDict

inductive PyErr where
  | keyError (key : String)
  | typeError
  | attributeError
  | indexError
  | overflowError
  | zeroDivisionError
  | valueError (message : String)
  | runtimeError (message : String)
  | fileNotFoundError (uri : String)
  | preconditionFailed (message : String)
  | timelockPending (message : String)
  | stopIteration
  | timeoutError (message : String)
  | assertionError (message : String)
  deriving DecidableEq, Repr

inductive PyFloat where
  | finite (q : ℚ)
  | nan
  | inf (negative : Bool)
  deriving DecidableEq, Repr

inductive Json where
  | null
  | bool (b : Bool)
  | int (n : ℤ)
  | float (x : PyFloat)
  | str (s : String)
  | arr (items : List Json)
  | obj (fields : List (String × Json))

abbrev Fields := List (String × Json)

def Json.truthy : Json → Bool
  | .null => false
  | .bool b => b
  | .int n => n ≠ 0
  | .float x => x ≠ .finite 0
  | .str s => s ≠ ""
  | .arr items => !items.isEmpty
  | .obj fields => !fields.isEmpty

def field? (k : String) (l : Fields) : Option Json := lookup k l

@[simp] theorem field?_nil (k : String) : field? k [] = none := rfl

@[simp] theorem field?_cons (k k' : String) (v : Json) (l : Fields) :
    field? k ((k', v) :: l) = if k = k' then some v else field? k l := rfl

/-- The canonical object with the given fields; a dictionary literal repeats no key. -/
def mkFields (l : Fields) : Fields := l.foldr insertEntry []

def mkObj (l : Fields) : Json := .obj (mkFields l)

@[simp] theorem field?_mkFields (k : String) (l : Fields) :
    field? k (mkFields l) = field? k l := by
  induction l with
  | nil => rfl
  | cons p l ih =>
    change lookup k (insertEntry p (mkFields l)) = _
    rw [lookup_insertEntry]
    change (if k = p.1 then some p.2 else field? k (mkFields l)) = _
    rw [ih]
    rfl

/-- An optional entry, present exactly when the record's field is not `None`. -/
def optField (k : String) : Option Json → Fields
  | none => []
  | some v => [(k, v)]

@[simp] theorem field?_optField (k k' : String) (v : Option Json) :
    field? k (optField k' v) = if k = k' then v else none := by
  cases v <;> simp [optField]

@[simp] theorem field?_optField_append (k k' : String) (v : Option Json) (l : Fields) :
    field? k (optField k' v ++ l) = if k = k' then v.or (field? k l) else field? k l := by
  cases v <;> simp [optField]

def Sorted (l : Fields) : Prop := l.Pairwise (fun p q => p.1 < q.1)

theorem sorted_mkFields (l : Fields) : Sorted (mkFields l) := by
  induction l with
  | nil => exact List.Pairwise.nil
  | cons p l ih => exact sorted_insertEntry p ih

theorem mem_mkFields {q : String × Json} {l : Fields} (h : q ∈ mkFields l) : q ∈ l := by
  induction l with
  | nil => exact h
  | cons p l ih =>
    rcases mem_insertEntry (p := p) (l := mkFields l) h with h | h
    · exact h ▸ List.mem_cons_self
    · exact List.mem_cons_of_mem _ (ih h)

/-- Every object inside the value lists its keys in strictly increasing order. -/
inductive Canonical : Json → Prop where
  | null : Canonical .null
  | bool (b) : Canonical (.bool b)
  | int (n) : Canonical (.int n)
  | float (x) : Canonical (.float x)
  | str (s) : Canonical (.str s)
  | arr {items} : (∀ v ∈ items, Canonical v) → Canonical (.arr items)
  | obj {fields} : Sorted fields → (∀ p ∈ fields, Canonical p.2) → Canonical (.obj fields)

attribute [simp] Canonical.null Canonical.bool Canonical.int Canonical.float Canonical.str

@[simp] theorem canonical_arr_iff {items : List Json} :
    Canonical (.arr items) ↔ ∀ v ∈ items, Canonical v := by
  constructor
  · intro h
    cases h with
    | arr h => exact h
  · exact Canonical.arr

theorem canonical_obj_iff {fields : Fields} :
    Canonical (.obj fields) ↔ Sorted fields ∧ ∀ p ∈ fields, Canonical p.2 := by
  constructor
  · intro h
    cases h with
    | obj hs hv => exact ⟨hs, hv⟩
  · rintro ⟨hs, hv⟩
    exact .obj hs hv

instance : DecidablePred Sorted :=
  fun l => inferInstanceAs (Decidable (l.Pairwise fun p q => p.1 < q.1))

mutual

def Json.isCanonical : Json → Bool
  | .arr items => listCanonical items
  | .obj fields => decide (Sorted fields) && fieldsCanonical fields
  | _ => true

def listCanonical : List Json → Bool
  | [] => true
  | v :: l => v.isCanonical && listCanonical l

def fieldsCanonical : List (String × Json) → Bool
  | [] => true
  | (_, v) :: l => v.isCanonical && fieldsCanonical l

end

mutual

theorem isCanonical_iff : (j : Json) → (j.isCanonical = true ↔ Canonical j)
  | .null => by simp [Json.isCanonical]
  | .bool b => by simp [Json.isCanonical]
  | .int n => by simp [Json.isCanonical]
  | .float x => by simp [Json.isCanonical]
  | .str s => by simp [Json.isCanonical]
  | .arr items => by
    rw [Json.isCanonical, listCanonical_iff items, canonical_arr_iff]
  | .obj fields => by
    rw [Json.isCanonical, Bool.and_eq_true, decide_eq_true_iff, fieldsCanonical_iff fields,
      canonical_obj_iff]

theorem listCanonical_iff : (l : List Json) → (listCanonical l = true ↔ ∀ v ∈ l, Canonical v)
  | [] => by simp [listCanonical]
  | v :: l => by
    rw [listCanonical, Bool.and_eq_true, isCanonical_iff v, listCanonical_iff l,
      List.forall_mem_cons]

theorem fieldsCanonical_iff : (l : List (String × Json)) →
    (fieldsCanonical l = true ↔ ∀ p ∈ l, Canonical p.2)
  | [] => by simp [fieldsCanonical]
  | (k, v) :: l => by
    rw [fieldsCanonical, Bool.and_eq_true, isCanonical_iff v, fieldsCanonical_iff l,
      List.forall_mem_cons]

end

def CanonicalFields (l : Fields) : Prop := ∀ p ∈ l, Canonical p.2

@[simp] theorem canonicalFields_nil : CanonicalFields [] := by
  simp [CanonicalFields]

@[simp] theorem canonicalFields_cons (k : String) (v : Json) (l : Fields) :
    CanonicalFields ((k, v) :: l) ↔ Canonical v ∧ CanonicalFields l := by
  simp [CanonicalFields]

@[simp] theorem canonicalFields_append (l m : Fields) :
    CanonicalFields (l ++ m) ↔ CanonicalFields l ∧ CanonicalFields m := by
  simp only [CanonicalFields, List.mem_append]
  constructor
  · intro h
    exact ⟨fun p hp => h p (Or.inl hp), fun p hp => h p (Or.inr hp)⟩
  · rintro ⟨hl, hm⟩ p (hp | hp)
    · exact hl p hp
    · exact hm p hp

@[simp] theorem canonicalFields_optField (k : String) (v : Option Json) :
    CanonicalFields (optField k v) ↔ ∀ j, v = some j → Canonical j := by
  cases v <;> simp [optField]

theorem canonical_mkObj {l : Fields} (h : CanonicalFields l) : Canonical (mkObj l) :=
  .obj (sorted_mkFields l) fun p hp => h p (mem_mkFields hp)

abbrev Py := Except PyErr

@[simp] theorem ok_bind {α β : Type} (a : α) (f : α → Py β) :
    ((.ok a : Py α) >>= f) = f a := rfl

@[simp] theorem error_bind {α β : Type} (e : PyErr) (f : α → Py β) :
    ((.error e : Py α) >>= f) = .error e := rfl

def Json.getItem (d : Json) (k : String) : Py Json :=
  match d with
  | .obj fields =>
    match field? k fields with
    | some v => .ok v
    | none => .error (.keyError k)
  | _ => .error .typeError

def Json.get (d : Json) (k : String) (default : Json := .null) : Py Json :=
  match d with
  | .obj fields => .ok ((field? k fields).getD default)
  | _ => .error .attributeError

/-- Truncation toward zero, as `int` does on a finite float. -/
def truncate (q : ℚ) : ℤ := if 0 ≤ q then ⌊q⌋ else ⌈q⌉

def Json.toInt : Json → Py ℤ
  | .int n => .ok n
  | .bool b => .ok (if b then 1 else 0)
  | .float (.finite q) => .ok (truncate q)
  | .float .nan => .error (.valueError "cannot convert float NaN to integer")
  | .float (.inf _) => .error .overflowError
  | .str s =>
    match intOfStr s with
    | some n => .ok n
    | none => .error (.valueError "invalid literal for int() with base 10")
  | _ => .error .typeError

/-- The unsigned decimal part of `float(s)`: digits, optional fraction. -/
def decimalOfStr (l : List Char) : Option ℚ :=
  let whole := l.takeWhile (· ≠ '.')
  match l.dropWhile (· ≠ '.') with
  | [] => (pyDigits whole).map fun ds => (digitsToNat ds : ℚ)
  | _ :: frac =>
    if whole.isEmpty && frac.isEmpty then none
    else do
      let w ← if whole.isEmpty then some [] else pyDigits whole
      let f ← if frac.isEmpty then some [] else pyDigits frac
      return (digitsToNat w : ℚ) + (digitsToNat f : ℚ) / 10 ^ f.length

def floatOfStr (s : String) : Option PyFloat :=
  let l := strip s.toList
  let (negative, body) := match l with
    | '-' :: l => (true, l)
    | '+' :: l => (false, l)
    | l => (false, l)
  let sign : ℚ := if negative then -1 else 1
  let lower := body.map Char.toLower
  if lower = "nan".toList then some .nan
  else if lower = "inf".toList ∨ lower = "infinity".toList then some (.inf negative)
  else
    match lower.dropWhile (· ≠ 'e') with
    | [] => (decimalOfStr body).map fun q => .finite (sign * q)
    | _ :: e => do
      let q ← decimalOfStr (lower.takeWhile (· ≠ 'e'))
      let n ← intOfStr (String.ofList e)
      return .finite (sign * q * (10 : ℚ) ^ n)

def Json.toFloat : Json → Py PyFloat
  | .float x => .ok x
  | .int n => .ok (.finite n)
  | .bool b => .ok (.finite (if b then 1 else 0))
  | .str s =>
    match floatOfStr s with
    | some x => .ok x
    | none => .error (.valueError "could not convert string to float")
  | _ => .error .typeError

/-- Constructor call `dict(x)`: a mapping, or a sequence of key and value pairs. -/
def Json.toFields : Json → Py Fields
  | .obj fields => .ok fields
  | .arr items => do
    let pairs ← items.mapM fun item =>
      match item with
      | .arr [.str k, v] => (.ok (k, v) : Py (String × Json))
      | .arr [_, _] => .error .typeError
      | .arr _ => .error (.valueError "dictionary update sequence element")
      | _ => .error .typeError
    return mkFields pairs.reverse
  | _ => .error .typeError

def Json.fieldsOrEmpty (x : Json) : Py Fields := if x.truthy then x.toFields else .ok []

/-- Iteration over a value: the items of a list, the keys of an object, the characters of a
string. -/
def Json.toList : Json → Py (List Json)
  | .arr items => .ok items
  | .obj fields => .ok (fields.map fun p => .str p.1)
  | .str s => .ok (s.toList.map fun c => .str (String.singleton c))
  | _ => .error .typeError

/-- A field annotated `str`. Records hold values of their annotated type only, so a JSON
value of another type is refused where the record is built. -/
def Json.asStr : Json → Py String
  | .str s => .ok s
  | _ => .error .typeError

def Json.asOptStr : Json → Py (Option String)
  | .str s => .ok (some s)
  | .null => .ok none
  | _ => .error .typeError

def Json.asOptInt : Json → Py (Option ℤ)
  | .int n => .ok (some n)
  | .null => .ok none
  | _ => .error .typeError

def Json.orElse (x default : Json) : Json := if x.truthy then x else default

/-- Conversion `str(x)`. The text of a float, list or object is not represented. -/
def Json.toStr : Json → Py String
  | .str s => .ok s
  | .int n => .ok (toString n)
  | .bool b => .ok (if b then "True" else "False")
  | .null => .ok "None"
  | _ => .error .typeError

/-- The text of a value in a message, and `str(x)` of a dtype, name or equation. Nothing depends
on the text of a value that is neither a string nor a number. -/
def text (x : Json) : String :=
  match x.toStr with
  | .ok s => s
  | .error _ => "<object>"

def Json.eqStr (x : Json) (s : String) : Bool :=
  match x with
  | .str t => t = s
  | _ => false

def ofOptStr (s : Option String) : Json := (s.map Json.str).getD .null
def ofOptInt (n : Option ℤ) : Json := (n.map Json.int).getD .null

@[simp] theorem getItem_mkObj (l : Fields) (k : String) :
    (mkObj l).getItem k = match field? k l with
      | some v => .ok v
      | none => .error (.keyError k) := by
  simp [mkObj, Json.getItem]

@[simp] theorem get_mkObj (l : Fields) (k : String) (default : Json) :
    (mkObj l).get k default = .ok ((field? k l).getD default) := by
  simp [mkObj, Json.get]

@[simp] theorem asStr_str (s : String) : (Json.str s).asStr = .ok s := rfl
@[simp] theorem toStr_str (s : String) : (Json.str s).toStr = .ok s := rfl
@[simp] theorem toInt_int (n : ℤ) : (Json.int n).toInt = .ok n := rfl
@[simp] theorem toFloat_float (x : PyFloat) : (Json.float x).toFloat = .ok x := rfl
@[simp] theorem toList_arr (items : List Json) : (Json.arr items).toList = .ok items := rfl

@[simp] theorem asOptStr_getD (s : Option String) :
    ((s.map Json.str).getD .null).asOptStr = .ok s := by cases s <;> rfl

@[simp] theorem asOptInt_getD (n : Option ℤ) :
    ((n.map Json.int).getD .null).asOptInt = .ok n := by cases n <;> rfl

@[simp] theorem asOptStr_ofOptStr (s : Option String) : (ofOptStr s).asOptStr = .ok s :=
  asOptStr_getD s

@[simp] theorem asOptInt_ofOptInt (n : Option ℤ) : (ofOptInt n).asOptInt = .ok n :=
  asOptInt_getD n

@[simp] theorem fieldsOrEmpty_obj (f : Fields) : (Json.obj f).fieldsOrEmpty = .ok f := by
  cases f <;> rfl

@[simp] theorem toInt_orElse_zero (n : ℤ) :
    ((Json.int n).orElse (.int 0)).toInt = .ok n := by
  by_cases h : n = 0 <;> simp [Json.orElse, Json.truthy, h]

@[simp] theorem fieldsOrEmpty_null : Json.null.fieldsOrEmpty = .ok [] := rfl

@[simp] theorem fieldsOrEmpty_mkObj (l : Fields) :
    (mkObj l).fieldsOrEmpty = .ok (mkFields l) := fieldsOrEmpty_obj _

@[simp] theorem obj_mkFields (l : Fields) : Json.obj (mkFields l) = mkObj l := rfl

theorem truthy_mkObj_cons (p : String × Json) (l : Fields) : (mkObj (p :: l)).truthy = true := by
  obtain ⟨k, v⟩ := p
  have h : field? k (mkFields ((k, v) :: l)) = some v := by simp
  cases hm : mkFields ((k, v) :: l) with
  | nil => simp [hm] at h
  | cons q m => simp [mkObj, hm, Json.truthy]

@[simp] theorem canonical_ofOptStr (s : Option String) : Canonical (ofOptStr s) := by
  cases s <;> simp [ofOptStr]

@[simp] theorem canonical_ofOptInt (n : Option ℤ) : Canonical (ofOptInt n) := by
  cases n <;> simp [ofOptInt]

theorem mapM_ok {α β : Type*} {f : α → Py β} {g : β → α} {l : List β}
    (h : ∀ b ∈ l, f (g b) = .ok b) : (l.map g).mapM f = .ok l := by
  induction l with
  | nil => rfl
  | cons b l ih =>
    have hb := h b List.mem_cons_self
    have hl := ih fun c hc => h c (List.mem_cons_of_mem _ hc)
    simp only [List.map_cons, List.mapM_cons, hb, hl]
    rfl

theorem bind_eq_ok {α β : Type} {x : Py α} {f : α → Py β} {b : β} :
    (x >>= f) = .ok b ↔ ∃ a, x = .ok a ∧ f a = .ok b := by
  cases x with
  | error e => simp
  | ok a => simp

theorem bind_eq_error {α γ : Type} {x : Py α} {f : α → Py γ} {e : PyErr} :
    (x >>= f) = .error e ↔ x = .error e ∨ ∃ a, x = .ok a ∧ f a = .error e := by
  cases x <;> simp [bind, Except.bind]

@[simp] theorem pure_eq_ok {α : Type} {a b : α} : (pure a : Py α) = .ok b ↔ a = b :=
  Except.ok.injEq a b ▸ Iff.rfl

theorem guard_eq_ok {α γ : Type} {c : Prop} [Decidable c] {e : PyErr} {f : α → Py γ} {x : Py γ}
    {b : γ} : (if c then (.error e >>= f) else x) = .ok b ↔ ¬ c ∧ x = .ok b := by
  by_cases h : c <;> simp [h]

theorem unless_eq_ok {x : Py Bool} {e : PyErr} :
    (x >>= fun ok => if ok = true then pure () else .error e) = .ok () ↔ x = .ok true := by
  rw [bind_eq_ok]
  constructor
  · rintro ⟨ok, hok, h⟩
    cases ok with
    | true => exact hok
    | false => cases h
  · intro hok
    exact ⟨true, hok, rfl⟩

theorem toOption_eq_some {α : Type} {x : Py α} {a : α} : x.toOption = some a ↔ x = .ok a := by
  cases x with
  | error e => simp [Except.toOption]
  | ok b => simp [Except.toOption]

theorem mapM_eq_ok {α β : Type} {f : α → Py β} {l : List α} {m : List β} :
    l.mapM f = .ok m ↔
      (∀ a ∈ l, ∃ b, f a = .ok b) ∧ m = l.filterMap fun a => (f a).toOption := by
  induction l generalizing m with
  | nil =>
    simp only [List.mapM_nil, List.not_mem_nil, false_implies, implies_true, true_and,
      List.filterMap_nil]
    exact ⟨fun h => (Except.ok.inj h).symm, fun h => congrArg Except.ok h.symm⟩
  | cons a l ih =>
    rw [List.mapM_cons, bind_eq_ok, List.forall_mem_cons]
    constructor
    · rintro ⟨b, hb, h⟩
      obtain ⟨n, hn, h⟩ := bind_eq_ok.mp h
      obtain ⟨hall, rfl⟩ := ih.mp hn
      cases h
      refine ⟨⟨⟨b, hb⟩, hall⟩, ?_⟩
      rw [List.filterMap_cons_some (b := b)]
      rw [hb]
      rfl
    · rintro ⟨⟨⟨b, hb⟩, hall⟩, rfl⟩
      refine ⟨b, hb, bind_eq_ok.mpr ⟨_, ih.mpr ⟨hall, rfl⟩, ?_⟩⟩
      rw [List.filterMap_cons_some (b := b)]
      · rfl
      · rw [hb]
        rfl

theorem mapM_eq_map {α γ : Type} {f : α → Py γ} {g : α → γ} {l : List α}
    (h : ∀ a ∈ l, f a = .ok (g a)) : l.mapM f = .ok (l.map g) := by
  have hsome : ∀ a ∈ l, (f a).toOption = some (g a) := fun a ha => by rw [h a ha]; rfl
  rw [mapM_eq_ok]
  refine ⟨fun a ha => ⟨g a, h a ha⟩, ?_⟩
  rw [List.filterMap_congr hsome, List.filterMap_eq_map']

theorem mapM_congr {α γ : Type} {f g : α → Py γ} {l : List α} (h : ∀ a ∈ l, f a = g a) :
    l.mapM f = l.mapM g := by
  induction l with
  | nil => rfl
  | cons a l ih =>
    rw [List.mapM_cons, List.mapM_cons, h a List.mem_cons_self,
      ih fun b hb => h b (List.mem_cons_of_mem a hb)]

theorem exists_result_of_mapM {α γ : Type} {f : α → Py γ} {l : List α} {m : List γ}
    (h : l.mapM f = .ok m) {a : α} (ha : a ∈ l) : ∃ b ∈ m, f a = .ok b := by
  obtain ⟨hall, rfl⟩ := mapM_eq_ok.mp h
  obtain ⟨b, hb⟩ := hall a ha
  exact ⟨b, List.mem_filterMap.mpr ⟨a, ha, toOption_eq_some.mpr hb⟩, hb⟩

theorem exists_item_of_mapM {α γ : Type} {f : α → Py γ} {l : List α} {m : List γ}
    (h : l.mapM f = .ok m) {b : γ} (hb : b ∈ m) : ∃ a ∈ l, f a = .ok b := by
  obtain ⟨-, rfl⟩ := mapM_eq_ok.mp h
  obtain ⟨a, ha, hresult⟩ := List.mem_filterMap.mp hb
  exact ⟨a, ha, toOption_eq_some.mp hresult⟩

theorem canonical_insertEntry {l : Fields} {k : String} {j : Json} (hl : Canonical (.obj l))
    (hj : Canonical j) : Canonical (.obj (insertEntry (k, j) l)) := by
  obtain ⟨hsorted, hvals⟩ := canonical_obj_iff.mp hl
  refine canonical_obj_iff.mpr ⟨sorted_insertEntry (k, j) hsorted, ?_⟩
  intro q hq
  rcases mem_insertEntry hq with rfl | hq
  · exact hj
  · exact hvals q hq

theorem canonical_field? {fields : Fields} {k : String} {v : Json} (hd : Canonical (.obj fields))
    (h : field? k fields = some v) : Canonical v :=
  (canonical_obj_iff.mp hd).2 (k, v) (mem_of_lookup h)

theorem canonical_field {l : Fields} {k : String} (h : Canonical (.obj l)) :
    Canonical ((field? k l).getD .null) := by
  cases hfield : field? k l with
  | none => exact .null
  | some v => exact canonical_field? h hfield

theorem canonical_get {d default v : Json} {k : String} (hd : Canonical d)
    (hdefault : Canonical default) (h : d.get k default = .ok v) : Canonical v := by
  cases d with
  | obj fields =>
    cases h
    cases hfield : field? k fields with
    | none => exact hdefault
    | some v => exact canonical_field? hd hfield
  | _ => cases h

theorem canonical_getItem {d v : Json} {k : String} (hd : Canonical d)
    (h : d.getItem k = .ok v) : Canonical v := by
  cases d with
  | obj fields =>
    cases hfield : field? k fields with
    | none => simp [Json.getItem, hfield] at h
    | some w =>
      simp only [Json.getItem, hfield, Except.ok.injEq] at h
      exact h ▸ canonical_field? hd hfield
  | _ => cases h

theorem canonical_toList {x : Json} {l : List Json} (hx : Canonical x) (h : x.toList = .ok l) :
    ∀ y ∈ l, Canonical y := by
  cases x with
  | arr items =>
    cases h
    exact canonical_arr_iff.mp hx
  | obj fields =>
    cases h
    intro y hy
    obtain ⟨p, -, rfl⟩ := List.mem_map.mp hy
    exact .str p.1
  | str s =>
    cases h
    intro y hy
    obtain ⟨c, -, rfl⟩ := List.mem_map.mp hy
    exact .str _
  | _ => cases h

theorem canonical_toFields {x : Json} {l : Fields} (hx : Canonical x) (h : x.toFields = .ok l) :
    Canonical (.obj l) := by
  cases x with
  | obj fields =>
    cases h
    exact hx
  | arr items =>
    obtain ⟨pairs, hpairs, h⟩ := bind_eq_ok.mp h
    obtain ⟨-, rfl⟩ := mapM_eq_ok.mp hpairs
    cases h
    refine canonical_mkObj ?_
    intro q hq
    obtain ⟨item, hitem, hq⟩ := List.mem_filterMap.mp (List.mem_reverse.mp hq)
    have hcanonical := canonical_arr_iff.mp hx item hitem
    -- only two-element lists with a string in front give an entry
    split at hq
    · cases hq
      exact canonical_arr_iff.mp hcanonical _ (by simp)
    all_goals cases hq
  | _ => cases h

theorem canonical_fieldsOrEmpty {x : Json} {l : Fields} (hx : Canonical x)
    (h : x.fieldsOrEmpty = .ok l) : Canonical (.obj l) := by
  unfold Json.fieldsOrEmpty at h
  split_ifs at h
  · exact canonical_toFields hx h
  · cases h
    exact canonical_obj_iff.mpr ⟨List.Pairwise.nil, by simp⟩

end PyJson

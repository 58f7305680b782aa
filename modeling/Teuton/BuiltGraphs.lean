import Teuton.GraphBuilder
import Teuton.RaisesOnly

/-! Graphs that come from a builder are in order: operations are numbered by their positions and
refer to earlier operations only, to results that these have, and to declared inputs and
parameters. The evaluator therefore finds whatever it looks up; what it raises is raised by the
tensor library. -/
namespace BuiltGraphs

open PyJson PyText ObjectStore GraphIr ComputeUnits GraphEval GraphBuilder

variable {β τ : Type}

/-! ### What a reference may point to -/

section References

def pairOps : List String := ["topk", "quantize_int8_per_channel", "qr", "data_indexer"]

def resultCount (op : String) (kwargs : Fields) : ℕ :=
  if op = "split" then
    match field? "sizes" kwargs with
    | some (.arr sizes) => sizes.length
    | _ => 0
  else if op ∈ pairOps then 2
  else 1

/-- The reference is good for the operation at position `i`. -/
inductive RefAt (b : Builder) (i : ℕ) : Fields → Prop where
  | input {name : String} (declared : ∃ spec ∈ b.inputs, spec.name = name) :
      RefAt b i (refInput name)
  | op {j idx : ℕ} {op : Op} (earlier : j < i) (stored : b.ops[j]? = some op)
      (result : idx < resultCount op.op op.kwargs) : RefAt b i (refOp j idx)
  | param {name : String} (declared : ∃ spec ∈ b.params, spec.name = name) :
      RefAt b i (refParam name)
  | const (value : Json) : RefAt b i (refConst value)
  | constBlob (uri : String) (shape : List ℤ) (dtype : String) :
      RefAt b i (refConstBlob uri shape dtype)

structure Extends (b b' : Builder) : Prop where
  inputs : ∀ spec ∈ b.inputs, spec ∈ b'.inputs
  params : ∀ spec ∈ b.params, spec ∈ b'.params
  ops : b.ops <+: b'.ops

theorem Extends.op {b b' : Builder} (h : Extends b b') {j : ℕ} {op : Op}
    (hop : b.ops[j]? = some op) : b'.ops[j]? = some op := by
  obtain ⟨rest, hrest⟩ := h.ops
  rw [← hrest, List.getElem?_append_left (List.getElem?_eq_some_iff.mp hop).1]
  exact hop

theorem RefAt.mono {b b' : Builder} {i i' : ℕ} {ref : Fields} (h : RefAt b i ref)
    (hb : Extends b b') (hi : i ≤ i') : RefAt b' i' ref := by
  cases h with
  | input declared =>
    obtain ⟨spec, hspec, hname⟩ := declared
    exact .input ⟨spec, hb.inputs spec hspec, hname⟩
  | op earlier stored result => exact .op (earlier.trans_le hi) (hb.op stored) result
  | param declared =>
    obtain ⟨spec, hspec, hname⟩ := declared
    exact .param ⟨spec, hb.params spec hspec, hname⟩
  | const value => exact .const value
  | constBlob uri shape dtype => exact .constBlob uri shape dtype

end References

/-! ### Sessions keep a builder in order -/

section Sessions

def RefsAt (b : Builder) (i : ℕ) (op : Op) : Prop :=
  (∀ arg ∈ op.args, RefAt b i arg) ∧
  ∀ kwarg ∈ op.kwargs, isRefDict kwarg.2 = .ok true → ∃ ref, kwarg.2 = .obj ref ∧ RefAt b i ref

variable {c : OpCall} {b : Builder} {s : Session}

theorem RefsAt.mono {b' : Builder} {i : ℕ} {op : Op} (h : RefsAt b i op) (hb : Extends b b') :
    RefsAt b' i op := by
  refine ⟨fun arg harg => (h.1 arg harg).mono hb le_rfl, fun kwarg hkwarg href => ?_⟩
  obtain ⟨ref, heq, hat⟩ := h.2 kwarg hkwarg href
  exact ⟨ref, heq, hat.mono hb le_rfl⟩

structure Sound (s : Session) : Prop where
  ids : ∀ (i : ℕ) (op : Op), s.builder.ops[i]? = some op → op.id = i
  registered : ∀ op ∈ s.builder.ops, ∃ sig ∈ registry, sig.name = op.op
  earlier : ∀ (i : ℕ) (op : Op), s.builder.ops[i]? = some op → RefsAt s.builder i op
  sizes : ∀ op ∈ s.builder.ops, op.op = "split" → ∃ l, field? "sizes" op.kwargs = some (.arr l)
  outputs : ∀ o ∈ s.builder.outputs, RefAt s.builder s.builder.ops.length o.ref
  refs : ∀ ref ∈ s.refs, RefAt s.builder s.builder.ops.length ref

theorem sound_start : Sound {} := by
  constructor <;> simp

theorem Sound.declare (h : Sound s) {ref : Fields}
    (hb : Extends s.builder b) (hops : b.ops = s.builder.ops)
    (houtputs : b.outputs = s.builder.outputs) (href : RefAt b b.ops.length ref) :
    Sound ⟨b, ref :: s.refs⟩ := by
  constructor
  · intro i op hop
    exact h.ids i op (hops ▸ hop)
  · intro op hop
    exact h.registered op (hops ▸ hop)
  · intro i op hop
    exact (h.earlier i op (hops ▸ hop)).mono hb
  · intro op hop
    exact h.sizes op (hops ▸ hop)
  · intro o ho
    exact (h.outputs o (houtputs ▸ ho)).mono hb (congrArg List.length hops).ge
  · intro ref' href'
    rcases List.mem_cons.mp href' with rfl | hmem
    · exact href
    · exact (h.refs ref' hmem).mono hb (congrArg List.length hops).ge

theorem extends_refl (b : Builder) : Extends b b := ⟨fun _ h => h, fun _ h => h, List.prefix_rfl⟩

theorem Sound.output (h : Sound s) {name : String} {ref : Fields}
    (href : ref ∈ s.refs) : Sound { s with builder := s.builder.output name ref } := by
  have hb : Extends s.builder (s.builder.output name ref) :=
    ⟨fun _ h => h, fun _ h => h, List.prefix_rfl⟩
  refine ⟨h.ids, h.registered, fun i op hop => (h.earlier i op hop).mono hb, h.sizes,
    fun o ho => ?_, fun ref' href' => (h.refs ref' href').mono hb le_rfl⟩
  rcases List.mem_append.mp ho with ho | ho
  · exact (h.outputs o ho).mono hb le_rfl
  · obtain rfl := List.mem_singleton.mp ho
    exact (h.refs ref href).mono hb le_rfl

def Counts (c : OpCall) : Prop :=
  c.nOutputs.getD 1 = resultCount c.op c.kwargs ∧
    (c.op = "split" → ∃ l, field? "sizes" c.kwargs = some (.arr l))

theorem counts_single {op : String} (args : List Fields) (kwargs : Fields)
    (hop : op ∉ "split" :: pairOps) : Counts ⟨op, args, kwargs, none⟩ := by
  rw [List.mem_cons, not_or] at hop
  refine ⟨?_, fun h => absurd h hop.1⟩
  rw [resultCount, if_neg hop.1, if_neg hop.2]
  rfl

theorem counts_pair {op : String} (args : List Fields) (kwargs : Fields) (hop : op ∈ pairOps) :
    Counts ⟨op, args, kwargs, some 2⟩ := by
  have hsplit : op ≠ "split" := by
    rintro rfl
    revert hop
    decide
  refine ⟨?_, fun h => absurd h hsplit⟩
  rw [resultCount, if_neg hsplit, if_pos hop]
  rfl

def Yields (P : OpCall → Prop) (x : Py OpCall) : Prop := ∀ c, x = .ok c → P c

theorem yields_ok {P : OpCall → Prop} (h : P c) : Yields P (.ok c) := by
  intro c' hc
  cases hc
  exact h

theorem yields_bind {α : Type} {P : OpCall → Prop} {x : Py α} {f : α → Py OpCall}
    (h : ∀ a, Yields P (f a)) : Yields P (x >>= f) := by
  intro c hc
  obtain ⟨a, -, hc⟩ := bind_eq_ok.mp hc
  exact h a c hc

theorem counts_of_call (m : Method) : Yields Counts m.call := by
  cases m with
  | unary f a => exact yields_ok (counts_single _ _ (by cases f <;> decide))
  | binary f a b => exact yields_ok (counts_single _ _ (by cases f <;> decide))
  | reduce f a dim keepdim => exact yields_ok (counts_single _ _ (by cases f <;> decide))
  | shaped f a shape =>
    exact yields_bind fun _ => yields_ok (counts_single _ _ (by cases f <;> decide))
  | join f tensors dim =>
    exact yields_bind fun _ => yields_ok (counts_single _ _ (by cases f <;> decide))
  | along f a dim =>
    exact yields_bind fun _ => yields_ok (counts_single _ _ (by cases f <;> decide))
  | random f seed shape dtype =>
    exact yields_bind fun _ => yields_ok (counts_single _ _ (by cases f <;> decide))
  | triangle f a diagonal =>
    exact yields_bind fun _ => yields_ok (counts_single _ _ (by cases f <;> decide))
  | split a sizes dim =>
    exact yields_bind fun items => yields_bind fun _ => yields_ok ⟨rfl, fun _ => ⟨items, rfl⟩⟩
  | topk a k dim =>
    exact yields_bind fun _ => yields_bind fun _ => yields_ok (counts_pair _ _ (by decide))
  | quantizeInt8PerChannel x dim =>
    exact yields_bind fun _ => yields_ok (counts_pair _ _ (by decide))
  | qr a => exact yields_ok (counts_pair _ _ (by decide))
  | dataIndexer tokens b t mbSeed =>
    exact yields_bind fun _ => yields_bind fun _ => yields_ok (counts_pair _ _ (by decide))
  | clamp | «where» | cast | einsum | arange => exact yields_ok (counts_single _ _ (by decide))
  | transpose | gather | scatter | layerNorm | rmsnorm | full | crossEntropy =>
    exact yields_bind fun _ => yields_ok (counts_single _ _ (by decide))
  | sort => exact yields_bind fun _ => yields_ok (counts_single _ _ (by decide))
  | slice | unpackDequantizeInt8 =>
    exact yields_bind fun _ => yields_bind fun _ => yields_bind fun _ =>
      yields_ok (counts_single _ _ (by decide))

theorem emit_eq_ok {b' : Builder} {refs : List Fields}
    (h : b.emit c = .ok (refs, b')) :
    (∃ sig ∈ registry, sig.name = c.op) ∧
      refs = (List.range (c.nOutputs.getD 1)).map (refOp b.ops.length) ∧
      b' = { b with ops := b.ops ++ [⟨b.ops.length, c.op, c.args, c.kwargs, []⟩] } := by
  obtain ⟨sig, hsig, h⟩ := bind_eq_ok.mp h
  split_ifs at h
  split at h
  case h_1 => cases h
  case h_2 =>
    cases h
    refine ⟨?_, rfl, rfl⟩
    unfold opSignature at hsig
    split at hsig
    case h_1 found hfound =>
      exact ⟨found, List.mem_of_find?_eq_some hfound, by simpa using List.find?_some hfound⟩
    case h_2 => cases hsig

theorem Sound.method (h : Sound s) {m : Method}
    {refs : List Fields} (hcall : m.call = .ok c)
    (huses : UsesOnly s.refs c.args c.kwargs) (hemit : s.builder.emit c = .ok (refs, b)) :
    Sound ⟨b, refs ++ s.refs⟩ := by
  obtain ⟨hregistered, rfl, rfl⟩ := emit_eq_ok hemit
  obtain ⟨hcount, hsizes⟩ := counts_of_call m c hcall
  set op : Op := ⟨s.builder.ops.length, c.op, c.args, c.kwargs, []⟩ with hop
  set b : Builder := { s.builder with ops := s.builder.ops ++ [op] } with hbuilder
  have hb : Extends s.builder b := ⟨fun _ h => h, fun _ h => h, List.prefix_append _ _⟩
  have hlength : b.ops.length = s.builder.ops.length + 1 := by simp [hbuilder]
  have hlt : s.builder.ops.length < b.ops.length := by omega
  -- An operation of the new builder is an old one or the one at the end.
  have hcases : ∀ (i : ℕ) (o : Op), b.ops[i]? = some o →
      s.builder.ops[i]? = some o ∨ i = s.builder.ops.length ∧ o = op := by
    intro i o ho
    rcases lt_trichotomy i s.builder.ops.length with hi | rfl | hi
    · exact Or.inl (by rwa [hbuilder, List.getElem?_append_left hi] at ho)
    · exact Or.inr ⟨rfl, by simpa [hbuilder] using ho.symm⟩
    · have hbound := (List.getElem?_eq_some_iff.mp ho).1
      omega
  refine ⟨fun i o ho => ?_, fun o ho => ?_, fun i o ho => ?_, fun o ho => ?_, fun o ho => ?_,
    fun ref href => ?_⟩
  · rcases hcases i o ho with ho | ⟨rfl, rfl⟩
    · exact h.ids i o ho
    · rfl
  · rcases List.mem_append.mp ho with ho | ho
    · exact h.registered o ho
    · obtain rfl := List.mem_singleton.mp ho
      exact hregistered
  · rcases hcases i o ho with ho | ⟨rfl, rfl⟩
    · exact (h.earlier i o ho).mono hb
    · refine ⟨fun arg harg => (h.refs arg (huses.1 arg harg)).mono hb le_rfl,
        fun kwarg hkwarg hkind => ?_⟩
      obtain ⟨ref, href, heq⟩ := huses.2 kwarg hkwarg hkind
      exact ⟨ref, heq, (h.refs ref href).mono hb le_rfl⟩
  · rcases List.mem_append.mp ho with ho | ho
    · exact h.sizes o ho
    · obtain rfl := List.mem_singleton.mp ho
      exact hsizes
  · exact (h.outputs o ho).mono hb hlt.le
  · rcases List.mem_append.mp href with href | href
    · obtain ⟨idx, hidx, rfl⟩ := List.mem_map.mp href
      have hstored : b.ops[s.builder.ops.length]? = some op := by simp [hbuilder]
      refine .op hlt hstored ?_
      rw [hcount] at hidx
      exact List.mem_range.mp hidx
    · exact (h.refs ref href).mono hb hlt.le

theorem sound_of_made (h : Made s) : Sound s := by
  induction h with
  | start => exact sound_start
  | @call s s' c _ huses hrun ih =>
    cases c with
    | input name shape dtype =>
      obtain ⟨⟨ref, b⟩, hinput, h⟩ := bind_eq_ok.mp hrun
      cases h
      unfold Builder.input at hinput
      split_ifs at hinput
      obtain ⟨dims, -, h⟩ := bind_eq_ok.mp hinput
      cases h
      refine ih.declare ⟨fun _ h => List.mem_append_left _ h, fun _ h => h, List.prefix_rfl⟩ rfl rfl
        (.input ⟨_, List.mem_append_right _ List.mem_cons_self, rfl⟩)
    | param name type =>
      obtain ⟨⟨ref, b⟩, hparam, h⟩ := bind_eq_ok.mp hrun
      cases h
      unfold Builder.param at hparam
      split_ifs at hparam
      cases hparam
      refine ih.declare ⟨fun _ h => h, fun _ h => List.mem_append_left _ h, List.prefix_rfl⟩ rfl rfl
        (.param ⟨_, List.mem_append_right _ List.mem_cons_self, rfl⟩)
    | const value =>
      cases hrun
      exact ih.declare (extends_refl _) rfl rfl (.const value)
    | constBlob uri shape dtype =>
      obtain ⟨dims, -, h⟩ := bind_eq_ok.mp hrun
      cases h
      exact ih.declare (extends_refl _) rfl rfl (.constBlob uri dims dtype)
    | output name ref =>
      cases hrun
      exact ih.output huses
    | method m =>
      obtain ⟨c, hcall, hrun⟩ := bind_eq_ok.mp hrun
      obtain ⟨⟨refs, b⟩, hemit, h⟩ := bind_eq_ok.mp hrun
      cases h
      exact ih.method hcall (huses c hcall) hemit

end Sessions

/-! ### Evaluation -/

section Evaluation

/-- The evaluator's table is the one of the source, and its functions return as many tensors as
they do there. -/
structure Follows (T : Torch β τ) : Prop where
  names : ∀ name ∈ dispatchNames, ∃ fn, T.dispatch name = some fn
  single : ∀ name fn args kwargs v, T.dispatch name = some fn → name ∉ "split" :: pairOps →
    fn args kwargs = .ok v → ∃ t, v = .tensor t
  pair : ∀ name fn args kwargs v, T.dispatch name = some fn → name ∈ pairOps →
    fn args kwargs = .ok v → ∃ t u, v = .tensors [t, u]
  split : ∀ fn args kwargs v sizes, T.dispatch "split" = some fn →
    kwargs.find? (·.1 = "sizes") = some ("sizes", .json (.arr sizes)) →
    fn args kwargs = .ok v → ∃ l, v = .tensors l ∧ l.length = sizes.length

/-- Every declared input is there with its declared shape, and every declared parameter. -/
structure Matches (T : Torch β τ) (graph : Graph) (inputs : SortedDict String τ)
    (params : Fields) : Prop where
  inputs : ∀ spec ∈ graph.inputs, ∃ value, inputs.find? spec.name = some value ∧
    spec.shape.length = (T.shape value).length ∧
    ∀ p ∈ spec.shape.zip (T.shape value), p.1 = -1 ∨ p.1 = p.2
  params : ∀ spec ∈ graph.params, (field? spec.name params).isSome

def Mentions (graph : Graph) (ref : Fields) : Prop :=
  (∃ op ∈ graph.ops, ref ∈ op.args ∨ ∃ k, (k, .obj ref) ∈ op.kwargs) ∨
    ∃ o ∈ graph.outputs, o.ref = ref

/-- The errors of the tensor library: of the operations, of making a tensor of a value, of the
stored constants and of the types of the inputs. A keyword value with a `kind` that cannot be
hashed is an error of its own. -/
structure TensorErrors (T : Torch β τ) (s : String → Py β) (graph : Graph)
    (inputs : SortedDict String τ) (E : PyErr → Prop) : Prop where
  ops : ∀ name fn args kwargs, T.dispatch name = some fn → RaisesOnly E (fn args kwargs)
  asTensor : ∀ j, RaisesOnly E (T.asTensor j)
  blobs : ∀ uri shape dtype blobs, Mentions graph (refConstBlob uri shape dtype) →
    RaisesOnly E ((resolveBlob T (refConstBlob uri shape dtype) blobs).run s)
  dtypes : ∀ spec ∈ graph.inputs, ∀ value, inputs.find? spec.name = some value →
    RaisesOnly E (T.wireDtype value) ∧ (T.wireDtype value ≠ .ok spec.dtype → E .typeError)
  kinds : ∀ op ∈ graph.ops, ∀ kwarg ∈ op.kwargs, RaisesOnly E (isRefDict kwarg.2)

def HasResults (op : Op) (v : Value τ) : Prop :=
  (∃ t, v = .tensor t ∧ resultCount op.op op.kwargs = 1) ∨
  ∃ l, v = .tensors l ∧ l.length = resultCount op.op op.kwargs

structure Evaluated (ops : List Op) (i : ℕ) (st : EvalState τ) : Prop where
  length : st.results.length = ops.length
  results : ∀ (j : ℕ) (op : Op), j < i → ops[j]? = some op →
    ∃ v, st.results[j]? = some v ∧ HasResults op v

variable {α : Type} {x : Py α} {l : List α}

theorem item_natCast {j : ℕ} {x : α} (h : l[j]? = some x) :
    item l j = .ok x := by
  have hj : (j : ℤ) < l.length := by
    have := (List.getElem?_eq_some_iff.mp h).1
    omega
  have hpos : position (j : ℤ) l.length = some j := by
    simp [position, show ¬ (j : ℤ) < 0 by omega, hj]
  simp [item, hpos, h]

theorem setItem_natCast {j : ℕ} (h : j < l.length) (x : α) :
    setItem l j x = .ok (l.set j x) := by
  have hpos : position (j : ℤ) l.length = some j := by
    simp [position, show ¬ (j : ℤ) < 0 by omega, h]
  simp [setItem, hpos]

variable {T : Torch β τ} {inputs : SortedDict String τ} {params : Fields} {s : String → Py β}
  {E : PyErr → Prop} {b : Builder} {i : ℕ} {st : EvalState τ}

def Value.Single : Value τ → Prop
  | .tensors _ => False
  | _ => True

/-- The computation raises errors of the tensor library only, and what it returns is so. -/
def Good {α : Type} (E : PyErr → Prop) (x : Py α) (Q : α → Prop) : Prop :=
  RaisesOnly E x ∧ ∀ a, x = .ok a → Q a

theorem Good.of_ok {Q : α → Prop} {a : α} (hx : x = .ok a) (ha : Q a) :
    Good E x Q := by
  rw [hx]
  refine ⟨RaisesOnly.ok a, fun a' h => ?_⟩
  cases h
  exact ha

theorem Good.bind {γ : Type} {f : α → Py γ} {P : α → Prop} {Q : γ → Prop}
    (hx : Good E x P) (hf : ∀ a, P a → Good E (f a) Q) : Good E (x >>= f) Q := by
  refine ⟨RaisesOnly.bind_iff.mpr ⟨hx.1, fun a ha => (hf a (hx.2 a ha)).1⟩, fun c hc => ?_⟩
  obtain ⟨a, ha, hc⟩ := bind_eq_ok.mp hc
  exact (hf a (hx.2 a ha)).2 c hc

theorem Good.of_raises (hx : RaisesOnly E x) : Good E x fun a => x = .ok a :=
  ⟨hx, fun _ ha => ha⟩

theorem good_foldlM {σ : Type} {f : σ → α → Py σ} {I : σ → Prop}
    (hf : ∀ a ∈ l, ∀ st, I st → Good E (f st a) I) (st : σ) (hst : I st) :
    Good E (l.foldlM f st) I := by
  induction l generalizing st with
  | nil => exact Good.of_ok rfl hst
  | cons a l ih =>
    rw [List.foldlM_cons]
    refine (hf a List.mem_cons_self st hst).bind fun st' hst' => ?_
    exact ih (fun b hb => hf b (List.mem_cons_of_mem a hb)) st' hst'

/-- What the resolution of a reference returns: no tuple, and the results as they were. -/
def Resolved (st : EvalState τ) (r : Value τ × EvalState τ) : Prop :=
  Value.Single r.1 ∧ r.2.results = st.results

theorem good_resolveRef (hm : Matches T b.build inputs params)
    (hE : TensorErrors T s b.build inputs E) (hst : Evaluated b.ops i st) {ref : Fields}
    (href : RefAt b i ref) (hmention : Mentions b.build ref) :
    Good E ((resolveRef T inputs params ref st).run s) (Resolved st) := by
  cases href with
  | input declared =>
    obtain ⟨spec, hspec, rfl⟩ := declared
    obtain ⟨value, hvalue, -⟩ := hm.inputs spec hspec
    have hrun : (resolveRef T inputs params (refInput spec.name) st).run s =
        .ok (.tensor value, st) := by
      simp [resolveRef, refInput, Json.getItem, hvalue]
    exact Good.of_ok hrun ⟨trivial, rfl⟩
  | @op j idx op earlier stored result =>
    obtain ⟨v, hv, hresults⟩ := hst.results j op earlier stored
    have hitem := item_natCast hv
    rcases hresults with ⟨t, rfl, hone⟩ | ⟨l, rfl, hlength⟩
    · have hidx : idx = 0 := by omega
      have hrun : (resolveRef T inputs params (refOp j idx) st).run s = .ok (.tensor t, st) := by
        simp [resolveRef, refOp, Json.getItem, hitem, hidx]
      exact Good.of_ok hrun ⟨trivial, rfl⟩
    · obtain ⟨t, ht⟩ : ∃ t, l[idx]? = some t := by
        rw [← hlength] at result
        exact ⟨l[idx], List.getElem?_eq_getElem result⟩
      have hrun : (resolveRef T inputs params (refOp j idx) st).run s = .ok (.tensor t, st) := by
        simp [resolveRef, refOp, Json.getItem, hitem, item_natCast ht, -bind_pure_comp]
      exact Good.of_ok hrun ⟨trivial, rfl⟩
  | param declared =>
    obtain ⟨spec, hspec, rfl⟩ := declared
    obtain ⟨v, hv⟩ := Option.isSome_iff_exists.mp (hm.params spec hspec)
    have hrun : (resolveRef T inputs params (refParam spec.name) st).run s = .ok (.json v, st) := by
      simp [resolveRef, refParam, Json.getItem, hv]
    exact Good.of_ok hrun ⟨trivial, rfl⟩
  | const value =>
    have hrun : (resolveRef T inputs params (refConst value) st).run s = .ok (.json value, st) := by
      simp [resolveRef, refConst, Json.getItem, -bind_pure_comp]
    exact Good.of_ok hrun ⟨trivial, rfl⟩
  | constBlob uri shape dtype =>
    have hkind : (Json.obj (refConstBlob uri shape dtype)).getItem "kind" =
        .ok (.str "const_blob") := by
      simp [refConstBlob, Json.getItem]
    have hrun : (resolveRef T inputs params (refConstBlob uri shape dtype) st).run s =
        (resolveBlob T (refConstBlob uri shape dtype) st.blobs).run s >>= fun r =>
          .ok (.tensor r.1, { st with blobs := r.2 }) := by
      simp [resolveRef, hkind, -bind_pure_comp]
    rw [hrun]
    refine (Good.of_raises (hE.blobs uri shape dtype st.blobs hmention)).bind fun r _ => ?_
    exact Good.of_ok rfl ⟨trivial, rfl⟩

theorem raisesOnly_toTensor (hE : TensorErrors T s b.build inputs E) {v : Value τ}
    (hv : Value.Single v) : RaisesOnly E (toTensor T v) := by
  cases v with
  | tensor t => exact RaisesOnly.ok t
  | json j => exact hE.asTensor j
  | tensors l => exact absurd hv id

theorem good_resolveArgs (hm : Matches T b.build inputs params)
    (hE : TensorErrors T s b.build inputs E) (hst : Evaluated b.ops i st) {args : List Fields}
    (hargs : ∀ arg ∈ args, RefAt b i arg) (hmention : ∀ arg ∈ args, Mentions b.build arg) :
    Good E ((resolveArgs T inputs params args st).run s) fun r =>
      (∀ v ∈ r.1, Value.Single v) ∧ r.2.results = st.results := by
  induction args generalizing st with
  | nil => exact Good.of_ok rfl ⟨by simp, rfl⟩
  | cons arg args ih =>
    rw [resolveArgs, ReadProgram.run_bind]
    refine (good_resolveRef hm hE hst (hargs arg List.mem_cons_self)
      (hmention arg List.mem_cons_self)).bind fun r hr => ?_
    have hst' : Evaluated b.ops i r.2 := ⟨hr.2 ▸ hst.length, hr.2 ▸ hst.results⟩
    rw [ReadProgram.run_bind]
    refine (ih hst' (fun a ha => hargs a (List.mem_cons_of_mem arg ha))
      fun a ha => hmention a (List.mem_cons_of_mem arg ha)).bind fun r' hr' => ?_
    refine Good.of_ok rfl ⟨fun v hv => ?_, hr'.2.trans hr.2⟩
    rcases List.mem_cons.mp hv with rfl | hv
    · exact hr.1
    · exact hr'.1 v hv

theorem good_resolveKwargs (hm : Matches T b.build inputs params)
    (hE : TensorErrors T s b.build inputs E) (hst : Evaluated b.ops i st) {kwargs : Fields}
    (hkinds : ∀ kwarg ∈ kwargs, RaisesOnly E (isRefDict kwarg.2))
    (hkwargs : ∀ kwarg ∈ kwargs, isRefDict kwarg.2 = .ok true →
      ∃ ref, kwarg.2 = .obj ref ∧ RefAt b i ref)
    (hmention : ∀ k ref, (k, .obj ref) ∈ kwargs → Mentions b.build ref) :
    Good E ((resolveKwargs T inputs params kwargs st).run s) fun r =>
      (∀ k l, field? k kwargs = some (.arr l) →
        r.1.find? (·.1 = k) = some (k, .json (.arr l))) ∧ r.2.results = st.results := by
  induction kwargs generalizing st with
  | nil => exact Good.of_ok rfl ⟨by simp, rfl⟩
  | cons kwarg kwargs ih =>
    obtain ⟨k, v⟩ := kwarg
    have hrest : ∀ r : Value τ × EvalState τ, r.2.results = st.results →
        (∀ l, v = .arr l → r.1 = .json v) →
        Good E ((do
          let r₂ ← resolveKwargs T inputs params kwargs r.2
          return ((k, r.1) :: r₂.1, r₂.2) : Fetch β _).run s) fun r' =>
          (∀ k' l, field? k' ((k, v) :: kwargs) = some (.arr l) →
            r'.1.find? (·.1 = k') = some (k', .json (.arr l))) ∧ r'.2.results = st.results := by
      intro r hr hvalue
      have hst' : Evaluated b.ops i r.2 := ⟨hr ▸ hst.length, hr ▸ hst.results⟩
      rw [ReadProgram.run_bind]
      refine (ih hst' (fun a ha => hkinds a (List.mem_cons_of_mem _ ha))
        (fun a ha => hkwargs a (List.mem_cons_of_mem _ ha))
        fun k ref ha => hmention k ref (List.mem_cons_of_mem _ ha)).bind fun r' hr' => ?_
      refine Good.of_ok rfl ⟨fun k' l hk' => ?_, hr'.2.trans hr⟩
      rw [field?_cons] at hk'
      split_ifs at hk' with heq
      · cases heq
        obtain rfl := Option.some.inj hk'
        simp [hvalue l rfl]
      · rw [List.find?_cons_of_neg (by simpa using Ne.symm heq)]
        exact hr'.1 k' l hk'
    rw [resolveKwargs, ReadProgram.run_bind]
    refine (Good.of_raises (hkinds (k, v) List.mem_cons_self)).bind fun isRef hisRef => ?_
    cases isRef with
    | false => exact hrest (.json v, st) rfl fun _ _ => rfl
    | true =>
      obtain ⟨ref, heq, href⟩ := hkwargs (k, v) List.mem_cons_self hisRef
      obtain rfl : v = .obj ref := heq
      have hprogram := (good_resolveRef hm hE hst href
        (hmention k ref List.mem_cons_self)).bind fun r hr =>
        hrest r hr.2 fun l hl => by cases hl
      rw [← ReadProgram.run_bind] at hprogram
      exact hprogram

theorem hasResults_of_ok (hT : Follows T) {op : Op}
    {fn : List τ → List (String × Value τ) → Py (Value τ)} {args : List τ}
    {kwargs : List (String × Value τ)} {v : Value τ}
    (hfn : T.dispatch op.op = some fn) (hv : fn args kwargs = .ok v)
    (hsizes : op.op = "split" → ∃ l, field? "sizes" op.kwargs = some (.arr l))
    (hkwargs : ∀ k l, field? k op.kwargs = some (.arr l) →
      kwargs.find? (·.1 = k) = some (k, .json (.arr l))) : HasResults op v := by
  by_cases hsplit : op.op = "split"
  · obtain ⟨sizes, hfield⟩ := hsizes hsplit
    obtain ⟨l, rfl, hl⟩ :=
      hT.split fn args kwargs v sizes (hsplit ▸ hfn) (hkwargs "sizes" sizes hfield) hv
    refine Or.inr ⟨l, rfl, ?_⟩
    rw [resultCount, if_pos hsplit, hfield, hl]
  · by_cases hpair : op.op ∈ pairOps
    · obtain ⟨t, u, rfl⟩ := hT.pair op.op fn args kwargs v hfn hpair hv
      refine Or.inr ⟨[t, u], rfl, ?_⟩
      rw [resultCount, if_neg hsplit, if_pos hpair]
      rfl
    · have hnot : op.op ∉ "split" :: pairOps := by simp [hsplit, hpair]
      obtain ⟨t, rfl⟩ := hT.single op.op fn args kwargs v hfn hnot hv
      refine Or.inl ⟨t, rfl, ?_⟩
      rw [resultCount, if_neg hsplit, if_neg hpair]

theorem good_evaluateOp (hT : Follows T) (hm : Matches T b.build inputs params)
    (hE : TensorErrors T s b.build inputs E) (hst : Evaluated b.ops i st) {op : Op}
    (hop : b.ops[i]? = some op) (hid : op.id = i) (hregistered : ∃ sig ∈ registry, sig.name = op.op)
    (hrefs : RefsAt b i op)
    (hsizes : op.op = "split" → ∃ l, field? "sizes" op.kwargs = some (.arr l)) :
    Good E ((evaluateOp T inputs params st op).run s) (Evaluated b.ops (i + 1)) := by
  obtain ⟨sig, hsig, hname⟩ := hregistered
  obtain ⟨fn, hfn⟩ := hT.names op.op (hname ▸ registered_has_evaluator sig hsig)
  have hmem : op ∈ b.build.ops := List.mem_of_getElem? hop
  unfold evaluateOp
  rw [hfn]
  dsimp only
  rw [ReadProgram.run_bind]
  refine (good_resolveArgs hm hE hst hrefs.1 fun arg harg =>
    Or.inl ⟨op, hmem, Or.inl harg⟩).bind fun r hr => ?_
  have hst₁ : Evaluated b.ops i r.2 := ⟨hr.2 ▸ hst.length, hr.2 ▸ hst.results⟩
  rw [ReadProgram.run_bind, ReadProgram.run_lift]
  have htensors : RaisesOnly E (r.1.mapM (toTensor T)) :=
    RaisesOnly.mapM_iff.mpr fun v hv => raisesOnly_toTensor hE (hr.1 v hv.mem)
  refine (Good.of_raises htensors).bind fun args _ => ?_
  rw [ReadProgram.run_bind]
  refine (good_resolveKwargs hm hE hst₁ (hE.kinds op hmem) hrefs.2 fun k ref hkwarg =>
    Or.inl ⟨op, hmem, Or.inr ⟨k, hkwarg⟩⟩).bind fun r' hr' => ?_
  rw [ReadProgram.run_bind, ReadProgram.run_lift]
  refine (Good.of_raises (hE.ops op.op fn args r'.1 hfn)).bind fun v hv => ?_
  have hlength : r'.2.results.length = b.ops.length := by rw [hr'.2, hst₁.length]
  have hi : i < r'.2.results.length := hlength ▸ (List.getElem?_eq_some_iff.mp hop).1
  have hset : setItem r'.2.results op.id v = .ok (r'.2.results.set i v) := by
    rw [hid]
    exact setItem_natCast hi v
  have hv' : HasResults op v := hasResults_of_ok hT hfn hv hsizes hr'.1
  rw [hset]
  refine Good.of_ok rfl ⟨by simp [hlength], fun j o hj ho => ?_⟩
  rcases (Nat.lt_succ_iff.mp hj).eq_or_lt with rfl | hlt
  · obtain rfl : op = o := Option.some.inj (hop.symm.trans ho)
    exact ⟨v, by simp [hi], hv'⟩
  · obtain ⟨v', hv'', hresults⟩ := hst₁.results j o hlt ho
    refine ⟨v', ?_, hresults⟩
    rw [hr'.2]
    simpa [List.getElem?_set_ne hlt.ne'] using hv''

theorem good_ops {σ : Session} (hσ : Sound σ) (hT : Follows T)
    (hm : Matches T σ.builder.build inputs params)
    (hE : TensorErrors T s σ.builder.build inputs E) {before rest : List Op}
    (hsplit : σ.builder.ops = before ++ rest) (hst : Evaluated σ.builder.ops before.length st) :
    Good E (rest.foldlM (fun st op => (evaluateOp T inputs params st op).run s) st)
      (Evaluated σ.builder.ops σ.builder.ops.length) := by
  induction rest generalizing before st with
  | nil =>
    rw [List.append_nil] at hsplit
    exact Good.of_ok rfl (hsplit ▸ hst)
  | cons op rest ih =>
    have hop : σ.builder.ops[before.length]? = some op := by simp [hsplit]
    have hmem := List.mem_of_getElem? hop
    rw [List.foldlM_cons]
    refine (good_evaluateOp hT hm hE hst hop (hσ.ids _ op hop) (hσ.registered op hmem)
      (hσ.earlier _ op hop) (hσ.sizes op hmem)).bind fun st' hst' => ?_
    have hsplit' : σ.builder.ops = (before ++ [op]) ++ rest := by simp [hsplit]
    refine ih hsplit' ?_
    rw [List.length_append]
    exact hst'

theorem good_outputs {σ : Session} (hσ : Sound σ) (hm : Matches T σ.builder.build inputs params)
    (hE : TensorErrors T s σ.builder.build inputs E)
    (hst : Evaluated σ.builder.ops σ.builder.ops.length st) {outs : SortedDict String τ} :
    RaisesOnly E (σ.builder.outputs.foldlM
      (fun r o => (evaluateOutput T inputs params r o).run s) (st, outs)) := by
  have hloop : Good E (σ.builder.outputs.foldlM
      (fun r o => (evaluateOutput T inputs params r o).run s) (st, outs))
      fun r => Evaluated σ.builder.ops σ.builder.ops.length r.1 := by
    refine good_foldlM (fun o ho r hr => ?_) (st, outs) hst
    unfold evaluateOutput
    rw [ReadProgram.run_bind]
    refine (good_resolveRef hm hE hr (hσ.outputs o ho) (Or.inr ⟨o, ho, rfl⟩)).bind fun v hv => ?_
    rw [ReadProgram.run_bind, ReadProgram.run_lift]
    refine (Good.of_raises (raisesOnly_toTensor hE hv.1)).bind fun t _ => ?_
    exact Good.of_ok rfl ⟨hv.2 ▸ hr.length, hv.2 ▸ hr.results⟩
  exact hloop.1

theorem raisesOnly_forM {f : α → Py Unit}
    (h : ∀ a ∈ l, RaisesOnly E (f a)) :
    RaisesOnly E ((l.forM fun a => (ReadProgram.done (f a) : Fetch β Unit)).run s) := by
  induction l with
  | nil => exact RaisesOnly.ok _
  | cons a l ih =>
    change RaisesOnly E ((ReadProgram.done (f a) >>= fun _ =>
      l.forM fun a => (ReadProgram.done (f a) : Fetch β Unit)).run s)
    rw [ReadProgram.run_bind]
    refine RaisesOnly.bind_iff.mpr ⟨h a List.mem_cons_self, fun _ _ => ?_⟩
    exact ih fun b hb => h b (List.mem_cons_of_mem a hb)

theorem raisesOnly_checkInput {graph : Graph} (hm : Matches T graph inputs params)
    (hE : TensorErrors T s graph inputs E) {spec : TensorSpec} (hspec : spec ∈ graph.inputs) :
    RaisesOnly E (checkInput T inputs spec) := by
  obtain ⟨value, hvalue, hlength, hdims⟩ := hm.inputs spec hspec
  obtain ⟨hdtype, hother⟩ := hE.dtypes spec hspec value hvalue
  have hshape : ¬ (spec.shape.length ≠ (T.shape value).length ∨
      (spec.shape.zip (T.shape value)).any (fun p => p.1 ≠ -1 && p.1 ≠ p.2) = true) := by
    rw [not_or, not_not, List.any_eq_true]
    refine ⟨hlength, ?_⟩
    rintro ⟨p, hp, hne⟩
    rcases hdims p hp with heq | heq <;> simp [heq] at hne
  unfold checkInput
  rw [hvalue]
  refine RaisesOnly.bind_iff.mpr ⟨hdtype, fun d hd => ?_⟩
  refine RaisesOnly.guard_iff.mpr ⟨fun hne => hother ?_, fun _ => ?_⟩
  · rw [hd]
    exact fun h => hne (Except.ok.inj h)
  · rw [if_neg hshape]
    exact RaisesOnly.ok _

/-- Operations are numbered by their positions and refer to earlier ones, every registered
operation has a function, and an evaluation raises only what the tensor library raises. -/
theorem built_graph_evaluates {σ : Session} (hmade : Made σ) (hT : Follows T)
    (hm : Matches T σ.builder.build inputs params)
    (hE : TensorErrors T s σ.builder.build inputs E) :
    (∀ (i : ℕ) (op : Op), σ.builder.build.ops[i]? = some op →
      op.id = i ∧ RefsAt σ.builder i op ∧ (T.dispatch op.op).isSome) ∧
    (∀ sig ∈ registry, (T.dispatch sig.name).isSome) ∧
    RaisesOnly E ((evaluate T σ.builder.build inputs params).run s) := by
  have hσ := sound_of_made hmade
  have hdispatch : ∀ sig ∈ registry, (T.dispatch sig.name).isSome := by
    intro sig hsig
    obtain ⟨fn, hfn⟩ := hT.names _ (registered_has_evaluator sig hsig)
    exact Option.isSome_iff_exists.mpr ⟨fn, hfn⟩
  refine ⟨fun i op hop => ?_, hdispatch, ?_⟩
  · obtain ⟨sig, hsig, hname⟩ := hσ.registered op (List.mem_of_getElem? hop)
    exact ⟨hσ.ids i op hop, hσ.earlier i op hop, hname ▸ hdispatch sig hsig⟩
  · unfold evaluate
    rw [ReadProgram.run_bind]
    refine RaisesOnly.bind_iff.mpr ⟨raisesOnly_forM fun spec hspec =>
      raisesOnly_checkInput hm hE hspec, fun _ _ => ?_⟩
    rw [ReadProgram.run_bind]
    refine RaisesOnly.bind_iff.mpr ⟨raisesOnly_forM fun spec hspec => ?_, fun _ _ => ?_⟩
    · rw [checkParam, if_pos (hm.params spec hspec)]
      exact RaisesOnly.ok _
    rw [ReadProgram.run_bind, ReadProgram.run_foldlM]
    have hstart : Evaluated σ.builder.ops ([] : List Op).length
        { results := σ.builder.ops.map fun _ => (.json .null : Value τ) } :=
      ⟨by simp, fun j op hj => absurd hj (Nat.not_lt_zero j)⟩
    have hops := good_ops hσ hT hm hE (List.nil_append _).symm hstart
    refine RaisesOnly.bind_iff.mpr ⟨hops.1, fun st hst => ?_⟩
    rw [ReadProgram.run_bind, ReadProgram.run_foldlM]
    exact RaisesOnly.bind_iff.mpr ⟨good_outputs hσ hm hE (hops.2 st hst), fun _ _ =>
      RaisesOnly.ok _⟩

def plainOp (name : String) (kwargs : List (String × Value Unit)) : Value Unit :=
  if name = "split" then
    match kwargs.find? (·.1 = "sizes") with
    | some (_, .json (.arr sizes)) => .tensors (sizes.map fun _ => ())
    | _ => .tensors []
  else if name ∈ pairOps then .tensors [(), ()]
  else .tensor ()

def plainTorch : Torch Json Unit where
  decodeTensor := fun _ => .ok ()
  asTensor := fun _ => .ok ()
  shape := fun _ => [2]
  wireDtype := fun _ => .ok "float32"
  isFloatingPoint := fun _ => true
  dispatch := fun name =>
    if name ∈ dispatchNames then some fun _ kwargs => .ok (plainOp name kwargs) else none
  tensorParallel := fun inputs _ => .ok inputs
  cat := fun _ _ => .ok ()
  flatten := id
  numel := fun _ => 2
  sampleIndices := fun _ _ _ => []
  indexSelect := fun _ _ => .ok ()
  equal := fun _ _ => .ok true
  allclose := fun _ _ _ _ => .ok true
  maxAbsDiff := fun _ _ => .ok (.finite 0)

theorem plainTorch_dispatch {name : String}
    {fn : List Unit → List (String × Value Unit) → Py (Value Unit)}
    (h : plainTorch.dispatch name = some fn) (args : List Unit)
    (kwargs : List (String × Value Unit)) : fn args kwargs = .ok (plainOp name kwargs) := by
  simp only [plainTorch] at h
  split_ifs at h
  cases h
  rfl

theorem plainTorch_follows : Follows plainTorch where
  names := fun name hname => ⟨_, if_pos hname⟩
  single := by
    intro name fn args kwargs v hfn hname hv
    rw [List.mem_cons, not_or] at hname
    rw [plainTorch_dispatch hfn, plainOp, if_neg hname.1, if_neg hname.2] at hv
    cases hv
    exact ⟨(), rfl⟩
  pair := by
    intro name fn args kwargs v hfn hname hv
    have hsplit : name ≠ "split" := by
      rintro rfl
      revert hname
      decide
    rw [plainTorch_dispatch hfn, plainOp, if_neg hsplit, if_pos hname] at hv
    cases hv
    exact ⟨(), (), rfl⟩
  split := by
    intro fn args kwargs v sizes hfn hsizes hv
    rw [plainTorch_dispatch hfn, plainOp, if_pos rfl, hsizes] at hv
    cases hv
    exact ⟨_, rfl, by simp⟩

def halvesSession : Session where
  builder :=
    { inputs := [⟨"x", [2], "float32"⟩]
      outputs := [⟨"y", refOp 1 0⟩]
      ops := [⟨0, "split", [refInput "x"],
          [("sizes", .arr [.int 1, .int 1]), ("dim", .int 0)], []⟩,
        ⟨1, "add", [refOp 0 0, refOp 0 1], [], []⟩] }
  refs := [refOp 1 0, refOp 0 0, refOp 0 1, refInput "x"]

theorem halvesSession_made : Made halvesSession := by
  have hinput : Made ⟨{ inputs := [⟨"x", [2], "float32"⟩] }, [refInput "x"]⟩ :=
    .call (c := .input "x" (.arr [.int 2]) "float32") .start trivial rfl
  have hsplit := Made.call (c := .method (.split (refInput "x") (.arr [.int 1, .int 1]) (.int 0)))
    hinput (by
      intro c hc
      cases hc
      refine ⟨by simp, ?_⟩
      simp [isRefDict]) rfl
  have hadd := Made.call (c := .method (.binary .add (refOp 0 0) (refOp 0 1))) hsplit (by
      intro c hc
      cases hc
      exact ⟨by simp [List.range, List.range.loop], by simp⟩) rfl
  exact .call (c := .output "y" (refOp 1 0)) hadd
    (by simp [Call.Uses, List.range, List.range.loop]) rfl

/-- The sum of the two halves is evaluated. -/
theorem halves_evaluated :
    Made halvesSession ∧ ∃ outs, (evaluate plainTorch halvesSession.builder.build
      (.ofEntries [("x", ())]) []).run (fun _ => .ok .null) = .ok outs := by
  have hm : Matches plainTorch halvesSession.builder.build (.ofEntries [("x", ())]) [] := by
    constructor
    · intro spec hspec
      obtain rfl := List.mem_singleton.mp hspec
      exact ⟨(), by decide +kernel, rfl, by simp [plainTorch]⟩
    · intro spec hspec
      cases hspec
  have hE : TensorErrors plainTorch (fun _ => .ok .null) halvesSession.builder.build
      (.ofEntries [("x", ())]) fun _ => False := by
    constructor
    · intro name fn args kwargs hfn
      rw [plainTorch_dispatch hfn]
      exact RaisesOnly.ok _
    · intro j
      exact RaisesOnly.ok _
    · intro uri shape dtype blobs hmention
      have hkind : field? "kind" (refConstBlob uri shape dtype) = some (.str "const_blob") := by
        simp [refConstBlob]
      have hother : ∀ ref, ref ∈ halvesSession.refs →
          field? "kind" ref ≠ some (.str "const_blob") := by
        simp [halvesSession, refInput, refOp]
      refine absurd hkind (hother _ ?_)
      simpa [Mentions, halvesSession, Builder.build, or_assoc, or_comm, or_left_comm,
        eq_comm] using hmention
    · intro spec hspec value _
      obtain rfl := List.mem_singleton.mp hspec
      exact ⟨RaisesOnly.ok _, fun hne => hne rfl⟩
    · intro op hop kwarg hkwarg
      simp only [halvesSession, Builder.build, List.mem_cons, List.not_mem_nil, or_false] at hop
      rcases hop with rfl | rfl
      · simp only [List.mem_cons, List.not_mem_nil, or_false] at hkwarg
        rcases hkwarg with rfl | rfl <;> exact RaisesOnly.ok _
      · cases hkwarg
  obtain ⟨-, -, hraises⟩ := built_graph_evaluates halvesSession_made plainTorch_follows hm hE
  refine ⟨halvesSession_made, ?_⟩
  cases hrun : (evaluate plainTorch halvesSession.builder.build
      (.ofEntries [("x", ())]) []).run (fun _ => .ok .null) with
  | ok outs => exact ⟨outs, rfl⟩
  | error e => exact absurd hrun fun h => hraises e h

end Evaluation

end BuiltGraphs

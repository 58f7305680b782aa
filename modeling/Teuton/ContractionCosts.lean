import Teuton.ComputeUnits
import Teuton.JsonBytes
import Mathlib.Data.List.Dedup

/-! Products written as `matmul` and as `einsum` are charged the same. The first estimate reads
ranks and broadcast batches, the second a map from the letters of the equation to sizes. -/
namespace ContractionCosts

open PyJson Signatures GraphIr ComputeUnits

variable {β : Type}

section Shapes

@[simp] theorem dim_of_pos {d : ℤ} (h : 1 ≤ d) : dim d = d := max_eq_right h

theorem numel_append (s t : List ℤ) : numel (s ++ t) = numel s * numel t := by
  have hfold : ∀ (l : List ℤ) (n : ℤ), l.foldl (fun total d => total * dim d) n = n * numel l := by
    intro l
    induction l with
    | nil => simp [numel]
    | cons d l ih =>
      intro n
      rw [numel, List.foldl_cons, List.foldl_cons, ih, ih (1 * dim d)]
      ring
  rw [numel, List.foldl_append, hfold]
  rfl

@[simp] theorem dropLast_matrix (l : List ℤ) (i j : ℤ) : dropLast (l ++ [i, j]) 2 = l := by
  simp [dropLast]

theorem item_matrix (l : List ℤ) (i j : ℤ) :
    item (l ++ [i, j]) (-2) = .ok i ∧ item (l ++ [i, j]) (-1) = .ok j := by
  have hrow : position (-2) (l.length + 2) = some l.length := by
    simp [position]
  have hcolumn : position (-1) (l.length + 2) = some (l.length + 1) := by
    have h : (-1 + ((l.length : ℤ) + 2)).toNat = l.length + 1 := by omega
    simp [position, h]
    omega
  simp [item, hrow, hcolumn]

theorem getElem?_reverse_of_suffix {s t : List ℤ} (h : t <:+ s) {n : ℕ} {d : ℤ}
    (hd : t.reverse[n]? = some d) : s.reverse[n]? = some d := by
  obtain ⟨u, hu⟩ := List.reverse_prefix.mpr h
  rw [← hu, List.getElem?_append_left (List.getElem?_eq_some_iff.mp hd).1]
  exact hd

theorem broadcastTwo_suffix {s t : List ℤ} (ht : t <:+ s) (hs : ∀ d ∈ s, 1 ≤ d) :
    broadcastTwo s t = s := by
  have hlength : max s.length t.length = s.length := max_eq_left ht.length_le
  rw [broadcastTwo, hlength, List.reverse_eq_iff]
  apply List.ext_getElem (by simp)
  intro i hi hi'
  have hpos : 1 ≤ s.reverse[i] := hs _ (List.mem_reverse.mp (List.getElem_mem hi'))
  have hle : dim (t.reverse[i]?.getD 1) ≤ s.reverse[i] := by
    cases hget : t.reverse[i]? with
    | none => simpa [dim] using hpos
    | some d =>
      have hd := getElem?_reverse_of_suffix ht hget
      rw [List.getElem?_eq_getElem hi'] at hd
      cases hd
      rw [Option.getD_some, dim_of_pos hpos]
  rw [List.getElem_map, List.getElem_range, List.getElem?_eq_getElem hi', Option.getD_some,
    dim_of_pos hpos, max_eq_left hle]

theorem broadcastTwo_comm (s t : List ℤ) : broadcastTwo s t = broadcastTwo t s := by
  unfold broadcastTwo
  rw [max_comm]
  congr 1
  apply List.map_congr_left
  intro i _
  exact max_comm _ _

/-- Shapes that `torch.matmul` multiplies, with the length that is summed over. -/
inductive Accepted : List ℤ → List ℤ → ℤ → Prop where
  | dot (k : ℤ) : Accepted [k] [k] k
  | vecMat (batch : List ℤ) (k j : ℤ) : Accepted [k] (batch ++ [k, j]) k
  | matVec (batch : List ℤ) (i k : ℤ) : Accepted (batch ++ [i, k]) [k] k
  | matMat {s t : List ℤ} (i k j : ℤ) (broadcasts : ∀ (n : ℕ) (d d' : ℤ),
      s.reverse[n]? = some d → t.reverse[n]? = some d' → d = d' ∨ d = 1 ∨ d' = 1) :
      Accepted (s ++ [i, k]) (t ++ [k, j]) k

theorem matmul_dot (k k' : ℤ) :
    matmulShape [k] [k'] = .ok [] ∧ matmulOps [k] [k'] = .ok (2 * dim k) := ⟨rfl, rfl⟩

theorem matmul_vecMat (t : List ℤ) (k k' j : ℤ) :
    matmulShape [k] (t ++ [k', j]) = .ok (broadcastTwo [] t ++ [j]) ∧
      matmulOps [k] (t ++ [k', j]) = .ok (2 * numel t * dim k * dim j) := by
  simp [matmulShape, matmulOps, item_matrix]

theorem matmul_matVec (s : List ℤ) (i k k' : ℤ) :
    matmulShape (s ++ [i, k]) [k'] = .ok (broadcastTwo s [] ++ [i]) ∧
      matmulOps (s ++ [i, k]) [k'] = .ok (2 * numel s * dim i * dim k') := by
  simp [matmulShape, matmulOps, item_matrix]

theorem matmul_matMat (s t : List ℤ) (i k k' j : ℤ) :
    matmulShape (s ++ [i, k]) (t ++ [k', j]) = .ok (broadcastTwo s t ++ [i, j]) ∧
      matmulOps (s ++ [i, k]) (t ++ [k', j]) =
        .ok (2 * numel (broadcastTwo s t) * dim i * dim k * dim j) := by
  simp [matmulShape, matmulOps, item_matrix]

theorem matmulOps_eq {a b : List ℤ} {k : ℤ} (h : Accepted a b k) (hpos : ∀ d ∈ a ++ b, 1 ≤ d) :
    ∃ out, matmulShape a b = .ok out ∧ matmulOps a b = .ok (2 * k * numel out) := by
  cases h with
  | dot k =>
    refine ⟨[], (matmul_dot k k).1, ?_⟩
    rw [(matmul_dot k k).2, dim_of_pos (hpos k (by simp))]
    simp [numel]
  | vecMat batch k j =>
    have hbatch : broadcastTwo [] batch = batch := by
      rw [broadcastTwo_comm]
      exact broadcastTwo_suffix (List.nil_suffix) fun d hd => hpos d (by simp [hd])
    refine ⟨_, (matmul_vecMat batch k k j).1, ?_⟩
    rw [(matmul_vecMat batch k k j).2, hbatch, numel_append, dim_of_pos (hpos k (by simp))]
    simp [numel]
    ring
  | matVec batch i k =>
    have hbatch : broadcastTwo batch [] = batch :=
      broadcastTwo_suffix (List.nil_suffix) fun d hd => hpos d (by simp [hd])
    refine ⟨_, (matmul_matVec batch i k k).1, ?_⟩
    rw [(matmul_matVec batch i k k).2, hbatch, numel_append, dim_of_pos (hpos k (by simp))]
    simp [numel]
    ring
  | @matMat s t i k j =>
    refine ⟨_, (matmul_matMat s t i k k j).1, ?_⟩
    rw [(matmul_matMat s t i k k j).2, numel_append, dim_of_pos (hpos k (by simp))]
    simp [numel]
    ring

end Shapes

section Equations

/-- The letters of an explicit equation that denotes a product: those of the operands and of the
result, and the one that is summed over. Batches are aligned at their ends. -/
inductive Product : List Char → List Char → List Char → Char → Prop where
  | dot (k : Char) : Product [k] [k] [] k
  | vecMat {batch : List Char} {k j : Char} (distinct : (k :: j :: batch).Nodup) :
      Product [k] (batch ++ [k, j]) (batch ++ [j]) k
  | matVec {batch : List Char} {i k : Char} (distinct : (i :: k :: batch).Nodup) :
      Product (batch ++ [i, k]) [k] (batch ++ [i]) k
  | matMatLeft {batch t : List Char} {i k j : Char} (distinct : (i :: k :: j :: batch).Nodup)
      (aligned : t <:+ batch) : Product (batch ++ [i, k]) (t ++ [k, j]) (batch ++ [i, j]) k
  | matMatRight {batch s : List Char} {i k j : Char} (distinct : (i :: k :: j :: batch).Nodup)
      (aligned : s <:+ batch) : Product (s ++ [i, k]) (batch ++ [k, j]) (batch ++ [i, j]) k

namespace Product

variable {a b out : List Char} {k : Char}

theorem accepted (h : Product a b out k) (size : Char → ℤ) :
    Accepted (a.map size) (b.map size) (size k) := by
  cases h with
  | dot k => exact .dot _
  | vecMat distinct =>
    rw [List.map_append]
    exact .vecMat _ _ _
  | matVec distinct =>
    rw [List.map_append]
    exact .matVec _ _ _
  | matMatLeft distinct aligned =>
    rw [List.map_append, List.map_append]
    refine .matMat _ _ _ fun n d d' hd hd' => Or.inl ?_
    exact Option.some.inj (hd.symm.trans (getElem?_reverse_of_suffix (aligned.map size) hd'))
  | matMatRight distinct aligned =>
    rw [List.map_append, List.map_append]
    refine .matMat _ _ _ fun n d d' hd hd' => Or.inl ?_
    exact Option.some.inj ((getElem?_reverse_of_suffix (aligned.map size) hd).symm.trans hd')

theorem matmulShape_eq (h : Product a b out k) {size : Char → ℤ} (hsize : ∀ c, 1 ≤ size c) :
    matmulShape (a.map size) (b.map size) = .ok (out.map size) := by
  have hbatch : ∀ {s t : List Char}, t <:+ s →
      broadcastTwo (s.map size) (t.map size) = s.map size := by
    intro s t ht
    apply broadcastTwo_suffix (ht.map size)
    intro d hd
    obtain ⟨c, -, rfl⟩ := List.mem_map.mp hd
    exact hsize c
  cases h with
  | dot k => rfl
  | @vecMat batch k j distinct =>
    have hnil : broadcastTwo [] (batch.map size) = batch.map size := by
      rw [broadcastTwo_comm]
      exact hbatch batch.nil_suffix
    simpa [hnil] using (matmul_vecMat (batch.map size) (size k) (size k) (size j)).1
  | @matVec batch i k distinct =>
    have hnil : broadcastTwo (batch.map size) [] = batch.map size := hbatch batch.nil_suffix
    simpa [hnil] using (matmul_matVec (batch.map size) (size i) (size k) (size k)).1
  | @matMatLeft batch t i k j distinct aligned =>
    have h := (matmul_matMat (batch.map size) (t.map size) (size i) (size k) (size k) (size j)).1
    simpa [hbatch aligned] using h
  | @matMatRight batch s i k j distinct aligned =>
    have h := (matmul_matMat (s.map size) (batch.map size) (size i) (size k) (size k) (size j)).1
    rw [broadcastTwo_comm, hbatch aligned] at h
    simpa using h

theorem summed_mem (h : Product a b out k) : k ∈ a := by
  cases h <;> simp

theorem mem_of_out (h : Product a b out k) {c : Char} (hc : c ∈ out) : c ∈ a ∨ c ∈ b := by
  cases h <;> grind

theorem contracted_eq (h : Product a b out k) :
    a.dedup.filter (fun c => c ∈ b ∧ c ∉ out) = [k] := by
  have hone : a.Nodup ∧ k ∈ a ∧ ∀ c ∈ a, (c ∈ b ∧ c ∉ out) ↔ c = k := by
    cases h with
    | dot k => simp
    | vecMat distinct => grind
    | matVec distinct => grind
    | matMatLeft distinct aligned =>
      have hsub := aligned.subset
      grind
    | matMatRight distinct aligned =>
      have hsub := aligned.subset
      have hnodup := (distinct.of_cons.of_cons.of_cons).sublist aligned.sublist
      grind
  obtain ⟨hnodup, hmem, hiff⟩ := hone
  have hfilter : a.filter (fun c => c ∈ b ∧ c ∉ out) = a.filter (· == k) := by
    apply List.filter_congr
    intro c hc
    rw [Bool.eq_iff_iff, decide_eq_true_eq, beq_iff_eq]
    exact hiff c hc
  rw [List.Nodup.dedup hnodup, hfilter, List.filter_beq,
    List.count_eq_one_of_mem hnodup hmem]
  rfl

end Product

/-- An explicit equation with the sizes its letters stand for. -/
structure Contraction where
  size : Char → ℤ
  a : List Char
  b : List Char
  out : List Char
  summed : Char
  product : Product a b out summed
  letters : ∀ c ∈ a ++ b ++ out, c.isAlpha = true
  positive : ∀ c, 1 ≤ size c

/-- The letters that a map of sizes knows, each with the size it stands for. -/
def Sized (size : Char → ℤ) (known : List Char) (d : SortedDict Char ℤ) : Prop :=
  ∀ c, d.find? c = if c ∈ known then some (size c) else none

theorem Sized.foldl {size : Char → ℤ} {step : SortedDict Char ℤ → Char × ℤ → SortedDict Char ℤ}
    (hstep : ∀ known d c, Sized size known d → step d (c, size c) = d.insert c (size c))
    {known : List Char} {d : SortedDict Char ℤ} (h : Sized size known d) (labels : List Char) :
    Sized size (labels.reverse ++ known) ((labels.zip (labels.map size)).foldl step d) := by
  induction labels generalizing known d with
  | nil => exact h
  | cons c labels ih =>
    have hc : Sized size (c :: known) (step d (c, size c)) := by
      intro c'
      rw [hstep known d c h, SortedDict.find?_insert, h c']
      by_cases hcc : c = c'
      · simp [hcc]
      · simp [Ne.symm hcc]
    rw [List.map_cons, List.zip_cons_cons, List.foldl_cons, List.reverse_cons, List.append_assoc]
    exact ih hc

theorem einsumSizes_sized {size : Char → ℤ} (hsize : ∀ c, 1 ≤ size c) (a b : List Char) :
    Sized size (b.reverse ++ (a.reverse ++ [])) (einsumSizes a b (a.map size) (b.map size)) := by
  unfold einsumSizes
  refine Sized.foldl (fun known d c h => ?_) (Sized.foldl (fun known d c h => ?_) ?_ a) b
  · rw [h c, dim_of_pos (hsize c)]
    split_ifs
    · rw [Option.getD_some, max_self]
    · rw [Option.getD_none, max_eq_right (hsize c)]
  · rw [dim_of_pos (hsize c)]
  · intro c
    simp [SortedDict.find?, SortedDict.empty]

theorem splitOnce_append {c : Char} {l r : List Char} (h : c ∉ l) (sep : List Char) :
    splitOnce (c :: sep) (l ++ c :: (sep ++ r)) = some (l, r) := by
  induction l with
  | nil => simp [splitOnce]
  | cons d l ih =>
    obtain ⟨hd, hl⟩ := not_or.mp (mt List.mem_cons.mpr h)
    have hne : (c :: sep).isPrefixOf (d :: (l ++ c :: (sep ++ r))) = false := by
      rw [List.isPrefixOf_cons_cons, beq_false_of_ne hd, Bool.false_and]
    rw [List.cons_append, splitOnce, hne, ih hl]
    rfl

namespace Contraction

variable (e : Contraction)

def equation : String := String.ofList (e.a ++ ',' :: (e.b ++ ('-' :: '>' :: e.out)))

def shapeOf (labels : List Char) : List ℤ := labels.map e.size

theorem matmulOps_contraction : matmulOps (e.shapeOf e.a) (e.shapeOf e.b) =
    .ok (2 * e.size e.summed * numel (e.shapeOf e.out)) := by
  have hpos : ∀ d ∈ e.shapeOf e.a ++ e.shapeOf e.b, 1 ≤ d := by
    intro d hd
    rw [shapeOf, shapeOf, ← List.map_append] at hd
    obtain ⟨c, -, rfl⟩ := List.mem_map.mp hd
    exact e.positive c
  obtain ⟨out, hshape, hops⟩ := matmulOps_eq (e.product.accepted e.size) hpos
  rw [e.product.matmulShape_eq e.positive] at hshape
  cases hshape
  exact hops

theorem not_mem_of_letters {c : Char} (hc : c.isAlpha = false) : c ∉ e.a ++ e.b ++ e.out := by
  intro hin
  have hletter := e.letters c hin
  rw [hc] at hletter
  cases hletter

theorem einsumLabels_equation : einsumLabels e.equation = some (e.a, e.b, e.out) := by
  have hcomma : ',' ∉ e.a := fun h => e.not_mem_of_letters (c := ',') (by decide) (by simp [h])
  have hdash : '-' ∉ e.a ++ ',' :: e.b := by
    have h := e.not_mem_of_letters (c := '-') (by decide)
    simp only [List.mem_append, not_or] at h
    simp [h.1.1, h.1.2]
  have hright : splitOnce "->".toList (e.a ++ ',' :: (e.b ++ ('-' :: '>' :: e.out))) =
      some (e.a ++ ',' :: e.b, e.out) := by
    have h := splitOnce_append (c := '-') (r := e.out) hdash
    simpa using h ['>']
  have hleft : splitOnce ",".toList (e.a ++ ',' :: e.b) = some (e.a, e.b) :=
    splitOnce_append hcomma []
  have htext : e.equation.toList = e.a ++ ',' :: (e.b ++ ('-' :: '>' :: e.out)) :=
    String.toList_ofList
  rw [einsumLabels, htext, hright]
  simp only [Option.bind_eq_bind, Option.bind_some, hleft]
  rfl

theorem sizes_find? {c : Char} (hc : c ∈ e.a ∨ c ∈ e.b) :
    (einsumSizes e.a e.b (e.shapeOf e.a) (e.shapeOf e.b)).find? c = some (e.size c) := by
  rw [shapeOf, shapeOf, einsumSizes_sized e.positive e.a e.b c, if_pos]
  simpa [or_comm] using hc

theorem einsumShape_eq : einsumShape e.equation (e.shapeOf e.a) (e.shapeOf e.b) =
    e.shapeOf e.out := by
  rw [einsumShape, e.einsumLabels_equation]
  apply List.map_congr_left
  intro c hc
  rw [e.sizes_find? (e.product.mem_of_out hc), Option.getD_some]

theorem einsumOps_eq : einsumOps e.equation (e.shapeOf e.a) (e.shapeOf e.b) (e.shapeOf e.out) =
    matmulOps (e.shapeOf e.a) (e.shapeOf e.b) := by
  rw [einsumOps, e.einsumLabels_equation, e.matmulOps_contraction]
  simp only [e.product.contracted_eq, List.mapM_cons, List.mapM_nil,
    e.sizes_find? (Or.inl e.product.summed_mem)]
  simp
  ring

end Contraction

end Equations

section Graphs

variable (p : Platform β)

/-- The op `op'` writes the product of `op` as an explicit equation. What the ops declare as
their output, if anything, has the shape of the product. -/
structure Rewrites (graph : Graph) (infos : List (List TensorInfo)) (op op' : Op) : Prop where
  matmul : op.op = "matmul"
  einsum : op'.op = "einsum"
  id_eq : op'.id = op.id
  args_eq : op'.args = op.args
  out_eq : op'.out = op.out
  product : ∃ (e : Contraction) (a b : TensorInfo),
    op.args.mapM (infoForRef · graph.inputs infos) = .ok [a, b] ∧ a.shape = e.shapeOf e.a ∧
      b.shape = e.shapeOf e.b ∧ kwarg op' "equation" (.str "") = .str e.equation ∧
      ∀ spec ∈ op.out.head?, spec.shape = e.shapeOf e.out

variable {op : Op} {a b : TensorInfo}

theorem infer_matmul (h : op.op = "matmul") {out : List ℤ}
    (hout : matmulShape a.shape b.shape = .ok out) :
    inferOutputs op [a, b] = .ok [⟨out, a.dtype⟩] := by
  simp [inferOutputs, inferFromFirst, elementwiseBinary, elementwiseUnary, h, item, position, hout]

theorem infer_einsum (h : op.op = "einsum") {equation : String}
    (hequation : kwarg op "equation" (.str "") = .str equation) :
    inferOutputs op [a, b] = .ok [⟨einsumShape equation a.shape b.shape, a.dtype⟩] := by
  simp [inferOutputs, inferFromFirst, elementwiseBinary, elementwiseUnary, h, item, position,
    hequation, text, Json.toStr]

theorem cost_matmul (h : op.op = "matmul") (outs : List TensorInfo) :
    opCost p op [a, b] outs = matmulOps a.shape b.shape := by
  simp [opCost, h]

theorem cost_einsum (h : op.op = "einsum") {equation : String}
    (hequation : kwarg op "equation" (.str "") = .str equation) (out : TensorInfo)
    (outs : List TensorInfo) :
    opCost p op [a, b] (out :: outs) = einsumOps equation a.shape b.shape out.shape := by
  simp [opCost, h, item, position, hequation, text, Json.toStr]

theorem estimateOp_rewrites {graph : Graph} {state : List (List TensorInfo) × ℚ} {op op' : Op}
    (h : Rewrites graph state.1 op op') :
    estimateOp p graph state op' = estimateOp p graph state op := by
  obtain ⟨e, a, b, hargs, ha, hb, hequation, hdeclared⟩ := h.product
  have hshape : matmulShape a.shape b.shape = .ok (e.shapeOf e.out) := by
    rw [ha, hb]
    exact e.product.matmulShape_eq e.positive
  have hinfer : inferOutputs op' [a, b] = inferOutputs op [a, b] := by
    rw [infer_matmul h.matmul hshape, infer_einsum h.einsum hequation, ha, hb, e.einsumShape_eq]
  have hcost : ∀ out outs, out.shape = e.shapeOf e.out →
      opCost p op' [a, b] (out :: outs) = opCost p op [a, b] (out :: outs) := by
    intro out outs hout
    rw [cost_matmul p h.matmul, cost_einsum p h.einsum hequation, hout, ha, hb, e.einsumOps_eq]
  unfold estimateOp
  rw [h.args_eq, hargs, h.out_eq, h.id_eq]
  simp only [ok_bind, hinfer, infer_matmul h.matmul hshape]
  cases hout : op.out with
  | nil => simp only [List.isEmpty_nil, if_true, hcost ⟨e.shapeOf e.out, a.dtype⟩ [] rfl]
  | cons spec specs =>
    have hspec : spec.shape = e.shapeOf e.out := hdeclared spec (by rw [hout]; rfl)
    rw [if_neg (by simp), List.map_cons, hcost _ _ hspec]

theorem expectedComputeUnits_rewrites {graph : Graph} {before after : List Op} {op op' : Op}
    (hops : graph.ops = before ++ op :: after)
    (h : ∀ state, before.foldlM (estimateOp p graph)
        (graph.ops.map fun _ => [⟨[], "float32"⟩], 0) = .ok state →
      Rewrites graph state.1 op op') :
    expectedComputeUnits p { graph with ops := before ++ op' :: after } =
      expectedComputeUnits p graph := by
  have hstart : (before ++ op' :: after).map (fun _ => [(⟨[], "float32"⟩ : TensorInfo)]) =
      graph.ops.map fun _ => [⟨[], "float32"⟩] := by
    simp [hops]
  have hfold : (before ++ op' :: after).foldlM (estimateOp p graph)
      (graph.ops.map fun _ => [⟨[], "float32"⟩], 0) =
      graph.ops.foldlM (estimateOp p graph) (graph.ops.map fun _ => [⟨[], "float32"⟩], 0) := by
    rw [hops, List.foldlM_append, List.foldlM_append, ← hops]
    cases hstate : before.foldlM (estimateOp p graph)
        (graph.ops.map fun _ => [⟨[], "float32"⟩], 0) with
    | error err => rfl
    | ok state =>
      rw [ok_bind, ok_bind, List.foldlM_cons, List.foldlM_cons,
        estimateOp_rewrites p (h state hstate)]
  have hsame : estimateOp p { graph with ops := before ++ op' :: after } = estimateOp p graph := rfl
  have hops' : estimateGraphOps p { graph with ops := before ++ op' :: after } =
      estimateGraphOps p graph := by
    unfold estimateGraphOps
    simp only [hsame, hstart, hfold]
  rw [expectedComputeUnits, hops']
  rfl

def plainProduct : Contraction where
  size c := if c = 'i' then 2 else if c = 'j' then 3 else 5
  a := ['i', 'j']
  b := ['j', 'k']
  out := ['i', 'k']
  summed := 'j'
  product :=
    @Product.matMatLeft [] [] 'i' 'j' 'k' (by decide) List.nil_suffix
  letters := by simp
  positive c := by split_ifs <;> decide

def productGraph (op : Op) : Graph where
  inputs := [⟨"x", [2, 3], "float32"⟩, ⟨"y", [3, 5], "float32"⟩]
  ops := [op]

def productArgs : List Fields :=
  [[("kind", .str "input"), ("name", .str "x")], [("kind", .str "input"), ("name", .str "y")]]

def matmulOp : Op := { id := 0, op := "matmul", args := productArgs }

def einsumOp : Op :=
  { matmulOp with op := "einsum", kwargs := [("equation", .str plainProduct.equation)] }

end Graphs

end ContractionCosts

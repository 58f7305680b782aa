import Teuton.TensorParallelForward

/-! The backward operations of the tensor-parallel runner. The gradient of the input is completed
among the processes, but each process keeps its own part of the gradients of the weights, and the
outputs of the job are those of the first process. -/
namespace TensorParallelBackward

open PyJson PyText Collectives TensorParallel TensorParallelForward
open Process (lift bind_assoc)

variable {R : Type} [CommRing R] {α γ : Type} {world : ℕ}

/-! ### Steps -/

section Steps

variable {p q : TensorParallelContext → Rank R α}

theorem ranks_congr (h : ∀ ctx : TensorParallelContext, ctx.rank < ctx.worldSize → p ctx = q ctx) :
    ranks world p = ranks world q :=
  congrArg (runGroup (medium (R := R))) (List.map_congr_left fun rank hrank =>
    h ⟨rank, world⟩ (List.mem_range.mp hrank))

theorem rankZero_of_ret (hworld : 0 < world) {a : TensorParallelContext → α}
    (h : ranks world p = ranks world fun ctx => (.ret (a ctx) : Rank R α)) :
    rankZero world p = .ok (a ⟨0, world⟩) := by
  obtain ⟨n, rfl⟩ := Nat.exists_eq_succ_of_ne_zero hworld.ne'
  have hranks : ranks n.succ p = .ok ((List.range n.succ).map fun rank => a ⟨rank, n.succ⟩) :=
    h.trans (runGroup_ret fun rank => a ⟨rank, n.succ⟩)
  rw [rankZero, hranks, ok_bind, List.range_succ_eq_map]
  rfl

theorem alone_eq_ok {out : α} : alone p = .ok out ↔ p ⟨0, 1⟩ = .ret out := by
  rw [alone]
  cases p ⟨0, 1⟩ with
  | ret a => simp [atReturn]
  | raise e => simp [atReturn]
  | allReduce t next => simp [atReturn]
  | allGather t next => simp [atReturn]

theorem rankZero_one {out : α} (h : alone p = .ok out) : rankZero 1 p = .ok out := by
  change (runGroup medium [p ⟨0, 1⟩] >>= _) = _
  rw [alone_eq_ok.mp h]
  rfl

theorem alone_bind {p : TensorParallelContext → Rank R γ}
    {f : γ → TensorParallelContext → Rank R α} {out : α}
    (h : alone (fun ctx => p ctx >>= fun a => f a ctx) = .ok out) :
    ∃ a, p ⟨0, 1⟩ = .ret a ∧ alone (f a) = .ok out := by
  rw [alone] at h
  cases hp : p ⟨0, 1⟩ with
  | ret a =>
    rw [hp] at h
    exact ⟨a, rfl, h⟩
  | raise e =>
    rw [hp] at h
    cases h
  | allReduce t next =>
    rw [hp] at h
    cases h
  | allGather t next =>
    rw [hp] at h
    cases h

theorem alone_lift_bind {x : TensorParallelContext → Py γ}
    {f : γ → TensorParallelContext → Rank R α} {out : α}
    (h : alone (fun ctx => lift (x ctx) >>= fun a => f a ctx) = .ok out) :
    ∃ a, x ⟨0, 1⟩ = .ok a ∧ alone (f a) = .ok out := by
  obtain ⟨a, ha, hf⟩ := alone_bind h
  refine ⟨a, ?_, hf⟩
  cases hx : x ⟨0, 1⟩ with
  | ok b =>
    rw [hx] at ha
    cases ha
    rfl
  | error e =>
    rw [hx] at ha
    cases ha

end Steps

/-! ### Outputs by name -/

section Names

variable {ν : Type} {a b k : String} {X X' Y Y' : ν} {l : List (String × ν)}

theorem find?_ofEntries_eq_none :
    (SortedDict.ofEntries l).find? k = none ↔ k ∉ l.map Prod.fst := by
  rw [SortedDict.find?_ofEntries, Option.map_eq_none_iff, List.find?_eq_none]
  constructor
  · intro h hmem
    obtain ⟨p, hp, rfl⟩ := List.mem_map.mp hmem
    exact h p (List.mem_reverse.mpr hp) (by simp)
  · intro h p hp heq
    exact h (List.mem_map.mpr ⟨p, List.mem_reverse.mp hp, by simpa using heq⟩)

theorem find?_ofEntries_pair :
    (SortedDict.ofEntries ([(a, X), (b, Y)] ++ l)).find? k =
      ((SortedDict.ofEntries l).find? k).or
        (if k = b then some Y else if k = a then some X else none) := by
  rw [SortedDict.find?_ofEntries, SortedDict.find?_ofEntries, List.reverse_append,
    List.find?_append, Option.map_or]
  congr 1
  change (([(b, Y), (a, X)] : List (String × ν)).find? fun p => decide (p.1 = k)).map Prod.snd = _
  rw [List.find?_cons, List.find?_cons]
  by_cases hb : k = b
  · simp [hb]
  · by_cases ha : k = a
    · subst ha
      simp [hb, Ne.symm hb]
    · simp [ha, hb, Ne.symm ha, Ne.symm hb]

theorem ofEntries_pair_eq :
    SortedDict.ofEntries ([(a, X), (b, Y)] ++ l) = SortedDict.ofEntries ([(a, X'), (b, Y')] ++ l) ↔
      (Y = Y' ∨ b ∈ l.map Prod.fst) ∧ (X = X' ∨ a = b ∨ a ∈ l.map Prod.fst) := by
  constructor
  · intro h
    have hfind : ∀ k ∉ l.map Prod.fst,
        (if k = b then some Y else if k = a then some X else none) =
          if k = b then some Y' else if k = a then some X' else none := by
      intro k hk
      have hat := congrArg (SortedDict.find? · k) h
      simp only [find?_ofEntries_pair, find?_ofEntries_eq_none.mpr hk, Option.none_or] at hat
      exact hat
    constructor
    · by_cases hb : b ∈ l.map Prod.fst
      · exact .inr hb
      · refine .inl ?_
        simpa using hfind b hb
    · by_cases hab : a = b
      · exact .inr (.inl hab)
      · by_cases ha : a ∈ l.map Prod.fst
        · exact .inr (.inr ha)
        · refine .inl ?_
          simpa [hab] using hfind a ha
  · rintro ⟨hY, hX⟩
    refine SortedDict.ext_find? fun k => ?_
    rw [find?_ofEntries_pair, find?_ofEntries_pair]
    by_cases hk : k ∈ l.map Prod.fst
    · cases hfound : (SortedDict.ofEntries l).find? k with
      | none => exact absurd hk (find?_ofEntries_eq_none.mp hfound)
      | some v => rfl
    · congr 1
      by_cases hb : k = b
      · rw [if_pos hb, if_pos hb, hY.resolve_right (hb ▸ hk)]
      · rw [if_neg hb, if_neg hb]
        by_cases ha : k = a
        · have hne : ¬ (a = b ∨ a ∈ l.map Prod.fst) := by
            rw [← ha]
            exact not_or.mpr ⟨hb, hk⟩
          rw [if_pos ha, if_pos ha, hX.resolve_right hne]
        · rw [if_neg ha, if_neg ha]

end Names

/-! ### Linear layers -/

section Linear

variable {ctx : TensorParallelContext} {params : Fields} {x w dy : Mat R}

theorem columnGradients_eq (hmode : parallelMode params = .str "column")
    (hmatch : dy.cols = w.cols) (hrows : x.rows = dy.rows) :
    linearGradients ctx params x w dy =
      maybeAllReduce ctx ((splitForRank ctx dy .cols).mul (splitForRank ctx w.transpose .rows)) >>=
        fun dx => .ret (dx, splitForRank ctx (x.transpose.mul dy) .cols) := by
  have hdx : matmul (splitForRank ctx dy .cols) (splitForRank ctx w .cols).transpose =
      .ok ((splitForRank ctx dy .cols).mul (splitForRank ctx w.transpose .rows)) := by
    refine matmul_eq_ok.mpr ⟨?_, congrArg _ Mat.transpose_colsPart⟩
    change Parts.size dy.cols _ _ = Parts.size w.cols _ _
    rw [hmatch]
  have hdw : flatOuter x (splitForRank ctx dy .cols) =
      .ok (splitForRank ctx (x.transpose.mul dy) .cols) :=
    matmul_eq_ok.mpr ⟨hrows, Mat.mul_colsPart⟩
  simp only [linearGradients, hmode, hdx, hdw, Process.lift_ok, Process.ret_bind,
    Process.pure_eq_ret]

theorem rowGradients_eq (hmode : parallelMode params = .str "row")
    (hmatch : dy.cols = w.cols) (hrows : x.rows = dy.rows) :
    linearGradients ctx params x w dy =
      (if flagParam params "gather_dx" true then
        maybeAllGather ctx (splitForRank ctx (dy.mul w.transpose) .cols)
      else .ret (splitForRank ctx (dy.mul w.transpose) .cols)) >>=
        fun dx => .ret (dx, splitForRank ctx (x.transpose.mul dy) .rows) := by
  have hdx : matmul dy (splitForRank ctx w .rows).transpose =
      .ok (splitForRank ctx (dy.mul w.transpose) .cols) := by
    refine matmul_eq_ok.mpr ⟨hmatch, ?_⟩
    simp only [splitForRank]
    rw [Mat.transpose_rowsPart, Mat.mul_colsPart]
  have hdw : flatOuter (splitForRank ctx x .cols) dy =
      .ok (splitForRank ctx (x.transpose.mul dy) .rows) := by
    refine matmul_eq_ok.mpr ⟨hrows, ?_⟩
    simp only [splitForRank]
    rw [Mat.transpose_colsPart, Mat.rowsPart_mul]
  simp only [linearGradients, hmode, hdx, hdw, Process.lift_ok, Process.ret_bind,
    Process.pure_eq_ret]
  split_ifs
  · rfl
  · rfl

theorem linear_sizes
    (hmode : parallelMode params = .str "column" ∨ parallelMode params = .str "row")
    {g : Mat R × Mat R} (h : alone (fun ctx => linearGradients ctx params x w dy) = .ok g) :
    dy.cols = w.cols ∧ x.rows = dy.rows := by
  rcases hmode with hmode | hmode
  · simp only [linearGradients, hmode] at h
    obtain ⟨dx, hdx, h⟩ := alone_lift_bind h
    obtain ⟨dx', -, h⟩ := alone_bind h
    obtain ⟨dw, hdw, -⟩ := alone_lift_bind h
    have hmatch : Parts.size dy.cols 1 0 = Parts.size w.cols 1 0 := (matmul_eq_ok.mp hdx).1
    rw [Parts.size_one, Parts.size_one] at hmatch
    exact ⟨hmatch, (matmul_eq_ok.mp hdw).1⟩
  · simp only [linearGradients, hmode] at h
    obtain ⟨dx, hdx, h⟩ := alone_lift_bind h
    have hmatch : dy.cols = w.cols := (matmul_eq_ok.mp hdx).1
    split_ifs at h
    · obtain ⟨dx', -, h⟩ := alone_bind h
      obtain ⟨dw, hdw, -⟩ := alone_lift_bind h
      exact ⟨hmatch, (matmul_eq_ok.mp hdw).1⟩
    · obtain ⟨dw, hdw, -⟩ := alone_lift_bind h
      exact ⟨hmatch, (matmul_eq_ok.mp hdw).1⟩

variable {f : Mat R × Mat R → TensorParallelContext → Rank R α}

theorem ranks_columnGradients (hworld : 0 < world) (hmode : parallelMode params = .str "column")
    (hmatch : dy.cols = w.cols) (hrows : x.rows = dy.rows) :
    ranks world (fun ctx => linearGradients ctx params x w dy >>= fun g => f g ctx) =
      ranks world fun ctx =>
        f (dy.mul w.transpose, splitForRank ctx (x.transpose.mul dy) .cols) ctx := by
  simp only [columnGradients_eq hmode hmatch hrows, bind_assoc, Process.ret_bind]
  exact ranks_reduce (f := fun dx ctx => f (dx, splitForRank ctx (x.transpose.mul dy) .cols) ctx)
    hworld hmatch

def rowInputGradient (params : Fields) (ctx : TensorParallelContext) (w dy : Mat R) : Mat R :=
  if flagParam params "gather_dx" true then dy.mul w.transpose
  else splitForRank ctx (dy.mul w.transpose) .cols

theorem ranks_rowGradients (hworld : 0 < world) (hmode : parallelMode params = .str "row")
    (hmatch : dy.cols = w.cols) (hrows : x.rows = dy.rows) (hdvd : world ∣ w.rows) :
    ranks world (fun ctx => linearGradients ctx params x w dy >>= fun g => f g ctx) =
      ranks world fun ctx => f (rowInputGradient params ctx w dy,
        splitForRank ctx (x.transpose.mul dy) .rows) ctx := by
  simp only [rowGradients_eq hmode hmatch hrows, bind_assoc, Process.ret_bind, rowInputGradient]
  split_ifs
  · exact ranks_gather (A := dy.mul w.transpose)
      (f := fun dx ctx => f (dx, splitForRank ctx (x.transpose.mul dy) .rows) ctx) hworld hdvd
  · rfl

end Linear

section LinearJobs

variable {inputs : SortedDict String (Mat R)} {params : Fields} {x w dy : Mat R}
variable {dxName dwName : String} {db : List (String × Mat R)} {outs : SortedDict String (Mat R)}

def biasGradientName (params : Fields) : Option String :=
  let db := (field? "db" params).getD .null
  if db.truthy then db.toStr.toOption else none

def Overwritten (params : Fields) (key default : String) : Prop :=
  ∃ name, nameParam params key default = .ok name ∧ biasGradientName params = some name

theorem mem_biasGradient (h : biasGradient params dy = .ok db) {name : String} :
    name ∈ db.map Prod.fst ↔ biasGradientName params = some name := by
  simp only [biasGradient, biasGradientName] at h ⊢
  split_ifs at h ⊢
  · obtain ⟨key, hkey, heq⟩ := bind_eq_ok.mp h
    cases heq
    rw [toOption_eq_some.mpr hkey]
    simp [eq_comm]
  · cases h
    simp

theorem overwritten_iff {key default : String} (hname : nameParam params key default = .ok dwName)
    (hdb : biasGradient params dy = .ok db) :
    Overwritten params key default ↔ dwName ∈ db.map Prod.fst := by
  rw [mem_biasGradient hdb]
  constructor
  · rintro ⟨name, hsame, h⟩
    cases hname.symm.trans hsame
    exact h
  · exact fun h => ⟨dwName, hname, h⟩

variable (inputs params) in
structure LinearJob (x w dy : Mat R) (dxName dwName : String) (db : List (String × Mat R)) :
    Prop where
  input : inputParam inputs params "x" "x" = .ok x
  weight : inputParam inputs params "weight" "W" = .ok w
  gradient : inputParam inputs params "dy" "dY" = .ok dy
  inputName : nameParam params "dx" "dX" = .ok dxName
  weightName : nameParam params "dw" "dW" = .ok dwName
  bias : biasGradient params dy = .ok db
  cols : dy.cols = w.cols
  rows : x.rows = dy.rows

theorem exists_linearJob
    (hmode : parallelMode params = .str "column" ∨ parallelMode params = .str "row")
    (h : alone (fun ctx => runLinearBackward ctx inputs params) = .ok outs) :
    ∃ x w dy dxName dwName db, LinearJob inputs params x w dy dxName dwName db := by
  obtain ⟨x, hx, h⟩ := alone_lift_bind h
  obtain ⟨w, hw, h⟩ := alone_lift_bind h
  obtain ⟨dy, hdy, h⟩ := alone_lift_bind h
  obtain ⟨g, hg, h⟩ := alone_bind h
  obtain ⟨hcols, hrows⟩ := linear_sizes hmode (alone_eq_ok.mpr hg)
  obtain ⟨dxName, hdxName, h⟩ := alone_lift_bind h
  obtain ⟨dwName, hdwName, h⟩ := alone_lift_bind h
  obtain ⟨db, hdb, -⟩ := alone_lift_bind h
  exact ⟨x, w, dy, dxName, dwName, db, hx, hw, hdy, hdxName, hdwName, hdb, hcols, hrows⟩

def namedGradients (dxName dwName : String) (db : List (String × Mat R)) (g : Mat R × Mat R) :
    SortedDict String (Mat R) :=
  .ofEntries ([(dxName, g.1), (dwName, g.2)] ++ db)

theorem LinearJob.run_eq (J : LinearJob inputs params x w dy dxName dwName db)
    (ctx : TensorParallelContext) :
    runLinearBackward ctx inputs params = linearGradients ctx params x w dy >>= fun g =>
      .ret (namedGradients dxName dwName db g) := by
  simp only [runLinearBackward, J.input, J.weight, J.gradient, J.inputName, J.weightName,
    J.bias, Process.lift_ok, Process.ret_bind, Process.pure_eq_ret]
  rfl

theorem LinearJob.rankZero_column (J : LinearJob inputs params x w dy dxName dwName db)
    (hmode : parallelMode params = .str "column") (hworld : 0 < world) :
    rankZero world (fun ctx => runLinearBackward ctx inputs params) =
      .ok (namedGradients dxName dwName db
        (dy.mul w.transpose, (x.transpose.mul dy).colsPart world 0)) := by
  simp only [J.run_eq]
  have hranks := ranks_columnGradients
    (f := fun g _ => .ret (namedGradients dxName dwName db g)) hworld hmode J.cols J.rows
  exact rankZero_of_ret hworld hranks

theorem LinearJob.rankZero_row (J : LinearJob inputs params x w dy dxName dwName db)
    (hmode : parallelMode params = .str "row") (hworld : 0 < world) (hdvd : world ∣ w.rows) :
    rankZero world (fun ctx => runLinearBackward ctx inputs params) =
      .ok (namedGradients dxName dwName db (rowInputGradient params ⟨0, world⟩ w dy,
        (x.transpose.mul dy).rowsPart world 0)) := by
  simp only [J.run_eq]
  have hranks := ranks_rowGradients
    (f := fun g _ => .ret (namedGradients dxName dwName db g)) hworld hmode J.cols J.rows hdvd
  exact rankZero_of_ret hworld hranks

theorem column_agrees_iff (hworld : 0 < world) (hmode : parallelMode params = .str "column")
    (hw : inputParam inputs params "weight" "W" = .ok w) (hdvd : world ∣ w.cols)
    (h : alone (fun ctx => runLinearBackward ctx inputs params) = .ok outs) :
    rankZero world (fun ctx => runLinearBackward ctx inputs params) = .ok outs ↔
      world = 1 ∨ w.cols = 0 ∨ Overwritten params "dw" "dW" := by
  obtain ⟨x, w', dy, dxName, dwName, db, J⟩ := exists_linearJob (.inl hmode) h
  cases hw.symm.trans J.weight
  have hone := J.rankZero_column hmode Nat.one_pos
  rw [rankZero_one h, Mat.colsPart_one] at hone
  cases hone
  have hwidth : (x.transpose.mul dy).cols = w.cols := J.cols
  have hpart : (x.transpose.mul dy).colsPart world 0 = x.transpose.mul dy ↔
      world = 1 ∨ w.cols = 0 := by
    rw [← hwidth] at hdvd ⊢
    exact Mat.colsPart_eq_self hdvd hworld
  rw [J.rankZero_column hmode hworld, Except.ok.injEq, namedGradients, namedGradients,
    ofEntries_pair_eq, hpart, overwritten_iff J.weightName J.bias, or_assoc]
  exact and_iff_left (.inl rfl)

theorem row_agrees_iff (hworld : 0 < world) (hmode : parallelMode params = .str "row")
    (hx : inputParam inputs params "x" "x" = .ok x) (hxdvd : world ∣ x.cols)
    (hw : inputParam inputs params "weight" "W" = .ok w) (hwdvd : world ∣ w.rows)
    (h : alone (fun ctx => runLinearBackward ctx inputs params) = .ok outs) :
    rankZero world (fun ctx => runLinearBackward ctx inputs params) = .ok outs ↔
      world = 1 ∨ (x.cols = 0 ∨ Overwritten params "dw" "dW") ∧
        (flagParam params "gather_dx" true = true ∨ w.rows = 0 ∨ Overwritten params "dx" "dX" ∨
          nameParam params "dx" "dX" = nameParam params "dw" "dW") := by
  obtain ⟨x', w', dy, dxName, dwName, db, J⟩ := exists_linearJob (.inr hmode) h
  cases hx.symm.trans J.input
  cases hw.symm.trans J.weight
  have hone := J.rankZero_row hmode Nat.one_pos (one_dvd _)
  have halone : rowInputGradient params ⟨0, 1⟩ w dy = dy.mul w.transpose := by
    unfold rowInputGradient
    split_ifs
    · rfl
    · exact Mat.colsPart_one
  rw [rankZero_one h, Mat.rowsPart_one, halone] at hone
  cases hone
  have hweight : (x.transpose.mul dy).rowsPart world 0 = x.transpose.mul dy ↔
      world = 1 ∨ x.cols = 0 := Mat.rowsPart_eq_self hxdvd hworld
  have hinput : rowInputGradient params ⟨0, world⟩ w dy = dy.mul w.transpose ↔
      flagParam params "gather_dx" true = true ∨ world = 1 ∨ w.rows = 0 := by
    unfold rowInputGradient
    split_ifs with hgather
    · simp [hgather]
    · simp only [hgather, Bool.false_eq_true, false_or]
      exact Mat.colsPart_eq_self hwdvd hworld
  have hnames : nameParam params "dx" "dX" = nameParam params "dw" "dW" ↔ dxName = dwName := by
    rw [J.inputName, J.weightName, Except.ok.injEq]
  rw [J.rankZero_row hmode hworld hwdvd, Except.ok.injEq, namedGradients, namedGradients,
    ofEntries_pair_eq, hweight, hinput, hnames, overwritten_iff J.weightName J.bias,
    overwritten_iff J.inputName J.bias]
  by_cases hsingle : world = 1
  · simp only [hsingle, true_or, or_true, and_true]
  · simp only [hsingle, false_or, or_assoc]
    rw [or_comm (a := dxName = dwName)]

end LinearJobs

/-! ### Multi-layer perceptrons -/

section Mlp

variable {T : Activations R} {params : Fields} {pre dy w2 hidden dPre : Mat R}

def Uses (T : Activations R) (params : Fields) (act : R → R) (backward : R → R → R) : Prop :=
  ∀ pre dy w2 : Mat R, dy.cols = w2.cols → dy.rows = pre.rows → w2.rows = pre.cols →
    hiddenGradients T params pre dy w2 =
      .ok (pre.map act, .zipWith backward (dy.mul w2.transpose) pre)

theorem map_id (A : Mat R) : A.map id = A := by
  refine Mat.ext_of_lt rfl rfl fun i hi j hj => ?_
  exact Mat.get_map hi hj

theorem zipWith_map {A B : Mat R} {op : R → R → R} {g : R → R} (hrows : B.rows = A.rows)
    (hcols : B.cols = A.cols) :
    Mat.zipWith op A (B.map g) = Mat.zipWith (fun a b => op a (g b)) A B := by
  refine Mat.ext_of_lt rfl rfl fun i hi j hj => ?_
  replace hi : i < A.rows := hi
  replace hj : j < A.cols := hj
  rw [Mat.get_zipWith hi hj, Mat.get_zipWith hi hj, Mat.get_map (hrows ▸ hi) (hcols ▸ hj)]

theorem zipWith_left {A B : Mat R} : Mat.zipWith (fun a _ => a) A B = A := by
  refine Mat.ext_of_lt rfl rfl fun i hi j hj => ?_
  exact Mat.get_zipWith hi hj

theorem exists_uses (h : hiddenGradients T params pre dy w2 = .ok (hidden, dPre)) :
    ∃ act backward, Uses T params act backward := by
  have hpointwise : ∀ (act grad : R → R) (pre dy w2 : Mat R), dy.cols = w2.cols →
      dy.rows = pre.rows → w2.rows = pre.cols →
      (do
        let dHidden ← matmul dy w2.transpose
        return (pre.map act, ← elementwise (· * ·) dHidden (pre.map grad)) : Py (Mat R × Mat R)) =
      .ok (pre.map act, .zipWith (fun d p => d * grad p) (dy.mul w2.transpose) pre) := by
    intro act grad pre dy w2 hcols hrows hwidth
    have hdHidden : matmul dy w2.transpose = .ok (dy.mul w2.transpose) :=
      matmul_eq_ok.mpr ⟨hcols, rfl⟩
    have hproduct : elementwise (· * ·) (dy.mul w2.transpose) (pre.map grad) =
        .ok (.zipWith (fun d p => d * grad p) (dy.mul w2.transpose) pre) := by
      rw [elementwise_same (A := dy.mul w2.transpose) (B := pre.map grad) hrows.symm hwidth.symm]
      exact congrArg Except.ok (zipWith_map hrows.symm hwidth.symm)
    rw [hdHidden, ok_bind, hproduct]
    rfl
  unfold hiddenGradients at h
  split at h
  next hact =>
    refine ⟨T.gelu, fun d p => d * T.geluGrad p, fun pre dy w2 hcols hrows hwidth => ?_⟩
    simp only [hiddenGradients, hact]
    exact hpointwise _ _ pre dy w2 hcols hrows hwidth
  next hact =>
    refine ⟨T.silu, fun d p => d * T.siluGrad p, fun pre dy w2 hcols hrows hwidth => ?_⟩
    simp only [hiddenGradients, hact]
    exact hpointwise _ _ pre dy w2 hcols hrows hwidth
  next hact =>
    refine ⟨id, fun d _ => d, fun pre dy w2 hcols hrows hwidth => ?_⟩
    have hdHidden : matmul dy w2.transpose = .ok (dy.mul w2.transpose) :=
      matmul_eq_ok.mpr ⟨hcols, rfl⟩
    simp only [hiddenGradients, hact]
    rw [hdHidden, map_id, zipWith_left]
    rfl
  · cases h

theorem hiddenGradients_sizes (h : hiddenGradients T params pre dy w2 = .ok (hidden, dPre)) :
    dy.cols = w2.cols ∧ hidden.rows = pre.rows ∧
      (dPre.cols = w2.rows ∨ commonSize w2.rows pre.cols = .ok dPre.cols) := by
  have hpointwise : ∀ act grad : R → R, (do
        let dHidden ← matmul dy w2.transpose
        return (pre.map act, ← elementwise (· * ·) dHidden (pre.map grad)) : Py (Mat R × Mat R)) =
      .ok (hidden, dPre) → dy.cols = w2.cols ∧ hidden.rows = pre.rows ∧
        (dPre.cols = w2.rows ∨ commonSize w2.rows pre.cols = .ok dPre.cols) := by
    intro act grad h
    obtain ⟨dHidden, hdHidden, h⟩ := bind_eq_ok.mp h
    obtain ⟨hcols, rfl⟩ := matmul_eq_ok.mp hdHidden
    obtain ⟨_, helementwise, h⟩ := bind_eq_ok.mp h
    cases h
    obtain ⟨rows, -, helementwise⟩ := bind_eq_ok.mp helementwise
    obtain ⟨cols, hcommon, helementwise⟩ := bind_eq_ok.mp helementwise
    cases helementwise
    exact ⟨hcols, rfl, .inr hcommon⟩
  unfold hiddenGradients at h
  split at h
  · exact hpointwise _ _ h
  · exact hpointwise _ _ h
  · obtain ⟨dHidden, hdHidden, h⟩ := bind_eq_ok.mp h
    obtain ⟨hcols, rfl⟩ := matmul_eq_ok.mp hdHidden
    cases h
    exact ⟨hcols, rfl, .inl rfl⟩
  · cases h

variable {x w1 : Mat R} {act : R → R} {backward : R → R → R}

theorem mlpGradients_eq {ctx : TensorParallelContext} (hrank : ctx.rank < ctx.worldSize)
    (huses : Uses T params act backward) (hmatch : x.cols = w1.rows) (hcols : dy.cols = w2.cols)
    (hrows : x.rows = dy.rows) (hwidth : w2.rows = w1.cols)
    (hdPre : dPre = .zipWith backward (dy.mul w2.transpose) (x.mul w1)) :
    mlpGradients T ctx params x w1 w2 dy =
      maybeAllReduce ctx
        ((splitForRank ctx dPre .cols).mul (splitForRank ctx w1.transpose .rows)) >>= fun dx =>
        .ret (dx, splitForRank ctx (x.transpose.mul dPre) .cols,
          splitForRank ctx (((x.mul w1).map act).transpose.mul dy) .rows) := by
  have hpre : matmul x (splitForRank ctx w1 .cols) = .ok (splitForRank ctx (x.mul w1) .cols) :=
    matmul_eq_ok.mpr ⟨hmatch, Mat.mul_colsPart⟩
  have hpartWidth :
      (splitForRank ctx w2 .rows).rows = (splitForRank ctx (x.mul w1) .cols).cols := by
    change Parts.size w2.rows _ _ = Parts.size w1.cols _ _
    rw [hwidth]
  have hhidden : hiddenGradients T params (splitForRank ctx (x.mul w1) .cols) dy
      (splitForRank ctx w2 .rows) =
        .ok (splitForRank ctx ((x.mul w1).map act) .cols, splitForRank ctx dPre .cols) := by
    rw [huses (splitForRank ctx (x.mul w1) .cols) dy (splitForRank ctx w2 .rows) hcols hrows.symm
      hpartWidth, hdPre]
    simp only [splitForRank]
    rw [Mat.map_colsPart hrank, Mat.transpose_rowsPart, Mat.mul_colsPart,
      Mat.zipWith_colsPart hrank hwidth.symm]
  have hdw2 : flatOuter (splitForRank ctx ((x.mul w1).map act) .cols) dy =
      .ok (splitForRank ctx (((x.mul w1).map act).transpose.mul dy) .rows) := by
    refine matmul_eq_ok.mpr ⟨hrows, ?_⟩
    simp only [splitForRank]
    rw [Mat.transpose_colsPart, Mat.rowsPart_mul]
  have hdw1 : flatOuter x (splitForRank ctx dPre .cols) =
      .ok (splitForRank ctx (x.transpose.mul dPre) .cols) := by
    refine matmul_eq_ok.mpr ⟨?_, Mat.mul_colsPart⟩
    rw [hdPre]
    exact hrows
  have hdx : matmul (splitForRank ctx dPre .cols) (splitForRank ctx w1 .cols).transpose =
      .ok ((splitForRank ctx dPre .cols).mul (splitForRank ctx w1.transpose .rows)) := by
    refine matmul_eq_ok.mpr ⟨?_, congrArg _ Mat.transpose_colsPart⟩
    rw [hdPre]
    exact hpartWidth
  simp only [mlpGradients, hpre, hhidden, hdw2, hdw1, hdx, Process.lift_ok, Process.ret_bind,
    Process.pure_eq_ret]

theorem mlp_sizes {g : Mat R × Mat R × Mat R}
    (h : alone (fun ctx => mlpGradients T ctx params x w1 w2 dy) = .ok g) :
    (∃ act backward, Uses T params act backward) ∧ x.cols = w1.rows ∧ dy.cols = w2.cols ∧
      x.rows = dy.rows ∧ (w2.rows = w1.cols ∨ w2.rows = 1) := by
  obtain ⟨pre, hpre, h⟩ := alone_lift_bind h
  obtain ⟨hmatch, rfl⟩ := matmul_eq_ok.mp hpre
  obtain ⟨⟨hidden, dPre⟩, hhidden, h⟩ := alone_lift_bind h
  obtain ⟨dw2, hdw2, h⟩ := alone_lift_bind h
  obtain ⟨dw1, -, h⟩ := alone_lift_bind h
  obtain ⟨dx, hdx, -⟩ := alone_lift_bind h
  obtain ⟨hcols, hrows, hwidth⟩ := hiddenGradients_sizes hhidden
  refine ⟨exists_uses hhidden, hmatch, hcols, ?_, ?_⟩
  · exact hrows.symm.trans (matmul_eq_ok.mp hdw2).1
  · have hdPre : dPre.cols = Parts.size w1.cols 1 0 := (matmul_eq_ok.mp hdx).1
    replace hwidth : dPre.cols = Parts.size w2.rows 1 0 ∨
      commonSize (Parts.size w2.rows 1 0) (Parts.size w1.cols 1 0) = .ok dPre.cols := hwidth
    rw [hdPre, Parts.size_one, Parts.size_one] at hwidth
    rcases hwidth with hwidth | hcommon
    · exact .inl hwidth.symm
    · unfold commonSize at hcommon
      split_ifs at hcommon with hsame hone hone'
      · exact .inl hsame
      · exact .inr hone
      · exact .inl (Except.ok.inj hcommon)

end Mlp

section MlpJobs

variable {T : Activations R} {inputs : SortedDict String (Mat R)} {params : Fields}
variable {w1 w2 : Mat R} {outs : SortedDict String (Mat R)}

variable (T inputs params) in
/-- What a backward job reads, an activation, and sizes that match. -/
structure MlpJob (x w1 w2 dy : Mat R) (dxName dw1Name dw2Name : String) (act : R → R)
    (backward : R → R → R) : Prop where
  input : inputParam inputs params "x" "x" = .ok x
  first : inputParam inputs params "w1" "W1" = .ok w1
  second : inputParam inputs params "w2" "W2" = .ok w2
  gradient : inputParam inputs params "dy" "dY" = .ok dy
  inputName : nameParam params "dx" "dX" = .ok dxName
  firstName : nameParam params "dw1" "dW1" = .ok dw1Name
  secondName : nameParam params "dw2" "dW2" = .ok dw2Name
  uses : Uses T params act backward
  inner : x.cols = w1.rows
  cols : dy.cols = w2.cols
  rows : x.rows = dy.rows
  width : w2.rows = w1.cols

theorem exists_mlpJob (hw1 : inputParam inputs params "w1" "W1" = .ok w1)
    (hw2 : inputParam inputs params "w2" "W2" = .ok w2) (hrow : w2.rows ≠ 1)
    (h : alone (fun ctx => runMlpBackward T ctx inputs params) = .ok outs) :
    ∃ x dy dxName dw1Name dw2Name act backward,
      MlpJob T inputs params x w1 w2 dy dxName dw1Name dw2Name act backward := by
  obtain ⟨x, hx, h⟩ := alone_lift_bind h
  obtain ⟨w1', hw1', h⟩ := alone_lift_bind h
  cases hw1.symm.trans hw1'
  obtain ⟨w2', hw2', h⟩ := alone_lift_bind h
  cases hw2.symm.trans hw2'
  obtain ⟨dy, hdy, h⟩ := alone_lift_bind h
  obtain ⟨g, hg, h⟩ := alone_bind h
  obtain ⟨dxName, hdxName, h⟩ := alone_lift_bind h
  obtain ⟨dw1Name, hdw1Name, h⟩ := alone_lift_bind h
  obtain ⟨dw2Name, hdw2Name, -⟩ := alone_lift_bind h
  obtain ⟨⟨act, backward, huses⟩, hmatch, hcols, hrows, hwidth⟩ := mlp_sizes (alone_eq_ok.mpr hg)
  exact ⟨x, dy, dxName, dw1Name, dw2Name, act, backward, hx, hw1, hw2, hdy, hdxName, hdw1Name,
    hdw2Name, huses, hmatch, hcols, hrows, hwidth.resolve_right hrow⟩

variable {x dy : Mat R} {dxName dw1Name dw2Name : String} {act : R → R} {backward : R → R → R}

theorem MlpJob.rankZero_eq
    (J : MlpJob T inputs params x w1 w2 dy dxName dw1Name dw2Name act backward)
    (hworld : 0 < world) {dPre : Mat R}
    (hdPre : dPre = .zipWith backward (dy.mul w2.transpose) (x.mul w1)) :
    rankZero world (fun ctx => runMlpBackward T ctx inputs params) =
      .ok (.ofEntries [(dxName, dPre.mul w1.transpose),
        (dw1Name, (x.transpose.mul dPre).colsPart world 0),
        (dw2Name, (((x.mul w1).map act).transpose.mul dy).rowsPart world 0)]) := by
  have hrun : ∀ ctx : TensorParallelContext, ctx.rank < ctx.worldSize →
      runMlpBackward T ctx inputs params =
        maybeAllReduce ctx
          ((splitForRank ctx dPre .cols).mul (splitForRank ctx w1.transpose .rows)) >>= fun dx =>
          .ret (SortedDict.ofEntries [(dxName, dx),
            (dw1Name, splitForRank ctx (x.transpose.mul dPre) .cols),
            (dw2Name, splitForRank ctx (((x.mul w1).map act).transpose.mul dy) .rows)]) := by
    intro ctx hrank
    simp only [runMlpBackward, J.input, J.first, J.second, J.gradient, J.inputName, J.firstName,
      J.secondName, Process.lift_ok, Process.ret_bind, Process.pure_eq_ret]
    rw [mlpGradients_eq hrank J.uses J.inner J.cols J.rows J.width hdPre]
    simp only [bind_assoc, Process.ret_bind]
  have hsum := ranks_reduce hworld
    (f := fun dx ctx => .ret (SortedDict.ofEntries [(dxName, dx),
      (dw1Name, splitForRank ctx (x.transpose.mul dPre) .cols),
      (dw2Name, splitForRank ctx (((x.mul w1).map act).transpose.mul dy) .rows)]))
    (A := dPre) (B := w1.transpose) (by rw [hdPre]; exact J.width)
  exact rankZero_of_ret hworld ((ranks_congr hrun).trans hsum)

theorem mlp_agrees_iff (hworld : 0 < world) (hw1 : inputParam inputs params "w1" "W1" = .ok w1)
    (hdvd1 : world ∣ w1.cols) (hw2 : inputParam inputs params "w2" "W2" = .ok w2)
    (hdvd2 : world ∣ w2.rows)
    (h : alone (fun ctx => runMlpBackward T ctx inputs params) = .ok outs) :
    rankZero world (fun ctx => runMlpBackward T ctx inputs params) = .ok outs ↔
      world = 1 ∨ w1.cols = 0 := by
  by_cases hone : world = 1
  · subst hone
    simp [rankZero_one h]
  have hrow : w2.rows ≠ 1 := by
    intro hrow
    rw [hrow] at hdvd2
    exact hone (Nat.dvd_one.mp hdvd2)
  obtain ⟨x, dy, dxName, dw1Name, dw2Name, act, backward, J⟩ := exists_mlpJob hw1 hw2 hrow h
  have hsingle := J.rankZero_eq Nat.one_pos rfl
  rw [rankZero_one h, Mat.colsPart_one, Mat.rowsPart_one] at hsingle
  cases hsingle
  rw [J.rankZero_eq hworld rfl, Except.ok.injEq]
  constructor
  · intro heq
    -- the last output is not overwritten
    have hlast := congrArg (SortedDict.find? · dw2Name) heq
    simp only [SortedDict.find?_ofEntries, List.reverse_cons, List.reverse_nil, List.nil_append,
      List.cons_append, List.find?_cons, decide_true, Option.map_some, Option.some.injEq] at hlast
    exact (Mat.rowsPart_eq_self (A := ((x.mul w1).map act).transpose.mul dy) hdvd1 hworld).mp hlast
  · intro hpart
    rw [(Mat.colsPart_eq_self (A := x.transpose.mul _) ?_ hworld).mpr ?_,
      (Mat.rowsPart_eq_self (A := ((x.mul w1).map act).transpose.mul dy) hdvd1 hworld).mpr hpart]
    · exact hdvd2
    · exact hpart.imp_right J.width.trans

end MlpJobs

/-- With a number of processes that divides the split widths, the outputs of the first process are
those of the audit exactly if there is one process, there is nothing to split, or the incomplete
gradients are overwritten by another output of the same name. -/
theorem backward_agrees_iff (T : Activations R) (inputs : SortedDict String (Mat R))
    (params : Fields) (hworld : 0 < world) :
    (∀ w outs, parallelMode params = .str "column" →
      inputParam inputs params "weight" "W" = .ok w → world ∣ w.cols →
      alone (fun ctx => runLinearBackward ctx inputs params) = .ok outs →
      (rankZero world (fun ctx => runLinearBackward ctx inputs params) = .ok outs ↔
        world = 1 ∨ w.cols = 0 ∨ Overwritten params "dw" "dW")) ∧
    (∀ x w outs, parallelMode params = .str "row" →
      inputParam inputs params "x" "x" = .ok x → world ∣ x.cols →
      inputParam inputs params "weight" "W" = .ok w → world ∣ w.rows →
      alone (fun ctx => runLinearBackward ctx inputs params) = .ok outs →
      (rankZero world (fun ctx => runLinearBackward ctx inputs params) = .ok outs ↔
        world = 1 ∨ (x.cols = 0 ∨ Overwritten params "dw" "dW") ∧
          (flagParam params "gather_dx" true = true ∨ w.rows = 0 ∨ Overwritten params "dx" "dX" ∨
            nameParam params "dx" "dX" = nameParam params "dw" "dW"))) ∧
    (∀ w1 w2 outs, inputParam inputs params "w1" "W1" = .ok w1 → world ∣ w1.cols →
      inputParam inputs params "w2" "W2" = .ok w2 → world ∣ w2.rows →
      alone (fun ctx => runMlpBackward T ctx inputs params) = .ok outs →
      (rankZero world (fun ctx => runMlpBackward T ctx inputs params) = .ok outs ↔
        world = 1 ∨ w1.cols = 0)) := by
  refine ⟨?_, ?_, ?_⟩
  · intro w outs hmode hw hdvd h
    exact column_agrees_iff hworld hmode hw hdvd h
  · intro x w outs hmode hx hxdvd hw hwdvd h
    exact row_agrees_iff hworld hmode hx hxdvd hw hwdvd h
  · intro w1 w2 outs hw1 hdvd1 hw2 hdvd2 h
    exact mlp_agrees_iff hworld hw1 hdvd1 hw2 hdvd2 h

/-! ### Two processes -/

section TwoProcesses

def gradientInputs : SortedDict String (Mat ℤ) :=
  .ofEntries [("x", counting 1 2), ("W", counting 2 2), ("W1", counting 2 2), ("W2", counting 2 2),
    ("dY", counting 1 2)]

def rowParams : Fields := [("parallel_mode", .str "row")]

def weightSizes (outputs : Py (SortedDict String (Mat ℤ))) : Option (ℕ × ℕ) :=
  (outputs.toOption.bind (SortedDict.find? · "dW")).map fun dw => (dw.rows, dw.cols)

/-- The device group uploads half of the gradient with which the audit compares it. -/
theorem half_gradient_published :
    weightSizes (rankZero 2 fun ctx => runLinearBackward ctx gradientInputs []) = some (2, 1) ∧
      weightSizes (alone fun ctx => runLinearBackward ctx gradientInputs []) = some (2, 2) ∧
      weightSizes (rankZero 2 fun ctx => runLinearBackward ctx gradientInputs rowParams) =
        some (1, 2) ∧
      weightSizes (alone fun ctx => runLinearBackward ctx gradientInputs rowParams) =
        some (2, 2) := by
  decide +kernel

/-- In none of the modes do two processes give the outputs of the audit. -/
theorem two_processes_differ : ∃ column row mlp,
    alone (fun ctx => runLinearBackward ctx gradientInputs []) = .ok column ∧
    rankZero 2 (fun ctx => runLinearBackward ctx gradientInputs []) ≠ .ok column ∧
    alone (fun ctx => runLinearBackward ctx gradientInputs rowParams) = .ok row ∧
    rankZero 2 (fun ctx => runLinearBackward ctx gradientInputs rowParams) ≠ .ok row ∧
    alone (fun ctx => runMlpBackward squares ctx gradientInputs []) = .ok mlp ∧
    rankZero 2 (fun ctx => runMlpBackward squares ctx gradientInputs []) ≠ .ok mlp := by
  have hsome : ∀ {outputs : Py (SortedDict String (Mat ℤ))}, outputs.toOption.isSome = true →
      ∃ outs, outputs = .ok outs := by
    intro outputs h
    obtain ⟨outs, houts⟩ := Option.isSome_iff_exists.mp h
    exact ⟨outs, toOption_eq_some.mp houts⟩
  have hkept : ∀ params key default, biasGradientName params = none →
      ¬ Overwritten params key default := by
    rintro params key default hnone ⟨name, -, hname⟩
    rw [hnone] at hname
    cases hname
  obtain ⟨column, hcolumn⟩ := hsome (by decide +kernel :
    (alone fun ctx => runLinearBackward ctx gradientInputs []).toOption.isSome = true)
  obtain ⟨row, hrow⟩ := hsome (by decide +kernel :
    (alone fun ctx => runLinearBackward ctx gradientInputs rowParams).toOption.isSome = true)
  obtain ⟨mlp, hmlp⟩ := hsome (by decide +kernel :
    (alone fun ctx => runMlpBackward squares ctx gradientInputs []).toOption.isSome = true)
  have htwo : 0 < 2 := Nat.two_pos
  refine ⟨column, row, mlp, hcolumn, ?_, hrow, ?_, hmlp, ?_⟩
  · intro heq
    have hiff := (backward_agrees_iff squares gradientInputs [] htwo).1 (counting 2 2) column rfl
      rfl (dvd_refl 2) hcolumn
    rcases hiff.mp heq with hone | hzero | hover
    · cases hone
    · cases hzero
    · exact hkept _ _ _ rfl hover
  · intro heq
    have hiff := (backward_agrees_iff squares gradientInputs rowParams htwo).2.1 (counting 1 2)
      (counting 2 2) row rfl rfl (dvd_refl 2) rfl (dvd_refl 2) hrow
    rcases hiff.mp heq with hone | ⟨hzero | hover, -⟩
    · cases hone
    · cases hzero
    · exact hkept _ _ _ rfl hover
  · intro heq
    have hiff := (backward_agrees_iff squares gradientInputs [] htwo).2.2 (counting 2 2)
      (counting 2 2) mlp rfl (dvd_refl 2) rfl (dvd_refl 2) hmlp
    rcases hiff.mp heq with hone | hzero
    · cases hone
    · cases hzero

end TwoProcesses

end TensorParallelBackward

import Teuton.TensorParallel

/-! The forward operations of the tensor-parallel runner. Whatever the number of processes, each
of them ends with the outputs that an audit computes in a group of one, or the group fails as the
audit does. -/
namespace TensorParallelForward

open PyJson Collectives TensorParallel
open Process (lift bind_assoc)

variable {R : Type} [CommRing R] {α γ : Type} {world : ℕ}

/-- Every process of the group has the result of the audit, or both fail. -/
def Agrees (world : ℕ) (program : TensorParallelContext → Rank R α) : Prop :=
  (ranks world program).toOption = (alone program).toOption.map (List.replicate world)

/-! ### Rules -/

section Rules

variable {p q : TensorParallelContext → Rank R α}

theorem agrees_congr
    (h : ∀ ctx : TensorParallelContext, ctx.rank < ctx.worldSize → p ctx = q ctx) :
    Agrees world p ↔ Agrees world q := by
  have hranks : ranks world p = ranks world q := by
    refine congrArg (runGroup medium) (List.map_congr_left fun rank hrank => ?_)
    exact h ⟨rank, world⟩ (List.mem_range.mp hrank)
  have halone : alone p = alone q := congrArg (atReturn medium) (h ⟨0, 1⟩ Nat.one_pos)
  rw [Agrees, Agrees, hranks, halone]

theorem range_ne_nil (hworld : 0 < world) : List.range world ≠ [] := by
  rw [Ne, List.range_eq_nil]
  omega

theorem agrees_lift (hworld : 0 < world) (x : Py α) :
    Agrees world fun _ => (lift x : Rank R α) := by
  have hranks : ranks world (fun _ => (lift x : Rank R α)) = x.map (List.replicate world) := by
    rw [ranks, runGroup_lift (range_ne_nil hworld)]
    simp only [List.map_const', List.length_range]
  have halone : alone (fun _ => (lift x : Rank R α)) = x := by
    cases x with
    | ok a => rfl
    | error e => rfl
  rw [Agrees, hranks, halone]
  cases x with
  | ok a => rfl
  | error e => rfl

theorem agrees_ret (hworld : 0 < world) (a : α) : Agrees world fun _ => (.ret a : Rank R α) :=
  agrees_lift hworld (.ok a)

theorem agrees_of_raise (halone : ∃ e, p ⟨0, 1⟩ = .raise e)
    (hrank : ∃ rank < world, ∃ e, p ⟨rank, world⟩ = .raise e) : Agrees world p := by
  obtain ⟨e, he⟩ := halone
  obtain ⟨rank, hlt, e', he'⟩ := hrank
  have hmem : (.raise e' : Rank R α) ∈ (List.range world).map fun rank => p ⟨rank, world⟩ :=
    List.mem_map.mpr ⟨rank, List.mem_range.mpr hlt, he'⟩
  obtain ⟨e'', hranks⟩ := runGroup_raise (M := medium) hmem
  rw [Agrees, ranks, hranks, alone, he]
  rfl

theorem agrees_lift_bind (hworld : 0 < world) {x : Py γ}
    {f : γ → TensorParallelContext → Rank R α} (h : ∀ a, x = .ok a → Agrees world (f a)) :
    Agrees world fun ctx => lift x >>= fun a => f a ctx := by
  cases x with
  | ok a => exact h a rfl
  | error e => exact agrees_of_raise ⟨e, rfl⟩ ⟨0, hworld, e, rfl⟩

end Rules

/-! ### Meeting of the processes -/

section Meeting

variable {f : Mat R → TensorParallelContext → Rank R α}

variable {A B : Mat R} {t : ℕ → Mat R}

theorem sameShape_range (rows cols n : ℕ)
    (h : ∀ i ≤ n, (t i).rows = rows ∧ (t i).cols = cols) :
    sameShape (t 0) (((List.range n).map Nat.succ).map t) = true := by
  rw [sameShape, List.all_eq_true]
  intro B hB
  obtain ⟨_, hj, rfl⟩ := List.mem_map.mp hB
  obtain ⟨k, hk, rfl⟩ := List.mem_map.mp hj
  have hlt := List.mem_range.mp hk
  obtain ⟨hrows, hcols⟩ := h k.succ (by omega)
  obtain ⟨hrows₀, hcols₀⟩ := h 0 (by omega)
  simp [hrows, hcols, hrows₀, hcols₀]

theorem reduce_range (rows cols : ℕ) (hworld : 0 < world)
    (h : ∀ i < world, (t i).rows = rows ∧ (t i).cols = cols) :
    medium.reduce ((List.range world).map t) =
      .ok (Mat.sum rows cols ((List.range world).map t)) := by
  obtain ⟨n, rfl⟩ := Nat.exists_eq_succ_of_ne_zero hworld.ne'
  have hshape := sameShape_range rows cols n fun i hi => h i (by omega)
  obtain ⟨hrows, hcols⟩ := h 0 hworld
  rw [List.range_succ_eq_map, List.map_cons]
  change (if sameShape (t 0) _ then _ else _) = _
  rw [if_pos hshape, hrows, hcols]

theorem gather_range (rows cols : ℕ) (hworld : 0 < world)
    (h : ∀ i < world, (t i).rows = rows ∧ (t i).cols = cols) :
    medium.gather ((List.range world).map t) = .ok ((List.range world).map t) := by
  obtain ⟨n, rfl⟩ := Nat.exists_eq_succ_of_ne_zero hworld.ne'
  have hshape := sameShape_range rows cols n fun i hi => h i (by omega)
  rw [List.range_succ_eq_map, List.map_cons]
  change (if sameShape (t 0) _ then _ else _) = _
  rw [if_pos hshape]

theorem ranks_reduce (hworld : 0 < world) (hmatch : A.cols = B.rows) :
    ranks world (fun ctx => maybeAllReduce ctx
      ((splitForRank ctx A .cols).mul (splitForRank ctx B .rows)) >>= fun y => f y ctx) =
    ranks world (f (A.mul B)) := by
  by_cases hone : world ≤ 1
  · obtain rfl : world = 1 := by omega
    change runGroup medium [f ((A.colsPart 1 0).mul (B.rowsPart 1 0)) ⟨0, 1⟩] = _
    rw [Mat.colsPart_one, Mat.rowsPart_one]
    rfl
  · simp only [ranks, maybeAllReduce, hone, if_false, Process.allReduce_bind, Process.ret_bind]
    rw [runGroup_allReduce (range_ne_nil hworld)]
    have hsum := reduce_range (t := fun i => (A.colsPart world i).mul (B.rowsPart world i)) A.rows
      B.cols hworld fun _ _ => ⟨rfl, rfl⟩
    rw [Mat.sum_mul_parts hworld hmatch] at hsum
    simp only [splitForRank]
    rw [hsum]
    rfl

theorem ranks_gather (hworld : 0 < world) (hdvd : world ∣ A.cols) :
    ranks world (fun ctx => maybeAllGather ctx (splitForRank ctx A .cols) >>= fun y => f y ctx) =
      ranks world (f A) := by
  by_cases hone : world ≤ 1
  · obtain rfl : world = 1 := by omega
    change runGroup medium [f (A.colsPart 1 0) ⟨0, 1⟩] = _
    rw [Mat.colsPart_one]
    rfl
  · simp only [ranks, maybeAllGather, hone, if_false, Process.allGather_bind, Process.ret_bind]
    rw [runGroup_allGather (range_ne_nil hworld)]
    have hparts := gather_range (t := A.colsPart world) A.rows (A.cols / world) hworld
      fun _ _ => ⟨rfl, Parts.size_of_dvd hdvd⟩
    simp only [splitForRank]
    rw [hparts, ok_bind, Mat.hcatAll_colsPart hworld]

theorem alone_reduce :
    alone (fun ctx => maybeAllReduce ctx
      ((splitForRank ctx A .cols).mul (splitForRank ctx B .rows)) >>= fun y => f y ctx) =
    alone (f (A.mul B)) := by
  change atReturn medium (f ((A.colsPart 1 0).mul (B.rowsPart 1 0)) ⟨0, 1⟩) = _
  rw [Mat.colsPart_one, Mat.rowsPart_one]
  rfl

theorem alone_gather :
    alone (fun ctx => maybeAllGather ctx (splitForRank ctx A .cols) >>= fun y => f y ctx) =
      alone (f A) := by
  change atReturn medium (f (A.colsPart 1 0) ⟨0, 1⟩) = _
  rw [Mat.colsPart_one]
  rfl

theorem agrees_reduced (hworld : 0 < world) (h : ∀ y, Agrees world (f y)) :
    Agrees world fun ctx =>
      lift (matmul (splitForRank ctx A .cols) (splitForRank ctx B .rows)) >>= fun y =>
        maybeAllReduce ctx y >>= fun y => f y ctx := by
  by_cases hmatch : A.cols = B.rows
  · have hproduct : ∀ ctx : TensorParallelContext,
        matmul (splitForRank ctx A .cols) (splitForRank ctx B .rows) =
          .ok ((splitForRank ctx A .cols).mul (splitForRank ctx B .rows)) := by
      intro ctx
      refine matmul_eq_ok.mpr ⟨?_, rfl⟩
      change Parts.size A.cols _ _ = Parts.size B.rows _ _
      rw [hmatch]
    simp only [hproduct, Process.lift_ok, Process.ret_bind]
    rw [Agrees, ranks_reduce hworld hmatch, alone_reduce]
    exact h (A.mul B)
  · have hraise : ∀ ctx : TensorParallelContext,
        Parts.size A.cols ctx.worldSize ctx.rank ≠ Parts.size B.rows ctx.worldSize ctx.rank →
        ∃ e, matmul (splitForRank ctx A .cols) (splitForRank ctx B .rows) = .error e :=
      fun ctx hne => ⟨_, if_neg hne⟩
    refine agrees_of_raise ?_ ?_
    · obtain ⟨e, he⟩ := hraise ⟨0, 1⟩ (by simpa only [Parts.size_one] using hmatch)
      exact ⟨e, by rw [he]; rfl⟩
    · obtain ⟨rank, hrank, hne⟩ := Parts.exists_size_ne hworld hmatch
      obtain ⟨e, he⟩ := hraise ⟨rank, world⟩ hne
      exact ⟨rank, hrank, e, by rw [he]; rfl⟩

theorem agrees_gathered (hworld : 0 < world) (hdvd : world ∣ A.cols)
    (h : Agrees world (f A)) : Agrees world fun ctx =>
      maybeAllGather ctx (splitForRank ctx A .cols) >>= fun y => f y ctx := by
  rw [Agrees, ranks_gather hworld hdvd, alone_gather]
  exact h

end Meeting

/-! ### Linear layers -/

section Layers

variable {f : Mat R → TensorParallelContext → Rank R α} {x w : Mat R} {bias : Option (Mat R)}

theorem agrees_rowParallel (hworld : 0 < world) (h : ∀ y, Agrees world (f y)) :
    Agrees world fun ctx => rowParallel ctx w bias x false >>= fun y => f y ctx := by
  simp only [rowParallel, bind_assoc, Bool.false_eq_true, if_false]
  exact agrees_reduced hworld fun y => agrees_lift_bind hworld fun y _ => h y

theorem agrees_rowParallel_split (hworld : 0 < world) (x w : Mat R) (bias : Option (Mat R))
    (h : ∀ y, Agrees world (f y)) : Agrees world fun ctx =>
      rowParallel ctx w bias (splitForRank ctx x .cols) true >>= fun y => f y ctx := by
  simp only [rowParallel, bind_assoc, if_true]
  exact agrees_reduced hworld fun y => agrees_lift_bind hworld fun y _ => h y

def repeatRow (rows : ℕ) (b : Mat R) : Mat R := .ofFn rows b.cols fun _ j => b.get 0 j

theorem get_repeatRow {rows i j : ℕ} {b : Mat R} (hi : i < rows) (hj : j < b.cols) :
    (repeatRow rows b).get i j = b.get 0 j := Mat.get_ofFn hi hj

theorem repeatRow_colsPart {rows parts i : ℕ} {b : Mat R} (hi : i < parts) :
    repeatRow rows (b.colsPart parts i) = (repeatRow rows b).colsPart parts i := by
  refine Mat.ext_of_lt rfl rfl fun r hr c hc => ?_
  replace hr : r < rows := hr
  replace hc : c < Parts.size b.cols parts i := hc
  rw [get_repeatRow (b := b.colsPart parts i) hr hc, Mat.get_colsPart hc,
    Mat.get_colsPart (A := repeatRow rows b) hc]
  exact (get_repeatRow hr (Parts.lt_width hi hc)).symm

theorem commonSize_one (a : ℕ) : commonSize a 1 = .ok a := by
  by_cases h : a = 1
  · rw [h, commonSize_self]
  · rw [commonSize, if_neg h, if_neg h, if_pos rfl]

theorem addBias_row {y b : Mat R} (hrows : b.rows = 1) (hcols : b.cols = y.cols) :
    addBias y (some b) = .ok (.zipWith (· + ·) y (repeatRow y.rows b)) := by
  have hstretch : stretch y.rows y.cols b = repeatRow y.rows b := by
    rw [repeatRow, hcols]
    refine Mat.eq_ofFn rfl rfl fun i hi j hj => ?_
    rw [stretch, Mat.get_ofFn hi hj, hrows, if_pos rfl]
    split_ifs with hone
    · congr 1
      omega
    · rfl
  rw [addBias, elementwise, hrows, hcols, commonSize_one, commonSize_self, ok_bind, ok_bind,
    stretch_self, hstretch]
  rfl

def layer (x w : Mat R) : Option (Mat R) → Mat R
  | none => x.mul w
  | some b => .zipWith (· + ·) (x.mul w) (repeatRow x.rows b)

theorem cols_layer (x w : Mat R) (bias : Option (Mat R)) : (layer x w bias).cols = w.cols := by
  cases bias with
  | none => rfl
  | some b => rfl

theorem columnParallel_eq {ctx : TensorParallelContext} (hrank : ctx.rank < ctx.worldSize)
    (hmatch : x.cols = w.rows) (hbias : ∀ b ∈ bias, b.rows = 1 ∧ b.cols = w.cols) :
    columnParallel ctx w bias x true =
      maybeAllGather ctx (splitForRank ctx (layer x w bias) .cols) := by
  have hproduct : matmul x (splitForRank ctx w .cols) =
      .ok (splitForRank ctx (x.mul w) .cols) := matmul_eq_ok.mpr ⟨hmatch, Mat.mul_colsPart⟩
  simp only [columnParallel, hproduct, Process.lift_ok, Process.ret_bind, if_true]
  cases bias with
  | none => rfl
  | some b =>
    obtain ⟨hrows, hcols⟩ := hbias b rfl
    have haxis : biasAxis b = .cols := if_pos hrows
    have hadd : addBias (splitForRank ctx (x.mul w) .cols) (some (splitForRank ctx b .cols)) =
        .ok (splitForRank ctx (layer x w (some b)) .cols) := by
      have hwidth : (splitForRank ctx b .cols).cols = (splitForRank ctx (x.mul w) .cols).cols := by
        change Parts.size b.cols _ _ = Parts.size w.cols _ _
        rw [hcols]
      rw [addBias_row (b := splitForRank ctx b .cols) hrows hwidth]
      simp only [splitForRank, layer]
      rw [repeatRow_colsPart hrank]
      exact congrArg Except.ok (Mat.zipWith_colsPart hrank hcols)
    rw [Option.map_some, haxis, hadd]
    rfl

theorem agrees_columnParallel_mismatch {gather : Bool} (hworld : 0 < world)
    (hmatch : x.cols ≠ w.rows) :
    Agrees world fun ctx => columnParallel ctx w bias x gather >>= fun y => f y ctx := by
  have hraise : ∀ ctx : TensorParallelContext, ∃ e,
      matmul x (splitForRank ctx w .cols) = .error e := fun ctx => ⟨_, if_neg hmatch⟩
  refine agrees_of_raise ?_ ⟨0, hworld, ?_⟩
  · obtain ⟨e, he⟩ := hraise ⟨0, 1⟩
    exact ⟨e, by rw [columnParallel, he]; rfl⟩
  · obtain ⟨e, he⟩ := hraise ⟨0, world⟩
    exact ⟨e, by rw [columnParallel, he]; rfl⟩

theorem agrees_columnParallel (hworld : 0 < world) (hdvd : world ∣ w.cols)
    (hbias : ∀ b ∈ bias, b.rows = 1 ∧ b.cols = w.cols) (h : ∀ y, Agrees world (f y)) :
    Agrees world fun ctx => columnParallel ctx w bias x true >>= fun y => f y ctx := by
  by_cases hmatch : x.cols = w.rows
  · refine (agrees_congr fun ctx hrank => ?_).mpr
      (agrees_gathered hworld (A := layer x w bias) (by rwa [cols_layer]) (h _))
    rw [columnParallel_eq hrank hmatch hbias]
  · exact agrees_columnParallel_mismatch hworld hmatch

theorem agrees_columnParallel_split (hworld : 0 < world)
    (h : Agrees world fun ctx => f (splitForRank ctx (x.mul w) .cols) ctx) :
    Agrees world fun ctx => columnParallel ctx w none x false >>= fun y => f y ctx := by
  by_cases hmatch : x.cols = w.rows
  · refine (agrees_congr fun ctx _ => ?_).mpr h
    have hproduct : matmul x (splitForRank ctx w .cols) =
        .ok (splitForRank ctx (x.mul w) .cols) := matmul_eq_ok.mpr ⟨hmatch, Mat.mul_colsPart⟩
    rw [columnParallel, hproduct]
    rfl
  · exact agrees_columnParallel_mismatch hworld hmatch

end Layers

/-! ### Jobs -/

section Jobs

variable (T : Activations R) (inputs : SortedDict String (Mat R)) (params : Fields)

theorem agrees_named (hworld : 0 < world) (y : Mat R) : Agrees world fun _ =>
    (lift (nameParam params "output" "y") >>= fun output =>
      return SortedDict.ofEntries [(output, y)] : Rank R (SortedDict String (Mat R))) :=
  agrees_lift_bind hworld fun output _ => agrees_ret hworld (SortedDict.ofEntries [(output, y)])

theorem runMlp_agrees (hworld : 0 < world) :
    Agrees world fun ctx => runMlp T ctx inputs params := by
  refine agrees_lift_bind hworld fun x _ => agrees_lift_bind hworld fun w1 _ =>
    agrees_lift_bind hworld fun w2 _ => agrees_columnParallel_split hworld ?_
  refine agrees_lift_bind hworld fun activation _ => ?_
  refine (agrees_congr fun ctx hrank => ?_).mpr
    (agrees_rowParallel_split hworld ((x.mul w1).map activation) w2 none
      fun y => agrees_named params hworld y)
  rw [splitForRank, Mat.map_colsPart hrank]
  rfl

theorem runLinear_agrees_row (hworld : 0 < world) (hmode : parallelMode params = .str "row")
    (hinput : flagParam params "input_is_parallel" false = false) :
    Agrees world fun ctx => runLinear ctx inputs params := by
  refine agrees_lift_bind hworld fun x _ => agrees_lift_bind hworld fun w _ =>
    agrees_lift_bind hworld fun bias _ => ?_
  simp only [hmode, hinput]
  exact agrees_rowParallel hworld fun y => agrees_named params hworld y

theorem runLinear_agrees_column (hworld : 0 < world)
    (hmode : parallelMode params = .str "column")
    (hgather : flagParam params "gather_output" true = true)
    (hdvd : ∀ w, inputParam inputs params "weight" "W" = .ok w → world ∣ w.cols ∧
      ∀ b, biasParam inputs params = .ok (some b) → b.rows = 1 ∧ b.cols = w.cols) :
    Agrees world fun ctx => runLinear ctx inputs params := by
  refine agrees_lift_bind hworld fun x _ => agrees_lift_bind hworld fun w hw =>
    agrees_lift_bind hworld fun bias hbias => ?_
  obtain ⟨hdvd, hwidth⟩ := hdvd w hw
  simp only [hmode, hgather]
  refine agrees_columnParallel hworld hdvd ?_ fun y => agrees_named params hworld y
  rintro b rfl
  exact hwidth b hbias

/-- A multi-layer perceptron, a layer split by rows and a layer split by columns with gathered
output give every process the outputs of the audit. -/
theorem forward_agrees (hworld : 0 < world) :
    Agrees world (fun ctx => runMlp T ctx inputs params) ∧
    (parallelMode params = .str "row" → flagParam params "input_is_parallel" false = false →
      Agrees world fun ctx => runLinear ctx inputs params) ∧
    (parallelMode params = .str "column" → flagParam params "gather_output" true = true →
      (∀ w, inputParam inputs params "weight" "W" = .ok w → world ∣ w.cols ∧
        ∀ b, biasParam inputs params = .ok (some b) → b.rows = 1 ∧ b.cols = w.cols) →
      Agrees world fun ctx => runLinear ctx inputs params) :=
  ⟨runMlp_agrees T inputs params hworld, runLinear_agrees_row inputs params hworld,
    runLinear_agrees_column inputs params hworld⟩

end Jobs

section FourProcesses

def counting (rows cols : ℕ) : Mat ℤ := .ofFn rows cols fun i j => i + 2 * j

def smallInputs : SortedDict String (Mat ℤ) :=
  .ofEntries [("x", counting 2 5), ("W1", counting 5 6), ("W2", counting 6 8), ("W", counting 5 8),
    ("b", counting 1 8)]

def squares : Activations ℤ where
  gelu := fun x => x * x
  silu := fun x => x * x
  sigmoid := id
  erf := id
  exp := id
  divSqrtTwo := id
  half := 1
  sqrtTwoOverPi := 1

/-- Four divides neither the inputs nor the hidden numbers, but the outputs. -/
theorem four_processes_agree : ∃ mlp row column,
    ranks 4 (fun ctx => runMlp squares ctx smallInputs []) = .ok (List.replicate 4 mlp) ∧
    ranks 4 (fun ctx => runLinear ctx smallInputs
      [("bias", .str "b"), ("parallel_mode", .str "row")]) = .ok (List.replicate 4 row) ∧
    ranks 4 (fun ctx => runLinear ctx smallInputs [("bias", .str "b")]) =
      .ok (List.replicate 4 column) := by
  have hagree : ∀ {α : Type} {program : TensorParallelContext → Rank ℤ α},
      Agrees 4 program → (alone program).toOption.isSome = true →
      ∃ out, ranks 4 program = .ok (List.replicate 4 out) := by
    intro α program h hsome
    obtain ⟨out, hout⟩ := Option.isSome_iff_exists.mp hsome
    rw [Agrees, hout] at h
    exact ⟨out, toOption_eq_some.mp h⟩
  have hwidth : ∀ w, inputParam smallInputs [("bias", .str "b")] "weight" "W" = .ok w → 4 ∣ w.cols ∧
      ∀ b, biasParam smallInputs [("bias", .str "b")] = .ok (some b) →
        b.rows = 1 ∧ b.cols = w.cols := by
    intro w hw
    cases hw
    refine ⟨by decide +kernel, fun b hb => ?_⟩
    cases hb
    decide +kernel
  have hfour : 0 < 4 := by decide
  obtain ⟨mlp, hmlp⟩ := hagree (forward_agrees squares smallInputs [] hfour).1 (by decide +kernel)
  obtain ⟨row, hrow⟩ := hagree ((forward_agrees squares smallInputs
    [("bias", .str "b"), ("parallel_mode", .str "row")] hfour).2.1 rfl rfl) (by decide +kernel)
  obtain ⟨column, hcolumn⟩ := hagree ((forward_agrees squares smallInputs [("bias", .str "b")]
    hfour).2.2 rfl rfl hwidth) (by decide +kernel)
  exact ⟨mlp, row, column, hmlp, hrow, hcolumn⟩

end FourProcesses

end TensorParallelForward

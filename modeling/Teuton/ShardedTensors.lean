import Mathlib.Data.List.Sigma
import Teuton.DistributedExecution
import Teuton.RowMajor
import Teuton.TensorCodec

/-! Tensors that are stored as one object for each rank, with a manifest. The split of a tensor
and the concatenation of tensors are as documented: parts as equal as possible, the longer ones
first, some of them empty if there are more ranks than indices. -/
namespace ShardedTensors

open PyText Signatures ObjectStore Protocol GraphEval TensorIo AuditReplay AssignmentGrants
open ProtocolRoundTrip JobExecution DistributedExecution TensorCodec RowMajor
open PyJson (Py PyErr Json ok_bind mapM_eq_map mapM_eq_ok)

variable {β : Type}

section Split

/-- The indices from `start` on in dimension `d`, at most `n` of them. -/
def part (t : Tensor) (d start n : ℕ) (hd : d < t.shape.length)
    (hn : start + n ≤ extent t.shape d) : Tensor where
  dtype := t.dtype
  shape := t.shape.set d n
  bits := RowMajor.part t.shape d start n t.bits
  fits := fun x hx => t.fits x (mem_of_mem_part hx)
  sized := length_part hd t.sized hn
  truth := fun h x hx => t.truth h x (mem_of_mem_part hx)

theorem section_le {e n i : ℕ} (hi : i < n) : sectionStart e n i + sectionLength e n i ≤ e := by
  have hn : 0 < n := Nat.zero_lt_of_lt hi
  have hmono : Monotone (sectionStart e n) :=
    monotone_nat_of_le_succ fun k => by rw [sectionStart_succ]; exact Nat.le_add_right _ _
  calc sectionStart e n i + sectionLength e n i = sectionStart e n (i + 1) :=
        (sectionStart_succ e n i).symm
    _ ≤ sectionStart e n n := hmono hi
    _ = e := sectionStart_self hn e

def tensorSplit (t : Tensor) (n d : ℕ) (hd : d < t.shape.length) : List Tensor :=
  (List.finRange n).map fun i : Fin n =>
    part t d (sectionStart (extent t.shape d) n i) (sectionLength (extent t.shape d) n i) hd
      (section_le i.isLt)

/-- The tensors differ from the first one in dimension `d` only. -/
def Joinable (first : Tensor) (rest : List Tensor) (d : ℕ) : Prop :=
  d < first.shape.length ∧
    ∀ t ∈ rest, t.dtype = first.dtype ∧ t.shape.set d 0 = first.shape.set d 0

instance (first : Tensor) (rest : List Tensor) (d : ℕ) : Decidable (Joinable first rest d) :=
  inferInstanceAs (Decidable (_ ∧ _))

variable {s s' : List ℕ}

theorem outer_eq {d : ℕ} (h : s.set d 0 = s'.set d 0) : outer s d = outer s' d := by
  rw [← outer_set s d 0, h, outer_set]

theorem inner_eq {d : ℕ} (h : s.set d 0 = s'.set d 0) : inner s d = inner s' d := by
  rw [← inner_set s d 0, h, inner_set]

theorem length_eq {d : ℕ} (h : s.set d 0 = s'.set d 0) : s.length = s'.length := by
  simpa using congrArg List.length h

theorem set_eq {d : ℕ} (h : s.set d 0 = s'.set d 0) (n : ℕ) :
    s.set d n = s'.set d n := by
  simpa using congrArg (fun l => List.set l d n) h

variable {first : Tensor} {rest : List Tensor} {d : ℕ}

theorem Joinable.mem (h : Joinable first rest d) {t : Tensor} (ht : t ∈ first :: rest) :
    t.dtype = first.dtype ∧ t.shape.set d 0 = first.shape.set d 0 := by
  rcases List.mem_cons.mp ht with rfl | ht
  · exact ⟨rfl, rfl⟩
  · exact h.2 t ht

def pieces (l : List Tensor) (d : ℕ) : List (ℕ × List ℕ) :=
  l.map fun t => (extent t.shape d, t.bits)

theorem mem_pieces {l : List Tensor} {q : ℕ × List ℕ} (h : q ∈ pieces l d) :
    ∃ t ∈ l, q = (extent t.shape d, t.bits) := by
  obtain ⟨t, ht, rfl⟩ := List.mem_map.mp h
  exact ⟨t, ht, rfl⟩

def concat (first : Tensor) (rest : List Tensor) (d : ℕ) (h : Joinable first rest d) : Tensor where
  dtype := first.dtype
  shape := first.shape.set d ((pieces (first :: rest) d).map Prod.fst).sum
  bits := join (outer first.shape d) (inner first.shape d) (pieces (first :: rest) d)
  fits := by
    intro x hx
    obtain ⟨q, hq, hx⟩ := mem_of_mem_join hx
    obtain ⟨t, ht, rfl⟩ := mem_pieces hq
    rw [← (h.mem ht).1]
    exact t.fits x hx
  sized := by
    rw [prod_set h.1]
    apply length_join
    intro q hq
    obtain ⟨t, ht, rfl⟩ := mem_pieces hq
    have hshape := (h.mem ht).2
    have hd : d < t.shape.length := by rw [length_eq hshape]; exact h.1
    rw [← outer_eq hshape, ← inner_eq hshape, ← prod_eq hd, t.sized]
  truth := by
    intro hbool x hx
    obtain ⟨q, hq, hx⟩ := mem_of_mem_join hx
    obtain ⟨t, ht, rfl⟩ := mem_pieces hq
    exact t.truth ((h.mem ht).1.trans hbool) x hx

theorem concat_bits (h : Joinable first rest d) : (concat first rest d h).bits =
    join (outer first.shape d) (inner first.shape d) (pieces (first :: rest) d) := rfl

variable {t : Tensor} {n : ℕ}

theorem mem_tensorSplit {hd : d < t.shape.length} {s : Tensor} (h : s ∈ tensorSplit t n d hd) :
    s.dtype = t.dtype ∧ s.shape.set d 0 = t.shape.set d 0 := by
  obtain ⟨i, -, rfl⟩ := List.mem_map.mp h
  exact ⟨rfl, List.set_set ..⟩

theorem pieces_tensorSplit (hd : d < t.shape.length) :
    pieces (tensorSplit t n d hd) d = (List.range n).map fun i =>
      (sectionLength (extent t.shape d) n i,
        RowMajor.part t.shape d (sectionStart (extent t.shape d) n i)
          (sectionLength (extent t.shape d) n i) t.bits) := by
  rw [pieces, tensorSplit, List.map_map, ← List.map_coe_finRange_eq_range, List.map_map]
  refine List.map_congr_left fun i _ => ?_
  simp only [Function.comp_apply, part, extent_set hd]

theorem sum_sections {n : ℕ} (hn : 0 < n) (e : ℕ) :
    ((List.range n).map (sectionLength e n)).sum = e := by
  have hsum : ∀ k, ((List.range k).map (sectionLength e n)).sum = sectionStart e n k := by
    intro k
    induction k with
    | zero => rw [List.range_zero, List.map_nil, List.sum_nil, sectionStart_zero]
    | succ k ih =>
      rw [List.range_succ, List.map_append, List.sum_append, ih, List.map_singleton,
        List.sum_singleton, sectionStart_succ]
  rw [hsum, sectionStart_self hn]

theorem concat_tensorSplit (hd : d < t.shape.length) (hn : 0 < n)
    (hparts : tensorSplit t n d hd = first :: rest) :
    ∃ h : Joinable first rest d, concat first rest d h = t := by
  have hmem : ∀ s ∈ first :: rest, s.dtype = t.dtype ∧ s.shape.set d 0 = t.shape.set d 0 :=
    fun s hs => mem_tensorSplit (hparts ▸ hs)
  obtain ⟨hdtype, hshape⟩ := hmem first List.mem_cons_self
  have hjoinable : Joinable first rest d := by
    refine ⟨by rw [length_eq hshape]; exact hd, fun s hs => ?_⟩
    obtain ⟨hdtype', hshape'⟩ := hmem s (List.mem_cons_of_mem _ hs)
    exact ⟨hdtype'.trans hdtype.symm, hshape'.trans hshape.symm⟩
  refine ⟨hjoinable, Tensor.ext hdtype ?_ ?_⟩
  · have hsum : ((pieces (first :: rest) d).map Prod.fst).sum = extent t.shape d := by
      rw [← hparts, pieces_tensorSplit, List.map_map]
      exact sum_sections hn _
    calc (concat first rest d hjoinable).shape = first.shape.set d (extent t.shape d) :=
          congrArg (first.shape.set d) hsum
      _ = t.shape.set d (extent t.shape d) := set_eq hshape _
      _ = t.shape := set_extent t.shape d
  · calc (concat first rest d hjoinable).bits =
          join (outer t.shape d) (inner t.shape d) (pieces (first :: rest) d) := by
          rw [concat_bits, outer_eq hshape, inner_eq hshape]
      _ = t.bits := by
          rw [← hparts, pieces_tensorSplit]
          exact join_parts hd t.sized (sectionStart_zero _ _) (sectionStart_succ _ _)
            (sectionStart_self hn _)

end Split

def dimOf (rank : ℕ) (d : ℤ) : ℕ := (if d < 0 then d + rank else d).toNat

theorem dimOf_lt {rank : ℕ} {d : ℤ} (hlow : -(rank : ℤ) ≤ d) (hhigh : d < rank) :
    dimOf rank d < rank := by
  unfold dimOf
  split_ifs <;> omega

/-- The libraries of the device group work on tensors as documented. -/
structure Documented (W : GroupLibraries β Tensor) (np : Numpy) : Prop where
  platform : W.platform.Lawful
  bytes : W.platform.Bytes
  numpy : np.Lawful
  describes : Describes W.torch
  buffers : W.buffers = numpyBuffers np
  decodeTensor : W.torch.decodeTensor = decodeTensor W.platform (numpyBuffers np)
  tensorSplit : ∀ t n d, 0 < n → (hd : d < t.shape.length) →
    W.tensorSplit t n d = tensorSplit t n d hd
  cat : ∀ first rest (d : ℤ), -(first.shape.length : ℤ) ≤ d → d < first.shape.length →
    (h : Joinable first rest (dimOf first.shape.length d)) →
    W.torch.cat (first :: rest) d = .ok (concat first rest (dimOf first.shape.length d) h)

section Uris

def baseUri (uri : String) : String :=
  if endsWith uri ".json" then String.ofList (uri.toList.take (uri.length - 5)) else uri

def rankSuffix (rank : ℕ) : String := ".rank" ++ toString rank ++ ".bin"

theorem shardUri_eq (uri : String) (rank : ℕ) :
    shardUri uri rank = baseUri uri ++ rankSuffix rank := by
  simp [shardUri, baseUri, rankSuffix, String.append_assoc]

theorem baseUri_cut (uri : String) :
    ∃ cut, uri.toList = (baseUri uri).toList ++ cut ∧ cut.length ≤ 5 ∧ '/' ∉ cut := by
  unfold baseUri
  split_ifs with h
  · obtain ⟨base, hbase⟩ := List.isSuffixOf_iff_suffix.mp h
    have hlength : base.length = uri.length - 5 := by
      rw [← String.length_toList, ← hbase, List.length_append]
      rfl
    refine ⟨".json".toList, ?_, by decide, by decide⟩
    rw [String.toList_ofList, ← hbase, ← hlength, List.take_left]
  · exact ⟨[], by simp, by decide, List.not_mem_nil⟩

theorem length_rankSuffix (rank : ℕ) : 9 ≤ (rankSuffix rank).toList.length := by
  simp only [rankSuffix, String.toList_append, List.length_append]
  have hends : ".rank".toList.length + ".bin".toList.length = 9 := by decide
  omega

theorem shardUri_ne (uri : String) (rank : ℕ) : shardUri uri rank ≠ uri := by
  intro h
  obtain ⟨cut, hcut, hshort, -⟩ := baseUri_cut uri
  have hlist := congrArg String.toList h
  rw [shardUri_eq, String.toList_append, hcut, List.append_cancel_left_eq] at hlist
  have hlong := length_rankSuffix rank
  rw [hlist] at hlong
  omega

theorem shardUri_injective (uri : String) : Function.Injective (shardUri uri) := by
  intro rank rank' h
  have hlist := congrArg String.toList h
  simp only [shardUri_eq, rankSuffix, String.toList_append, List.append_cancel_left_eq,
    List.append_cancel_right_eq] at hlist
  exact toString_nat_injective (String.toList_inj.mp hlist)

theorem rankSuffix_line (rank : ℕ) : '\n' ∉ (rankSuffix rank).toList := by
  intro h
  simp only [rankSuffix, String.toList_append, List.mem_append] at h
  rcases h with (h | h) | h
  · exact absurd h (by decide)
  · exact absurd (mem_toString_nat h) (by decide)
  · exact absurd h (by decide)

theorem exists_joinUri {uri : String} (h : ∃ parts, parseUri uri = .ok parts) :
    ∃ bucket key : List Char, uri.toList = "s3://".toList ++ bucket ++ '/' :: key := by
  obtain ⟨parts, h⟩ := h
  unfold parseUri at h
  simp only at h
  split_ifs at h with hcond
  simp only [Bool.and_eq_true, Bool.not_eq_true', List.isEmpty_eq_false_iff] at hcond
  obtain ⟨⟨⟨hstart, -⟩, hkey⟩, -⟩ := hcond
  obtain ⟨rest, hrest⟩ := List.isPrefixOf_iff_prefix.mp hstart
  have hdrop : uri.toList.drop "s3://".length = rest := by
    rw [← hrest]
    exact List.drop_left' rfl
  rw [hdrop] at hkey
  cases hslash : rest.dropWhile (· ≠ '/') with
  | nil =>
    rw [hslash] at hkey
    exact absurd rfl hkey
  | cons c key =>
    have hne : rest.dropWhile (· ≠ '/') ≠ [] := by
      rw [hslash]
      exact List.cons_ne_nil c key
    have hhead := List.head_dropWhile_not _ hne
    simp only [hslash, List.head_cons, decide_eq_false_iff_not, not_not] at hhead
    subst hhead
    refine ⟨rest.takeWhile (· ≠ '/'), key, ?_⟩
    rw [← hrest, List.append_assoc, ← hslash, List.takeWhile_append_dropWhile]

theorem parse_shardUri {uri : String} (h : ∃ parts, parseUri uri = .ok parts) (rank : ℕ) :
    ∃ parts, parseUri (shardUri uri rank) = .ok parts := by
  obtain ⟨bucket, key, huri⟩ := exists_joinUri h
  obtain ⟨cut, hcut, -, hslash⟩ := baseUri_cut uri
  -- What is cut off has no slash and so is a part of the key.
  obtain ⟨key', hbase, hkey⟩ : ∃ key',
      (baseUri uri).toList = "s3://".toList ++ bucket ++ '/' :: key' ∧ key = key' ++ cut := by
    rcases List.append_eq_append_iff.mp (hcut.symm.trans huri) with
      ⟨mid, hmid, hend⟩ | ⟨mid, hmid, hend⟩
    · cases mid with
      | nil =>
        rw [List.nil_append] at hend
        exact absurd (hend ▸ List.mem_cons_self) hslash
      | cons c mid =>
        rw [hend] at hslash
        exact absurd (List.mem_append_right _ List.mem_cons_self) hslash
    · cases mid with
      | nil =>
        rw [List.nil_append] at hend
        exact absurd (hend ▸ List.mem_cons_self) hslash
      | cons c mid =>
        obtain ⟨rfl, rfl⟩ := List.cons.inj hend
        exact ⟨mid, hmid, rfl⟩
  have hjoin : uri = joinUri (String.ofList bucket) (String.ofList key) := by
    apply String.toList_inj.mp
    simp [joinUri, huri]
  have hshard : shardUri uri rank =
      joinUri (String.ofList bucket) (String.ofList (key' ++ (rankSuffix rank).toList)) := by
    apply String.toList_inj.mp
    simp [shardUri_eq, joinUri, hbase]
  rw [hjoin] at h
  rw [hshard]
  refine parseUri_joinUri_of_parse ?_ ?_ h
  · intro hempty
    have hlong := length_rankSuffix rank
    have hlist := congrArg String.toList hempty
    rw [String.toList_ofList] at hlist
    have hlength := congrArg List.length hlist
    rw [List.length_append] at hlength
    change _ = 0 at hlength
    omega
  · intro hline
    rw [String.toList_ofList, List.mem_append] at hline
    rw [String.toList_ofList, hkey]
    exact List.mem_append_left _ (hline.resolve_right (rankSuffix_line rank))

end Uris

section Storing

variable {W : GroupLibraries β Tensor} {grants : String → Option PresignedUrlGrant} {uri : String}
variable {d : ℤ} {blobs : Tensor → β}

def specOf (W : GroupLibraries β Tensor) (uri : String) (d : ℤ) (blobs : Tensor → β)
    (x : Tensor × ℕ) : ShardSpec where
  rank := x.2
  uri := shardUri uri x.2
  length := some (shardLength (W.torch.shape x.1) d)
  sha256 := some (sha256Hex W.platform (blobs x.1))
  sizeBytes := some (W.platform.toBytes (blobs x.1)).length

def stored (uri : String) (blobs : Tensor → β) (b : Bucket β) : List (Tensor × ℕ) → Bucket β
  | [] => b
  | x :: l =>
    stored uri blobs { b with objects := b.objects.insert (shardUri uri x.2) (blobs x.1) } l

theorem directPut_eq {target : String} (hparse : ∃ parts, parseUri target = .ok parts) (body : β)
    (grant : Option PresignedUrlGrant) (e : JobExecutor (Bucket β) Tensor) :
    onStore (directStores.put target body grant) e =
      .ok ⟨⟩ { e with
        store := { e.store with objects := e.store.objects.insert target body } } := by
  have hput : e.store.put target body =
      .ok { e.store with objects := e.store.objects.insert target body } :=
    Bucket.put_eq_ok.mpr ⟨hparse, rfl⟩
  refine Effects.zoom_eq_ok.mpr ⟨_, ?_, rfl⟩
  rw [directStores, Effects.update_eq_ok, hput]
  rfl

variable {l : List (Tensor × ℕ)}

theorem putShards_eq (hparse : ∃ parts, parseUri uri = .ok parts)
    (hblobs : ∀ x ∈ l, encodeTensor W.platform W.torch W.buffers x.1 = .ok (blobs x.1))
    (e : JobExecutor (Bucket β) Tensor) :
    l.mapM (putShard W directStores grants uri d) e =
      .ok (l.map (specOf W uri d blobs)) { e with store := stored uri blobs e.store l } := by
  induction l generalizing e with
  | nil => rfl
  | cons x l ih =>
    rw [List.forall_mem_cons] at hblobs
    have hput := directPut_eq (parse_shardUri hparse x.2) (blobs x.1) (grants (shardUri uri x.2)) e
    have hfirst : putShard W directStores grants uri d x e = .ok (specOf W uri d blobs x)
        { e with store := { e.store with
            objects := e.store.objects.insert (shardUri uri x.2) (blobs x.1) } } := by
      refine Effects.bind_eq_ok.mpr ⟨_, _, Effects.lift_eq_ok.mpr ⟨hblobs.1, rfl⟩, ?_⟩
      exact Effects.bind_eq_ok.mpr ⟨_, _, hput, rfl⟩
    rw [List.mapM_cons]
    refine Effects.bind_eq_ok.mpr ⟨_, _, hfirst, ?_⟩
    exact Effects.bind_eq_ok.mpr ⟨_, _, ih hblobs.2 _, rfl⟩

theorem find?_stored_of_ne {u : String} {b : Bucket β}
    (h : ∀ x ∈ l, shardUri uri x.2 ≠ u) :
    (stored uri blobs b l).objects.find? u = b.objects.find? u := by
  induction l generalizing b with
  | nil => rfl
  | cons x l ih =>
    rw [List.forall_mem_cons] at h
    rw [stored, ih h.2, SortedDict.find?_insert, if_neg h.1.symm]

theorem find?_stored {x : Tensor × ℕ} {b : Bucket β}
    (hranks : (l.map Prod.snd).Nodup) (hx : x ∈ l) :
    (stored uri blobs b l).objects.find? (shardUri uri x.2) = some (blobs x.1) := by
  induction l generalizing b with
  | nil => exact absurd hx List.not_mem_nil
  | cons y l ih =>
    obtain ⟨hfresh, hranks⟩ := List.nodup_cons.mp hranks
    rcases List.mem_cons.mp hx with rfl | hx
    · rw [stored, find?_stored_of_ne, SortedDict.find?_insert, if_pos rfl]
      intro z hz hsame
      exact hfresh (List.mem_map.mpr ⟨z, hz, shardUri_injective uri hsame⟩)
    · exact ih hranks hx

def manifestOf (W : GroupLibraries β Tensor) (uri name : String) (t : Tensor) (worldSize d : ℤ)
    (blobs : Tensor → β) (parts : List Tensor) : ShardedTensorManifest where
  name := name
  shape := W.torch.shape t
  dtype := t.dtype.name
  partitionDim := d
  worldSize := worldSize
  shards := parts.zipIdx.map (specOf W uri d blobs)

def afterPut (W : GroupLibraries β Tensor) (uri name : String) (t : Tensor) (worldSize d : ℤ)
    (blobs : Tensor → β) (parts : List Tensor) (b : Bucket β) : Bucket β :=
  let shards := stored uri blobs b parts.zipIdx
  let body := encodeManifest W (manifestOf W uri name t worldSize d blobs parts)
  { shards with objects := shards.objects.insert uri body }

variable {np : Numpy} {t : Tensor} {worldSize : ℤ} {name : String}

theorem shardTensor_eq (hW : Documented W np) (hworld : 1 ≤ worldSize)
    (hlow : -(t.shape.length : ℤ) ≤ d) (hhigh : d < t.shape.length) :
    shardTensor W t worldSize d =
      .ok (tensorSplit t worldSize.toNat (dimOf t.shape.length d) (dimOf_lt hlow hhigh)) := by
  have hrank : (W.torch.shape t).length = t.shape.length := by
    rw [hW.describes.shape, List.length_map]
  have hsplit := hW.tensorSplit t worldSize.toNat (dimOf t.shape.length d) (by omega)
    (dimOf_lt hlow hhigh)
  have hpositive : ¬ worldSize ≤ 0 := by omega
  have hvalid : ¬ ((if d < 0 then d + (t.shape.length : ℤ) else d) < 0 ∨
      (t.shape.length : ℤ) ≤ if d < 0 then d + (t.shape.length : ℤ) else d) := by
    split_ifs <;> omega
  unfold shardTensor
  simp only [hrank, hpositive, if_false, hvalid]
  rw [← hsplit]
  rfl

theorem putShardedTensor_eq (hW : Documented W np) (hparse : ∃ parts, parseUri uri = .ok parts)
    {parts : List Tensor} (hparts : shardTensor W t worldSize d = .ok parts)
    (hblobs : ∀ s ∈ parts, encodeTensor W.platform W.torch W.buffers s = .ok (blobs s))
    (e : JobExecutor (Bucket β) Tensor) :
    putShardedTensor W directStores grants uri t name worldSize d e =
      .ok (manifestOf W uri name t worldSize d blobs parts)
        { e with store := afterPut W uri name t worldSize d blobs parts e.store } := by
  have hshards : parts.zipIdx.mapM (putShard W directStores grants uri d) e =
      .ok (parts.zipIdx.map (specOf W uri d blobs))
        { e with store := stored uri blobs e.store parts.zipIdx } :=
    putShards_eq hparse (fun x hx => hblobs x.1 (List.fst_mem_of_mem_zipIdx hx)) e
  refine Effects.bind_eq_ok.mpr ⟨_, _, Effects.lift_eq_ok.mpr ⟨hparts, rfl⟩, ?_⟩
  refine Effects.bind_eq_ok.mpr ⟨_, _, hshards, ?_⟩
  refine Effects.bind_eq_ok.mpr ⟨_, _, Effects.lift_eq_ok.mpr ⟨hW.describes.wireDtype t, rfl⟩, ?_⟩
  exact Effects.bind_eq_ok.mpr ⟨_, _, directPut_eq hparse _ _ _, rfl⟩

end Storing

section Reading

variable {W : GroupLibraries β Tensor} {np : Numpy} {uri : String}

theorem runReads_direct {α : Type} (grants : String → Option PresignedUrlGrant) (prog : Fetch β α)
    (e : JobExecutor (Bucket β) Tensor) :
    runReads directStores grants prog e = Effects.lift (prog.run e.store.get) e := by
  induction prog with
  | done result => rfl
  | read key next ih =>
    rw [ReadProgram.run, ← ih (e.store.get key)]
    cases hget : e.store.get key with
    | ok body =>
      have hread : Effects.attempt (onStore (directStores.get key (grants key))) e =
          .ok (.ok body) e := by
        refine Effects.attempt_eq_ok.mpr (Effects.zoom_eq_ok.mpr ⟨e.store, ?_, rfl⟩)
        exact Effects.lift_eq_ok.mpr ⟨hget, rfl⟩
      rw [runReads]
      change (Effects.attempt _ >>= _) e = _
      simp only [bind, EStateM.bind, hread]
    | error err =>
      have hread : Effects.attempt (onStore (directStores.get key (grants key))) e =
          .ok (.error err) e := by
        refine Effects.attempt_eq_error.mpr (Effects.zoom_eq_error.mpr ⟨e.store, ?_, rfl⟩)
        exact Effects.lift_eq_error.mpr ⟨hget, rfl⟩
      rw [runReads]
      simp only [bind, EStateM.bind, hread]

def storedShard (s : ShardSpec) : StoredShard :=
  ⟨s.rank, .str s.uri, (s.sha256.map .str).getD .null⟩

theorem readShard_toDict (s : ShardSpec) : StoredShard.read s.toDict = .ok (storedShard s) := by
  simp [StoredShard.read, ShardSpec.toDict, storedShard]

theorem readSharding_toDict (m : ShardedTensorManifest) :
    StoredSharding.read m.toDict = .ok ⟨m.shape, m.partitionDim, m.shards.map storedShard⟩ := by
  have hshards : (m.shards.map ShardSpec.toDict).mapM StoredShard.read =
      .ok (m.shards.map storedShard) := by
    rw [List.mapM_map]
    exact mapM_eq_map fun s _ => readShard_toDict s
  simp [StoredSharding.read, ShardedTensorManifest.toDict, hshards, -List.mapM_map]

variable {s : String → Py β}

theorem run_loadShard {spec : ShardSpec} {digest : String} {body : β}
    (hdigest : spec.sha256 = some digest) (hbody : s spec.uri = .ok body) :
    (loadShard W.toLibraries (storedShard spec)).run s =
      if digest = sha256Hex W.platform body then W.torch.decodeTensor body
      else .error (.valueError ("shard digest mismatch for " ++ spec.uri)) := by
  simp only [loadShard, storedShard, Json.asStr, ReadProgram.run_bind, ReadProgram.run_lift,
    ReadProgram.run_ask, ok_bind, hbody, StoredShard.hasDigest, hdigest, Option.map_some,
    Option.getD_some, Json.eqStr, decide_eq_true_eq]
  split_ifs
  · rfl
  · rfl

theorem sorted_specs {d : ℤ} {blobs : Tensor → β} (parts : List Tensor) :
    ((parts.zipIdx.map (specOf W uri d blobs)).map storedShard).insertionSort
      (fun a b => a.rank ≤ b.rank) = (parts.zipIdx.map (specOf W uri d blobs)).map storedShard := by
  apply List.Pairwise.insertionSort_eq
  rw [List.map_map, List.pairwise_map]
  have hranks : (parts.zipIdx.map Prod.snd).Pairwise (· < ·) := by
    rw [List.zipIdx_map_snd]
    exact List.pairwise_lt_range'
  refine (List.pairwise_map.mp hranks).imp fun h => ?_
  exact Int.ofNat_le.mpr h.le

theorem run_getShardedTensor (hW : Documented W np) {name : String} {t : Tensor} {worldSize d : ℤ}
    {blobs : Tensor → β} {parts : List Tensor}
    (hmanifest : s uri =
      .ok (encodeManifest W (manifestOf W uri name t worldSize d blobs parts))) :
    (getShardedTensor W.toLibraries uri).run s =
      (parts.zipIdx.mapM fun x =>
          (loadShard W.toLibraries (storedShard (specOf W uri d blobs x))).run s) >>= fun shards =>
        joinShards W.toLibraries shards d >>= fun out =>
          if W.torch.shape out ≠ W.torch.shape t then
            .error (.valueError ("joined sharded tensor shape " ++ reprInts (W.torch.shape out) ++
              " != manifest shape " ++ reprInts (W.torch.shape t)))
          else .ok out := by
  have hloads :
      W.platform.loads (encodeManifest W (manifestOf W uri name t worldSize d blobs parts)) =
        .ok (manifestOf W uri name t worldSize d blobs parts).toDict :=
    hW.platform.loads_dumps _ (shardedTensor_canonical _)
  simp only [getShardedTensor, fetchJson, ReadProgram.run_bind, ReadProgram.run_lift,
    ReadProgram.run_ask, ReadProgram.run_mapM, hmanifest, ok_bind, hloads, readSharding_toDict]
  simp only [manifestOf, sorted_specs]
  rw [List.map_map, List.mapM_map]
  refine bind_congr fun shards => bind_congr fun out => ?_
  by_cases hshape : W.torch.shape out = W.torch.shape t
  · simp [hshape]
  · simp [hshape]

theorem joinShards_tensorSplit (hW : Documented W np) {t : Tensor} {n : ℕ} {d : ℤ} (hn : 0 < n)
    (hlow : -(t.shape.length : ℤ) ≤ d) (hhigh : d < t.shape.length) :
    joinShards W.toLibraries
      (tensorSplit t n (dimOf t.shape.length d) (dimOf_lt hlow hhigh)) d = .ok t := by
  cases hparts : tensorSplit t n (dimOf t.shape.length d) (dimOf_lt hlow hhigh) with
  | nil =>
    have hlength := congrArg List.length hparts
    rw [tensorSplit, List.length_map, List.length_finRange, List.length_nil] at hlength
    omega
  | cons first rest =>
    obtain ⟨hjoinable, hwhole⟩ := concat_tensorSplit (dimOf_lt hlow hhigh) hn hparts
    have hrank : first.shape.length = t.shape.length :=
      length_eq (mem_tensorSplit (hparts ▸ List.mem_cons_self)).2
    rw [← hrank] at hlow hhigh
    have hjoinable' : Joinable first rest (dimOf first.shape.length d) := by
      rw [hrank]
      exact hjoinable
    have hcat := hW.cat first rest d hlow hhigh hjoinable'
    simp only [joinShards, List.isEmpty_cons, if_false, Bool.false_eq_true]
    rw [hcat]
    simp only [hrank, hwhole]

end Reading

section RoundTrip

variable {W : GroupLibraries β Tensor} {np : Numpy} {uri name : String} {t : Tensor}
variable {worldSize d : ℤ} {blobs : Tensor → β} {parts : List Tensor} {b : Bucket β}

theorem get_manifest (hparse : ∃ parts, parseUri uri = .ok parts) :
    (afterPut W uri name t worldSize d blobs parts b).get uri =
      .ok (encodeManifest W (manifestOf W uri name t worldSize d blobs parts)) := by
  refine Bucket.get_eq_ok.mpr ⟨hparse, ?_⟩
  rw [afterPut, SortedDict.find?_insert, if_pos rfl]

theorem get_shard (hparse : ∃ parts, parseUri uri = .ok parts) {x : Tensor × ℕ}
    (hx : x ∈ parts.zipIdx) :
    (afterPut W uri name t worldSize d blobs parts b).get (shardUri uri x.2) =
      .ok (blobs x.1) := by
  refine Bucket.get_eq_ok.mpr ⟨parse_shardUri hparse x.2, ?_⟩
  rw [afterPut, SortedDict.find?_insert, if_neg (shardUri_ne uri x.2)]
  exact find?_stored (List.nodup_zipIdx_map_snd parts) hx

theorem run_afterPut (hW : Documented W np) (hparse : ∃ parts, parseUri uri = .ok parts)
    (hjoin : joinShards W.toLibraries parts d = .ok t)
    (hblobs : ∀ s ∈ parts, encodeTensor W.platform W.torch W.buffers s = .ok (blobs s)) :
    (getShardedTensor W.toLibraries uri).run
      (afterPut W uri name t worldSize d blobs parts b).get = .ok t := by
  have hload : ∀ x ∈ parts.zipIdx,
      (loadShard W.toLibraries (storedShard (specOf W uri d blobs x))).run
        (afterPut W uri name t worldSize d blobs parts b).get = .ok x.1 := by
    intro x hx
    have hblob := hblobs x.1 (List.fst_mem_of_mem_zipIdx hx)
    rw [hW.buffers] at hblob
    rw [run_loadShard rfl (get_shard hparse hx), if_pos rfl, hW.decodeTensor]
    exact decodeTensor_encodeTensor hW.platform hW.bytes
      (numpyBuffers_lawful hW.numpy hW.describes) hblob
  rw [run_getShardedTensor hW (get_manifest hparse), mapM_eq_map hload, ok_bind,
    List.zipIdx_map_fst, hjoin, ok_bind, if_neg (not_not.mpr rfl)]

theorem run_altered (hW : Documented W np) (hfree : Function.Injective (sha256Hex W.platform))
    {s : String → Py β}
    (hmanifest : s uri =
      .ok (encodeManifest W (manifestOf W uri name t worldSize d blobs parts)))
    {x : Tensor × ℕ} (hx : x ∈ parts.zipIdx) {body : β} (hbody : s (shardUri uri x.2) = .ok body)
    (hne : body ≠ blobs x.1) : ∃ err, (getShardedTensor W.toLibraries uri).run s = .error err := by
  cases hrun : (getShardedTensor W.toLibraries uri).run s with
  | error err => exact ⟨err, rfl⟩
  | ok out =>
    rw [run_getShardedTensor hW hmanifest] at hrun
    obtain ⟨shards, hshards, -⟩ := PyJson.bind_eq_ok.mp hrun
    obtain ⟨value, hvalue⟩ := (mapM_eq_ok.mp hshards).1 x hx
    rw [run_loadShard rfl hbody, if_neg] at hvalue
    · cases hvalue
    · exact fun hsame => hne (hfree hsame.symm)

/-- A tensor of rank at least 1 is stored along any of its dimensions, in any number of shards,
and then read back as it was; if the bytes of one shard are replaced by others, reading raises. -/
theorem sharded_tensor_round_trip (hW : Documented W np)
    (hfree : Function.Injective (sha256Hex W.platform)) (t : Tensor) (uri name : String)
    (worldSize d : ℤ) (hworld : 1 ≤ worldSize) (hlow : -(t.shape.length : ℤ) ≤ d)
    (hhigh : d < t.shape.length) (hparse : ∃ parts, parseUri uri = .ok parts)
    (hencodes : ∀ s ∈ tensorSplit t worldSize.toNat (dimOf t.shape.length d) (dimOf_lt hlow hhigh),
      ∃ blob, encodeTensor W.platform W.torch W.buffers s = .ok blob)
    (grants grants' : String → Option PresignedUrlGrant) (e : JobExecutor (Bucket β) Tensor) :
    ∃ manifest e', putShardedTensor W directStores grants uri t name worldSize d e =
        .ok manifest e' ∧
      runReads directStores grants' (getShardedTensor W.toLibraries uri) e' = .ok t e' ∧
      ∀ spec ∈ manifest.shards, ∃ old, e'.store.get spec.uri = .ok old ∧
        ∀ body b, body ≠ old → e'.store.put spec.uri body = .ok b →
          ∃ err, runReads directStores grants' (getShardedTensor W.toLibraries uri)
            { e' with store := b } = .error err { e' with store := b } := by
  have hparts := shardTensor_eq hW hworld hlow hhigh
  have hjoin := joinShards_tensorSplit hW (n := worldSize.toNat) (by omega) hlow hhigh
  have : Nonempty β := ⟨W.platform.dumps .null⟩
  choose! blobs hblobs using hencodes
  refine ⟨_, _, putShardedTensor_eq hW hparse hparts hblobs e, ?_, ?_⟩
  · rw [runReads_direct]
    exact Effects.lift_eq_ok.mpr ⟨run_afterPut hW hparse hjoin hblobs, rfl⟩
  · intro spec hspec
    obtain ⟨x, hx, rfl⟩ := List.mem_map.mp hspec
    refine ⟨blobs x.1, get_shard hparse hx, ?_⟩
    intro body b hne hput
    obtain ⟨hbody, hothers⟩ := Bucket.get_of_put hput
    obtain ⟨err, herr⟩ := run_altered hW hfree
      ((hothers uri (shardUri_ne uri x.2).symm).trans (get_manifest hparse)) hx hbody hne
    refine ⟨err, ?_⟩
    rw [runReads_direct]
    exact Effects.lift_eq_error.mpr ⟨herr, rfl⟩

end RoundTrip

section Example

open JsonBytes (freePlatform freePlatform_lawful freePlatform_bytes sha256Hex_freePlatform)

def catTensors (shards : List Tensor) (d : ℤ) : Py Tensor :=
  match shards with
  | [] => .error (.runtimeError "torch.cat(): expected a non-empty list of Tensors")
  | first :: rest =>
    if h : Joinable first rest (dimOf first.shape.length d) then .ok (concat first rest _ h)
    else .error (.runtimeError "Sizes of tensors must match except in dimension")

def plainGroup : GroupLibraries (List UInt8) Tensor where
  platform := freePlatform
  torch := { plainTorch freePlatform littleEndian with cat := catTensors }
  timelock := { encrypt := fun body _ _ => .ok body, decrypt := fun body _ _ => .ok body }
  buffers := numpyBuffers littleEndian
  elementSize := fun t => t.dtype.bytes
  tolist := fun _ => .null
  randnLike := fun _ t => t
  zerosLike := id
  increment := fun _ t => t
  tensorSplit := fun t n d => if h : d < t.shape.length then tensorSplit t n d h else []
  ranks := fun _ inputs _ => .ok inputs
  cudaAvailable := false
  planHash := fun _ => ""

theorem documented_plainGroup : Documented plainGroup littleEndian where
  platform := freePlatform_lawful
  bytes := freePlatform_bytes
  numpy := littleEndian_lawful
  describes := ⟨fun _ => rfl, fun _ => rfl⟩
  buffers := rfl
  decodeTensor := rfl
  tensorSplit := fun _ _ _ _ hd => dif_pos hd
  cat := fun _ _ _ _ _ h => dif_pos h

def twoRows : Tensor where
  dtype := .uint8
  shape := [2, 1]
  bits := [5, 255]
  fits := by decide
  sized := rfl
  truth := fun h => by cases h

/-- Three shards of two rows, the last one empty; the manifest has a JSON suffix. -/
theorem two_rows_round_trip :
    ∃ manifest e', putShardedTensor plainGroup directStores (fun _ => none) "s3://b/t.json" twoRows
        "t" 3 (-2) { store := ⟨"b", SortedDict.empty⟩ } = .ok manifest e' ∧
      runReads directStores (fun _ => none)
        (getShardedTensor plainGroup.toLibraries "s3://b/t.json") e' = .ok twoRows e' := by
  have hencodes : ∀ s ∈ tensorSplit twoRows (Int.toNat 3) (dimOf twoRows.shape.length (-2))
      (dimOf_lt (by decide) (by decide)), ∃ blob,
        encodeTensor plainGroup.platform plainGroup.torch plainGroup.buffers s = .ok blob := by
    intro s hs
    refine (encodes_iff (numpyBuffers_lawful littleEndian_lawful documented_plainGroup.describes)
      rfl).mpr ?_
    revert s
    decide +kernel
  obtain ⟨manifest, e', hput, hget, -⟩ := sharded_tensor_round_trip documented_plainGroup
    sha256Hex_freePlatform twoRows "s3://b/t.json" "t" 3 (-2) (by decide) (by decide) (by decide)
    ⟨_, rfl⟩ hencodes (fun _ => none) (fun _ => none) { store := ⟨"b", SortedDict.empty⟩ }
  exact ⟨manifest, e', hput, hget⟩

end Example

end ShardedTensors

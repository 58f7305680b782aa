import Teuton.JobExecution

/-! The accounts of the two tensor caches of an executor. Dictionary, order list and byte counter
are updated apart from each other, in a loop that evicts until the new tensor fits. -/
namespace CacheAccounting

open PyJson JobExecution

variable {τ σ β : Type} {size : τ → ℤ} {limit : ℤ}

/-- What the three parts of a cache say of each other. -/
structure Accounted (size : τ → ℤ) (limit : ℤ) (c : TensorCache τ) : Prop where
  order_nodup : c.order.Nodup
  mem_order : ∀ uri, uri ∈ c.order ↔ (c.find? uri).isSome = true
  bytes_eq : c.bytes = (c.cache.vals.map fun entry => size entry.2).sum
  bytes_le : c.bytes ≤ limit

/-- The order list repeats the keys of the dictionary, which keeps its insertion order. -/
structure InStep (size : τ → ℤ) (c : TensorCache τ) : Prop where
  order_eq : c.order = c.cache.keys
  bytes_eq : c.bytes = (c.cache.vals.map fun entry => size entry.2).sum

theorem InStep.mem_order {c : TensorCache τ} (h : InStep size c) (uri : String) :
    uri ∈ c.order ↔ (c.find? uri).isSome = true := by
  rw [h.order_eq, TensorCache.find?, Option.isSome_map, KeyedDict.isSome_get?]

theorem InStep.drop {c : TensorCache τ} (h : InStep size c) (uri : String) :
    InStep size { c.drop size uri with order := c.order.erase uri } := by
  refine ⟨?_, ?_⟩
  · change c.order.erase uri = (c.cache.erase uri).keys
    rw [KeyedDict.keys_erase, h.order_eq]
  · change c.bytes - ((c.find? uri).map size).getD 0 = _
    rw [TensorCache.drop, KeyedDict.sum_erase, h.bytes_eq, TensorCache.find?, Option.map_map]
    rfl

theorem InStep.remove {c : TensorCache τ} (h : InStep size c) (uri : String) :
    ∃ c', c.remove size uri = .ok c' ∧ InStep size c' ∧ uri ∉ c'.order := by
  unfold TensorCache.remove
  cases hfind : c.find? uri with
  | none =>
    refine ⟨c, rfl, h, ?_⟩
    simp [h.mem_order, hfind]
  | some old =>
    have hmem : uri ∈ c.order := by simp [h.mem_order, hfind]
    refine ⟨_, if_pos hmem, h.drop uri, ?_⟩
    have hnodup : c.order.Nodup := h.order_eq ▸ c.cache.nodup
    exact hnodup.not_mem_erase

theorem InStep.evict (limit incoming : ℤ) {order : List String} {c : TensorCache τ}
    (h : InStep size { c with order := order }) :
    InStep size (TensorCache.evict size limit incoming order c) ∧
      (TensorCache.evict size limit incoming order c).order ⊆ order ∧
      ((TensorCache.evict size limit incoming order c).bytes + incoming ≤ limit ∨
        (TensorCache.evict size limit incoming order c).bytes = 0) := by
  induction order generalizing c with
  | nil =>
    have hvals : c.cache.vals = [] := List.map_eq_nil_iff.mp h.order_eq.symm
    have hbytes : c.bytes = 0 := by simpa [hvals] using h.bytes_eq
    exact ⟨h, fun _ hin => hin, Or.inr hbytes⟩
  | cons uri order ih =>
    rw [TensorCache.evict]
    split_ifs with hfull
    · have hdrop : InStep size { c.drop size uri with order := order } := by
        have herase := h.drop uri
        rwa [show (uri :: order).erase uri = order from List.erase_cons_head uri order] at herase
      obtain ⟨hin, hsub, hroom⟩ := ih hdrop
      exact ⟨hin, fun u hu => List.mem_cons_of_mem uri (hsub hu), hroom⟩
    · exact ⟨h, fun _ hin => hin, Or.inl (not_lt.mp hfull)⟩

theorem InStep.append {c : TensorCache τ} (h : InStep size c) {uri : String}
    (hnew : uri ∉ c.order) (value : τ) : InStep size (c.append size uri value) := by
  have hvals : (c.cache.set (uri, value)).vals = c.cache.vals ++ [(uri, value)] :=
    KeyedDict.upsert_of_not_mem fun hin => hnew (h.order_eq.symm ▸ hin)
  refine ⟨?_, ?_⟩
  · change c.order ++ [uri] = (c.cache.set (uri, value)).vals.map Prod.fst
    rw [hvals, h.order_eq, List.map_append]
    rfl
  · change c.bytes + size value = ((c.cache.set (uri, value)).vals.map _).sum
    rw [hvals, h.bytes_eq]
    simp

structure Kept (size : τ → ℤ) (limit : ℤ) (c : TensorCache τ) : Prop where
  inStep : InStep size c
  bytes_le : c.bytes ≤ limit

theorem Kept.accounted {c : TensorCache τ} (h : Kept size limit c) : Accounted size limit c :=
  ⟨h.inStep.order_eq ▸ c.cache.nodup, h.inStep.mem_order, h.inStep.bytes_eq, h.bytes_le⟩

theorem Kept.empty (hlimit : 0 ≤ limit) : Kept size limit ({} : TensorCache τ) :=
  ⟨⟨rfl, rfl⟩, hlimit⟩

theorem Kept.cacheTensor {c : TensorCache τ} (h : Kept size limit c) (hlimit : 0 ≤ limit)
    (uri : String) (value : τ) :
    ∃ c', c.cacheTensor size limit uri value = .ok c' ∧ Kept size limit c' ∧
      (size value ≤ limit / 2 → c'.find? uri = some value) := by
  unfold TensorCache.cacheTensor
  by_cases hbig : size value > limit / 2
  · exact ⟨c, if_pos hbig, h, fun hsmall => absurd hsmall (by omega)⟩
  · obtain ⟨c₁, hremove, hin, hnew⟩ := h.inStep.remove uri
    obtain ⟨hin₂, hsub, hroom⟩ := hin.evict limit (size value)
    rw [if_neg hbig, hremove]
    refine ⟨_, rfl, ⟨hin₂.append (fun hmem => hnew (hsub hmem)) value, ?_⟩, fun _ => ?_⟩
    · change (TensorCache.evict size limit (size value) c₁.order c₁).bytes + size value ≤ limit
      omega
    · rw [TensorCache.find?_append, if_pos rfl]

/-- Calls of `_cache_input` and `_cache_output`; an output that is no tensor is not cached. -/
inductive CacheCall (τ : Type) where
  | input (uri : String) (value : τ)
  | output (uri : String) (value : Option τ)

namespace CacheCall

def call (size : τ → ℤ) (inputMax outputMax : ℤ) :
    CacheCall τ → EStateM PyErr (JobExecutor σ τ) PUnit
  | .input uri value => Effects.update fun e => do
    return (⟨⟩, { e with inputCache := ← e.inputCache.cacheTensor size inputMax uri value })
  | .output uri (some value) => Effects.update fun e => do
    return (⟨⟩, { e with outputCache := ← e.outputCache.cacheTensor size outputMax uri value })
  | .output _ none => pure ⟨⟩

def Present (size : τ → ℤ) (inputMax outputMax : ℤ) (e : JobExecutor σ τ) : CacheCall τ → Prop
  | .input uri value => size value ≤ inputMax / 2 → e.inputCache.find? uri = some value
  | .output uri (some value) => size value ≤ outputMax / 2 → e.outputCache.find? uri = some value
  | .output _ none => True

theorem call_input (W : WorkerLibraries β τ) (cfg : ExecutorConfig) (uri : String) (value : τ) :
    call W.size cfg.inputMax cfg.outputMax (.input uri value) =
      cacheInput (σ := σ) W cfg uri value := rfl

theorem call_output (W : WorkerLibraries β τ) (cfg : ExecutorConfig) (uri : String) (value : τ) :
    call W.size cfg.inputMax cfg.outputMax (.output uri (some value)) =
      cacheOutput (σ := σ) W cfg uri value := rfl

theorem call_keeps {inputMax outputMax : ℤ} (hin : 0 ≤ inputMax) (hout : 0 ≤ outputMax)
    {e : JobExecutor σ τ} (hi : Kept size inputMax e.inputCache)
    (ho : Kept size outputMax e.outputCache) (c : CacheCall τ) :
    ∃ e', c.call size inputMax outputMax e = .ok ⟨⟩ e' ∧ Kept size inputMax e'.inputCache ∧
      Kept size outputMax e'.outputCache ∧ c.Present size inputMax outputMax e' := by
  cases c with
  | input uri value =>
    obtain ⟨cache, hcache, hkept, hpresent⟩ := hi.cacheTensor hin uri value
    refine ⟨{ e with inputCache := cache }, ?_, hkept, ho, hpresent⟩
    simp only [call, Effects.update, hcache]
    rfl
  | output uri value =>
    cases value with
    | none => exact ⟨e, rfl, hi, ho, trivial⟩
    | some value =>
      obtain ⟨cache, hcache, hkept, hpresent⟩ := ho.cacheTensor hout uri value
      refine ⟨{ e with outputCache := cache }, ?_, hi, hkept, hpresent⟩
      simp only [call, Effects.update, hcache]
      rfl

end CacheCall

/-- After any calls both caches are accounted for and hold the tensor that came last. -/
theorem caches_stay_accounted (size : τ → ℤ) (inputMax outputMax : ℤ) (hin : 0 ≤ inputMax)
    (hout : 0 ≤ outputMax) (s : σ) (calls : List (CacheCall τ)) :
    ∃ e, forM calls (CacheCall.call size inputMax outputMax) { store := s } = .ok ⟨⟩ e ∧
      Accounted size inputMax e.inputCache ∧ Accounted size outputMax e.outputCache ∧
      ∀ last ∈ calls.getLast?, last.Present size inputMax outputMax e := by
  suffices hrun : ∃ e, forM calls (CacheCall.call size inputMax outputMax) { store := s } =
      .ok ⟨⟩ e ∧ Kept size inputMax e.inputCache ∧ Kept size outputMax e.outputCache ∧
      ∀ last ∈ calls.getLast?, last.Present size inputMax outputMax e by
    obtain ⟨e, hcalls, hi, ho, hlast⟩ := hrun
    exact ⟨e, hcalls, hi.accounted, ho.accounted, hlast⟩
  induction calls using List.reverseRecOn with
  | nil => exact ⟨_, rfl, Kept.empty hin, Kept.empty hout, by simp⟩
  | append_singleton calls c ih =>
    obtain ⟨e, hcalls, hi, ho, -⟩ := ih
    obtain ⟨e', hcall, hi', ho', hpresent⟩ := CacheCall.call_keeps hin hout hi ho c
    refine ⟨e', ?_, hi', ho', by simpa using hpresent⟩
    rw [List.forM_append]
    refine Effects.bind_eq_ok.mpr ⟨_, _, hcalls, ?_⟩
    simpa using hcall

/-- A tensor is replaced by a larger one, which pushes the others out. -/
theorem replaced_tensor_accounted :
    ∃ e : JobExecutor Unit ℤ,
      forM [CacheCall.input "a" 4, .input "b" 2, .output "a" none, .input "a" 5]
        (CacheCall.call id 10 0) { store := () } = .ok ⟨⟩ e ∧
      Accounted id 10 e.inputCache ∧ Accounted id 0 e.outputCache ∧
      e.inputCache.find? "a" = some 5 := by
  obtain ⟨e, hcalls, hi, ho, hlast⟩ := caches_stay_accounted (id : ℤ → ℤ) 10 0 (by decide)
    (by decide) ()
    [CacheCall.input "a" 4, .input "b" 2, .output "a" none, .input "a" 5]
  exact ⟨e, hcalls, hi, ho, hlast _ rfl (by decide)⟩

end CacheAccounting

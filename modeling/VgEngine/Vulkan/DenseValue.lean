import VgEngine.Vulkan.DenseOrder

/-! What a token of the dense path computes. Seen from outside of the activations, a layer puts a row
into each of its caches and makes the next hidden state. -/
namespace VgEngine.Vulkan
open VgEngine.Lib CommandBuffer

section Spec

variable {F α : Type} (K : Kernels Pipeline F α) (d₀ d : DenseToken F) (m : Nat → α)

/-- `attn_norm` of the hidden state. -/
def Kernels.normedInput : α := K.rnorm d₀.D d.eps (m d.hiddenDev) (m d.attnNormW)

/-- Without the factors of the frequencies, the shader is given the normed input. -/
def Kernels.factors : α := d.ropeFreqs.elim (K.normedInput d₀ d m) m

def Kernels.query : α :=
  K.rope d₀.HD d₀.H (nRotQ d₀ d) d.pos d.freqBase (hasFactors d)
    (K.matvec d₀.Qdim d₀.D (m d.qW) (m d.qS) (K.normedInput d₀ d m)) (K.factors d₀ d m)

def Kernels.key : α :=
  K.rope (kvHdim d₀) d₀.HKV (nRotK d₀ d) d.pos d.freqBase (hasFactors d)
    (K.matvec d₀.KVdim d₀.D (m d.kW) (m d.kS) (K.normedInput d₀ d m)) (K.factors d₀ d m)

def Kernels.value : α :=
  K.matvec d₀.KVdim d₀.D (m d.vW) (m d.vS) (K.normedInput d₀ d m)

/-- A cache with the row of the token. -/
def Kernels.withRow (row cache : α) : α :=
  K.copy (d₀.KVdim.toUInt64 * 4) (d.pos.toUInt64 * d₀.KVdim.toUInt64 * 4) row cache

def Kernels.keys : α := K.withRow d₀ d (K.key d₀ d m) (m d.kCache)

def Kernels.values : α := K.withRow d₀ d (K.value d₀ d m) (m d.vCache)

/-- The hidden state between the attention and the feed-forward block. -/
def Kernels.attended : α :=
  K.radd d₀.D (K.matvec d₀.D d₀.Qdim (m d.oW) (m d.oS)
    (K.attn d₀.toDenseLayer d.pos (K.query d₀ d m) (K.keys d₀ d m) (K.values d₀ d m)))
    (m d.hiddenDev)

/-- The next hidden state. -/
def Kernels.nextHidden : α :=
  let x := K.rnorm d₀.D d.eps (K.attended d₀ d m) (m d.ffnNormW)
  K.radd d₀.D (K.ffn d₀.D d₀.FF (m d.gateW) (m d.gateS) (m d.upW) (m d.upS) (m d.downW) (m d.downS)
    (K.quant (d₀.D / 32) x 0) (K.quant (d₀.D / 32) x 1)) (K.attended d₀ d m)

/-- What a layer makes of the memory. -/
def Kernels.layer : Nat → α :=
  Function.update (Function.update (Function.update m d.kCache (K.keys d₀ d m))
    d.vCache (K.values d₀ d m)) d.hiddenDev (K.nextHidden d₀ d m)

/-- What a token without the final head makes of the memory. -/
def Kernels.token (hidden : Nat) (input out : Option Nat) (L : List (DenseToken F)) : Nat → α :=
  let bytes := d₀.D.toUInt64 * 4
  let m := input.elim m fun b => Function.update m hidden (K.copy bytes 0 (m b) (m hidden))
  let m := L.foldl (fun m d => K.layer d₀ d m) m
  out.elim m fun b => Function.update m b (K.copy bytes 0 (m hidden) (m b))

end Spec

section Layers

variable {F α : Type} {K : Kernels Pipeline F α} {B : Nat → Nat} {d₀ d : DenseToken F}
variable {m m' : Nat → α}

/-- The buffers that a layer reads only. -/
def DenseLayer.weights (d : DenseLayer) : List Nat :=
  [d.attnNormW, d.qW, d.qS, d.kW, d.kS, d.vW, d.vS, d.oW, d.oS, d.ffnNormW, d.gateW, d.gateS, d.upW,
    d.upS, d.downW, d.downS] ++ d.ropeFreqs.toList

/-- The activations `B[0]` to `B[19]`. -/
def acts (B : Nat → Nat) : List Nat := (List.range 20).map B

/-- The buffers of a layer are none of the activations, and the layer writes three of them. -/
structure LayerApart (B : Nat → Nat) (d : DenseLayer) : Prop where
  hidden : d.hiddenDev ∉ acts B
  kCache : d.kCache ∉ acts B
  vCache : d.vCache ∉ acts B
  weights : ∀ w ∈ d.weights, w ∉ d.kCache :: d.vCache :: acts B
  caches : d.kCache ≠ d.vCache
  hidden_kCache : d.hiddenDev ≠ d.kCache
  hidden_vCache : d.hiddenDev ≠ d.vCache

theorem mem_acts {i : Nat} (h : i < 20) : B i ∈ acts B :=
  List.mem_map_of_mem (List.mem_range.2 h)

theorem ne_act {b i : Nat} (h : b ∉ acts B) (hi : i < 20) : b ≠ B i := fun heq =>
  h (heq ▸ mem_acts hi)

theorem act_inj (hB : (acts B).Nodup) {i j : Nat} (hi : i < 20) (hj : j < 20) :
    B i = B j ↔ i = j :=
  ⟨List.inj_on_of_nodup_map hB (List.mem_range.2 hi) (List.mem_range.2 hj), congrArg B⟩

theorem LayerApart.ne_act (hd : LayerApart B d.toDenseLayer) {w i : Nat} (hw : w ∈ d.weights)
    (hi : i < 20) : w ≠ B i :=
  Vulkan.ne_act (fun hmem => hd.weights w hw (by simp [hmem])) hi

theorem qkv_run (K : Kernels Pipeline F α) (d₀ : DenseToken F) (m : Nat → α) (hB : (acts B).Nodup)
    (hd : LayerApart B d.toDenseLayer) :
    let r := recorded (K.items (qkvOrders B d₀ d)) m
    r (B 3) = K.query d₀ d m ∧ r (B 4) = K.key d₀ d m ∧ r (B 5) = K.value d₀ d m ∧
      ∀ b, (∀ i < 6, b ≠ B i) → r b = m b := by
  have hinj : ∀ i < 20, ∀ j < 20, B i = B j ↔ i = j := fun i hi j hj => act_inj hB hi hj
  have hw : ∀ w ∈ d.weights, ∀ i < 20, w ≠ B i := fun w hw i hi => hd.ne_act hw hi
  simp only [DenseLayer.weights, List.cons_append, List.forall_mem_cons] at hw
  intro r
  refine ⟨?_, ?_, ?_, fun b hb => ?_⟩
  · unfold Kernels.query Kernels.factors
    cases hfreq : d.ropeFreqs <;>
      simp [r, qkvOrders, recorded_items_nil, Kernels.matvec, Kernels.normedInput, hinj, hw, hfreq]
  · unfold Kernels.key Kernels.factors
    cases hfreq : d.ropeFreqs <;>
      simp [r, qkvOrders, recorded_items_nil, Kernels.matvec, Kernels.normedInput, hinj, hw, hfreq]
  · simp [r, qkvOrders, recorded_items_nil, Kernels.value, Kernels.matvec, Kernels.normedInput, hinj,
      hw]
  · simp [r, qkvOrders, recorded_items_nil, hb]

theorem attn_run (K : Kernels Pipeline F α) (d₀ : DenseToken F) (m : Nat → α) (hB : (acts B).Nodup)
    (hd : LayerApart B d.toDenseLayer) :
    let r := recorded (K.items (attnOrders B d₀ d)) m
    let keys := K.withRow d₀ d (m (B 4)) (m d.kCache)
    let values := K.withRow d₀ d (m (B 5)) (m d.vCache)
    let att := K.attn d₀.toDenseLayer d.pos (m (B 3)) keys values
    r d.kCache = keys ∧ r d.vCache = values ∧ r (B 7) = K.quant (d₀.Qdim / 32) att 0 ∧
      r (B 8) = K.quant (d₀.Qdim / 32) att 1 ∧
        ∀ b ∉ [d.kCache, d.vCache, B 6, B 7, B 8], r b = m b := by
  have hinj : ∀ i < 20, ∀ j < 20, B i = B j ↔ i = j := fun i hi j hj => act_inj hB hi hj
  have hk : ∀ i < 20, d.kCache ≠ B i := fun i hi => ne_act hd.kCache hi
  have hv : ∀ i < 20, d.vCache ≠ B i := fun i hi => ne_act hd.vCache hi
  have hk' : ∀ i < 20, B i ≠ d.kCache := fun i hi => (hk i hi).symm
  have hv' : ∀ i < 20, B i ≠ d.vCache := fun i hi => (hv i hi).symm
  intro r keys values att
  refine ⟨?_, ?_, ?_, ?_, fun b hb => ?_⟩
  · simp [r, keys, attnOrders, recorded_items_nil, Kernels.withRow, hk, hd.caches]
  · simp [r, values, attnOrders, recorded_items_nil, Kernels.withRow, hv, hk', hd.caches.symm]
  · simp [r, att, keys, values, attnOrders, recorded_items_nil, Kernels.withRow, hk', hv',
      hd.caches, hd.caches.symm]
  · simp [r, att, keys, values, attnOrders, recorded_items_nil, Kernels.withRow, hinj, hk', hv',
      hd.caches, hd.caches.symm]
  · simp only [List.mem_cons, List.not_mem_nil, or_false, not_or] at hb
    simp [r, attnOrders, recorded_items_nil, hb]

theorem ffn_run (d₀ : DenseToken F) (m : Nat → α) (hB : (acts B).Nodup)
    (hd : LayerApart B d.toDenseLayer) :
    let r := recorded (K.items (ffnOrders B d₀ d)) m
    r d.hiddenDev = K.radd d₀.D (K.ffn d₀.D d₀.FF (m d.gateW) (m d.gateS) (m d.upW) (m d.upS)
      (m d.downW) (m d.downS) (m (B 12)) (m (B 13))) (m (B 10)) ∧ ∀ b ∉ d.hiddenDev :: acts B, r b = m b := by
  have hinj : ∀ i < 20, ∀ j < 20, B i = B j ↔ i = j := fun i hi j hj => act_inj hB hi hj
  have hw : ∀ w ∈ d.weights, ∀ i < 20, w ≠ B i := fun w hw i hi => hd.ne_act hw hi
  simp only [DenseLayer.weights, List.cons_append, List.forall_mem_cons] at hw
  obtain ⟨hy, hkept⟩ := feedForward_run K m d.gateW d.gateS d.upW d.upS d.downW d.downS (B 12) (B 13)
    (B 14) (B 15) (B 16) (B 17) (B 18) (B 19) d₀.D d₀.FF (by simp [hinj]) (by simp [hinj, hw])
  intro r
  unfold r ffnOrders
  rw [items_append, recorded_append, recorded_bar, recorded_radd, hy, hkept (B 10) (by simp [hinj])]
  constructor
  · simp [recorded_items_nil]
  · intro b hb
    rw [List.mem_cons, not_or] at hb
    rw [recorded_items_nil, Function.update_of_ne hb.1]
    exact hkept b (by simp [ne_act hb.2])

/-- Seen from outside of the activations, the run of a layer is one step. -/
theorem layer_run (hB : (acts B).Nodup) (hd : LayerApart B d.toDenseLayer) {b : Nat}
    (hb : b ∉ acts B) :
    recorded (K.items (layerOrders B d₀ d)) m b = K.layer d₀ d m b := by
  have hinj : ∀ i < 20, ∀ j < 20, B i = B j ↔ i = j := fun i hi j hj => act_inj hB hi hj
  have hne : ∀ w ∉ acts B, ∀ i < 20, w ≠ B i := fun w hw i hi => ne_act hw hi
  have hw : ∀ w ∈ d.weights, w ∉ acts B := fun w hw hmem => hd.weights w hw (by simp [hmem])
  unfold layerOrders
  rw [items_append, items_append, items_append, recorded_append, recorded_append, recorded_append]
  obtain ⟨hq, hk, hv, hkept₁⟩ := qkv_run K d₀ m hB hd
  generalize recorded (K.items (qkvOrders B d₀ d)) m = r₁ at hq hk hv hkept₁ ⊢
  have hold₁ : ∀ w ∉ acts B, r₁ w = m w := fun w hw => hkept₁ w fun i hi => hne w hw i (by omega)
  obtain ⟨hkeys, hvalues, had, haq, hkept₂⟩ := attn_run K d₀ r₁ hB hd
  generalize recorded (K.items (attnOrders B d₀ d)) r₁ = r₂ at hkeys hvalues had haq hkept₂ ⊢
  have hold₂ : ∀ w ∉ d.kCache :: d.vCache :: acts B, r₂ w = m w := by
    intro w hw
    simp only [List.mem_cons, not_or] at hw
    rw [hkept₂ w (by simp [hw, hne w hw.2.2]), hold₁ w hw.2.2]
  have hweight : ∀ w ∈ d.weights, r₂ w = m w := fun w hw => hold₂ w (hd.weights w hw)
  obtain ⟨hsum, hxd, hxq, hkept₃⟩ := projectNorm_run K r₂ d.oW d.oS (B 7) (B 8) (B 9) d.hiddenDev
    (B 10) d.ffnNormW (B 11) (B 12) (B 13) d₀.D d₀.Qdim d.eps (by simp [hinj]) (by
      have hweights := fun w hw' => hne w (hw w hw')
      simp only [DenseLayer.weights, List.cons_append, List.forall_mem_cons] at hweights
      simp [hinj, hweights, hne _ hd.hidden])
  generalize recorded (K.items (projectNorm d.oW d.oS (B 7) (B 8) (B 9) d.hiddenDev (B 10) d.ffnNormW
    (B 11) (B 12) (B 13) d₀.D d₀.Qdim d.eps)) r₂ = r₃ at hsum hxd hxq hkept₃ ⊢
  have hold₃ : ∀ w ∉ acts B, r₃ w = r₂ w := fun w hw => hkept₃ w (by simp [hne w hw])
  have hweight₃ : ∀ w ∈ d.weights, r₃ w = m w := fun w hw' =>
    (hold₃ w (hw w hw')).trans (hweight w hw')
  obtain ⟨hhidden, hkept₄⟩ := ffn_run d₀ r₃ hB hd
  generalize recorded (K.items (ffnOrders B d₀ d)) r₃ = r₄ at hhidden hkept₄ ⊢
  -- what the parts leave is what the layer makes
  rw [hk, hold₁ _ hd.kCache] at hkeys
  rw [hv, hold₁ _ hd.vCache] at hvalues
  have hresid : r₂ d.hiddenDev = m d.hiddenDev :=
    hold₂ _ (by simp [hd.hidden_kCache, hd.hidden_vCache, hd.hidden])
  rw [← hsum] at hxd hxq
  rw [hxd, hxq] at hhidden
  have hattended : r₃ (B 10) = K.attended d₀ d m := by
    rw [hsum, had, haq, hresid, hweight d.oW (by simp [DenseLayer.weights]),
      hweight d.oS (by simp [DenseLayer.weights]), hq, hk, hv, hold₁ _ hd.kCache, hold₁ _ hd.vCache]
    rfl
  unfold Kernels.layer
  by_cases hh : b = d.hiddenDev
  · simp only [DenseLayer.weights, List.cons_append, List.forall_mem_cons] at hweight hweight₃
    rw [hh, Function.update_self, hhidden, hattended]
    simp only [hweight, hweight₃]
    rfl
  · rw [Function.update_of_ne hh, hkept₄ b (by simp [hh, hb]), hold₃ b hb]
    by_cases hbv : b = d.vCache
    · rw [hbv, Function.update_self, hvalues]
      rfl
    · rw [Function.update_of_ne hbv]
      by_cases hbk : b = d.kCache
      · rw [hbk, Function.update_self, hkeys]
        rfl
      · rw [Function.update_of_ne hbk]
        exact hold₂ b (by simp [hbk, hbv, hb])

/-- The memory outside of the activations decides what a layer makes of it. -/
theorem layer_congr (hd : LayerApart B d.toDenseLayer) (h : ∀ b ∉ acts B, m b = m' b) {b : Nat}
    (hb : b ∉ acts B) : K.layer d₀ d m b = K.layer d₀ d m' b := by
  have hw : ∀ w ∈ d.weights, m w = m' w := fun w hw => h w fun hmem =>
    hd.weights w hw (by simp [hmem])
  have hfactors : d.ropeFreqs.elim (K.normedInput d₀ d m') m =
      d.ropeFreqs.elim (K.normedInput d₀ d m') m' := by
    cases hfreq : d.ropeFreqs with
    | none => rfl
    | some f => exact hw f (List.mem_append_right _ (by simp [hfreq]))
  simp only [DenseLayer.weights, List.cons_append, List.forall_mem_cons] at hw
  have hnormed : K.normedInput d₀ d m = K.normedInput d₀ d m' := by
    simp only [Kernels.normedInput, h _ hd.hidden, hw]
  simp only [Kernels.layer, Kernels.nextHidden, Kernels.attended, Kernels.keys, Kernels.values,
    Kernels.query, Kernels.key, Kernels.value, Kernels.factors, hnormed, hfactors, hw,
    h _ hd.hidden, h _ hd.kCache, h _ hd.vCache, Function.update_apply, h b hb]

theorem layers_run (hB : (acts B).Nodup) {L : List (DenseToken F)}
    (hL : ∀ d ∈ L, LayerApart B d.toDenseLayer) (h : ∀ b ∉ acts B, m b = m' b) {b : Nat}
    (hb : b ∉ acts B) : recorded (K.items (layersOrders B d₀ none L)) m b =
      L.foldl (fun m d => K.layer d₀ d m) m' b := by
  have hstep : ∀ d, LayerApart B d.toDenseLayer → ∀ {m m' : Nat → α},
      (∀ b ∉ acts B, m b = m' b) → ∀ b ∉ acts B,
        recorded (K.items (layerOrders B d₀ d)) m b = K.layer d₀ d m' b := fun d hd m m' h b hb =>
    (layer_run hB hd hb).trans (layer_congr hd h hb)
  induction L generalizing m m' with
  | nil => exact h b hb
  | cons d L ih =>
    have hd := hstep d (hL d List.mem_cons_self) h
    cases L with
    | nil =>
      rw [layersOrders, items_append, recorded_append]
      exact hd b hb
    | cons d' L =>
      rw [layersOrders_cons, items_append, recorded_append, recorded_bar, List.foldl_cons]
      exact ih (fun e he => hL e (List.mem_cons_of_mem _ he)) hd

/-- The copy of the hidden state is behind everything else. -/
theorem layersOrders_out {out : Option Nat} {L : List (DenseToken F)} {last : DenseToken F}
    (hlast : L.getLast? = some last) : layersOrders B d₀ out L =
      layersOrders B d₀ none L ++ outOrders d₀ last.hiddenDev out := by
  induction L with
  | nil => cases hlast
  | cons d L ih =>
    cases L with
    | nil =>
      cases hlast
      simp [layersOrders, outOrders]
    | cons d' L =>
      rw [List.getLast?_cons_cons] at hlast
      rw [layersOrders_cons, layersOrders_cons, ih hlast, List.append_assoc, List.cons_append]

/-- In the order of its recording, a token makes of the memory outside of the activations what its
layers make of it, one after the other. -/
theorem token_run (hB : (acts B).Nodup) {input out : Option Nat} {L : List (DenseToken F)}
    {last : DenseToken F} (hlast : L.getLast? = some last)
    (hL : ∀ d ∈ L, LayerApart B d.toDenseLayer ∧ d.hiddenDev = d₀.hiddenDev) {b : Nat}
    (hb : b ∉ acts B) : recorded (K.items (recordOrders B d₀ input out last L none)) m b =
      K.token d₀ m d₀.hiddenDev input out L b := by
  have hmem := List.mem_of_getLast? hlast
  unfold recordOrders Kernels.token
  rw [List.append_nil, layersOrders_out hlast, (hL last hmem).2, items_append, items_append,
    recorded_append, recorded_append]
  have hinput : recorded (K.items (inputOrders d₀ input)) m =
      input.elim m fun b => Function.update m d₀.hiddenDev
        (K.copy (d₀.D.toUInt64 * 4) 0 (m b) (m d₀.hiddenDev)) := by
    cases input <;> rfl
  rw [hinput]
  generalize input.elim m (fun b => Function.update m d₀.hiddenDev
    (K.copy (d₀.D.toUInt64 * 4) 0 (m b) (m d₀.hiddenDev))) = m₁
  have hlayers : ∀ b ∉ acts B, recorded (K.items (layersOrders B d₀ none L)) m₁ b =
      L.foldl (fun m d => K.layer d₀ d m) m₁ b := fun b hb =>
    layers_run hB (fun d hd => (hL d hd).1) (fun _ _ => rfl) hb
  cases out with
  | none => exact hlayers b hb
  | some out =>
    have hhidden : d₀.hiddenDev ∉ acts B := (hL last hmem).2 ▸ (hL last hmem).1.hidden
    rw [outOrders, recorded_computed, recorded_copy, recorded_items_nil]
    simp only [Option.elim_some, Function.update_apply, hlayers _ hhidden, hlayers b hb]
    split
    · next heq => rw [← heq, hlayers b hb]
    · rfl

/-- Whichever order the device runs the commands in: outside of the activations, a token without the
final head leaves what its layers make of the memory, one after the other. -/
theorem token_outcome (hB : (acts B).Nodup) {input out : Option Nat} {L : List (DenseToken F)}
    {last : DenseToken F} (hlast : L.getLast? = some last)
    (hL : ∀ d ∈ L, LayerApart B d.toDenseLayer ∧ d.hiddenDev = d₀.hiddenDev)
    (hrun : Outcome (K.items (recordOrders B d₀ input out last L none)) m m') {b : Nat}
    (hb : b ∉ acts B) : m' b = K.token d₀ m d₀.hiddenDev input out L b := by
  have hcaches : ∀ d ∈ L, CachesApart B d.toDenseLayer := fun d hd =>
    ⟨ne_act (hL d hd).1.kCache (by decide), ne_act (hL d hd).1.vCache (by decide),
      (hL d hd).1.caches⟩
  rw [(hazardFree_record hcaches).outcome hrun, token_run hB hlast hL hb]

end Layers

end VgEngine.Vulkan

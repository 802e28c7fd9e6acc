import VgEngine.Vulkan.DenseRun

/-! The fused calls. Each stages its inputs, records one command buffer and reads its results back;
what it computes does not depend on the order in which the device runs the commands, and is exact
where the arithmetic is. -/
namespace VgEngine.Vulkan
open VgEngine.Lib CommandBuffer

section Model

variable {F : Type} (driver : Driver)

/-- The buffers of slots `base`, `base + 1` and so on. -/
def acquireFrom (p : Pool) (base : Nat) (sizes : List UInt64) : Work (Nat → Nat) := do
  let bs ← sizes.zipIdx.mapM fun r v => v.acquirePool driver p (base + r.2) r.1
  pure fun i => bs.getD i 0

/-- The staging buffers of a fused call, and its activations. -/
def acquireFused (base : Nat) (staging dev : List UInt64) : Work ((Nat → Nat) × (Nat → Nat)) := do
  let S ← acquireFrom driver .scratch base staging
  let B ← acquireFrom driver .devscratch base dev
  pure (S, B)

/-- The weights of a feed-forward block. -/
structure FfnWeights where
  gateW : Nat
  gateS : Nat
  upW : Nat
  upS : Nat
  downW : Nat
  downS : Nat

def FfnWeights.all (w : FfnWeights) : List Nat := [w.gateW, w.gateS, w.upW, w.upS, w.downW, w.downS]

/-- The attention's output matrix and the norm behind it. -/
structure ProjWeights where
  oW : Nat
  oS : Nat
  normW : Nat

def ProjWeights.all (w : ProjWeights) : List Nat := [w.oW, w.oS, w.normW]

/-- `feedForward` of a fused call. -/
def FfnWeights.orders (w : FfnWeights) (xd xq g u mid md mq y : Nat) (D FF : UInt32) :
    List (Order Pipeline F) :=
  feedForward w.gateW w.gateS w.upW w.upS w.downW w.downS xd xq g u mid md mq y D FF

/-- The staged input, quantized by the host: its scales and its values. -/
def stagedOrders (S B : Nat → Nat) (nb : UInt32) : List (Order Pipeline F) :=
  [.copy (S 0) (B 0) (nb.toUInt64 * 4) 0, .copy (S 1) (B 1) (nb.toUInt64 * 32) 0]

/-- `vg_vk_ffn_fused` up to its recording. -/
def ffnFused (D FF : UInt32) : Work ((Nat → Nat) × (Nat → Nat)) := do
  let X := (D / 32).toUInt64
  let M := (FF / 32).toUInt64
  let d := D.toUInt64 * 4
  let f := FF.toUInt64 * 4
  refuse (D = 0 ∨ FF = 0) .invalid
  refuse (D % 32 ≠ 0 ∨ FF % 32 ≠ 0) .unsupported
  acquireFused driver 0 [X * 4, X * 32, d] [X * 4, X * 32, f, f, f, M * 4, M * 32, d]

def ffnFusedOrders (S B : Nat → Nat) (w : FfnWeights) (D FF : UInt32) : List (Order Pipeline F) :=
  stagedOrders S B (D / 32) ++ uploaded ::
    (w.orders (B 0) (B 1) (B 2) (B 3) (B 4) (B 5) (B 6) (B 7) D FF ++
      [computed, .copy (B 7) (S 2) (D.toUInt64 * 4) 0])

/-- `vg_vk_ffn_fused_x2` up to its recording. -/
def ffnFusedX2 (D FF : UInt32) : Work ((Nat → Nat) × (Nat → Nat)) := do
  let X := (D / 32).toUInt64
  let M := (FF / 32).toUInt64
  let d := D.toUInt64 * 4
  let f := FF.toUInt64 * 4
  refuse (D = 0 ∨ FF = 0) .invalid
  refuse (D % 32 ≠ 0 ∨ FF % 32 ≠ 0) .unsupported
  acquireFused driver 300 [X * 4, X * 32, d, d] [X * 4, X * 32, f, f, f, M * 4, M * 32, d, d, d]

/-- The two experts share the activations between their matrices. -/
def ffnFusedX2Orders (S B : Nat → Nat) (w₀ w₁ : FfnWeights) (D FF : UInt32) :
    List (Order Pipeline F) :=
  stagedOrders S B (D / 32) ++ uploaded ::
    (w₀.orders (B 0) (B 1) (B 2) (B 3) (B 4) (B 5) (B 6) (B 8) D FF ++ bar ::
      (w₁.orders (B 0) (B 1) (B 2) (B 3) (B 4) (B 5) (B 6) (B 9) D FF ++
        [bar, computed, .copy (B 8) (S 2) (D.toUInt64 * 4) 0, .copy (B 9) (S 3) (D.toUInt64 * 4) 0]))

/-- `vg_vk_moe_head` up to its recording. -/
def moeHead (D NE : UInt32) : Work ((Nat → Nat) × (Nat → Nat)) := do
  let X := (D / 32).toUInt64
  let d := D.toUInt64 * 4
  let e := NE.toUInt64 * 4
  refuse (D = 0 ∨ NE = 0) .invalid
  refuse (D % 32 ≠ 0) .unsupported
  acquireFused driver 400 [X * 4, X * 32, d, d, e] [X * 4, X * 32, d, d, d, d, X * 4, X * 32, e]

def moeHeadOrders (S B : Nat → Nat) (p : ProjWeights) (routeW routeS : Nat) (D NE : UInt32)
    (eps : F) : List (Order Pipeline F) :=
  stagedOrders S B (D / 32) ++ .copy (S 2) (B 2) (D.toUInt64 * 4) 0 :: uploaded ::
    (projectNorm p.oW p.oS (B 0) (B 1) (B 3) (B 2) (B 4) p.normW (B 5) (B 6) (B 7) D D eps ++
      [mvec routeW routeS (B 6) (B 7) (B 8) NE D, bar, computed,
        .copy (B 4) (S 3) (D.toUInt64 * 4) 0, .copy (B 8) (S 4) (NE.toUInt64 * 4) 0])

/-- `vg_vk_layer_tail` up to its recording. -/
def layerTail (D FF : UInt32) : Work ((Nat → Nat) × (Nat → Nat)) := do
  let O := (D / 32).toUInt64
  let M := (FF / 32).toUInt64
  let d := D.toUInt64 * 4
  let f := FF.toUInt64 * 4
  refuse (D % 32 ≠ 0 ∨ FF % 32 ≠ 0) .unsupported
  acquireFused driver 200 [O * 4, O * 32, d, d]
    [O * 4, O * 32, d, d, d, d, O * 4, O * 32, f, f, f, M * 4, M * 32, d, d]

def layerTailOrders (S B : Nat → Nat) (p : ProjWeights) (w : FfnWeights) (D FF : UInt32) (eps : F) :
    List (Order Pipeline F) :=
  stagedOrders S B (D / 32) ++ .copy (S 2) (B 3) (D.toUInt64 * 4) 0 :: uploaded ::
    (projectNorm p.oW p.oS (B 0) (B 1) (B 2) (B 3) (B 4) p.normW (B 5) (B 6) (B 7) D D eps ++
      (w.orders (B 6) (B 7) (B 8) (B 9) (B 10) (B 11) (B 12) (B 13) D FF ++
        [bar, radd (B 13) (B 4) (B 14) D, computed, .copy (B 14) (S 3) (D.toUInt64 * 4) 0]))

end Model

section Property

/-- The buffers of a fused call are apart from each other, and none of them is in the cache. -/
structure FusedApart (S B : Nat → Nat) (n k : Nat) (cache : List CacheItem) : Prop where
  staging : ∀ i < n, ∀ j < n, S i = S j ↔ i = j
  device : ∀ i < k, ∀ j < k, B i = B j ↔ i = j
  apart : ∀ i < n, ∀ j < k, S i ≠ B j
  staged : ∀ w ∈ cache.map CacheItem.buf, ∀ i < n, w ≠ S i
  used : ∀ w ∈ cache.map CacheItem.buf, ∀ i < k, w ≠ B i

variable {F α : Type} (K : Kernels Pipeline F α)

/-- A feed-forward block with its weights in memory. -/
def Kernels.ffnOf (w : FfnWeights) (D FF : UInt32) (m : Nat → α) (xd xq : α) : α :=
  K.ffn D FF (m w.gateW) (m w.gateS) (m w.upW) (m w.upS) (m w.downW) (m w.downS) xd xq

/-- The residual stream behind the attention. -/
def Kernels.projected (p : ProjWeights) (D : UInt32) (m : Nat → α) (ad aq resid : α) : α :=
  K.radd D (K.mvec D D (m p.oW) (m p.oS) ad aq) resid

/-- Its norm. -/
def Kernels.projectedNorm (p : ProjWeights) (D : UInt32) (eps : F) (m : Nat → α)
    (ad aq resid : α) : α :=
  K.rnorm D eps (K.projected p D m ad aq resid) (m p.normW)

/-- A staged buffer as it arrives in the activations. -/
def Kernels.sent (bytes : UInt64) (src dst : Nat) (m : Nat → α) : α := K.copy bytes 0 (m src) (m dst)

variable (S B : Nat → Nat) (w w₀ w₁ : FfnWeights) (p : ProjWeights) (D FF NE : UInt32) (eps : F)
variable (m m' : Nat → α)

/-- The scales of the staged input, and its values. -/
def Kernels.sentScales : α := K.sent ((D / 32).toUInt64 * 4) (S 0) (B 0) m

def Kernels.sentValues : α := K.sent ((D / 32).toUInt64 * 32) (S 1) (B 1) m

/-- The result of `vg_vk_ffn_fused` in its staging buffer; the rest of the memory stays. -/
def Kernels.FfnMakes : Prop :=
  m' (S 2) = K.copy (D.toUInt64 * 4) 0
      (K.ffnOf w D FF m (K.sentScales S B D m) (K.sentValues S B D m)) (m (S 2)) ∧
    ∀ b, b ≠ S 2 → (∀ i < 8, b ≠ B i) → m' b = m b

/-- Each of the two experts makes of the input what it makes of it alone. -/
def Kernels.FfnX2Makes : Prop :=
  m' (S 2) = K.copy (D.toUInt64 * 4) 0
      (K.ffnOf w₀ D FF m (K.sentScales S B D m) (K.sentValues S B D m)) (m (S 2)) ∧
    m' (S 3) = K.copy (D.toUInt64 * 4) 0
      (K.ffnOf w₁ D FF m (K.sentScales S B D m) (K.sentValues S B D m)) (m (S 3)) ∧
    ∀ b, b ≠ S 2 → b ≠ S 3 → (∀ i < 10, b ≠ B i) → m' b = m b

/-- The residual stream behind the attention, and the logits of the router on its norm. -/
def Kernels.HeadMakes (routeW routeS : Nat) : Prop :=
  let resid := K.sent (D.toUInt64 * 4) (S 2) (B 2) m
  let h := K.projected p D m (K.sentScales S B D m) (K.sentValues S B D m) resid
  let x := K.projectedNorm p D eps m (K.sentScales S B D m) (K.sentValues S B D m) resid
  m' (S 3) = K.copy (D.toUInt64 * 4) 0 h (m (S 3)) ∧
    m' (S 4) = K.copy (NE.toUInt64 * 4) 0 (K.matvec NE D (m routeW) (m routeS) x) (m (S 4)) ∧
    ∀ b, b ≠ S 3 → b ≠ S 4 → (∀ i < 9, b ≠ B i) → m' b = m b

/-- The residual stream behind the feed-forward block. -/
def Kernels.TailMakes : Prop :=
  let resid := K.sent (D.toUInt64 * 4) (S 2) (B 3) m
  let h := K.projected p D m (K.sentScales S B D m) (K.sentValues S B D m) resid
  let x := K.projectedNorm p D eps m (K.sentScales S B D m) (K.sentValues S B D m) resid
  m' (S 3) = K.copy (D.toUInt64 * 4) 0 (K.radd D
      (K.ffnOf w D FF m (K.quant (D / 32) x 0) (K.quant (D / 32) x 1)) h) (m (S 3)) ∧
    ∀ b, b ≠ S 3 → (∀ i < 15, b ≠ B i) → m' b = m b

end Property

section Values

variable {F α : Type} {K : Kernels Pipeline F α} {S B : Nat → Nat} {n k : Nat}
variable {cache : List CacheItem} {m m' : Nat → α} {D FF NE : UInt32} {eps : F}

theorem chained_mvec {w s xd xq y : Nat} {rows cols : UInt32} {rest : List (Item Stage Nat α)} :
    Chained .compute (K.item (mvec w s xd xq y rows cols) :: rest) ↔ Chained .compute rest :=
  and_iff_right rfl

theorem chained_radd {a b o : Nat} {len : UInt32} {rest : List (Item Stage Nat α)} :
    Chained .compute (K.item (radd a b o len) :: rest) ↔ Chained .compute rest :=
  and_iff_right rfl

theorem chained_staged {nb : UInt32} {rest : List (Item Stage Nat α)} :
    Chained .transfer (K.items (stagedOrders S B nb) ++ rest) ↔ Chained .transfer rest := by
  simp [Kernels.items, stagedOrders, chained_copy]

section Copies

variable {i i' j j' : Nat} {bytes offset bytes' offset' : UInt64}

/-- What was staged goes to different activations. -/
theorem FusedApart.sent (h : FusedApart S B n k cache) (hi : i < n) (hi' : i' < n) (hj : j < k)
    (hj' : j' < k) (hne : j ≠ j') : ¬Conflict (K.copyBuffer (S i) (B j) bytes offset)
      (K.copyBuffer (S i') (B j') bytes' offset') :=
  copies_apart (h.apart i' hi' j hj).symm (h.apart i hi j' hj').symm
    (by simp [h.device j hj j' hj', hne])

/-- What is read back goes to different staging buffers. -/
theorem FusedApart.back (h : FusedApart S B n k cache) (hi : i < n) (hi' : i' < n) (hj : j < k)
    (hj' : j' < k) (hne : i ≠ i') : ¬Conflict (K.copyBuffer (B j) (S i) bytes offset)
      (K.copyBuffer (B j') (S i') bytes' offset') :=
  copies_apart (h.apart i hi j' hj') (h.apart i' hi' j hj) (by simp [h.staging i hi i' hi', hne])

end Copies

theorem hazardFree_ffnFused (h : FusedApart S B 3 8 cache) (w : FfnWeights) (D FF : UInt32) :
    HazardFree (K.items (ffnFusedOrders S B w D FF)) := by
  simp only [ffnFusedOrders, FfnWeights.orders, items_append, items_cons]
  refine Chained.hazardFree (s := .transfer) ?_ ?_
  · simp only [chained_staged, chained_uploaded, chained_feedForward, chained_computed, chained_copy]
    trivial
  · simp [stagedOrders, Kernels.items, Kernels.item, Apart, group, uploaded, computed, feedForward,
      mvec, swish, quant, bar, h.sent]

theorem hazardFree_ffnFusedX2 (h : FusedApart S B 4 10 cache) (w₀ w₁ : FfnWeights)
    (D FF : UInt32) : HazardFree (K.items (ffnFusedX2Orders S B w₀ w₁ D FF)) := by
  simp only [ffnFusedX2Orders, FfnWeights.orders, items_append, items_cons]
  refine Chained.hazardFree (s := .transfer) ?_ ?_
  · simp only [chained_staged, chained_uploaded, chained_feedForward, chained_bar, chained_computed,
      chained_copy]
    trivial
  · simp [stagedOrders, Kernels.items, Kernels.item, Apart, group, uploaded, computed, feedForward,
      mvec, swish, quant, bar, h.sent, h.back]

theorem hazardFree_moeHead (h : FusedApart S B 5 9 cache) (p : ProjWeights) (routeW routeS : Nat)
    (D NE : UInt32) (eps : F) :
    HazardFree (K.items (moeHeadOrders S B p routeW routeS D NE eps)) := by
  simp only [moeHeadOrders, items_append, items_cons]
  refine Chained.hazardFree (s := .transfer) ?_ ?_
  · simp only [chained_staged, chained_copy, chained_uploaded, chained_projectNorm, chained_mvec,
      chained_bar, chained_computed]
    trivial
  · simp [stagedOrders, Kernels.items, Kernels.item, Apart, group, uploaded, computed, projectNorm,
      mvec, radd, rnorm, quant, bar, h.sent, h.back]

theorem hazardFree_layerTail (h : FusedApart S B 4 15 cache) (p : ProjWeights) (w : FfnWeights)
    (D FF : UInt32) (eps : F) : HazardFree (K.items (layerTailOrders S B p w D FF eps)) := by
  simp only [layerTailOrders, FfnWeights.orders, items_append, items_cons]
  refine Chained.hazardFree (s := .transfer) ?_ ?_
  · simp only [chained_staged, chained_copy, chained_uploaded, chained_projectNorm,
      chained_feedForward, chained_radd, chained_bar, chained_computed]
    trivial
  · simp [stagedOrders, Kernels.items, Kernels.item, Apart, group, uploaded, computed, projectNorm,
      feedForward, swish, mvec, radd, rnorm, quant, bar, h.sent]

theorem FusedApart.back_ne (h : FusedApart S B n k cache) : ∀ i < n, ∀ j < k, B j ≠ S i :=
  fun i hi j hj => (h.apart i hi j hj).symm

theorem ffnFused_run (h : FusedApart S B 3 8 cache) (w : FfnWeights) (D FF : UInt32)
    (hw : ∀ b ∈ w.all, b ∈ cache.map CacheItem.buf) (m : Nat → α) :
    K.FfnMakes S B w D FF m (recorded (K.items (ffnFusedOrders S B w D FF)) m) := by
  have hused : ∀ b ∈ w.all, ∀ i < 8, b ≠ B i := fun b hb => h.used b (hw b hb)
  simp only [FfnWeights.all, List.forall_mem_cons] at hused
  constructor
  · simp [ffnFusedOrders, stagedOrders, FfnWeights.orders, feedForward, recorded_items_nil,
      h.device, h.apart, hused]
    rfl
  · intro b h₂ hB
    simp [ffnFusedOrders, stagedOrders, FfnWeights.orders, feedForward, recorded_items_nil, h₂, hB]

theorem ffnFusedX2_run (h : FusedApart S B 4 10 cache) (w₀ w₁ : FfnWeights) (D FF : UInt32)
    (hw₀ : ∀ b ∈ w₀.all, b ∈ cache.map CacheItem.buf)
    (hw₁ : ∀ b ∈ w₁.all, b ∈ cache.map CacheItem.buf) (m : Nat → α) :
    K.FfnX2Makes S B w₀ w₁ D FF m (recorded (K.items (ffnFusedX2Orders S B w₀ w₁ D FF)) m) := by
  have hused₀ : ∀ b ∈ w₀.all, ∀ i < 10, b ≠ B i := fun b hb => h.used b (hw₀ b hb)
  have hused₁ : ∀ b ∈ w₁.all, ∀ i < 10, b ≠ B i := fun b hb => h.used b (hw₁ b hb)
  simp only [FfnWeights.all, List.forall_mem_cons] at hused₀ hused₁
  refine ⟨?_, ?_, fun b h₂ h₃ hB => ?_⟩
  · simp [ffnFusedX2Orders, stagedOrders, FfnWeights.orders, feedForward, recorded_items_nil,
      h.staging, h.device, h.apart, h.back_ne, hused₀, hused₁]
    rfl
  · simp [ffnFusedX2Orders, stagedOrders, FfnWeights.orders, feedForward, recorded_items_nil,
      h.staging, h.device, h.apart, h.back_ne, hused₀, hused₁]
    rfl
  · simp [ffnFusedX2Orders, stagedOrders, FfnWeights.orders, feedForward, recorded_items_nil, h₂, h₃,
      hB]

theorem moeHead_run (h : FusedApart S B 5 9 cache) (p : ProjWeights) (routeW routeS : Nat)
    (D NE : UInt32) (eps : F) (hp : ∀ b ∈ p.all, b ∈ cache.map CacheItem.buf)
    (hroute : ∀ b ∈ [routeW, routeS], b ∈ cache.map CacheItem.buf) (m : Nat → α) :
    K.HeadMakes S B p D NE eps m
      (recorded (K.items (moeHeadOrders S B p routeW routeS D NE eps)) m) routeW routeS := by
  have hused : ∀ b ∈ p.all, ∀ i < 9, b ≠ B i := fun b hb => h.used b (hp b hb)
  have hroute : ∀ b ∈ [routeW, routeS], ∀ i < 9, b ≠ B i := fun b hb => h.used b (hroute b hb)
  simp only [ProjWeights.all, List.forall_mem_cons] at hused hroute
  refine ⟨?_, ?_, fun b h₃ h₄ hB => ?_⟩
  · simp [moeHeadOrders, stagedOrders, projectNorm, recorded_items_nil, h.staging, h.device, h.apart,
      h.back_ne, hused, hroute]
    rfl
  · simp [moeHeadOrders, stagedOrders, projectNorm, recorded_items_nil, h.staging, h.device, h.apart,
      h.back_ne, hused, hroute]
    rfl
  · simp [moeHeadOrders, stagedOrders, projectNorm, recorded_items_nil, h₃, h₄, hB]

theorem layerTail_run (h : FusedApart S B 4 15 cache) (p : ProjWeights) (w : FfnWeights)
    (D FF : UInt32) (eps : F) (hp : ∀ b ∈ p.all, b ∈ cache.map CacheItem.buf)
    (hw : ∀ b ∈ w.all, b ∈ cache.map CacheItem.buf) (m : Nat → α) :
    K.TailMakes S B w p D FF eps m (recorded (K.items (layerTailOrders S B p w D FF eps)) m) := by
  have hproj : ∀ b ∈ p.all, ∀ i < 15, b ≠ B i := fun b hb => h.used b (hp b hb)
  have hffn : ∀ b ∈ w.all, ∀ i < 15, b ≠ B i := fun b hb => h.used b (hw b hb)
  simp only [ProjWeights.all, FfnWeights.all, List.forall_mem_cons] at hproj hffn
  constructor
  · simp [layerTailOrders, stagedOrders, projectNorm, FfnWeights.orders, feedForward,
      recorded_items_nil, h.device, h.apart, hproj, hffn]
    rfl
  · intro b h₃ hB
    simp [layerTailOrders, stagedOrders, projectNorm, FfnWeights.orders, feedForward,
      recorded_items_nil, h₃, hB]

end Values

section Runs

variable {driver : Driver} {v v' : VK} {loose : List Nat} {n base : Nat} {p : Pool}
variable {cache : List CacheItem} {got : List ((Pool × Nat) × Nat)} {sizes staging dev : List UInt64}
variable {S B bs : Nat → Nat}

theorem acquireFrom_acquired (h : Acquired loose n cache got v) (hn : base + sizes.length ≤ n)
    (hgot : ∀ e ∈ got, e.1.1 ≠ p)
    (hrun : (acquireFrom driver p base sizes).on v = (.ok bs, v')) :
    ∃ got', got ⊆ got' ∧ Acquired loose n cache got' v' ∧ (∀ e ∈ got', e ∈ got ∨ e.1.1 = p) ∧
      ∀ i < sizes.length, ((p, base + i), bs i) ∈ got' := by
  obtain ⟨l, v₁, hl, hrun⟩ := Work.bind_ok hrun
  obtain ⟨rfl, rfl⟩ := Work.pure_ok hrun
  obtain ⟨got', hsub, hacq, hslots, hl⟩ := slots_acquired
    (fun r b v v' (_ : r.2 < sizes.length) hrun => hrun) h hn (by omega) (fun e he => Or.inl (hgot e he)) hl
  exact ⟨got', hsub, hacq, fun e he => (hslots e he).imp_right And.left, by simpa using hl⟩

/-- The buffers of a fused call. -/
theorem acquireFused_apart (h : Owned v loose n)
    (hrun : (acquireFused driver base staging dev).on v = (.ok (S, B), v')) :
    FusedApart S B staging.length dev.length v.cache := by
  obtain ⟨S', v₁, hS, hrun⟩ := Work.bind_ok hrun
  obtain ⟨B', v₂, hB, hrun⟩ := Work.bind_ok hrun
  obtain ⟨heq, rfl⟩ := Work.pure_ok hrun
  obtain ⟨rfl, rfl⟩ := Prod.mk.inj heq
  have hstart : Acquired loose (n + base + staging.length + dev.length) v.cache [] v :=
    ⟨h.mono (by omega), rfl, by simp⟩
  obtain ⟨got, -, hacq, hgot, hS⟩ := acquireFrom_acquired hstart (by omega) (by simp) hS
  obtain ⟨got', hsub, hacq', -, hB⟩ := acquireFrom_acquired hacq (by omega) (fun e he => by
    rcases hgot e he with hmem | hpool
    · cases hmem
    · simp [hpool]) hB
  have hslot : ∀ {p s i j b}, ((p, s + i), b) ∈ got' → ((p, s + j), b) ∈ got' → i = j := by
    intro p s i j b hi hj
    by_contra hne
    exact hacq'.ne hi hj (by omega) rfl
  refine ⟨fun i hi j hj => ⟨fun heq => ?_, congrArg S⟩, fun i hi j hj => ⟨fun heq => ?_, congrArg B⟩,
    fun i hi j hj => ?_, fun w hw i hi => ?_, fun w hw i hi => ?_⟩
  · exact hslot (hsub (hS i hi)) (heq ▸ hsub (hS j hj))
  · exact hslot (hB i hi) (heq ▸ hB j hj)
  · exact hacq'.ne (hsub (hS i hi)) (hB j hj) (by simp)
  · rintro rfl
    exact hacq'.not_cached (hsub (hS i hi)) hw
  · rintro rfl
    exact hacq'.not_cached (hB i hi) hw

variable {F α : Type}

theorem ffnFused_computes (driver : Driver) (memoryBudget cacheBudget : UInt64) (ops : List Op)
    (s : Session) (w : FfnWeights) (D FF : UInt32) (S B : Nat → Nat) (v' : VK)
    (hsession : Run.exec (Session.step driver) (Session.opened memoryBudget cacheBudget) ops = some s)
    (hw : ∀ b ∈ w.all, b ∈ s.vk.cache.map CacheItem.buf)
    (hrun : (ffnFused driver D FF).on s.vk = (.ok (S, B), v')) (K : Kernels Pipeline F α)
    (m m' : Nat → α) (houtcome : Outcome (K.items (ffnFusedOrders S B w D FF)) m m') :
    K.FfnMakes S B w D FF m m' := by
  obtain ⟨_, v₁, h₁, hrun⟩ := Work.bind_ok hrun
  obtain ⟨_, v₂, h₂, hrun⟩ := Work.bind_ok hrun
  rw [show v₂ = s.vk from (refuse_ok h₂).trans (refuse_ok h₁)] at hrun
  have hapart : FusedApart S B 3 8 s.vk.cache := acquireFused_apart (owned_session hsession) hrun
  rw [(hazardFree_ffnFused hapart w D FF).outcome houtcome]
  exact ffnFused_run hapart w D FF hw m

theorem moeHead_apart {driver : Driver} {memoryBudget cacheBudget : UInt64} {ops : List Op}
    {s : Session} {D NE : UInt32} {S B : Nat → Nat} {v' : VK}
    (hsession : Run.exec (Session.step driver) (Session.opened memoryBudget cacheBudget) ops = some s)
    (hrun : (moeHead driver D NE).on s.vk = (.ok (S, B), v')) : FusedApart S B 5 9 s.vk.cache := by
  obtain ⟨_, v₁, h₁, hrun⟩ := Work.bind_ok hrun
  obtain ⟨_, v₂, h₂, hrun⟩ := Work.bind_ok hrun
  rw [show v₂ = s.vk from (refuse_ok h₂).trans (refuse_ok h₁)] at hrun
  exact acquireFused_apart (owned_session hsession) hrun

theorem layerTail_apart {driver : Driver} {memoryBudget cacheBudget : UInt64} {ops : List Op}
    {s : Session} {D FF : UInt32} {S B : Nat → Nat} {v' : VK}
    (hsession : Run.exec (Session.step driver) (Session.opened memoryBudget cacheBudget) ops = some s)
    (hrun : (layerTail driver D FF).on s.vk = (.ok (S, B), v')) : FusedApart S B 4 15 s.vk.cache := by
  obtain ⟨_, v₁, h₁, hrun⟩ := Work.bind_ok hrun
  rw [show v₁ = s.vk from refuse_ok h₁] at hrun
  exact acquireFused_apart (owned_session hsession) hrun

end Runs

section Values

variable {F : Type} [Field F] [LinearOrder F] (gl : Glsl F) (fl : Quant.Floats F)

/-- The logits of the router. -/
def routerValue (o route : Quant.Ptr) (D : Nat) (eps : F) (normW x resid : Nat → F) : Nat → F :=
  q8Product gl fl route D (Decode.MoeBlock.rms gl.math D eps normW (residualValue gl fl o D x resid))

/-- The weight buffers of a block hold its matrices. -/
structure FfnMatrices.In (t : FfnMatrices) (w : FfnWeights) (D FF : UInt32) (m : Nat → Cells F) :
    Prop where
  gate : Repacked t.gate FF D (m w.gateW) (m w.gateS)
  up : Repacked t.up FF D (m w.upW) (m w.upS)
  down : Repacked t.down D FF (m w.downW) (m w.downS)

end Values

section Exact

variable {F : Type} [Field F] [LinearOrder F] {gl : Glsl F} {fl : Quant.Floats F}
variable {K : Kernels Pipeline F (Cells F)} {m m' : Nat → Cells F} {S B : Nat → Nat}
variable {w : FfnWeights} {p : ProjWeights} {t : FfnMatrices} {o route : Quant.Ptr}
variable {D FF NE : UInt32} {eps : F} {x resid : Nat → F}

/-- The input that the host quantizes arrives. -/
theorem RunsShaders.sent (h : RunsShaders gl fl K)
    (hx : Quantized gl x (D.toNat / 32) (m (S 0)) (m (S 1))) :
    Quantized gl x (D.toNat / 32) (K.sentScales S B D m) (K.sentValues S B D m) := by
  have hblocks : (D / 32).toNat = D.toNat / 32 := UInt32.toNat_div D 32
  constructor
  · intro b hb
    exact (h.copied (hblocks.symm ▸ hb)).trans (hx.scales b hb)
  · intro b hb g hg
    refine Eq.trans ?_ (hx.codes b hb g hg)
    rw [Kernels.sentValues, Kernels.sent, h.copy]
    refine overlaid_front ?_
    rw [toNat_bytes _ (by decide), hblocks]
    change b * 8 + g < D.toNat / 32 * 32 / 4
    omega

theorem RunsShaders.ffnOf (h : RunsShaders gl fl K) (ht : t.In w D FF m) {xd xq : Cells F}
    (hx : Quantized gl x (D.toNat / 32) xd xq) : ∀ i < D.toNat,
      (K.ffnOf w D FF m xd xq).floats i = t.value gl fl D.toNat FF.toNat x i :=
  h.ffn ht.gate ht.up ht.down hx

theorem RunsShaders.projected (h : RunsShaders gl fl K) (ho : Repacked o D D (m p.oW) (m p.oS))
    {ad aq r : Cells F} (hx : Quantized gl x (D.toNat / 32) ad aq)
    (hr : ∀ i < D.toNat, r.floats i = resid i) : ∀ i < D.toNat,
      (K.projected p D m ad aq r).floats i = residualValue gl fl o D.toNat x resid i := by
  intro i hi
  rw [Kernels.projected, h.radd ho.rows_lt i hi, h.mvec ho hx i hi, hr i hi, residualValue]

theorem RunsShaders.projectedNorm (h : RunsShaders gl fl K) (ho : Repacked o D D (m p.oW) (m p.oS))
    {ad aq r : Cells F} (hx : Quantized gl x (D.toNat / 32) ad aq)
    (hr : ∀ i < D.toNat, r.floats i = resid i) : ∀ i < D.toNat,
      (K.projectedNorm p D eps m ad aq r).floats i = Decode.MoeBlock.rms gl.math D.toNat eps
        (m p.normW).floats (residualValue gl fl o D.toNat x resid) i := by
  intro i hi
  rw [Kernels.projectedNorm, h.rnorm i hi]
  exact rms_congr (h.projected ho hx hr) hi

theorem RunsShaders.fused (h : RunsShaders gl fl K) (hmakes : K.FfnMakes S B w D FF m m')
    (ht : t.In w D FF m) (hx : Quantized gl x (D.toNat / 32) (m (S 0)) (m (S 1))) :
    ∀ i < D.toNat, (m' (S 2)).floats i = t.value gl fl D.toNat FF.toNat x i := by
  intro i hi
  rw [hmakes.1, h.copied hi]
  exact h.ffnOf ht (h.sent hx) i hi

theorem RunsShaders.tail (h : RunsShaders gl fl K) (hmakes : K.TailMakes S B w p D FF eps m m')
    (ho : Repacked o D D (m p.oW) (m p.oS)) (ht : t.In w D FF m)
    (hx : Quantized gl x (D.toNat / 32) (m (S 0)) (m (S 1)))
    (hresid : ∀ i < D.toNat, (m (S 2)).floats i = resid i) :
    ∀ i < D.toNat, (m' (S 3)).floats i =
      t.layerValue gl fl o D.toNat D.toNat FF.toNat eps (m p.normW).floats x resid i := by
  intro i hi
  have hr : ∀ i < D.toNat, (K.sent (D.toUInt64 * 4) (S 2) (B 3) m).floats i = resid i :=
    fun i hi => (h.copied hi).trans (hresid i hi)
  have hsent := h.sent (B := B) hx
  have hnorm : ∀ j < D.toNat, (K.projectedNorm p D eps m (K.sentScales S B D m)
      (K.sentValues S B D m) (K.sent (D.toUInt64 * 4) (S 2) (B 3) m)).floats j =
        Decode.MoeBlock.rms gl.math D.toNat eps (m p.normW).floats
          (residualValue gl fl o D.toNat x resid) j := h.projectedNorm ho hsent hr
  rw [hmakes.1, h.copied hi, h.radd ho.rows_lt i hi, h.ffnOf ht h.quantBlocks i hi,
    h.projected ho hsent hr i hi, FfnMatrices.value_congr hnorm]
  rfl

theorem RunsShaders.head (h : RunsShaders gl fl K) {routeW routeS : Nat}
    (hmakes : K.HeadMakes S B p D NE eps m m' routeW routeS)
    (ho : Repacked o D D (m p.oW) (m p.oS)) (hroute : Repacked route NE D (m routeW) (m routeS))
    (hx : Quantized gl x (D.toNat / 32) (m (S 0)) (m (S 1)))
    (hresid : ∀ i < D.toNat, (m (S 2)).floats i = resid i) :
    (∀ i < D.toNat, (m' (S 3)).floats i = residualValue gl fl o D.toNat x resid i) ∧
      ∀ i < NE.toNat, (m' (S 4)).floats i =
        routerValue gl fl o route D.toNat eps (m p.normW).floats x resid i := by
  have hr : ∀ i < D.toNat, (K.sent (D.toUInt64 * 4) (S 2) (B 2) m).floats i = resid i :=
    fun i hi => (h.copied hi).trans (hresid i hi)
  have hsent := h.sent (B := B) hx
  constructor
  · intro i hi
    rw [hmakes.1, h.copied hi]
    exact h.projected ho hsent hr i hi
  · intro i hi
    rw [hmakes.2.1, h.copied hi, h.matvec hroute i hi]
    exact q8Product_congr (h.projectedNorm ho hsent hr) i

/-- The feed-forward block on the device, with its shaders in any order. -/
theorem ffnFused_exact (driver : Driver) (memoryBudget cacheBudget : UInt64) (ops : List Op)
    (s : Session) (w : FfnWeights) (D FF : UInt32) (S B : Nat → Nat) (v' : VK)
    (hsession : Run.exec (Session.step driver) (Session.opened memoryBudget cacheBudget) ops = some s)
    (hw : ∀ b ∈ w.all, b ∈ s.vk.cache.map CacheItem.buf)
    (hrun : (ffnFused driver D FF).on s.vk = (.ok (S, B), v')) (hshaders : RunsShaders gl fl K)
    (ht : t.In w D FF m) (hx : Staged gl x (D.toNat / 32) (m (S 0)) (m (S 1)))
    (houtcome : Outcome (K.items (ffnFusedOrders S B w D FF)) m m') :
    ∀ i < D.toNat, (m' (S 2)).floats i = t.value gl fl D.toNat FF.toNat x i :=
  hshaders.fused (ffnFused_computes driver memoryBudget cacheBudget ops s w D FF S B v' hsession hw
    hrun K m m' houtcome) ht hx.quantized

theorem ffnFused_exact_cached : ∃ s S B v, (ffnFused roomyDriver 32 32).on s = (.ok (S, B), v) ∧
    ∀ i < 32, (recorded ((shaderKernels realGlsl realFloats).items
      (ffnFusedOrders S B ⟨11, 12, 13, 14, 15, 16⟩ 32 32)) (fun _ => ⟨0, 0⟩) (S 2)).floats i =
        FfnMatrices.value realGlsl realFloats ⟨0, 0, 0⟩ 32 32 0 i := by
  obtain ⟨s, ⟨S, B⟩, v, hs, hweights, hrun⟩ :=
    cached_runs (ffnFused roomyDriver 32 32) (by decide +kernel)
  refine ⟨s.vk, S, B, v, hrun, ?_⟩
  have hzero : Repacked 0 32 32 (⟨0, 0⟩ : Cells ℝ) ⟨0, 0⟩ := repacked_zero (by decide) (by decide)
  exact ffnFused_exact roomyDriver 0x40000000 0 weightOps s _ 32 32 S B v hs
    (fun b hb => hweights b (by revert b; decide)) hrun (shaderKernels_run realGlsl realFloats)
    ⟨hzero, hzero, hzero⟩ (staged_zero _) (outcome_recorded _ _)

/-- The tail of a layer on the device is the residual stream behind the layer, with its products on
quantized activations: in whichever order the device runs the commands, and each shader its
workgroups, lanes and stores. -/
theorem layerTail_exact (driver : Driver) (memoryBudget cacheBudget : UInt64) (ops : List Op)
    (s : Session) (p : ProjWeights) (w : FfnWeights) (D FF : UInt32) (eps : F) (S B : Nat → Nat)
    (v' : VK)
    (hsession : Run.exec (Session.step driver) (Session.opened memoryBudget cacheBudget) ops = some s)
    (hp : ∀ b ∈ p.all, b ∈ s.vk.cache.map CacheItem.buf)
    (hw : ∀ b ∈ w.all, b ∈ s.vk.cache.map CacheItem.buf)
    (hrun : (layerTail driver D FF).on s.vk = (.ok (S, B), v')) (hshaders : RunsShaders gl fl K)
    (ho : Repacked o D D (m p.oW) (m p.oS)) (ht : t.In w D FF m)
    (hx : Staged gl x (D.toNat / 32) (m (S 0)) (m (S 1)))
    (hresid : ∀ i < D.toNat, (m (S 2)).floats i = resid i)
    (houtcome : Outcome (K.items (layerTailOrders S B p w D FF eps)) m m') :
    ∀ i < D.toNat, (m' (S 3)).floats i =
      t.layerValue gl fl o D.toNat D.toNat FF.toNat eps (m p.normW).floats x resid i := by
  have hapart := layerTail_apart hsession hrun
  have hmakes : K.TailMakes S B w p D FF eps m m' := by
    rw [(hazardFree_layerTail hapart p w D FF eps).outcome houtcome]
    exact layerTail_run hapart p w D FF eps hp hw m
  exact hshaders.tail hmakes ho ht hx.quantized hresid

theorem layerTail_exact_cached : ∃ s S B v, (layerTail roomyDriver 32 32).on s = (.ok (S, B), v) ∧
    ∀ i < 32, (recorded ((shaderKernels realGlsl realFloats).items
      (layerTailOrders S B ⟨8, 9, 10⟩ ⟨11, 12, 13, 14, 15, 16⟩ 32 32 1)) (fun _ => ⟨0, 0⟩) (S 3)).floats
        i = FfnMatrices.layerValue realGlsl realFloats ⟨0, 0, 0⟩ 0 32 32 32 1 0 0 0 i := by
  obtain ⟨s, ⟨S, B⟩, v, hs, hweights, hrun⟩ :=
    cached_runs (layerTail roomyDriver 32 32) (by decide +kernel)
  refine ⟨s.vk, S, B, v, hrun, ?_⟩
  have hzero : Repacked 0 32 32 (⟨0, 0⟩ : Cells ℝ) ⟨0, 0⟩ := repacked_zero (by decide) (by decide)
  exact layerTail_exact (m := fun _ => ⟨0, 0⟩) roomyDriver 0x40000000 0 weightOps s ⟨8, 9, 10⟩ _ 32 32
    1 S B v hs
    (fun b hb => hweights b (by revert b; decide)) (fun b hb => hweights b (by revert b; decide)) hrun
    (shaderKernels_run realGlsl realFloats) hzero ⟨hzero, hzero, hzero⟩ (staged_zero _)
    (fun _ _ => rfl) (outcome_recorded _ _)

/-- The block between attention and experts: the residual stream behind the attention, and the logits
of the router. -/
theorem moeHead_exact (driver : Driver) (memoryBudget cacheBudget : UInt64) (ops : List Op)
    (s : Session) (p : ProjWeights) (routeW routeS : Nat) (D NE : UInt32) (eps : F)
    (S B : Nat → Nat) (v' : VK)
    (hsession : Run.exec (Session.step driver) (Session.opened memoryBudget cacheBudget) ops = some s)
    (hp : ∀ b ∈ p.all, b ∈ s.vk.cache.map CacheItem.buf)
    (hroutes : ∀ b ∈ [routeW, routeS], b ∈ s.vk.cache.map CacheItem.buf)
    (hrun : (moeHead driver D NE).on s.vk = (.ok (S, B), v')) (hshaders : RunsShaders gl fl K)
    (ho : Repacked o D D (m p.oW) (m p.oS)) (hroute : Repacked route NE D (m routeW) (m routeS))
    (hx : Staged gl x (D.toNat / 32) (m (S 0)) (m (S 1)))
    (hresid : ∀ i < D.toNat, (m (S 2)).floats i = resid i)
    (houtcome : Outcome (K.items (moeHeadOrders S B p routeW routeS D NE eps)) m m') :
    (∀ i < D.toNat, (m' (S 3)).floats i = residualValue gl fl o D.toNat x resid i) ∧
      ∀ i < NE.toNat, (m' (S 4)).floats i =
        routerValue gl fl o route D.toNat eps (m p.normW).floats x resid i := by
  have hapart := moeHead_apart hsession hrun
  have hmakes : K.HeadMakes S B p D NE eps m m' routeW routeS := by
    rw [(hazardFree_moeHead hapart p routeW routeS D NE eps).outcome houtcome]
    exact moeHead_run hapart p routeW routeS D NE eps hp hroutes m
  exact hshaders.head hmakes ho hroute hx.quantized hresid

theorem moeHead_exact_cached : ∃ s S B v, (moeHead roomyDriver 32 4).on s = (.ok (S, B), v) ∧
    let m' := recorded ((shaderKernels realGlsl realFloats).items
      (moeHeadOrders S B ⟨8, 9, 10⟩ 2 3 32 4 1)) fun _ => ⟨0, 0⟩
    (∀ i < 32, (m' (S 3)).floats i = residualValue realGlsl realFloats 0 32 0 0 i) ∧
      ∀ i < 4, (m' (S 4)).floats i = routerValue realGlsl realFloats 0 0 32 1 0 0 0 i := by
  obtain ⟨s, ⟨S, B⟩, v, hs, hweights, hrun⟩ :=
    cached_runs (moeHead roomyDriver 32 4) (by decide +kernel)
  refine ⟨s.vk, S, B, v, hrun, ?_⟩
  exact moeHead_exact (m := fun _ => ⟨0, 0⟩) roomyDriver 0x40000000 0 weightOps s ⟨8, 9, 10⟩ 2 3 32 4
    1 S B v hs
    (fun b hb => hweights b (by revert b; decide)) (fun b hb => hweights b (by revert b; decide)) hrun
    (shaderKernels_run realGlsl realFloats) (repacked_zero (by decide) (by decide))
    (repacked_zero (by decide) (by decide)) (staged_zero _) (fun _ _ => rfl) (outcome_recorded _ _)

end Exact

end VgEngine.Vulkan

import VgEngine.Vulkan.DenseBuffers
import VgEngine.Vulkan.RowShaders

/-! Tokens of the dense path on a device that was used before: what their command buffers leave,
whichever order the device takes, and what this is in exact arithmetic. -/
namespace VgEngine.Vulkan
open VgEngine.Lib CommandBuffer

section Property

/-- Whatever the shaders compute, the device computes the token of the layers `ds`: each layer puts a
row into its caches and makes the next hidden state. -/
def ComputesToken (cs : List Command) (ds : List DenseLayer) : Prop :=
  ∃ B input out L, TokenBuffers B L out none ∧ L.map DenseLayer.weights = ds.map DenseLayer.weights ∧
    ∀ (F α : Type) (K : Kernels Pipeline F α) (T : List (DenseToken F)) (d₀ last : DenseToken F),
      T.map DenseToken.toDenseLayer = L → T.head? = some d₀ → T.getLast? = some last →
      let orders := recordOrders B d₀ input out last T none
      resolve cs cs = orders.filterMap Order.work ∧
        ∀ m m', Outcome (K.items orders) m m' →
          ∀ b ∉ acts B, m' b = K.token d₀ m d₀.hiddenDev input out T b

/-- The device may give the token in one way only, exactly if `p`. -/
def OneOutcomeIff (cs : List Command) (head : Option FinalHead) (p : Prop) : Prop :=
  ∃ B input out logits L, TokenBuffers B L out logits ∧ logits.map Prod.fst = head ∧
    ∀ (F : Type) (T : List (DenseToken F)) (d₀ last : DenseToken F)
      (h : Option (HeadToken F × Nat × Nat)),
      T.map DenseToken.toDenseLayer = L → T.head? = some d₀ → T.getLast? = some last →
      h.map (fun r => (r.1.toFinalHead, r.2)) = logits →
      let orders := recordOrders B d₀ input out last T h
      resolve cs cs = orders.filterMap Order.work ∧
        ((∀ (α : Type) (K : Kernels Pipeline F α) (m m' : Nat → α),
          Outcome (K.items orders) m m' → m' = recorded (K.items orders) m) ↔ p)

end Property

section Runs

/-- The device of a session. -/
theorem owned_session {driver : Driver} {memoryBudget cacheBudget : UInt64} {ops : List Op}
    {s : Session}
    (h : Run.exec (Session.step driver) (Session.opened memoryBudget cacheBudget) ops = some s) :
    Owned s.vk s.uploads s.slots :=
  always_carried driver memoryBudget cacheBudget ops ops s (List.prefix_refl _) h

variable {F : Type} {L : List DenseLayer} {e₀ e₁ : DenseLayer}

theorem map_head {T : List (DenseToken F)} {d₀ : DenseToken F}
    (hT : T.map DenseToken.toDenseLayer = L) (h : L.head? = some e₀) (h₀ : T.head? = some d₀) :
    e₀ = d₀.toDenseLayer := by
  rw [← hT, List.head?_map, h₀] at h
  exact (Option.some.inj h).symm

theorem map_last {T : List (DenseToken F)} {last : DenseToken F}
    (hT : T.map DenseToken.toDenseLayer = L) (h : L.getLast? = some e₁)
    (h₁ : T.getLast? = some last) : e₁ = last.toDenseLayer := by
  rw [← hT, List.getLast?_map, h₁] at h
  exact (Option.some.inj h).symm

/-- Sixteen weights go to the device. -/
def weightOps : List Op := (List.range 16).map fun i => .cacheAcquire (i + 1) 0 true 64

/-- A layer with these weights; buffer `1` is the staging buffer. -/
def cachedLayer : DenseLayer :=
  ⟨0, 2, 3, 4, 5, 6, 7, none, 0, 0, 8, 9, 10, 11, 12, 13, 14, 15, 16, 0, true, true, true, true,
    32, 1, 1, 32, 32, 32, 32⟩

/-- Work on the device that these calls leave, if it succeeds. -/
theorem cached_runs {β : Type} (w : Work β)
    (h : ((Run.exec (Session.step roomyDriver) (Session.opened 0x40000000 0) weightOps).any fun s =>
      cachedLayer.weights.all (s.vk.cache.map CacheItem.buf).contains &&
        (w.on s.vk).1.isOk) = true) :
    ∃ s b v, Run.exec (Session.step roomyDriver) (Session.opened 0x40000000 0) weightOps = some s ∧
      (∀ b ∈ cachedLayer.weights, b ∈ s.vk.cache.map CacheItem.buf) ∧ w.on s.vk = (.ok b, v) := by
  obtain ⟨s, hs, hok⟩ := (Option.any_eq_true _ _).1 h
  rw [Bool.and_eq_true, List.all_eq_true] at hok
  cases hrun : w.on s.vk with
  | mk r v =>
    rw [hrun] at hok
    cases r with
    | error status => cases hok.2
    | ok b => exact ⟨s, b, v, hs, fun b hb => List.contains_iff_mem.1 (hok.1 b hb), hrun⟩

/-- A token of two such layers. -/
def cachedToken (head : Option FinalHead) : Work (List Command × Rings) :=
  denseForward roomyDriver 16 [cachedLayer, cachedLayer] none head fun _ => ⟨0, Nat.succ_pos _⟩

/-- What the dense path records for the layers `ds`, with buffers that are apart. -/
theorem denseForward_runs {driver : Driver} {memoryBudget cacheBudget : UInt64} {ops : List Op}
    {s : Session} {cap : UInt32} {ds : List DenseLayer} {hidden : Option Nat} {rings rings' : Rings}
    {v' : VK} {cs : List Command}
    (hsession : Run.exec (Session.step driver) (Session.opened memoryBudget cacheBudget) ops = some s)
    (hhidden : ∀ b ∈ hidden, s.vk.slotBuffer .devscratch 2000 = some b)
    (hweights : ∀ d ∈ ds, ∀ w ∈ d.weights, w ∈ s.vk.cache.map CacheItem.buf)
    (hlayers : ds.length ≤ 146)
    (hrun : (denseForward driver cap ds hidden none rings).on s.vk = (.ok (cs, rings'), v')) :
    ∃ B input out L, TokenBuffers B L out none ∧ L.map DenseLayer.given = ds.map DenseLayer.given ∧
      Undisturbed L ∧ ∀ {F : Type} (T : List (DenseToken F)) (d₀ last : DenseToken F),
        T.map DenseToken.toDenseLayer = L → T.head? = some d₀ → T.getLast? = some last →
        resolve cs cs = (recordOrders B d₀ input out last T none).filterMap Order.work ∧
          ∀ d ∈ T, LayerApart B d.toDenseLayer ∧ d.hiddenDev = d₀.hiddenDev := by
  obtain ⟨B, input, out, e₀, e₁, logits, L, hfirst, hend, hlogits, hsame, hbuffers, hkept, hcs⟩ :=
    denseForward_prepared (owned_session hsession) hhidden hweights (by omega) hrun
  have hnone : logits = none := Option.map_eq_none_iff.1 hlogits
  subst hnone
  refine ⟨B, input, out, L, hbuffers, hsame, hkept, fun T d₀ last hT hhead hlast => ?_⟩
  have hlength : T.length = ds.length := by
    rw [← List.length_map DenseToken.toDenseLayer, hT, ← List.length_map DenseLayer.given, hsame,
      List.length_map]
  constructor
  · rw [hcs, map_head hT hfirst hhead, map_last hT hend hlast, ← hT]
    exact record_resolves input out last T none (by omega)
  · intro d hd
    have hmem : ∀ e ∈ T, e.toDenseLayer ∈ L := fun e he => hT ▸ List.mem_map_of_mem he
    exact ⟨hbuffers.layers _ (hmem d hd),
      hbuffers.hidden _ (hmem d hd) _ (hmem d₀ (List.mem_of_head? hhead))⟩

/-- Up to 146 layers, a token without the final head is computed as its layers say, in whichever
order the device runs its command buffer. Any calls came before, and the weights are cached. -/
theorem denseForward_computes (driver : Driver) (memoryBudget cacheBudget : UInt64) (ops : List Op)
    (s : Session) (cap : UInt32) (ds : List DenseLayer) (hidden : Option Nat)
    (rings rings' : Rings) (v' : VK) (cs : List Command)
    (hsession : Run.exec (Session.step driver) (Session.opened memoryBudget cacheBudget) ops = some s)
    (hhidden : ∀ b ∈ hidden, s.vk.slotBuffer .devscratch 2000 = some b)
    (hweights : ∀ d ∈ ds, ∀ w ∈ d.weights, w ∈ s.vk.cache.map CacheItem.buf)
    (hlayers : ds.length ≤ 146)
    (hrun : (denseForward driver cap ds hidden none rings).on s.vk = (.ok (cs, rings'), v')) :
    ComputesToken cs ds := by
  obtain ⟨B, input, out, L, hbuffers, hsame, -, hruns⟩ :=
    denseForward_runs hsession hhidden hweights hlayers hrun
  refine ⟨B, input, out, L, hbuffers, weights_of_given hsame, fun F α K T d₀ last hT hhead hlast => ?_⟩
  obtain ⟨hresolves, hL⟩ := hruns T d₀ last hT hhead hlast
  exact ⟨hresolves, fun m m' houtcome b hb => token_outcome hbuffers.acts hlast hL houtcome hb⟩

theorem denseForward_computes_cached : ∃ s cs rings v,
    (cachedToken none).on s = (.ok (cs, rings), v) ∧
      ComputesToken cs [cachedLayer, cachedLayer] := by
  obtain ⟨s, ⟨cs, rings⟩, v, hs, hweights, hrun⟩ := cached_runs (cachedToken none) (by decide +kernel)
  exact ⟨s.vk, cs, rings, v, hrun, denseForward_computes roomyDriver 0x40000000 0 weightOps s 16
    [cachedLayer, cachedLayer] none _ rings v cs hs (by simp) (by simpa using hweights) (by decide)
    hrun⟩

end Runs

section Values

open Decode

variable {F : Type} [Field F] [LinearOrder F] (gl : Glsl F) (fl : Quant.Floats F)

/-- The matrices of a layer in the file. -/
structure LayerMatrices where
  q : Quant.Ptr
  k : Quant.Ptr
  v : Quant.Ptr
  o : Quant.Ptr
  ffn : FfnMatrices

variable (t : LayerMatrices) (d₀ d : DenseToken F) (M : Nat → Nat → F)

/-- The constants of the attention. -/
def attnOf : AttnScores :=
  ⟨d₀.HD.toNat, d₀.H.toNat, d₀.HKV.toNat, d₀.KVdim.toNat, (d.pos + 1).toNat⟩

def normedValue : Nat → F :=
  MoeBlock.rms gl.math d₀.D.toNat d.eps (M d.attnNormW) (M d.hiddenDev)

/-- The heads of a projection of the normed input, turned to the position of the token. -/
def headsValue (hd nh nrot : UInt32) (w : Quant.Ptr) (i : Nat) : F :=
  rotated gl.rotation
    ⟨hd.toNat, nrot.toNat, nh.toNat, d.pos.toNat, d.freqBase, (hasFactors d).toNat⟩
    (d.ropeFreqs.elim 0 M) (q8Product gl fl w d₀.D.toNat (normedValue gl d₀ d M)) (i / hd.toNat)
    (i % hd.toNat)

/-- A cache with the row of the token. -/
def rowValue (row cache : Nat → F) (i : Nat) : F :=
  if d.pos.toNat * d₀.KVdim.toNat ≤ i ∧ i < d.pos.toNat * d₀.KVdim.toNat + d₀.KVdim.toNat then
    row (i - d.pos.toNat * d₀.KVdim.toNat)
  else cache i

def keysValue : Nat → F :=
  rowValue d₀ d (headsValue gl fl d₀ d M (kvHdim d₀) d₀.HKV (nRotK d₀ d) t.k) (M d.kCache)

def valuesValue : Nat → F :=
  rowValue d₀ d (q8Product gl fl t.v d₀.D.toNat (normedValue gl d₀ d M)) (M d.vCache)

/-- The output of the attention. -/
def attendedValue (i : Nat) : F :=
  attnValue gl (attnOf d₀ d) (headsValue gl fl d₀ d M d₀.HD d₀.H (nRotQ d₀ d) t.q)
    (keysValue gl fl t d₀ d M) (valuesValue gl fl t d₀ d M) (attnOf d₀ d).nk (i / d₀.HD.toNat)
    (i % d₀.HD.toNat)

def hiddenValue : Nat → F :=
  t.ffn.layerValue gl fl t.o d₀.D.toNat d₀.Qdim.toNat d₀.FF.toNat d.eps (M d.ffnNormW)
    (attendedValue gl fl t d₀ d M) (M d.hiddenDev)

/-- What a layer makes of vectors. -/
def layerValues : Nat → Nat → F :=
  Function.update (Function.update (Function.update M d.kCache (keysValue gl fl t d₀ d M)) d.vCache
    (valuesValue gl fl t d₀ d M)) d.hiddenDev (hiddenValue gl fl t d₀ d M)

/-- What the layers of a token make of vectors, one after the other. -/
def tokenValues (t : DenseToken F → LayerMatrices) (input : Option Nat) (T : List (DenseToken F)) :
    Nat → Nat → F :=
  T.foldl (fun M d => layerValues gl fl (t d) d₀ d M)
    (input.elim M fun b => Function.update M d₀.hiddenDev (M b))

/-- The weight buffers of a layer hold its matrices. -/
structure LayerMatrices.In (m : Nat → Cells F) : Prop where
  q : Repacked t.q d₀.Qdim d₀.D (m d.qW) (m d.qS)
  k : Repacked t.k d₀.KVdim d₀.D (m d.kW) (m d.kS)
  v : Repacked t.v d₀.KVdim d₀.D (m d.vW) (m d.vS)
  o : Repacked t.o d₀.D d₀.Qdim (m d.oW) (m d.oS)
  gate : Repacked t.ffn.gate d₀.FF d₀.D (m d.gateW) (m d.gateS)
  up : Repacked t.ffn.up d₀.FF d₀.D (m d.upW) (m d.upS)
  down : Repacked t.ffn.down d₀.D d₀.FF (m d.downW) (m d.downS)

/-- The dimensions with which `dense_gpu_layer_forward` fills a layer. -/
structure LayerFits : Prop where
  query : d₀.Qdim.toNat = d₀.H.toNat * d₀.HD.toNat
  key : d₀.KVdim.toNat = d₀.HKV.toNat * d₀.HD.toNat
  heads : 0 < d₀.HKV.toNat
  attn : (attnOf d₀ d).Fits
  factors : d.hasFreqs = d.ropeFreqs.isSome

end Values

section Shown

open Decode

variable {F : Type} [Field F] [LinearOrder F] {gl : Glsl F} {fl : Quant.Floats F}
variable {K : Kernels Pipeline F (Cells F)} {m m' : Nat → Cells F} {M : Nat → Nat → F}
variable {d₀ d : DenseToken F} {t : LayerMatrices}

/-- The memory holds the vectors: `b₀` as far as its `n` elements, the others as a whole. -/
structure Shows (n b₀ : Nat) (m : Nat → Cells F) (M : Nat → Nat → F) : Prop where
  hidden : ∀ i < n, (m b₀).floats i = M b₀ i
  rest : ∀ b ≠ b₀, (m b).floats = M b

/-- The hidden state of a layer is neither a weight nor a cache of it. -/
structure HiddenApart (d : DenseLayer) : Prop where
  weights : ∀ w ∈ d.weights, w ≠ d.hiddenDev
  kCache : d.kCache ≠ d.hiddenDev
  vCache : d.vCache ≠ d.hiddenDev

omit [Field F] [LinearOrder F] in
theorem kvHdim_eq (hfits : LayerFits d₀ d) : (kvHdim d₀).toNat = d₀.HD.toNat := by
  have hne : d₀.HKV ≠ 0 := fun hzero => by simpa [hzero] using hfits.heads
  rw [kvHdim, if_pos hne, UInt32.toNat_div, hfits.key, Nat.mul_div_cancel_left _ hfits.heads]

omit [Field F] [LinearOrder F] in
theorem nRotQ_le : (nRotQ d₀ d).toNat ≤ d₀.HD.toNat := by
  unfold nRotQ
  split
  · exact le_rfl
  · next hle => exact UInt32.le_iff_toNat_le.1 (UInt32.not_lt.1 hle)

omit [Field F] [LinearOrder F] in
theorem nRotK_le : (nRotK d₀ d).toNat ≤ (kvHdim d₀).toNat := by
  unfold nRotK
  split
  · exact le_rfl
  · next hle => exact UInt32.le_iff_toNat_le.1 (UInt32.not_lt.1 hle)

section Layer

variable (h : RunsShaders gl fl K) (hm : Shows d₀.D.toNat d.hiddenDev m M) (ht : t.In d₀ d m)
variable (hfits : LayerFits d₀ d) (hd : HiddenApart d.toDenseLayer)
include h hm hd

theorem RunsShaders.normedInput : ∀ i < d₀.D.toNat,
    (K.normedInput d₀ d m).floats i = normedValue gl d₀ d M i := by
  intro i hi
  rw [Kernels.normedInput, h.rnorm i hi, hm.rest _ (hd.weights _ (by simp [DenseLayer.weights]))]
  exact rms_congr hm.hidden hi

/-- A product with the normed input. -/
theorem RunsShaders.ofNormed {rows : UInt32} {wdata : Quant.Ptr} {w s : Cells F}
    (hw : Repacked wdata rows d₀.D w s) : ∀ i < rows.toNat,
      (K.matvec rows d₀.D w s (K.normedInput d₀ d m)).floats i =
        q8Product gl fl wdata d₀.D.toNat (normedValue gl d₀ d M) i := fun i hi =>
  (h.matvec hw i hi).trans (q8Product_congr (h.normedInput hm hd) i)

include hfits

omit [LinearOrder F] h in
theorem factors_shown : (hasFactors d).toNat ≠ 0 → (K.factors d₀ d m).floats = d.ropeFreqs.elim 0 M := by
  intro hfreqs
  have hsome : d.ropeFreqs.isSome := by
    rw [← hfits.factors]
    by_contra hnone
    simp [hasFactors, hnone] at hfreqs
  obtain ⟨f, hf⟩ := Option.isSome_iff_exists.1 hsome
  rw [Kernels.factors, hf]
  exact hm.rest f (hd.weights f (List.mem_append_right _ (by simp [hf])))

theorem RunsShaders.heads {hd' nh nrot rows : UInt32} {wdata : Quant.Ptr} {w s : Cells F}
    (hw : Repacked wdata rows d₀.D w s) (hrows : rows.toNat = nh.toNat * hd'.toNat)
    (hrot : nrot.toNat ≤ hd'.toNat) : ∀ i < rows.toNat,
      (K.rope hd' nh nrot d.pos d.freqBase (hasFactors d)
        (K.matvec rows d₀.D w s (K.normedInput d₀ d m)) (K.factors d₀ d m)).floats i =
          headsValue gl fl d₀ d M hd' nh nrot wdata i := by
  have hlt := rows.toNat_lt
  rw [hrows]
  exact h.rope hrot (hrows ▸ hlt.le) (hrows ▸ h.ofNormed hm hd hw)
    (factors_shown hm hfits hd)

omit hm hd in
/-- Rows of the caches. -/
theorem RunsShaders.withRow {row cache : Cells F} {r c : Nat → F}
    (hr : ∀ i < d₀.KVdim.toNat, row.floats i = r i) (hc : cache.floats = c) :
    (K.withRow d₀ d row cache).floats = rowValue d₀ d r c := by
  have hbytes : (d₀.KVdim.toUInt64 * 4).toNat / 4 = d₀.KVdim.toNat := by
    rw [toNat_bytes _ (by decide)]
    exact Nat.mul_div_cancel _ (by decide)
  have hoffset : (d.pos.toUInt64 * d₀.KVdim.toUInt64 * 4).toNat / 4 =
      d.pos.toNat * d₀.KVdim.toNat := by
    have hstride : 4096 * d₀.KVdim.toNat ≤ 2 ^ 32 := hfits.attn.2.1
    have hcell : d.pos.toNat * d₀.KVdim.toNat ≤ 2 ^ 32 * 2 ^ 20 :=
      Nat.mul_le_mul d.pos.toNat_lt.le (by omega)
    rw [UInt64.toNat_mul, UInt64.toNat_mul, UInt32.toNat_toUInt64, UInt32.toNat_toUInt64]
    change d.pos.toNat * d₀.KVdim.toNat % 2 ^ 64 * 4 % 2 ^ 64 / 4 = _
    omega
  rw [Kernels.withRow, h.copy]
  funext i
  simp only [overlaid, hoffset, hbytes, rowValue]
  split
  · exact hr _ (by omega)
  · rw [hc]

include ht

theorem RunsShaders.keys : (K.keys d₀ d m).floats = keysValue gl fl t d₀ d M :=
  h.withRow hfits (h.heads hm hfits hd ht.k (by rw [hfits.key, kvHdim_eq hfits]) nRotK_le)
    (hm.rest _ hd.kCache)

theorem RunsShaders.values : (K.values d₀ d m).floats = valuesValue gl fl t d₀ d M :=
  h.withRow hfits (h.ofNormed hm hd ht.v) (hm.rest _ hd.vCache)

variable [IsStrictOrderedRing F] (hexp : MoeBlock.ExpLaws gl.math)
include hexp

theorem RunsShaders.attended : ∀ i < d₀.D.toNat, (K.attended d₀ d m).floats i =
    residualValue gl fl t.o d₀.Qdim.toNat (attendedValue gl fl t d₀ d M) (M d.hiddenDev) i := by
  intro i hi
  have hquery := h.heads hm hfits hd ht.q hfits.query (nRotQ_le (d := d))
  have hattn := h.attn hexp (k := K.keys d₀ d m) (v := K.values d₀ d m) rfl hfits.attn
    (hfits.query ▸ hquery)
  rw [Kernels.attended, h.radd ht.o.rows_lt i hi, h.matvec ht.o i hi, hm.hidden i hi, residualValue]
  refine congrArg (· + _) (q8Product_congr (fun j hj => ?_) i)
  refine (hattn j (hfits.query ▸ hj)).trans ?_
  rw [h.keys hm ht hfits hd, h.values hm ht hfits hd]
  rfl

theorem RunsShaders.nextHidden : ∀ i < d₀.D.toNat,
    (K.nextHidden d₀ d m).floats i = hiddenValue gl fl t d₀ d M i := by
  intro i hi
  have hattended := h.attended hm ht hfits hd hexp
  have hnorm : ∀ j < d₀.D.toNat, (K.rnorm d₀.D d.eps (K.attended d₀ d m) (m d.ffnNormW)).floats j =
      MoeBlock.rms gl.math d₀.D.toNat d.eps (M d.ffnNormW)
        (residualValue gl fl t.o d₀.Qdim.toNat (attendedValue gl fl t d₀ d M) (M d.hiddenDev)) j := by
    intro j hj
    rw [h.rnorm j hj, hm.rest _ (hd.weights _ (by simp [DenseLayer.weights]))]
    exact rms_congr hattended hj
  rw [Kernels.nextHidden, h.radd ht.o.rows_lt i hi, h.ffn ht.gate ht.up ht.down h.quantBlocks i hi,
    hattended i hi, FfnMatrices.value_congr hnorm]
  rfl

/-- A layer makes of the memory what it makes of the vectors in it. -/
theorem RunsShaders.layer :
    Shows d₀.D.toNat d.hiddenDev (K.layer d₀ d m) (layerValues gl fl t d₀ d M) := by
  constructor
  · intro i hi
    rw [Kernels.layer, layerValues, Function.update_self, Function.update_self]
    exact h.nextHidden hm ht hfits hd hexp i hi
  · intro b hb
    rw [Kernels.layer, layerValues, Function.update_of_ne hb, Function.update_of_ne hb]
    by_cases hv : b = d.vCache
    · rw [hv, Function.update_self, Function.update_self]
      exact h.values hm ht hfits hd
    · rw [Function.update_of_ne hv, Function.update_of_ne hv]
      by_cases hk : b = d.kCache
      · rw [hk, Function.update_self, Function.update_self]
        exact h.keys hm ht hfits hd
      · rw [Function.update_of_ne hk, Function.update_of_ne hk]
        exact hm.rest b hb

end Layer

end Shown

section Tokens

open Decode

variable {F : Type} [Field F] [LinearOrder F] {gl : Glsl F} {fl : Quant.Floats F}
variable {K : Kernels Pipeline F (Cells F)} {m m' : Nat → Cells F} {M : Nat → Nat → F}
variable {d₀ d : DenseToken F} {t : DenseToken F → LayerMatrices} {T : List (DenseToken F)}

omit [Field F] [LinearOrder F] in
theorem LayerMatrices.In.congr {t : LayerMatrices} (ht : t.In d₀ d m)
    (h : ∀ w ∈ d.weights, m' w = m w) : t.In d₀ d m' := by
  simp only [DenseLayer.weights, List.cons_append, List.forall_mem_cons] at h
  constructor <;> simp only [h]
  exacts [ht.q, ht.k, ht.v, ht.o, ht.gate, ht.up, ht.down]

/-- No layer writes what another reads only, and the hidden state is the same for all. -/
structure LayersApart (d₀ : DenseToken F) (T : List (DenseToken F)) : Prop where
  hidden : ∀ d ∈ T, d.hiddenDev = d₀.hiddenDev
  own : ∀ d ∈ T, HiddenApart d.toDenseLayer
  kept : ∀ d ∈ T, ∀ e ∈ T, ∀ w ∈ d.weights, w ∉ [e.kCache, e.vCache, e.hiddenDev]

omit [Field F] [LinearOrder F] in
theorem LayersApart.tail (h : LayersApart d₀ (d :: T)) : LayersApart d₀ T :=
  ⟨fun e he => h.hidden e (List.mem_cons_of_mem _ he), fun e he => h.own e (List.mem_cons_of_mem _ he),
    fun e he e' he' => h.kept e (List.mem_cons_of_mem _ he) e' (List.mem_cons_of_mem _ he')⟩

variable [IsStrictOrderedRing F]

/-- The layers one after the other. -/
theorem RunsShaders.layers (h : RunsShaders gl fl K) (hexp : MoeBlock.ExpLaws gl.math)
    (hT : LayersApart d₀ T) (hfits : ∀ d ∈ T, LayerFits d₀ d) (ht : ∀ d ∈ T, (t d).In d₀ d m)
    (hm : Shows d₀.D.toNat d₀.hiddenDev m M) :
    Shows d₀.D.toNat d₀.hiddenDev (T.foldl (fun m d => K.layer d₀ d m) m)
      (T.foldl (fun M d => layerValues gl fl (t d) d₀ d M) M) := by
  induction T generalizing m M with
  | nil => exact hm
  | cons d T ih =>
    have hhidden := hT.hidden d List.mem_cons_self
    have hstep := h.layer (hhidden ▸ hm) (ht d List.mem_cons_self) (hfits d List.mem_cons_self)
      (hT.own d List.mem_cons_self) hexp
    rw [hhidden] at hstep
    refine ih hT.tail (fun e he => hfits e (List.mem_cons_of_mem _ he)) (fun e he => ?_) hstep
    -- the layer leaves the weights of those behind it
    refine (ht e (List.mem_cons_of_mem _ he)).congr fun w hw => ?_
    have hne := hT.kept e (List.mem_cons_of_mem _ he) d List.mem_cons_self w hw
    simp only [List.mem_cons, List.not_mem_nil, or_false, not_or] at hne
    change K.layer d₀ d m w = m w
    rw [Kernels.layer, Function.update_of_ne hne.2.2, Function.update_of_ne hne.2.1,
      Function.update_of_ne hne.1]

theorem RunsShaders.token (h : RunsShaders gl fl K) (hexp : MoeBlock.ExpLaws gl.math)
    (hT : LayersApart d₀ T) (hfits : ∀ d ∈ T, LayerFits d₀ d) (ht : ∀ d ∈ T, (t d).In d₀ d m)
    (input out : Option Nat) :
    let M := tokenValues gl fl d₀ (fun b => (m b).floats) t input T
    (∀ o ∈ out, ∀ i < d₀.D.toNat,
        (K.token d₀ m d₀.hiddenDev input out T o).floats i = M d₀.hiddenDev i) ∧
      ∀ b ≠ d₀.hiddenDev, b ∉ out → (K.token d₀ m d₀.hiddenDev input out T b).floats = M b := by
  intro M
  let m₁ := input.elim m fun b => Function.update m d₀.hiddenDev
    (K.copy (d₀.D.toUInt64 * 4) 0 (m b) (m d₀.hiddenDev))
  have hother : ∀ b ≠ d₀.hiddenDev, m₁ b = m b := by
    intro b hb
    cases input with
    | none => rfl
    | some c => exact Function.update_of_ne hb _ _
  have hstart : Shows d₀.D.toNat d₀.hiddenDev m₁ (input.elim (fun b => (m b).floats) fun b =>
      Function.update (fun b => (m b).floats) d₀.hiddenDev (m b).floats) := by
    cases input with
    | none => exact ⟨fun _ _ => rfl, fun _ _ => rfl⟩
    | some c =>
      refine ⟨fun i hi => ?_, fun b hb => ?_⟩
      · simp only [m₁, Option.elim_some, Function.update_self]
        exact h.copied hi
      · rw [hother b hb, Option.elim_some, Function.update_of_ne hb]
  have ht₁ : ∀ d ∈ T, (t d).In d₀ d m₁ := fun d hd => (ht d hd).congr fun w hw =>
    hother w (hT.hidden d hd ▸ (hT.own d hd).weights w hw)
  have hshown := h.layers hexp hT hfits ht₁ hstart
  constructor
  · rintro o rfl i hi
    rw [Kernels.token, Option.elim_some, Function.update_self, h.copied hi]
    exact hshown.hidden i hi
  · intro b hb hout
    cases out with
    | none => exact hshown.rest b hb
    | some o =>
      rw [Kernels.token, Option.elim_some, Function.update_of_ne fun heq =>
        hout (Option.mem_some_iff.2 heq.symm)]
      exact hshown.rest b hb

end Tokens

section Exact

open Decode

variable {F : Type} [Field F] [LinearOrder F]

/-- The device computes the token of the layers `ds` as their vectors say, with its shaders in any
order: `out` shows the hidden state, and the caches hold the rows of the token. -/
def ExactToken (gl : Glsl F) (fl : Quant.Floats F) (cs : List Command) (ds : List DenseLayer) :
    Prop :=
  ∃ B input out L, TokenBuffers B L out none ∧ L.map DenseLayer.given = ds.map DenseLayer.given ∧
    ∀ (K : Kernels Pipeline F (Cells F)) (T : List (DenseToken F)) (d₀ last : DenseToken F)
      (t : DenseToken F → LayerMatrices),
      RunsShaders gl fl K → T.map DenseToken.toDenseLayer = L → T.head? = some d₀ →
      T.getLast? = some last → (∀ d ∈ T, LayerFits d₀ d) →
      let orders := recordOrders B d₀ input out last T none
      resolve cs cs = orders.filterMap Order.work ∧
        ∀ m m', (∀ d ∈ T, (t d).In d₀ d m) → Outcome (K.items orders) m m' →
          let M := tokenValues gl fl d₀ (fun b => (m b).floats) t input T
          (∀ o ∈ out, ∀ i < d₀.D.toNat, (m' o).floats i = M d₀.hiddenDev i) ∧
            ∀ b ∉ acts B, b ≠ d₀.hiddenDev → b ∉ out → (m' b).floats = M b

variable {gl : Glsl F} {fl : Quant.Floats F} [IsStrictOrderedRing F]

/-- Up to 146 layers, a token without the final head leaves exactly what its layers make of the input,
in whichever order the device runs its command buffer and its shaders. -/
theorem denseForward_exact (hexp : MoeBlock.ExpLaws gl.math) (driver : Driver)
    (memoryBudget cacheBudget : UInt64) (ops : List Op) (s : Session) (cap : UInt32)
    (ds : List DenseLayer) (hidden : Option Nat) (rings rings' : Rings) (v' : VK)
    (cs : List Command)
    (hsession : Run.exec (Session.step driver) (Session.opened memoryBudget cacheBudget) ops = some s)
    (hhidden : ∀ b ∈ hidden, s.vk.slotBuffer .devscratch 2000 = some b)
    (hweights : ∀ d ∈ ds, ∀ w ∈ d.weights, w ∈ s.vk.cache.map CacheItem.buf)
    (hlayers : ds.length ≤ 146)
    (hrun : (denseForward driver cap ds hidden none rings).on s.vk = (.ok (cs, rings'), v')) :
    ExactToken gl fl cs ds := by
  obtain ⟨B, input, out, L, hbuffers, hsame, hkept, hruns⟩ :=
    denseForward_runs hsession hhidden hweights hlayers hrun
  refine ⟨B, input, out, L, hbuffers, hsame, fun K T d₀ last t hshaders hT hhead hlast hfits => ?_⟩
  intro orders
  obtain ⟨hresolves, hL⟩ := hruns T d₀ last hT hhead hlast
  have hmem : ∀ d ∈ T, d.toDenseLayer ∈ L := fun d hd => hT ▸ List.mem_map_of_mem hd
  have hapart : LayersApart d₀ T := by
    refine ⟨fun d hd => (hL d hd).2, fun d hd => ?_, fun d hd e he => hkept _ (hmem d hd) _ (hmem e he)⟩
    refine ⟨fun w hw heq => ?_, (hL d hd).1.hidden_kCache.symm, (hL d hd).1.hidden_vCache.symm⟩
    exact hkept _ (hmem d hd) _ (hmem d hd) w hw (by simp [heq])
  refine ⟨hresolves, fun m m' ht houtcome => ?_⟩
  obtain ⟨hout, hrest⟩ := hshaders.token hexp hapart hfits ht input out
  have htoken : ∀ b ∉ acts B, m' b = K.token d₀ m d₀.hiddenDev input out T b := fun b hb =>
    token_outcome hbuffers.acts hlast hL houtcome hb
  intro M
  constructor
  · intro o ho i hi
    rw [htoken o (hbuffers.staged o ho)]
    exact hout o ho i hi
  · intro b hb hne hnot
    rw [htoken b hb]
    exact hrest b hne hnot

/-- A layer at the first position. -/
noncomputable def atStart (d : DenseLayer) : DenseToken ℝ := ⟨d, 2, 0, false, 1, 1⟩

/-- The cached layers on cleared buffers, with the shaders in order. -/
theorem denseForward_exact_cached : ∃ s cs rings v,
    (cachedToken none).on s = (.ok (cs, rings), v) ∧ ∃ B input out d₁ d₂,
      let T := [atStart d₁, atStart d₂]
      let orders := recordOrders B (atStart d₁) input out (atStart d₂) T none
      resolve cs cs = orders.filterMap Order.work ∧ ∀ o ∈ out, ∀ i < 32,
        (recorded ((shaderKernels realGlsl realFloats).items orders) (fun _ => ⟨0, 0⟩) o).floats i =
          tokenValues realGlsl realFloats (atStart d₁) (fun _ => 0) (fun _ => ⟨0, 0, 0, 0, 0, 0, 0⟩)
            input T d₁.hiddenDev i := by
  obtain ⟨s, ⟨cs, rings⟩, v, hs, hweights, hrun⟩ := cached_runs (cachedToken none) (by decide +kernel)
  have hexact : ExactToken realGlsl realFloats cs [cachedLayer, cachedLayer] :=
    denseForward_exact Decode.MoeBlock.realLibm_exp roomyDriver 0x40000000 0 weightOps s 16
      [cachedLayer, cachedLayer] none _ rings v cs hs (by simp) (by simpa using hweights) (by decide)
      hrun
  obtain ⟨B, input, out, L, -, hgiven, hexact⟩ := hexact
  obtain ⟨d₁, L, rfl⟩ := List.exists_cons_of_ne_nil (l := L) (by rintro rfl; simp at hgiven)
  obtain ⟨d₂, L, rfl⟩ := List.exists_cons_of_ne_nil (l := L) (by rintro rfl; simp at hgiven)
  obtain ⟨h₁, hrest⟩ := List.cons_eq_cons.1 hgiven
  obtain ⟨h₂, hnil⟩ := List.cons_eq_cons.1 hrest
  obtain rfl := List.map_eq_nil_iff.1 hnil
  have hD : d₁.D = 32 := congrArg DenseLayer.D h₁
  have hQ : d₁.Qdim = 32 := congrArg DenseLayer.Qdim h₁
  have hKV : d₁.KVdim = 32 := congrArg DenseLayer.KVdim h₁
  have hFF : d₁.FF = 32 := congrArg DenseLayer.FF h₁
  have hH : d₁.H = 1 := congrArg DenseLayer.H h₁
  have hHKV : d₁.HKV = 1 := congrArg DenseLayer.HKV h₁
  have hHD : d₁.HD = 32 := congrArg DenseLayer.HD h₁
  have hzero : ∀ rows cols : UInt32, rows = 32 → cols = 32 →
      Repacked 0 rows cols (⟨0, 0⟩ : Cells ℝ) ⟨0, 0⟩ := by
    rintro _ _ rfl rfl
    exact repacked_zero (by decide) (by decide)
  have hfits : ∀ d : DenseLayer, d.given = cachedLayer.given →
      LayerFits (atStart d₁) (atStart d) := by
    intro d hd
    have hpc : attnOf (atStart d₁) (atStart d) = ⟨32, 1, 1, 32, 1⟩ := by
      simp [attnOf, atStart, hHD, hH, hHKV, hKV]
    have hfreqs : d.ropeFreqs = none := congrArg DenseLayer.ropeFreqs hd
    refine ⟨?_, ?_, ?_, ?_, ?_⟩
    · simp [atStart, hQ, hH, hHD]
    · simp [atStart, hKV, hHKV, hHD]
    · simp [atStart, hHKV]
    · rw [hpc]
      refine ⟨by decide, by decide, fun h hh => ?_⟩
      obtain rfl : h = 0 := Nat.lt_one_iff.1 hh
      decide
    · simp [atStart, hfreqs]
  obtain ⟨hresolves, hvalues⟩ := hexact (shaderKernels realGlsl realFloats)
    [atStart d₁, atStart d₂] (atStart d₁) (atStart d₂) (fun _ => ⟨0, 0, 0, 0, 0, 0, 0⟩)
    (shaderKernels_run realGlsl realFloats) rfl rfl rfl (by
      simp only [List.forall_mem_cons]
      exact ⟨hfits d₁ h₁, hfits d₂ h₂, by simp⟩)
  refine ⟨s.vk, cs, rings, v, hrun, B, input, out, d₁, d₂, hresolves, fun o ho i hi => ?_⟩
  have hweights : ∀ d : DenseToken ℝ,
      LayerMatrices.In ⟨0, 0, 0, 0, 0, 0, 0⟩ (atStart d₁) d fun _ => ⟨0, 0⟩ := fun d =>
    ⟨hzero _ _ hQ hD, hzero _ _ hKV hD, hzero _ _ hKV hD, hzero _ _ hD hQ, hzero _ _ hFF hD,
      hzero _ _ hFF hD, hzero _ _ hD hFF⟩
  refine (hvalues (fun _ => ⟨0, 0⟩) _ (fun d _ => hweights d) (outcome_recorded _ _)).1 o ho i ?_
  rw [show (atStart d₁).D = 32 from hD]
  exact hi

end Exact

end VgEngine.Vulkan

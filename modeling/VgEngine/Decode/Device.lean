import VgEngine.Decode.Stores
import VgEngine.Decode.Validated

/-! What a layer computes when only calls of the device fail. Such a failure leads to a path on the
host, so a product comes out the same wherever it is made. -/
namespace VgEngine.Decode
open Lib Bytes Gguf Model

/-- Only calls of the device fail. -/
def DeviceOnly (o : Outcomes) : Prop := ∀ c : Call, c.use ≠ .device → o c = .ok

theorem DeviceOnly.allOk : DeviceOnly allOk := fun _ _ => rfl

section Products

variable {K : Type*} {V S : Type} {g : Graph K} {o : Outcomes} {ops : Ops V S}
variable {place : Place} {layer index : Nat} {m : Matmul}

/-- A product that is refused leaves its buffer unwritten. -/
def product (ops : Ops V S) (m : Matmul) (x : V) : V :=
  if cpuStatus m = .ok then ops.matmul m x else ops.junk

theorem cpuMatmul_yields (ho : DeviceOnly o) (x : V) :
    Logged.Yields (cpuMatmul o ops place layer index m x : Exec V S _)
      (cpuStatus m, product ops m x) := by
  intro s
  unfold cpuMatmul product
  by_cases hst : cpuStatus m = .ok
  · by_cases hrow : hasRowKernel m.tensor.ggmlType = true
    · simp [hst, hrow]
    · simp [hst, hrow, ho ⟨place, .rows, layer, index⟩ (by simp)]
  · simp [hst]

/-- What `vk_matmul` takes the CPU kernels take too. -/
theorem vkAccepts_ok (h : vkAccepts m = true) : cpuStatus m = .ok := by
  unfold vkAccepts at h
  unfold cpuStatus
  simp only [Bool.and_eq_true, decide_eq_true_eq] at h
  obtain ⟨⟨hout, hin⟩, htype⟩ := h
  rw [if_neg (by simp [hout, hin])]
  split at htype
  next heq =>
    rw [heq]
    simp only [Bool.and_eq_true, decide_eq_true_eq] at htype
    simp [show quantInfo 8 = some ⟨8, 32, 34⟩ from rfl, htype.1, show supportedScalar 8 = true from rfl]
  next heq =>
    rw [heq]
    simp [show quantInfo 0 = some ⟨0, 1, 4⟩ from rfl, Nat.mod_one,
      show supportedScalar 0 = true from rfl]
  next heq =>
    rw [heq]
    simp [show quantInfo 1 = some ⟨1, 1, 2⟩ from rfl, Nat.mod_one,
      show supportedScalar 1 = true from rfl]
  next heq =>
    rw [heq]
    simp only [decide_eq_true_eq] at htype
    simp [show quantInfo 12 = some ⟨12, 256, 144⟩ from rfl, htype,
      show supportedScalar 12 = true from rfl]
  next heq =>
    rw [heq]
    simp only [decide_eq_true_eq] at htype
    simp [show quantInfo 14 = some ⟨14, 256, 210⟩ from rfl, htype,
      show supportedScalar 14 = true from rfl]
  next => cases htype

/-- What `vk_q8_prepare` takes the CPU kernels take too. -/
theorem q8Accepts_ok (htype : m.tensor.ggmlType = 8) (h : q8Accepts m.outDim m.inDim = true) :
    cpuStatus m = .ok := by
  apply vkAccepts_ok
  unfold q8Accepts at h
  unfold vkAccepts
  rw [htype]
  simp only [Bool.and_eq_true, decide_eq_true_eq] at h ⊢
  obtain ⟨hblock, hcount⟩ := h
  refine ⟨⟨?_, ?_⟩, hblock, hcount⟩
  · rintro hout
    exact hcount (by simp [hout, wrap32])
  · rintro hin
    exact hcount (by simp [hin, wrap32])

theorem product_q8 {name : List UInt8} {t : GgufTensor} {outDim inDim : Nat} (x : V)
    (htype : t.ggmlType = 8) (h : q8Accepts outDim inDim = true) :
    product ops (weight name t outDim inDim) x = ops.matmul (weight name t outDim inDim) x := by
  have hok : cpuStatus (weight name t outDim inDim) = .ok := q8Accepts_ok htype h
  exact if_pos hok

theorem dispatch_yields (ho : DeviceOnly o) (gpu : Bool) (x : V) :
    Logged.Yields (dispatch o ops place layer index gpu m x : Exec V S _)
      (cpuStatus m, product ops m x) := by
  unfold dispatch
  split
  next hdevice =>
    have hok : cpuStatus m = .ok := by
      simp only [Bool.and_eq_true] at hdevice
      exact vkAccepts_ok hdevice.1.2
    intro s
    simp [product, hok]
  next => exact cpuMatmul_yields ho x

theorem allocate_true (ho : DeviceOnly o) :
    Logged.Yields (allocate o place layer index : Exec V S _) true := by
  intro s
  simp [allocate, ho ⟨place, .buffer, layer, index⟩ (by simp)]

theorem acquireWeight_ok (ho : DeviceOnly o) {name : List UInt8} {t : GgufTensor}
    (hfind : find g.file name = some t) :
    Logged.Yields (acquireWeight g o place layer index name : Exec V S _) (.ok t) :=
  acquireWeight_yields hfind (ho _ (by simp))

theorem acquireWeight_missing {name : List UInt8} (hfind : find g.file name = none) :
    Logged.Yields (acquireWeight g o place layer index name : Exec V S _) (.error .invalid) := by
  intro s
  simp [acquireWeight, hfind]

end Products

section Norms

variable {K : Type*} {V S : Type} {G : Graph K} {o : Outcomes} {ops : Ops V S}
variable {place : Place} {layer width : Nat} {name : List UInt8}

/-- The norm under a weight that the model may lack. -/
def normed (g : VgGguf) (ops : Ops V S) (name : List UInt8) (x : V) : V :=
  if (find g name).isSome then ops.rmsnorm name x else x

/-- The weight of a norm is there in the shape that the block expects. -/
def shaped (g : VgGguf) (name : List UInt8) (width : Nat) : Bool :=
  (find g name).any fun t => t.nDims = 1 ∧ dim t 0 = width

/-- The norm where its weight has the shape. -/
def normedShaped (g : VgGguf) (ops : Ops V S) (name : List UInt8) (width : Nat) (x : V) : V :=
  if shaped g name width then ops.rmsnorm name x else x

theorem normalise_normed (ho : DeviceOnly o) (x : V) :
    Logged.Yields (normalise G o ops layer place name x : Exec V S _)
      (normed G.file ops name x) := by
  unfold normalise normed
  cases hfind : find G.file name with
  | none => exact (acquireWeight_missing hfind).bind (.pure _)
  | some t => exact (acquireWeight_ok ho hfind).bind (.pure _)

theorem shapedNorm_normed (ho : DeviceOnly o) (x : V) :
    Logged.Yields (shapedNorm G o ops layer place name width x : Exec V S _)
      (normedShaped G.file ops name width x) := by
  intro s
  have hok : o ⟨place, .acquire, layer, 0⟩ = .ok := ho _ (by simp)
  unfold shapedNorm acquireOptional normedShaped shaped
  cases hfind : find G.file name with
  | none => simp
  | some t => simp [hok]

/-- The norm behind a block, in the models that have one. -/
def normedBehind (G : Graph K) (ops : Ops V S) (name : List UInt8) (x : V) : V :=
  if G.cfg.hasPostNorm then normedShaped G.file ops name G.cfg.nEmbd x else x

theorem postNorm_normed (ho : DeviceOnly o) (x : V) :
    Logged.Yields (postNorm G o ops layer place name x : Exec V S _)
      (normedBehind G ops name x) := by
  unfold postNorm normedBehind
  split
  · exact shapedNorm_normed ho x
  · exact .pure x

end Norms

section Attention

variable {K : Type*} {V S : Type} {G : Graph K} {o : Outcomes} {ops : Ops V S}
variable {layer pos : Nat} {tq : GgufTensor}

/-- The graph without a device. -/
def Graph.host (G : Graph K) : Graph K := { G with vk := false }

/-- `attention_layer` up to the output projection. -/
def beforeOutput (G : Graph K) (o : Outcomes) (ops : Ops V S) (layer pos : Nat) (tq : GgufTensor) :
    Exec V S Unit := do
  let w ← Logged.get
  Logged.modify fun w => { w with res := w.hidden }
  let x ← normalise G o ops layer .attnNorm (blk layer "attn_norm.weight") w.hidden
  Logged.modify fun w => { w with hidden := x }
  growQkv G o layer 0 (initialKvDim G)
  let batch ← batchProjections G o ops layer tq (qDim G.file G.cfg layer) x
  queryStage G o ops layer pos tq batch x
  let (k, kvd) ← keyStage G o ops layer pos batch x
  let (v, kvd) ← valueStage G o ops layer batch kvd x
  storeRow G o ops layer pos k v kvd
  attendStage G o ops layer pos kvd

theorem attentionLayer_split (ho : DeviceOnly o)
    (hq : find G.file (blk layer "attn_q.weight") = some tq) :
    Logged.Agree (attentionLayer G o ops layer pos) (do
      beforeOutput G o ops layer pos tq
      outputStage G o ops layer) := by
  intro s
  unfold attentionLayer beforeOutput
  simp only [Logged.bind_value, (acquireWeight_ok ho hq : Logged.Yields (acquireWeight G o .attnQ
    layer 0 (blk layer "attn_q.weight") : Exec V S _) _) _]

/-- What the batched projections have made is what the single ones would make. -/
structure Batched (G : Graph K) (ops : Ops V S) (layer : Nat) (tq : GgufTensor) (x : V)
    (b : Batch V) : Prop where
  lora : b.gpu = true → G.lora = false
  query : b.gpu = true → b.q = some (product ops (weight (blk layer "attn_q.weight") tq
    (qDim G.file G.cfg layer) G.cfg.nEmbd) x)
  key : b.gpu = true → ∀ t, find G.file (blk layer "attn_k.weight") = some t →
    b.k = some (product ops (weight (blk layer "attn_k.weight") t (keyDim G.file G.cfg layer)
      G.cfg.nEmbd) x)
  value : b.gpu = true → ∀ t, find G.file (blk layer "attn_v.weight") = some t →
    b.v = some (product ops (weight (blk layer "attn_v.weight") t (kvDim G.file G.cfg layer)
      G.cfg.nEmbd) x)

theorem batchProjections_batched (ho : DeviceOnly o) (x : V) : ∃ b,
    Logged.Yields (batchProjections G o ops layer tq (qDim G.file G.cfg layer) x : Exec V S _) b ∧
      Batched G ops layer tq x b := by
  have hoff : Batched G ops layer tq x ⟨false, none, none, none⟩ := by
    constructor
    all_goals exact fun h => nomatch h
  unfold batchProjections
  dsimp only
  cases hk : find G.file (blk layer "attn_k.weight") with
  | none => exact ⟨_, .pure _, hoff⟩
  | some tk =>
  cases hv : find G.file (blk layer "attn_v.weight") with
  | none => exact ⟨_, .pure _, hoff⟩
  | some tv =>
  dsimp only
  split
  next hall =>
    refine ⟨_, .pure _, ?_⟩
    simp only [Bool.and_eq_true, decide_eq_true_eq, Bool.not_eq_true'] at hall
    obtain ⟨⟨⟨⟨⟨⟨⟨⟨-, hlora⟩, hq⟩, -⟩, -⟩, htk⟩, htv⟩, hwidthK⟩, hwidthV⟩ := hall
    have hkey : keyDim G.file G.cfg layer = initialKvDim G := hwidthK
    have hvalue : kvDim G.file G.cfg layer = initialKvDim G := by
      unfold kvDim
      rw [hkey, hwidthV]
    have hmade (place : Place) : o ⟨place, .buffer, layer, 0⟩ = .ok := ho _ (by simp)
    simp only [hmade, decide_true, Bool.and_true, Bool.true_and, if_true]
    constructor
    case lora => exact fun _ => hlora
    all_goals
      intro hgpu
      dsimp only at hgpu ⊢
      obtain ⟨hqok, hkok⟩ := Bool.and_eq_true_iff.1 (Bool.and_eq_true_iff.1 hgpu).1
      rw [if_pos hgpu]
    case query => rw [product_q8 x hq hqok]
    case key =>
      intro t ht
      obtain rfl := Option.some.inj (hk.symm.trans ht)
      rw [hkey, product_q8 x htk hkok]
    case value =>
      intro t ht
      obtain rfl := Option.some.inj (hv.symm.trans ht)
      rw [hvalue, product_q8 x htv hkok]
  next => exact ⟨_, .pure _, hoff⟩

/-- The biases of a projection, where the model has them in the right shape. -/
def biased (G : Graph K) (ops : Ops V S) (name : List UInt8) (width : Nat) (x : V) : V :=
  if G.cfg.hasBiases = true ∧ (find G.file name).any fun t => t.ggmlType = 0 ∧ width ≤ dim t 0 then
    ops.bias name x
  else x

theorem addBias_biased (ho : DeviceOnly o) {place : Place} (name : List UInt8) (width : Nat) (x : V) :
    Logged.Yields (addBias G o ops layer place name width x : Exec V S _)
      (biased G ops name width x) := by
  intro s
  have hok : o ⟨place, .acquire, layer, 0⟩ = .ok := ho _ (by simp)
  unfold addBias acquireOptional biased
  cases hfind : find G.file name with
  | none => split <;> simp
  | some t => by_cases hbiases : G.cfg.hasBiases = true <;> simp [hok, hbiases]

/-- A projection comes out the same on the device and on the host. -/
theorem project_product (ho : DeviceOnly o) {place biasPlace : Place} {bias : String} {m : Matmul}
    {gpu : Bool} {old : Option V} {x : V} (hlora : gpu = true → G.lora = false)
    (hold : gpu = true → old = some (product ops m x)) :
    Logged.Yields (project G o ops layer place biasPlace bias m gpu old x : Exec V S _)
      (some (biased G ops (blk layer bias) m.outDim
        (loraApply G ops m.name m.outDim m.inDim x (product ops m x)))) := by
  have hbuffer : Logged.Yields (projectBuffer o layer place old : Exec V S _) true := by
    cases old with
    | none => exact allocate_true ho
    | some y => exact .pure true
  have hrows : Logged.Yields (projectRows G o ops layer place m gpu old x : Exec V S _)
      (loraApply G ops m.name m.outDim m.inDim x (product ops m x)) := by
    unfold projectRows
    cases gpu with
    | false => exact (dispatch_yields ho _ x).bind (.pure _)
    | true =>
      rw [hold rfl, loraApply, hlora rfl, if_neg Bool.false_ne_true]
      exact Logged.Yields.bind (.log _) (.pure _)
  unfold project
  refine hbuffer.bind ?_
  exact hrows.bind ((addBias_biased ho _ _ _).bind (.pure _))

variable {x : V} {b b' : Batch V}

theorem queryStage_agree (ho : DeviceOnly o) (hb : Batched G ops layer tq x b)
    (hb' : Batched G.host ops layer tq x b') : Logged.Agree
      (queryStage G o ops layer pos tq b x : Exec V S _)
      (queryStage G.host o ops layer pos tq b' x) := by
  unfold queryStage
  exact Logged.Agree.yields (project_product ho hb.lora hb.query)
    (project_product ho hb'.lora hb'.query) (.refl _)

theorem keyStage_agree (ho : DeviceOnly o) {t : GgufTensor}
    (hk : find G.file (blk layer "attn_k.weight") = some t) (hb : Batched G ops layer tq x b)
    (hb' : Batched G.host ops layer tq x b') : Logged.Agree
      (keyStage G o ops layer pos b x : Exec V S _) (keyStage G.host o ops layer pos b' x) := by
  unfold keyStage
  refine .yields (acquireWeight_ok ho hk) (acquireWeight_ok ho hk) ?_
  refine .bind (.refl _) fun _ => ?_
  exact .yields (project_product ho hb.lora fun h => hb.key h t hk)
    (project_product ho hb'.lora fun h => hb'.key h t hk) (.refl _)

theorem valueStage_agree (ho : DeviceOnly o) {t : GgufTensor}
    (hv : find G.file (blk layer "attn_v.weight") = some t) (hb : Batched G ops layer tq x b)
    (hb' : Batched G.host ops layer tq x b') : Logged.Agree
      (valueStage G o ops layer b (keyDim G.file G.cfg layer) x : Exec V S _)
      (valueStage G.host o ops layer b' (keyDim G.file G.cfg layer) x) := by
  unfold valueStage
  refine .yields (acquireWeight_ok ho hv) (acquireWeight_ok ho hv) ?_
  refine .bind (.refl _) fun _ => ?_
  exact .yields (project_product ho hb.lora fun h => hb.value h t hv)
    (project_product ho hb'.lora fun h => hb'.value h t hv) (.refl _)

/-- Up to the output projection a layer is the same with and without a device. -/
theorem beforeOutput_agree (ho : DeviceOnly o) {tk tv : GgufTensor}
    (hk : find G.file (blk layer "attn_k.weight") = some tk)
    (hv : find G.file (blk layer "attn_v.weight") = some tv) : Logged.Agree
      (beforeOutput G o ops layer pos tq : Exec V S _) (beforeOutput G.host o ops layer pos tq) := by
  have hread : Reads o .attnK layer := ho _ (by simp)
  unfold beforeOutput
  refine .bind (.refl _) fun w => .bind (.refl _) fun _ => .bind (.refl _) fun x => ?_
  refine .bind (.refl _) fun _ => .bind (.refl _) fun _ => ?_
  obtain ⟨b, hyields, hb⟩ := @batchProjections_batched K V S G o ops layer tq ho x
  obtain ⟨b', hyields', hb'⟩ := @batchProjections_batched K V S G.host o ops layer tq ho x
  refine .yields hyields hyields' ?_
  refine .bind (queryStage_agree ho hb hb') fun _ => ?_
  refine .bind_of (keyStage_agree ho hk hb hb') (keyStage_puts ⟨tk, hk⟩ hread) ?_
  rintro ⟨k, kvd⟩ ⟨rfl, -⟩
  refine .bind (valueStage_agree ho hv hb hb') fun _ => .refl _

end Attention

end VgEngine.Decode

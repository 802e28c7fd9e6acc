import VgEngine.Decode.Device

/-! What the per-op kernels of a layer do to the hidden state when only calls of the device fail:
the output projection in each of the places that can make it, and the blocks behind it. -/
namespace VgEngine.Decode
open Lib Bytes Gguf Model

section Projection

variable {K : Type*} {V S : Type} {G : Graph K} {o : Outcomes} {ops : Ops V S} {layer : Nat}

/-- The product under a weight of the file. -/
def productOf (g : VgGguf) (ops : Ops V S) (name : List UInt8) (outDim inDim : Nat) (x : V) : V :=
  match find g name with
  | some t => product ops (weight name t outDim inDim) x
  | none => ops.junk

theorem productOf_found {g : VgGguf} {name : List UInt8} {t : GgufTensor} (h : find g name = some t)
    (outDim inDim : Nat) (x : V) :
    productOf g ops name outDim inDim x = product ops (weight name t outDim inDim) x := by
  unfold productOf
  rw [h]

/-- The output projection with its adapter and its norm, as the host makes it. -/
def projection (G : Graph K) (ops : Ops V S) (layer : Nat) (att : V) : V :=
  let name := blk layer "attn_output.weight"
  let width := outputWidth G.file G.cfg layer
  normedBehind G ops (blk layer "attn_post_norm.weight")
    (loraApply G ops name G.cfg.nEmbd width att
      (productOf G.file ops name G.cfg.nEmbd width att))

/-- The output projection as the fused head and tail make it. -/
def plainProjection (G : Graph K) (ops : Ops V S) (layer : Nat) (att : V) : V :=
  productOf G.file ops (blk layer "attn_output.weight") G.cfg.nEmbd (attentionDim G) att

/-- The hidden state behind the output projection. -/
def projected (G : Graph K) (ops : Ops V S) (layer : Nat) (w : Work V S) : V :=
  ops.add w.res (projection G ops layer w.att)

def plainProjected (G : Graph K) (ops : Ops V S) (layer : Nat) (w : Work V S) : V :=
  ops.add w.res (plainProjection G ops layer w.att)

/-- Whether `attention_layer` leaves the output projection to `ffn_layer`. -/
def deferred (G : Graph K) : Bool :=
  moeFusedHeadOk G || (layerTailWillFuse G && !hasTensor G "blk.0.ffn_gate_inp.weight")

theorem outputStage_projects (ho : DeviceOnly o) {t : GgufTensor}
    (hout : find G.file (blk layer "attn_output.weight") = some t) (h : deferred G = false) :
    Logged.Agree (outputStage G o ops layer) (Logged.modify fun w =>
      { w with hidden := projected G ops layer w }) := by
  unfold deferred at h
  rw [Bool.or_eq_false_iff] at h
  intro s
  unfold outputStage projected projection
  dsimp only
  rw [if_neg (by simp [h.1]), if_neg (by simp [h.2])]
  rw [(acquireWeight_ok ho hout).value]
  change (projectOutput G o ops layer t s).1 = _
  unfold projectOutput
  rw [(allocate_true ho).value, if_pos rfl, Logged.bind_value, Logged.get_value]
  dsimp only
  rw [(dispatch_yields ho _ _).value, (postNorm_normed ho _).value]
  simp only [productOf_found hout]
  rfl

theorem headFallback_projects (ho : DeviceOnly o) {t : GgufTensor}
    (hout : find G.file (blk layer "attn_output.weight") = some t) :
    Logged.Agree (headFallback G o ops layer) (Logged.modify fun w =>
      { w with hidden := plainProjected G ops layer w }) := by
  intro s
  unfold headFallback plainProjected plainProjection
  rw [(allocate_true ho).value, if_pos rfl, Logged.bind_value]
  unfold headProjection
  dsimp only
  rw [(acquireWeight_ok ho hout).value]
  dsimp only
  rw [Logged.bind_value, Logged.get_value]
  dsimp only
  rw [(dispatch_yields ho _ _).value]
  simp only [productOf_found hout]
  rfl

theorem readyTensor_find (ho : DeviceOnly o) {place : Place} (name : List UInt8) :
    readyTensor G o layer place name = find G.file name := by
  have hacquire : o ⟨place, .acquire, layer, 0⟩ = .ok := ho _ (by simp)
  unfold readyTensor works
  simp [hacquire]

theorem tailFallback_projects (ho : DeviceOnly o) {t : GgufTensor}
    (hout : find G.file (blk layer "attn_output.weight") = some t) :
    Logged.Agree (tailFallback G o ops layer
        (weight (blk layer "attn_output.weight") t G.cfg.nEmbd (attentionDim G)))
      (Logged.modify fun w => { w with
        hidden := plainProjected G ops layer w
        res := plainProjected G ops layer w }) := by
  intro s
  unfold tailFallback plainProjected plainProjection
  rw [(allocate_true ho).value, if_pos rfl, Logged.bind_value, Logged.get_value]
  dsimp only
  rw [(dispatch_yields ho _ _).value]
  simp only [productOf_found hout]
  rfl

/-- The logits that a fused head leaves behind are those of the router. -/
def Heads (G : Graph K) (ops : Ops V S) (layer : Nat) (head : Option V) (h : V) : Prop :=
  ∀ logits, head = some logits → ∃ t, find G.file (blk layer "ffn_gate_inp.weight") = some t ∧
    logits = product ops (weight (blk layer "ffn_gate_inp.weight") t 1 G.cfg.nEmbd)
      (normed G.file ops (blk layer "ffn_norm.weight") h)

theorem fusedHead_projects (ho : DeviceOnly o) (s : Work V S) :
    (fusedHead G o ops layer s).1 = (none, s) ∨
      ∃ logits, (fusedHead G o ops layer s).1 = (some logits,
          { s with hidden := plainProjected G ops layer s }) ∧
        Heads G ops layer (some logits) (plainProjected G ops layer s) := by
  unfold fusedHead
  dsimp only
  rw [Logged.bind_value, Logged.get_value]
  dsimp only
  rw [readyTensor_find ho, readyTensor_find ho, readyTensor_find ho]
  cases hw : find G.file (blk layer "attn_output.weight") with
  | none => exact .inl rfl
  | some tw =>
  cases hn : find G.file (blk layer "ffn_norm.weight") with
  | none => exact .inl rfl
  | some tn =>
  cases hr : find G.file (blk layer "ffn_gate_inp.weight") with
  | none => exact .inl rfl
  | some tr =>
  dsimp only
  split_ifs with hruns
  · right
    simp only [Bool.and_eq_true, decide_eq_true_eq] at hruns
    obtain ⟨⟨⟨⟨⟨⟨-, hdim⟩, htw⟩, htr⟩, hqw⟩, hqr⟩, -⟩ := hruns
    have hnamed : plainProjected G ops layer s = ops.add s.res
        (ops.matmul (weight (blk layer "attn_output.weight") tw G.cfg.nEmbd G.cfg.nEmbd) s.att) := by
      unfold plainProjected plainProjection
      rw [productOf_found hw, hdim, product_q8 s.att htw hqw]
    have hnormed (h : V) : normed G.file ops (blk layer "ffn_norm.weight") h =
        ops.rmsnorm (blk layer "ffn_norm.weight") h := if_pos (by rw [hn]; rfl)
    rw [hnamed]
    refine ⟨_, rfl, ?_⟩
    rintro _ ⟨⟩
    refine ⟨tr, hr, ?_⟩
    rw [hnormed, product_q8 _ htr hqr]
  · exact .inl rfl

/-- The head leaves the projection behind, with the logits of the router where it made them. -/
theorem headStage_projects (ho : DeviceOnly o) {t : GgufTensor}
    (hout : find G.file (blk layer "attn_output.weight") = some t) (hhead : moeFusedHeadOk G = true)
    (s : Work V S) : ∃ head, (headStage G o ops layer s).1 = (head,
        { s with hidden := plainProjected G ops layer s }) ∧
      Heads G ops layer head (plainProjected G ops layer s) := by
  unfold headStage
  rw [if_pos hhead, Logged.bind_value]
  rcases @fusedHead_projects K V S G o ops layer ho s with hnone | ⟨logits, hsome, hlogits⟩
  · rw [hnone]
    dsimp only
    rw [Logged.bind_value, headFallback_projects ho hout s]
    exact ⟨none, rfl, fun _ h => nomatch h⟩
  · rw [hsome]
    exact ⟨some logits, rfl, hlogits⟩

theorem headStage_none (hhead : moeFusedHeadOk G = false) :
    (headStage G o ops layer : Exec V S _) = pure none := by
  unfold headStage
  exact if_neg (by simp [hhead])

end Projection

section Dense

variable {K : Type*} {V S : Type} {G : Graph K} {o : Outcomes} {ops : Ops V S} {layer : Nat}

/-- A weight that is there as Q8_0. -/
def q8Weight (g : VgGguf) (name : List UInt8) : Bool := (find g name).any fun t => t.ggmlType = 8

/-- The fused kernels take the three weights of a gated block. -/
def fusesFfn (G : Graph K) (layer : Nat) : Bool :=
  q8Weight G.file (blk layer "ffn_gate.weight") && q8Weight G.file (blk layer "ffn_up.weight") &&
    q8Weight G.file (blk layer "ffn_down.weight") && q8Accepts G.cfg.nFf G.cfg.nEmbd &&
    q8Accepts G.cfg.nEmbd G.cfg.nFf

/-- The products of a gated block. -/
def gatedDelta (G : Graph K) (ops : Ops V S) (layer : Nat) (x : V) : V :=
  productOf G.file ops (blk layer "ffn_down.weight") G.cfg.nEmbd G.cfg.nFf
    (ops.swiglu (productOf G.file ops (blk layer "ffn_gate.weight") G.cfg.nFf G.cfg.nEmbd x)
      (productOf G.file ops (blk layer "ffn_up.weight") G.cfg.nFf G.cfg.nEmbd x))

/-- The fused block where the device runs it. -/
def fusedFfnRuns (G : Graph K) (o : Outcomes) (layer : Nat) : Bool :=
  G.vk && fusesFfn G layer && works o layer .fusedGate .device

theorem gatedBlock_delta {tg tu td : GgufTensor}
    (hg : find G.file (blk layer "ffn_gate.weight") = some tg)
    (hu : find G.file (blk layer "ffn_up.weight") = some tu)
    (hd : find G.file (blk layer "ffn_down.weight") = some td) (htg : tg.ggmlType = 8)
    (htu : tu.ggmlType = 8) (htd : td.ggmlType = 8) (hin : q8Accepts G.cfg.nFf G.cfg.nEmbd = true)
    (hout : q8Accepts G.cfg.nEmbd G.cfg.nFf = true) (x : V) :
    gatedBlock ops (weight (blk layer "ffn_gate.weight") tg G.cfg.nFf G.cfg.nEmbd)
      (weight (blk layer "ffn_up.weight") tu G.cfg.nFf G.cfg.nEmbd)
      (weight (blk layer "ffn_down.weight") td G.cfg.nEmbd G.cfg.nFf) x =
      gatedDelta G ops layer x := by
  unfold gatedBlock gatedDelta
  rw [productOf_found hg, productOf_found hu, productOf_found hd, product_q8 _ htg hin,
    product_q8 _ htu hin, product_q8 _ htd hout]

theorem works_use (ho : DeviceOnly o) {place : Place} {use : Use} (h : use ≠ .device) :
    works o layer place use = true := by
  unfold works
  simp [ho ⟨place, use, layer, 0⟩ h]

theorem fusedFfn_value (ho : DeviceOnly o) (x : V) (s : Work V S) :
    (fusedFfn G o ops layer x s).1 =
      if fusedFfnRuns G o layer then
        (true, { s with hidden := ops.add s.res (gatedDelta G ops layer x) })
      else (false, s) := by
  unfold fusedFfn fusedFfnRuns fusesFfn q8Weight
  dsimp only
  rw [readyTensor_find ho, readyTensor_find ho, readyTensor_find ho]
  cases hg : find G.file (blk layer "ffn_gate.weight") with
  | none => simp
  | some tg =>
  cases hu : find G.file (blk layer "ffn_up.weight") with
  | none => simp
  | some tu =>
  cases hd : find G.file (blk layer "ffn_down.weight") with
  | none => simp
  | some td =>
  dsimp only
  have hbuffer : works o layer .fusedGate .buffer = true := works_use ho (by decide)
  simp only [Option.any_some, hbuffer, Bool.and_true, Bool.and_assoc]
  split_ifs with hruns
  · simp only [Bool.and_eq_true, decide_eq_true_eq] at hruns
    obtain ⟨-, htg, htu, htd, hin, hout, -⟩ := hruns
    rw [← gatedBlock_delta hg hu hd htg htu htd hin hout]
    rfl
  · rfl

/-- The first half of a dense block. -/
def denseHalf (G : Graph K) (ops : Ops V S) (layer : Nat) (x : V) : V :=
  let ng := blk layer "ffn_gate.weight"
  let nu := blk layer "ffn_up.weight"
  let up := productOf G.file ops nu G.cfg.nFf G.cfg.nEmbd x
  if G.cfg.hasGateUp then
    ops.swiglu (loraApply G ops ng G.cfg.nFf G.cfg.nEmbd x
      (productOf G.file ops ng G.cfg.nFf G.cfg.nEmbd x))
      (loraApply G ops nu G.cfg.nFf G.cfg.nEmbd x up)
  else ops.gelu up

/-- The sub-norm of a dense block, in the models that have one. -/
def subNormed (G : Graph K) (ops : Ops V S) (layer : Nat) (y : V) : V :=
  if G.cfg.hasSubNorm then
    normedShaped G.file ops (blk layer "ffn_sub_norm.weight") G.cfg.nFf y
  else y

/-- The down projection of a dense block with its adapter and its norm. -/
def downDelta (G : Graph K) (ops : Ops V S) (layer : Nat) (y : V) : V :=
  let name := blk layer "ffn_down.weight"
  normedBehind G ops (blk layer "ffn_post_norm.weight")
    (loraApply G ops name G.cfg.nEmbd G.cfg.nFf y
      (productOf G.file ops name G.cfg.nEmbd G.cfg.nFf y))

/-- What a dense block adds to its input, as the host makes it. -/
def denseDelta (G : Graph K) (ops : Ops V S) (layer : Nat) (x : V) : V :=
  downDelta G ops layer (subNormed G ops layer (denseHalf G ops layer x))

theorem gatePair_yields (ho : DeviceOnly o) {tg tu : GgufTensor} {ng nu : List UInt8}
    {outDim inDim : Nat} (x : V) : Logged.Yields
      (gatePair G o ops layer (weight ng tg outDim inDim) (weight nu tu outDim inDim) x :
        Exec V S _)
      (product ops (weight ng tg outDim inDim) x, product ops (weight nu tu outDim inDim) x) := by
  unfold gatePair
  refine .ite (fun hdevice => ?_) fun _ => ?_
  · simp only [Bool.and_eq_true] at hdevice
    obtain ⟨⟨-, haccepted⟩, -⟩ := hdevice
    have hboth : cpuStatus (weight ng tg outDim inDim) = .ok ∧
        cpuStatus (weight nu tu outDim inDim) = .ok := by
      split at haccepted
      next htypes => exact ⟨q8Accepts_ok htypes.1 haccepted, q8Accepts_ok htypes.2 haccepted⟩
      next =>
        rw [Bool.and_eq_true] at haccepted
        exact ⟨vkAccepts_ok haccepted.1, vkAccepts_ok haccepted.2⟩
    intro s
    simp [product, hboth.1, hboth.2]
  · refine (cpuMatmul_yields ho x).bind ?_
    exact (cpuMatmul_yields ho x).bind (.pure _)

theorem gatedStage_half (ho : DeviceOnly o) {tg tu : GgufTensor}
    (hg : find G.file (blk layer "ffn_gate.weight") = some tg)
    (hu : find G.file (blk layer "ffn_up.weight") = some tu) (hgate : G.cfg.hasGateUp = true)
    (x : V) : Logged.Agree (gatedStage G o ops layer x)
      (Logged.modify fun w => { w with ffn := denseHalf G ops layer x }) := by
  intro s
  unfold gatedStage denseHalf
  dsimp only
  rw [if_pos hgate, (allocate_true ho).value, (allocate_true ho).value, Bool.and_self,
    if_pos rfl, (acquireWeight_ok ho hg).value]
  dsimp only
  rw [(acquireWeight_ok ho hu).value]
  dsimp only
  rw [(gatePair_yields ho x).value, productOf_found hg, productOf_found hu]

theorem ungatedStage_half (ho : DeviceOnly o) {tu : GgufTensor}
    (hu : find G.file (blk layer "ffn_up.weight") = some tu) (hgate : G.cfg.hasGateUp = false)
    (x : V) : Logged.Agree (ungatedStage G o ops layer x)
      (Logged.modify fun w => { w with ffn := denseHalf G ops layer x }) := by
  intro s
  unfold ungatedStage ungatedUp denseHalf
  dsimp only
  rw [if_neg (by simp [hgate]), Logged.bind_value, (acquireWeight_ok ho hu).value]
  dsimp only
  rw [(dispatch_yields ho _ x).value, productOf_found hu]
  rfl

theorem downStage_delta (ho : DeviceOnly o) {td : GgufTensor}
    (hd : find G.file (blk layer "ffn_down.weight") = some td) :
    Logged.Agree (downStage G o ops layer) (Logged.modify fun w => { w with
      ffn := subNormed G ops layer w.ffn
      hidden := ops.add w.res (downDelta G ops layer (subNormed G ops layer w.ffn)) }) := by
  intro s
  have hnorm : ((Logged.onlyIf (G.cfg.hasSubNorm = true) (ffnSubNorm G o ops layer) :
      Exec V S Unit) s).1 = ((), { s with ffn := subNormed G ops layer s.ffn }) := by
    unfold Logged.onlyIf subNormed
    split
    · unfold ffnSubNorm
      rw [Logged.bind_value, Logged.get_value]
      dsimp only
      rw [(shapedNorm_normed ho _).value]
      rfl
    · rfl
  unfold downStage downDelta
  rw [Logged.bind_value, hnorm]
  dsimp only
  rw [(acquireWeight_ok ho hd).value]
  dsimp only
  unfold projectDown
  rw [(allocate_true ho).value, if_pos rfl, Logged.bind_value, Logged.get_value]
  dsimp only
  rw [(dispatch_yields ho _ _).value, (postNorm_normed ho _).value]
  simp only [productOf_found hd]
  rfl

/-- The tensors of a dense block are there. -/
structure DenseThere (G : Graph K) (layer : Nat) : Prop where
  gate : G.cfg.hasGateUp = true → ∃ t, find G.file (blk layer "ffn_gate.weight") = some t
  up : ∃ t, find G.file (blk layer "ffn_up.weight") = some t
  down : ∃ t, find G.file (blk layer "ffn_down.weight") = some t

/-- A dense block adds its products in one submit, or one by one. -/
theorem denseBlock_value (ho : DeviceOnly o) (h : DenseThere G layer) (x : V) (s : Work V S) :
    (denseBlock G o ops layer x s).1.1 = .ok ∧
      (denseBlock G o ops layer x s).1.2.hidden = ops.add s.res
        (if G.cfg.hasGateUp && fusedFfnRuns G o layer then gatedDelta G ops layer x
        else denseDelta G ops layer x) := by
  obtain ⟨tu, hu⟩ := h.up
  obtain ⟨td, hd⟩ := h.down
  unfold denseBlock
  by_cases hgate : G.cfg.hasGateUp = true
  · obtain ⟨tg, hg⟩ := h.gate hgate
    rw [if_pos hgate, hgate, Bool.true_and, Logged.bind_value, fusedFfn_value ho]
    by_cases hfused : fusedFfnRuns G o layer = true
    · rw [if_pos hfused, if_pos hfused]
      exact ⟨rfl, rfl⟩
    · rw [if_neg hfused, if_neg hfused]
      dsimp only
      rw [if_neg Bool.false_ne_true, Logged.bind_value, gatedStage_half ho hg hu hgate x s,
        Logged.bind_value, Logged.modify_value, downStage_delta ho hd]
      exact ⟨rfl, rfl⟩
  · rw [Bool.not_eq_true] at hgate
    rw [if_neg (by simp [hgate]), hgate, Bool.false_and, if_neg Bool.false_ne_true,
      Logged.bind_value, ungatedStage_half ho hu hgate x s, Logged.bind_value, Logged.modify_value,
      downStage_delta ho hd]
    exact ⟨rfl, rfl⟩

end Dense

section Tail

variable {K : Type*} {V S : Type} {G : Graph K} {o : Outcomes} {ops : Ops V S} {layer : Nat}

/-- The fused tail takes the four weights behind the attention. -/
def fusesTail (G : Graph K) (layer : Nat) : Bool :=
  q8Weight G.file (blk layer "attn_output.weight") && fusesFfn G layer &&
    attentionDim G = G.cfg.nEmbd && q8Accepts G.cfg.nEmbd G.cfg.nEmbd

/-- The tensors that the fused tail asks for are there. -/
structure TailThere (g : VgGguf) (layer : Nat) (t : Tail) : Prop where
  output : find g (blk layer "attn_output.weight") = some t.output
  norm : (find g (blk layer "ffn_norm.weight")).isSome
  gate : find g (blk layer "ffn_gate.weight") = some t.gate
  up : find g (blk layer "ffn_up.weight") = some t.up
  down : find g (blk layer "ffn_down.weight") = some t.down

theorem tailTensors_some (ho : DeviceOnly o) {t : Tail} :
    tailTensors G o layer = some t ↔ TailThere G.file layer t := by
  unfold tailTensors
  simp only [readyTensor_find ho, Option.bind_eq_bind, Option.bind_eq_some_iff, Option.pure_def,
    Option.some.injEq]
  constructor
  · rintro ⟨output, houtput, norm, hnorm, gate, hgate, up, hup, down, hdown, rfl⟩
    exact ⟨houtput, by rw [hnorm]; rfl, hgate, hup, hdown⟩
  · rintro ⟨houtput, hnorm, hgate, hup, hdown⟩
    obtain ⟨norm, hnorm⟩ := Option.isSome_iff_exists.1 hnorm
    exact ⟨_, houtput, norm, hnorm, _, hgate, _, hup, _, hdown, rfl⟩

theorem tailTensors_allOk (ho : DeviceOnly o) :
    tailTensors G o layer = tailTensors G allOk layer := by
  apply Option.ext
  intro t
  exact (tailTensors_some ho).trans (tailTensors_some .allOk).symm

theorem tailRuns_eq {t : Tail} (h : TailThere G.file layer t) :
    tailRuns G o layer t = (fusesTail G layer && works o layer .tailOutput .device) := by
  unfold tailRuns fusesTail fusesFfn q8Weight
  rw [h.output, h.gate, h.up, h.down]
  simp only [Option.any_some]
  ac_rfl

/-- The fused tail makes the layer, or the projection alone. -/
theorem tailStage_there (ho : DeviceOnly o) (hvk : G.vk = true) (htail : G.layerTail = true)
    {t : Tail} (h : TailThere G.file layer t) (s : Work V S) :
    (tailStage G o ops layer s).1 =
      if fusesTail G layer && works o layer .tailOutput .device then
        (true, { s with hidden := ops.add (plainProjected G ops layer s) (gatedDelta G ops layer
          (normed G.file ops (blk layer "ffn_norm.weight") (plainProjected G ops layer s))) })
      else (false, { s with
        hidden := plainProjected G ops layer s
        res := plainProjected G ops layer s }) := by
  unfold tailStage
  rw [if_pos (by simp [hvk, htail]), (tailTensors_some ho).2 h]
  dsimp only
  unfold layerTail
  rw [Logged.bind_value, Logged.get_value]
  dsimp only
  rw [tailRuns_eq h]
  split_ifs with hruns
  · unfold fusesTail fusesFfn q8Weight at hruns
    rw [h.output, h.gate, h.up, h.down] at hruns
    simp only [Option.any_some, Bool.and_eq_true, decide_eq_true_eq] at hruns
    obtain ⟨⟨⟨⟨htw, ⟨⟨⟨htg, htu⟩, htd⟩, hin⟩, hout⟩, hdim⟩, hqw⟩, -⟩ := hruns
    have hnamed : plainProjected G ops layer s = ops.add s.res (ops.matmul
        (weight (blk layer "attn_output.weight") t.output G.cfg.nEmbd (attentionDim G)) s.att) := by
      unfold plainProjected plainProjection
      rw [productOf_found h.output, hdim, product_q8 s.att htw hqw]
    unfold normed
    rw [if_pos h.norm, ← gatedBlock_delta h.gate h.up h.down htg htu htd hin hout, hnamed]
    rfl
  · rw [Logged.bind_value, tailFallback_projects ho h.output s]
    rfl

theorem tailStage_missing (ho : DeviceOnly o)
    (h : G.layerTail = true → G.vk = true → tailTensors G allOk layer = none) :
    Logged.Yields (tailStage G o ops layer : Exec V S _) false := by
  unfold tailStage
  refine .ite (fun hdevice => ?_) fun _ => .pure _
  rw [Bool.and_eq_true] at hdevice
  rw [tailTensors_allOk ho, h hdevice.1 hdevice.2]
  have hlog : Logged.Yields (Logged.onlyIf (moeFusedHeadOk G = false)
      (Logged.log (.skipped .attnOutput layer)) : Exec V S Unit) () :=
    .ite (fun _ => .log _) fun _ => .pure _
  exact hlog.bind (.pure _)

end Tail

end VgEngine.Decode

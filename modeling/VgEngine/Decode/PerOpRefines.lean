import VgEngine.Decode.PerOpBlocks
import VgEngine.Decode.Agrees

/-! A layer with a device against the same layer without one: which operations it applies, once each
and in which order, over any interpretation of them. -/
namespace VgEngine.Decode
open Lib Bytes Gguf Model

section Condition

variable {K : Type*}

/-- One layer: `attention_layer` and `ffn_layer`. -/
def layerForward {V S : Type} (G : Graph K) (o : Outcomes) (ops : Ops V S) (layer pos : Nat) :
    Exec V S Status := do
  attentionLayer G o ops layer pos
  ffnLayer G o ops layer

/-- Two runs of a layer have stored the same rows, and have applied the same operations to the
hidden state unless both fail. -/
structure LayerRefines {V S : Type} (r r' : Status × Work V S) : Prop where
  status : r.1 = .ok ↔ r'.1 = .ok
  hidden : r.1 = .ok → r.2.hidden = r'.2.hidden
  kv : r.2.kv = r'.2.kv

/-- With the device a layer applies the operations that it applies without, over every
interpretation of them, whichever calls of the device fail. -/
def RefinesHost (G : Graph K) (layer : Nat) : Prop :=
  ∀ (V S : Type) (ops : Ops V S) (o : Outcomes) (pos : Nat) (s : Work V S), DeviceOnly o →
    LayerRefines (layerForward G o ops layer pos s).1 (layerForward G.host o ops layer pos s).1

/-- The norm behind a block is applied. -/
def normBehind (G : Graph K) (name : List UInt8) : Bool :=
  G.cfg.hasPostNorm && shaped G.file name G.cfg.nEmbd

/-- The output projection that the fused head and tail make is the one of the host, where no
adapter is attached. -/
structure PlainSound (G : Graph K) (layer : Nat) : Prop where
  norm : normBehind G (blk layer "attn_post_norm.weight") = false
  width : attentionDim G = outputWidth G.file G.cfg layer ∨
    ∀ t, find G.file (blk layer "attn_output.weight") = some t →
      cpuStatus (weight (blk layer "attn_output.weight") t G.cfg.nEmbd (attentionDim G)) ≠ .ok ∧
      cpuStatus (weight (blk layer "attn_output.weight") t G.cfg.nEmbd
        (outputWidth G.file G.cfg layer)) ≠ .ok

/-- The products of a gated block are all that it applies. -/
structure GatedSound (G : Graph K) (layer : Nat) : Prop where
  lora : G.lora = false
  subNorm : (G.cfg.hasSubNorm && shaped G.file (blk layer "ffn_sub_norm.weight") G.cfg.nFf) = false
  norm : normBehind G (blk layer "ffn_post_norm.weight") = false

/-- What a layer with at most one expert needs: whatever leaves the projection out makes it
elsewhere, once and as the host does, and a fused block is a gated one without norms of its own. -/
structure DenseSound (G : Graph K) (layer : Nat) : Prop where
  projection : deferred G = true → G.lora = false ∧ PlainSound G layer
  tail : G.layerTail = true →
    (tailTensors G allOk layer).isSome = !hasTensor G "blk.0.ffn_gate_inp.weight"
  gate : G.layerTail = true → hasTensor G "blk.0.ffn_gate_inp.weight" = false →
    fusesTail G layer = true → G.cfg.hasGateUp = true
  fused : hasTensor G "blk.0.ffn_gate_inp.weight" = false → G.cfg.hasGateUp = true →
    fusesFfn G layer = true → GatedSound G layer

/-- Some choice of experts is one that the routed block can run. -/
def MoeGoes (g : VgGguf) (cfg : ModelConfig K) (layer : Nat) : Prop :=
  ∃ t, find g (blk layer "ffn_gate_inp.weight") = some t ∧
    cpuStatus (weight (blk layer "ffn_gate_inp.weight") t cfg.nExpert cfg.nEmbd) = .ok ∧
    cfg.nExpertUsed ≤ 16 ∧ ∃ greater : Nat → Nat → Bool,
      ∀ e ∈ moeRoute greater cfg.nExpert cfg.nExpertUsed, ExpertGoes g cfg layer e

/-- The flags, tensors and widths under which the device takes no step out of a layer and adds
none. With several experts `ffn_layer` makes no projection. -/
def PerOpSound (G : Graph K) (layer : Nat) : Prop :=
  if 1 < G.cfg.nExpert then deferred G = true → ¬ MoeGoes G.file G.cfg layer
  else DenseSound G layer

/-- The tensors of a layer that an accepted model has. -/
structure LayerThere (G : Graph K) (layer : Nat) : Prop where
  query : ∃ t, find G.file (blk layer "attn_q.weight") = some t
  key : ∃ t, find G.file (blk layer "attn_k.weight") = some t
  value : ∃ t, find G.file (blk layer "attn_v.weight") = some t
  output : ∃ t, find G.file (blk layer "attn_output.weight") = some t
  dense : G.cfg.nExpert ≤ 1 → DenseThere G layer

theorem layerThere [Field K] [LinearOrder K] {G : Graph K} {layer : Nat}
    {strtof : List UInt8 → Option K} (hprobe : (modelProbe G.file).ok = true)
    (hload : loadConfig G.file strtof = some G.cfg) (hlayer : layer < G.cfg.nLayer) :
    LayerThere G layer := by
  have hagreed := agreed hprobe hload
  obtain ⟨arch, te, hprobed⟩ := modelProbe_probed hprobe
  have hchecked := hprobed.layers layer (hagreed.layers ▸ hlayer)
  have hfind {name : List UInt8} {d e : Nat} {dims : Bool} (h : Passes G.file name d e dims) :
      ∃ t, find G.file name = some t := by
    obtain ⟨t, -, ht, -⟩ := h
    exact ⟨t, ht⟩
  constructor
  case query => exact hfind hchecked.attention.query
  case key => exact hfind hchecked.attention.key
  case value => exact hfind hchecked.attention.value
  case output => exact hfind hchecked.attention.output
  case dense =>
    intro hexpert
    have hmoe : (modelProbe G.file).isMoe = false := by
      cases hmoe : (modelProbe G.file).isMoe with
      | false => rfl
      | true => exact absurd (hagreed.experts hmoe) (Nat.not_lt.2 hexpert)
    have hdense := hchecked.dense hmoe
    refine ⟨fun hgate => ?_, hfind hdense.up, hfind hdense.down⟩
    exact hfind (hdense.gate (hagreed.gate ▸ hgate))

end Condition

section Runs

variable {K : Type*} {V S : Type} {G : Graph K} {o : Outcomes} {ops : Ops V S} {layer pos : Nat}

/-- The layer behind the attention over the pages. -/
def afterAttention (G : Graph K) (o : Outcomes) (ops : Ops V S) (layer : Nat) :
    Exec V S Status := do
  outputStage G o ops layer
  ffnLayer G o ops layer

theorem layerForward_split (ho : DeviceOnly o) {tq : GgufTensor}
    (hq : find G.file (blk layer "attn_q.weight") = some tq) (s : Work V S) :
    (layerForward G o ops layer pos s).1 = (afterAttention G o ops layer
      (beforeOutput G o ops layer pos tq s).1.2).1 := by
  unfold layerForward afterAttention
  rw [Logged.bind_value, attentionLayer_split ho hq s]
  rfl

/-- Without a device the projection is made by `attention_layer`. -/
theorem host_deferred : deferred G.host = false := by
  simp [deferred, moeFusedHeadOk, layerTailWillFuse, Graph.host]

theorem tailStage_host : Logged.Yields (tailStage G.host o ops layer : Exec V S _) false :=
  .ite (fun h => absurd h (by simp [Graph.host])) fun _ => .pure _

/-- `ffn_layer` with at most one expert, from the residual on. -/
def ffnRest (G : Graph K) (o : Outcomes) (ops : Ops V S) (layer : Nat) (head : Option V) :
    Exec V S Status := do
  if ← tailStage G o ops layer then pure .ok
  else perOpBlock G o ops layer head

theorem ffnLayer_rest (hexperts : G.cfg.nExpert ≤ 1) :
    (ffnLayer G o ops layer : Exec V S _) = (do
      let head ← headStage G o ops layer
      Logged.modify fun w => { w with res := w.hidden }
      ffnRest G o ops layer head) :=
  if_neg (Nat.not_lt.2 hexperts)

/-- The block on top of a hidden state. -/
def behind (G : Graph K) (o : Outcomes) (ops : Ops V S) (layer : Nat) (h : V) : V :=
  ops.add h (if fusedBlock G o layer then
    gatedDelta G ops layer (normed G.file ops (blk layer "ffn_norm.weight") h)
  else blockDelta G ops layer h)

theorem perOpBlock_behind (ho : DeviceOnly o) (hthere : DenseThere G layer) {head : Option V}
    {s : Work V S} (hhead : Heads G ops layer head s.hidden) (hres : s.res = s.hidden) :
    (perOpBlock G o ops layer head s).1.1 = .ok ∧
      (perOpBlock G o ops layer head s).1.2.hidden = behind G o ops layer s.hidden := by
  obtain ⟨hok, hhidden⟩ := perOpBlock_adds ho s (fun _ => hthere) hhead
  rw [hres] at hhidden
  exact ⟨hok, hhidden⟩

/-- Without a fused tail the block runs on the hidden state. -/
theorem ffnRest_missing (ho : DeviceOnly o) (hthere : DenseThere G layer) {head : Option V}
    {s : Work V S} (hhead : Heads G ops layer head s.hidden) (hres : s.res = s.hidden)
    (htail : Logged.Yields (tailStage G o ops layer : Exec V S _) false) :
    (ffnRest G o ops layer head s).1.1 = .ok ∧
      (ffnRest G o ops layer head s).1.2.hidden = behind G o ops layer s.hidden := by
  unfold ffnRest
  rw [htail.value, if_neg Bool.false_ne_true]
  exact perOpBlock_behind ho hthere hhead hres

/-- Whether the fused tail runs on the device. -/
def fusedTail (G : Graph K) (o : Outcomes) (layer : Nat) : Bool :=
  fusesTail G layer && works o layer .tailOutput .device

/-- With a fused tail the projection comes first, and the block runs on what it leaves. -/
theorem ffnRest_there (ops : Ops V S) (ho : DeviceOnly o) (hthere : DenseThere G layer) (hvk : G.vk = true)
    (hon : G.layerTail = true) {t : Tail} (ht : TailThere G.file layer t) {head : Option V}
    {s : Work V S} (hhead : Heads G ops layer head (plainProjected G ops layer s)) :
    (ffnRest G o ops layer head s).1.1 = .ok ∧
      (ffnRest G o ops layer head s).1.2.hidden =
        if fusedTail G o layer then ops.add (plainProjected G ops layer s) (gatedDelta G ops layer
          (normed G.file ops (blk layer "ffn_norm.weight") (plainProjected G ops layer s)))
        else behind G o ops layer (plainProjected G ops layer s) := by
  unfold ffnRest fusedTail
  rw [Logged.bind_value, tailStage_there ho hvk hon ht]
  by_cases hruns : (fusesTail G layer && works o layer .tailOutput .device) = true
  · rw [if_pos hruns, if_pos hruns]
    exact ⟨rfl, rfl⟩
  · rw [if_neg hruns, if_neg hruns]
    dsimp only
    rw [if_neg Bool.false_ne_true]
    exact perOpBlock_behind ho hthere hhead rfl

theorem Heads.none {h : V} : Heads G ops layer none h := fun _ h => nomatch h

/-- What comes after a projection made by `attention_layer`. -/
theorem afterAttention_projected (ho : DeviceOnly o) {t : GgufTensor}
    (hout : find G.file (blk layer "attn_output.weight") = some t) (hdeferred : deferred G = false)
    (hexperts : G.cfg.nExpert ≤ 1) (s : Work V S) :
    (afterAttention G o ops layer s).1 = (ffnRest G o ops layer none
      { s with hidden := projected G ops layer s, res := projected G ops layer s }).1 := by
  have hhead : moeFusedHeadOk G = false := by
    unfold deferred at hdeferred
    exact (Bool.or_eq_false_iff.1 hdeferred).1
  unfold afterAttention
  rw [Logged.bind_value, outputStage_projects ho hout hdeferred s, ffnLayer_rest hexperts,
    headStage_none hhead]
  rfl

theorem afterAttention_host (ops : Ops V S) (ho : DeviceOnly o) (hthere : LayerThere G layer)
    (hexperts : G.cfg.nExpert ≤ 1) (s : Work V S) :
    (afterAttention G.host o ops layer s).1.1 = .ok ∧
      (afterAttention G.host o ops layer s).1.2.hidden =
        ops.add (projected G ops layer s) (blockDelta G ops layer (projected G ops layer s)) := by
  obtain ⟨t, hout⟩ := hthere.output
  have hdense : DenseThere G.host layer :=
    ⟨(hthere.dense hexperts).gate, (hthere.dense hexperts).up, (hthere.dense hexperts).down⟩
  have hblock : fusedBlock G.host o layer = false := by
    simp [fusedBlock, fusedFfnRuns, Graph.host]
  obtain ⟨hok, hhidden⟩ := ffnRest_missing ho hdense (s := { s with
    hidden := projected G ops layer s, res := projected G ops layer s }) .none rfl tailStage_host
  rw [afterAttention_projected (G := G.host) ho hout host_deferred hexperts]
  refine ⟨hok, ?_⟩
  unfold behind at hhidden
  rw [hblock] at hhidden
  exact hhidden

/-- What comes after a projection that is left to the fused tail. -/
theorem afterAttention_left (hhead : moeFusedHeadOk G = false) (hdeferred : deferred G = true)
    (hexperts : G.cfg.nExpert ≤ 1) (s : Work V S) :
    (afterAttention G o ops layer s).1 =
      (ffnRest G o ops layer none { s with hidden := s.res, res := s.res }).1 := by
  have hleft : (layerTailWillFuse G && !hasTensor G "blk.0.ffn_gate_inp.weight") = true := by
    unfold deferred at hdeferred
    rwa [hhead, Bool.false_or] at hdeferred
  unfold afterAttention outputStage
  rw [if_neg (by simp [hhead]), if_pos hleft, ffnLayer_rest hexperts, headStage_none hhead]
  rfl

/-- What comes after a projection that is left to the fused head. -/
theorem afterAttention_head (ops : Ops V S) (ho : DeviceOnly o) {t : GgufTensor}
    (hout : find G.file (blk layer "attn_output.weight") = some t) (hhead : moeFusedHeadOk G = true)
    (hexperts : G.cfg.nExpert ≤ 1) (s : Work V S) : ∃ head,
    (afterAttention G o ops layer s).1 = (ffnRest G o ops layer head
        { s with hidden := plainProjected G ops layer s, res := plainProjected G ops layer s }).1 ∧
      Heads G ops layer head (plainProjected G ops layer s) := by
  obtain ⟨head, hvalue, hmade⟩ := @headStage_projects K V S G o ops layer ho t hout hhead s
  refine ⟨head, ?_, hmade⟩
  unfold afterAttention outputStage
  rw [if_pos hhead, ffnLayer_rest hexperts, Logged.bind_value, Logged.pure_value]
  dsimp only
  rw [Logged.bind_value, hvalue]
  rfl

theorem normedShaped_off {g : VgGguf} {name : List UInt8} {width : Nat} {on : Bool}
    (h : (on && shaped g name width) = false) (x : V) :
    (if on then normedShaped g ops name width x else x) = x := by
  unfold normedShaped
  rcases Bool.and_eq_false_iff.1 h with hoff | hoff
  · rw [hoff, if_neg Bool.false_ne_true]
  · rw [hoff, if_neg Bool.false_ne_true, ite_self]

theorem plain_projected (hlora : G.lora = false) (h : PlainSound G layer) (s : Work V S) :
    plainProjected G ops layer s = projected G ops layer s := by
  have hproduct : productOf G.file ops (blk layer "attn_output.weight") G.cfg.nEmbd
      (attentionDim G) s.att = productOf G.file ops (blk layer "attn_output.weight") G.cfg.nEmbd
      (outputWidth G.file G.cfg layer) s.att := by
    rcases h.width with hwidth | hfails
    · rw [hwidth]
    · unfold productOf product
      cases hfind : find G.file (blk layer "attn_output.weight") with
      | none => rfl
      | some t =>
        dsimp only
        rw [if_neg (hfails t hfind).1, if_neg (hfails t hfind).2]
  unfold plainProjected projected plainProjection projection loraApply normedBehind
  dsimp only
  rw [hlora, if_neg Bool.false_ne_true, normedShaped_off h.norm, hproduct]

theorem gated_dense (hgate : G.cfg.hasGateUp = true) (h : GatedSound G layer) (x : V) :
    denseDelta G ops layer x = gatedDelta G ops layer x := by
  unfold denseDelta downDelta denseHalf gatedDelta loraApply subNormed normedBehind
  dsimp only
  rw [hgate, if_pos rfl, h.lora, if_neg Bool.false_ne_true, if_neg Bool.false_ne_true,
    if_neg Bool.false_ne_true, normedShaped_off h.subNorm, normedShaped_off h.norm]

theorem behind_sound (h : DenseSound G layer) (x : V) :
    behind G o ops layer x = ops.add x (blockDelta G ops layer x) := by
  unfold behind
  split
  next hfused =>
    unfold fusedBlock fusedFfnRuns at hfused
    simp only [Bool.and_eq_true, Bool.not_eq_true'] at hfused
    obtain ⟨⟨hrouter, hgate⟩, ⟨-, hfuses⟩, -⟩ := hfused
    unfold blockDelta
    rw [hrouter, if_neg Bool.false_ne_true, gated_dense hgate (h.fused hrouter hgate hfuses)]
  next => rfl

theorem fusesFfn_of_tail (h : fusesTail G layer = true) : fusesFfn G layer = true := by
  unfold fusesTail at h
  simp only [Bool.and_eq_true] at h
  exact h.1.1.2

/-- Under the condition the device makes the projection once and adds the block of the host. -/
theorem afterAttention_sound (ops : Ops V S) (ho : DeviceOnly o) (hthere : LayerThere G layer) (hvk : G.vk = true)
    (hexperts : G.cfg.nExpert ≤ 1) (h : DenseSound G layer) (s : Work V S) :
    (afterAttention G o ops layer s).1.1 = .ok ∧
      (afterAttention G o ops layer s).1.2.hidden =
        ops.add (projected G ops layer s) (blockDelta G ops layer (projected G ops layer s)) := by
  obtain ⟨t, hout⟩ := hthere.output
  have hdense := hthere.dense hexperts
  have hmissing (hno : G.layerTail = true → (tailTensors G allOk layer).isSome = false) :
      Logged.Yields (tailStage G o ops layer : Exec V S _) false :=
    tailStage_missing ho fun hon _ => Option.not_isSome_iff_eq_none.1 (by simp [hno hon])
  by_cases hdeferred : deferred G = true
  · obtain ⟨hlora, hplain⟩ := h.projection hdeferred
    have heq := @plain_projected K V S G ops layer hlora hplain s
    by_cases hhead : moeFusedHeadOk G = true
    · have hrouter : hasTensor G "blk.0.ffn_gate_inp.weight" = true := by
        unfold moeFusedHeadOk at hhead
        exact (Bool.and_eq_true_iff.1 hhead).2
      obtain ⟨head, hvalue, hmade⟩ := afterAttention_head ops ho hout hhead hexperts s
      rw [hvalue, ← heq, ← @behind_sound K V S G o ops layer h]
      exact ffnRest_missing ho hdense hmade rfl (hmissing fun hon => by rw [h.tail hon, hrouter]; rfl)
    · rw [Bool.not_eq_true] at hhead
      have hleft := hdeferred
      unfold deferred layerTailWillFuse at hleft
      simp only [hhead, Bool.false_or, Bool.and_eq_true, Bool.not_eq_true'] at hleft
      obtain ⟨⟨hon, -⟩, hrouter⟩ := hleft
      obtain ⟨tail, htail⟩ := Option.isSome_iff_exists.1 ((h.tail hon).trans (by rw [hrouter]; rfl))
      rw [afterAttention_left hhead hdeferred hexperts]
      obtain ⟨hok, hhidden⟩ := ffnRest_there ops ho hdense hvk hon ((tailTensors_some .allOk).1 htail)
        (s := { s with hidden := s.res, res := s.res }) .none
      refine ⟨hok, hhidden.trans ?_⟩
      have hsame : plainProjected G ops layer { s with hidden := s.res, res := s.res } =
          projected G ops layer s := heq
      rw [hsame, behind_sound h]
      split_ifs with hfused
      · unfold fusedTail at hfused
        have hfuses := (Bool.and_eq_true_iff.1 hfused).1
        have hgate := h.gate hon hrouter hfuses
        unfold blockDelta
        rw [hrouter, if_neg Bool.false_ne_true,
          gated_dense hgate (h.fused hrouter hgate (fusesFfn_of_tail hfuses))]
      · rfl
  · rw [Bool.not_eq_true] at hdeferred
    rw [afterAttention_projected ho hout hdeferred hexperts,
      ← @behind_sound K V S G o ops layer h]
    refine ffnRest_missing ho hdense .none rfl (hmissing fun hon => ?_)
    have hrouter : hasTensor G "blk.0.ffn_gate_inp.weight" = true := by
      unfold deferred layerTailWillFuse at hdeferred
      simpa [hon, hvk] using (Bool.or_eq_false_iff.1 hdeferred).2
    rw [h.tail hon, hrouter]
    rfl

theorem afterAttention_framed : Framed (afterAttention G o ops layer) := by
  unfold afterAttention
  exact outputStage_framed.bind fun _ => ffnLayer_framed

theorem layerForward_kv (ho : DeviceOnly o) (hthere : LayerThere G layer) (s : Work V S) :
    (layerForward G o ops layer pos s).1.2.kv = (layerForward G.host o ops layer pos s).1.2.kv := by
  obtain ⟨tq, hq⟩ := hthere.query
  obtain ⟨tk, hk⟩ := hthere.key
  obtain ⟨tv, hv⟩ := hthere.value
  rw [layerForward_split ho hq, layerForward_split (G := G.host) ho hq, afterAttention_framed.kv,
    afterAttention_framed.kv, beforeOutput_agree ho hk hv s]

/-- With several experts `ffn_layer` makes no projection. -/
theorem afterAttention_experts (hexperts : 1 < G.cfg.nExpert) (s : Work V S) :
    (afterAttention G o ops layer s).1 =
      (moeFfnLayer G o ops layer (outputStage G o ops layer s).1.2).1 := by
  unfold afterAttention ffnLayer
  rw [if_pos hexperts, Logged.bind_value, Logged.bind_value]
  unfold Logged.onlyIf
  split <;> rfl

theorem moeGoes_of_from {x : V} (h : MoeGoesFrom G.file G.cfg ops layer x) :
    MoeGoes G.file G.cfg layer := by
  obtain ⟨t, ht, hst, hused, hall⟩ := h
  exact ⟨t, ht, hst, hused, _, hall⟩

theorem moeFfnLayer_fails (ho : DeviceOnly o) (h : ¬ MoeGoes G.file G.cfg layer) (s : Work V S) :
    (moeFfnLayer G o ops layer s).1.1 ≠ .ok :=
  fun hok => h (moeGoes_of_from ((moeFfnLayer_goes ho s).1.1 hok))

theorem afterAttention_refines (ops : Ops V S) (ho : DeviceOnly o) (hvk : G.vk = true) (hthere : LayerThere G layer)
    (h : PerOpSound G layer) (s : Work V S) :
    ((afterAttention G o ops layer s).1.1 = .ok ↔
        (afterAttention G.host o ops layer s).1.1 = .ok) ∧
      ((afterAttention G o ops layer s).1.1 = .ok →
        (afterAttention G o ops layer s).1.2.hidden =
          (afterAttention G.host o ops layer s).1.2.hidden) := by
  unfold PerOpSound at h
  by_cases hexperts : 1 < G.cfg.nExpert
  · rw [if_pos hexperts] at h
    rw [afterAttention_experts hexperts, afterAttention_experts (G := G.host) hexperts]
    by_cases hdeferred : deferred G = true
    · have hfails := @moeFfnLayer_fails K V S G o ops layer ho (h hdeferred)
      have hfails' := @moeFfnLayer_fails K V S G.host o ops layer ho (h hdeferred)
      exact ⟨iff_of_false (hfails _) (hfails' _), fun hok => absurd hok (hfails _)⟩
    · rw [Bool.not_eq_true] at hdeferred
      obtain ⟨t, hout⟩ := hthere.output
      have hsame : (outputStage G o ops layer s).1 = (outputStage G.host o ops layer s).1 :=
        (outputStage_projects ho hout hdeferred s).trans
          (outputStage_projects (G := G.host) ho hout host_deferred s).symm
      rw [hsame, moeFfnLayer_agree ho]
      exact ⟨Iff.rfl, fun _ => rfl⟩
  · rw [if_neg hexperts] at h
    have hdevice := afterAttention_sound ops ho hthere hvk (Nat.not_lt.1 hexperts) h s
    have hhost := afterAttention_host ops ho hthere (Nat.not_lt.1 hexperts) s
    exact ⟨iff_of_true hdevice.1 hhost.1, fun _ => hdevice.2.trans hhost.2.symm⟩

/-- Under the condition a layer with a device refines the layer without one. -/
theorem refinesHost_of_sound (hvk : G.vk = true) (hthere : LayerThere G layer)
    (h : PerOpSound G layer) : RefinesHost G layer := by
  intro V S ops o pos s ho
  obtain ⟨tq, hq⟩ := hthere.query
  obtain ⟨tk, hk⟩ := hthere.key
  obtain ⟨tv, hv⟩ := hthere.value
  have hkv := @layerForward_kv K V S G o ops layer pos ho hthere s
  have hsplit := @layerForward_split K V S G o ops layer pos ho tq hq s
  have hhost := @layerForward_split K V S G.host o ops layer pos ho tq hq s
  rw [← beforeOutput_agree ho hk hv s] at hhost
  obtain ⟨hstatus, hhidden⟩ := afterAttention_refines ops ho hvk hthere h
    (beforeOutput G o ops layer pos tq s).1.2
  rw [← hsplit, ← hhost] at hstatus hhidden
  exact ⟨hstatus, hhidden, hkv⟩

end Runs

end VgEngine.Decode

import VgEngine.Decode.PerOpRefines

/-! Nothing of the condition can be left out: interpretations in the natural numbers that count the
projections, the norms and the adapters of a layer tell the two runs apart. -/
namespace VgEngine.Decode
open Lib Bytes Gguf Model

/-- Sums of natural numbers. The products, the norms and the adapters are left open; the experts
add nothing, and the halves of a dense block are two numbers. -/
def tallyOps (matmul : Matmul → Nat → Nat) (junk : Nat) (norm lora : List UInt8 → Nat → Nat)
    (gated : Nat) : Ops Nat Unit where
  junk := junk
  zero := 0
  add x y := x + y
  rmsnorm := norm
  matmul := matmul
  lora name _ _ _ y := lora name y
  bias _ x := x
  headNorm _ _ x := x
  rope _ _ _ _ x := x
  swiglu _ _ := gated
  gelu _ := 0
  greater _ _ _ := false
  addExpert _ _ _ _ _ := 0
  addShared _ _ acc _ := acc
  evict _ _ _ := ()
  pageMissing _ _ _ := false
  addPage _ _ _ _ _ _ := ()
  writeRow _ _ _ _ _ _ := ()
  attend _ _ _ _ _ _ := 0
  embed _ := 0
  logits _ x := x
  softcap x := x
  dense _ x _ := (x, ())
  denseLogits x := x

def tallyWork : Work Nat Unit := ⟨0, 0, 0, 0, 0, (), 0, 0, 0, none⟩

/-- No call of the device succeeds. -/
def noDevice : Outcomes := fun c => if c.use = .device then .io else .ok

/-- Of the device only the fused block of a dense layer succeeds. -/
def fusedOnly : Outcomes := fun c => if c.use = .device ∧ c.place ≠ .fusedGate then .io else .ok

theorem noDevice_deviceOnly : DeviceOnly noDevice := fun _ h => if_neg h

theorem fusedOnly_deviceOnly : DeviceOnly fusedOnly := fun _ h => if_neg fun hc => h hc.1

section Tallies

variable {K : Type*} {G : Graph K} {layer : Nat} {f : Matmul → Nat} {junk gated : Nat}
variable {norm lora : List UInt8 → Nat → Nat}

/-- The interpretations whose products do not look at the vector. -/
abbrev flatOps (f : Matmul → Nat) (junk : Nat) (norm lora : List UInt8 → Nat → Nat) : Ops Nat Unit :=
  tallyOps (fun m _ => f m) junk norm lora 0

theorem productOf_flat (g : VgGguf) (name : List UInt8) (outDim inDim x : Nat) :
    productOf g (flatOps f junk norm lora) name outDim inDim x =
      productOf g (flatOps f junk norm lora) name outDim inDim 0 := rfl

theorem plainProjected_flat (w : Work Nat Unit) :
    plainProjected G (flatOps f junk norm lora) layer w =
      w.res + plainProjection G (flatOps f junk norm lora) layer 0 := rfl

theorem projected_flat (w : Work Nat Unit) : projected G (flatOps f junk norm lora) layer w =
    w.res + projection G (flatOps f junk norm lora) layer 0 := rfl

theorem blockDelta_flat (h : Nat) : blockDelta G (flatOps f junk norm lora) layer h =
    blockDelta G (flatOps f junk norm lora) layer 0 := by
  unfold blockDelta
  dsimp only
  split
  · unfold routedDelta
    split <;> rfl
  · unfold denseDelta denseHalf
    dsimp only
    split <;> rfl

theorem heads_flat {head : Option Nat} {h h' : Nat}
    (hhead : Heads G (flatOps f junk norm lora) layer head h) :
    Heads G (flatOps f junk norm lora) layer head h' := hhead

theorem behind_flat (h : Nat) : behind G noDevice (flatOps f junk norm lora) layer h =
    h + blockDelta G (flatOps f junk norm lora) layer 0 := by
  have hblock : fusedBlock G noDevice layer = false := by
    simp [fusedBlock, fusedFfnRuns, works, noDevice]
  unfold behind
  rw [hblock, if_neg Bool.false_ne_true, blockDelta_flat]
  rfl

/-- How often a fused head or tail makes the projection on the host. -/
def plainCount (G : Graph K) (layer : Nat) : Nat :=
  (if moeFusedHeadOk G then 1 else 0) +
    if G.layerTail && (tailTensors G allOk layer).isSome then 1 else 0

/-- What `ffn_layer` makes of a hidden state, where no call of the device succeeds. -/
theorem ffnRest_tally (hvk : G.vk = true) (hdense : DenseThere G layer) {head : Option Nat}
    {s : Work Nat Unit} {h : Nat} (hhead : Heads G (flatOps f junk norm lora) layer head h)
    (hres : s.res = s.hidden) :
    (ffnRest G noDevice (flatOps f junk norm lora) layer head s).1.2.hidden = s.hidden +
      (if G.layerTail && (tailTensors G allOk layer).isSome then
        plainProjection G (flatOps f junk norm lora) layer 0 else 0) +
      blockDelta G (flatOps f junk norm lora) layer 0 := by
  by_cases htail : (G.layerTail && (tailTensors G allOk layer).isSome) = true
  · obtain ⟨hon, hsome⟩ := Bool.and_eq_true_iff.1 htail
    obtain ⟨t, ht⟩ := Option.isSome_iff_exists.1 hsome
    have hfused : fusedTail G noDevice layer = false := by
      simp [fusedTail, works, noDevice]
    rw [(ffnRest_there _ noDevice_deviceOnly hdense hvk hon ((tailTensors_some .allOk).1 ht)
      (heads_flat hhead)).2, hfused, if_neg Bool.false_ne_true, behind_flat, plainProjected_flat,
      hres, if_pos htail]
  · rw [(ffnRest_missing noDevice_deviceOnly hdense (heads_flat hhead) hres ?_).2, behind_flat,
      if_neg htail, Nat.add_zero]
    refine tailStage_missing noDevice_deviceOnly fun hon _ => Option.not_isSome_iff_eq_none.1 ?_
    rw [hon, Bool.true_and] at htail
    exact htail

/-- The projections of a layer are counted on top of the residual. -/
theorem afterAttention_tally (hvk : G.vk = true) (hthere : LayerThere G layer)
    (hexperts : G.cfg.nExpert ≤ 1) (s : Work Nat Unit) :
    (afterAttention G noDevice (flatOps f junk norm lora) layer s).1.2.hidden = s.res +
      ((if deferred G then 0 else projection G (flatOps f junk norm lora) layer 0) +
        plainCount G layer * plainProjection G (flatOps f junk norm lora) layer 0) +
      blockDelta G (flatOps f junk norm lora) layer 0 := by
  obtain ⟨t, hout⟩ := hthere.output
  have hdense := hthere.dense hexperts
  unfold plainCount
  by_cases hhead : moeFusedHeadOk G = true
  · have hdeferred : deferred G = true := by
      unfold deferred
      rw [hhead, Bool.true_or]
    obtain ⟨head, hvalue, hmade⟩ := afterAttention_head (flatOps f junk norm lora)
      noDevice_deviceOnly hout hhead hexperts s
    rw [hvalue, ffnRest_tally hvk hdense hmade rfl, plainProjected_flat, if_pos hdeferred,
      if_pos hhead]
    dsimp only
    split <;> omega
  · rw [if_neg hhead]
    rw [Bool.not_eq_true] at hhead
    by_cases hdeferred : deferred G = true
    · rw [afterAttention_left hhead hdeferred hexperts, ffnRest_tally (h := 0) hvk hdense .none rfl,
        if_pos hdeferred]
      dsimp only
      split <;> omega
    · rw [if_neg hdeferred]
      rw [Bool.not_eq_true] at hdeferred
      rw [afterAttention_projected noDevice_deviceOnly hout hdeferred hexperts,
        ffnRest_tally (h := 0) hvk hdense .none rfl, projected_flat]
      dsimp only
      split <;> omega

/-- Behind the attention the two runs have to agree too. -/
theorem RefinesHost.after (h : RefinesHost G layer) (hthere : LayerThere G layer) {V S : Type}
    (ops : Ops V S) {o : Outcomes} (ho : DeviceOnly o) {tq : GgufTensor}
    (hq : find G.file (blk layer "attn_q.weight") = some tq) (s : Work V S) :
    let s' := (beforeOutput G o ops layer 0 tq s).1.2
    LayerRefines (afterAttention G o ops layer s').1 (afterAttention G.host o ops layer s').1 := by
  obtain ⟨tk, hk⟩ := hthere.key
  obtain ⟨tv, hv⟩ := hthere.value
  have hrefines := h V S ops o 0 s ho
  rw [layerForward_split ho hq, layerForward_split (G := G.host) ho hq,
    ← beforeOutput_agree ho hk hv s] at hrefines
  exact hrefines

/-- The projections of the device add up to the one of the host. -/
theorem RefinesHost.tally (h : RefinesHost G layer) (hvk : G.vk = true) (hthere : LayerThere G layer)
    (hexperts : G.cfg.nExpert ≤ 1) (f : Matmul → Nat) (junk : Nat)
    (norm lora : List UInt8 → Nat → Nat) :
    (if deferred G then 0 else projection G (flatOps f junk norm lora) layer 0) +
      plainCount G layer * plainProjection G (flatOps f junk norm lora) layer 0 =
      projection G (flatOps f junk norm lora) layer 0 := by
  obtain ⟨tq, hq⟩ := hthere.query
  have hrefines := h.after hthere (flatOps f junk norm lora) noDevice_deviceOnly hq tallyWork
  generalize (beforeOutput G noDevice (flatOps f junk norm lora) layer 0 tq tallyWork).1.2 = s
    at hrefines
  have hhost := afterAttention_host (flatOps f junk norm lora) noDevice_deviceOnly hthere
    hexperts s
  have hhidden := hrefines.hidden (hrefines.status.2 hhost.1)
  rw [hhost.2, afterAttention_tally hvk hthere hexperts, blockDelta_flat, projected_flat] at hhidden
  change _ = s.res + projection G (flatOps f junk norm lora) layer 0 +
    blockDelta G (flatOps f junk norm lora) layer 0 at hhidden
  omega

theorem productOf_ones (g : VgGguf) (name : List UInt8) (outDim inDim x : Nat) :
    productOf g (flatOps (fun _ => 1) 1 norm lora) name outDim inDim x = 1 := by
  unfold productOf product
  split
  · split <;> rfl
  · rfl

theorem plainProjection_ones :
    plainProjection G (flatOps (fun _ => 1) 1 norm lora) layer 0 = 1 :=
  productOf_ones ..

theorem projection_ones : projection G (flatOps (fun _ => 1) 1 norm lora) layer 0 =
    if normBehind G (blk layer "attn_post_norm.weight") then
      norm (blk layer "attn_post_norm.weight")
        (if G.lora then lora (blk layer "attn_output.weight") 1 else 1)
    else if G.lora then lora (blk layer "attn_output.weight") 1 else 1 := by
  unfold projection normedBehind normedShaped normBehind loraApply
  dsimp only
  rw [productOf_ones]
  cases G.cfg.hasPostNorm with
  | true => rfl
  | false => rfl

theorem normedShaped_kept {ops : Ops Nat Unit} (hnorm : ∀ name x, ops.rmsnorm name x = x)
    (name : List UInt8) (width x : Nat) : normedShaped G.file ops name width x = x := by
  unfold normedShaped
  rw [hnorm, ite_self]

theorem normedBehind_kept {ops : Ops Nat Unit} (hnorm : ∀ name x, ops.rmsnorm name x = x)
    (name : List UInt8) (x : Nat) : normedBehind G ops name x = x := by
  unfold normedBehind
  rw [normedShaped_kept hnorm, ite_self]

theorem plainCount_le : plainCount G layer ≤ 2 := by
  unfold plainCount
  split <;> split <;> omega

theorem RefinesHost.withoutLora (h : RefinesHost G layer) (hvk : G.vk = true) (hthere : LayerThere G layer)
    (hexperts : G.cfg.nExpert ≤ 1) (hdeferred : deferred G = true) : G.lora = false := by
  by_contra hlora
  rw [Bool.not_eq_false] at hlora
  have htally := h.tally hvk hthere hexperts (fun _ => 1) 1 (fun _ x => x) fun _ y => y + 1
  have hcount : plainCount G layer ≤ 1 := by
    have hhead : moeFusedHeadOk G = false := by simp [moeFusedHeadOk, hlora]
    unfold plainCount
    rw [hhead, if_neg Bool.false_ne_true, Nat.zero_add]
    split <;> omega
  rw [if_pos hdeferred, plainProjection_ones, projection_ones, hlora, if_pos rfl, ite_self] at htally
  omega

theorem RefinesHost.plain (h : RefinesHost G layer) (hvk : G.vk = true) (hthere : LayerThere G layer)
    (hexperts : G.cfg.nExpert ≤ 1) (hdeferred : deferred G = true) : PlainSound G layer := by
  constructor
  case norm =>
    by_contra hnorm
    have htally := h.tally hvk hthere hexperts (fun _ => 1) 1 (fun _ _ => 5) fun _ y => y
    have hcount := @plainCount_le K G layer
    rw [Bool.not_eq_false] at hnorm
    rw [if_pos hdeferred, plainProjection_ones, projection_ones, if_pos hnorm] at htally
    omega
  case width =>
    by_contra hwidth
    push Not at hwidth
    obtain ⟨hne, t, ht, hone⟩ := hwidth
    have htally := h.tally hvk hthere hexperts
      (fun m => if m.inDim = attentionDim G then 1 else 3) 7 (fun _ x => x) fun _ y => y
    have hcount := @plainCount_le K G layer
    have hplain : plainProjection G (flatOps (fun m => if m.inDim = attentionDim G then 1 else 3) 7
        (fun _ x => x) fun _ y => y) layer 0 =
        if cpuStatus (weight (blk layer "attn_output.weight") t G.cfg.nEmbd (attentionDim G)) = .ok
        then 1 else 7 := by
      unfold plainProjection
      rw [productOf_found ht]
      unfold product
      split
      · exact if_pos rfl
      · rfl
    have hprojection : projection G (flatOps
        (fun m => if m.inDim = attentionDim G then 1 else 3) 7 (fun _ x => x) fun _ y => y) layer 0 =
        if cpuStatus (weight (blk layer "attn_output.weight") t G.cfg.nEmbd
          (outputWidth G.file G.cfg layer)) = .ok then 3 else 7 := by
      unfold projection loraApply
      dsimp only
      rw [normedBehind_kept fun _ _ => rfl, productOf_found ht,
        h.withoutLora hvk hthere hexperts hdeferred, if_neg Bool.false_ne_true]
      unfold product
      split
      · exact if_neg (Ne.symm hne)
      · rfl
    rw [if_pos hdeferred, hplain, hprojection] at htally
    by_cases hatt : cpuStatus (weight (blk layer "attn_output.weight") t G.cfg.nEmbd
      (attentionDim G)) = .ok
    · rw [if_pos hatt] at htally
      split at htally <;> omega
    · rw [if_neg hatt, if_pos (hone hatt)] at htally
      omega

theorem RefinesHost.tail (h : RefinesHost G layer) (hvk : G.vk = true) (hthere : LayerThere G layer)
    (hexperts : G.cfg.nExpert ≤ 1) (hon : G.layerTail = true) :
    (tailTensors G allOk layer).isSome = !hasTensor G "blk.0.ffn_gate_inp.weight" := by
  have htally := h.tally hvk hthere hexperts (fun _ => 1) 1 (fun _ x => x) fun _ y => y
  rw [plainProjection_ones, projection_ones, ite_self, ite_self] at htally
  unfold plainCount deferred moeFusedHeadOk layerTailWillFuse at htally
  rw [hon, hvk] at htally
  cases hrouter : hasTensor G "blk.0.ffn_gate_inp.weight" <;>
    cases htail : (tailTensors G allOk layer).isSome <;>
    cases hlora : G.lora <;>
    simp_all

theorem productOf_q8 {V S : Type} (ops : Ops V S) {g : VgGguf} {name : List UInt8}
    {outDim inDim : Nat} (h : q8Weight g name = true) (haccepts : q8Accepts outDim inDim = true) :
    ∃ t, ∀ x, productOf g ops name outDim inDim x = ops.matmul (weight name t outDim inDim) x := by
  obtain ⟨t, ht, htype⟩ := (Option.any_eq_true _ _).1 h
  refine ⟨t, fun x => ?_⟩
  rw [productOf_found ht, product_q8 x (of_decide_eq_true htype) haccepts]

/-- The interpretations that let only the down projection through. -/
abbrev downOps (layer : Nat) (norm lora : List UInt8 → Nat → Nat) (gated : Nat) : Ops Nat Unit :=
  tallyOps (fun m x => if m.name = blk layer "ffn_down.weight" then x else 0) 0 norm lora gated

theorem productOf_down (h : fusesFfn G layer = true) (x : Nat) :
    productOf G.file (downOps layer norm lora gated) (blk layer "ffn_down.weight") G.cfg.nEmbd
      G.cfg.nFf x = x := by
  unfold fusesFfn at h
  simp only [Bool.and_eq_true] at h
  obtain ⟨t, ht⟩ := productOf_q8 (downOps layer norm lora gated) h.1.1.2 h.2
  rw [ht]
  exact if_pos rfl

theorem gatedDelta_down (h : fusesFfn G layer = true) (x : Nat) :
    gatedDelta G (downOps layer norm lora gated) layer x = gated :=
  productOf_down h _

/-- Without a router, and where the tail of the layer is there, some run of the device adds the
products of a gated block alone. -/
theorem gated_run {V S : Type} (ops : Ops V S) (hvk : G.vk = true) (hthere : LayerThere G layer)
    (hexperts : G.cfg.nExpert ≤ 1) (hrouter : hasTensor G "blk.0.ffn_gate_inp.weight" = false)
    (htail : G.layerTail = true → (tailTensors G allOk layer).isSome = true)
    (hplain : G.layerTail = true → ∀ w : Work V S,
      plainProjected G ops layer w = projected G ops layer w)
    (hfuses : G.layerTail = true ∧ fusesTail G layer = true ∨
      G.cfg.hasGateUp = true ∧ fusesFfn G layer = true) :
    ∃ o, DeviceOnly o ∧ ∀ s : Work V S, (afterAttention G o ops layer s).1.2.hidden =
      ops.add (projected G ops layer s) (gatedDelta G ops layer
        (normed G.file ops (blk layer "ffn_norm.weight") (projected G ops layer s))) := by
  obtain ⟨t, hout⟩ := hthere.output
  have hdense := hthere.dense hexperts
  have hhead : moeFusedHeadOk G = false := by simp [moeFusedHeadOk, hrouter]
  have hdeferred : deferred G = G.layerTail := by
    simp [deferred, hhead, layerTailWillFuse, hvk, hrouter]
  have hblock (hgate : G.cfg.hasGateUp = true) (hffn : fusesFfn G layer = true) :
      fusedBlock G fusedOnly layer = true := by
    simp [fusedBlock, fusedFfnRuns, works, fusedOnly, hrouter, hgate, hffn, hvk]
  have hfused : fusedTail G fusedOnly layer = false := by simp [fusedTail, works, fusedOnly]
  by_cases hon : G.layerTail = true
  · obtain ⟨tail, ht⟩ := Option.isSome_iff_exists.1 (htail hon)
    have hvalue {o : Outcomes} (ho : DeviceOnly o) (s : Work V S) :=
      ffnRest_there ops ho hdense hvk hon ((tailTensors_some .allOk).1 ht)
        (s := { s with hidden := s.res, res := s.res }) .none
    have hsame (s : Work V S) :
        plainProjected G ops layer { s with hidden := s.res, res := s.res } =
          projected G ops layer s := hplain hon s
    rcases hfuses with ⟨-, hfuses⟩ | ⟨hgate, hffn⟩
    · refine ⟨allOk, .allOk, fun s => ?_⟩
      have hruns : fusedTail G allOk layer = true := by simp [fusedTail, works, allOk, hfuses]
      rw [afterAttention_left hhead (hdeferred.trans hon) hexperts, (hvalue .allOk s).2, hruns,
        if_pos rfl, hsame]
    · refine ⟨fusedOnly, fusedOnly_deviceOnly, fun s => ?_⟩
      rw [afterAttention_left hhead (hdeferred.trans hon) hexperts,
        (hvalue fusedOnly_deviceOnly s).2, hfused, if_neg Bool.false_ne_true, hsame]
      unfold behind
      rw [hblock hgate hffn, if_pos rfl]
  · obtain ⟨hgate, hffn⟩ := hfuses.resolve_left fun hc => hon hc.1
    rw [Bool.not_eq_true] at hon
    refine ⟨fusedOnly, fusedOnly_deviceOnly, fun s => ?_⟩
    rw [afterAttention_projected fusedOnly_deviceOnly hout (hdeferred.trans hon) hexperts,
      (ffnRest_missing fusedOnly_deviceOnly hdense .none rfl ?_).2]
    · unfold behind
      rw [hblock hgate hffn, if_pos rfl]
    · exact tailStage_missing fusedOnly_deviceOnly fun hc => absurd hc (by simp [hon])

/-- Without a router the products of a gated block are what the host adds. -/
theorem RefinesHost.fusedDelta (h : RefinesHost G layer) (hvk : G.vk = true)
    (hthere : LayerThere G layer) (hexperts : G.cfg.nExpert ≤ 1)
    (hrouter : hasTensor G "blk.0.ffn_gate_inp.weight" = false) (ops : Ops Nat Unit)
    (hadd : ∀ x y, ops.add x y = x + y)
    (hfuses : G.layerTail = true ∧ fusesTail G layer = true ∨
      G.cfg.hasGateUp = true ∧ fusesFfn G layer = true) :
    ∃ x, gatedDelta G ops layer x = denseDelta G ops layer x := by
  obtain ⟨tq, hq⟩ := hthere.query
  have hleft (hon : G.layerTail = true) : deferred G = true := by
    simp [deferred, layerTailWillFuse, hon, hvk, hrouter]
  obtain ⟨o, ho, hdevice⟩ := gated_run ops hvk hthere hexperts hrouter
    (fun hon => by rw [h.tail hvk hthere hexperts hon, hrouter]; rfl)
    (fun hon => plain_projected (h.withoutLora hvk hthere hexperts (hleft hon))
      (h.plain hvk hthere hexperts (hleft hon))) hfuses
  have hrefines := h.after hthere ops ho hq tallyWork
  generalize (beforeOutput G o ops layer 0 tq tallyWork).1.2 = s at hrefines
  have hhost := afterAttention_host ops ho hthere hexperts s
  have hhidden := hrefines.hidden (hrefines.status.2 hhost.1)
  rw [hdevice, hhost.2, hadd, hadd, Nat.add_left_cancel_iff] at hhidden
  unfold blockDelta at hhidden
  rw [hrouter, if_neg Bool.false_ne_true] at hhidden
  exact ⟨_, hhidden⟩

theorem RefinesHost.gate (h : RefinesHost G layer) (hvk : G.vk = true) (hthere : LayerThere G layer)
    (hexperts : G.cfg.nExpert ≤ 1) (hon : G.layerTail = true)
    (hrouter : hasTensor G "blk.0.ffn_gate_inp.weight" = false) (hfuses : fusesTail G layer = true) :
    G.cfg.hasGateUp = true := by
  by_contra hgate
  have hffn := fusesFfn_of_tail hfuses
  obtain ⟨x, hx⟩ := h.fusedDelta hvk hthere hexperts hrouter
    (downOps layer (fun _ x => x) (fun _ y => y) 1) (fun _ _ => rfl) (.inl ⟨hon, hfuses⟩)
  have hlora := h.withoutLora hvk hthere hexperts
    (by simp [deferred, layerTailWillFuse, hon, hvk, hrouter])
  rw [gatedDelta_down hffn] at hx
  unfold denseDelta downDelta denseHalf subNormed loraApply at hx
  dsimp only at hx
  rw [if_neg hgate, normedShaped_kept fun _ _ => rfl, ite_self, normedBehind_kept fun _ _ => rfl,
    hlora, if_neg Bool.false_ne_true, productOf_down hffn] at hx
  exact Nat.one_ne_zero hx

theorem RefinesHost.gatedSound (h : RefinesHost G layer) (hvk : G.vk = true) (hthere : LayerThere G layer)
    (hexperts : G.cfg.nExpert ≤ 1) (hrouter : hasTensor G "blk.0.ffn_gate_inp.weight" = false)
    (hgate : G.cfg.hasGateUp = true) (hffn : fusesFfn G layer = true) : GatedSound G layer := by
  have hdelta (norm lora : List UInt8 → Nat → Nat) :
      ∃ x, 0 = denseDelta G (downOps layer norm lora 0) layer x := by
    obtain ⟨x, hx⟩ := h.fusedDelta hvk hthere hexperts hrouter (downOps layer norm lora 0)
      (fun _ _ => rfl) (.inr ⟨hgate, hffn⟩)
    rw [gatedDelta_down hffn] at hx
    exact ⟨x, hx⟩
  have hlora : G.lora = false := by
    by_contra hlora
    rw [Bool.not_eq_false] at hlora
    obtain ⟨x, hx⟩ := hdelta (fun _ x => x) fun _ y => y + 1
    unfold denseDelta downDelta loraApply at hx
    dsimp only at hx
    rw [normedBehind_kept fun _ _ => rfl, hlora, if_pos rfl] at hx
    exact Nat.succ_ne_zero _ hx.symm
  obtain ⟨x, hx⟩ := hdelta (fun _ _ => 1) fun _ y => y
  unfold denseDelta downDelta loraApply at hx
  dsimp only at hx
  rw [hlora, if_neg Bool.false_ne_true, productOf_down hffn] at hx
  refine ⟨hlora, ?_, ?_⟩
  · by_contra hsub
    rw [Bool.not_eq_false, Bool.and_eq_true] at hsub
    have hone (y : Nat) : subNormed G (downOps layer (fun _ _ => 1) (fun _ y => y) 0) layer y = 1 := by
      unfold subNormed normedShaped
      rw [if_pos hsub.1, if_pos hsub.2]
      rfl
    have hkept (name : List UInt8) :
        normedBehind G (downOps layer (fun _ _ => 1) (fun _ y => y) 0) name 1 = 1 := by
      unfold normedBehind normedShaped
      rw [show (downOps layer (fun _ _ => 1) (fun _ y => y) 0).rmsnorm name 1 = 1 from rfl, ite_self,
        ite_self]
    rw [hone, hkept] at hx
    exact Nat.zero_ne_one hx
  · by_contra hnorm
    rw [Bool.not_eq_false] at hnorm
    unfold normBehind at hnorm
    rw [Bool.and_eq_true] at hnorm
    unfold normedBehind normedShaped at hx
    rw [if_pos hnorm.1, if_pos hnorm.2] at hx
    exact Nat.zero_ne_one hx

/-- Up to the output projection a layer keeps its input in `res`, and its norm in `hidden`. -/
theorem beforeOutput_keeps {V S : Type} {ops : Ops V S} {o : Outcomes} (ho : DeviceOnly o) {pos : Nat}
    (tq : GgufTensor) (s : Work V S) :
    (beforeOutput G o ops layer pos tq s).1.2.res = s.hidden ∧
      (beforeOutput G o ops layer pos tq s).1.2.hidden =
        normed G.file ops (blk layer "attn_norm.weight") s.hidden := by
  have haside : Aside (fun w : Work V S => (w.res, w.hidden)) :=
    ⟨fun _ _ => rfl, fun _ _ => rfl, fun _ _ => rfl, fun _ _ => rfl⟩
  have hstore (k v : Option V) (kvd : Nat) : Logged.Frames (fun w : Work V S => (w.res, w.hidden))
      (storeRow G o ops layer pos k v kvd) := by
    have hpage : Logged.Frames (fun w : Work V S => (w.res, w.hidden))
        (addPage o ops layer pos kvd) := by
      unfold addPage
      refine Logged.Frames.get.bind fun w => .ite ?_ (.pure _)
      refine allocate_stateless.frames.bind fun keys => ?_
      exact allocate_stateless.frames.bind fun values => .modify fun _ => rfl
    unfold storeRow
    refine Logged.Frames.bind (.onlyIf (.modify fun _ => rfl)) fun _ => .ite ?_ (.pure _)
    exact hpage.bind fun _ => .modify fun _ => rfl
  have hpair {m : Exec V S Unit} (hm : Logged.Frames (fun w => (w.res, w.hidden)) m)
      (w : Work V S) : (m w).1.2.res = w.res ∧ (m w).1.2.hidden = w.hidden :=
    ⟨congrArg Prod.fst (hm w), congrArg Prod.snd (hm w)⟩
  unfold beforeOutput
  rw [Logged.bind_value, Logged.get_value]
  dsimp only
  rw [Logged.bind_value, Logged.modify_value]
  dsimp only
  rw [(normalise_normed ho _).value, Logged.bind_value, Logged.modify_value]
  refine hpair ?_ _
  refine (growQkv_frames haside _ _).bind fun _ => ?_
  obtain ⟨b, hb, -⟩ := @batchProjections_batched K V S G o ops layer tq ho
    (normed G.file ops (blk layer "attn_norm.weight") s.hidden)
  refine (Logged.Stateless.frames ⟨b, hb⟩).bind fun batch => ?_
  refine (queryStage_frames haside _ _ _).bind fun _ => ?_
  refine (keyStage_frames haside _ _).bind fun k => ?_
  refine (valueStage_frames haside _ _ _).bind fun v => ?_
  exact (hstore _ _ _).bind fun _ => attendStage_frames haside _

/-- The interpretation under which a block leaves only its input, and every product is one. -/
def lastOps (greater : Nat → Nat → Bool) : Ops Nat Unit :=
  { tallyOps (fun _ _ => 1) 1 (fun _ x => x) (fun _ y => y) 0 with
    add := fun _ y => y
    greater := fun _ => greater }

theorem RefinesHost.moe (h : RefinesHost G layer) (hthere : LayerThere G layer)
    (hexperts : 1 < G.cfg.nExpert) (hdeferred : deferred G = true) :
    ¬ MoeGoes G.file G.cfg layer := by
  rintro ⟨t, ht, hst, hused, greater, hall⟩
  obtain ⟨tq, hq⟩ := hthere.query
  obtain ⟨tout, hout⟩ := hthere.output
  have hrefines := h.after hthere (lastOps greater) .allOk hq tallyWork
  have hkeeps := @beforeOutput_keeps K G layer Nat Unit (lastOps greater) allOk .allOk 0 tq tallyWork
  have hnormed (name : List UInt8) (x : Nat) : normed G.file (lastOps greater) name x = x := by
    unfold normed
    exact ite_self x
  rw [hnormed] at hkeeps
  generalize (beforeOutput G allOk (lastOps greater) layer 0 tq tallyWork).1.2 = s
    at hrefines hkeeps
  dsimp only at hrefines
  have hlast {H : Graph K} (hsame : H.file = G.file ∧ H.cfg = G.cfg) (w : Work Nat Unit) :
      (moeFfnLayer H allOk (lastOps greater) layer w).1.1 = .ok ∧
        (moeFfnLayer H allOk (lastOps greater) layer w).1.2.hidden = w.hidden := by
    have hvalue := @moeFfnLayer_goes K Nat Unit H allOk (lastOps greater) layer .allOk w
    rw [hsame.1, hsame.2] at hvalue
    have hok := hvalue.1.2 ⟨t, ht, hst, hused, hall⟩
    obtain ⟨y, hy⟩ := hvalue.2 hok
    exact ⟨hok, hy⟩
  rw [afterAttention_experts hexperts, afterAttention_experts (G := G.host) hexperts] at hrefines
  have hhidden := hrefines.hidden (hlast ⟨rfl, rfl⟩ _).1
  rw [(hlast ⟨rfl, rfl⟩ _).2, (hlast (H := G.host) ⟨rfl, rfl⟩ _).2,
    outputStage_projects (G := G.host) .allOk hout host_deferred s] at hhidden
  have hleft : (outputStage G allOk (lastOps greater) layer s).1.2.hidden = 0 := by
    unfold outputStage
    by_cases hhead : moeFusedHeadOk G = true
    · rw [if_pos hhead]
      exact hkeeps.2
    · unfold deferred at hdeferred
      rw [Bool.not_eq_true] at hhead
      rw [hhead, Bool.false_or] at hdeferred
      rw [if_neg (by simp [hhead]), if_pos hdeferred]
      exact hkeeps.1
  have hone : projected G.host (lastOps greater) layer s = 1 := by
    change projection G (lastOps greater) layer s.att = 1
    have hproduct (m : Matmul) (x : Nat) : product (lastOps greater) m x = 1 := ite_self 1
    unfold projection loraApply
    dsimp only
    rw [normedBehind_kept fun _ _ => rfl, productOf_found hout, hproduct]
    exact ite_self 1
  rw [hleft, Logged.modify_value] at hhidden
  exact Nat.zero_ne_one (hhidden.trans hone)

/-- A layer that refines the one without a device meets the condition. -/
theorem perOpSound_of_refines (hvk : G.vk = true) (hthere : LayerThere G layer)
    (h : RefinesHost G layer) : PerOpSound G layer := by
  unfold PerOpSound
  split
  next hexperts => exact h.moe hthere hexperts
  next hexperts =>
    have hone := Nat.not_lt.1 hexperts
    exact ⟨fun hdeferred => ⟨h.withoutLora hvk hthere hone hdeferred,
        h.plain hvk hthere hone hdeferred⟩,
      h.tail hvk hthere hone, h.gate hvk hthere hone, h.gatedSound hvk hthere hone⟩

/-- For every accepted file: with a device a layer applies the operations that it applies without,
whichever calls of the device fail, exactly when no step of it is left out or made twice. -/
theorem layer_refinesHost_iff [Field K] [LinearOrder K] {strtof : List UInt8 → Option K}
    (hprobe : (modelProbe G.file).ok = true) (hload : loadConfig G.file strtof = some G.cfg)
    (hvk : G.vk = true) (hlayer : layer < G.cfg.nLayer) :
    RefinesHost G layer ↔ PerOpSound G layer := by
  have hthere := layerThere hprobe hload hlayer
  exact ⟨perOpSound_of_refines hvk hthere, refinesHost_of_sound hvk hthere⟩

end Tallies

section Example

/-- A graph with a device and no adapter. -/
def deviceGraph {K : Type*} (g : VgGguf) (cfg : ModelConfig K) : Graph K :=
  { cpuGraph g cfg with vk := true }

theorem layer_refinesHost_float : ∃ (g : VgGguf) (cfg : ModelConfig ℚ),
    parseIndex plainLibc floatNormFile = .ok g ∧ 0 < cfg.nLayer ∧
      (RefinesHost (deviceGraph g cfg) 0 ↔ PerOpSound (deviceGraph g cfg) 0) := by
  have haccept : (parseIndex plainLibc floatNormFile).toOption.any (fun g =>
      (modelProbe g).ok && (loadConfig g (fun _ => none)).any fun cfg : ModelConfig ℚ =>
        decide (0 < cfg.nLayer)) = true := by decide +kernel
  cases hparse : parseIndex plainLibc floatNormFile with
  | error e =>
    rw [hparse] at haccept
    cases haccept
  | ok g =>
    rw [hparse] at haccept
    obtain ⟨hprobe, haccept⟩ := Bool.and_eq_true_iff.1 haccept
    obtain ⟨cfg, hload⟩ := loadConfig_isSome (fun _ => none) hprobe
    rw [hload] at haccept
    have hlayer : 0 < cfg.nLayer := of_decide_eq_true haccept
    exact ⟨g, cfg, rfl, hlayer,
      layer_refinesHost_iff (G := deviceGraph g cfg) hprobe hload rfl hlayer⟩

/-- An accepted model without a gate loses the output projection on the device: the attention
leaves it to the fused tail, which asks for the gate. -/
theorem ungated_lostProjection :
    ¬ ∀ (env : Libc) (file : GgufFile) (g : VgGguf) (cfg : ModelConfig ℚ),
      parseIndex env file = .ok g → (modelProbe g).ok = true →
      loadConfig g (fun _ => none) = some cfg → ∀ layer < cfg.nLayer,
      RefinesHost (deviceGraph g cfg) layer := by
  intro hclaim
  let ops := tallyOps (fun _ _ => 1) 1 (fun _ x => x) (fun _ y => y) 0
  have haccept : (parseIndex plainLibc floatNormFile).toOption.any (fun g =>
      (modelProbe g).ok && (loadConfig g (fun _ => none)).any fun cfg : ModelConfig ℚ =>
        decide (0 < cfg.nLayer) &&
        (layerForward (deviceGraph g cfg) allOk ops 0 0 tallyWork).1.1 == .ok &&
        (layerForward (deviceGraph g cfg) allOk ops 0 0 tallyWork).1.2.hidden !=
          (layerForward (deviceGraph g cfg).host allOk ops 0 0 tallyWork).1.2.hidden) = true := by
    decide +kernel
  cases hparse : parseIndex plainLibc floatNormFile with
  | error e =>
    rw [hparse] at haccept
    cases haccept
  | ok g =>
    rw [hparse] at haccept
    obtain ⟨hprobe, haccept⟩ := Bool.and_eq_true_iff.1 haccept
    obtain ⟨cfg, hload⟩ := loadConfig_isSome (fun _ => none) hprobe
    rw [hload] at haccept
    simp only [Option.any_some, Bool.and_eq_true, decide_eq_true_eq, beq_iff_eq,
      bne_iff_ne] at haccept
    obtain ⟨⟨hlayer, hok⟩, hne⟩ := haccept
    have hrefines := hclaim plainLibc floatNormFile g cfg hparse hprobe hload 0 hlayer Nat Unit ops
      allOk 0 tallyWork .allOk
    exact hne (hrefines.hidden hok)

end Example

end VgEngine.Decode

import VgEngine.Decode.Passive
import VgEngine.Model.Probed

/-! The products that a decode issues on the CPU when no call fails, and the rows of its tensors
that they read. -/
namespace VgEngine.Decode
open Lib Bytes Gguf Model

/-- Every row that the product reads lies inside its tensor. -/
def Matmul.Inside (m : Matmul) : Prop :=
  m.offset + m.size ≤ m.tensor.nbytes ∧ ∀ q, quantInfo m.tensor.ggmlType = some q →
    m.outDim * (m.inDim / q.blockSize * q.bytesPerBlock) ≤ m.size

/-- The product reads no row outside its tensor: it is refused, or its rows are inside. -/
def Matmul.Fits (m : Matmul) : Prop := cpuStatus m = .ok → m.Inside

/-- The product is made, from rows inside its tensor. -/
def Matmul.Runs (m : Matmul) : Prop := cpuStatus m = .ok ∧ m.Inside

/-- The entry reads inside its tensor, and takes a feed-forward block of one kind. -/
def Event.Good (kind : FfnKind) : Event → Prop
  | .matmul _ m status => status = .ok → m.Inside
  | .ffn _ k => k = kind
  | _ => True

/-- No call fails. -/
abbrev allOk : Outcomes := fun _ => .ok

theorem passive_good (kind : FfnKind) : Passive allOk (Event.Good kind) := fun _ _ _ _ => trivial

section Calls

variable {K : Type*} {V S : Type} {g : Graph K} {ops : Ops V S} {kind : FfnKind}
variable {place : Place} {layer index : Nat}

theorem acquireWeight_found {name : List UInt8} {t : GgufTensor} (h : find g.file name = some t) :
    Logged.Meets (Event.Good kind) (· = .ok t) True
      (acquireWeight g allOk place layer index name : Exec V S _) := by
  unfold acquireWeight
  rw [h]
  apply Logged.Meets.of_logs
  · exact (Logged.Logs.log trivial).bind fun _ => .pure _
  · exact fun _ => rfl

theorem allocate_ready : Logged.Meets (Event.Good kind) (· = true) True
    (allocate allOk place layer index : Exec V S _) := by
  apply Logged.Meets.of_logs
  · exact (Logged.Logs.log trivial).bind fun _ => .pure _
  · exact fun _ => rfl

theorem cpuMatmul_meets (m : Matmul) (x : V) :
    Logged.Meets (Event.Good kind) (fun y => y.1 = cpuStatus m) m.Fits
      (cpuMatmul allOk ops place layer index m x : Exec V S _) := by
  intro s
  unfold cpuMatmul Matmul.Fits
  by_cases hst : cpuStatus m = .ok
  · rw [hst]
    by_cases hrow : hasRowKernel m.tensor.ggmlType = true
    · simp [hrow, Event.Good]
    · simp [hrow, Event.Good]
  · simp [hst, Event.Good]

end Calls

section Attention

variable {K : Type*} {V S : Type} {g : VgGguf} {cfg : ModelConfig K} {ops : Ops V S}
variable {kind : FfnKind} {layer pos : Nat}

theorem batchProjections_cpu (tq : GgufTensor) (qdim : Nat) (x : V) :
    (batchProjections (cpuGraph g cfg) allOk ops layer tq qdim x : Exec V S _) =
      pure ⟨false, none, none, none⟩ := by
  unfold batchProjections
  dsimp only
  split
  · simp [cpuGraph]
  · rfl

theorem project_meets {place biasPlace : Place} (h : biasPlace.reported = false) (bias : String)
    (m : Matmul) (x : V) : Logged.Meets (Event.Good kind) (fun _ => True) m.Fits
      (project (cpuGraph g cfg) allOk ops layer place biasPlace bias m false none x :
        Exec V S _) := by
  have hrows : Logged.Meets (Event.Good kind) (fun _ => True) m.Fits
      (projectRows (cpuGraph g cfg) allOk ops layer place m false none x : Exec V S _) :=
    (cpuMatmul_meets m x).last (fun _ => .pure _) fun _ _ _ => trivial
  refine .known allocate_ready fun ready hready => ?_
  rw [if_pos hready]
  apply hrows.last (fun y => ?_) fun _ _ _ => trivial
  exact (addBias_logs (passive_good kind) h _ _ y).bind fun _ => .pure _

theorem queryStage_meets (tq : GgufTensor) (x : V) :
    Logged.Meets (Event.Good kind) (fun _ => True)
      (weight (blk layer "attn_q.weight") tq (qDim g cfg layer) cfg.nEmbd).Fits
      (queryStage (cpuGraph g cfg) allOk ops layer pos tq ⟨false, none, none, none⟩ x :
        Exec V S _) := by
  unfold queryStage
  refine (project_meets rfl _ _ x).last (fun q => ?_) fun _ _ _ => trivial
  cases q with
  | none => exact .pure _
  | some q =>
    exact (Logged.Logs.foldlM (rotateHead_logs (passive_good kind) rfl _ _) _ q).bind
      fun _ => .modify _

theorem keyStage_meets {t : GgufTensor} (h : find g (blk layer "attn_k.weight") = some t) (x : V) :
    Logged.Meets (Event.Good kind) (fun r => r.2 = keyDim g cfg layer)
      (weight (blk layer "attn_k.weight") t (keyDim g cfg layer) cfg.nEmbd).Fits
      (keyStage (cpuGraph g cfg) allOk ops layer pos ⟨false, none, none, none⟩ x :
        Exec V S _) := by
  unfold keyStage
  refine .known (acquireWeight_found h) fun r hr => ?_
  rw [hr]
  refine .after (.onlyIf (growQkv_logs (passive_good kind) _ _)) fun _ => ?_
  refine (project_meets rfl _ _ x).last (fun k => ?_) fun k s _ => ?_
  · cases k with
    | none => exact .pure _
    | some k =>
      exact (Logged.Logs.foldlM (rotateHead_logs (passive_good kind) rfl _ _) _ k).bind
        fun _ => .pure _
  · cases k <;> rfl

theorem valueStage_meets {t : GgufTensor} (h : find g (blk layer "attn_v.weight") = some t)
    (x : V) : Logged.Meets (Event.Good kind) (fun _ => True)
      (weight (blk layer "attn_v.weight") t (kvDim g cfg layer) cfg.nEmbd).Fits
      (valueStage (cpuGraph g cfg) allOk ops layer ⟨false, none, none, none⟩
        (keyDim g cfg layer) x : Exec V S _) := by
  unfold valueStage
  refine .known (acquireWeight_found h) fun r hr => ?_
  rw [hr]
  refine .after (.onlyIf (growQkv_logs (passive_good kind) _ _)) fun _ => ?_
  exact (project_meets rfl _ _ x).last (fun v => .pure _) fun _ _ _ => trivial

/-- The columns of the output projection. -/
def outputWidth (g : VgGguf) (cfg : ModelConfig K) (layer : Nat) : Nat :=
  wrap32 (cfg.nHead * headWidth g cfg layer)

theorem outputStage_meets {t : GgufTensor} (h : find g (blk layer "attn_output.weight") = some t) :
    Logged.Meets (Event.Good kind) (fun _ => True)
      (weight (blk layer "attn_output.weight") t cfg.nEmbd (outputWidth g cfg layer)).Fits
      (outputStage (cpuGraph g cfg) allOk ops layer : Exec V S _) := by
  unfold outputStage
  rw [if_neg (by simp [moeFusedHeadOk, cpuGraph]), if_neg (by simp [layerTailWillFuse, cpuGraph])]
  refine .known (acquireWeight_found h) fun r hr => ?_
  rw [hr]
  change Logged.Meets _ _ _ (projectOutput (cpuGraph g cfg) allOk ops layer t)
  unfold projectOutput
  refine .known allocate_ready fun ready hready => ?_
  rw [if_pos hready]
  refine .after .get fun w => ?_
  refine (cpuMatmul_meets _ _).last (fun y => ?_) fun _ _ _ => trivial
  exact (postNorm_logs (passive_good kind) rfl _ _).bind fun _ => .modify _

/-- The products of the attention of a layer: the tensor, its rows and their elements. -/
def attentionProducts (g : VgGguf) (cfg : ModelConfig K) (layer : Nat) :
    List (List UInt8 × Nat × Nat) :=
  [(blk layer "attn_q.weight", qDim g cfg layer, cfg.nEmbd),
   (blk layer "attn_k.weight", keyDim g cfg layer, cfg.nEmbd),
   (blk layer "attn_v.weight", kvDim g cfg layer, cfg.nEmbd),
   (blk layer "attn_output.weight", cfg.nEmbd, outputWidth g cfg layer)]

/-- The tensor of a product has the rows, where the product is made at all. -/
def RowsFit (g : VgGguf) (p : List UInt8 × Nat × Nat) : Prop :=
  ∀ t, find g p.1 = some t → (weight p.1 t p.2.1 p.2.2).Fits

theorem rowsFit_iff {name : List UInt8} {rows elements : Nat} {t : GgufTensor}
    (h : find g name = some t) :
    RowsFit g (name, rows, elements) ↔ (weight name t rows elements).Fits := by
  constructor
  · exact fun hfit => hfit t h
  · intro hfit u hu
    obtain rfl := Option.some.inj (h.symm.trans hu)
    exact hfit

/-- The attention of a layer reads inside its tensors exactly when they have the rows. -/
theorem attentionLayer_meets {p : Geometry} {qdim kdim : Nat}
    (h : AttentionChecked g p qdim kdim layer) :
    Logged.Meets (Event.Good kind) (fun _ => True)
      (∀ p ∈ attentionProducts g cfg layer, RowsFit g p)
      (attentionLayer (cpuGraph g cfg) allOk ops layer pos : Exec V S _) := by
  obtain ⟨tq, -, hq, -⟩ := h.query
  obtain ⟨tk, -, hk, -⟩ := h.key
  obtain ⟨tv, -, hv, -⟩ := h.value
  obtain ⟨tw, -, hw, -⟩ := h.output
  have hproducts : (∀ p ∈ attentionProducts g cfg layer, RowsFit g p) ↔
      (weight (blk layer "attn_q.weight") tq (qDim g cfg layer) cfg.nEmbd).Fits ∧
      (weight (blk layer "attn_k.weight") tk (keyDim g cfg layer) cfg.nEmbd).Fits ∧
      (weight (blk layer "attn_v.weight") tv (kvDim g cfg layer) cfg.nEmbd).Fits ∧
      (weight (blk layer "attn_output.weight") tw cfg.nEmbd (outputWidth g cfg layer)).Fits := by
    simp only [attentionProducts, List.forall_mem_cons, List.not_mem_nil, false_implies,
      implies_true, and_true, rowsFit_iff hq, rowsFit_iff hk, rowsFit_iff hv, rowsFit_iff hw]
  rw [hproducts]
  unfold attentionLayer
  refine .after .get fun w => .after (.modify _) fun _ => ?_
  refine .after (normalise_logs (passive_good kind) rfl _ _) fun x => .after (.modify _) fun _ => ?_
  refine .known (acquireWeight_found hq) fun r hr => ?_
  rw [hr]
  refine .after (growQkv_logs (passive_good kind) _ _) fun _ => ?_
  rw [batchProjections_cpu]
  refine .known (Q := (· = ⟨false, none, none, none⟩)) (.of_logs (.pure _) fun _ => rfl)
    fun batch hbatch => ?_
  rw [hbatch]
  refine .bind (queryStage_meets tq x) fun _ _ => .bind (keyStage_meets hk x) fun k hkvd => ?_
  obtain ⟨k, kvd⟩ := k
  obtain rfl : kvd = keyDim g cfg layer := hkvd
  refine .bind (valueStage_meets hv x) fun v _ => ?_
  refine .after (storeRow_logs (passive_good kind) _ _ _) fun _ => ?_
  exact .after (attendStage_logs (passive_good kind) _) fun _ => outputStage_meets hw

end Attention

section Dense

variable {K : Type*} {V S : Type} {g : VgGguf} {cfg : ModelConfig K} {ops : Ops V S}
variable {kind : FfnKind} {layer : Nat}

/-- The products of a dense block. -/
def denseProducts (cfg : ModelConfig K) (layer : Nat) : List (List UInt8 × Nat × Nat) :=
  (if cfg.hasGateUp then [(blk layer "ffn_gate.weight", cfg.nFf, cfg.nEmbd)] else []) ++
    [(blk layer "ffn_up.weight", cfg.nFf, cfg.nEmbd),
     (blk layer "ffn_down.weight", cfg.nEmbd, cfg.nFf)]

/-- The form of a dense block. -/
def denseKind (cfg : ModelConfig K) : FfnKind := if cfg.hasGateUp then .gated else .ungated

theorem fusedFfn_cpu {o : Outcomes} (x : V) :
    (fusedFfn (cpuGraph g cfg) o ops layer x : Exec V S _) = pure false := by
  unfold fusedFfn
  dsimp only
  split
  · simp [cpuGraph]
  · rfl

theorem gatedStage_meets {tg tu : GgufTensor} (hg : find g (blk layer "ffn_gate.weight") = some tg)
    (hu : find g (blk layer "ffn_up.weight") = some tu) (x : V) :
    Logged.Meets (Event.Good kind) (fun _ => True)
      ((weight (blk layer "ffn_gate.weight") tg cfg.nFf cfg.nEmbd).Fits ∧
        (weight (blk layer "ffn_up.weight") tu cfg.nFf cfg.nEmbd).Fits)
      (gatedStage (cpuGraph g cfg) allOk ops layer x : Exec V S _) := by
  have hpair (gate up : Matmul) : Logged.Meets (Event.Good kind) (fun _ => True)
      (gate.Fits ∧ up.Fits) (gatePair (cpuGraph g cfg) allOk ops layer gate up x : Exec V S _) := by
    unfold gatePair
    rw [if_neg (by simp [cpuGraph])]
    refine .bind (cpuMatmul_meets gate x) fun a _ => ?_
    exact (cpuMatmul_meets up x).last (fun b => .pure _) fun _ _ _ => trivial
  unfold gatedStage
  refine .known allocate_ready fun gateBuf hgate => .known allocate_ready fun upBuf hup => ?_
  rw [hgate, hup, if_pos (Bool.and_self true)]
  refine .known (acquireWeight_found hg) fun r hr => ?_
  rw [hr]
  refine .known (acquireWeight_found hu) fun r hr => ?_
  rw [hr]
  exact (hpair _ _).last (fun ab => .modify _) fun _ _ _ => trivial

theorem ungatedStage_meets {tu : GgufTensor} (hu : find g (blk layer "ffn_up.weight") = some tu)
    (x : V) : Logged.Meets (Event.Good kind) (fun _ => True)
      (weight (blk layer "ffn_up.weight") tu cfg.nFf cfg.nEmbd).Fits
      (ungatedStage (cpuGraph g cfg) allOk ops layer x : Exec V S _) := by
  have hup : Logged.Meets (Event.Good kind) (fun _ => True)
      (weight (blk layer "ffn_up.weight") tu cfg.nFf cfg.nEmbd).Fits
      (ungatedUp (cpuGraph g cfg) allOk ops layer x : Exec V S _) := by
    unfold ungatedUp
    refine .known (acquireWeight_found hu) fun r hr => ?_
    rw [hr]
    exact (cpuMatmul_meets _ x).last (fun y => .modify _) fun _ _ _ => trivial
  exact hup.last (fun _ => .modify _) fun _ _ _ => trivial

theorem downStage_meets {td : GgufTensor} (hd : find g (blk layer "ffn_down.weight") = some td) :
    Logged.Meets (Event.Good kind) (fun _ => True)
      (weight (blk layer "ffn_down.weight") td cfg.nEmbd cfg.nFf).Fits
      (downStage (cpuGraph g cfg) allOk ops layer : Exec V S _) := by
  have hnorm : Logged.Logs (Event.Good kind) (ffnSubNorm (cpuGraph g cfg) allOk ops layer) := by
    unfold ffnSubNorm
    refine Logged.Logs.get.bind fun w => ?_
    exact (shapedNorm_logs (passive_good kind) rfl _ _ _).bind fun _ => .modify _
  unfold downStage
  refine .after (.onlyIf hnorm) fun _ => .known (acquireWeight_found hd) fun r hr => ?_
  rw [hr]
  change Logged.Meets _ _ _ (projectDown (cpuGraph g cfg) allOk ops layer td)
  unfold projectDown
  refine .known allocate_ready fun ready hready => ?_
  rw [if_pos hready]
  refine .after .get fun w => ?_
  refine (cpuMatmul_meets _ _).last (fun y => ?_) fun _ _ _ => trivial
  exact (postNorm_logs (passive_good kind) rfl _ _).bind fun _ => .modify _

/-- A dense block that the probe has checked reads inside its tensors exactly when they have
the rows. -/
theorem denseBlock_meets {p : Geometry} (h : DenseChecked g p layer)
    (hgate : cfg.hasGateUp = has g "blk.0.ffn_gate.weight") (x : V) :
    Logged.Meets (Event.Good (denseKind cfg)) (· = .ok)
      (∀ p ∈ denseProducts cfg layer, RowsFit g p)
      (denseBlock (cpuGraph g cfg) allOk ops layer x : Exec V S _) := by
  obtain ⟨tu, -, hu, -⟩ := h.up
  obtain ⟨td, -, hd, -⟩ := h.down
  have hlast (k : FfnKind) (hk : k = denseKind cfg) :
      Logged.Meets (Event.Good (denseKind cfg)) (· = .ok)
        (weight (blk layer "ffn_down.weight") td cfg.nEmbd cfg.nFf).Fits
        (do
          downStage (cpuGraph g cfg) allOk ops layer
          Logged.log (.ffn layer k)
          pure Status.ok : Exec V S Status) := by
    refine (downStage_meets hd).last (fun _ => ?_) fun _ _ _ => rfl
    exact Logged.Logs.bind (.log hk) fun _ => .pure _
  unfold denseBlock
  by_cases hgu : cfg.hasGateUp = true
  · obtain ⟨tg, -, hg, -⟩ := h.gate (hgate ▸ hgu)
    have hproducts : (∀ p ∈ denseProducts cfg layer, RowsFit g p) ↔
        ((weight (blk layer "ffn_gate.weight") tg cfg.nFf cfg.nEmbd).Fits ∧
          (weight (blk layer "ffn_up.weight") tu cfg.nFf cfg.nEmbd).Fits) ∧
        (weight (blk layer "ffn_down.weight") td cfg.nEmbd cfg.nFf).Fits := by
      simp [denseProducts, hgu, rowsFit_iff hg, rowsFit_iff hu, rowsFit_iff hd, and_assoc]
    rw [hproducts, if_pos (show (cpuGraph g cfg).cfg.hasGateUp = true from hgu), fusedFfn_cpu]
    refine .known (Q := (· = false)) (.of_logs (.pure _) fun _ => rfl) fun done hdone => ?_
    rw [hdone, if_neg Bool.false_ne_true]
    exact .bind (gatedStage_meets hg hu x) fun _ _ => hlast _ (by simp [denseKind, hgu])
  · have hproducts : (∀ p ∈ denseProducts cfg layer, RowsFit g p) ↔
        (weight (blk layer "ffn_up.weight") tu cfg.nFf cfg.nEmbd).Fits ∧
        (weight (blk layer "ffn_down.weight") td cfg.nEmbd cfg.nFf).Fits := by
      simp [denseProducts, hgu, rowsFit_iff hu, rowsFit_iff hd]
    rw [hproducts, if_neg (show ¬ (cpuGraph g cfg).cfg.hasGateUp = true from hgu)]
    exact .bind (ungatedStage_meets hu x) fun _ _ => hlast _ (by simp [denseKind, hgu])

end Dense

end VgEngine.Decode

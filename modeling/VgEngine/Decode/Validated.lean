import VgEngine.Decode.Experts
import VgEngine.Decode.Rows
import VgEngine.Model.Norms

/-! What the probe's acceptance says about a decode on the CPU when nothing fails: the blocks it
takes, the rows it reads and whether it succeeds. -/
namespace VgEngine.Decode
open Lib Bytes Gguf Model Single

section Contract

variable {K : Type*} (g : VgGguf) (cfg : ModelConfig K)

/-- The feed-forward block that the probe has validated. -/
def probedKind (p : ModelProbe) : FfnKind :=
  if p.isMoe then .moe p.hasSharedExpert
  else if has g "blk.0.ffn_gate.weight" then .gated
  else .ungated

/-- A layer has what the decode takes from it; `c` is what it takes from its experts. -/
structure LayerRuns (p : ModelProbe) (layer : Nat) (c : Prop) : Prop where
  attention : ∀ q ∈ attentionProducts g cfg layer, RowsFit g q
  routed : p.isMoe = true → MoeRuns g cfg layer c
  dense : p.isMoe = false → cfg.nExpert ≤ 1 ∧ has g "blk.0.ffn_gate_inp.weight" = false ∧
    ∀ q ∈ denseProducts cfg layer, RowsFit g q

end Contract

section Layers

variable {K : Type*} {V S : Type} {g : VgGguf} {cfg : ModelConfig K} {ops : Ops V S}
variable {p : ModelProbe} {layer pos : Nat} {c : Prop}

/-- What the loader makes of the counts and flags of an accepted file. -/
structure Agreed (g : VgGguf) (cfg : ModelConfig K) (p : ModelProbe) : Prop where
  layers : cfg.nLayer = p.nLayer
  experts : p.isMoe = true → 1 < cfg.nExpert
  used : 0 < cfg.nExpertUsed
  shared : cfg.hasSharedExpert = p.hasSharedExpert
  gate : cfg.hasGateUp = has g "blk.0.ffn_gate.weight"

theorem headStage_cpu {o : Outcomes} :
    (headStage (cpuGraph g cfg) o ops layer : Exec V S _) = pure none := by
  unfold headStage
  exact if_neg (by simp [moeFusedHeadOk, cpuGraph])

theorem tailStage_cpu {o : Outcomes} :
    (tailStage (cpuGraph g cfg) o ops layer : Exec V S _) = pure false := by
  unfold tailStage
  exact if_neg (by simp [cpuGraph])

/-- The block of a dense layer, in a model without a router. -/
theorem perOpBlock_dense (hchecked : DenseChecked g p.toGeometry layer)
    (hgate : cfg.hasGateUp = has g "blk.0.ffn_gate.weight")
    (hrouter : has g "blk.0.ffn_gate_inp.weight" = false) (head : Option V) :
    Logged.Settles (Event.Good (denseKind cfg)) (· = .ok)
      (∀ q ∈ denseProducts cfg layer, RowsFit g q)
      (perOpBlock (cpuGraph g cfg) allOk ops layer head : Exec V S _) := by
  have hnone : ¬ hasTensor (cpuGraph g cfg) "blk.0.ffn_gate_inp.weight" = true := by
    change ¬ has g "blk.0.ffn_gate_inp.weight" = true
    simp [hrouter]
  unfold perOpBlock
  refine .after .get fun w => .after (normalise_logs (passive_good _) rfl _ _) fun x => ?_
  refine .after (.modify _) fun _ => ?_
  rw [if_neg hnone]
  exact (denseBlock_meets hchecked hgate x).settles

/-- With a router, a layer of one expert does not take a dense block. -/
theorem perOpBlock_routed {kind : FfnKind} (hkind : ∀ shared, .moe shared ≠ kind)
    (hrouter : has g "blk.0.ffn_gate_inp.weight" = true) (head : Option V) :
    Logged.Settles (Event.Good kind) (· = .ok) False
      (perOpBlock (cpuGraph g cfg) allOk ops layer head : Exec V S _) := by
  unfold perOpBlock
  refine .skip fun w => .skip fun x => .skip fun _ => ?_
  rw [if_pos (show hasTensor (cpuGraph g cfg) "blk.0.ffn_gate_inp.weight" = true from hrouter)]
  apply Logged.Settles.never
  intro s _
  exact ⟨.ffn layer (.moe false), List.mem_append_left _ (List.mem_singleton_self _), hkind _⟩

theorem probedKind_dense (hagreed : Agreed g cfg p) (hmoe : p.isMoe = false) :
    probedKind g p = denseKind cfg := by
  unfold probedKind denseKind
  rw [hmoe, hagreed.gate]
  rfl

theorem probedKind_not_moe (hmoe : p.isMoe = false) (shared : Bool) :
    .moe shared ≠ probedKind g p := by
  unfold probedKind
  rw [hmoe]
  by_cases hgate : has g "blk.0.ffn_gate.weight" = true
  · simp [hgate]
  · simp [hgate]

/-- The feed-forward block of a layer is the one of the probe, succeeds and reads inside its
tensors, exactly when the layer has what the block takes. -/
theorem ffnLayer_settles {qdim kdim : Nat} (hagreed : Agreed g cfg p)
    (hchecked : LayerChecked g p.toGeometry qdim kdim layer)
    (hroute : p.isMoe = true → ∀ v, (∀ e ∈ moeRoute (ops.greater v) cfg.nExpert
      cfg.nExpertUsed, ExpertRuns g cfg layer e) ↔ c) :
    Logged.Settles (Event.Good (probedKind g p)) (· = .ok)
      ((p.isMoe = true → MoeRuns g cfg layer c) ∧
        (p.isMoe = false → cfg.nExpert ≤ 1 ∧ has g "blk.0.ffn_gate_inp.weight" = false ∧
          ∀ q ∈ denseProducts cfg layer, RowsFit g q))
      (ffnLayer (cpuGraph g cfg) allOk ops layer : Exec V S _) := by
  unfold ffnLayer
  by_cases hexperts : 1 < cfg.nExpert
  · rw [if_pos (show 1 < (cpuGraph g cfg).cfg.nExpert from hexperts)]
    refine .after (.onlyIf (.log trivial)) fun _ => ?_
    cases hmoe : p.isMoe with
    | true =>
      have hkind : probedKind g p = .moe cfg.hasSharedExpert := by
        unfold probedKind
        rw [hmoe, hagreed.shared, if_pos rfl]
      rw [hkind]
      exact (moeFfnLayer_settles (hroute hmoe)).iff (by simp)
    | false =>
      refine (moeFfnLayer_ends fun acc shared => ?_).iff (by simp [Nat.not_le.2 hexperts])
      exact (finishMoe_settles acc shared).iff (iff_false_intro (probedKind_not_moe hmoe shared))
  · have hmoe : p.isMoe = false := by
      cases hmoe : p.isMoe with
      | true => exact absurd (hagreed.experts hmoe) hexperts
      | false => rfl
    rw [if_neg (show ¬ 1 < (cpuGraph g cfg).cfg.nExpert from hexperts), headStage_cpu]
    refine .after (.pure _) fun head => .after (.modify _) fun _ => ?_
    rw [tailStage_cpu]
    refine .known (Q := (· = false)) (.of_logs (.pure _) fun _ => rfl) fun done hdone => ?_
    rw [hdone, if_neg Bool.false_ne_true]
    cases hrouter : has g "blk.0.ffn_gate_inp.weight" with
    | true =>
      exact (perOpBlock_routed (probedKind_not_moe hmoe) hrouter head).iff (by simp [hmoe])
    | false =>
      rw [probedKind_dense hagreed hmoe]
      refine (perOpBlock_dense (hchecked.dense hmoe) hagreed.gate hrouter head).iff ?_
      simp [hmoe, Nat.not_lt.1 hexperts]

/-- A block that succeeds is logged. -/
theorem ffnLayer_takes {P : Event → Prop} (hP : ∀ kind, ¬ P (.ffn layer kind)) :
    Logged.Settles P (· = .ok) False (ffnLayer (cpuGraph g cfg) allOk ops layer : Exec V S _) := by
  have hlast {m : Exec V S Unit} {kind : FfnKind} : Logged.Settles P (· = .ok) False
      (do m; Logged.log (.ffn layer kind); pure Status.ok) := by
    apply Logged.Settles.never
    intro s _
    exact ⟨.ffn layer kind, List.mem_append_right _ (List.mem_singleton_self _), hP kind⟩
  unfold ffnLayer
  by_cases hexperts : 1 < cfg.nExpert
  · rw [if_pos (show 1 < (cpuGraph g cfg).cfg.nExpert from hexperts)]
    refine .skip fun _ => moeFfnLayer_ends fun acc shared => ?_
    exact .skip fun y => hlast
  · rw [if_neg (show ¬ 1 < (cpuGraph g cfg).cfg.nExpert from hexperts), headStage_cpu]
    refine .skip fun head => .skip fun _ => ?_
    rw [tailStage_cpu]
    refine .ends (Q := (· = false)) (fun _ => rfl) fun done hdone => ?_
    rw [hdone, if_neg Bool.false_ne_true]
    unfold perOpBlock
    refine .skip fun w => .skip fun x => .skip fun _ => ?_
    split
    next =>
      apply Logged.Settles.never
      intro s _
      exact ⟨_, List.mem_append_left _ (List.mem_singleton_self _), hP (.moe false)⟩
    next =>
    unfold denseBlock
    split
    next =>
      rw [fusedFfn_cpu]
      refine .ends (Q := (· = false)) (fun _ => rfl) fun done hdone => ?_
      rw [hdone, if_neg Bool.false_ne_true]
      exact .skip fun _ => hlast
    next => exact .skip fun _ => hlast

/-- The layers in turn: each takes the block of the probe. -/
theorem hostLayers_settles {c : Nat → Prop} {layers : List Nat} (hagreed : Agreed g cfg p)
    (hchecked : ∀ l ∈ layers, LayerChecked g p.toGeometry p.qdim p.kdim l)
    (hroute : p.isMoe = true → ∀ l ∈ layers, ∀ v, (∀ e ∈ moeRoute (ops.greater v) cfg.nExpert
      cfg.nExpertUsed, ExpertRuns g cfg l e) ↔ c l) :
    Logged.Settles (Event.Good (probedKind g p)) (· = .ok)
      (∀ l ∈ layers, LayerRuns g cfg p l (c l))
      (hostLayers (cpuGraph g cfg) allOk ops pos layers : Exec V S _) := by
  induction layers with
  | nil => exact .pure _ (by simp)
  | cons l ls ih =>
    have hl := hchecked l List.mem_cons_self
    have hruns : (∀ l' ∈ l :: ls, LayerRuns g cfg p l' (c l')) ↔
        (∀ q ∈ attentionProducts g cfg l, RowsFit g q) ∧
        ((p.isMoe = true → MoeRuns g cfg l (c l)) ∧
          (p.isMoe = false → cfg.nExpert ≤ 1 ∧ has g "blk.0.ffn_gate_inp.weight" = false ∧
            ∀ q ∈ denseProducts cfg l, RowsFit g q)) ∧
        ∀ l' ∈ ls, LayerRuns g cfg p l' (c l') := by
      rw [List.forall_mem_cons]
      constructor
      · rintro ⟨⟨hattention, hrouted, hdense⟩, hls⟩
        exact ⟨hattention, ⟨hrouted, hdense⟩, hls⟩
      · rintro ⟨hattention, ⟨hrouted, hdense⟩, hls⟩
        exact ⟨⟨hattention, hrouted, hdense⟩, hls⟩
    rw [hruns]
    refine .bind (attentionLayer_meets hl.attention) fun _ _ => ?_
    refine .step (Q := fun _ => True) (ffnLayer_settles hagreed hl
      fun hmoe => hroute hmoe l List.mem_cons_self) (fun _ => trivial)
      (fun st hst => ?_) fun st _ hst => ?_
    · rw [if_neg (not_not.2 hst)]
      exact ih (fun l' hl' => hchecked l' (List.mem_cons_of_mem _ hl'))
        fun hmoe l' hl' => hroute hmoe l' (List.mem_cons_of_mem _ hl')
    · rw [if_pos hst]
      exact settles_status hst

/-- Every layer of a run that succeeds logs its block. -/
theorem hostLayers_takes {P : Event → Prop} {layers : List Nat} (hlayer : layer ∈ layers)
    (hP : ∀ kind, ¬ P (.ffn layer kind)) : Logged.Settles P (· = .ok) False
      (hostLayers (cpuGraph g cfg) allOk ops pos layers : Exec V S _) := by
  induction layers with
  | nil => cases hlayer
  | cons l ls ih =>
    unfold hostLayers
    refine .skip fun _ => ?_
    have hend (st : Status) (hst : ¬ st = .ok) : Logged.Settles P (· = .ok) False
        (if st ≠ .ok then pure st else
          hostLayers (cpuGraph g cfg) allOk ops pos ls : Exec V S _) := by
      rw [if_pos hst]
      exact .pure _ (by simp [hst])
    rcases List.mem_cons.1 hlayer with rfl | hlater
    · exact .begins (ffnLayer_takes hP) hend
    · refine .skip fun st => ?_
      by_cases hst : st = .ok
      · rw [if_neg (not_not.2 hst)]
        exact ih hlater
      · exact hend st hst

end Layers

end VgEngine.Decode

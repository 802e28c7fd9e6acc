import VgEngine.Vulkan.DenseValue

/-! The final head of a token. Its norm is recorded behind the addition that makes the hidden state,
with no barrier in between. -/
namespace VgEngine.Vulkan
open VgEngine.Lib CommandBuffer

variable {F : Type} {B : Nat → Nat} {d₀ : DenseToken F}

/-- Kernels that count: an addition adds one to its second input, and the norm keeps its input. -/
def tally (F : Type) : Kernels Pipeline F Nat where
  main p _ _ inputs _ := match p with
    | .residAdd => inputs.getD 1 0 + 1
    | .rmsnorm => inputs.getD 0 0
    | .matvecQ8_0 | .actQuant | .ropeAdj | .swiglu | .attnScores => 0
  copy _ _ src _ := src

/-- The orders of a token before the addition that makes its last hidden state. -/
def beforeSum (B : Nat → Nat) (d₀ d : DenseToken F) : List (Order Pipeline F) :=
  projectNorm d.oW d.oS (B 7) (B 8) (B 9) d.hiddenDev (B 10) d.ffnNormW (B 11) (B 12) (B 13) d₀.D
    d₀.Qdim d.eps ++
  (feedForward d.gateW d.gateS d.upW d.upS d.downW d.downS (B 12) (B 13) (B 14) (B 15) (B 16) (B 17)
    (B 18) (B 19) d₀.D d₀.FF ++ [bar])

theorem layersOrders_sum (B : Nat → Nat) (d₀ : DenseToken F) {L : List (DenseToken F)}
    {last : DenseToken F} (hlast : L.getLast? = some last) : ∃ front, layersOrders B d₀ none L =
      front ++ beforeSum B d₀ last ++ [radd (B 19) (B 10) last.hiddenDev d₀.D] := by
  induction L with
  | nil => cases hlast
  | cons d L ih =>
    cases L with
    | nil =>
      cases hlast
      refine ⟨qkvOrders B d₀ d ++ attnOrders B d₀ d, ?_⟩
      simp [layersOrders, layerOrders, ffnOrders, beforeSum, outOrders]
    | cons d' L =>
      rw [List.getLast?_cons_cons] at hlast
      obtain ⟨front, hfront⟩ := ih hlast
      refine ⟨layerOrders B d₀ d ++ bar :: front, ?_⟩
      rw [layersOrders_cons, hfront]
      simp

/-- The sum in between is one more than the hidden state before it. -/
theorem beforeSum_run (d₀ : DenseToken F) {d : DenseToken F} (hB : (acts B).Nodup)
    (hd : LayerApart B d.toDenseLayer) (m : Nat → Nat) : let r := recorded ((tally F).items (beforeSum B d₀ d)) m
      r (B 10) = r d.hiddenDev + 1 := by
  have hinj : ∀ i < 20, ∀ j < 20, B i = B j ↔ i = j := fun i hi j hj => act_inj hB hi hj
  have hhidden : ∀ i < 20, d.hiddenDev ≠ B i := fun i hi => ne_act hd.hidden hi
  intro r
  simp only [r, beforeSum, projectNorm, feedForward, List.cons_append, List.nil_append, recorded_mvec,
    recorded_radd, recorded_rnorm, recorded_quant, recorded_swish, recorded_bar, recorded_items_nil]
  simp [hinj, hhidden, Kernels.radd, tally]

/-- Neither the sum nor the copy behind it keeps a dispatch waiting. -/
theorem free_sum {K : Kernels Pipeline F Nat} (a b o hidden : Nat) (n : UInt32) (out : Option Nat) :
    ∀ e ∈ behind (start (K.items (radd a b o n :: outOrders d₀ hidden out))),
      Stage.compute ∉ e.2.2.waits := by
  cases out <;>
    simp [Kernels.items, Kernels.item, radd, outOrders, computed, start, behind, items, Reach.after,
      Reach.pass, Reach.start, Kernels.dispatch, Kernels.copyBuffer, Stage.read, Stage.write]

/-- The buffers of a final head that the norm of the head must not share. -/
structure HeadApart (B : Nat → Nat) (out : Option Nat) (logits staging : Nat) : Prop where
  out : ∀ b ∈ out, b ≠ B 10
  logits : logits ≠ B 10
  staging : staging ≠ B 10

/-- The norm of the head may run before the sum it should wait for, and its output then stays
two below. -/
theorem head_races (hB : (acts B).Nodup) (d₀ : DenseToken F) (input : Option Nat)
    {out : Option Nat} {L : List (DenseToken F)} {last : DenseToken F} (hlast : L.getLast? = some last) (hL : LayerApart B last.toDenseLayer)
    (head : HeadToken F) {logits staging : Nat} (hhead : HeadApart B out logits staging)
    (m : Nat → Nat) : ∃ m', Outcome ((tally F).items
      (recordOrders B d₀ input out last L (some (head, logits, staging)))) m m' ∧
        recorded ((tally F).items
          (recordOrders B d₀ input out last L (some (head, logits, staging)))) m (B 10) =
            m' (B 10) + 2 := by
  have hinj : ∀ i < 20, ∀ j < 20, B i = B j ↔ i = j := fun i hi j hj => act_inj hB hi hj
  have hhidden : B 10 ≠ last.hiddenDev := (ne_act hL.hidden (by decide)).symm
  obtain ⟨front, hfront⟩ := layersOrders_sum B d₀ hlast
  have hsplit : recordOrders B d₀ input out last L (some (head, logits, staging)) =
      (inputOrders d₀ input ++ front ++ beforeSum B d₀ last) ++
        (radd (B 19) (B 10) last.hiddenDev d₀.D :: outOrders d₀ last.hiddenDev out) ++
          headOrders B d₀ head last.hiddenDev logits staging := by
    unfold recordOrders
    rw [layersOrders_out hlast, hfront]
    simp
  have hsum := beforeSum_run d₀ hB hL
    (recorded ((tally F).items (inputOrders d₀ input ++ front)) m)
  rw [← recorded_append, ← items_append] at hsum
  rw [hsplit, items_append, items_append]
  refine ⟨_, outcome_overtake _ _ _ _ m (free_sum (K := tally F) _ _ _ _ _ _), ?_⟩
  rw [recorded_append, recorded_append]
  generalize recorded ((tally F).items (inputOrders d₀ input ++ front ++ beforeSum B d₀ last)) m = M
    at hsum
  have hnorm : ((tally F).dispatch .rmsnorm [last.hiddenDev, head.normW, B 10]
      [.uint d₀.D, .float head.eps] 1).run M = Function.update M (B 10) (M last.hiddenDev) :=
    dispatch_run rfl
  change recorded ((tally F).items (headOrders B d₀ head last.hiddenDev logits staging)) _ (B 10) =
    recorded ((tally F).items (bar :: quant (B 10) (B 12) (B 13) (d₀.D / 32) :: bar ::
      mvec head.lmW head.lmS (B 12) (B 13) logits head.vocab d₀.D :: computed ::
        [.copy logits staging (head.vocab.toUInt64 * 4) 0])) _ (B 10) + 2
  rw [hnorm]
  unfold headOrders
  have hlogits := hhead.logits.symm
  have hstaging := hhead.staging.symm
  cases out with
  | none =>
    simp [outOrders, recorded_items_nil, hinj, hlogits, hstaging, hhidden, tally, Kernels.rnorm,
      Kernels.radd, hsum]
  | some b =>
    have hb := hhead.out b rfl
    simp [outOrders, recorded_items_nil, hinj, hlogits, hstaging, hhidden, tally, Kernels.rnorm,
      Kernels.radd, hsum, hb.symm]
    rw [Function.update_apply]
    split <;> simp

/-- The device may give a token in one way only, whatever its shaders compute and in whichever order
it runs the commands, exactly when the token has no final head. -/
theorem dense_ordered_iff (hB : (acts B).Nodup) {input out : Option Nat} {L : List (DenseToken F)}
    {last : DenseToken F} (hlast : L.getLast? = some last)
    (hL : ∀ d ∈ L, LayerApart B d.toDenseLayer) {head : Option (HeadToken F × Nat × Nat)}
    (hhead : ∀ h ∈ head, HeadApart B out h.2.1 h.2.2) :
    (∀ (α : Type) (K : Kernels Pipeline F α) (m m' : Nat → α),
      Outcome (K.items (recordOrders B d₀ input out last L head)) m m' →
        m' = recorded (K.items (recordOrders B d₀ input out last L head)) m) ↔ head = none := by
  constructor
  · intro hordered
    cases head with
    | none => rfl
    | some h =>
      obtain ⟨h, logits, staging⟩ := h
      have hapart : HeadApart B out logits staging := hhead _ rfl
      obtain ⟨m', hrun, hne⟩ := head_races hB d₀ input hlast
        (hL last (List.mem_of_getLast? hlast)) h hapart fun _ => 0
      have hsame := congrFun (hordered Nat (tally F) _ m' hrun) (B 10)
      omega
  · rintro rfl α K m m' hrun
    refine HazardFree.outcome (hazardFree_record fun d hd => ?_) hrun
    exact ⟨ne_act (hL d hd).kCache (by decide), ne_act (hL d hd).vCache (by decide),
      (hL d hd).caches⟩

end VgEngine.Vulkan

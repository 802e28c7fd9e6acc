import VgEngine.Decode.LockstepBlocks

/-! Two decodes in step, continued: the layers one after another, and the output head. -/
namespace VgEngine.Decode
open Lib Bytes Gguf Model Single

section Layers

variable {K : Type*} {V S : Type} {g : VgGguf} {cfg : ModelConfig K} {o : Outcomes} {ops : Ops V S}
variable {layer pos : Nat} {same : V → V → Prop} {rel : S → S → Prop}

/-- The layers from `i` on, up to the one that fails. -/
theorem hostLayers_coupled {rel : Nat → S → S → Prop} (ho : ReadsOnly o) (hproj : Projected g cfg)
    (hlaid : Laid g cfg o) (hfed : FedAll g cfg o) (hcarry : Carries g cfg o ops pos rel)
    (m i : Nat) (hlast : i + m ≤ cfg.nLayer) :
    Logged.Coupled (Beside same (rel i))
      (hostLayers (cpuGraph g cfg) o ops pos (List.range' i m))
      fun st s s' => ∃ j ≤ i + m, (st = .ok → j = i + m) ∧ Beside same (rel j) s s' := by
  induction m generalizing i with
  | zero =>
    apply Logged.Coupled.pure
    exact fun s s' hs => ⟨i, le_rfl, fun _ => rfl, hs⟩
  | succ m ih =>
    rw [List.range'_succ]
    apply (attentionLayer_coupled ho hproj hlaid hcarry (by omega)).bind
    intro _
    apply (ffnLayer_coupled ho hfed (by omega)).bind
    intro st
    apply Logged.Coupled.ite
    · intro hst
      apply Logged.Coupled.pure
      exact fun s s' hs => ⟨i + 1, by omega, fun h => absurd h hst, hs⟩
    · intro _
      have hrest := ih (i + 1) (by omega)
      rw [show i + 1 + m = i + (m + 1) by omega] at hrest
      exact hrest

end Layers

section Decode

variable {K : Type*} {V S : Type} {g : VgGguf} {cfg : ModelConfig K} {o : Outcomes} {ops : Ops V S}
variable {same : V → V → Prop} {rel : S → S → Prop}

theorem headRows_coupled (name : List UInt8) (t : GgufTensor) (r : HeadRows) : Logged.Coupled
    (Beside same rel) (headRows (cpuGraph g cfg) o ops name t r) fun _ => Beside Eq rel := by
  unfold headRows
  apply Logged.Coupled.after
  · apply Logged.Stateless.forM
    intro i
    apply (Logged.Stateless.log _).bind
    intro _
    exact .ite (.log _) (.pure _)
  intro _
  apply Logged.Coupled.modify
  intro s s' hs
  refine ⟨hs.hidden, ?_, hs.kv, hs.cold, hs.cold'⟩
  change ops.logits _ s.hidden = ops.logits _ s'.hidden
  rw [hs.hidden]

/-- The output head has a type that the quant table knows, so that every logit is written. -/
def HeadKnown (g : VgGguf) (cfg : ModelConfig K) : Prop :=
  ∀ name t, headTensor (cpuGraph g cfg) = some (name, t) → (quantInfo t.ggmlType).isSome = true

/-- The output head makes the logits the same, unless it leaves them as they are. -/
theorem outputHead_coupled (ho : ReadsOnly o)
    (hlogits : (∀ a b, same a b → a = b) ∨ HeadKnown g cfg) : Logged.Coupled (Beside same rel)
    (outputHead (cpuGraph g cfg) o ops) fun _ => Beside Eq rel := by
  unfold outputHead
  apply Logged.Coupled.get
  · intro s s' hs
    rw [hs.hidden]
  intro w
  apply Logged.Coupled.after (normalise_stateless _ _)
  intro x
  apply Logged.Coupled.bind (T := fun _ => Beside same rel)
  · apply Logged.Coupled.modify
    intro s s' hs
    exact ⟨rfl, hs.logits, hs.kv, hs.cold, hs.cold'⟩
  intro _
  cases hhead : headTensor (cpuGraph g cfg) with
  | none =>
    apply Logged.Coupled.after (.log _)
    intro _
    apply Logged.Coupled.modify
    exact fun s s' hs => ⟨hs.hidden, rfl, hs.kv, hs.cold, hs.cold'⟩
  | some r =>
    obtain ⟨name, t⟩ := r
    have hdevice : (cpuGraph g cfg).vk = false := rfl
    simp only [hdevice, Bool.false_and, Bool.false_eq_true, if_false]
    unfold hostHead
    cases hq : quantInfo t.ggmlType with
    | none =>
      have hsame : ∀ a b, same a b → a = b := by
        apply hlogits.resolve_right
        intro hknown
        simpa [hq] using hknown name t hhead
      apply Logged.Coupled.mono (.stateless (.log _))
      exact fun _ s s' hs => ⟨hs.hidden, hsame _ _ hs.logits, hs.kv, hs.cold, hs.cold'⟩
    | some q =>
      apply Logged.Coupled.yields (allocate_yields ho)
      exact headRows_coupled name t _

variable [Field K] [LinearOrder K]

theorem finish_coupled : Logged.Coupled (Beside Eq rel)
    (finish (cpuGraph g cfg) ops) fun st s s' => st = .ok ∧ Beside Eq rel s s' := by
  unfold finish
  apply Logged.Coupled.bind (T := fun _ => Beside Eq rel)
  · apply Logged.Coupled.onlyIf
    · apply Logged.Coupled.modify
      intro s s' hs
      refine ⟨hs.hidden, ?_, hs.kv, hs.cold, hs.cold'⟩
      change ops.softcap s.logits = ops.softcap s'.logits
      rw [hs.logits]
    · exact fun s s' hs => hs
  intro _
  exact .pure fun s s' hs => ⟨rfl, hs⟩

/-- What two decodes share before the embedding and after the end. -/
structure Apart (same : V → V → Prop) (rel : S → S → Prop) (s s' : Work V S) : Prop where
  logits : same s.logits s'.logits
  kv : rel s.kv s'.kv
  cold : s.gpuDense ≠ some true
  cold' : s'.gpuDense ≠ some true

theorem Beside.apart {s s' : Work V S} (h : Beside same rel s s') : Apart same rel s s' :=
  ⟨h.logits, h.kv, h.cold, h.cold'⟩

theorem hostPath_coupled {rel : Nat → S → S → Prop} {pos : Nat} (ho : ReadsOnly o)
    (hproj : Projected g cfg) (hlaid : Laid g cfg o) (hfed : FedAll g cfg o)
    (hcarry : Carries g cfg o ops pos rel)
    (hlogits : (∀ a b, same a b → a = b) ∨ HeadKnown g cfg) :
    Logged.Coupled (Beside same (rel 0)) (hostPath (cpuGraph g cfg) o ops pos)
      fun st s s' => (st = .ok ∧ Apart Eq (rel cfg.nLayer) s s') ∨
        (st ≠ .ok ∧ ∃ j ≤ cfg.nLayer, Apart same (rel j) s s') := by
  have hlayers : Logged.Coupled (Beside same (rel 0))
      (hostLayers (cpuGraph g cfg) o ops pos (List.range' 0 cfg.nLayer)) _ :=
    hostLayers_coupled ho hproj hlaid hfed hcarry cfg.nLayer 0 (by omega)
  rw [← List.range_eq_range', Nat.zero_add] at hlayers
  unfold hostPath
  apply hlayers.bind
  intro st
  apply Logged.Coupled.ite
  · intro hst
    apply Logged.Coupled.pure
    rintro s s' ⟨j, hj, -, hs⟩
    exact Or.inr ⟨hst, j, hj, hs.apart⟩
  · intro hst
    apply Logged.Coupled.weaken (R := Beside same (rel cfg.nLayer))
    · apply (outputHead_coupled ho hlogits).bind
      intro _
      apply finish_coupled.mono
      exact fun st s s' hs => Or.inl ⟨hs.1, hs.2.apart⟩
    · rintro s s' ⟨j, -, hj, hs⟩
      rwa [hj (not_not.1 hst)] at hs

end Decode

section Refused

variable {K : Type*} {V S : Type} {g : VgGguf} {cfg : ModelConfig K}
variable {o : Outcomes} {ops : Ops V S} {token kvPos : Int}

/-- How the embedding of a token turns out. -/
def embedStatus (g : VgGguf) (cfg : ModelConfig K) (o : Outcomes) (token : Int) : Status :=
  (modelGraphEmbed (cpuGraph g cfg) o unitOps token unitWork).1.1

/-- The decode gets to the layers. -/
def Reaches (g : VgGguf) (cfg : ModelConfig K) (o : Outcomes) (token kvPos : Int) : Prop :=
  toUInt32 kvPos < cfg.nCtx ∧ embedStatus g cfg o token = .ok

/-- One status from every state; only an embedding that succeeds is written. -/
def Embeds (m : Exec V S Status) (st : Status) (x : V) : Prop :=
  ∀ s, (m s).1 = (st, if st = .ok then { s with hidden := x } else s)

/-- The embedding turns out the same under every interpretation. -/
theorem modelGraphEmbed_embeds : ∃ st,
    Embeds (modelGraphEmbed (cpuGraph g cfg) o ops token) st (ops.embed token.toNat) ∧
      Embeds (modelGraphEmbed (cpuGraph g cfg) o unitOps token) st () := by
  unfold modelGraphEmbed
  split
  · exact ⟨.invalid, fun s => rfl, fun s => rfl⟩
  cases find (cpuGraph g cfg).file (txt "token_embd.weight") with
  | none => exact ⟨.invalid, fun s => rfl, fun s => rfl⟩
  | some t =>
  dsimp only
  cases quantInfo t.ggmlType with
  | none => exact ⟨.unsupported, fun s => rfl, fun s => rfl⟩
  | some q =>
  dsimp only
  generalize readable t (token.toNat * rowBytes q (cpuGraph g cfg).cfg.nEmbd % 2 ^ 64)
    (rowBytes q (cpuGraph g cfg).cfg.nEmbd) = inside
  by_cases hbuffer : o ⟨.embedding, .buffer, 0, 0⟩ = .ok
  · by_cases hrange : inside = false
    · refine ⟨.range, fun s => ?_, fun s => ?_⟩ <;> simp [allocate, refuse, hbuffer, hrange]
    · by_cases hread : o ⟨.embedding, .acquire, 0, 0⟩ = .ok
      · by_cases hrow : q.kind ≠ 0 ∧ dequantizeStatus q (cpuGraph g cfg).cfg.nEmbd ≠ .ok
        · refine ⟨dequantizeStatus q (cpuGraph g cfg).cfg.nEmbd, fun s => ?_, fun s => ?_⟩ <;>
            simp [allocate, refuse, hbuffer, hrange, hread, hrow]
        · refine ⟨.ok, fun s => ?_, fun s => ?_⟩ <;>
            simp [allocate, hbuffer, hrange, hread, if_neg hrow]
      · refine ⟨o ⟨.embedding, .acquire, 0, 0⟩, fun s => ?_, fun s => ?_⟩ <;>
          simp [allocate, hbuffer, hrange, hread]
  · refine ⟨.nomem, fun s => ?_, fun s => ?_⟩ <;> simp [allocate, hbuffer]

theorem modelGraphEmbed_value : Embeds (modelGraphEmbed (cpuGraph g cfg) o ops token)
    (embedStatus g cfg o token) (ops.embed token.toNat) := by
  obtain ⟨st, hst, hunit⟩ := @modelGraphEmbed_embeds K V S g cfg o ops token
  have hstatus : embedStatus g cfg o token = st := by
    unfold embedStatus
    rw [hunit unitWork]
  rwa [hstatus]

/-- Without routed blocks no layer passes an error on. -/
theorem ffnLayer_ok {G : Graph K} {layer : Nat} (hexperts : ¬ 1 < G.cfg.nExpert) (s : Work V S) :
    (ffnLayer G o ops layer s).1.1 = .ok := by
  have hlast {α : Type} {m : Exec V S α} {f : α → Exec V S Status}
      (hf : ∀ a s, (f a s).1.1 = .ok) (s : Work V S) : ((m >>= f) s).1.1 = .ok := hf _ _
  have hrouted (head : Option V) (x : V) (s : Work V S) :
      (routedBlock G o ops layer head x s).1.1 = .ok := by
    apply hlast
    intro _
    apply hlast
    intro ready s
    split
    · rfl
    · rfl
  have hdense (x : V) (s : Work V S) : (denseBlock G o ops layer x s).1.1 = .ok := by
    unfold denseBlock
    split
    · apply hlast
      intro fused s
      split
      · rfl
      · rfl
    · rfl
  unfold ffnLayer
  rw [if_neg hexperts]
  apply hlast
  intro head
  apply hlast
  intro _
  apply hlast
  intro done s
  split
  · rfl
  · unfold perOpBlock
    apply hlast
    intro w
    apply hlast
    intro x
    apply hlast
    intro _ s
    split
    · exact hrouted head x s
    · exact hdense x s

theorem hostLayers_ok {G : Graph K} {pos : Nat} (hexperts : ¬ 1 < G.cfg.nExpert) (ls : List Nat)
    (s : Work V S) : (hostLayers G o ops pos ls s).1.1 = .ok := by
  induction ls generalizing s with
  | nil => rfl
  | cons l ls ih =>
    unfold hostLayers
    rw [Logged.bind_value, Logged.bind_value, ffnLayer_ok hexperts, if_neg (by decide)]
    exact ih _

variable [Field K] [LinearOrder K]

/-- A decode that does not get to the layers fails and leaves everything as it was. -/
theorem modelGraphDecode_refused (h : ¬ Reaches g cfg o token kvPos) : ∃ st : Status, st ≠ .ok ∧
    ∀ s, (modelGraphDecode (cpuGraph g cfg) o ops token kvPos s).1 = (st, s) := by
  unfold modelGraphDecode
  by_cases hrange : cfg.nCtx ≤ toUInt32 kvPos
  · refine ⟨.range, by decide, fun s => ?_⟩
    rw [if_pos (show (cpuGraph g cfg).cfg.nCtx ≤ toUInt32 kvPos from hrange)]
    rfl
  · have hembed : embedStatus g cfg o token ≠ .ok := fun hst => h ⟨Nat.not_le.1 hrange, hst⟩
    refine ⟨_, hembed, fun s => ?_⟩
    rw [if_neg (show ¬ (cpuGraph g cfg).cfg.nCtx ≤ toUInt32 kvPos from hrange),
      Logged.bind_value, modelGraphEmbed_value, if_pos hembed, if_neg hembed]
    rfl

/-- A decode that gets to the layers runs them on the embedding. -/
theorem modelGraphDecode_reached (h : Reaches g cfg o token kvPos) {s : Work V S}
    (hcold : s.gpuDense ≠ some true) :
    (modelGraphDecode (cpuGraph g cfg) o ops token kvPos s).1 =
      (hostPath (cpuGraph g cfg) o ops (toSingle (toUInt32 kvPos))
        { s with hidden := ops.embed token.toNat, gpuDense := some false }).1 := by
  obtain ⟨hrange, hembed⟩ := h
  unfold modelGraphDecode
  rw [if_neg (show ¬ (cpuGraph g cfg).cfg.nCtx ≤ toUInt32 kvPos from Nat.not_le.2 hrange),
    Logged.bind_value, modelGraphEmbed_value, if_pos hembed, if_neg (not_not.2 hembed)]
  dsimp only
  rw [Logged.bind_value, denseStage_cpu]
  exact hcold

/-- Two decodes of one token in step: they have one outcome, and where it is an error the pages
are related as they were before some layer. -/
theorem modelGraphDecode_coupled {same : V → V → Prop} {rel : Nat → S → S → Prop}
    (ho : ReadsOnly o) (hproj : Projected g cfg) (hlaid : Laid g cfg o)
    (hfed : FedAll g cfg o) (hreach : Reaches g cfg o token kvPos)
    (hcarry : Carries g cfg o ops (toSingle (toUInt32 kvPos)) rel)
    (hlogits : (∀ a b, same a b → a = b) ∨ HeadKnown g cfg) :
    Logged.Coupled (Apart same (rel 0)) (modelGraphDecode (cpuGraph g cfg) o ops token kvPos)
      fun st s s' => (st = .ok ∧ Apart Eq (rel cfg.nLayer) s s') ∨
        (st ≠ .ok ∧ ∃ j ≤ cfg.nLayer, Apart same (rel j) s s') := by
  intro s s' hs
  rw [modelGraphDecode_reached hreach hs.cold, modelGraphDecode_reached hreach hs.cold']
  apply hostPath_coupled ho hproj hlaid hfed hcarry hlogits
  exact ⟨rfl, hs.logits, hs.kv, by simp, by simp⟩

/-- Such a decode succeeds as soon as it gets to the layers. -/
theorem modelGraphDecode_ok (hexperts : ¬ 1 < cfg.nExpert) (h : Reaches g cfg o token kvPos)
    (s : Work V S) : (modelGraphDecode (cpuGraph g cfg) o ops token kvPos s).1.1 = .ok := by
  obtain ⟨hrange, hembed⟩ := h
  unfold modelGraphDecode
  rw [if_neg (show ¬ (cpuGraph g cfg).cfg.nCtx ≤ toUInt32 kvPos from Nat.not_le.2 hrange),
    Logged.bind_value, modelGraphEmbed_value, if_neg (not_not.2 hembed), Logged.bind_value]
  cases (denseStage (cpuGraph g cfg) o ops (toUInt32 kvPos) _).1.1 with
  | logits => rfl
  | layers => rfl
  | failed =>
    dsimp only
    unfold hostPath
    rw [Logged.bind_value, hostLayers_ok hexperts, if_neg (by decide)]
    rfl

end Refused

end VgEngine.Decode

import VgEngine.Decode.Frame

/-! What a decode does to the key and value pages on any graph and whatever fails: a layer stores
at most one row. -/
namespace VgEngine.Decode
open Lib Bytes Gguf Model Single

section Store

variable {K : Type*} {V S : Type} {g : Graph K} {o : Outcomes} {ops : Ops V S}
variable {layer pos kvd : Nat} {k v : Option V} {s : Work V S}

/-- The pages with one for the position, as far as it could be allocated. -/
def withPageOf (o : Outcomes) (ops : Ops V S) (layer pos kvd : Nat) (kv : S) : S :=
  if ops.pageMissing layer pos kv then
    ops.addPage layer pos kvd (o ⟨.page, .buffer, layer, 0⟩ = .ok) (o ⟨.page, .buffer, layer, 1⟩ = .ok)
      kv
  else kv

/-- What `storeRow` does to the pages. -/
def stores (cfg : ModelConfig K) (o : Outcomes) (ops : Ops V S) (layer pos kvd : Nat)
    (k v : Option V) (kv : S) : S :=
  if pos < cfg.nCtx then
    ops.writeRow layer pos kvd k v (withPageOf o ops layer pos kvd (withoutPage cfg ops layer pos kv))
  else withoutPage cfg ops layer pos kv

theorem storeRow_stores : (storeRow g o ops layer pos k v kvd s).1.2 =
    { s with kv := stores g.cfg o ops layer pos kvd k v s.kv } := by
  have hevict (s : Work V S) : (Logged.onlyIf
      (g.cfg.slidingWindow ≤ pos ∧ 0 < g.cfg.slidingWindow)
      (Logged.modify fun w => { w with kv := ops.evict layer pos w.kv }) s : _ × List Event).1 =
        ((), { s with kv := withoutPage g.cfg ops layer pos s.kv }) := by
    unfold Logged.onlyIf withoutPage
    split
    · rfl
    · rfl
  have hpage (s : Work V S) : (addPage o ops layer pos kvd s).1 =
      ((), { s with kv := withPageOf o ops layer pos kvd s.kv }) := by
    unfold addPage withPageOf
    rw [Logged.bind_value, Logged.get_value]
    dsimp only
    split
    · simp [allocate]
    · rfl
  unfold storeRow stores
  rw [Logged.bind_value, hevict]
  split
  · rw [Logged.bind_value, hpage]
    rfl
  · rfl

/-- What a layer stores, as far as the calls it depends on succeed. -/
structure Puts (g : Graph K) (o : Outcomes) (layer kvd : Nat) (k v : Option V) : Prop where
  width : Reads o .attnK layer → Reads o .attnV layer → kvd = kvDim g.file g.cfg layer
  key : Reads o .attnK layer → o ⟨.attnK, .buffer, layer, 0⟩ = .ok → k.isSome = true
  value : Reads o .attnV layer → o ⟨.attnV, .buffer, layer, 0⟩ = .ok → v.isSome = true

theorem project_isSome {place biasPlace : Place} {bias : String} {m : Matmul} {gpu : Bool}
    {old : Option V} {x : V} (hbuffer : o ⟨place, .buffer, layer, 0⟩ = .ok) :
    Logged.Ensures (project g o ops layer place biasPlace bias m gpu old x : Exec V S _)
      fun r => r.isSome = true := by
  have hready : Logged.Ensures (projectBuffer o layer place old : Exec V S _) (· = true) := by
    cases old with
    | none => exact fun s => by simp [projectBuffer, allocate, hbuffer]
    | some y => exact .pure rfl
  unfold project
  refine hready.bind ?_
  rintro _ rfl
  exact .last fun y => .last fun y => .pure rfl

theorem keyStage_puts {batch : Batch V} {x : V}
    (hfind : ∃ t, find g.file (blk layer "attn_k.weight") = some t)
    (hread : Reads o .attnK layer) :
    Logged.Ensures (keyStage g o ops layer pos batch x) fun r =>
      r.2 = keyDim g.file g.cfg layer ∧
        (o ⟨.attnK, .buffer, layer, 0⟩ = .ok → r.1.isSome = true) := by
  obtain ⟨t, hfind⟩ := hfind
  unfold keyStage
  refine (acquireWeight_yields hfind hread).ensures.bind ?_
  rintro _ rfl
  refine Logged.Ensures.last fun _ => ?_
  refine Logged.Ensures.bind (P := fun r =>
    o ⟨.attnK, .buffer, layer, 0⟩ = .ok → r.isSome = true) ?_ ?_
  · exact fun s hbuffer => project_isSome hbuffer s
  · intro r hr
    cases r with
    | none => exact .pure ⟨rfl, hr⟩
    | some k => exact .last fun k => .pure ⟨rfl, fun _ => rfl⟩

theorem valueStage_puts {batch : Batch V} {x : V}
    (hfind : ∃ t, find g.file (blk layer "attn_v.weight") = some t)
    (hread : Reads o .attnV layer) :
    Logged.Ensures (valueStage g o ops layer batch kvd x) fun r =>
      r.2 = outDim g.file (blk layer "attn_v.weight") kvd ∧
        (o ⟨.attnV, .buffer, layer, 0⟩ = .ok → r.1.isSome = true) := by
  obtain ⟨t, hfind⟩ := hfind
  unfold valueStage
  refine (acquireWeight_yields hfind hread).ensures.bind ?_
  rintro _ rfl
  refine Logged.Ensures.last fun _ => ?_
  refine Logged.Ensures.bind (P := fun r =>
    o ⟨.attnV, .buffer, layer, 0⟩ = .ok → r.isSome = true) ?_ ?_
  · exact fun s hbuffer => project_isSome hbuffer s
  · exact fun v hv => .pure ⟨rfl, hv⟩

/-- A computation that stores one row of a layer. -/
def StoresRow (g : Graph K) (o : Outcomes) (ops : Ops V S) (layer pos : Nat) {α : Type}
    (m : Exec V S α) : Prop :=
  ∀ s, ∃ kvd k v, Puts g o layer kvd k v ∧
    (m s).1.2.stored = (stores g.cfg o ops layer pos kvd k v s.kv, s.gpuDense)

theorem StoresRow.after {α β : Type} {m : Exec V S α} {f : α → Exec V S β} {P : α → Prop}
    (h : Framed m) (hvalue : Logged.Ensures m P)
    (hf : ∀ a, P a → StoresRow g o ops layer pos (f a)) : StoresRow g o ops layer pos (m >>= f) := by
  intro s
  obtain ⟨kvd, k, v, hputs, hstored⟩ := hf _ (hvalue s) (m s).1.2
  rw [h.kv s, h.gpuDense s] at hstored
  exact ⟨kvd, k, v, hputs, hstored⟩

theorem StoresRow.next {α β : Type} {m : Exec V S α} {f : α → Exec V S β} (h : Framed m)
    (hf : ∀ a, StoresRow g o ops layer pos (f a)) : StoresRow g o ops layer pos (m >>= f) :=
  .after h Logged.Ensures.trivial fun a _ => hf a

theorem batchProjections_framed (tq : GgufTensor) (qdim : Nat) (x : V) :
    Framed (batchProjections g o ops layer tq qdim x : Exec V S _) := by
  unfold batchProjections
  dsimp only
  split
  · exact .ite (.pure _) (.pure _)
  · exact .pure _

theorem storeRow_storesRow (hputs : Puts g o layer kvd k v) :
    StoresRow g o ops layer pos (do
      storeRow g o ops layer pos k v kvd
      attendStage g o ops layer pos kvd
      outputStage g o ops layer) := by
  have hrest : Framed (do
      attendStage g o ops layer pos kvd
      outputStage g o ops layer) := (attendStage_frames stored_aside _).bind fun _ => outputStage_framed
  intro s
  refine ⟨kvd, k, v, hputs, ?_⟩
  rw [Logged.bind_value, hrest, storeRow_stores]
  rfl

/-- A layer stores one row, or nothing if its query is not read. -/
theorem attentionLayer_stores (hproj : Projected g.file g.cfg) (hl : layer < g.cfg.nLayer) :
    (¬ Reads o .attnQ layer ∧ Framed (attentionLayer g o ops layer pos)) ∨
      (Reads o .attnQ layer ∧ StoresRow g o ops layer pos (attentionLayer g o ops layer pos)) := by
  obtain ⟨tq, hquery⟩ := hproj.query layer hl
  unfold attentionLayer
  by_cases hread : Reads o .attnQ layer
  · refine Or.inr ⟨hread, ?_⟩
    refine .next Logged.Frames.get fun w => ?_
    refine .next (Logged.Frames.modify fun _ => rfl) fun _ => ?_
    refine .next (normalise_stateless _ _).frames fun x => ?_
    refine .next (Logged.Frames.modify fun _ => rfl) fun _ => ?_
    refine .after (acquireWeight_framed _) (acquireWeight_yields hquery hread).ensures ?_
    rintro _ rfl
    refine .next (growQkv_frames stored_aside _ _) fun _ => ?_
    refine .next (batchProjections_framed _ _ _) fun batch => ?_
    refine .next (queryStage_frames stored_aside _ _ _) fun _ => ?_
    refine .after (P := fun r => Reads o .attnK layer → r.2 = keyDim g.file g.cfg layer ∧
      (o ⟨.attnK, .buffer, layer, 0⟩ = .ok → r.1.isSome = true)) (keyStage_frames stored_aside _ _) ?_ ?_
    · exact fun s hk => keyStage_puts (hproj.key layer hl) hk s
    rintro ⟨k, kvd⟩ hk
    refine .after (P := fun r => Reads o .attnV layer →
      r.2 = outDim g.file (blk layer "attn_v.weight") kvd ∧
        (o ⟨.attnV, .buffer, layer, 0⟩ = .ok → r.1.isSome = true)) (valueStage_frames stored_aside _ _ _) ?_ ?_
    · exact fun s hv => valueStage_puts (hproj.value layer hl) hv s
    rintro ⟨v, vd⟩ hv
    apply storeRow_storesRow
    constructor
    case width =>
      intro hreadK hreadV
      obtain ⟨rfl, -⟩ := hk hreadK
      exact (hv hreadV).1
    case key => exact fun hreadK => (hk hreadK).2
    case value => exact fun hreadV => (hv hreadV).2
  · refine Or.inl ⟨hread, ?_⟩
    have hfails : Logged.Ensures
        (acquireWeight g o .attnQ layer 0 (blk layer "attn_q.weight") : Exec V S _)
        fun r => ∃ st, r = .error st := by
      intro s
      simp [acquireWeight, hquery, show ¬ o ⟨.attnQ, .acquire, layer, 0⟩ = .ok from hread]
    apply Logged.Frames.get.bind
    intro w
    apply Logged.Frames.bind
    · exact .modify fun _ => rfl
    intro _
    apply (normalise_stateless _ _).frames.bind
    intro x
    apply Logged.Frames.bind
    · exact .modify fun _ => rfl
    intro _
    refine (acquireWeight_framed _).bind_of hfails ?_
    rintro _ ⟨st, rfl⟩
    exact .modify fun _ => rfl

end Store

section Decode

variable {K : Type*} {V S : Type} {g : Graph K} {o : Outcomes} {ops : Ops V S} {pos : Nat}
variable {inv : Nat → S → Prop}

/-- What each store of a decode on the host preserves, from layer to layer: `inv l` holds before
layer `l`. -/
structure Preserves (g : Graph K) (o : Outcomes) (ops : Ops V S) (pos : Nat)
    (inv : Nat → S → Prop) : Prop where
  skip : ∀ l < g.cfg.nLayer, ¬ Reads o .attnQ l → ∀ kv, inv l kv → inv (l + 1) kv
  store : ∀ l < g.cfg.nLayer, Reads o .attnQ l → ∀ kvd k v, Puts g o l kvd k v → ∀ kv, inv l kv →
    inv (l + 1) (stores g.cfg o ops l pos kvd k v kv)

theorem attentionLayer_preserves {layer : Nat} (hproj : Projected g.file g.cfg)
    (hinv : Preserves g o ops pos inv) (hl : layer < g.cfg.nLayer) {s : Work V S}
    (h : inv layer s.kv) : inv (layer + 1) (attentionLayer g o ops layer pos s).1.2.kv ∧
      (attentionLayer g o ops layer pos s).1.2.gpuDense = s.gpuDense := by
  rcases attentionLayer_stores hproj hl with ⟨hread, hframed⟩ | ⟨hread, hstores⟩
  · rw [Framed.kv hframed s]
    exact ⟨hinv.skip layer hl hread _ h, Framed.gpuDense hframed s⟩
  · obtain ⟨kvd, k, v, hputs, hstored⟩ := hstores s
    have hkv : (attentionLayer g o ops layer pos s).1.2.kv =
        stores g.cfg o ops layer pos kvd k v s.kv := congrArg Prod.fst hstored
    rw [hkv]
    exact ⟨hinv.store layer hl hread kvd k v hputs _ h, congrArg Prod.snd hstored⟩

/-- The layers from `i` on, up to the one that fails. -/
theorem hostLayers_preserves (hproj : Projected g.file g.cfg) (hinv : Preserves g o ops pos inv)
    (m i : Nat) (hlast : i + m ≤ g.cfg.nLayer) {s : Work V S} (h : inv i s.kv) :
    ∃ j ≤ i + m, inv j (hostLayers g o ops pos (List.range' i m) s).1.2.kv ∧
      ((hostLayers g o ops pos (List.range' i m) s).1.1 = .ok → j = i + m) ∧
      (hostLayers g o ops pos (List.range' i m) s).1.2.gpuDense = s.gpuDense := by
  induction m generalizing i s with
  | zero => exact ⟨i, le_rfl, h, fun _ => rfl, rfl⟩
  | succ m ih =>
    rw [List.range'_succ]
    obtain ⟨hattention, hdense⟩ := attentionLayer_preserves hproj hinv (by omega) h
    have hffn : Framed (ffnLayer g o ops i) := ffnLayer_framed
    rw [← hffn.kv] at hattention
    rw [← hffn.gpuDense] at hdense
    unfold hostLayers
    rw [Logged.bind_value, Logged.bind_value]
    by_cases hok : (ffnLayer g o ops i (attentionLayer g o ops i pos s).1.2).1.1 = .ok
    · rw [if_neg (not_not.2 hok)]
      obtain ⟨j, hj, hend, hall, hcold⟩ := ih (i + 1) (by omega) hattention
      exact ⟨j, by omega, hend, fun h => by rw [hall h]; omega, hcold.trans hdense⟩
    · rw [if_pos hok]
      exact ⟨i + 1, by omega, hattention, fun h => absurd h hok, hdense⟩

variable [Field K] [LinearOrder K]

/-- The layers on the host, up to the one that fails, and the output head. -/
theorem hostPath_preserves (hproj : Projected g.file g.cfg) (hinv : Preserves g o ops pos inv)
    {s : Work V S} (h : inv 0 s.kv) : ∃ j ≤ g.cfg.nLayer,
      inv j (hostPath g o ops pos s).1.2.kv ∧
      ((hostPath g o ops pos s).1.1 = .ok → j = g.cfg.nLayer) ∧
      (hostPath g o ops pos s).1.2.gpuDense = s.gpuDense := by
  obtain ⟨j, hj, hend, hall, hdense⟩ := hostLayers_preserves hproj hinv g.cfg.nLayer 0
    (Nat.zero_add _).le h
  rw [← List.range_eq_range', Nat.zero_add] at *
  have hhead : Framed (do
      outputHead g o ops
      finish g ops) := outputHead_framed.bind fun _ => finish_framed
  unfold hostPath
  rw [Logged.bind_value]
  by_cases hok : (hostLayers g o ops pos (List.range g.cfg.nLayer) s).1.1 = .ok
  · rw [if_neg (not_not.2 hok), hhead.kv, hhead.gpuDense]
    exact ⟨j, hj, hend, fun _ => hall hok, hdense⟩
  · rw [if_pos hok]
    exact ⟨j, hj, hend, fun h => absurd h hok, hdense⟩

end Decode

section Host

variable {K : Type*} [Field K] [LinearOrder K] {V S : Type} {g : VgGguf} {cfg : ModelConfig K}
variable {o : Outcomes} {ops : Ops V S} {inv : Nat → S → Prop} {token kvPos : Int}

/-- A decode on the CPU, whatever fails in it. -/
theorem modelGraphDecode_preserves (hproj : Projected g cfg)
    (hinv : Preserves (cpuGraph g cfg) o ops (toSingle (toUInt32 kvPos)) inv) {s : Work V S}
    (hcold : s.gpuDense ≠ some true) (h : inv 0 s.kv) : ∃ j ≤ cfg.nLayer,
      inv j (modelGraphDecode (cpuGraph g cfg) o ops token kvPos s).1.2.kv ∧
      ((modelGraphDecode (cpuGraph g cfg) o ops token kvPos s).1.1 = .ok → j = cfg.nLayer) ∧
      (modelGraphDecode (cpuGraph g cfg) o ops token kvPos s).1.2.gpuDense ≠ some true := by
  by_cases hreach : Reaches g cfg o token kvPos
  · rw [modelGraphDecode_reached hreach hcold]
    let s' : Work V S := { s with hidden := ops.embed token.toNat, gpuDense := some false }
    obtain ⟨j, hj, hend, hall, hdense⟩ := @hostPath_preserves K V S (cpuGraph g cfg) o ops _ inv _ _
      hproj hinv s' h
    exact ⟨j, hj, hend, hall, by rw [hdense]; simp [s']⟩
  · obtain ⟨st, hst, hrefused⟩ := @modelGraphDecode_refused K V S g cfg o ops token kvPos _ _ hreach
    rw [hrefused]
    exact ⟨0, Nat.zero_le _, h, fun hok => absurd hok hst, hcold⟩

end Host

end VgEngine.Decode

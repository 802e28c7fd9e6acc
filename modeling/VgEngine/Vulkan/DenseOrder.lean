import VgEngine.Vulkan.DenseSets
import VgEngine.Vulkan.Orders

/-! The orders of a token of the dense path. They are what its command buffer does as long as no
descriptor set is taken twice, and up to the end of the last layer no barrier is missing. -/
namespace VgEngine.Vulkan
open VgEngine.Lib CommandBuffer

section Recording

variable {F : Type}

/-- A layer with the constants of its dispatches. -/
structure DenseToken (F : Type) extends DenseLayer where
  nRot : UInt32
  pos : UInt32
  hasFreqs : Bool
  freqBase : F
  eps : F

structure HeadToken (F : Type) extends FinalHead where
  eps : F

variable (B : Nat → Nat) (d₀ d : DenseToken F)

/-- `kv_hdim` -/
def kvHdim : UInt32 := if d₀.HKV ≠ 0 then d₀.KVdim / d₀.HKV else d₀.HD

/-- `nr_rot` -/
def nRotQ : UInt32 := if d₀.HD < d.nRot then d₀.HD else d.nRot

/-- `k_rot` -/
def nRotK : UInt32 := if kvHdim d₀ < nRotQ d₀ d then kvHdim d₀ else nRotQ d₀ d

/-- `hf` -/
def hasFactors : UInt32 := if d.hasFreqs then 1 else 0

/-- From the hidden state to the query, the key and the value. -/
def qkvOrders : List (Order Pipeline F) :=
  let freq := d.ropeFreqs.getD (B 0)
  [rnorm d.hiddenDev d.attnNormW (B 0) d₀.D d.eps, bar,
    quant (B 0) (B 1) (B 2) (d₀.D / 32), bar,
    mvec d.qW d.qS (B 1) (B 2) (B 3) d₀.Qdim d₀.D, bar,
    mvec d.kW d.kS (B 1) (B 2) (B 4) d₀.KVdim d₀.D, bar,
    mvec d.vW d.vS (B 1) (B 2) (B 5) d₀.KVdim d₀.D, bar,
    rope (B 3) freq d₀.HD d₀.H (nRotQ d₀ d) d.pos d.freqBase (hasFactors d), bar,
    rope (B 4) freq (kvHdim d₀) d₀.HKV (nRotK d₀ d) d.pos d.freqBase (hasFactors d), bar]

/-- The row of the token goes to the caches, and the query to the keys. -/
def attnOrders : List (Order Pipeline F) :=
  let bytes := d₀.KVdim.toUInt64 * 4
  let offset := d.pos.toUInt64 * d₀.KVdim.toUInt64 * 4
  [computed,
    .copy (B 4) d.kCache bytes offset,
    .copy (B 5) d.vCache bytes offset,
    uploaded,
    attn d₀.toDenseLayer d.pos (B 3) d.kCache d.vCache (B 6), bar,
    quant (B 6) (B 7) (B 8) (d₀.Qdim / 32), bar]

/-- The feed-forward block, up to the addition that makes the hidden state. -/
def ffnOrders : List (Order Pipeline F) :=
  feedForward d.gateW d.gateS d.upW d.upS d.downW d.downS (B 12) (B 13) (B 14) (B 15) (B 16) (B 17)
    (B 18) (B 19) d₀.D d₀.FF ++ [bar, radd (B 19) (B 10) d.hiddenDev d₀.D]

/-- One layer. The dimensions are those of the first. -/
def layerOrders : List (Order Pipeline F) :=
  qkvOrders B d₀ d ++ attnOrders B d₀ d ++
    projectNorm d.oW d.oS (B 7) (B 8) (B 9) d.hiddenDev (B 10) d.ffnNormW (B 11) (B 12) (B 13) d₀.D
      d₀.Qdim d.eps ++ ffnOrders B d₀ d

/-- The hidden state goes to its staging buffer, if there is one. -/
def outOrders (hidden : Nat) : Option Nat → List (Order Pipeline F)
  | none => []
  | some out => [computed, .copy hidden out (d₀.D.toUInt64 * 4) 0]

def layersOrders (out : Option Nat) : List (DenseToken F) → List (Order Pipeline F)
  | [] => []
  | [d] => layerOrders B d₀ d ++ outOrders d₀ d.hiddenDev out
  | d :: L => layerOrders B d₀ d ++ bar :: layersOrders out L

def headOrders (head : HeadToken F) (hidden logits staging : Nat) : List (Order Pipeline F) :=
  [rnorm hidden head.normW (B 10) d₀.D head.eps, bar,
    quant (B 10) (B 12) (B 13) (d₀.D / 32), bar,
    mvec head.lmW head.lmS (B 12) (B 13) logits head.vocab d₀.D,
    computed,
    .copy logits staging (head.vocab.toUInt64 * 4) 0]

def inputOrders : Option Nat → List (Order Pipeline F)
  | none => []
  | some b => [.copy b d₀.hiddenDev (d₀.D.toUInt64 * 4) 0, uploaded]

/-- The command buffer of a token. -/
def recordOrders (input out : Option Nat) (last : DenseToken F) (L : List (DenseToken F))
    (head : Option (HeadToken F × Nat × Nat)) : List (Order Pipeline F) :=
  inputOrders d₀ input ++ layersOrders B d₀ out L ++
  match head with
  | none => []
  | some (head, logits, staging) => headOrders B d₀ head last.hiddenDev logits staging

end Recording

theorem layersOrders_cons {F : Type} (B : Nat → Nat) (d₀ d d' : DenseToken F) (out : Option Nat)
    (L : List (DenseToken F)) : layersOrders B d₀ out (d :: d' :: L) =
      layerOrders B d₀ d ++ bar :: layersOrders B d₀ out (d' :: L) := rfl

section Resolved

variable {F : Type}

/-- The buffers that a descriptor set has once everything is recorded. -/
def boundTo (cs : List Command) (p : Pipeline) (set : Nat) : Option (List Nat) :=
  cs.reverse.findSome? fun
    | .bind q s bufs => if q = p ∧ s = set then some bufs else none
    | .dispatch _ _ | .copy _ _ => none

/-- The work of a part of a recording: dispatches with their buffers, and copies. -/
def resolve (cs part : List Command) : List (Pipeline × List Nat ⊕ Nat × Nat) :=
  part.filterMap fun
    | .bind _ _ _ => none
    | .dispatch p set => (boundTo cs p set).map fun bufs => .inl (p, bufs)
    | .copy src dst => some (.inr (src, dst))

def Order.work : Order Pipeline F → Option (Pipeline × List Nat ⊕ Nat × Nat)
  | .dispatch p bufs _ _ => some (.inl (p, bufs))
  | .copy src dst _ _ => some (.inr (src, dst))
  | .barrier _ _ _ _ => none

/-- What a command binds stays bound. -/
def Keeps (cs : List Command) : Command → Prop
  | .bind p set bufs => boundTo cs p set = some bufs
  | .dispatch _ _ | .copy _ _ => True

theorem mem_setsOf {cs : List Command} {p : Pipeline} {set : Nat} {bufs : List Nat}
    (h : .bind p set bufs ∈ cs) : set ∈ setsOf p cs :=
  List.mem_filterMap.2 ⟨_, h, if_pos rfl⟩

theorem setsOf_bind (cs : List Command) (p : Pipeline) (set : Nat) (bufs : List Nat) :
    setsOf p (.bind p set bufs :: cs) = set :: setsOf p cs :=
  List.filterMap_cons_some (if_pos rfl)

theorem bind_unique {cs : List Command} {p : Pipeline} {set : Nat} {bufs bufs' : List Nat}
    (hnodup : (setsOf p cs).Nodup) (h : .bind p set bufs ∈ cs) (h' : .bind p set bufs' ∈ cs) :
    bufs = bufs' := by
  induction cs with
  | nil => cases h
  | cons c cs ih =>
    have hrest : (setsOf p cs).Nodup := by
      refine hnodup.sublist ?_
      exact (List.sublist_cons_self c cs).filterMap _
    rcases List.mem_cons.1 h with rfl | hmem <;> rcases List.mem_cons.1 h' with heq | hmem'
    · cases heq
      rfl
    · rw [setsOf_bind, List.nodup_cons] at hnodup
      exact absurd (mem_setsOf hmem') hnodup.1
    · rw [← heq, setsOf_bind, List.nodup_cons] at hnodup
      exact absurd (mem_setsOf hmem) hnodup.1
    · exact ih hrest hmem hmem'

theorem keeps_of_nodup {cs : List Command} (hnodup : ∀ p, (setsOf p cs).Nodup) :
    ∀ c ∈ cs, Keeps cs c := by
  intro c hc
  cases c with
  | dispatch p set => trivial
  | copy src dst => trivial
  | bind p set bufs =>
    cases hfound : boundTo cs p set with
    | none =>
      unfold boundTo at hfound
      rw [List.findSome?_eq_none_iff] at hfound
      simpa using hfound _ (List.mem_reverse.2 hc)
    | some found =>
      obtain ⟨c, hmem, hbind⟩ := List.exists_of_findSome?_eq_some hfound
      rw [List.mem_reverse] at hmem
      cases c with
      | dispatch q s => cases hbind
      | copy src dst => cases hbind
      | bind q s bs =>
        dsimp only at hbind
        split at hbind
        case isFalse => cases hbind
        case isTrue hsame =>
        obtain ⟨rfl, rfl⟩ := hsame
        cases hbind
        exact hfound.trans (congrArg some (bind_unique (hnodup q) hmem hc))

variable {B : Nat → Nat} {d₀ d : DenseToken F} {cs : List Command} {rings : Rings}

theorem resolve_layer (d₀ : DenseToken F)
    (h : ∀ c ∈ (recordLayer B d.toDenseLayer rings).1, Keeps cs c) :
    resolve cs (recordLayer B d.toDenseLayer rings).1 =
      (layerOrders B d₀ d).filterMap Order.work := by
  unfold recordLayer at h ⊢
  simp only [List.forall_mem_cons, Keeps] at h
  simp [resolve, h]
  rfl

theorem resolve_head (d₀ : DenseToken F) {head : HeadToken F} {hidden logits staging : Nat}
    (h : ∀ c ∈ (recordHead B head.toFinalHead hidden logits staging rings).1, Keeps cs c) :
    resolve cs (recordHead B head.toFinalHead hidden logits staging rings).1 =
      (headOrders B d₀ head hidden logits staging).filterMap Order.work := by
  unfold recordHead at h ⊢
  simp only [List.forall_mem_cons, Keeps] at h
  simp [resolve, h]
  rfl

theorem resolve_append (part part' : List Command) :
    resolve cs (part ++ part') = resolve cs part ++ resolve cs part' := List.filterMap_append

theorem resolve_layers (d₀ : DenseToken F) {out : Option Nat} {L : List (DenseToken F)}
    (h : ∀ c ∈ (recordLayers B out (L.map DenseToken.toDenseLayer) rings).1, Keeps cs c) :
    resolve cs (recordLayers B out (L.map DenseToken.toDenseLayer) rings).1 =
      (layersOrders B d₀ out L).filterMap Order.work := by
  induction L generalizing rings with
  | nil => rfl
  | cons d L ih =>
    rw [List.map_cons, recordLayers] at h ⊢
    dsimp only at h ⊢
    simp only [List.mem_append, or_imp, forall_and] at h
    obtain ⟨⟨hlayer, -⟩, hrest⟩ := h
    rw [resolve_append, resolve_append, resolve_layer d₀ hlayer, ih hrest]
    cases L with
    | nil =>
      cases out with
      | none => simp [layersOrders, outOrders, resolve]
      | some out =>
        simp [layersOrders, outOrders, resolve]
        rfl
    | cons d' L =>
      simp [layersOrders, resolve]
      rfl

theorem resolve_record {input out : Option Nat} {last : DenseToken F} {L : List (DenseToken F)}
    {head : Option (HeadToken F × Nat × Nat)}
    (h : ∀ c ∈ (record B input out d₀.toDenseLayer last.toDenseLayer
      (L.map DenseToken.toDenseLayer) (head.map fun r => (r.1.toFinalHead, r.2)) rings).1,
        Keeps cs c) :
    resolve cs (record B input out d₀.toDenseLayer last.toDenseLayer
      (L.map DenseToken.toDenseLayer) (head.map fun r => (r.1.toFinalHead, r.2)) rings).1 =
        (recordOrders B d₀ input out last L head).filterMap Order.work := by
  have hinput : resolve cs (input.toList.map fun b => Command.copy b d₀.hiddenDev) =
      (inputOrders d₀ input).filterMap Order.work := by
    cases input <;> rfl
  unfold record at h ⊢
  dsimp only at h ⊢
  unfold recordOrders
  cases head with
  | none =>
    simp only [Option.map_none, List.mem_append, or_imp, forall_and] at h
    simp only [Option.map_none, resolve_append, List.filterMap_append, hinput,
      resolve_layers d₀ h.2]
    simp
  | some r =>
    simp only [Option.map_some, List.mem_append, or_imp, forall_and] at h
    simp only [Option.map_some, resolve_append, List.filterMap_append, hinput,
      resolve_layers d₀ h.1.2, resolve_head d₀ h.2]

/-- Up to 146 layers, what the device does when the command buffer runs is what the orders say. -/
theorem record_resolves (input out : Option Nat) (last : DenseToken F) (L : List (DenseToken F))
    (head : Option (HeadToken F × Nat × Nat)) (hlayers : L.length ≤ 146) :
    let cs := (record B input out d₀.toDenseLayer last.toDenseLayer
      (L.map DenseToken.toDenseLayer) (head.map fun r => (r.1.toFinalHead, r.2)) rings).1
    resolve cs cs = (recordOrders B d₀ input out last L head).filterMap Order.work := by
  intro cs
  have hnodup : ∀ p, (setsOf p cs).Nodup := (record_nodup_iff ..).2 (by simpa using hlayers)
  exact resolve_record (keeps_of_nodup hnodup)

end Resolved

section Chains

variable {F α : Type} {K : Kernels Pipeline F α} {B : Nat → Nat} {d₀ d : DenseToken F}
variable {rest : List (Item Stage Nat α)}

/-- The rows of K and V go to caches of their own. -/
structure CachesApart (B : Nat → Nat) (d : DenseLayer) : Prop where
  kCache : d.kCache ≠ B 5
  vCache : d.vCache ≠ B 4
  caches : d.kCache ≠ d.vCache

theorem chained_qkv : Chained .compute (K.items (qkvOrders B d₀ d) ++ rest) ↔
    Chained .compute rest := by
  simp [Kernels.items, qkvOrders, Kernels.item, Chained, rnorm, quant, mvec, rope, bar,
    Kernels.dispatch, Stage.read, Stage.write]

theorem apart_qkv : Apart (K.items (qkvOrders B d₀ d) ++ rest) ↔ Apart rest := by
  simp [Kernels.items, qkvOrders, Kernels.item, Apart, group, rnorm, quant, mvec, rope, bar]

theorem chained_attn : Chained .compute (K.items (attnOrders B d₀ d) ++ rest) ↔
    Chained .compute rest := by
  simp [Kernels.items, attnOrders, Kernels.item, Chained, quant, attn, bar, computed, uploaded,
    Kernels.dispatch, Kernels.copyBuffer, Stage.read, Stage.write]

theorem apart_attn (hd : CachesApart B d.toDenseLayer) :
    Apart (K.items (attnOrders B d₀ d) ++ rest) ↔ Apart rest := by
  simp [Kernels.items, attnOrders, Kernels.item, Apart, group, quant, attn, bar, computed, uploaded,
    copies_apart hd.kCache hd.vCache hd.caches]

/-- A layer leads from the shaders to the shaders. -/
theorem chained_layer : Chained .compute (K.items (layerOrders B d₀ d) ++ rest) ↔
    Chained .compute rest := by
  unfold layerOrders ffnOrders
  rw [items_append, items_append, items_append, items_append, List.append_assoc, List.append_assoc,
    List.append_assoc, chained_qkv, chained_attn, chained_projectNorm, List.append_assoc,
    chained_feedForward]
  exact chained_bar.trans (and_iff_right rfl)

theorem apart_layer (hd : CachesApart B d.toDenseLayer) (hrest : group rest = []) :
    Apart (K.items (layerOrders B d₀ d) ++ rest) ↔ Apart rest := by
  unfold layerOrders ffnOrders
  rw [items_append, items_append, items_append, items_append, List.append_assoc, List.append_assoc,
    List.append_assoc, apart_qkv, apart_attn hd, apart_projectNorm, List.append_assoc,
    apart_feedForward rfl]
  exact and_iff_right fun e he => absurd (show e ∈ group rest from he) (by simp [hrest])

theorem chained_layers (d₀ : DenseToken F) (out : Option Nat) (L : List (DenseToken F)) :
    Chained .compute (K.items (layersOrders B d₀ out L)) := by
  fun_induction layersOrders B d₀ out L with
  | case1 => trivial
  | case2 d =>
    rw [items_append, chained_layer]
    cases out with
    | none => trivial
    | some out => exact chained_computed.2 ⟨rfl, trivial⟩
  | case3 d L hne ih =>
    rw [items_append, chained_layer]
    exact chained_bar.2 ih

theorem apart_layers (out : Option Nat) {L : List (DenseToken F)}
    (hL : ∀ d ∈ L, CachesApart B d.toDenseLayer) :
    Apart (K.items (layersOrders B d₀ out L)) := by
  fun_induction layersOrders B d₀ out L with
  | case1 => trivial
  | case2 d =>
    rw [items_append, apart_layer (hL d List.mem_cons_self)]
    · cases out <;> simp [Kernels.items, outOrders, Kernels.item, computed, Apart, group]
    · cases out <;> rfl
  | case3 d L hne ih =>
    rw [items_append, apart_layer (hL d List.mem_cons_self) rfl]
    exact ih fun d hd => hL d (List.mem_cons_of_mem _ hd)

/-- Without the final head, a token leaves what it leaves in the order of its recording. -/
theorem hazardFree_record {input out : Option Nat} {last : DenseToken F} {L : List (DenseToken F)}
    (hL : ∀ d ∈ L, CachesApart B d.toDenseLayer) :
    HazardFree (K.items (recordOrders B d₀ input out last L none)) := by
  unfold recordOrders
  rw [List.append_nil, items_append]
  have hlayers := chained_layers (K := K) (B := B) d₀ out L
  cases input with
  | none => exact hlayers.hazardFree (apart_layers out hL)
  | some b =>
    refine Chained.hazardFree (s := .transfer) ⟨rfl, chained_uploaded.2 hlayers⟩ ⟨?_, ?_⟩
    · simp [group, Kernels.item, uploaded]
    · exact apart_layers out hL

end Chains

end VgEngine.Vulkan

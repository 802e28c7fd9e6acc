import VgEngine.Model.Norms
import VgEngine.Lib.Single
import VgEngine.Lib.Shares

/-! The key and value elements that the head loop of `attention_layer` reads. -/
namespace VgEngine.Model
open Bytes Gguf Single Shares

section Loop

variable {K : Type*} (g : VgGguf) (cfg : ModelConfig K) (layer : Nat)

/-- The positions of a page. -/
def pageTokens : Nat := 64

/-- `kv_capacity`, the pages of a layer. -/
def ModelConfig.kvCapacity : Nat := wrap32 (cfg.nCtx + pageTokens - 1) / pageTokens

/-- The page pointers that the loader allocates for all the layers. -/
def ModelConfig.pageSlots : Nat := wrap32 (cfg.nLayer * cfg.kvCapacity)

/-- `gk`, the query heads of a key head. -/
def ModelConfig.groupSize : Nat :=
  let gk := cfg.nHead / cfg.kvHeads
  if gk = 0 then 1 else gk

/-- `kv_h`, the key head of a query head. -/
def ModelConfig.kvHead (h : Nat) : Nat := h / cfg.groupSize

/-- `lpg`, the page pointer for a position. -/
def pageSlot (t : Nat) : Nat := wrap32 (layer * cfg.kvCapacity + t / pageTokens)

/-- `so`, the start of a head in the page of a position. -/
def headOffset (h t : Nat) : Nat :=
  wrap32 (t % pageTokens * kvDim g cfg layer + cfg.kvHead h * kvWidth g cfg layer)

/-- The floats of a page of a layer. -/
def pageFloats : Nat := wrap32 (pageTokens * kvDim g cfg layer)

/-- The key elements read for a head and a position, as page pointers with offsets. -/
def keyReads (h t : Nat) : List (Nat × Nat) :=
  (List.range (headWidth g cfg layer)).map fun d =>
    (pageSlot cfg layer t, headOffset g cfg layer h t + d)

def valueReads (h t : Nat) : List (Nat × Nat) :=
  (List.range (kvWidth g cfg layer)).map fun d =>
    (pageSlot cfg layer t, headOffset g cfg layer h t + d)

/-- The offset is in the row of the position in its page, and the page is the one of the
position in the pages of the layer. -/
structure InRow (t : Nat) (read : Nat × Nat) : Prop where
  page : t / pageTokens < cfg.kvCapacity
  slot : read.1 = layer * cfg.kvCapacity + t / pageTokens
  table : read.1 < cfg.pageSlots
  low : t % pageTokens * kvDim g cfg layer ≤ read.2
  high : read.2 < (t % pageTokens + 1) * kvDim g cfg layer
  inside : read.2 < pageFloats g cfg layer

/-- The query heads that a key head serves. -/
def ModelConfig.group (k : Nat) : Finset Nat := {h ∈ Finset.range cfg.nHead | cfg.kvHead h = k}

/-- The head loop under the geometry that the probe has found. -/
structure HeadsInside (p : Geometry) : Prop where
  below : ∀ h < cfg.nHead, cfg.kvHead h < p.nHeadKv
  equal : ∀ k < p.nHeadKv, ∀ k' < p.nHeadKv, (cfg.group k).card = (cfg.group k').card
  rows : ∀ layer < cfg.nLayer, ∀ pos < cfg.nCtx, ∀ h < cfg.nHead, ∀ t ≤ toSingle pos,
    ∀ read ∈ keyReads g cfg layer h t ++ valueReads g cfg layer h t, InRow g cfg layer t read

/-- The page pointers for all positions exist. -/
def PagesFit : Prop :=
  ∀ pos < cfg.nCtx, toSingle pos / pageTokens < cfg.kvCapacity ∧
    layer * cfg.kvCapacity + toSingle pos / pageTokens < cfg.pageSlots

/-- The elements from the start of a row to the end of its last head. -/
def rowSpan (p : Geometry) : Nat :=
  (p.nHeadKv - 1) * kvWidth g cfg layer + max (headWidth g cfg layer) (kvWidth g cfg layer)

/-- The heads of a row fit the row, and the last row fits the page. -/
def RowsFit (p : Geometry) : Prop :=
  rowSpan g cfg layer p ≤ kvDim g cfg layer ∧
    (min cfg.nCtx pageTokens - 1) * kvDim g cfg layer + rowSpan g cfg layer p ≤
      pageFloats g cfg layer

/-- The key heads divide the query heads, and in every layer that reads anything the declared
widths and the number of positions fit the 32-bit products of the loop. -/
def GroupsFit (p : Geometry) : Prop :=
  p.nHeadKv ∣ p.nHead ∧ ∀ layer < cfg.nLayer,
    (0 < headWidth g cfg layer ∨ 0 < kvWidth g cfg layer) →
      PagesFit cfg layer ∧ RowsFit g cfg layer p

end Loop

section Bounds

variable {K : Type*} {g : VgGguf} {cfg : ModelConfig K} {layer : Nat}

theorem outDim_lt {name : List UInt8} {other : Nat} (hother : other < 2 ^ 32) :
    outDim g name other < 2 ^ 32 := by
  unfold outDim
  split
  · exact hother
  · split
    · exact Nat.mod_lt _ (by decide)
    · exact hother

theorem kvDim_lt : kvDim g cfg layer < 2 ^ 32 :=
  outDim_lt (outDim_lt (Nat.mod_lt _ (by decide)))

theorem pageFloats_lt : pageFloats g cfg layer < 2 ^ 32 := Nat.mod_lt _ (by decide)

theorem pageSlots_lt : cfg.pageSlots < 2 ^ 32 := Nat.mod_lt _ (by decide)

theorem wrap32_eq {n : Nat} (h : n < 2 ^ 32) : wrap32 n = n := Nat.mod_eq_of_lt h

/-- No more heads than the loader counts fill no more than a row. -/
theorem heads_le_kvDim {n : Nat} (h : n ≤ cfg.kvHeads) :
    n * kvWidth g cfg layer ≤ kvDim g cfg layer := by
  calc n * kvWidth g cfg layer ≤ cfg.kvHeads * kvWidth g cfg layer := Nat.mul_le_mul_right _ h
    _ ≤ kvDim g cfg layer := Nat.mul_div_le _ _

/-- The reads of a head are the offsets from its start to its larger width. -/
theorem mem_reads {h t : Nat} {read : Nat × Nat} :
    read ∈ keyReads g cfg layer h t ++ valueReads g cfg layer h t ↔
      ∃ d < max (headWidth g cfg layer) (kvWidth g cfg layer),
        read = (pageSlot cfg layer t, headOffset g cfg layer h t + d) := by
  simp only [keyReads, valueReads, List.mem_append, List.mem_map, List.mem_range, lt_max_iff]
  constructor
  · rintro (⟨d, hd, rfl⟩ | ⟨d, hd, rfl⟩)
    · exact ⟨d, Or.inl hd, rfl⟩
    · exact ⟨d, Or.inr hd, rfl⟩
  · rintro ⟨d, hd | hd, rfl⟩
    · exact Or.inl ⟨d, hd, rfl⟩
    · exact Or.inr ⟨d, hd, rfl⟩

/-- The rows of a page that positions below the context length use. -/
theorem row_lt {pos t : Nat} (hpos : pos < cfg.nCtx) (ht : t ≤ toSingle pos) :
    t % pageTokens ≤ min cfg.nCtx pageTokens - 1 := by
  unfold pageTokens
  by_cases hsmall : cfg.nCtx ≤ 64
  · have heq : toSingle pos = pos := toSingle_eq (by omega)
    omega
  · omega

variable (g layer) in
theorem kvHead_lt {p : Geometry} {h : Nat} (hlt : cfg.kvHead h < p.nHeadKv) :
    cfg.kvHead h * kvWidth g cfg layer + max (headWidth g cfg layer) (kvWidth g cfg layer) ≤
      rowSpan g cfg layer p := by
  unfold rowSpan
  apply Nat.add_le_add_right
  apply Nat.mul_le_mul_right
  omega

theorem inRow_of_fit {p : Geometry} {pos h t : Nat} {read : Nat × Nat}
    (hpages : PagesFit cfg layer) (hrows : RowsFit g cfg layer p) (hpos : pos < cfg.nCtx)
    (ht : t ≤ toSingle pos) (hhead : cfg.kvHead h < p.nHeadKv)
    (hread : read ∈ keyReads g cfg layer h t ++ valueReads g cfg layer h t) :
    InRow g cfg layer t read := by
  obtain ⟨d, hd, rfl⟩ := mem_reads.1 hread
  obtain ⟨hpage, htable⟩ := hpages pos hpos
  obtain ⟨hspan, hlast⟩ := hrows
  have hdiv : t / pageTokens ≤ toSingle pos / pageTokens := Nat.div_le_div_right ht
  have hslots : cfg.pageSlots < 2 ^ 32 := pageSlots_lt
  have hslot : pageSlot cfg layer t = layer * cfg.kvCapacity + t / pageTokens :=
    wrap32_eq (by omega)
  have hwidth := kvHead_lt g layer hhead
  have hrow : t % pageTokens * kvDim g cfg layer ≤
      (min cfg.nCtx pageTokens - 1) * kvDim g cfg layer :=
    Nat.mul_le_mul_right _ (row_lt hpos ht)
  have hfloats : pageFloats g cfg layer < 2 ^ 32 := pageFloats_lt
  have hoffset : headOffset g cfg layer h t =
      t % pageTokens * kvDim g cfg layer + cfg.kvHead h * kvWidth g cfg layer :=
    wrap32_eq (by omega)
  constructor
  case page => exact hdiv.trans_lt hpage
  case slot => exact hslot
  case table => dsimp only; omega
  case low => dsimp only; omega
  case high => dsimp only; rw [Nat.add_mul, Nat.one_mul]; omega
  case inside => dsimp only; omega

/-- The offset of a head is not wrapped if its first element is in the row. -/
theorem headOffset_eq {h t : Nat}
    (hhead : cfg.kvHead h * kvWidth g cfg layer ≤ kvDim g cfg layer)
    (hlow : t % pageTokens * kvDim g cfg layer ≤ headOffset g cfg layer h t) :
    headOffset g cfg layer h t =
      t % pageTokens * kvDim g cfg layer + cfg.kvHead h * kvWidth g cfg layer := by
  have hdim : kvDim g cfg layer < 2 ^ 32 := kvDim_lt
  have hlt : headOffset g cfg layer h t < 2 ^ 32 := Nat.mod_lt _ (by decide)
  have hrow : t % pageTokens * kvDim g cfg layer = 0 ∨
      kvDim g cfg layer ≤ t % pageTokens * kvDim g cfg layer := by
    rcases Nat.eq_zero_or_pos (t % pageTokens) with hzero | hpos
    · left
      rw [hzero, Nat.zero_mul]
    · exact Or.inr (Nat.le_mul_of_pos_left _ hpos)
  unfold headOffset wrap32 at *
  omega

theorem fit_of_inRow {p : Geometry} (hctx : 0 < cfg.nCtx) (hheads : 0 < cfg.nHead)
    (hkv : 0 < p.nHeadKv) (hle : p.nHeadKv ≤ cfg.kvHeads)
    (hlast : cfg.kvHead (cfg.nHead - 1) = p.nHeadKv - 1)
    (hreads : 0 < headWidth g cfg layer ∨ 0 < kvWidth g cfg layer)
    (hall : ∀ pos < cfg.nCtx, ∀ h < cfg.nHead, ∀ t ≤ toSingle pos,
      ∀ read ∈ keyReads g cfg layer h t ++ valueReads g cfg layer h t,
        InRow g cfg layer t read) :
    PagesFit cfg layer ∧ RowsFit g cfg layer p := by
  have hmax : 0 < max (headWidth g cfg layer) (kvWidth g cfg layer) := lt_max_iff.2 hreads
  constructor
  · intro pos hpos
    have hin := hall pos hpos 0 hheads _ le_rfl _ (mem_reads.2 ⟨0, hmax, rfl⟩)
    have hslot := hin.slot
    have htable := hin.table
    dsimp only at hslot htable
    exact ⟨hin.page, by omega⟩
  · -- the last element of the last head, in a given row
    have hfill : cfg.kvHead (cfg.nHead - 1) * kvWidth g cfg layer ≤ kvDim g cfg layer := by
      rw [hlast]
      exact heads_le_kvDim (by omega)
    have hspan (t : Nat) (ht : t < cfg.nCtx) (hsmall : t < pageTokens) :
        rowSpan g cfg layer p ≤ kvDim g cfg layer ∧
          t * kvDim g cfg layer + rowSpan g cfg layer p ≤ pageFloats g cfg layer := by
      have hexact : toSingle t = t := toSingle_eq (by unfold pageTokens at hsmall; omega)
      have hin (d : Nat) (hd : d < max (headWidth g cfg layer) (kvWidth g cfg layer)) :=
        hall t ht (cfg.nHead - 1) (by omega) t hexact.ge _ (mem_reads.2 ⟨d, hd, rfl⟩)
      have hoffset := headOffset_eq hfill (hin 0 hmax).low
      have hhigh := (hin _ (Nat.sub_one_lt_of_lt hmax)).high
      have hinside := (hin _ (Nat.sub_one_lt_of_lt hmax)).inside
      have hmod : t % pageTokens = t := Nat.mod_eq_of_lt hsmall
      dsimp only at hhigh hinside
      rw [hoffset, hlast, hmod] at hhigh hinside
      rw [Nat.add_mul, Nat.one_mul] at hhigh
      unfold rowSpan
      omega
    have hpage : 0 < pageTokens := by decide
    exact ⟨(hspan 0 hctx hpage).1, (hspan _ (by omega) (by omega)).2⟩

end Bounds

/-- A matrix whose outputs the probe has compared has that many. -/
theorem Passes.outDim_eq {g : VgGguf} {name : List UInt8} {dim0 dim1 other : Nat}
    (h : Passes g name dim0 dim1 true) (hpos : 0 < dim1) (hlt : dim1 < 2 ^ 32) :
    outDim g name other = dim1 := by
  obtain ⟨t, q, hfind, -, -, hdims⟩ := h
  obtain ⟨hrank, -, hout, -⟩ := hdims rfl
  have heq : dim t 1 = dim1 := hout (by omega)
  unfold outDim
  rw [hfind]
  change (if 2 ≤ t.nDims ∧ 1 ≤ dim t 1 then wrap32 (dim t 1) else other) = dim1
  rw [heq, if_pos ⟨hrank, hpos⟩, wrap32_eq hlt]

/-- Up to 2^24 positions, whose numbers a float holds exactly, the page pointers are all there
if their product does not wrap. -/
theorem pagesFit_of_small {K : Type*} {cfg : ModelConfig K} (hctx : cfg.nCtx ≤ 2 ^ 24)
    (hslots : cfg.nLayer * cfg.kvCapacity < 2 ^ 32) {layer : Nat} (hlayer : layer < cfg.nLayer) :
    PagesFit cfg layer := by
  intro pos hpos
  rw [toSingle_eq (by omega)]
  have hcapacity : pos / pageTokens < cfg.kvCapacity := by
    unfold ModelConfig.kvCapacity
    rw [wrap32_eq (by unfold pageTokens; omega)]
    unfold pageTokens
    omega
  refine ⟨hcapacity, ?_⟩
  calc layer * cfg.kvCapacity + pos / pageTokens < (layer + 1) * cfg.kvCapacity := by
        rw [Nat.add_mul, Nat.one_mul]
        omega
    _ ≤ cfg.nLayer * cfg.kvCapacity := Nat.mul_le_mul_right _ hlayer
    _ = cfg.pageSlots := (wrap32_eq hslots).symm

section Probe

variable {K : Type*} [Field K] [LinearOrder K] {strtof : List UInt8 → Option K}
variable {g : VgGguf} {cfg : ModelConfig K}

theorem Probed.groupSize {p : ModelProbe} {arch : List UInt8} {te : GgufTensor}
    (h : Probed g p arch te) (hload : loadConfig g strtof = some cfg) :
    cfg.groupSize = share p.nHead p.nHeadKv := by
  change share cfg.nHead cfg.kvHeads = _
  rw [h.nHead hload]
  rcases h.kvHeads hload with heq | ⟨heq, hlt⟩
  · rw [heq]
  · unfold share
    rw [heq, Nat.div_eq_of_lt hlt, Nat.div_self (Nat.pos_of_ne_zero h.heads)]
    rfl

theorem nCtx_pos (hload : loadConfig g strtof = some cfg) : 0 < cfg.nCtx := by
  obtain ⟨arch, -, rfl⟩ := Option.map_eq_some_iff.1 hload
  change 0 < if 0 < readMetadataInt g (archKey arch ".context_length") 0 then _ else 2048
  have hrange := metaInt_range (g := g) (archKey arch ".context_length")
  rw [readMetadataInt_eq]
  unfold toUInt32
  split <;> omega

/-- On an accepted file the head loop stays inside, and the query heads are shared out equally,
exactly when the key heads divide the query heads and no 32-bit product of the loop wraps. -/
theorem headsInside_iff (hprobe : (modelProbe g).ok = true)
    (hload : loadConfig g strtof = some cfg) :
    HeadsInside g cfg (modelProbe g).toGeometry ↔ GroupsFit g cfg (modelProbe g).toGeometry := by
  obtain ⟨arch, te, hprobed⟩ := modelProbe_probed hprobe
  have hheads : 0 < (modelProbe g).nHead := Nat.pos_of_ne_zero hprobed.heads
  have hkv := hprobed.nHeadKv_pos
  have hgroup (h : Nat) :
      cfg.kvHead h = h / share (modelProbe g).nHead (modelProbe g).nHeadKv := by
    rw [ModelConfig.kvHead, hprobed.groupSize hload]
  have hshares := equal_shares_iff hheads hkv
  have hmembers (k : Nat) : cfg.group k =
      members (modelProbe g).nHead (share (modelProbe g).nHead (modelProbe g).nHeadKv) k := by
    unfold ModelConfig.group members
    simp only [hgroup, hprobed.nHead hload]
  have hle : (modelProbe g).nHeadKv ≤ cfg.kvHeads := by
    rcases hprobed.kvHeads hload with heq | ⟨heq, hlt⟩ <;> omega
  constructor
  · rintro ⟨hbelow, hequal, hrows⟩
    simp only [hgroup, hprobed.nHead hload] at hbelow
    simp only [hmembers] at hequal
    have hdvd := hshares.1 ⟨hbelow, hequal⟩
    refine ⟨hdvd, fun layer hlayer hreads => ?_⟩
    apply fit_of_inRow (nCtx_pos hload) (by rwa [hprobed.nHead hload]) hkv hle _ hreads
    · exact hrows layer hlayer
    · rw [hgroup, hprobed.nHead hload]
      exact last_box hheads hkv hdvd
  · rintro ⟨hdvd, hfit⟩
    obtain ⟨hbelow, hequal⟩ := hshares.2 hdvd
    have hhead (h : Nat) (hh : h < cfg.nHead) : cfg.kvHead h < (modelProbe g).nHeadKv := by
      rw [hgroup]
      exact hbelow h (hprobed.nHead hload ▸ hh)
    constructor
    case below => exact hhead
    case equal => simpa only [hmembers] using hequal
    case rows =>
      intro layer hlayer pos hpos h hh t ht read hread
      obtain ⟨d, hd, -⟩ := mem_reads.1 hread
      have hreads := lt_max_iff.1 (Nat.zero_lt_of_lt hd)
      obtain ⟨hpages, hrows⟩ := hfit layer hlayer hreads
      exact inRow_of_fit hpages hrows hpos ht (hhead h hh) hread

/-- Where one page of all the query heads stays below 2^32 floats, the rows fit as soon as the
heads divide. -/
theorem rowsFit_of_small (hprobe : (modelProbe g).ok = true)
    (hload : loadConfig g strtof = some cfg)
    (hsmall : 64 * ((modelProbe g).nHead * (modelProbe g).headDim) < 2 ^ 32)
    (hdvd : (modelProbe g).nHeadKv ∣ (modelProbe g).nHead) {layer : Nat}
    (hlayer : layer < cfg.nLayer) : RowsFit g cfg layer (modelProbe g).toGeometry := by
  obtain ⟨arch, te, hprobed⟩ := modelProbe_probed hprobe
  generalize modelProbe g = p at *
  rw [hprobed.nLayer hload] at hlayer
  have hchecked := (hprobed.layers layer hlayer).attention
  have hhead : 0 < p.nHead := Nat.pos_of_ne_zero hprobed.heads
  have hwidth : 0 < p.headDim := Nat.pos_of_ne_zero hprobed.sizes.2.2
  have hle : p.nHeadKv * p.headDim ≤ p.nHead * p.headDim :=
    Nat.mul_le_mul_right _ (Nat.le_of_dvd hhead hdvd)
  have hkpos : 0 < p.nHeadKv * p.headDim := Nat.mul_pos hprobed.nHeadKv_pos hwidth
  have hqdim : p.qdim = p.nHead * p.headDim := wrap32_eq (by omega)
  have hkdim : p.kdim = p.nHeadKv * p.headDim := wrap32_eq (by omega)
  have hquery : headWidth g cfg layer = p.headDim := by
    unfold headWidth qDim
    rw [hchecked.query.outDim_eq (by omega) (by omega), hqdim, hprobed.nHead hload,
      if_neg hprobed.heads, Nat.mul_div_cancel_left _ hhead]
  have hrow : kvDim g cfg layer = p.nHeadKv * p.headDim := by
    unfold kvDim
    rw [hchecked.value.outDim_eq (by omega) (by omega), hkdim]
  have hvalue : kvWidth g cfg layer ≤ p.headDim := by
    unfold kvWidth
    rw [hrow]
    apply Nat.div_le_of_le_mul
    apply Nat.mul_le_mul_right
    rcases hprobed.kvHeads hload with heq | ⟨heq, hlt⟩ <;> omega
  have hspan : rowSpan g cfg layer p.toGeometry ≤ kvDim g cfg layer := by
    unfold rowSpan
    rw [hquery, max_eq_left hvalue, hrow]
    calc (p.nHeadKv - 1) * kvWidth g cfg layer + p.headDim
        ≤ (p.nHeadKv - 1) * p.headDim + p.headDim :=
          Nat.add_le_add_right (Nat.mul_le_mul_left _ hvalue) _
      _ = p.nHeadKv * p.headDim := by
          rw [← Nat.succ_mul, Nat.succ_eq_add_one, Nat.sub_add_cancel hprobed.nHeadKv_pos]
  have hpage : pageFloats g cfg layer = 64 * kvDim g cfg layer :=
    wrap32_eq (by unfold pageTokens; omega)
  have hrows : (min cfg.nCtx pageTokens - 1) * kvDim g cfg layer ≤ 63 * kvDim g cfg layer :=
    Nat.mul_le_mul_right _ (by unfold pageTokens; omega)
  exact ⟨hspan, by omega⟩

end Probe

section Example

theorem headsInside_one : ∃ (g : VgGguf) (cfg : ModelConfig ℚ),
    (modelProbe g).ok = true ∧ loadConfig g (fun _ => none) = some cfg ∧
      (HeadsInside g cfg (modelProbe g).toGeometry ↔
        GroupsFit g cfg (modelProbe g).toGeometry) := by
  have haccept : (parseIndex plainLibc floatNormFile).toOption.any
      (fun g => (modelProbe g).ok) = true := by decide +kernel
  obtain ⟨g, -, hprobe⟩ := Option.any_eq_true _ _ |>.1 haccept
  obtain ⟨cfg, hload⟩ := loadConfig_isSome (fun _ => none) hprobe
  exact ⟨g, cfg, hprobe, hload, headsInside_iff hprobe hload⟩

/-- One layer with three query heads and two key heads. -/
def oddHeadsLayout : IndexLayout :=
  llamaLayout
    [("block_count", 1), ("attention.head_count", 3), ("attention.head_count_kv", 2),
     ("attention.key_length", 1), ("feed_forward_length", 1)]
    [("token_embd.weight", [1, 1], 0), ("output_norm.weight", [1], 0),
     ("blk.0.attn_norm.weight", [1], 0), ("blk.0.attn_q.weight", [1, 3], 0),
     ("blk.0.attn_k.weight", [1, 2], 0), ("blk.0.attn_v.weight", [1, 2], 0),
     ("blk.0.attn_output.weight", [3, 1], 0), ("blk.0.ffn_norm.weight", [1], 0),
     ("blk.0.ffn_up.weight", [1, 1], 0), ("blk.0.ffn_down.weight", [1, 1], 0)]

def oddHeadsFile : GgufFile :=
  ⟨oddHeadsLayout.encode ++ List.replicate 64 0, by decide +kernel, by decide +kernel⟩

/-- The third of three heads is sent to a third of two key heads. -/
theorem oddHeads_accepted :
    ¬ ∀ (env : Libc) (file : GgufFile) (g : VgGguf) (cfg : ModelConfig ℚ),
      parseIndex env file = .ok g → (modelProbe g).ok = true →
      loadConfig g (fun _ => none) = some cfg →
        HeadsInside g cfg (modelProbe g).toGeometry := by
  intro hclaim
  have haccept : (parseIndex plainLibc oddHeadsFile).toOption.any (fun g =>
      (modelProbe g).ok && (modelProbe g).nHead == 3 && (modelProbe g).nHeadKv == 2) = true := by
    decide +kernel
  cases hparse : parseIndex plainLibc oddHeadsFile with
  | error e =>
    rw [hparse] at haccept
    cases haccept
  | ok g =>
    rw [hparse] at haccept
    obtain ⟨hheads, hkv⟩ := Bool.and_eq_true_iff.1 haccept
    obtain ⟨hprobe, hheads⟩ := Bool.and_eq_true_iff.1 hheads
    obtain ⟨cfg, hload⟩ := loadConfig_isSome (fun _ => none) hprobe
    obtain ⟨arch, te, hprobed⟩ := modelProbe_probed hprobe
    have hinside := hclaim plainLibc oddHeadsFile g cfg hparse hprobe hload
    rw [beq_iff_eq] at hheads hkv
    have hbelow := hinside.below 2 (by rw [hprobed.nHead hload]; omega)
    rw [ModelConfig.kvHead, hprobed.groupSize hload, hheads, hkv] at hbelow
    exact absurd hbelow (by decide)

end Example

end VgEngine.Model

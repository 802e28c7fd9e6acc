import VgEngine.Model.Heads
import Mathlib.Data.Finset.Prod

/-! Where `attention_layer` writes the keys and values of a position. -/
namespace VgEngine.Model
open Bytes Gguf Single

section Writes

variable {K : Type*} (g : VgGguf) (cfg : ModelConfig K) (layer : Nat)

/-- `lp`, the page pointer of a page of a layer. -/
def pageIndex (page : Nat) : Nat := wrap32 (layer * cfg.kvCapacity + page)

/-- A row that is written: its page pointer, its number in the page and its first float. -/
structure RowWrite where
  slot : Nat
  row : Nat
  start : Nat
deriving DecidableEq, Repr

/-- The row that a decode at a position writes, if any. The position has come through a float. -/
def kvWrite (kvPos : Nat) : Option RowWrite :=
  let pos := toSingle kvPos
  if pos < cfg.nCtx then
    if pos / pageTokens < cfg.kvCapacity then
      some ⟨pageIndex cfg layer (pos / pageTokens), pos % pageTokens,
        wrap32 (pos % pageTokens * kvDim g cfg layer)⟩
    else none
  else none

/-- The page pointers are those of the table, each of one page of one layer, and a decode writes
the row of its position, which is a row of the page. -/
structure KvIndexed : Prop where
  inside : ∀ layer < cfg.nLayer, ∀ pos < cfg.nCtx,
    pageIndex cfg layer (pos / pageTokens) < cfg.pageSlots
  distinct : ∀ layer < cfg.nLayer, ∀ layer' < cfg.nLayer, ∀ page < cfg.kvCapacity,
    ∀ page' < cfg.kvCapacity, pageIndex cfg layer page = pageIndex cfg layer' page' →
      layer = layer' ∧ page = page'
  written : ∀ layer < cfg.nLayer, ∀ pos < cfg.nCtx,
    kvWrite g cfg layer pos = some ⟨pageIndex cfg layer (pos / pageTokens), pos % pageTokens,
      pos % pageTokens * kvDim g cfg layer⟩
  held : ∀ layer < cfg.nLayer, ∀ pos < cfg.nCtx,
    pos % pageTokens * kvDim g cfg layer + kvDim g cfg layer ≤ pageFloats g cfg layer

/-- The pages of all the layers are counted without wrapping, a float holds every position, and the
rows in use fit in a page as it is allocated. -/
def KvFits : Prop :=
  cfg.nLayer * cfg.kvCapacity < 2 ^ 32 ∧ ∀ layer < cfg.nLayer,
    cfg.nCtx ≤ 2 ^ 24 + 1 ∧ min cfg.nCtx pageTokens * kvDim g cfg layer ≤ pageFloats g cfg layer

end Writes

section Bounds

variable {K : Type*} {g : VgGguf} {cfg : ModelConfig K} {layer page : Nat}

/-- The pages of a layer are those of its positions. -/
theorem lt_kvCapacity (hctx : cfg.nCtx < 2 ^ 31) :
    page < cfg.kvCapacity ↔ page * pageTokens < cfg.nCtx := by
  unfold ModelConfig.kvCapacity
  rw [wrap32_eq (by unfold pageTokens; omega)]
  unfold pageTokens
  omega

theorem pageOf_lt (hctx : cfg.nCtx < 2 ^ 31) {pos : Nat} (hpos : pos < cfg.nCtx) :
    pos / pageTokens < cfg.kvCapacity :=
  (lt_kvCapacity hctx).2 ((Nat.div_mul_le_self pos pageTokens).trans_lt hpos)

theorem page_lt_all (hlayer : layer < cfg.nLayer) (hpage : page < cfg.kvCapacity) :
    layer * cfg.kvCapacity + page < cfg.nLayer * cfg.kvCapacity := by
  calc layer * cfg.kvCapacity + page < (layer + 1) * cfg.kvCapacity := by
        rw [Nat.add_mul, Nat.one_mul]
        exact Nat.add_lt_add_left hpage _
    _ ≤ cfg.nLayer * cfg.kvCapacity := Nat.mul_le_mul_right _ hlayer

theorem pageIndex_eq (hslots : cfg.nLayer * cfg.kvCapacity < 2 ^ 32) (hlayer : layer < cfg.nLayer)
    (hpage : page < cfg.kvCapacity) :
    pageIndex cfg layer page = layer * cfg.kvCapacity + page :=
  wrap32_eq ((page_lt_all hlayer hpage).trans hslots)

/-- A page pointer is that of one page of one layer. -/
theorem pageIndex_inj {layer' page' : Nat} (hslots : cfg.nLayer * cfg.kvCapacity < 2 ^ 32)
    (hlayer : layer < cfg.nLayer) (hlayer' : layer' < cfg.nLayer) (hpage : page < cfg.kvCapacity)
    (hpage' : page' < cfg.kvCapacity) (heq : pageIndex cfg layer page = pageIndex cfg layer' page') :
    layer = layer' ∧ page = page' := by
  rw [pageIndex_eq hslots hlayer hpage, pageIndex_eq hslots hlayer' hpage'] at heq
  have hpos : 0 < cfg.kvCapacity := Nat.zero_lt_of_lt hpage
  have hquot := congrArg (· / cfg.kvCapacity) heq
  simp only [Nat.mul_comm _ cfg.kvCapacity, Nat.mul_add_div hpos, Nat.div_eq_of_lt hpage,
    Nat.div_eq_of_lt hpage', Nat.add_zero] at hquot
  subst hquot
  exact ⟨rfl, Nat.add_left_cancel heq⟩

/-- The row of a position ends in its page. -/
theorem row_held (hrows : min cfg.nCtx pageTokens * kvDim g cfg layer ≤ pageFloats g cfg layer)
    {pos : Nat} (hpos : pos < cfg.nCtx) :
    pos % pageTokens * kvDim g cfg layer + kvDim g cfg layer ≤ pageFloats g cfg layer := by
  have hused : pos % pageTokens + 1 ≤ min cfg.nCtx pageTokens := by
    unfold pageTokens
    omega
  rw [← Nat.succ_mul]
  exact (Nat.mul_le_mul_right _ hused).trans hrows

/-- A row ends before a later one of its page starts. -/
theorem row_end_le {t pos : Nat} (hlt : t < pos) (hsame : t / pageTokens = pos / pageTokens)
    (width : Nat) : t % pageTokens * width + width ≤ pos % pageTokens * width := by
  have hrow : t % pageTokens + 1 ≤ pos % pageTokens := by
    unfold pageTokens at hsame ⊢
    omega
  rw [← Nat.succ_mul]
  exact Nat.mul_le_mul_right width hrow

theorem KvFits.indexed (h : KvFits g cfg) (hctx : cfg.nCtx < 2 ^ 31) : KvIndexed g cfg := by
  obtain ⟨hslots, hlayers⟩ := h
  have hrow (layer : Nat) (hlayer : layer < cfg.nLayer) (pos : Nat) (hpos : pos < cfg.nCtx) :=
    row_held (hlayers layer hlayer).2 hpos
  constructor
  case inside =>
    intro layer hlayer pos hpos
    have hpage := pageOf_lt hctx hpos
    rw [pageIndex_eq hslots hlayer hpage, ModelConfig.pageSlots, wrap32_eq hslots]
    exact page_lt_all hlayer hpage
  case distinct =>
    intro layer hlayer layer' hlayer' page hpage page' hpage' heq
    exact pageIndex_inj hslots hlayer hlayer' hpage hpage' heq
  case written =>
    intro layer hlayer pos hpos
    have hexact : toSingle pos = pos := toSingle_eq (by have := (hlayers layer hlayer).1; omega)
    have hfits : pos % pageTokens * kvDim g cfg layer < 2 ^ 32 :=
      (Nat.le_add_right _ _).trans_lt ((hrow layer hlayer pos hpos).trans_lt pageFloats_lt)
    unfold kvWrite
    rw [hexact, if_pos hpos, if_pos (pageOf_lt hctx hpos), wrap32_eq hfits]
  case held => exact hrow

/-- No more pages than page pointers. -/
theorem KvIndexed.slots (h : KvIndexed g cfg) (hctx : cfg.nCtx < 2 ^ 31) :
    cfg.nLayer * cfg.kvCapacity < 2 ^ 32 := by
  let pages := Finset.range cfg.nLayer ×ˢ Finset.range cfg.kvCapacity
  have hcard : pages.card ≤ (Finset.range cfg.pageSlots).card := by
    refine Finset.card_le_card_of_injOn (fun p => pageIndex cfg p.1 p.2) ?_ ?_
    · intro p hp
      obtain ⟨hlayer, hpage⟩ := Finset.mem_product.1 hp
      have hin := h.inside p.1 (Finset.mem_range.1 hlayer) (p.2 * pageTokens)
        ((lt_kvCapacity hctx).1 (Finset.mem_range.1 hpage))
      rw [Nat.mul_div_cancel _ (by decide)] at hin
      exact Finset.mem_coe.2 (Finset.mem_range.2 hin)
    · intro p hp q hq heq
      obtain ⟨hlayer, hpage⟩ := Finset.mem_product.1 hp
      obtain ⟨hlayer', hpage'⟩ := Finset.mem_product.1 hq
      have hsame := h.distinct _ (Finset.mem_range.1 hlayer) _ (Finset.mem_range.1 hlayer') _
        (Finset.mem_range.1 hpage) _ (Finset.mem_range.1 hpage') heq
      exact Prod.ext hsame.1 hsame.2
  rw [Finset.card_product, Finset.card_range, Finset.card_range, Finset.card_range] at hcard
  exact hcard.trans_lt pageSlots_lt

/-- 2^24 + 1 becomes the position before it. -/
theorem toSingle_first_inexact : toSingle (2 ^ 24 + 1) = 2 ^ 24 := by decide +kernel

theorem KvIndexed.exact (h : KvIndexed g cfg) (hlayer : layer < cfg.nLayer) :
    cfg.nCtx ≤ 2 ^ 24 + 1 := by
  by_contra hlong
  have hrow := h.written layer hlayer (2 ^ 24 + 1) (by omega)
  unfold kvWrite at hrow
  rw [toSingle_first_inexact] at hrow
  dsimp only at hrow
  split_ifs at hrow
  have hnumber : 2 ^ 24 % pageTokens = (2 ^ 24 + 1) % pageTokens :=
    congrArg RowWrite.row (Option.some.inj hrow)
  exact absurd hnumber (by decide)

theorem KvIndexed.rows (h : KvIndexed g cfg) (hctx : 0 < cfg.nCtx) (hlayer : layer < cfg.nLayer) :
    min cfg.nCtx pageTokens * kvDim g cfg layer ≤ pageFloats g cfg layer := by
  -- the last row in use of the first page
  have hlast := h.held layer hlayer (min cfg.nCtx pageTokens - 1) (by unfold pageTokens; omega)
  rw [← Nat.succ_mul] at hlast
  have hcount : (min cfg.nCtx pageTokens - 1) % pageTokens + 1 = min cfg.nCtx pageTokens := by
    unfold pageTokens
    omega
  rwa [Nat.succ_eq_add_one, hcount] at hlast

end Bounds

variable {K : Type*} [Field K] [LinearOrder K] {strtof : List UInt8 → Option K}
variable {g : VgGguf} {cfg : ModelConfig K}

theorem nCtx_lt (hload : loadConfig g strtof = some cfg) : cfg.nCtx < 2 ^ 31 := by
  obtain ⟨arch, -, rfl⟩ := Option.map_eq_some_iff.1 hload
  change (if 0 < readMetadataInt g (archKey arch ".context_length") 0 then
    toUInt32 (readMetadataInt g (archKey arch ".context_length") 0) else 2048) < 2 ^ 31
  have hrange := metaInt_range (g := g) (archKey arch ".context_length")
  rw [readMetadataInt_eq]
  unfold toUInt32
  split <;> omega

/-- In every loaded model the pages are indexed without clashes and each decode writes the row of its
position exactly when no 32-bit product wraps and a float holds every position. -/
theorem kvIndexed_iff (hload : loadConfig g strtof = some cfg) :
    KvIndexed g cfg ↔ KvFits g cfg := by
  have hctx := nCtx_lt hload
  constructor
  · intro h
    exact ⟨h.slots hctx, fun layer hlayer => ⟨h.exact hlayer, h.rows (nCtx_pos hload) hlayer⟩⟩
  · exact fun h => h.indexed hctx

section Example

theorem kvIndexed_one : ∃ (g : VgGguf) (cfg : ModelConfig ℚ),
    parseIndex plainLibc floatNormFile = .ok g ∧ loadConfig g (fun _ => none) = some cfg ∧
      (KvIndexed g cfg ↔ KvFits g cfg) := by
  have haccept : (parseIndex plainLibc floatNormFile).toOption.any
      (fun g => (modelProbe g).ok) = true := by decide +kernel
  cases hparse : parseIndex plainLibc floatNormFile with
  | error e =>
    rw [hparse] at haccept
    cases haccept
  | ok g =>
    rw [hparse] at haccept
    obtain ⟨cfg, hload⟩ := loadConfig_isSome (fun _ => none) haccept
    exact ⟨g, cfg, rfl, hload, kvIndexed_iff hload⟩

/-- 128 layers of 2^25 pages: the count of page pointers is zero. -/
def manyPagesFile : GgufFile :=
  ⟨(llamaLayout [("block_count", 128), ("context_length", 2147483647)] []).encode ++
    List.replicate 64 0, by decide +kernel, by decide +kernel⟩

theorem manyPages_not_indexed :
    ¬ ∀ (env : Libc) (file : GgufFile) (g : VgGguf) (cfg : ModelConfig ℚ),
      parseIndex env file = .ok g → loadConfig g (fun _ => none) = some cfg →
        KvIndexed g cfg := by
  intro hclaim
  have haccept : (match parseIndex plainLibc manyPagesFile with
    | .error _ => false
    | .ok g => (loadConfig g (fun _ => (none : Option ℚ))).any fun cfg =>
        cfg.nLayer == 128 && cfg.kvCapacity == 2 ^ 25) = true := by decide +kernel
  cases hparse : parseIndex plainLibc manyPagesFile with
  | error e => simp [hparse] at haccept
  | ok g =>
    rw [hparse] at haccept
    obtain ⟨cfg, hload, hsize⟩ := (Option.any_eq_true _ _).1 haccept
    obtain ⟨hlayers, hpages⟩ := Bool.and_eq_true_iff.1 hsize
    have hslots := (hclaim plainLibc manyPagesFile g cfg hparse hload).slots (nCtx_lt hload)
    rw [beq_iff_eq.1 hlayers, beq_iff_eq.1 hpages] at hslots
    exact absurd hslots (by decide)

end Example

end VgEngine.Model

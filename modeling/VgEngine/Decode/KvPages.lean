import VgEngine.Decode.Lockstep
import VgEngine.Lib.PageTable
import VgEngine.Model.KvRows

/-! The key and value pages of the host path, as `attention_layer` drops, allocates, writes and
reads them. The arithmetic on the elements that are read stays open. -/
namespace VgEngine.Decode
open Lib Bytes Gguf Model

/-- `kv_k` and `kv_v`, by page pointer. -/
structure KvPages (F : Type) where
  keys : PageTable F
  values : PageTable F

section Pages

variable {K : Type*} {V F : Type} (g : VgGguf) (cfg : ModelConfig K)

/-- `evict_page`. -/
def evictPage (pos : Nat) : Nat := (pos - cfg.slidingWindow) / pageTokens

/-- A decode at the position drops a page. -/
def Evicts (pos : Nat) : Prop :=
  cfg.slidingWindow ≤ pos ∧ 0 < cfg.slidingWindow ∧ evictPage cfg pos < cfg.kvCapacity

instance (pos : Nat) : Decidable (Evicts cfg pos) := inferInstanceAs (Decidable (_ ∧ _ ∧ _))

def KvPages.evict (layer pos : Nat) (kv : KvPages F) : KvPages F :=
  let lp := pageIndex cfg layer (evictPage cfg pos)
  if evictPage cfg pos < cfg.kvCapacity then ⟨kv.keys.drop lp, kv.values.drop lp⟩ else kv

def KvPages.missing (layer pos : Nat) (kv : KvPages F) : Bool :=
  pos / pageTokens < cfg.kvCapacity && (kv.keys (pageSlot cfg layer pos)).isNone

/-- The two `calloc` of a page. -/
def KvPages.add [Zero F] (layer pos : Nat) (keys values : Bool) (kv : KvPages F) : KvPages F :=
  let lp := pageSlot cfg layer pos
  let page := fun (ok : Bool) => if ok then some fun _ => (0 : F) else none
  ⟨Function.update kv.keys lp (page keys), Function.update kv.values lp (page values)⟩

variable (cell : V → Nat → F)

/-- The `memcpy` of a row, where there is one. -/
def writeTable (layer pos kvd : Nat) (row : Option V) (T : PageTable F) : PageTable F :=
  match row with
  | none => T
  | some x => T.put (pageSlot cfg layer pos) (wrap32 (pos % pageTokens * kvd)) kvd (cell x)

def KvPages.write (layer pos kvd : Nat) (k v : Option V) (kv : KvPages F) : KvPages F :=
  if pos / pageTokens < cfg.kvCapacity then
    ⟨writeTable cfg cell layer pos kvd k kv.keys, writeTable cfg cell layer pos kvd v kv.values⟩
  else kv

/-- `so`. -/
def headStart (kvd h t : Nat) : Nat :=
  wrap32 (t % pageTokens * kvd + cfg.kvHead h * (kvd / cfg.kvHeads))

/-- The elements that a head reads of a position, where its page is there. -/
def headView (T : PageTable F) (layer pos kvd width h t d : Nat) : Option F :=
  if h < cfg.nHead ∧ t ≤ pos ∧ d < width then
    (T (pageSlot cfg layer t)).map fun page => page (headStart cfg kvd h t + d)
  else none

/-- The softmax over what the heads read: layer, position and row width, the heads with a score
buffer, the query, keys and values. -/
abbrev Attention (V F : Type) := Nat → Nat → Nat → (Nat → Bool) → V → (Nat → Nat → Nat → Option F) →
  (Nat → Nat → Nat → Option F) → V

/-- An interpretation whose pages are those of the source. -/
def pagedOps [Zero F] (ops : Ops V Unit) (attention : Attention V F) : Ops V (KvPages F) :=
  { ops with
    evict := KvPages.evict cfg
    pageMissing := KvPages.missing cfg
    addPage := fun layer pos _ => KvPages.add cfg layer pos
    writeRow := KvPages.write cfg cell
    attend := fun layer pos kvd scored q kv => attention layer pos kvd scored q
      (headView cfg kv.keys layer pos kvd (headWidth g cfg layer))
      (headView cfg kv.values layer pos kvd (kvd / cfg.kvHeads))
    dense := fun pos x kv => ((ops.dense pos x ()).1, kv) }

end Pages

section Store

variable {K : Type*} {V F : Type} {g : VgGguf} {cfg : ModelConfig K} {cell : V → Nat → F}
variable {layer pos kvd : Nat} {kv : KvPages F} {T T' : PageTable F} {row k v : Option V}

/-- A page of keys comes and goes with a page of values. -/
def Paired (kv : KvPages F) : Prop := ∀ i, (kv.keys i).isSome = (kv.values i).isSome

/-- The table without the page that leaves the window. -/
def evictTable (cfg : ModelConfig K) (layer pos : Nat) (T : PageTable F) : PageTable F :=
  if Evicts cfg pos then T.drop (pageIndex cfg layer (evictPage cfg pos)) else T

theorem evictTable_paired (h : Paired kv) :
    Paired ⟨evictTable cfg layer pos kv.keys, evictTable cfg layer pos kv.values⟩ := by
  intro i
  unfold evictTable
  split
  · by_cases hi : i = pageIndex cfg layer (evictPage cfg pos)
    · simp [hi]
    · simp only [PageTable.drop_of_ne hi]
      exact h i
  · exact h i

theorem writeTable_isSome (i : Nat) :
    (writeTable cfg cell layer pos kvd row T i).isSome = (T i).isSome := by
  cases row with
  | none => rfl
  | some x => exact PageTable.put_isSome

variable [Zero F] {attention : Attention V F} {ops : Ops V Unit}

/-- What a layer does to the keys or to the values. -/
def storeTable (cfg : ModelConfig K) (cell : V → Nat → F) (layer pos kvd : Nat) (row : Option V)
    (T : PageTable F) : PageTable F :=
  writeTable cfg cell layer pos kvd row
    (PageTable.ensure (pageSlot cfg layer pos) (evictTable cfg layer pos T))

theorem withoutPage_paged : withoutPage cfg (pagedOps g cfg cell ops attention) layer pos kv =
    ⟨evictTable cfg layer pos kv.keys, evictTable cfg layer pos kv.values⟩ := by
  unfold withoutPage evictTable
  change (if _ then KvPages.evict cfg layer pos kv else kv) = _
  by_cases hevicts : Evicts cfg pos
  · obtain ⟨hlow, hwindow, hpage⟩ := hevicts
    rw [if_pos ⟨hlow, hwindow⟩, if_pos ⟨hlow, hwindow, hpage⟩, if_pos ⟨hlow, hwindow, hpage⟩]
    exact if_pos hpage
  · rw [if_neg hevicts, if_neg hevicts]
    split
    next hwindow => exact if_neg fun hpage => hevicts ⟨hwindow.1, hwindow.2, hpage⟩
    next => rfl

theorem withPage_paged (hpage : pos / pageTokens < cfg.kvCapacity) (hpaired : Paired kv) :
    withPage (pagedOps g cfg cell ops attention) layer pos kvd kv =
      ⟨PageTable.ensure (pageSlot cfg layer pos) kv.keys,
        PageTable.ensure (pageSlot cfg layer pos) kv.values⟩ := by
  have hmissing : KvPages.missing cfg layer pos kv = (kv.keys (pageSlot cfg layer pos)).isNone := by
    simp [KvPages.missing, hpage]
  unfold withPage
  change (if KvPages.missing cfg layer pos kv = true
    then KvPages.add cfg layer pos true true kv else kv) = _
  rw [hmissing]
  cases hkeys : kv.keys (pageSlot cfg layer pos) with
  | none =>
    have hvalues : kv.values (pageSlot cfg layer pos) = none := by
      have hsome := hpaired (pageSlot cfg layer pos)
      rw [hkeys] at hsome
      exact Option.isNone_iff_eq_none.1 (by simpa using hsome.symm)
    simp [KvPages.add, PageTable.ensure, hkeys, hvalues]
  | some page =>
    have hvalues := hpaired (pageSlot cfg layer pos)
    rw [hkeys] at hvalues
    rw [PageTable.ensure_of_some (by rw [hkeys]; rfl), PageTable.ensure_of_some hvalues.symm]
    rfl

theorem storeTable_paired (h : Paired kv) :
    Paired ⟨storeTable cfg cell layer pos kvd k kv.keys,
      storeTable cfg cell layer pos kvd v kv.values⟩ := by
  intro i
  unfold storeTable
  simp only [writeTable_isSome]
  by_cases hi : i = pageSlot cfg layer pos
  · simp [hi]
  · simp only [PageTable.ensure_of_ne hi]
    exact evictTable_paired h i

/-- A layer's store, on the keys and on the values. -/
theorem storeEffect_paged (hpos : pos < cfg.nCtx) (hpage : pos / pageTokens < cfg.kvCapacity)
    (hpaired : Paired kv) :
    storeEffect cfg (pagedOps g cfg cell ops attention) layer pos kvd k v kv =
      ⟨storeTable cfg cell layer pos kvd k kv.keys,
        storeTable cfg cell layer pos kvd v kv.values⟩ := by
  unfold storeEffect
  rw [if_pos hpos, withoutPage_paged, withPage_paged hpage (evictTable_paired hpaired)]
  exact if_pos hpage

end Store

end VgEngine.Decode

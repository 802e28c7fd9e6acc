import VgEngine.Decode.KvPages

/-! Two histories of the pages that differ by attempts at some positions of some layers, which have
failed and have not been repeated since. -/
namespace VgEngine.Decode
open Lib Bytes Gguf Model

section Slack

variable {K : Type*} {F : Type} [Zero F] (g : VgGguf) (cfg : ModelConfig K)
  (attempts : Nat → Nat → Prop)

/-- A page that an attempt may have dropped. -/
def lostBy (i : Nat) : Prop :=
  ∃ l < cfg.nLayer, ∃ p, attempts l p ∧ Evicts cfg p ∧ i = pageIndex cfg l (evictPage cfg p)

/-- A page that an attempt may have allocated. -/
def extraBy (i : Nat) : Prop :=
  ∃ l < cfg.nLayer, ∃ p, attempts l p ∧ i = pageSlot cfg l p

/-- A cell of a row that an attempt may have written. -/
def looseBy (i c : Nat) : Prop :=
  ∃ l < cfg.nLayer, ∃ p, attempts l p ∧ i = pageSlot cfg l p ∧
    p % pageTokens * kvDim g cfg l ≤ c ∧ c < p % pageTokens * kvDim g cfg l + kvDim g cfg l

/-- The first table has gone through the attempts besides. -/
def NearBut (T T' : PageTable F) : Prop :=
  PageTable.Near (lostBy cfg attempts) (extraBy cfg attempts) (looseBy g cfg attempts) T T'

/-- The pages of all the layers are counted without wrapping, and the rows in use fit in a page as
it is allocated. -/
structure PagesHold : Prop where
  slots : cfg.nLayer * cfg.kvCapacity < 2 ^ 32
  rows : ∀ layer < cfg.nLayer,
    min cfg.nCtx pageTokens * kvDim g cfg layer ≤ pageFloats g cfg layer

end Slack

section Near

variable {K : Type*} {V F : Type} [Zero F] {g : VgGguf} {cfg : ModelConfig K}
variable {cell : V → Nat → F} {layer pos : Nat} {T T' T'' : PageTable F} {row : Option V}
variable {attempts attempts' : Nat → Nat → Prop}

theorem lostBy.mono {i : Nat} (h : lostBy cfg attempts i)
    (hle : ∀ l < cfg.nLayer, ∀ p, attempts l p → attempts' l p) : lostBy cfg attempts' i := by
  obtain ⟨l, hl, p, hp, hi⟩ := h
  exact ⟨l, hl, p, hle l hl p hp, hi⟩

theorem extraBy.mono {i : Nat} (h : extraBy cfg attempts i)
    (hle : ∀ l < cfg.nLayer, ∀ p, attempts l p → attempts' l p) : extraBy cfg attempts' i := by
  obtain ⟨l, hl, p, hp, hi⟩ := h
  exact ⟨l, hl, p, hle l hl p hp, hi⟩

theorem looseBy.mono {i c : Nat} (h : looseBy g cfg attempts i c)
    (hle : ∀ l < cfg.nLayer, ∀ p, attempts l p → attempts' l p) : looseBy g cfg attempts' i c := by
  obtain ⟨l, hl, p, hp, hi⟩ := h
  exact ⟨l, hl, p, hle l hl p hp, hi⟩

theorem NearBut.refl (T : PageTable F) : NearBut g cfg attempts T T := PageTable.Near.refl T

theorem NearBut.mono (h : NearBut g cfg attempts T T')
    (hle : ∀ l < cfg.nLayer, ∀ p, attempts l p → attempts' l p) : NearBut g cfg attempts' T T' :=
  PageTable.Near.mono h (fun _ hi => hi.mono hle) (fun _ hi => hi.mono hle)
    fun _ _ hi => hi.mono hle

theorem NearBut.trans (h : NearBut g cfg attempts T T') (h' : NearBut g cfg attempts' T' T'') :
    NearBut g cfg (fun l p => attempts l p ∨ attempts' l p) T T'' := by
  apply PageTable.Near.mono (PageTable.Near.trans h h')
  · rintro i (hi | hi)
    · exact hi.mono fun _ _ _ => Or.inl
    · exact hi.mono fun _ _ _ => Or.inr
  · rintro i (hi | hi)
    · exact hi.mono fun _ _ _ => Or.inl
    · exact hi.mono fun _ _ _ => Or.inr
  · rintro i c (hi | hi)
    · exact hi.mono fun _ _ _ => Or.inl
    · exact hi.mono fun _ _ _ => Or.inr

/-- The row of a position starts where it should. -/
theorem rowStart_eq (hpages : PagesHold g cfg) (hl : layer < cfg.nLayer) (hpos : pos < cfg.nCtx) :
    wrap32 (pos % pageTokens * kvDim g cfg layer) = pos % pageTokens * kvDim g cfg layer := by
  apply wrap32_eq
  calc pos % pageTokens * kvDim g cfg layer
      ≤ pos % pageTokens * kvDim g cfg layer + kvDim g cfg layer := Nat.le_add_right _ _
    _ ≤ pageFloats g cfg layer := row_held (hpages.rows layer hl) hpos
    _ < 2 ^ 32 := pageFloats_lt

/-- A store is one attempt. -/
theorem storeTable_nearBut (hpages : PagesHold g cfg) (hl : layer < cfg.nLayer)
    (hpos : pos < cfg.nCtx) : NearBut g cfg (fun l p => l = layer ∧ p = pos)
      (storeTable cfg cell layer pos (kvDim g cfg layer) row T) T := by
  have hevict : PageTable.Near (lostBy cfg fun l p => l = layer ∧ p = pos) (fun _ => False)
      (fun _ _ => False) (evictTable cfg layer pos T) T := by
    unfold evictTable
    split
    next hevicts =>
      apply PageTable.drop_near.mono
      · exact fun i hi => ⟨layer, hl, pos, ⟨rfl, rfl⟩, hevicts, hi⟩
      · exact fun _ h => h
      · exact fun _ _ h => h
    next => exact .refl T
  have hwrite (T : PageTable F) : PageTable.Near (fun _ => False) (fun _ => False)
      (looseBy g cfg fun l p => l = layer ∧ p = pos)
      (writeTable cfg cell layer pos (kvDim g cfg layer) row T) T := by
    cases row with
    | none => exact .refl T
    | some x =>
      unfold writeTable
      rw [rowStart_eq hpages hl hpos]
      apply PageTable.put_near.mono
      · exact fun _ h => h
      · exact fun _ h => h
      · exact fun i c hc => ⟨layer, hl, pos, ⟨rfl, rfl⟩, hc⟩
  apply ((hwrite _).trans (PageTable.ensure_near.trans hevict)).mono
  · simp
  · simp only [false_or, or_false]
    exact fun i hi => ⟨layer, hl, pos, ⟨rfl, rfl⟩, hi⟩
  · simp

/-- A store at a position of a layer, to both tables, clears the attempts at the position. Those
that are left in the layer are later ones, which have not dropped another page. -/
structure Clears (cfg : ModelConfig K) (attempts : Nat → Nat → Prop) (layer pos : Nat)
    (row : Option V) : Prop where
  written : attempts layer pos → row.isSome = true
  later : ∀ p, attempts layer p → p ≠ pos → pos < p
  dropped : ∀ p, attempts layer p → Evicts cfg p →
    Evicts cfg pos ∧ evictPage cfg p = evictPage cfg pos

theorem Clears.evict (hclear : Clears cfg attempts layer pos row) (h : NearBut g cfg attempts T T') :
    PageTable.Near (lostBy cfg fun l p => attempts l p ∧ l ≠ layer) (extraBy cfg attempts)
      (looseBy g cfg attempts) (evictTable cfg layer pos T) (evictTable cfg layer pos T') := by
  have hlost (i : Nat) (hi : lostBy cfg attempts i)
      (hkept : Evicts cfg pos → i ≠ pageIndex cfg layer (evictPage cfg pos)) :
      lostBy cfg (fun l p => attempts l p ∧ l ≠ layer) i := by
    obtain ⟨l, hl, p, hp, hevicts, rfl⟩ := hi
    refine ⟨l, hl, p, ⟨hp, ?_⟩, hevicts, rfl⟩
    rintro rfl
    obtain ⟨hevicts', hpage⟩ := hclear.dropped p hp hevicts
    exact hkept hevicts' (by rw [hpage])
  unfold evictTable
  by_cases hevicts : Evicts cfg pos
  · rw [if_pos hevicts, if_pos hevicts]
    apply h.drop.mono
    · exact fun i hi => hlost i hi.1 fun _ => hi.2
    · exact fun _ hi => hi
    · exact fun _ _ hi => hi
  · rw [if_neg hevicts, if_neg hevicts]
    apply PageTable.Near.mono h
    · exact fun i hi => hlost i hi fun hevicts' => absurd hevicts' hevicts
    · exact fun _ hi => hi
    · exact fun _ _ hi => hi

/-- What is left of the attempts once both tables have stored the row. -/
theorem Clears.store (hclear : Clears cfg attempts layer pos row) (hpages : PagesHold g cfg)
    (hl : layer < cfg.nLayer) (hpos : pos < cfg.nCtx) (h : NearBut g cfg attempts T T') :
    PageTable.Near (lostBy cfg fun l p => attempts l p ∧ l ≠ layer)
      (fun i => extraBy cfg (fun l p => attempts l p ∧ ¬ (l = layer ∧ p = pos)) i ∧
        i ≠ pageSlot cfg layer pos)
      (looseBy g cfg fun l p => attempts l p ∧ ¬ (l = layer ∧ p = pos))
      (storeTable cfg cell layer pos (kvDim g cfg layer) row T)
      (storeTable cfg cell layer pos (kvDim g cfg layer) row T') := by
  have hextra (i : Nat) (hi : extraBy cfg attempts i ∧ i ≠ pageSlot cfg layer pos) :
      extraBy cfg (fun l p => attempts l p ∧ ¬ (l = layer ∧ p = pos)) i ∧
        i ≠ pageSlot cfg layer pos := by
    obtain ⟨⟨l, hl, p, hp, rfl⟩, hne⟩ := hi
    refine ⟨⟨l, hl, p, ⟨hp, ?_⟩, rfl⟩, hne⟩
    rintro ⟨rfl, rfl⟩
    exact hne rfl
  have hensured := (hclear.evict h).ensure (i := pageSlot cfg layer pos)
  unfold storeTable
  cases row with
  | none =>
    apply hensured.mono
    · exact fun _ hi => hi
    · exact hextra
    · rintro i c ⟨l, hl, p, hp, hi⟩
      refine ⟨l, hl, p, ⟨hp, ?_⟩, hi⟩
      rintro ⟨rfl, rfl⟩
      cases hclear.written hp
  | some x =>
    unfold writeTable
    rw [rowStart_eq hpages hl hpos]
    apply (hensured.put PageTable.ensure_self_isSome PageTable.ensure_self_isSome).mono
    · exact fun _ hi => hi
    · exact hextra
    · rintro i c ⟨⟨l, hl, p, hp, hi, hc⟩, hout⟩
      refine ⟨l, hl, p, ⟨hp, ?_⟩, hi, hc⟩
      rintro ⟨rfl, rfl⟩
      exact hout ⟨hi, hc⟩

theorem Clears.nearBut (hclear : Clears cfg attempts layer pos row) (hpages : PagesHold g cfg)
    (hl : layer < cfg.nLayer) (hpos : pos < cfg.nCtx) (h : NearBut g cfg attempts T T') :
    NearBut g cfg (fun l p => attempts l p ∧ ¬ (l = layer ∧ p = pos))
      (storeTable cfg cell layer pos (kvDim g cfg layer) row T)
      (storeTable cfg cell layer pos (kvDim g cfg layer) row T') := by
  apply (hclear.store hpages hl hpos h).mono
  · intro i hi
    exact hi.mono fun l _ p hp => ⟨hp.1, fun hl => hp.2 hl.1⟩
  · exact fun _ hi => hi.1
  · exact fun _ _ hi => hi

/-- What is read of the rows up to the position is the same in both, as long as no read reaches
past its row into that of an attempt. -/
theorem Clears.read (hclear : Clears cfg attempts layer pos row) (hpages : PagesHold g cfg)
    (hctx : cfg.nCtx < 2 ^ 31) (hl : layer < cfg.nLayer) (hpos : pos < cfg.nCtx)
    (hbound : ∀ l p, attempts l p → p < cfg.nCtx) (h : NearBut g cfg attempts T T') {t c : Nat}
    (ht : t ≤ pos) (hc : ∀ p, attempts layer p → p ≠ pos →
      c < t % pageTokens * kvDim g cfg layer + kvDim g cfg layer) :
    (storeTable cfg cell layer pos (kvDim g cfg layer) row T (pageSlot cfg layer t)).map (· c) =
      (storeTable cfg cell layer pos (kvDim g cfg layer) row T' (pageSlot cfg layer t)).map
        (· c) := by
  have hpage : t / pageTokens < cfg.kvCapacity := pageOf_lt hctx (ht.trans_lt hpos)
  -- an attempt in the page of `t` that is not cleared is later, so that `pos` is in that page too
  have hlater {l p : Nat} (hl' : l < cfg.nLayer)
      (hp : attempts l p ∧ ¬ (l = layer ∧ p = pos))
      (hslot : pageSlot cfg layer t = pageSlot cfg l p) :
      attempts layer p ∧ p ≠ pos ∧ pos < p ∧ l = layer ∧ t / pageTokens = p / pageTokens := by
    obtain ⟨rfl, hsame⟩ := pageIndex_inj hpages.slots hl hl' hpage
      (pageOf_lt hctx (hbound l p hp.1)) hslot
    have hne : p ≠ pos := fun heq => hp.2 ⟨rfl, heq⟩
    exact ⟨hp.1, hne, hclear.later p hp.1 hne, rfl, hsame⟩
  apply (hclear.store hpages hl hpos h).read
  · rintro ⟨l, hl', p, hp, hevicts, hslot⟩
    exact hp.2 (pageIndex_inj hpages.slots hl hl' hpage hevicts.2.2 hslot).1.symm
  · rintro ⟨⟨l, hl', p, hp, hslot⟩, hne⟩
    obtain ⟨-, -, hlt, -, hsame⟩ := hlater hl' hp hslot
    apply hne
    unfold pageSlot
    rw [show t / pageTokens = pos / pageTokens by unfold pageTokens at hsame ⊢; omega]
  · rintro ⟨l, hl', p, hp, hslot, hlow, -⟩
    obtain ⟨hp, hne, hlt, rfl, hsame⟩ := hlater hl' hp hslot
    have hend := row_end_le (ht.trans_lt hlt) hsame (kvDim g cfg l)
    exact absurd (hc p hp hne) (Nat.not_lt.2 (hend.trans hlow))

end Near

section Carried

variable {K : Type*} {V F : Type} [Zero F] (g : VgGguf) (cfg : ModelConfig K)

/-- No head reads past the row of a position. -/
def HeadsInRow : Prop :=
  ∀ l < cfg.nLayer, ∀ h < cfg.nHead,
    cfg.kvHead h * kvWidth g cfg l + max (headWidth g cfg l) (kvWidth g cfg l) ≤ kvDim g cfg l

/-- A failed attempt at `p` is no harm to a decode at `pos`: that decode repeats it and reads its
projections in every layer, or it is before `p` and looks at nothing that the attempt has touched. -/
def Harmless (o : Outcomes) (pos p : Nat) : Prop :=
  (p = pos ∧ ∀ l < cfg.nLayer, Reads o .attnQ l ∧ Reads o .attnK l ∧ Reads o .attnV l) ∨
    (pos < p ∧ HeadsInRow g cfg ∧
      (Evicts cfg p → Evicts cfg pos ∧ evictPage cfg p = evictPage cfg pos))

/-- Pages that have gone through attempts besides, and those that have not. -/
structure Behind (attempts : Nat → Nat → Prop) (kv kv' : KvPages F) : Prop where
  paired : Paired kv
  paired' : Paired kv'
  keys : NearBut g cfg attempts kv.keys kv'.keys
  values : NearBut g cfg attempts kv.values kv'.values

/-- The attempts that are left in a layer, when a decode at a position has gone through the layers
below. -/
def left (failed : Nat → Prop) (pos layer l p : Nat) : Prop := failed p ∧ (l < layer → p ≠ pos)

variable {g cfg} {cell : V → Nat → F} {attention : Attention V F} {ops : Ops V Unit}
variable {attempts attempts' : Nat → Nat → Prop} {failed : Nat → Prop} {o : Outcomes} {pos : Nat}
variable {kv kv' : KvPages F}

theorem Behind.mono (h : Behind g cfg attempts kv kv')
    (hle : ∀ l < cfg.nLayer, ∀ p, attempts l p → attempts' l p) : Behind g cfg attempts' kv kv' :=
  ⟨h.paired, h.paired', h.keys.mono hle, h.values.mono hle⟩

theorem Behind.trans {kv'' : KvPages F} (h : Behind g cfg attempts kv kv')
    (h' : Behind g cfg attempts' kv' kv'') :
    Behind g cfg (fun l p => attempts l p ∨ attempts' l p) kv kv'' :=
  ⟨h.paired, h'.paired', h.keys.trans h'.keys, h.values.trans h'.values⟩

/-- A decode, alone, is one attempt in every layer. -/
theorem carries_alone {start : KvPages F} (hpages : PagesHold g cfg) (hctx : cfg.nCtx < 2 ^ 31)
    (hpos : pos < cfg.nCtx) : Carries g cfg o (pagedOps g cfg cell ops attention) pos
      fun _ kv kv' => kv = kv' ∧ Behind g cfg (fun _ p => p = pos) kv start := by
  constructor
  case skip => exact fun l hl hread kv kv' h => h
  case store =>
    rintro l hl - k v - - kv _ ⟨rfl, h⟩
    have hmore {row : Option V} {T T' : PageTable F} (h : NearBut g cfg (fun _ p => p = pos) T T') :
        NearBut g cfg (fun _ p => p = pos)
          (storeTable cfg cell l pos (kvDim g cfg l) row T) T' := by
      apply ((storeTable_nearBut hpages hl hpos).trans h).mono
      rintro l' - p (⟨-, hp⟩ | hp)
      · exact hp
      · exact hp
    rw [storeEffect_paged hpos (pageOf_lt hctx hpos) h.paired]
    exact ⟨⟨rfl, storeTable_paired h.paired, h.paired', hmore h.keys, hmore h.values⟩,
      fun _ _ => rfl⟩

theorem left_clears {l : Nat} {row : Option V}
    (hharm : ∀ p, failed p → Harmless g cfg o pos p)
    (hrow : (∀ l < cfg.nLayer, Reads o .attnQ l ∧ Reads o .attnK l ∧ Reads o .attnV l) →
      row.isSome = true) : Clears cfg (left failed pos l) l pos row := by
  constructor
  case written =>
    intro hp
    rcases hharm pos hp.1 with ⟨-, hreads⟩ | ⟨hlt, -⟩
    · exact hrow hreads
    · exact absurd hlt (Nat.lt_irrefl pos)
  case later =>
    intro p hp hne
    rcases hharm p hp.1 with ⟨heq, -⟩ | ⟨hlt, -⟩
    · exact absurd heq hne
    · exact hlt
  case dropped =>
    intro p hp hevicts
    rcases hharm p hp.1 with ⟨rfl, -⟩ | ⟨-, -, hsame⟩
    · exact ⟨hevicts, rfl⟩
    · exact hsame hevicts

theorem left_succ {l l' p : Nat} (h : left failed pos l l' p ∧ ¬ (l' = l ∧ p = pos)) :
    left failed pos (l + 1) l' p := by
  refine ⟨h.1.1, fun hlt heq => ?_⟩
  rcases Nat.lt_succ_iff_lt_or_eq.1 hlt with hlt | rfl
  · exact h.1.2 hlt heq
  · exact h.2 ⟨rfl, heq⟩

/-- What the heads read of the keys or the values is the same behind attempts that are no harm. -/
theorem left_view {l width : Nat} {row : Option V} {T T' : PageTable F} (hpages : PagesHold g cfg)
    (hctx : cfg.nCtx < 2 ^ 31) (hl : l < cfg.nLayer) (hpos : pos < cfg.nCtx)
    (hbound : ∀ p, failed p → p < cfg.nCtx) (hharm : ∀ p, failed p → Harmless g cfg o pos p)
    (hclear : Clears cfg (left failed pos l) l pos row)
    (hwidth : width ≤ max (headWidth g cfg l) (kvWidth g cfg l))
    (h : NearBut g cfg (left failed pos l) T T') :
    headView cfg (storeTable cfg cell l pos (kvDim g cfg l) row T) l pos (kvDim g cfg l) width =
      headView cfg (storeTable cfg cell l pos (kvDim g cfg l) row T') l pos (kvDim g cfg l)
        width := by
  funext head t d
  unfold headView
  split
  next hin =>
    obtain ⟨hhead, ht, hd⟩ := hin
    apply hclear.read hpages hctx hl hpos (fun l p hp => hbound p hp.1) h ht
    intro p hp hne
    rcases hharm p hp.1 with ⟨heq, -⟩ | ⟨-, hheads, -⟩
    · exact absurd heq hne
    · have hrow := hheads l hl head hhead
      have hstart : headStart cfg (kvDim g cfg l) head t ≤
          t % pageTokens * kvDim g cfg l + cfg.kvHead head * kvWidth g cfg l := Nat.mod_le _ _
      omega
  next => rfl

/-- A decode after attempts that are no harm, next to one without them. -/
theorem carries_both (hpages : PagesHold g cfg) (hctx : cfg.nCtx < 2 ^ 31) (hpos : pos < cfg.nCtx)
    (hbound : ∀ p, failed p → p < cfg.nCtx) (hharm : ∀ p, failed p → Harmless g cfg o pos p) :
    Carries g cfg o (pagedOps g cfg cell ops attention) pos
      fun l => Behind g cfg (left failed pos l) := by
  constructor
  case skip =>
    intro l hl hread kv kv' h
    apply h.mono
    intro l' _ p hp
    apply left_succ ⟨hp, ?_⟩
    rintro ⟨-, rfl⟩
    rcases hharm p hp.1 with ⟨-, hreads⟩ | ⟨hlt, -⟩
    · exact hread (hreads l hl).1
    · exact absurd hlt (Nat.lt_irrefl p)
  case store =>
    intro l hl _ k v hk hv kv kv' h
    have hkeys : Clears cfg (left failed pos l) l pos k :=
      left_clears hharm fun hreads => hk (hreads l hl).2.1
    have hvalues : Clears cfg (left failed pos l) l pos v :=
      left_clears hharm fun hreads => hv (hreads l hl).2.2
    rw [storeEffect_paged hpos (pageOf_lt hctx hpos) h.paired,
      storeEffect_paged hpos (pageOf_lt hctx hpos) h.paired']
    constructor
    · exact ⟨storeTable_paired h.paired, storeTable_paired h.paired',
        (hkeys.nearBut hpages hl hpos h.keys).mono fun _ _ _ => left_succ,
        (hvalues.nearBut hpages hl hpos h.values).mono fun _ _ _ => left_succ⟩
    · intro scored q
      exact congrArg₂ (attention l pos _ scored q)
        (left_view hpages hctx hl hpos hbound hharm hkeys (le_max_left _ _) h.keys)
        (left_view hpages hctx hl hpos hbound hharm hvalues (le_max_right _ _) h.values)

end Carried

end VgEngine.Decode

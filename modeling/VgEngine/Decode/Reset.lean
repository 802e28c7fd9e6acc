import VgEngine.Decode.Stores
import VgEngine.Decode.Window

/-! `vg_model_graph_reset`: the pages that a run has left are zeroed and stay where they are. To
the attention a page of zeros is the same as no page. -/
namespace VgEngine.Decode
open Lib Bytes Gguf Model Single

/-- The pages, and `kv_dim`, the row widths that the layers have allocated theirs for. -/
structure KvStore (F : Type) where
  pages : KvPages F
  dims : Nat → Nat

section Reset

variable {K : Type*} {V F : Type} [Zero F] (g : VgGguf) (cfg : ModelConfig K)

/-- The pages of the source, with the width of a layer noted when it allocates a page. -/
def storeOps (cell : V → Nat → F) (ops : Ops V Unit) (attention : Attention V F) :
    Ops V (KvStore F) :=
  let paged := pagedOps g cfg cell ops attention
  { paged with
    evict := fun layer pos s => { s with pages := paged.evict layer pos s.pages }
    pageMissing := fun layer pos s => paged.pageMissing layer pos s.pages
    addPage := fun layer pos kvd keys values s =>
      ⟨paged.addPage layer pos kvd keys values s.pages, Function.update s.dims layer kvd⟩
    writeRow := fun layer pos kvd k v s =>
      { s with pages := paged.writeRow layer pos kvd k v s.pages }
    attend := fun layer pos kvd scored q s => paged.attend layer pos kvd scored q s.pages
    dense := fun pos x s =>
      let y := paged.dense pos x s.pages
      (y.1, { s with pages := y.2 }) }

/-- The `memset` of the first floats of a page. -/
def wipe (n : Nat) (page : Nat → F) (c : Nat) : F := if c < n then 0 else page c

/-- The loop of `vg_model_graph_reset` at a page pointer. A page of keys without its page of values
makes it write through a null pointer. -/
def KvStore.resetPage (s : KvStore F) (i : Nat) : Option (KvStore F) :=
  match s.pages.keys i with
  | none => some s
  | some k =>
    let n := wrap32 (pageTokens * s.dims (i / cfg.kvCapacity))
    (s.pages.values i).map fun v =>
      { s with pages := ⟨Function.update s.pages.keys i (some (wipe n k)),
          Function.update s.pages.values i (some (wipe n v))⟩ }

def modelGraphReset (w : Work V (KvStore F)) : Option (Work V (KvStore F)) :=
  ((List.range cfg.pageSlots).foldlM (KvStore.resetPage cfg) w.kv).map fun kv => { w with kv := kv }

end Reset

section Tables

variable {K : Type*} {V F : Type} [Zero F] {g : VgGguf} {cfg : ModelConfig K}
variable {cell : V → Nat → F} {layer pos i c : Nat} {T : PageTable F} {row : Option V}

theorem cell_drop : PageTable.cell (PageTable.drop i T) layer c =
    if layer = i then 0 else PageTable.cell T layer c := by
  split
  next h =>
    subst h
    simp [PageTable.cell]
  next h => exact PageTable.cell_of_eq (PageTable.drop_of_ne h)

/-- The pages of a table belong to the layers, and nothing is written past their ends. -/
structure Sized (g : VgGguf) (cfg : ModelConfig K) (T : PageTable F) : Prop where
  owned : ∀ i, (T i).isSome = true →
    ∃ l < cfg.nLayer, ∃ p < cfg.kvCapacity, i = pageIndex cfg l p
  beyond : ∀ l < cfg.nLayer, ∀ p < cfg.kvCapacity, ∀ c, pageFloats g cfg l ≤ c →
    PageTable.cell T (pageIndex cfg l p) c = 0

theorem Sized.evict (h : Sized g cfg T) : Sized g cfg (evictTable cfg layer pos T) := by
  unfold evictTable
  split
  · constructor
    case owned =>
      intro i hi
      apply h.owned
      by_cases heq : i = pageIndex cfg layer (evictPage cfg pos)
      · simp [heq] at hi
      · rwa [PageTable.drop_of_ne heq] at hi
    case beyond =>
      intro l hl p hp c hc
      rw [cell_drop]
      split
      · rfl
      · exact h.beyond l hl p hp c hc
  · exact h

theorem Sized.add {ok : Bool} (hl : layer < cfg.nLayer) (hpage : pos / pageTokens < cfg.kvCapacity)
    (h : Sized g cfg T) : Sized g cfg
    (Function.update T (pageSlot cfg layer pos) (if ok then some fun _ => 0 else none)) := by
  constructor
  case owned =>
    intro i hi
    by_cases heq : i = pageSlot cfg layer pos
    · exact ⟨layer, hl, pos / pageTokens, hpage, heq⟩
    · rw [Function.update_of_ne heq] at hi
      exact h.owned i hi
  case beyond =>
    intro l hl' p hp c hc
    by_cases heq : pageIndex cfg l p = pageSlot cfg layer pos
    · cases ok <;> simp [PageTable.cell, heq]
    · rw [PageTable.cell_of_eq (Function.update_of_ne heq _ _)]
      exact h.beyond l hl' p hp c hc

theorem Sized.write (hpages : PagesHold g cfg) (hctx : cfg.nCtx < 2 ^ 31) (hl : layer < cfg.nLayer)
    (hpos : pos < cfg.nCtx) (h : Sized g cfg T) :
    Sized g cfg (writeTable cfg cell layer pos (kvDim g cfg layer) row T) := by
  constructor
  case owned =>
    intro i hi
    rw [writeTable_isSome] at hi
    exact h.owned i hi
  case beyond =>
    intro l hl' p hp c hc
    rw [← h.beyond l hl' p hp c hc]
    cases row with
    | none => rfl
    | some x =>
      unfold writeTable
      rw [rowStart_eq hpages hl hpos]
      apply PageTable.cell_put_outside
      rintro ⟨hslot, -, hhigh⟩
      obtain ⟨rfl, -⟩ := pageIndex_inj hpages.slots hl' hl hp (pageOf_lt hctx hpos) hslot
      have hheld := row_held (hpages.rows l hl') hpos
      omega

variable {o : Outcomes} {ops : Ops V Unit} {attention : Attention V F} {kvd : Nat} {k v : Option V}
variable {s : KvStore F}

/-- A new page of a position, whichever of its two allocations fail. -/
def KvStore.add (cfg : ModelConfig K) (o : Outcomes) (layer pos kvd : Nat) (s : KvStore F) :
    KvStore F :=
  ⟨KvPages.add cfg layer pos (o ⟨.page, .buffer, layer, 0⟩ = .ok)
    (o ⟨.page, .buffer, layer, 1⟩ = .ok) s.pages, Function.update s.dims layer kvd⟩

theorem withPageOf_storeOps (hpage : pos / pageTokens < cfg.kvCapacity) :
    withPageOf o (storeOps g cfg cell ops attention) layer pos kvd s =
      if (s.pages.keys (pageSlot cfg layer pos)).isNone then s.add cfg o layer pos kvd else s := by
  have hmissing : KvPages.missing cfg layer pos s.pages =
      (s.pages.keys (pageSlot cfg layer pos)).isNone := by
    simp [KvPages.missing, hpage]
  unfold withPageOf
  change (if KvPages.missing cfg layer pos s.pages = true then s.add cfg o layer pos kvd else s) = _
  rw [hmissing]

theorem withoutPage_storeOps : withoutPage cfg (storeOps g cfg cell ops attention) layer pos s =
    { s with pages := ⟨evictTable cfg layer pos s.pages.keys,
        evictTable cfg layer pos s.pages.values⟩ } := by
  have hpaged : withoutPage cfg (pagedOps g cfg cell ops attention) layer pos s.pages = _ :=
    withoutPage_paged
  rw [← hpaged]
  unfold withoutPage
  split
  · rfl
  · rfl

/-- A store in which no allocation fails does to the pages what it does without the widths. -/
theorem storeEffect_storeOps (hpos : pos < cfg.nCtx) (hpage : pos / pageTokens < cfg.kvCapacity)
    (hpaired : Paired s.pages) :
    (storeEffect cfg (storeOps g cfg cell ops attention) layer pos kvd k v s).pages =
      ⟨storeTable cfg cell layer pos kvd k s.pages.keys,
        storeTable cfg cell layer pos kvd v s.pages.values⟩ := by
  have hwith (s : KvStore F) : (withPage (storeOps g cfg cell ops attention) layer pos kvd s).pages =
      withPage (pagedOps g cfg cell ops attention) layer pos kvd s.pages := by
    unfold withPage
    change KvStore.pages (if KvPages.missing cfg layer pos s.pages = true then _ else s) =
      if KvPages.missing cfg layer pos s.pages = true then _ else s.pages
    split
    · rfl
    · rfl
  have hpaged : storeEffect cfg (pagedOps g cfg cell ops attention) layer pos kvd k v s.pages = _ :=
    storeEffect_paged hpos hpage hpaired
  rw [← hpaged]
  unfold storeEffect
  rw [if_pos hpos, if_pos hpos, withoutPage_storeOps, withoutPage_paged]
  exact congrArg (KvPages.write cfg cell layer pos kvd k v) (hwith _)

variable {T' : PageTable F} {width : Nat}

theorem evictTable_cells (h : ∀ i c, PageTable.cell T i c = PageTable.cell T' i c) (i c : Nat) :
    PageTable.cell (evictTable cfg layer pos T) i c =
      PageTable.cell (evictTable cfg layer pos T') i c := by
  unfold evictTable
  split
  · rw [cell_drop, cell_drop, h]
  · exact h i c

theorem storeTable_cells (h : ∀ i c, PageTable.cell T i c = PageTable.cell T' i c) (i c : Nat) :
    PageTable.cell (storeTable cfg cell layer pos kvd row T) i c =
      PageTable.cell (storeTable cfg cell layer pos kvd row T') i c := by
  have hevicted (i c : Nat) : PageTable.cell (evictTable cfg layer pos T) i c =
      PageTable.cell (evictTable cfg layer pos T') i c := evictTable_cells h i c
  unfold storeTable writeTable
  cases row with
  | none =>
    rw [PageTable.cell_ensure, PageTable.cell_ensure, hevicted]
  | some x =>
    dsimp only
    -- both have the page of the row by now
    by_cases hin : i = pageSlot cfg layer pos ∧ wrap32 (pos % pageTokens * kvd) ≤ c ∧
        c < wrap32 (pos % pageTokens * kvd) + kvd
    · obtain ⟨rfl, hlow, hhigh⟩ := hin
      rw [PageTable.cell_put_inside PageTable.ensure_self_isSome hlow hhigh,
        PageTable.cell_put_inside PageTable.ensure_self_isSome hlow hhigh]
    · rw [PageTable.cell_put_outside hin, PageTable.cell_put_outside hin, PageTable.cell_ensure,
        PageTable.cell_ensure, hevicted]

theorem headView_cells (h : ∀ i c, PageTable.cell T i c = PageTable.cell T' i c)
    (head t d : Nat) : (headView cfg T layer pos kvd width head t d).getD 0 =
      (headView cfg T' layer pos kvd width head t d).getD 0 := by
  have hcell (T : PageTable F) (i c : Nat) :
      ((T i).map fun page => page c).getD 0 = PageTable.cell T i c := by
    unfold PageTable.cell
    cases T i with
    | none => rfl
    | some page => rfl
  unfold headView
  split
  · rw [hcell, hcell, h]
  · rfl

end Tables

section Before

variable {K : Type*} {V F : Type} [Zero F] {g : VgGguf} {cfg : ModelConfig K}
variable {cell : V → Nat → F} {attention : Attention V F} {ops : Ops V Unit} {o : Outcomes}
variable {pos n : Nat} {s : KvStore F}

/-- What a run leaves to the reset: pages of the layers, and a layer that has some has noted its
width. -/
structure Resettable (g : VgGguf) (cfg : ModelConfig K) (s : KvStore F) : Prop where
  keys : Sized g cfg s.pages.keys
  values : Sized g cfg s.pages.values
  noted : ∀ l < cfg.nLayer, ∀ p < cfg.kvCapacity,
    (s.pages.keys (pageIndex cfg l p)).isSome = true → s.dims l = kvDim g cfg l

theorem Resettable.evict {layer : Nat} (h : Resettable g cfg s) : Resettable g cfg
    { s with pages := ⟨evictTable cfg layer pos s.pages.keys,
        evictTable cfg layer pos s.pages.values⟩ } := by
  refine ⟨h.keys.evict, h.values.evict, fun l hl p hp hpage => ?_⟩
  apply h.noted l hl p hp
  dsimp only at hpage
  unfold evictTable at hpage
  split at hpage
  · by_cases heq : pageIndex cfg l p = pageIndex cfg layer (evictPage cfg pos)
    · simp [heq] at hpage
    · rwa [PageTable.drop_of_ne heq] at hpage
  · exact hpage

theorem Resettable.add {layer : Nat} (hpages : PagesHold g cfg) (hl : layer < cfg.nLayer)
    (hpage : pos / pageTokens < cfg.kvCapacity) (h : Resettable g cfg s) :
    Resettable g cfg (s.add cfg o layer pos (kvDim g cfg layer)) := by
  refine ⟨h.keys.add hl hpage, h.values.add hl hpage, fun l hl' p hp hsome => ?_⟩
  unfold KvStore.add at hsome ⊢
  by_cases heq : l = layer
  · rw [heq]
    exact Function.update_self _ _ _
  · have hslot : pageIndex cfg l p ≠ pageSlot cfg layer pos := fun hslot =>
      heq (pageIndex_inj hpages.slots hl' hl hp hpage hslot).1
    unfold KvPages.add at hsome
    dsimp only at hsome ⊢
    rw [Function.update_of_ne hslot] at hsome
    rw [Function.update_of_ne heq]
    exact h.noted l hl' p hp hsome

theorem Resettable.write {layer : Nat} {k v : Option V} (hpages : PagesHold g cfg)
    (hctx : cfg.nCtx < 2 ^ 31) (hl : layer < cfg.nLayer) (hpos : pos < cfg.nCtx)
    (h : Resettable g cfg s) : Resettable g cfg
    { s with pages := ⟨writeTable cfg cell layer pos (kvDim g cfg layer) k s.pages.keys,
        writeTable cfg cell layer pos (kvDim g cfg layer) v s.pages.values⟩ } := by
  refine ⟨h.keys.write hpages hctx hl hpos, h.values.write hpages hctx hl hpos,
    fun l hl' p hp hsome => ?_⟩
  rw [writeTable_isSome] at hsome
  exact h.noted l hl' p hp hsome

/-- A property of the store that the three steps of `storeRow` keep is kept by a decode. -/
theorem preserves_steps {inv : KvStore F → Prop} (hctx : cfg.nCtx < 2 ^ 31)
    (hreads : ∀ l, Reads o .attnK l ∧ Reads o .attnV l)
    (hevict : ∀ l s, inv s → inv { s with pages := ⟨evictTable cfg l pos s.pages.keys,
      evictTable cfg l pos s.pages.values⟩ })
    (hadd : ∀ l < cfg.nLayer, pos < cfg.nCtx → ∀ s,
      (s.pages.keys (pageSlot cfg l pos)).isNone = true → inv s →
      inv (s.add cfg o l pos (kvDim g cfg l)))
    (hwrite : ∀ l < cfg.nLayer, pos < cfg.nCtx → ∀ k v s, inv s → inv { s with
      pages := ⟨writeTable cfg cell l pos (kvDim g cfg l) k s.pages.keys,
        writeTable cfg cell l pos (kvDim g cfg l) v s.pages.values⟩ }) :
    Preserves (cpuGraph g cfg) o (storeOps g cfg cell ops attention) pos fun _ => inv := by
  constructor
  case skip => exact fun _ _ _ _ h => h
  case store =>
    intro l hl _ kvd k v hputs s h
    obtain rfl : kvd = kvDim g cfg l := hputs.width (hreads l).1 (hreads l).2
    unfold stores
    change inv (if pos < cfg.nCtx then _ else
      withoutPage cfg (storeOps g cfg cell ops attention) l pos s)
    rw [show (cpuGraph g cfg).cfg = cfg from rfl, withoutPage_storeOps]
    split
    next hpos =>
      have hpage := pageOf_lt hctx hpos
      have hmove (s : KvStore F) : (storeOps g cfg cell ops attention).writeRow l pos
          (kvDim g cfg l) k v s = { s with
            pages := ⟨writeTable cfg cell l pos (kvDim g cfg l) k s.pages.keys,
              writeTable cfg cell l pos (kvDim g cfg l) v s.pages.values⟩ } :=
        congrArg (fun pages : KvPages F => { s with pages := pages }) (if_pos hpage)
      rw [withPageOf_storeOps hpage, hmove]
      apply hwrite l hl hpos
      split
      next hmissing => exact hadd l hl hpos _ hmissing (hevict l s h)
      next => exact hevict l s h
    next => exact hevict l s h

theorem preserves_resettable (hpages : PagesHold g cfg) (hctx : cfg.nCtx < 2 ^ 31)
    (hreads : ∀ l, Reads o .attnK l ∧ Reads o .attnV l) :
    Preserves (cpuGraph g cfg) o (storeOps g cfg cell ops attention) pos
      fun _ => Resettable g cfg :=
  preserves_steps hctx hreads (fun _ _ h => h.evict)
    (fun _ hl hpos _ _ h => h.add hpages hl (pageOf_lt hctx hpos))
    fun _ hl hpos _ _ _ h => h.write hpages hctx hl hpos

/-- The two allocations of a page turn out alike. -/
def PagesAlike (o : Outcomes) : Prop :=
  ∀ l, o ⟨.page, .buffer, l, 0⟩ = .ok ↔ o ⟨.page, .buffer, l, 1⟩ = .ok

theorem preserves_paired (hctx : cfg.nCtx < 2 ^ 31) (halike : PagesAlike o)
    (hreads : ∀ l, Reads o .attnK l ∧ Reads o .attnV l) :
    Preserves (cpuGraph g cfg) o (storeOps g cfg cell ops attention) pos
      fun _ s => Paired s.pages := by
  apply preserves_steps hctx hreads
  · exact fun _ _ h => evictTable_paired h
  · intro l _ _ s _ h i
    by_cases heq : i = pageSlot cfg l pos
    · simp [KvStore.add, KvPages.add, heq, halike l]
    · simpa [KvStore.add, KvPages.add, heq] using h i
  · intro l _ _ k v s h i
    rw [writeTable_isSome, writeTable_isSome]
    exact h i

/-- The floats that the reset zeroes of a page. -/
def KvStore.pageLen (cfg : ModelConfig K) (s : KvStore F) (i : Nat) : Nat :=
  wrap32 (pageTokens * s.dims (i / cfg.kvCapacity))

/-- The loop of the reset up to a page pointer. -/
structure Passed (cfg : ModelConfig K) (n : Nat) (s s' : KvStore F) : Prop where
  dims : s'.dims = s.dims
  keys : ∀ i, s'.pages.keys i =
    if i < n then (s.pages.keys i).map (wipe (s.pageLen cfg i)) else s.pages.keys i
  values : ∀ i, s'.pages.values i =
    if i < n ∧ (s.pages.keys i).isSome = true then (s.pages.values i).map (wipe (s.pageLen cfg i))
    else s.pages.values i

/-- The page pointers below that have keys have values. -/
def Matched (n : Nat) (kv : KvPages F) : Prop :=
  ∀ i < n, (kv.keys i).isSome = true → (kv.values i).isSome = true

theorem Passed.skip {s' : KvStore F} (h : Passed cfg n s s') (hkeys : s.pages.keys n = none) :
    Passed cfg (n + 1) s s' := by
  refine ⟨h.dims, fun i => ?_, fun i => ?_⟩
  · rw [h.keys]
    rcases Nat.lt_trichotomy i n with hlt | rfl | hgt
    · simp [hlt, Nat.lt_succ_of_lt hlt]
    · simp [hkeys]
    · simp [show ¬ i < n by omega, show ¬ i < n + 1 by omega]
  · rw [h.values]
    rcases Nat.lt_trichotomy i n with hlt | rfl | hgt
    · simp [hlt, Nat.lt_succ_of_lt hlt]
    · simp [hkeys]
    · simp [show ¬ i < n by omega, show ¬ i < n + 1 by omega]

theorem Passed.wiped {s' : KvStore F} {k v : Nat → F} (h : Passed cfg n s s')
    (hkeys : s.pages.keys n = some k) (hvalues : s.pages.values n = some v) :
    Passed cfg (n + 1) s { s' with
      pages := ⟨Function.update s'.pages.keys n (some (wipe (s.pageLen cfg n) k)),
        Function.update s'.pages.values n (some (wipe (s.pageLen cfg n) v))⟩ } := by
  refine ⟨h.dims, fun i => ?_, fun i => ?_⟩
  · by_cases heq : i = n
    · simp [heq, hkeys]
    · dsimp only
      rw [Function.update_of_ne heq, h.keys]
      simp [show i < n + 1 ↔ i < n by omega]
  · by_cases heq : i = n
    · simp [heq, hkeys, hvalues]
    · dsimp only
      rw [Function.update_of_ne heq, h.values]
      simp [show i < n + 1 ↔ i < n by omega]

/-- The loop goes through exactly when every page of keys has its page of values. -/
theorem reset_loop (cfg : ModelConfig K) (s : KvStore F) (n : Nat) :
    (Matched n s.pages ∧
        ∃ s', (List.range n).foldlM (KvStore.resetPage cfg) s = some s' ∧ Passed cfg n s s') ∨
      (¬ Matched n s.pages ∧ (List.range n).foldlM (KvStore.resetPage cfg) s = none) := by
  induction n with
  | zero =>
    refine Or.inl ⟨fun i hi => absurd hi (Nat.not_lt_zero i), s, rfl, rfl, fun i => ?_, fun i => ?_⟩
    · rw [if_neg (Nat.not_lt_zero i)]
    · rw [if_neg fun hi => Nat.not_lt_zero i hi.1]
  | succ n ih =>
    rw [List.range_succ, List.foldlM_append]
    rcases ih with ⟨hmatched, s', hloop, hpassed⟩ | ⟨hnot, hloop⟩
    · rw [hloop]
      change (_ ∧ ∃ s'', (KvStore.resetPage cfg s' n >>= fun s => pure s) = some s'' ∧ _) ∨
        (_ ∧ (KvStore.resetPage cfg s' n >>= fun s => pure s) = none)
      rw [bind_pure]
      have hkeys := hpassed.keys n
      have hvalues := hpassed.values n
      rw [if_neg (Nat.lt_irrefl n)] at hkeys
      rw [if_neg fun hlt => Nat.lt_irrefl n hlt.1] at hvalues
      have hall (hlast : (s.pages.keys n).isSome = true → (s.pages.values n).isSome = true) :
          Matched (n + 1) s.pages := by
        intro i hi
        rcases Nat.lt_succ_iff_lt_or_eq.1 hi with hlt | rfl
        · exact hmatched i hlt
        · exact hlast
      have hlen : wrap32 (pageTokens * s'.dims (n / cfg.kvCapacity)) = s.pageLen cfg n := by
        rw [hpassed.dims]
        rfl
      unfold KvStore.resetPage
      rw [hkeys, hvalues, hlen]
      cases hk : s.pages.keys n with
      | none => exact Or.inl ⟨hall fun hsome => by simp [hk] at hsome, s', rfl, hpassed.skip hk⟩
      | some k =>
        cases hv : s.pages.values n with
        | none =>
          refine Or.inr ⟨fun hmatched => ?_, rfl⟩
          have hsome := hmatched n (Nat.lt_succ_self n) (by rw [hk]; rfl)
          rw [hv] at hsome
          cases hsome
        | some v => exact Or.inl ⟨hall fun _ => by rw [hv]; rfl, _, rfl, hpassed.wiped hk hv⟩
    · rw [hloop]
      refine Or.inr ⟨fun hmatched => hnot fun i hi => hmatched i (Nat.lt_succ_of_lt hi), rfl⟩

/-- A page of the run is wiped to its end. -/
theorem Resettable.wiped {i : Nat} (hpages : PagesHold g cfg) (h : Resettable g cfg s)
    (hsome : (s.pages.keys i).isSome = true) (c : Nat) (hc : s.pageLen cfg i ≤ c) :
    PageTable.cell s.pages.keys i c = 0 ∧ PageTable.cell s.pages.values i c = 0 := by
  obtain ⟨l, hl, p, hp, rfl⟩ := h.keys.owned i hsome
  have hlayer : pageIndex cfg l p / cfg.kvCapacity = l := by
    rw [pageIndex_eq hpages.slots hl hp, Nat.mul_comm, Nat.mul_add_div (Nat.zero_lt_of_lt hp),
      Nat.div_eq_of_lt hp, Nat.add_zero]
  rw [KvStore.pageLen, hlayer, h.noted l hl p hp hsome] at hc
  exact ⟨h.keys.beyond l hl p hp c hc, h.values.beyond l hl p hp c hc⟩

/-- Every cell reads zero. -/
structure Blank (s : KvStore F) : Prop where
  paired : Paired s.pages
  cells : ∀ i c, PageTable.cell s.pages.keys i c = 0 ∧ PageTable.cell s.pages.values i c = 0

theorem cell_wipe {T T' : PageTable F} {i c len : Nat} (h : T' i = (T i).map (wipe len))
    (hend : ∀ c, len ≤ c → PageTable.cell T i c = 0) : PageTable.cell T' i c = 0 := by
  unfold PageTable.cell at hend ⊢
  rw [h]
  cases hpage : T i with
  | none => rfl
  | some page =>
    change wipe len page c = 0
    unfold wipe
    split
    next => rfl
    next hc =>
      have hzero := hend c (Nat.not_lt.1 hc)
      rwa [hpage] at hzero

/-- The reset leaves pages of zeros, if they came in pairs. -/
theorem Resettable.reset {s' : KvStore F} (hpages : PagesHold g cfg) (h : Resettable g cfg s)
    (hpaired : Paired s.pages) (hpassed : Passed cfg cfg.pageSlots s s') : Blank s' := by
  -- there are no pages from `pageSlots` on
  have hslot (i : Nat) (hsome : (s.pages.keys i).isSome = true) : i < cfg.pageSlots := by
    obtain ⟨l, hl, p, hp, rfl⟩ := h.keys.owned i hsome
    rw [pageIndex_eq hpages.slots hl hp, ModelConfig.pageSlots, wrap32_eq hpages.slots]
    exact page_lt_all hl hp
  constructor
  case paired =>
    intro i
    rw [hpassed.keys, hpassed.values]
    split <;> split <;> simp [hpaired i]
  case cells =>
    intro i c
    by_cases hsome : (s.pages.keys i).isSome = true
    · have hkeys := hpassed.keys i
      have hvalues := hpassed.values i
      rw [if_pos (hslot i hsome)] at hkeys
      rw [if_pos ⟨hslot i hsome, hsome⟩] at hvalues
      exact ⟨cell_wipe hkeys fun c hc => (h.wiped hpages hsome c hc).1,
        cell_wipe hvalues fun c hc => (h.wiped hpages hsome c hc).2⟩
    · have hkeys : s.pages.keys i = none := by simpa using hsome
      have hvalues : s.pages.values i = none := by
        have hboth := hpaired i
        rw [hkeys] at hboth
        exact Option.isNone_iff_eq_none.1 (by simpa using hboth.symm)
      unfold PageTable.cell
      rw [hpassed.keys, hpassed.values]
      simp [hkeys, hvalues]

end Before

section After

variable {F : Type} [Field F] [LinearOrder F] {g : VgGguf} {cfg : ModelConfig F}
variable {libm : AttnLibm F} {ops : Ops (Nat → F) Unit} {pos : Nat}

/-- The attention only sees the numbers that it reads, a zero where there is no page. -/
theorem softmaxAttention_congr {keys keys' values values' : View F}
    (hkeys : ∀ h t d, (keys h t d).getD 0 = (keys' h t d).getD 0)
    (hvalues : ∀ h t d, (values h t d).getD 0 = (values' h t d).getD 0) (layer pos kvd : Nat)
    (scored : Nat → Bool) (q : Nat → F) :
    softmaxAttention libm g cfg layer pos kvd scored q keys values =
      softmaxAttention libm g cfg layer pos kvd scored q keys' values' := by
  have hscore (h : Nat) : score libm cfg (headWidth g cfg layer) q keys h =
      score libm cfg (headWidth g cfg layer) q keys' h := by
    funext t
    unfold score
    simp only [hkeys]
  unfold softmaxAttention addHead
  simp only [hscore, hvalues]

/-- A vector as the row that is stored. -/
def rowOf (x : Nat → F) (i : Nat) : F := x i

/-- The decode of the source, in numbers. -/
def numberOps (g : VgGguf) (cfg : ModelConfig F) (libm : AttnLibm F) (ops : Ops (Nat → F) Unit) :
    Ops (Nat → F) (KvStore F) :=
  storeOps g cfg rowOf ops (softmaxAttention libm g cfg)

/-- Two stores read the same everywhere. -/
structure SameCells (s s' : KvStore F) : Prop where
  paired : Paired s.pages
  paired' : Paired s'.pages
  keys : ∀ i c, PageTable.cell s.pages.keys i c = PageTable.cell s'.pages.keys i c
  values : ∀ i c, PageTable.cell s.pages.values i c = PageTable.cell s'.pages.values i c

omit [LinearOrder F] in
theorem SameCells.evict {layer : Nat} {s s' : KvStore F} (h : SameCells s s') : SameCells
    { s with pages := ⟨evictTable cfg layer pos s.pages.keys,
        evictTable cfg layer pos s.pages.values⟩ }
    { s' with pages := ⟨evictTable cfg layer pos s'.pages.keys,
        evictTable cfg layer pos s'.pages.values⟩ } :=
  ⟨evictTable_paired h.paired, evictTable_paired h.paired', evictTable_cells h.keys,
    evictTable_cells h.values⟩

theorem SameCells.sameRows {layer kvd : Nat} {s s' : KvStore F} (h : SameCells s s') :
    SameRows (numberOps g cfg libm ops) layer pos kvd s s' :=
  fun scored q => softmaxAttention_congr (headView_cells h.keys) (headView_cells h.values) layer pos
    kvd scored q

/-- Stores that read the same stay so. -/
theorem sameCells_carries (hctx : cfg.nCtx < 2 ^ 31) :
    Carries g cfg allOk (numberOps g cfg libm ops) pos fun _ => SameCells := by
  constructor
  case skip => exact fun _ _ _ _ _ h => h
  case store =>
    intro l _ _ k v _ _ s s' h
    have hcells : SameCells (storeEffect cfg (numberOps g cfg libm ops) l pos (kvDim g cfg l) k v s)
        (storeEffect cfg (numberOps g cfg libm ops) l pos (kvDim g cfg l) k v s') := by
      by_cases hpos : pos < cfg.nCtx
      · have hpage := pageOf_lt hctx hpos
        constructor
        case paired =>
          rw [numberOps, storeEffect_storeOps hpos hpage h.paired]
          exact storeTable_paired h.paired
        case paired' =>
          rw [numberOps, storeEffect_storeOps hpos hpage h.paired']
          exact storeTable_paired h.paired'
        case keys =>
          rw [numberOps, storeEffect_storeOps hpos hpage h.paired,
            storeEffect_storeOps hpos hpage h.paired']
          exact storeTable_cells h.keys
        case values =>
          rw [numberOps, storeEffect_storeOps hpos hpage h.paired,
            storeEffect_storeOps hpos hpage h.paired']
          exact storeTable_cells h.values
      · unfold storeEffect
        rw [if_neg hpos, if_neg hpos, numberOps, withoutPage_storeOps, withoutPage_storeOps]
        exact h.evict
    exact ⟨hcells, hcells.sameRows⟩

variable {strtof : List UInt8 → Option F} {s s' : Work (Nat → F) (KvStore F)}

variable (g cfg) in
/-- Two graphs answer a run of decodes alike, and where they succeed they have the same logits. -/
def SameAnswers {S : Type} (ops : Ops (Nat → F) S) :
    List Turn → Work (Nat → F) S → Work (Nat → F) S → Prop
  | [], _, _ => True
  | a :: as, s, s' =>
    a.attempt.status g cfg ops s = a.attempt.status g cfg ops s' ∧
      (a.attempt.status g cfg ops s = .ok →
        (a.attempt.after g cfg ops s).logits = (a.attempt.after g cfg ops s').logits) ∧
      SameAnswers ops as (a.attempt.after g cfg ops s) (a.attempt.after g cfg ops s')

/-- What a decode looks at is the same. -/
structure SameKv (s s' : Work (Nat → F) (KvStore F)) : Prop where
  cells : SameCells s.kv s'.kv
  cold : s.gpuDense ≠ some true
  cold' : s'.gpuDense ≠ some true

theorem SameKv.turn (hprobe : (modelProbe g).ok = true) (hload : loadConfig g strtof = some cfg)
    (h : SameKv s s') (a : Turn) :
    a.attempt.status g cfg (numberOps g cfg libm ops) s =
        a.attempt.status g cfg (numberOps g cfg libm ops) s' ∧
      (a.attempt.status g cfg (numberOps g cfg libm ops) s = .ok →
        (a.attempt.after g cfg (numberOps g cfg libm ops) s).logits =
          (a.attempt.after g cfg (numberOps g cfg libm ops) s').logits) ∧
      SameKv (a.attempt.after g cfg (numberOps g cfg libm ops) s)
        (a.attempt.after g cfg (numberOps g cfg libm ops) s') := by
  by_cases hreach : a.attempt.Reaches g cfg
  · have hcarry : Carries g cfg allOk (numberOps g cfg libm ops)
        (toSingle (toUInt32 a.attempt.kvPos)) fun _ => SameCells := sameCells_carries (nCtx_lt hload)
    have hstart : Apart (fun _ _ => True) SameCells s s' := ⟨trivial, h.cells, h.cold, h.cold'⟩
    have hdecode := modelGraphDecode_coupled allOk_readsOnly (projected_of_probe hprobe hload)
      allOk_laid (fedAll_of_probe hprobe hload) hreach hcarry (.inr (headKnown_of_probe hprobe)) s s'
      hstart
    refine ⟨hdecode.1, ?_⟩
    rcases hdecode.2 with ⟨-, hend⟩ | ⟨hfails, j, -, hend⟩
    · exact ⟨fun _ => hend.logits, hend.kv, hend.cold, hend.cold'⟩
    · exact ⟨fun hok => absurd hok hfails, hend.kv, hend.cold, hend.cold'⟩
  · obtain ⟨st, hst, hrefused⟩ := @modelGraphDecode_refused F (Nat → F) (KvStore F) g cfg
      a.attempt.outcomes (numberOps g cfg libm ops) a.attempt.token a.attempt.kvPos _ _ hreach
    have hstatus (s : Work (Nat → F) (KvStore F)) :
        a.attempt.status g cfg (numberOps g cfg libm ops) s = st := congrArg Prod.fst (hrefused s)
    rw [hstatus, hstatus, (refused_unchanged hreach).2, (refused_unchanged hreach).2]
    exact ⟨rfl, fun hok => absurd hok hst, h⟩

theorem SameKv.answers (hprobe : (modelProbe g).ok = true) (hload : loadConfig g strtof = some cfg)
    (h : SameKv s s') (as : List Turn) : SameAnswers g cfg (numberOps g cfg libm ops) as s s' := by
  induction as generalizing s s' with
  | nil => trivial
  | cons a as ih =>
    obtain ⟨hstatus, hlogits, hkv⟩ := h.turn hprobe hload a
    exact ⟨hstatus, hlogits, ih hkv⟩

/-- A graph that has not decoded anything. -/
structure Fresh (s : Work (Nat → F) (KvStore F)) : Prop where
  keys : ∀ i, s.kv.pages.keys i = none
  values : ∀ i, s.kv.pages.values i = none
  dense : s.gpuDense = none

omit [LinearOrder F] in
theorem Fresh.blank (h : Fresh s) : Blank s.kv := by
  constructor
  case paired => exact fun i => by rw [h.keys, h.values]
  case cells => exact fun i c => by simp [PageTable.cell, h.keys, h.values]

omit [Field F] [LinearOrder F] in
theorem Fresh.cold (h : Fresh s) : s.gpuDense ≠ some true := by
  rw [h.dense]
  decide

omit [LinearOrder F] in
theorem Fresh.resettable (h : Fresh s) : Resettable g cfg s.kv := by
  constructor
  case keys => exact ⟨fun i hi => by simp [h.keys] at hi, fun _ _ _ _ c _ => (h.blank.cells _ c).1⟩
  case values =>
    exact ⟨fun i hi => by simp [h.values] at hi, fun _ _ _ _ c _ => (h.blank.cells _ c).2⟩
  case noted => exact fun l _ p _ hpage => by simp [h.keys] at hpage

/-- No decode of a run fails to read a weight. -/
def WeightsRead (as : List Attempt) : Prop :=
  ∀ a ∈ as, ∀ c, c.use = .acquire → a.outcomes c = .ok

/-- What each store of the decodes preserves holds after a run. -/
theorem runAll_preserves (inv : KvStore F → Prop) (hprobe : (modelProbe g).ok = true)
    (hload : loadConfig g strtof = some cfg) {as : List Attempt}
    (hinv : ∀ a ∈ as, Preserves (cpuGraph g cfg) a.outcomes (numberOps g cfg libm ops)
      (toSingle (toUInt32 a.kvPos)) fun _ => inv)
    (hcold : s.gpuDense ≠ some true) (h : inv s.kv) :
    inv (runAll g cfg (numberOps g cfg libm ops) as s).kv ∧
      (runAll g cfg (numberOps g cfg libm ops) as s).gpuDense ≠ some true := by
  induction as generalizing s with
  | nil => exact ⟨h, hcold⟩
  | cons a as ih =>
    obtain ⟨j, -, hend, -, hcold'⟩ : ∃ j ≤ cfg.nLayer,
        inv (a.after g cfg (numberOps g cfg libm ops) s).kv ∧
        (a.status g cfg (numberOps g cfg libm ops) s = .ok → j = cfg.nLayer) ∧
        (a.after g cfg (numberOps g cfg libm ops) s).gpuDense ≠ some true :=
      modelGraphDecode_preserves (projected_of_probe hprobe hload) (hinv a List.mem_cons_self) hcold h
    exact ih (fun b hb => hinv b (List.mem_cons_of_mem a hb)) hcold' hend

/-- The pages come in pairs as long as the two allocations of a page turn out alike. -/
theorem runAll_paired (hprobe : (modelProbe g).ok = true)
    (hload : loadConfig g strtof = some cfg) {as : List Attempt} (hread : WeightsRead as)
    (halike : ∀ a ∈ as, PagesAlike a.outcomes) (hfresh : Fresh s) :
    Paired (runAll g cfg (numberOps g cfg libm ops) as s).kv.pages := by
  refine (runAll_preserves (fun kv => Paired kv.pages) hprobe hload (fun a ha => ?_) hfresh.cold
    hfresh.blank.paired).1
  exact preserves_paired (nCtx_lt hload) (halike a ha) fun l => ⟨hread a ha _ rfl, hread a ha _ rfl⟩

variable (g cfg) in
/-- The reset goes through, and from then on the graph answers like another one. -/
def ResetsTo (ops : Ops (Nat → F) (KvStore F)) (s s' : Work (Nat → F) (KvStore F)) : Prop :=
  ∃ w, modelGraphReset cfg s = some w ∧ ∀ later, SameAnswers g cfg ops later w s'

/-- After any run of a new graph, whatever fails in it besides the reads, the reset makes the graph
answer like a new one if the pages come in pairs, and only if no page of keys is without its page of
values. -/
theorem reset_equivalent (hprobe : (modelProbe g).ok = true)
    (hload : loadConfig g strtof = some cfg) {earlier : List Attempt} (hread : WeightsRead earlier)
    (hfresh : Fresh s) (hfresh' : Fresh s') :
    (PagesHold g cfg → Paired (runAll g cfg (numberOps g cfg libm ops) earlier s).kv.pages →
      ResetsTo g cfg (numberOps g cfg libm ops)
        (runAll g cfg (numberOps g cfg libm ops) earlier s) s') ∧
    (ResetsTo g cfg (numberOps g cfg libm ops)
        (runAll g cfg (numberOps g cfg libm ops) earlier s) s' →
      Matched cfg.pageSlots (runAll g cfg (numberOps g cfg libm ops) earlier s).kv.pages) := by
  constructor
  · intro hpages hpaired
    obtain ⟨hresettable, hcold⟩ :
        Resettable g cfg (runAll g cfg (numberOps g cfg libm ops) earlier s).kv ∧
        (runAll g cfg (numberOps g cfg libm ops) earlier s).gpuDense ≠ some true :=
      runAll_preserves (Resettable g cfg) hprobe hload
        (fun a ha => preserves_resettable hpages (nCtx_lt hload)
          fun l => ⟨hread a ha _ rfl, hread a ha _ rfl⟩) hfresh.cold hfresh.resettable
    rcases reset_loop cfg (runAll g cfg (numberOps g cfg libm ops) earlier s).kv cfg.pageSlots with
      ⟨-, kv, hloop, hpassed⟩ | ⟨hnot, -⟩
    · have hblank := hresettable.reset hpages hpaired hpassed
      have hzero := hfresh'.blank
      refine ⟨_, by rw [modelGraphReset, hloop]; rfl, SameKv.answers hprobe hload ?_⟩
      refine ⟨⟨hblank.paired, hzero.paired, fun i c => ?_, fun i c => ?_⟩, hcold, hfresh'.cold⟩
      · rw [(hblank.cells i c).1, (hzero.cells i c).1]
      · rw [(hblank.cells i c).2, (hzero.cells i c).2]
    · exact absurd (fun i _ hsome => (hpaired i).symm.trans hsome) hnot
  · rintro ⟨w, hreset, -⟩
    rcases reset_loop cfg (runAll g cfg (numberOps g cfg libm ops) earlier s).kv cfg.pageSlots with
      ⟨hmatched, -⟩ | ⟨-, hloop⟩
    · exact hmatched
    · rw [modelGraphReset, hloop] at hreset
      cases hreset

end After

section Example

/-- Nothing decoded. -/
def freshWork : Work (Nat → ℚ) (KvStore ℚ) :=
  ⟨0, 0, 0, 0, 0, ⟨⟨fun _ => none, fun _ => none⟩, fun _ => 0⟩, 0, 0, 0, none⟩

theorem freshWork_fresh : Fresh freshWork := ⟨fun _ => rfl, fun _ => rfl, rfl⟩

/-- Three decodes, the last of which drops the page of the first two. -/
theorem reset_equivalent_window : ∃ (g : VgGguf) (cfg : ModelConfig ℚ),
    parseIndex plainLibc windowFile = .ok g ∧ (modelProbe g).ok = true ∧
      loadConfig g (fun _ => none) = some cfg ∧
      ResetsTo g cfg (numberOps g cfg taylorLibm plainOps)
        (runAll g cfg (numberOps g cfg taylorLibm plainOps) ((zeros 3).map Turn.attempt) freshWork)
        freshWork := by
  have haccept : (parseIndex plainLibc windowFile).toOption.any (fun g =>
      (modelProbe g).ok && (loadConfig g (fun _ => none)).any fun cfg : ModelConfig ℚ =>
        decide (cfg.nLayer * cfg.kvCapacity < 2 ^ 32) &&
        decide (∀ l < cfg.nLayer, min cfg.nCtx pageTokens * kvDim g cfg l ≤ pageFloats g cfg l)) =
          true := by
    decide +kernel
  cases hparse : parseIndex plainLibc windowFile with
  | error e =>
    rw [hparse] at haccept
    cases haccept
  | ok g =>
    rw [hparse] at haccept
    obtain ⟨hprobe, haccept⟩ := Bool.and_eq_true_iff.1 haccept
    obtain ⟨cfg, hload⟩ := loadConfig_isSome (fun _ => none) hprobe
    rw [hload] at haccept
    simp only [Option.any_some, Bool.and_eq_true, decide_eq_true_eq] at haccept
    have hallOk (a : Attempt) (ha : a ∈ (zeros 3).map Turn.attempt) : a.outcomes = allOk := by
      obtain ⟨b, -, rfl⟩ := List.mem_map.1 ha
      rfl
    have hread : WeightsRead ((zeros 3).map Turn.attempt) := fun a ha c _ => by
      rw [hallOk a ha]
    have hpaired : Paired (runAll g cfg (numberOps g cfg taylorLibm plainOps)
        ((zeros 3).map Turn.attempt) freshWork).kv.pages :=
      runAll_paired hprobe hload hread (fun a ha l => by simp [hallOk a ha, allOk]) freshWork_fresh
    exact ⟨g, cfg, rfl, hprobe, hload, (reset_equivalent hprobe hload hread freshWork_fresh
      freshWork_fresh).1 ⟨haccept.1, haccept.2⟩ hpaired⟩

/-- Token 0 at position 0, where the page of values cannot be allocated. -/
def lostPage : Attempt := ⟨0, 0, fun c => if c = ⟨.page, .buffer, 0, 1⟩ then .nomem else .ok⟩

/-- The decode goes on without the values, and the reset writes through a null pointer. -/
theorem lostPage_notReset :
    ¬ ∀ (env : Libc) (file : GgufFile) (g : VgGguf) (cfg : ModelConfig ℚ) (libm : AttnLibm ℚ)
      (ops : Ops (Nat → ℚ) Unit) (s s' : Work (Nat → ℚ) (KvStore ℚ)) (earlier : List Attempt),
      parseIndex env file = .ok g → (modelProbe g).ok = true →
      loadConfig g (fun _ => none) = some cfg → WeightsRead earlier → Fresh s → Fresh s' →
      ResetsTo g cfg (numberOps g cfg libm ops)
        (runAll g cfg (numberOps g cfg libm ops) earlier s) s' := by
  intro hclaim
  have haccept : (parseIndex plainLibc windowFile).toOption.any (fun g =>
      (modelProbe g).ok && (loadConfig g (fun _ => none)).any fun cfg : ModelConfig ℚ =>
        let ops := numberOps g cfg taylorLibm plainOps
        lostPage.status g cfg ops freshWork == .ok &&
        (modelGraphReset cfg (lostPage.after g cfg ops freshWork)).isNone) = true := by
    decide +kernel
  cases hparse : parseIndex plainLibc windowFile with
  | error e =>
    rw [hparse] at haccept
    cases haccept
  | ok g =>
    rw [hparse] at haccept
    obtain ⟨hprobe, haccept⟩ := Bool.and_eq_true_iff.1 haccept
    obtain ⟨cfg, hload⟩ := loadConfig_isSome (fun _ => none) hprobe
    rw [hload] at haccept
    obtain ⟨-, hnone⟩ := Bool.and_eq_true_iff.1 haccept
    have hread : WeightsRead [lostPage] := by
      intro a ha c hc
      rw [List.mem_singleton.1 ha]
      apply if_neg
      rintro rfl
      cases hc
    obtain ⟨w, hreset, -⟩ := hclaim plainLibc windowFile g cfg taylorLibm plainOps freshWork
      freshWork [lostPage] hparse hprobe hload hread freshWork_fresh freshWork_fresh
    change modelGraphReset cfg (lostPage.after g cfg _ freshWork) = some w at hreset
    rw [Option.isNone_iff_eq_none.1 hnone] at hreset
    cases hreset

end Example

end VgEngine.Decode

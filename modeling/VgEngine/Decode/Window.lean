import VgEngine.Decode.Recorded
import VgEngine.Decode.Softmax
import Mathlib.Tactic.Linarith

/-! The positions that the attention of a run covers. A page leaves the window as a whole, with the
rows in it that the window still has, and a position without a page keeps its weight in the
softmax. -/
namespace VgEngine.Decode
open Lib Bytes Gguf Model Single

section Property

variable {F : Type} [Field F] [LinearOrder F] (g : VgGguf) (cfg : ModelConfig F)
  (libm : AttnLibm F)

/-- A vector as the row that is stored. -/
def elements (x : Nat → F) (i : Nat) : F := x i

/-- An interpretation of the decode in numbers, with the attention of the source and a record of
it. -/
def windowOps (ops : Ops (Nat → F) Unit) : Ops (Nat → F) (Recorded (Nat → F) (KvPages F)) :=
  recordedOps (pagedOps g cfg elements ops (softmaxAttention libm g cfg))

section Visit

variable (layer : Nat) (visit : Visit (Nat → F) (KvPages F))

/-- The keys that the heads read in a visit. -/
def Visit.keys : View F :=
  headView cfg visit.store.keys layer visit.pos (kvDim g cfg layer) (headWidth g cfg layer)

def Visit.values : View F :=
  headView cfg visit.store.values layer visit.pos (kvDim g cfg layer) (kvWidth g cfg layer)

/-- The weight of a position for a head with a query. -/
def Visit.weight (q : Nat → F) (h t : Nat) : F :=
  softmaxWeight libm (score libm cfg (headWidth g cfg layer) q (visit.keys g cfg layer) h)
    visit.pos t

/-- The pages of a position are there, and the heads read in them the rows of an earlier visit. -/
structure Visit.Reads (t : Nat) (old : Visit (Nat → F) (KvPages F)) : Prop where
  keyPage : (visit.store.keys (pageSlot cfg layer t)).isSome = true
  valuePage : (visit.store.values (pageSlot cfg layer t)).isSome = true
  keys : ∃ k, old.k = some k ∧ ∀ h < cfg.nHead, ∀ d < headWidth g cfg layer,
    visit.keys g cfg layer h t d = some (k (cfg.kvHead h * kvWidth g cfg layer + d))
  values : ∃ v, old.v = some v ∧ ∀ h < cfg.nHead, ∀ d < kvWidth g cfg layer,
    visit.values g cfg layer h t d = some (v (cfg.kvHead h * kvWidth g cfg layer + d))

end Visit

variable (ops : Ops (Nat → F) Unit) (as : List Turn)
  (s : Work (Nat → F) (Recorded (Nat → F) (KvPages F)))

/-- The visit of a layer by a decode of a run. -/
def visitOf (i layer : Nat) : Option (Visit (Nat → F) (KvPages F)) :=
  (decodeAll g cfg (windowOps g cfg libm ops) (as.take (i + 1)) s).kv.visits layer

/-- A decode of a run attends in every layer to the positions from `first` to its own, to the rows
that were stored when they were decoded, and to no other position. -/
def Attends (first i : Nat) : Prop :=
  ∀ layer < cfg.nLayer, ∃ visit, visitOf g cfg libm ops as s i layer = some visit ∧
    (∀ q, ∀ h < cfg.nHead, ∀ t,
      visit.weight g cfg libm layer q h t ≠ 0 ↔ first ≤ t ∧ t ≤ i) ∧
    ∀ t, first ≤ t → t ≤ i → ∃ old, visitOf g cfg libm ops as s t layer = some old ∧
      visit.Reads g cfg layer t old

/-- One decode after another from position 0. -/
def Consecutive : Prop := as.map Turn.pos = List.range as.length

/-- A graph that has not decoded anything. -/
structure Unused : Prop where
  keys : ∀ i, s.kv.store.keys i = none
  values : ∀ i, s.kv.store.values i = none
  dense : s.gpuDense = none

/-- The rows of the model fit in the pages, and the heads in the rows. -/
structure RowsHold : Prop where
  pages : PagesHold g cfg
  heads : HeadsInRow g cfg

end Property

section Rows

variable {K : Type*} {V F : Type} [Zero F] {g : VgGguf} {cfg : ModelConfig K}
variable {cell : V → Nat → F} {layer layer' pos t : Nat} {T : PageTable F} {row : Option V}
variable {x : Nat → F}

/-- The page of a position is there and holds its row. -/
structure RowIn (g : VgGguf) (cfg : ModelConfig K) (layer t : Nat) (x : Nat → F)
    (T : PageTable F) : Prop where
  page : (T (pageSlot cfg layer t)).isSome = true
  cells : ∀ i < kvDim g cfg layer,
    PageTable.cell T (pageSlot cfg layer t) (t % pageTokens * kvDim g cfg layer + i) = x i

/-- The row that a store writes can be read back. -/
theorem rowIn_stored {y : V} (hpages : PagesHold g cfg) (hl : layer < cfg.nLayer)
    (hpos : pos < cfg.nCtx) : RowIn g cfg layer pos (cell y)
      (storeTable cfg cell layer pos (kvDim g cfg layer) (some y) T) := by
  have hpage : (PageTable.ensure (pageSlot cfg layer pos) (evictTable cfg layer pos T)
      (pageSlot cfg layer pos)).isSome = true := PageTable.ensure_self_isSome
  constructor
  case page =>
    unfold storeTable
    rw [writeTable_isSome]
    exact hpage
  case cells =>
    intro i hi
    unfold storeTable writeTable
    dsimp only
    rw [rowStart_eq hpages hl hpos, PageTable.cell_put_inside hpage (Nat.le_add_right _ _)
      (Nat.add_lt_add_left hi _), Nat.add_sub_cancel_left]

/-- Before the window is full, a store leaves the rows of the other positions and layers. -/
theorem RowIn.store (hpages : PagesHold g cfg) (hctx : cfg.nCtx < 2 ^ 31) (hl : layer < cfg.nLayer)
    (hpos : pos < cfg.nCtx) (hl' : layer' < cfg.nLayer) (ht : t < cfg.nCtx)
    (hkept : ¬ Evicts cfg pos) (hother : ¬ (layer' = layer ∧ t = pos))
    (h : RowIn g cfg layer' t x T) :
    RowIn g cfg layer' t x (storeTable cfg cell layer pos (kvDim g cfg layer) row T) := by
  unfold storeTable evictTable
  rw [if_neg hkept]
  have hensured : RowIn g cfg layer' t x (PageTable.ensure (pageSlot cfg layer pos) T) := by
    refine ⟨?_, fun i hi => by rw [PageTable.cell_ensure]; exact h.cells i hi⟩
    by_cases hslot : pageSlot cfg layer' t = pageSlot cfg layer pos
    · rw [hslot]
      exact PageTable.ensure_self_isSome
    · rw [PageTable.ensure_of_ne hslot]
      exact h.page
  constructor
  case page =>
    rw [writeTable_isSome]
    exact hensured.page
  case cells =>
    intro i hi
    rw [← hensured.cells i hi]
    cases row with
    | none => rfl
    | some y =>
      unfold writeTable
      dsimp only
      rw [rowStart_eq hpages hl hpos]
      apply PageTable.cell_put_outside
      -- two rows of one page do not meet
      rintro ⟨hslot, hlow, hhigh⟩
      obtain ⟨rfl, hsame⟩ := pageIndex_inj hpages.slots hl' hl (pageOf_lt hctx ht)
        (pageOf_lt hctx hpos) hslot
      rcases Nat.lt_trichotomy t pos with hlt | rfl | hlt
      · have hend := row_end_le hlt hsame (kvDim g cfg layer')
        omega
      · exact hother ⟨rfl, rfl⟩
      · have hend := row_end_le hlt hsame.symm (kvDim g cfg layer')
        omega

/-- What a head reads of a row that is in its page. -/
theorem RowIn.view {width h d : Nat} (hpages : PagesHold g cfg) (hl : layer < cfg.nLayer)
    (ht : t < cfg.nCtx) (htp : t ≤ pos) (hh : h < cfg.nHead) (hd : d < width)
    (hin : cfg.kvHead h * kvWidth g cfg layer + width ≤ kvDim g cfg layer)
    (hrow : RowIn g cfg layer t x T) :
    headView cfg T layer pos (kvDim g cfg layer) width h t d =
      some (x (cfg.kvHead h * kvWidth g cfg layer + d)) := by
  obtain ⟨page, hpage⟩ := Option.isSome_iff_exists.1 hrow.page
  have hheld := row_held (hpages.rows layer hl) ht
  have hfloats : pageFloats g cfg layer < 2 ^ 32 := pageFloats_lt
  have hstart : headStart cfg (kvDim g cfg layer) h t =
      t % pageTokens * kvDim g cfg layer + cfg.kvHead h * kvWidth g cfg layer :=
    wrap32_eq (by change _ + cfg.kvHead h * kvWidth g cfg layer < _; omega)
  have hcell := hrow.cells (cfg.kvHead h * kvWidth g cfg layer + d) (by omega)
  unfold PageTable.cell at hcell
  rw [hpage] at hcell
  unfold headView
  rw [if_pos ⟨hh, htp, hd⟩, hpage, hstart, Nat.add_assoc]
  exact congrArg some hcell

end Rows

section Step

variable {F : Type} [Field F] [LinearOrder F] {g : VgGguf} {cfg : ModelConfig F}
variable {libm : AttnLibm F} {ops : Ops (Nat → F) Unit} {layer m l : Nat}
variable {rows : Nat → Nat → (Nat → F) × (Nat → F)} {r : Recorded (Nat → F) (KvPages F)}

/-- The key row and the value row of a position are in the pages. -/
structure RowsIn (g : VgGguf) (cfg : ModelConfig F) (layer t : Nat) (row : (Nat → F) × (Nat → F))
    (kv : KvPages F) : Prop where
  keys : RowIn g cfg layer t row.1 kv.keys
  values : RowIn g cfg layer t row.2 kv.values

/-- A decode at position `m` before layer `l`: the rows of the earlier positions are there, and the
layers below have stored theirs and attended to all of them. -/
structure Recording (g : VgGguf) (cfg : ModelConfig F) (rows : Nat → Nat → (Nat → F) × (Nat → F))
    (m l : Nat) (r : Recorded (Nat → F) (KvPages F)) : Prop where
  paired : Paired r.store
  past : ∀ layer < cfg.nLayer, ∀ t < m, RowsIn g cfg layer t (rows layer t) r.store
  done : ∀ layer < cfg.nLayer, layer < l → ∃ row store,
    r.visits layer = some ⟨m, some row.1, some row.2, store⟩ ∧ RowsIn g cfg layer m row r.store ∧
      RowsIn g cfg layer m row store ∧ ∀ t < m, RowsIn g cfg layer t (rows layer t) store

theorem storeEffect_window {k v : Option (Nat → F)} (hctx : cfg.nCtx < 2 ^ 31)
    (hm : m < cfg.nCtx) (hpaired : Paired r.store) :
    storeEffect cfg (windowOps g cfg libm ops) l m (kvDim g cfg l) k v r =
      ⟨⟨storeTable cfg elements l m (kvDim g cfg l) k r.store.keys,
          storeTable cfg elements l m (kvDim g cfg l) v r.store.values⟩,
        Function.update r.visits l (some ⟨m, k, v,
          ⟨storeTable cfg elements l m (kvDim g cfg l) k r.store.keys,
            storeTable cfg elements l m (kvDim g cfg l) v r.store.values⟩⟩)⟩ := by
  unfold windowOps
  rw [storeEffect_recorded hm, storeEffect_paged hm (pageOf_lt hctx hm) hpaired]

theorem Recording.store {k v : Nat → F} (hpages : PagesHold g cfg) (hctx : cfg.nCtx < 2 ^ 31)
    (hm : m < cfg.nCtx) (hkept : ¬ Evicts cfg m) (hl : l < cfg.nLayer)
    (h : Recording g cfg rows m l r) : Recording g cfg rows m (l + 1)
      (storeEffect cfg (windowOps g cfg libm ops) l m (kvDim g cfg l) (some k) (some v) r) := by
  have hother {layer t : Nat} {row : (Nat → F) × (Nat → F)} (hlayer : layer < cfg.nLayer)
      (ht : t < cfg.nCtx) (hne : ¬ (layer = l ∧ t = m)) (hrow : RowsIn g cfg layer t row r.store) :
      RowsIn g cfg layer t row
        ⟨storeTable cfg elements l m (kvDim g cfg l) (some k) r.store.keys,
          storeTable cfg elements l m (kvDim g cfg l) (some v) r.store.values⟩ := by
    constructor <;> dsimp only
    · exact hrow.keys.store hpages hctx hl hm hlayer ht hkept hne
    · exact hrow.values.store hpages hctx hl hm hlayer ht hkept hne
  rw [storeEffect_window hctx hm h.paired]
  constructor
  case paired => exact storeTable_paired h.paired
  case past =>
    intro layer hlayer t ht
    exact hother hlayer (ht.trans hm) (fun heq => ht.ne heq.2) (h.past layer hlayer t ht)
  case done =>
    intro layer hlayer hlt
    by_cases heq : layer = l
    · subst heq
      refine ⟨(k, v), _, Function.update_self _ _ _, ?_, ?_, fun t ht => ?_⟩
      · exact ⟨rowIn_stored hpages hl hm, rowIn_stored hpages hl hm⟩
      · exact ⟨rowIn_stored hpages hl hm, rowIn_stored hpages hl hm⟩
      · exact hother hlayer (ht.trans hm) (fun heq => ht.ne heq.2) (h.past layer hlayer t ht)
    · obtain ⟨row, store, hvisit, hrow, hpast⟩ := h.done layer hlayer (by omega)
      refine ⟨row, store, ?_, hother hlayer hm (fun hsame => heq hsame.1) hrow, hpast⟩
      dsimp only
      rw [Function.update_of_ne heq, hvisit]

omit [LinearOrder F] in
/-- A visit that has found the rows of the earlier positions and its own. -/
theorem RowsIn.reads {layer t pos : Nat} {row own : (Nat → F) × (Nat → F)}
    {store : KvPages F} {old : Visit (Nat → F) (KvPages F)} (hhold : RowsHold g cfg)
    (hl : layer < cfg.nLayer) (hpos : pos < cfg.nCtx) (htp : t ≤ pos)
    (hold : old.k = some row.1 ∧ old.v = some row.2) (h : RowsIn g cfg layer t row store) :
    Visit.Reads g cfg layer ⟨pos, some own.1, some own.2, store⟩ t old := by
  have hin (head : Nat) (hhead : head < cfg.nHead) := hhold.heads layer hl head hhead
  have hkeys : headWidth g cfg layer ≤ max (headWidth g cfg layer) (kvWidth g cfg layer) :=
    le_max_left _ _
  have hvalues : kvWidth g cfg layer ≤ max (headWidth g cfg layer) (kvWidth g cfg layer) :=
    le_max_right _ _
  constructor
  case keyPage => exact h.keys.page
  case valuePage => exact h.values.page
  case keys =>
    refine ⟨row.1, hold.1, fun head hhead d hd => ?_⟩
    exact h.keys.view hhold.pages hl (htp.trans_lt hpos) htp hhead hd
      ((Nat.add_le_add_left hkeys _).trans (hin head hhead))
  case values =>
    refine ⟨row.2, hold.2, fun head hhead d hd => ?_⟩
    exact h.values.view hhold.pages hl (htp.trans_lt hpos) htp hhead hd
      ((Nat.add_le_add_left hvalues _).trans (hin head hhead))

end Step

section Runs

variable {F : Type} [Field F] [LinearOrder F] {g : VgGguf} {cfg : ModelConfig F}
variable {libm : AttnLibm F} {ops : Ops (Nat → F) Unit} {as : List Turn} {a : Turn}
variable {s : Work (Nat → F) (Recorded (Nat → F) (KvPages F))} {i : Nat}

omit [Field F] [LinearOrder F] in
theorem consecutive_last : Consecutive (as ++ [a]) ↔ Consecutive as ∧ a.pos = as.length := by
  unfold Consecutive
  rw [List.map_append, List.length_append, List.length_singleton, List.range_succ]
  constructor
  · intro h
    obtain ⟨hpre, hlast⟩ := List.append_inj h (by simp)
    exact ⟨hpre, by simpa using hlast⟩
  · rintro ⟨hpre, hlast⟩
    rw [hpre, List.map_singleton, hlast]

/-- A run ends before the context does. -/
theorem length_le_nCtx (hctx : cfg.nCtx < 2 ^ 31) {V S : Type} {ops : Ops V S} {s : Work V S}
    (hrun : Consecutive as) (hok : AllSucceed g cfg ops as s) : as.length ≤ cfg.nCtx := by
  induction as using List.reverseRecOn with
  | nil => exact Nat.zero_le _
  | append_singleton as a ih =>
    obtain ⟨hrun, hpos⟩ := consecutive_last.1 hrun
    obtain ⟨hpre, hlast⟩ := allSucceed_last.1 hok
    have hle := ih hrun hpre
    have hlt : ((a.pos : Int) % 2 ^ 32).toNat < cfg.nCtx := (reaches_of_succeeds hlast).1
    rw [List.length_append, List.length_singleton]
    omega

theorem visitOf_append {bs : List Turn} {t : Nat} (ht : t < as.length) (layer : Nat) :
    visitOf g cfg libm ops (as ++ bs) s t layer = visitOf g cfg libm ops as s t layer := by
  unfold visitOf
  rw [List.take_append_of_le_length (Nat.succ_le_of_lt ht)]

theorem Attends.append {bs : List Turn} {first : Nat} (hi : i < as.length)
    (h : Attends g cfg libm ops as s first i) : Attends g cfg libm ops (as ++ bs) s first i := by
  intro layer hlayer
  obtain ⟨visit, hvisit, hweights, hrows⟩ := h layer hlayer
  refine ⟨visit, (visitOf_append hi layer).trans hvisit, hweights, fun t hlow hhigh => ?_⟩
  obtain ⟨old, hold, hreads⟩ := hrows t hlow hhigh
  exact ⟨old, (visitOf_append (hhigh.trans_lt hi) layer).trans hold, hreads⟩

/-- The rows of a run are all in the pages. -/
structure Covered (g : VgGguf) (cfg : ModelConfig F) (libm : AttnLibm F)
    (ops : Ops (Nat → F) Unit) (as : List Turn)
    (s : Work (Nat → F) (Recorded (Nat → F) (KvPages F))) : Prop where
  paired : Paired (decodeAll g cfg (windowOps g cfg libm ops) as s).kv.store
  rows : ∀ layer < cfg.nLayer, ∀ t < as.length, ∃ row : (Nat → F) × (Nat → F),
    (∃ store, visitOf g cfg libm ops as s t layer = some ⟨t, some row.1, some row.2, store⟩) ∧
      RowsIn g cfg layer t row (decodeAll g cfg (windowOps g cfg libm ops) as s).kv.store

variable [IsStrictOrderedRing F] {strtof : List UInt8 → Option F}

/-- One more decode before the window is full attends to all the rows. -/
theorem Covered.step (hprobe : (modelProbe g).ok = true) (hload : loadConfig g strtof = some cfg)
    (hexp : ∀ x, 0 < libm.exp x) (hhold : RowsHold g cfg) (hunused : Unused s)
    (hok : AllSucceed g cfg (windowOps g cfg libm ops) (as ++ [a]) s)
    (hrun : Consecutive (as ++ [a])) (hwindow : as.length < cfg.slidingWindow)
    (hexact : as.length ≤ 2 ^ 24) (h : Covered g cfg libm ops as s) :
    Covered g cfg libm ops (as ++ [a]) s ∧
      Attends g cfg libm ops (as ++ [a]) s 0 as.length := by
  have hctx := nCtx_lt hload
  have hlength := length_le_nCtx hctx hrun hok
  rw [List.length_append, List.length_singleton] at hlength
  obtain ⟨hrun, hpos⟩ := consecutive_last.1 hrun
  obtain ⟨hpre, hlast⟩ := allSucceed_last.1 hok
  have hposition : toSingle (toUInt32 a.attempt.kvPos) = as.length := by
    rw [← hpos]
    exact a.pos_attempt ⟨by omega, toSingle_eq (by omega)⟩ hctx
  have hkept : ¬ Evicts cfg as.length := fun hevicts => absurd hevicts.1 (Nat.not_le.2 hwindow)
  have hcold := decodeAll_cold hprobe hload (by rw [hunused.dense]; decide) hpre
  choose! rows hrows using h.rows
  have hstart : Recording g cfg rows as.length 0
      (decodeAll g cfg (windowOps g cfg libm ops) as s).kv :=
    ⟨h.paired, fun layer hl t ht => (hrows layer hl t ht).2,
      fun layer _ hlt => absurd hlt (Nat.not_lt_zero _)⟩
  have hend : Recording g cfg rows as.length cfg.nLayer
      (decodeAll g cfg (windowOps g cfg libm ops) (as ++ [a]) s).kv := by
    rw [decodeAll_append]
    refine (turn_carries hprobe hload ?_ hcold hstart hlast).1
    intro l hl k v kv hkv
    rw [hposition]
    exact hkv.store hhold.pages hctx (by omega) hkept hl
  have hvisit (layer : Nat) : visitOf g cfg libm ops (as ++ [a]) s as.length layer =
      (decodeAll g cfg (windowOps g cfg libm ops) (as ++ [a]) s).kv.visits layer := by
    unfold visitOf
    rw [List.take_of_length_le (by simp)]
  constructor
  · refine ⟨hend.paired, fun layer hl t ht => ?_⟩
    rw [List.length_append, List.length_singleton] at ht
    rcases Nat.lt_succ_iff_lt_or_eq.1 ht with hlt | rfl
    · obtain ⟨⟨store, hold⟩, -⟩ := hrows layer hl t hlt
      exact ⟨rows layer t, ⟨store, (visitOf_append hlt layer).trans hold⟩, hend.past layer hl t hlt⟩
    · obtain ⟨row, store, hold, hrow, -⟩ := hend.done layer hl hl
      exact ⟨row, ⟨store, (hvisit layer).trans hold⟩, hrow⟩
  · intro layer hl
    obtain ⟨own, store, hown, -, hself, hpast⟩ := hend.done layer hl hl
    refine ⟨_, (hvisit layer).trans hown, fun q head _ t => ?_, fun t _ ht => ?_⟩
    · exact (softmaxWeight_ne_zero_iff hexp).trans (by simp)
    · rcases Nat.lt_or_eq_of_le ht with hlt | rfl
      · obtain ⟨⟨old, hold⟩, -⟩ := hrows layer hl t hlt
        exact ⟨_, (visitOf_append hlt layer).trans hold,
          (hpast t hlt).reads hhold hl (by omega) ht ⟨rfl, rfl⟩⟩
      · exact ⟨_, (hvisit layer).trans hown, hself.reads hhold hl (by omega) ht ⟨rfl, rfl⟩⟩

/-- As long as the window is not full, a decode attends to all the rows. -/
theorem attends_all (hprobe : (modelProbe g).ok = true) (hload : loadConfig g strtof = some cfg)
    (hexp : ∀ x, 0 < libm.exp x) (hhold : RowsHold g cfg) (hunused : Unused s)
    (hok : AllSucceed g cfg (windowOps g cfg libm ops) as s) (hrun : Consecutive as)
    (hwindow : as.length ≤ cfg.slidingWindow) (hexact : as.length ≤ 2 ^ 24 + 1) :
    Covered g cfg libm ops as s ∧ ∀ i < as.length, Attends g cfg libm ops as s 0 i := by
  induction as using List.reverseRecOn with
  | nil =>
    refine ⟨⟨fun i => ?_, fun _ _ t ht => absurd ht (Nat.not_lt_zero t)⟩,
      fun i hi => absurd hi (Nat.not_lt_zero i)⟩
    change (s.kv.store.keys i).isSome = (s.kv.store.values i).isSome
    rw [hunused.keys, hunused.values]
  | append_singleton as a ih =>
    rw [List.length_append, List.length_singleton] at hwindow hexact
    obtain ⟨hcovered, hbefore⟩ := ih (allSucceed_last.1 hok).1 (consecutive_last.1 hrun).1
      (by omega) (by omega)
    obtain ⟨hcovered, hlast⟩ := hcovered.step hprobe hload hexp hhold hunused hok hrun
      (by omega) (by omega)
    refine ⟨hcovered, fun i hi => ?_⟩
    rw [List.length_append, List.length_singleton] at hi
    rcases Nat.lt_succ_iff_lt_or_eq.1 hi with hlt | rfl
    · exact (hbefore i hlt).append hlt
    · exact hlast

end Runs

section Losses

variable {F : Type} [Field F] [LinearOrder F] {g : VgGguf} {cfg : ModelConfig F}
variable {libm : AttnLibm F} {ops : Ops (Nat → F) Unit} {as : List Turn} {a : Turn}
variable {s : Work (Nat → F) (Recorded (Nat → F) (KvPages F))} {i layer : Nat}
variable {strtof : List UInt8 → Option F}

/-- A layer was last visited at a position, and its keys were stored there. -/
def VisitedAt (g : VgGguf) (cfg : ModelConfig F) (layer pos : Nat)
    (visit : Option (Visit (Nat → F) (KvPages F))) : Prop :=
  ∃ x, visit = some x ∧ x.pos = pos ∧ ∃ row T,
    x.store.keys = storeTable cfg elements layer pos (kvDim g cfg layer) row T

/-- A decode visits every layer at its position, as a float holds it. -/
theorem turn_visits (hprobe : (modelProbe g).ok = true) (hload : loadConfig g strtof = some cfg)
    (hpos : a.pos < cfg.nCtx) (hsingle : toSingle a.pos < cfg.nCtx) (hcold : s.gpuDense ≠ some true)
    (hpaired : Paired s.kv.store)
    (hok : a.attempt.status g cfg (windowOps g cfg libm ops) s = .ok) :
    Paired (a.attempt.after g cfg (windowOps g cfg libm ops) s).kv.store ∧
      ∀ layer < cfg.nLayer, VisitedAt g cfg layer (toSingle a.pos)
        ((a.attempt.after g cfg (windowOps g cfg libm ops) s).kv.visits layer) := by
  have hctx := nCtx_lt hload
  have hposition : toUInt32 a.attempt.kvPos = a.pos := by
    change ((a.pos : Int) % 2 ^ 32).toNat = a.pos
    omega
  let inv (l : Nat) (r : Recorded (Nat → F) (KvPages F)) : Prop :=
    Paired r.store ∧ ∀ layer < cfg.nLayer, layer < l →
      VisitedAt g cfg layer (toSingle a.pos) (r.visits layer)
  have hstart : inv 0 s.kv := ⟨hpaired, fun _ _ hlt => absurd hlt (Nat.not_lt_zero _)⟩
  have hstore (l : Nat) (hl : l < cfg.nLayer) (k v : Nat → F)
      (r : Recorded (Nat → F) (KvPages F)) (hr : inv l r) : inv (l + 1)
      (storeEffect cfg (windowOps g cfg libm ops) l (toSingle (toUInt32 a.attempt.kvPos))
        (kvDim g cfg l) (some k) (some v) r) := by
    obtain ⟨hr, hdone⟩ := hr
    rw [hposition, storeEffect_window hctx hsingle hr]
    refine ⟨storeTable_paired hr, fun layer hlayer hlt => ?_⟩
    dsimp only
    by_cases heq : layer = l
    · subst heq
      exact ⟨_, Function.update_self _ _ _, rfl, some k, r.store.keys, rfl⟩
    · rw [Function.update_of_ne heq]
      exact hdone layer hlayer (by omega)
  obtain ⟨⟨hpaired', hvisits⟩, -⟩ := turn_carries hprobe hload hstore hcold hstart hok
  exact ⟨hpaired', fun layer hl => hvisits layer hl hl⟩

/-- The first position that is not a float is taken for the one before it. -/
theorem toSingle_le {n : Nat} (h : n ≤ 2 ^ 24 + 1) : toSingle n ≤ n := by
  rcases Nat.lt_or_eq_of_le h with hlt | rfl
  · exact (toSingle_eq (by omega)).le
  · rw [toSingle_first_inexact]
    omega

theorem decodeAll_paired (hprobe : (modelProbe g).ok = true)
    (hload : loadConfig g strtof = some cfg) (hunused : Unused s) (hrun : Consecutive as)
    (hok : AllSucceed g cfg (windowOps g cfg libm ops) as s) (hlen : as.length ≤ 2 ^ 24 + 2) :
    Paired (decodeAll g cfg (windowOps g cfg libm ops) as s).kv.store := by
  induction as using List.reverseRecOn with
  | nil =>
    intro i
    change (s.kv.store.keys i).isSome = (s.kv.store.values i).isSome
    rw [hunused.keys, hunused.values]
  | append_singleton as a ih =>
    have hlength := length_le_nCtx (nCtx_lt hload) hrun hok
    rw [List.length_append, List.length_singleton] at hlen hlength
    obtain ⟨hrun, hpos⟩ := consecutive_last.1 hrun
    obtain ⟨hpre, hlast⟩ := allSucceed_last.1 hok
    have hsingle : toSingle a.pos ≤ a.pos := toSingle_le (by omega)
    rw [decodeAll_append]
    exact (turn_visits hprobe hload (by omega) (by omega)
      (decodeAll_cold hprobe hload (by rw [hunused.dense]; decide) hpre)
      (ih hrun hpre (by omega)) hlast).1

theorem visitOf_visited (hprobe : (modelProbe g).ok = true)
    (hload : loadConfig g strtof = some cfg) (hunused : Unused s) (hrun : Consecutive as)
    (hok : AllSucceed g cfg (windowOps g cfg libm ops) as s) (hi : i < as.length)
    (hexact : i ≤ 2 ^ 24 + 1) (hl : layer < cfg.nLayer) :
    VisitedAt g cfg layer (toSingle i) (visitOf g cfg libm ops as s i layer) := by
  have hlength := length_le_nCtx (nCtx_lt hload) hrun hok
  have hsplit : as = as.take i ++ as[i] :: as.drop (i + 1) := by simp
  have htake : as.take (i + 1) = as.take i ++ [as[i]] := List.take_succ_eq_append_getElem hi
  have hpos : as[i].pos = i := by
    have hall := congrArg (·[i]?) hrun
    simpa [hi] using hall
  have hrun' : Consecutive (as.take i) := by
    unfold Consecutive at hrun ⊢
    rw [List.map_take, hrun, List.length_take, List.take_range]
  rw [hsplit] at hok
  obtain ⟨hpre, hlast, -⟩ := allSucceed_append.1 hok
  have hsingle : toSingle i ≤ i := toSingle_le hexact
  unfold visitOf
  rw [htake, decodeAll_append]
  have hvisits := (turn_visits hprobe hload (by omega) (by rw [hpos]; omega)
    (decodeAll_cold hprobe hload (by rw [hunused.dense]; decide) hpre)
    (decodeAll_paired hprobe hload hunused hrun' hpre (by rw [List.length_take]; omega)) hlast).2
    layer hl
  rwa [hpos] at hvisits

omit [Field F] [LinearOrder F] in
theorem readMetadataInt_range (key : List UInt8) {old : Int} (hold : old < 2 ^ 31) :
    readMetadataInt g key old < 2 ^ 31 := by
  unfold readMetadataInt
  split
  · exact hold
  · exact (toInt32_range _).2

/-- There is always a window. -/
theorem slidingWindow_pos (hload : loadConfig g strtof = some cfg) : 0 < cfg.slidingWindow := by
  obtain ⟨arch, -, rfl⟩ := Option.map_eq_some_iff.1 hload
  have hpos (sw : Int) (hsw : sw < 2 ^ 31) : 0 < if 0 < sw then toUInt32 sw else 512 := by
    unfold toUInt32
    split <;> omega
  have hnext (key : List UInt8) (sw : Int) (hsw : sw < 2 ^ 31) :
      (if sw ≤ 0 then readMetadataInt g key sw else sw) < 2 ^ 31 := by
    split
    · exact readMetadataInt_range key hsw
    · exact hsw
  exact hpos _ (hnext _ _ (hnext _ _ (readMetadataInt_range _ (by decide))))

/-- A run that attends to its window throughout has not filled it. -/
theorem window_of_attends [IsStrictOrderedRing F] (hprobe : (modelProbe g).ok = true)
    (hload : loadConfig g strtof = some cfg) (hexp : ∀ x, 0 < libm.exp x) (hunused : Unused s)
    (hrun : Consecutive as) (hok : AllSucceed g cfg (windowOps g cfg libm ops) as s)
    (h : ∀ i < as.length, Attends g cfg libm ops as s (i + 1 - cfg.slidingWindow) i) :
    as.length ≤ cfg.slidingWindow ∧ as.length ≤ 2 ^ 24 + 1 := by
  obtain ⟨arch, te, hprobed⟩ := modelProbe_probed hprobe
  have hlayers : 0 < cfg.nLayer := by
    rw [hprobed.nLayer hload]
    exact Nat.pos_of_ne_zero hprobed.sizes.1
  have hheads : 0 < cfg.nHead := by
    rw [hprobed.nHead hload]
    exact Nat.pos_of_ne_zero hprobed.heads
  constructor
  · by_contra hfull
    -- position 0 has left the window, but not the softmax
    obtain ⟨visit, -, hweights, -⟩ := h cfg.slidingWindow (Nat.not_le.1 hfull) 0 hlayers
    have hfirst : visit.weight g cfg libm 0 0 0 0 ≠ 0 :=
      (softmaxWeight_ne_zero_iff hexp).2 (Nat.zero_le _)
    have hlow := ((hweights 0 0 hheads 0).1 hfirst).1
    omega
  · by_contra hlong
    -- the position itself is missed, since the layers take it for the one before
    obtain ⟨visit, hvisit, hweights, -⟩ := h (2 ^ 24 + 1) (Nat.not_le.1 hlong) 0 hlayers
    obtain ⟨visit', hvisit', hpos, -⟩ := visitOf_visited hprobe hload hunused hrun hok
      (Nat.not_le.1 hlong) le_rfl hlayers
    obtain rfl : visit = visit' := Option.some.inj (hvisit.symm.trans hvisit')
    have hwindow := slidingWindow_pos hload
    have hself := (softmaxWeight_ne_zero_iff hexp).1
      ((hweights 0 0 hheads (2 ^ 24 + 1)).2 ⟨by omega, le_rfl⟩)
    rw [hpos, toSingle_first_inexact] at hself
    omega

/-- With a window of 512 positions a run that has kept all its rows is no longer than that. -/
theorem length_of_attends (hprobe : (modelProbe g).ok = true)
    (hload : loadConfig g strtof = some cfg) (hunused : Unused s) (hrun : Consecutive as)
    (hok : AllSucceed g cfg (windowOps g cfg libm ops) as s) (hwindow : cfg.slidingWindow = 512)
    (h : ∀ i < as.length, Attends g cfg libm ops as s 0 i) : as.length ≤ 512 := by
  obtain ⟨arch, te, hprobed⟩ := modelProbe_probed hprobe
  have hlayers : 0 < cfg.nLayer := by
    rw [hprobed.nLayer hload]
    exact Nat.pos_of_ne_zero hprobed.sizes.1
  by_contra hfull
  have hlt : 512 < as.length := Nat.not_le.1 hfull
  have hlength := length_le_nCtx (nCtx_lt hload) hrun hok
  obtain ⟨visit, hvisit, -, hrows⟩ := h 512 hlt 0 hlayers
  obtain ⟨old, -, hreads⟩ := hrows 0 (Nat.zero_le _) (Nat.zero_le _)
  obtain ⟨visit', hvisit', -, row, T, hstored⟩ := visitOf_visited hprobe hload hunused hrun hok hlt
    (by decide) hlayers
  obtain rfl : visit = visit' := Option.some.inj (hvisit.symm.trans hvisit')
  have hpage : evictPage cfg 512 = 0 := by
    unfold evictPage
    rw [hwindow]
    rfl
  have hfirst : 0 / pageTokens < cfg.kvCapacity := pageOf_lt (nCtx_lt hload) (nCtx_pos hload)
  have hevicts : Evicts cfg 512 := ⟨hwindow.le, by omega, hpage.trans_lt hfirst⟩
  have hslot : pageSlot cfg 0 0 ≠ pageSlot cfg 0 512 := by
    unfold pageSlot
    rw [Nat.zero_mul]
    decide
  have hmissing : visit.store.keys (pageSlot cfg 0 0) = none := by
    rw [← Option.isNone_iff_eq_none, ← Option.not_isSome, hstored, toSingle_eq (by decide)]
    unfold storeTable evictTable
    rw [writeTable_isSome, PageTable.ensure_of_ne hslot, if_pos hevicts, hpage]
    simp [pageSlot, pageIndex]
  have hheld := hreads.keyPage
  rw [hmissing] at hheld
  cases hheld

end Losses

section Claims

variable {F : Type} [Field F] [LinearOrder F] [IsStrictOrderedRing F] {g : VgGguf}
variable {cfg : ModelConfig F} {libm : AttnLibm F} {ops : Ops (Nat → F) Unit} {as : List Turn}
variable {s : Work (Nat → F) (Recorded (Nat → F) (KvPages F))}
variable {strtof : List UInt8 → Option F}

/-- The keys under which the loader looks for a window. -/
def windowKeys (arch : List UInt8) : List (List UInt8) :=
  [archKey arch ".attention.sliding_window", txt "llama.attention.sliding_window",
    txt "attention.sliding_window"]

/-- No key declares a window of any position. -/
def Windowless (g : VgGguf) : Prop :=
  ∀ arch, ggufMeta g (txt "general.architecture") = some arch → ∀ key ∈ windowKeys arch,
    ∀ v, ggufMeta g key = some v → toInt32 (strtol (skipList v)) ≤ 0

omit [IsStrictOrderedRing F] in
theorem Windowless.slidingWindow (h : Windowless g) (hload : loadConfig g strtof = some cfg) :
    cfg.slidingWindow = 512 := by
  obtain ⟨arch, harch, rfl⟩ := Option.map_eq_some_iff.1 hload
  have hread (key : List UInt8) (hkey : key ∈ windowKeys arch) (old : Int) (hold : old ≤ 0) :
      readMetadataInt g key old ≤ 0 := by
    unfold readMetadataInt
    cases hvalue : ggufMeta g key with
    | none => exact hold
    | some v => exact h arch harch key hkey v hvalue
  change readSlidingWindow g arch = 512
  unfold readSlidingWindow
  have hfirst := hread (archKey arch ".attention.sliding_window") (by simp [windowKeys]) 0 le_rfl
  have hsecond := hread (txt "llama.attention.sliding_window") (by simp [windowKeys]) _ hfirst
  have hthird := hread (txt "attention.sliding_window") (by simp [windowKeys]) _ hsecond
  simp only [if_pos hfirst, if_pos hsecond, if_neg (Int.not_lt.2 hthird)]

end Claims

section Example

/-- The exponential function to the second order, which is exact at zero. -/
def taylorLibm : AttnLibm ℚ where
  exp x := 1 + x + x ^ 2 / 2
  tanh x := x
  sqrt x := x

theorem taylorLibm_exp (x : ℚ) : 0 < taylorLibm.exp x := by
  change 0 < 1 + x + x ^ 2 / 2
  nlinarith [sq_nonneg (x + 1)]

/-- Vectors of numbers, and weights that change nothing. -/
def plainOps : Ops (Nat → ℚ) Unit where
  junk := 0
  zero := 0
  add := (· + ·)
  rmsnorm _ x := x
  matmul _ x := x
  lora _ _ _ _ y := y
  bias _ x := x
  headNorm _ _ x := x
  rope _ _ _ _ x := x
  swiglu := (· * ·)
  gelu x := x
  greater _ _ _ := false
  addExpert _ _ _ acc y := acc + y
  addShared _ _ acc y := acc + y
  evict _ _ _ := ()
  pageMissing _ _ _ := false
  addPage _ _ _ _ _ _ := ()
  writeRow _ _ _ _ _ _ := ()
  attend _ _ _ _ x _ := x
  embed _ := 1
  logits _ x := x
  softcap x := x
  dense _ x _ := (x, ())
  denseLogits x := x

def unusedWork : Work (Nat → ℚ) (Recorded (Nat → ℚ) (KvPages ℚ)) :=
  ⟨0, 0, 0, 0, 0, ⟨⟨fun _ => none, fun _ => none⟩, fun _ => none⟩, 0, 0, 0, none⟩

theorem unusedWork_unused : Unused unusedWork := ⟨fun _ => rfl, fun _ => rfl, rfl⟩

/-- Token 0 over and over. -/
@[irreducible] def zeros (n : Nat) : List Turn := (List.range n).map fun i => ⟨0, i⟩

@[simp] theorem zeros_length (n : Nat) : (zeros n).length = n := by
  rw [zeros, List.length_map, List.length_range]

theorem zeros_consecutive (n : Nat) : Consecutive (zeros n) := by
  unfold Consecutive
  rw [zeros_length, zeros, List.map_map]
  exact List.map_id _

theorem allSucceed_of_reaches {K : Type*} [Field K] [LinearOrder K] {V S : Type} {g : VgGguf}
    {cfg : ModelConfig K} {ops : Ops V S} (hexperts : ¬ 1 < cfg.nExpert) {as : List Turn}
    (h : ∀ a ∈ as, a.attempt.Reaches g cfg) (s : Work V S) : AllSucceed g cfg ops as s := by
  induction as generalizing s with
  | nil => trivial
  | cons a as ih =>
    exact ⟨modelGraphDecode_ok hexperts (h a List.mem_cons_self) s,
      ih (fun b hb => h b (List.mem_cons_of_mem a hb)) _⟩

theorem zeros_succeed {g : VgGguf} {cfg : ModelConfig ℚ} {ops : Ops (Nat → ℚ) Unit} {n : Nat}
    (hexperts : ¬ 1 < cfg.nExpert) (hctx : n ≤ cfg.nCtx) (hlt : cfg.nCtx < 2 ^ 31)
    (hembed : embedStatus g cfg allOk 0 = .ok)
    (s : Work (Nat → ℚ) (Recorded (Nat → ℚ) (KvPages ℚ))) :
    AllSucceed g cfg (windowOps g cfg taylorLibm ops) (zeros n) s := by
  apply allSucceed_of_reaches hexperts
  intro a ha
  unfold zeros at ha
  obtain ⟨i, hi, rfl⟩ := List.mem_map.1 ha
  have hrange := List.mem_range.1 hi
  refine ⟨?_, hembed⟩
  change ((i : Int) % 2 ^ 32).toNat < cfg.nCtx
  omega

/-- One dense layer of width one without a declared window. -/
def windowlessFile : GgufFile :=
  ⟨(llamaLayout
    [("block_count", 1), ("attention.head_count", 1), ("feed_forward_length", 1)]
    [("token_embd.weight", [1, 1], 0), ("output_norm.weight", [1], 0),
     ("blk.0.attn_norm.weight", [1], 0), ("blk.0.attn_q.weight", [1, 1], 0),
     ("blk.0.attn_k.weight", [1, 1], 0), ("blk.0.attn_v.weight", [1, 1], 0),
     ("blk.0.attn_output.weight", [1, 1], 0), ("blk.0.ffn_norm.weight", [1], 0),
     ("blk.0.ffn_up.weight", [1, 1], 0), ("blk.0.ffn_down.weight", [1, 1], 0)]).encode ++
    List.replicate 64 0, by decide +kernel, by decide +kernel⟩

/-- `Windowless`, evaluated. -/
def windowless (g : VgGguf) : Bool :=
  (ggufMeta g (txt "general.architecture")).all fun arch => (windowKeys arch).all fun key =>
    (ggufMeta g key).all fun v => toInt32 (strtol (skipList v)) ≤ 0

theorem windowless_of_eval {g : VgGguf} (h : windowless g = true) : Windowless g := by
  intro arch harch key hkey v hv
  unfold windowless at h
  rw [harch, Option.all_some, List.all_eq_true] at h
  have hkey := h key hkey
  rw [hv, Option.all_some, decide_eq_true_eq] at hkey
  exact hkey

/-- What the file without a window is loaded as. -/
theorem windowlessFile_loads : ∃ (g : VgGguf) (cfg : ModelConfig ℚ),
    parseIndex plainLibc windowlessFile = .ok g ∧ (modelProbe g).ok = true ∧
      loadConfig g (fun _ => none) = some cfg ∧ Windowless g ∧ RowsHold g cfg ∧
      ¬ 1 < cfg.nExpert ∧ 513 ≤ cfg.nCtx ∧ embedStatus g cfg allOk 0 = .ok := by
  have haccept : (parseIndex plainLibc windowlessFile).toOption.any (fun g =>
      (modelProbe g).ok && windowless g &&
      (loadConfig g (fun _ => none)).any fun cfg : ModelConfig ℚ =>
        decide (cfg.nLayer * cfg.kvCapacity < 2 ^ 32) &&
        decide (∀ l < cfg.nLayer, min cfg.nCtx pageTokens * kvDim g cfg l ≤ pageFloats g cfg l) &&
        decide (∀ l < cfg.nLayer, ∀ h < cfg.nHead, cfg.kvHead h * kvWidth g cfg l +
          max (headWidth g cfg l) (kvWidth g cfg l) ≤ kvDim g cfg l) &&
        decide (cfg.nExpert ≤ 1) && decide (513 ≤ cfg.nCtx) &&
        embedStatus g cfg allOk 0 == .ok) = true := by
    decide +kernel
  cases hparse : parseIndex plainLibc windowlessFile with
  | error e =>
    rw [hparse] at haccept
    cases haccept
  | ok g =>
    rw [hparse] at haccept
    simp only [Except.toOption, Option.any_some, Bool.and_eq_true] at haccept
    obtain ⟨⟨hprobe, hnone⟩, haccept⟩ := haccept
    obtain ⟨cfg, hload⟩ := loadConfig_isSome (fun _ => none) hprobe
    rw [hload] at haccept
    simp only [Option.any_some, Bool.and_eq_true, beq_iff_eq, decide_eq_true_eq] at haccept
    obtain ⟨⟨⟨⟨⟨hslots, hrows⟩, hheads⟩, hexperts⟩, hctx⟩, hembed⟩ := haccept
    exact ⟨g, cfg, rfl, hprobe, hload, windowless_of_eval hnone, ⟨⟨hslots, hrows⟩, hheads⟩,
      by omega, hctx, hembed⟩

end Example

end VgEngine.Decode

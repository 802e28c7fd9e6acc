import VgEngine.Decode.LockstepDecode
import VgEngine.Decode.Unsettled

/-! Runs of decodes some of which fail. A decode that fails may have stored its row in some layers;
the same position stored again leaves no trace of that, unless a read that nothing reports keeps
the row from being stored. -/
namespace VgEngine.Decode
open Lib Bytes Gguf Model Single

/-- A call of `vg_model_graph_decode`. -/
structure Attempt where
  token : Int
  kvPos : Int
  outcomes : Outcomes

section Runs

variable {K : Type*} (g : VgGguf) (cfg : ModelConfig K)

/-- The position that the layers take, through a float. -/
def Attempt.pos (a : Attempt) : Nat := toSingle (toUInt32 a.kvPos)

/-- The attempt gets to the layers. -/
def Attempt.Reaches (a : Attempt) : Prop := Decode.Reaches g cfg a.outcomes a.token a.kvPos

variable {g cfg} in
theorem Attempt.pos_lt {a : Attempt} (hreach : a.Reaches g cfg)
    (hexact : toSingle (toUInt32 a.kvPos) = toUInt32 a.kvPos) : a.pos < cfg.nCtx := by
  unfold Attempt.pos
  rw [hexact]
  exact hreach.1

variable [Field K] [LinearOrder K] {V S : Type} (ops : Ops V S)

def Attempt.status (a : Attempt) (s : Work V S) : Status :=
  (modelGraphDecode (cpuGraph g cfg) a.outcomes ops a.token a.kvPos s).1.1

def Attempt.after (a : Attempt) (s : Work V S) : Work V S :=
  (modelGraphDecode (cpuGraph g cfg) a.outcomes ops a.token a.kvPos s).1.2

variable {g cfg ops} in
theorem refused_unchanged {a : Attempt} {s : Work V S} (hrefused : ¬ a.Reaches g cfg) :
    a.status g cfg ops s ≠ .ok ∧ a.after g cfg ops s = s := by
  obtain ⟨st, hst, hdecode⟩ := @modelGraphDecode_refused K V S g cfg a.outcomes ops
    a.token a.kvPos _ _ hrefused
  unfold Attempt.status Attempt.after
  rw [hdecode]
  exact ⟨hst, rfl⟩

/-- The state after a run. -/
def runAll : List Attempt → Work V S → Work V S
  | [], s => s
  | a :: as, s => runAll as (a.after g cfg ops s)

/-- The run without the attempts that fail in it. -/
def kept : List Attempt → Work V S → List Attempt
  | [], _ => []
  | a :: as, s =>
    if a.status g cfg ops s = .ok then a :: kept as (a.after g cfg ops s)
    else kept as (a.after g cfg ops s)

variable {g cfg ops} in
/-- Without routed blocks a decode that fails has changed nothing. -/
theorem runAll_kept (hexperts : ¬ 1 < cfg.nExpert) (as : List Attempt) (s : Work V S) :
    runAll g cfg ops (kept g cfg ops as s) s = runAll g cfg ops as s := by
  induction as generalizing s with
  | nil => rfl
  | cons a as ih =>
    unfold kept
    by_cases hok : a.status g cfg ops s = .ok
    · rw [if_pos hok]
      exact ih _
    · have hrefused : ¬ a.Reaches g cfg := fun hreach => hok (modelGraphDecode_ok hexperts hreach s)
      have hsame : a.after g cfg ops s = s := (refused_unchanged hrefused).2
      rw [if_neg hok, hsame]
      change _ = runAll g cfg ops as (a.after g cfg ops s)
      rw [hsame]
      exact ih s

/-- The positions of attempts that have failed in their layers and have not succeeded since, after
one more attempt. -/
def settle (a : Attempt) (s : Work V S) (failed : Nat → Prop) (p : Nat) : Prop :=
  if a.status g cfg ops s = .ok then failed p ∧ p ≠ a.pos
  else failed p ∨ (a.Reaches g cfg ∧ p = a.pos)

end Runs

section Condition

variable {K : Type*} [Field K] [LinearOrder K] {V S : Type} (g : VgGguf) (cfg : ModelConfig K)
  (ops : Ops V S)

/-- The condition on one attempt: a float holds its position, its rows have the width of their
layer, and if it succeeds the failed attempts before it are no harm. -/
structure StepMeets (a : Attempt) (s : Work V S) (failed : Nat → Prop) : Prop where
  exact : toSingle (toUInt32 a.kvPos) = toUInt32 a.kvPos
  laid : Laid g cfg a.outcomes
  harmless : a.status g cfg ops s = .ok → ∀ p, failed p → Harmless g cfg a.outcomes a.pos p

/-- Every attempt of a run that gets to its layers meets the condition. -/
def Careful : List Attempt → Work V S → (Nat → Prop) → Prop
  | [], _, _ => True
  | a :: as, s, failed => (a.Reaches g cfg → StepMeets g cfg ops a s failed) ∧
      Careful as (a.after g cfg ops s) (settle g cfg ops a s failed)

end Condition

section Rows

variable {K : Type*} {F : Type} [Zero F] (g : VgGguf) (cfg : ModelConfig K)

/-- The resident rows before a position, outside the page that leaves the window there, stay. -/
def RowsKept (pos : Nat) (T T' : PageTable F) : Prop :=
  ∀ l < cfg.nLayer, ∀ t < pos, ¬ (Evicts cfg pos ∧ t / pageTokens = evictPage cfg pos) →
    (T (pageSlot cfg l t)).isSome = true →
      (T' (pageSlot cfg l t)).isSome = true ∧ ∀ i < kvDim g cfg l,
        PageTable.cell T' (pageSlot cfg l t) (t % pageTokens * kvDim g cfg l + i) =
          PageTable.cell T (pageSlot cfg l t) (t % pageTokens * kvDim g cfg l + i)

variable {g cfg}

theorem RowsKept.refl (pos : Nat) (T : PageTable F) : RowsKept g cfg pos T T :=
  fun _ _ _ _ _ hpage => ⟨hpage, fun _ _ => rfl⟩

/-- One attempt at a position leaves the rows before it. -/
theorem NearBut.rowsKept {pos : Nat} {T T' : PageTable F} (hpages : PagesHold g cfg)
    (hctx : cfg.nCtx < 2 ^ 31) (hpos : pos < cfg.nCtx)
    (h : NearBut g cfg (fun _ p => p = pos) T' T) : RowsKept g cfg pos T T' := by
  intro l hl t ht hkept hpage
  have hcapacity : t / pageTokens < cfg.kvCapacity := pageOf_lt hctx (ht.trans hpos)
  have hlost : ¬ lostBy cfg (fun _ p => p = pos) (pageSlot cfg l t) := by
    rintro ⟨l', hl', p, rfl, hevicts, hslot⟩
    exact hkept ⟨hevicts,
      (pageIndex_inj hpages.slots hl hl' hcapacity hevicts.2.2 hslot).2⟩
  refine ⟨h.held _ hlost hpage, fun i hi => h.cells _ hlost _ ?_⟩
  rintro ⟨l', hl', p, rfl, hslot, hlow, -⟩
  obtain ⟨rfl, hsame⟩ := pageIndex_inj hpages.slots hl hl' hcapacity (pageOf_lt hctx hpos) hslot
  have hend := row_end_le ht hsame (kvDim g cfg l)
  omega

end Rows

section Property

variable {K : Type*} [Field K] [LinearOrder K] {V F : Type} [Zero F] (g : VgGguf)
  (cfg : ModelConfig K) (ops : Ops V (KvPages F))

/-- Wherever the run stands, an attempt that fails keeps the rows before its position, and one that
succeeds succeeds with the same logits in the run without the failed ones. -/
def Retryable (as : List Attempt) (s : Work V (KvPages F)) : Prop :=
  ∀ pre a post, as = pre ++ a :: post →
    (a.status g cfg ops (runAll g cfg ops pre s) ≠ .ok →
      RowsKept g cfg (toUInt32 a.kvPos) (runAll g cfg ops pre s).kv.keys
          (a.after g cfg ops (runAll g cfg ops pre s)).kv.keys ∧
        RowsKept g cfg (toUInt32 a.kvPos) (runAll g cfg ops pre s).kv.values
          (a.after g cfg ops (runAll g cfg ops pre s)).kv.values) ∧
    (a.status g cfg ops (runAll g cfg ops pre s) = .ok →
      a.status g cfg ops (runAll g cfg ops (kept g cfg ops pre s) s) = .ok ∧
        (a.after g cfg ops (runAll g cfg ops (kept g cfg ops pre s) s)).logits =
          (a.after g cfg ops (runAll g cfg ops pre s)).logits)

/-- A graph that has not decoded anything. -/
structure New (s : Work V (KvPages F)) : Prop where
  keys : ∀ i, s.kv.keys i = none
  values : ∀ i, s.kv.values i = none
  dense : s.gpuDense = none

end Property

section Steps

variable {K : Type*} [Field K] [LinearOrder K] {V F : Type} [Zero F] {g : VgGguf}
variable {cfg : ModelConfig K} {cell : V → Nat → F} {attention : Attention V F} {ops : Ops V Unit}
variable {a : Attempt} {s s' : Work V (KvPages F)} {failed : Nat → Prop}

/-- What an attempt that fails has changed: rows of its position, and nothing that is read before
they are stored again. -/
structure Leaves (g : VgGguf) (cfg : ModelConfig K) (a : Attempt) (s t : Work V (KvPages F)) :
    Prop where
  logits : t.logits = s.logits
  kv : Behind g cfg (fun _ p => a.Reaches g cfg ∧ p = a.pos) t.kv s.kv
  cold : t.gpuDense ≠ some true

theorem failed_leaves (hproj : Projected g cfg) (hpages : PagesHold g cfg)
    (hctx : cfg.nCtx < 2 ^ 31) (hexperts : 1 < cfg.nExpert) (hreads : ReadsOnly a.outcomes)
    (hmeets : a.Reaches g cfg →
      StepMeets g cfg (pagedOps g cfg cell ops attention) a s failed)
    (hcold : s.gpuDense ≠ some true) (hpaired : Paired s.kv)
    (hfails : a.status g cfg (pagedOps g cfg cell ops attention) s ≠ .ok) :
    Leaves g cfg a s (a.after g cfg (pagedOps g cfg cell ops attention) s) := by
  by_cases hreach : a.Reaches g cfg
  · have hcarry : Carries g cfg a.outcomes (pagedOps g cfg cell ops attention) a.pos
        fun _ kv kv' => kv = kv' ∧ Behind g cfg (fun _ p => p = a.pos) kv s.kv :=
      carries_alone hpages hctx (a.pos_lt hreach (hmeets hreach).exact)
    have hsame (x y : V) (h : x = y ∧ x = s.logits) : x = y := h.1
    -- the decode next to itself
    have hdecode := modelGraphDecode_coupled hreads hproj (hmeets hreach).laid (.inl hexperts) hreach
      hcarry (.inl hsame) s s ⟨⟨rfl, rfl⟩, ⟨rfl, hpaired, hpaired, .refl _, .refl _⟩, hcold, hcold⟩
    rcases hdecode.2 with ⟨hok, -⟩ | ⟨-, j, -, hend⟩
    · exact absurd hok hfails
    · exact ⟨hend.logits.2, hend.kv.2.mono fun _ _ p hp => ⟨hreach, hp⟩, hend.cold⟩
  · rw [(refused_unchanged hreach).2]
    exact ⟨rfl, ⟨hpaired, hpaired, .refl _, .refl _⟩, hcold⟩

/-- An attempt that succeeds settles the failed ones at its position. -/
theorem succeeded_settles (hproj : Projected g cfg) (hpages : PagesHold g cfg)
    (hctx : cfg.nCtx < 2 ^ 31) (hexperts : 1 < cfg.nExpert) (hreads : ReadsOnly a.outcomes)
    (hmeets : a.Reaches g cfg →
      StepMeets g cfg (pagedOps g cfg cell ops attention) a s failed)
    (hbound : ∀ p, failed p → p < cfg.nCtx)
    (h : Apart Eq (Behind g cfg fun _ => failed) s s')
    (hok : a.status g cfg (pagedOps g cfg cell ops attention) s = .ok) :
    a.status g cfg (pagedOps g cfg cell ops attention) s' = .ok ∧
      Apart Eq (Behind g cfg fun _ p => failed p ∧ p ≠ a.pos)
        (a.after g cfg (pagedOps g cfg cell ops attention) s)
        (a.after g cfg (pagedOps g cfg cell ops attention) s') := by
  have hreach : a.Reaches g cfg := by
    by_contra hrefused
    exact (refused_unchanged hrefused).1 hok
  have hcarry : Carries g cfg a.outcomes (pagedOps g cfg cell ops attention) a.pos
      fun l => Behind g cfg (left failed a.pos l) :=
    carries_both hpages hctx (a.pos_lt hreach (hmeets hreach).exact) hbound
      ((hmeets hreach).harmless hok)
  have hstart : Apart Eq (Behind g cfg (left failed a.pos 0)) s s' :=
    ⟨h.logits, h.kv.mono fun _ _ p hp => ⟨hp, fun hlt => absurd hlt (Nat.not_lt_zero _)⟩,
      h.cold, h.cold'⟩
  have hdecode := modelGraphDecode_coupled hreads hproj (hmeets hreach).laid (.inl hexperts) hreach
    hcarry (.inl fun _ _ h => h) s s' hstart
  rcases hdecode.2 with ⟨-, hend⟩ | ⟨hfails, -⟩
  · exact ⟨hdecode.1.symm.trans hok,
      hend.logits, hend.kv.mono fun l hl p hp => ⟨hp.1, hp.2 hl⟩, hend.cold, hend.cold'⟩
  · exact absurd hok hfails

/-- What two runs share, one of them with the failed attempts and one without. -/
structure Alike (g : VgGguf) (cfg : ModelConfig K) (failed : Nat → Prop)
    (s s' : Work V (KvPages F)) : Prop extends Apart Eq (Behind g cfg fun _ => failed) s s' where
  bound : ∀ p, failed p → p < cfg.nCtx

theorem Alike.fail (hproj : Projected g cfg) (hpages : PagesHold g cfg)
    (hctx : cfg.nCtx < 2 ^ 31) (hexperts : 1 < cfg.nExpert) (hreads : ReadsOnly a.outcomes)
    (hmeets : a.Reaches g cfg →
      StepMeets g cfg (pagedOps g cfg cell ops attention) a s failed)
    (h : Alike g cfg failed s s')
    (hfails : a.status g cfg (pagedOps g cfg cell ops attention) s ≠ .ok) :
    Alike g cfg (settle g cfg (pagedOps g cfg cell ops attention) a s failed)
      (a.after g cfg (pagedOps g cfg cell ops attention) s) s' := by
  have hleaves := failed_leaves hproj hpages hctx hexperts hreads hmeets h.cold h.kv.paired hfails
  have hsettle (p : Nat) : settle g cfg (pagedOps g cfg cell ops attention) a s failed p ↔
      failed p ∨ (a.Reaches g cfg ∧ p = a.pos) := by
    unfold settle
    rw [if_neg hfails]
  constructor
  case toApart =>
    refine ⟨hleaves.logits.trans h.logits, ?_, hleaves.cold, h.cold'⟩
    apply (hleaves.kv.trans h.kv).mono
    intro l _ p hp
    exact (hsettle p).2 hp.symm
  case bound =>
    intro p hp
    rcases (hsettle p).1 hp with hp | ⟨hreach, rfl⟩
    · exact h.bound p hp
    · exact a.pos_lt hreach (hmeets hreach).exact

theorem Alike.succeed (hproj : Projected g cfg) (hpages : PagesHold g cfg)
    (hctx : cfg.nCtx < 2 ^ 31) (hexperts : 1 < cfg.nExpert) (hreads : ReadsOnly a.outcomes)
    (hmeets : a.Reaches g cfg →
      StepMeets g cfg (pagedOps g cfg cell ops attention) a s failed)
    (h : Alike g cfg failed s s')
    (hok : a.status g cfg (pagedOps g cfg cell ops attention) s = .ok) :
    a.status g cfg (pagedOps g cfg cell ops attention) s' = .ok ∧
      Alike g cfg (settle g cfg (pagedOps g cfg cell ops attention) a s failed)
        (a.after g cfg (pagedOps g cfg cell ops attention) s)
        (a.after g cfg (pagedOps g cfg cell ops attention) s') := by
  obtain ⟨hok', hend⟩ :=
    succeeded_settles hproj hpages hctx hexperts hreads hmeets h.bound h.toApart hok
  have hsettle (p : Nat) : settle g cfg (pagedOps g cfg cell ops attention) a s failed p ↔
      failed p ∧ p ≠ a.pos := by
    unfold settle
    rw [if_pos hok]
  refine ⟨hok', ⟨hend.logits, ?_, hend.cold, hend.cold'⟩, ?_⟩
  · exact hend.kv.mono fun l _ p hp => (hsettle p).2 hp
  · exact fun p hp => h.bound p ((hsettle p).1 hp).1

end Steps

section Run

variable {K : Type*} [Field K] [LinearOrder K] {V F : Type} [Zero F] {g : VgGguf}
variable {cfg : ModelConfig K} {cell : V → Nat → F} {attention : Attention V F} {ops : Ops V Unit}
variable {s s' : Work V (KvPages F)} {failed : Nat → Prop} {strtof : List UInt8 → Option K}

/-- The two runs stay alike over any attempts that meet the condition. -/
theorem runAll_alike (hproj : Projected g cfg) (hpages : PagesHold g cfg)
    (hctx : cfg.nCtx < 2 ^ 31) (hexperts : 1 < cfg.nExpert) (pre rest : List Attempt)
    (hreads : ∀ a ∈ pre, ReadsOnly a.outcomes) (h : Alike g cfg failed s s')
    (hcareful : Careful g cfg (pagedOps g cfg cell ops attention) (pre ++ rest) s failed) :
    ∃ failed', Alike g cfg failed' (runAll g cfg (pagedOps g cfg cell ops attention) pre s)
        (runAll g cfg (pagedOps g cfg cell ops attention)
          (kept g cfg (pagedOps g cfg cell ops attention) pre s) s') ∧
      Careful g cfg (pagedOps g cfg cell ops attention) rest
        (runAll g cfg (pagedOps g cfg cell ops attention) pre s) failed' := by
  induction pre generalizing s s' failed with
  | nil => exact ⟨failed, h, hcareful⟩
  | cons a pre ih =>
    obtain ⟨hmeets, hcareful⟩ := hcareful
    have hfirst := hreads a List.mem_cons_self
    have hrest := fun b hb => hreads b (List.mem_cons_of_mem a hb)
    by_cases hok : a.status g cfg (pagedOps g cfg cell ops attention) s = .ok
    · unfold kept
      rw [if_pos hok]
      exact ih hrest (h.succeed hproj hpages hctx hexperts hfirst hmeets hok).2 hcareful
    · unfold kept
      rw [if_neg hok]
      exact ih hrest (h.fail hproj hpages hctx hexperts hfirst hmeets hok) hcareful

theorem projected_of_probe (hprobe : (modelProbe g).ok = true)
    (hload : loadConfig g strtof = some cfg) : Projected g cfg := by
  obtain ⟨arch, te, hprobed⟩ := modelProbe_probed hprobe
  have hlayer (l : Nat) (hl : l < cfg.nLayer) :=
    (hprobed.layers l (hprobed.nLayer hload ▸ hl)).attention
  constructor
  case query => exact fun l hl => let ⟨t, _, h, _⟩ := (hlayer l hl).query; ⟨t, h⟩
  case key => exact fun l hl => let ⟨t, _, h, _⟩ := (hlayer l hl).key; ⟨t, h⟩
  case value => exact fun l hl => let ⟨t, _, h, _⟩ := (hlayer l hl).value; ⟨t, h⟩

/-- Every run of a new graph in which only reads fail is retryable, if the model has no routed
blocks, or if the attempts meet the condition and the pages hold the rows of the model. -/
theorem decode_retryable (hprobe : (modelProbe g).ok = true)
    (hload : loadConfig g strtof = some cfg) (hnew : New s) (as : List Attempt)
    (hreads : ∀ a ∈ as, ReadsOnly a.outcomes)
    (hmeets : 1 < cfg.nExpert → PagesHold g cfg ∧
      Careful g cfg (pagedOps g cfg cell ops attention) as s fun _ => False) :
    Retryable g cfg (pagedOps g cfg cell ops attention) as s := by
  rintro pre a post rfl
  by_cases hexperts : 1 < cfg.nExpert
  · obtain ⟨hpages, hcareful⟩ := hmeets hexperts
    have hproj := projected_of_probe hprobe hload
    have hctx := nCtx_lt hload
    have hcold : s.gpuDense ≠ some true := by
      rw [hnew.dense]
      decide
    have hpaired : Paired s.kv := fun i => by rw [hnew.keys, hnew.values]
    have hstart : Alike g cfg (fun _ => False) s s :=
      ⟨⟨rfl, ⟨hpaired, hpaired, .refl _, .refl _⟩, hcold, hcold⟩, fun p hp => hp.elim⟩
    obtain ⟨failed, halike, hmeets, -⟩ := runAll_alike hproj hpages hctx hexperts pre (a :: post)
      (fun b hb => hreads b (List.mem_append_left _ hb)) hstart hcareful
    have hread := hreads a (List.mem_append_right _ List.mem_cons_self)
    constructor
    · intro hfails
      by_cases hreach : a.Reaches g cfg
      · have hleaves := failed_leaves hproj hpages hctx hexperts hread hmeets halike.cold
          halike.kv.paired hfails
        have hkv : Behind g cfg (fun _ p => p = toUInt32 a.kvPos) _ _ :=
          hleaves.kv.mono fun _ _ p hp => hp.2.trans (hmeets hreach).exact
        exact ⟨hkv.keys.rowsKept hpages hctx hreach.1, hkv.values.rowsKept hpages hctx hreach.1⟩
      · rw [(refused_unchanged hreach).2]
        exact ⟨.refl _ _, .refl _ _⟩
    · intro hok
      obtain ⟨hok', hend⟩ := halike.succeed hproj hpages hctx hexperts hread hmeets hok
      exact ⟨hok', hend.logits.symm⟩
  · rw [runAll_kept hexperts]
    constructor
    · intro hfails
      have hrefused : ¬ a.Reaches g cfg := fun hreach =>
        hfails (modelGraphDecode_ok hexperts hreach _)
      rw [(refused_unchanged hrefused).2]
      exact ⟨.refl _ _, .refl _ _⟩
    · exact fun hok => ⟨hok, rfl⟩

end Run

section Example

/-- One layer of width one with two experts. -/
def routedFile : GgufFile :=
  ⟨(llamaLayout
    [("block_count", 1), ("attention.head_count", 1), ("feed_forward_length", 1),
      ("expert_count", 2)]
    [("token_embd.weight", [1, 1], 0), ("output_norm.weight", [1], 0),
     ("blk.0.attn_norm.weight", [1], 0), ("blk.0.attn_q.weight", [1, 1], 0),
     ("blk.0.attn_k.weight", [1, 1], 0), ("blk.0.attn_v.weight", [1, 1], 0),
     ("blk.0.attn_output.weight", [1, 1], 0), ("blk.0.ffn_norm.weight", [1], 0),
     ("blk.0.ffn_gate_inp.weight", [1, 2], 0), ("blk.0.ffn_gate_exps.weight", [1, 1, 2], 0),
     ("blk.0.ffn_up_exps.weight", [1, 1, 2], 0),
     ("blk.0.ffn_down_exps.weight", [1, 1, 2], 0)]).encode ++
    List.replicate 64 0, by decide +kernel, by decide +kernel⟩

/-- Vectors of one number, and weights that change nothing. -/
def sumOps : Ops Int Unit where
  junk := 0
  zero := 0
  add := (· + ·)
  rmsnorm _ x := x
  matmul _ x := x
  lora _ _ _ _ y := y
  bias _ x := x
  headNorm _ _ x := x
  rope _ _ _ _ x := x
  swiglu := (· * ·)
  gelu x := x
  greater _ _ _ := false
  addExpert _ _ _ acc y := acc + y
  addShared _ _ acc y := acc + y
  evict _ _ _ := ()
  pageMissing _ _ _ := false
  addPage _ _ _ _ _ _ := ()
  writeRow _ _ _ _ _ _ := ()
  attend _ _ _ _ x _ := x
  embed _ := 1
  logits _ x := x
  softcap x := x
  dense _ x _ := (x, ())
  denseLogits x := x

/-- The first element of the values, which is all there is at position 0. -/
def sumAttention : Attention Int Int := fun _ _ _ _ _ _ values => (values 0 0 0).getD 0

def sumPages (g : VgGguf) (cfg : ModelConfig ℚ) : Ops Int (KvPages Int) :=
  pagedOps g cfg (fun x _ => x) sumOps sumAttention

def newWork : Work Int (KvPages Int) :=
  ⟨0, 0, 0, 0, 0, ⟨fun _ => none, fun _ => none⟩, 0, 0, 0, none⟩

/-- Token 0 at position 0, where one read of the first layer fails. -/
def lost (place : Place) : Attempt :=
  ⟨0, 0, fun c => if c = ⟨place, .acquire, 0, 0⟩ then .io else .ok⟩

theorem newWork_new : New newWork := ⟨fun _ => rfl, fun _ => rfl, rfl⟩

theorem lost_readsOnly (place : Place) : ReadsOnly (lost place).outcomes := by
  intro c hc
  apply if_neg
  rintro rfl
  exact hc rfl

theorem lost_reads {place place' : Place} (h : place' ≠ place) (layer : Nat) :
    Reads (lost place).outcomes place' layer :=
  if_neg fun heq => h (congrArg Call.place heq)

/-- The router is not read, and the decode is repeated. -/
theorem decode_retryable_router : ∃ (g : VgGguf) (cfg : ModelConfig ℚ),
    parseIndex plainLibc routedFile = .ok g ∧ (modelProbe g).ok = true ∧
      loadConfig g (fun _ => none) = some cfg ∧ 1 < cfg.nExpert ∧
      (lost .router).status g cfg (sumPages g cfg) newWork = .io ∧
      Retryable g cfg (sumPages g cfg) [lost .router, ⟨0, 0, allOk⟩] newWork := by
  have haccept : (parseIndex plainLibc routedFile).toOption.any (fun g =>
      (modelProbe g).ok && (loadConfig g (fun _ => none)).any fun cfg : ModelConfig ℚ =>
        cfg.nExpert == 2 && cfg.nLayer == 1 && decide (cfg.nLayer * cfg.kvCapacity < 2 ^ 32) &&
        decide (min cfg.nCtx pageTokens * kvDim g cfg 0 ≤ pageFloats g cfg 0) &&
        (lost .router).status g cfg (sumPages g cfg) newWork == .io) = true := by
    decide +kernel
  cases hparse : parseIndex plainLibc routedFile with
  | error e =>
    rw [hparse] at haccept
    cases haccept
  | ok g =>
    rw [hparse] at haccept
    obtain ⟨hprobe, haccept⟩ := Bool.and_eq_true_iff.1 haccept
    obtain ⟨cfg, hload⟩ := loadConfig_isSome (fun _ => none) hprobe
    rw [hload] at haccept
    simp only [Option.any_some, Bool.and_eq_true, beq_iff_eq, decide_eq_true_eq] at haccept
    obtain ⟨⟨⟨⟨hexperts, hlayers⟩, hslots⟩, hrows⟩, hfails⟩ := haccept
    have hpages : PagesHold g cfg := by
      refine ⟨hslots, fun layer hlayer => ?_⟩
      obtain rfl : layer = 0 := by omega
      exact hrows
    have hcareful : Careful g cfg (sumPages g cfg) [lost .router, ⟨0, 0, allOk⟩] newWork
        fun _ => False := by
      have hlaid : Laid g cfg (lost .router).outcomes := fun l _ =>
        ⟨Or.inl (lost_reads (by decide) l), Or.inl (lost_reads (by decide) l)⟩
      refine ⟨fun _ => ⟨by decide, hlaid, fun _ p hp => hp.elim⟩,
        fun _ => ⟨by decide, fun l _ => ⟨Or.inl rfl, Or.inl rfl⟩, ?_⟩, trivial⟩
      · intro _ p hp
        unfold settle at hp
        rw [if_neg (by rw [hfails]; decide)] at hp
        obtain ⟨-, rfl⟩ := hp.resolve_left id
        exact Or.inl ⟨rfl, fun l _ => ⟨rfl, rfl, rfl⟩⟩
    refine ⟨g, cfg, rfl, hprobe, hload, by omega, hfails, ?_⟩
    apply decode_retryable hprobe hload newWork_new
    · intro a ha
      rcases List.mem_cons.1 ha with rfl | ha
      · exact lost_readsOnly .router
      · rw [List.mem_singleton.1 ha]
        exact fun c _ => rfl
    · exact fun _ => ⟨hpages, hcareful⟩

/-- The router is not read, and the decode that is repeated does not read the values' projection:
it succeeds on the values of the one that has failed. -/
theorem lostValue_notRetryable :
    ¬ ∀ (env : Libc) (file : GgufFile) (g : VgGguf) (cfg : ModelConfig ℚ) (cell : Int → Nat → Int)
      (attention : Attention Int Int) (ops : Ops Int Unit) (s : Work Int (KvPages Int))
      (as : List Attempt), parseIndex env file = .ok g → (modelProbe g).ok = true →
      loadConfig g (fun _ => none) = some cfg → New s → (∀ a ∈ as, ReadsOnly a.outcomes) →
      Retryable g cfg (pagedOps g cfg cell ops attention) as s := by
  intro hclaim
  have haccept : (parseIndex plainLibc routedFile).toOption.any (fun g =>
      (modelProbe g).ok && (loadConfig g (fun _ => none)).any fun cfg : ModelConfig ℚ =>
        let ops := sumPages g cfg
        let s := (lost .router).after g cfg ops newWork
        (lost .router).status g cfg ops newWork != .ok && (lost .attnV).status g cfg ops s == .ok &&
        ((lost .attnV).after g cfg ops newWork).logits != ((lost .attnV).after g cfg ops s).logits) =
      true := by
    decide +kernel
  cases hparse : parseIndex plainLibc routedFile with
  | error e =>
    rw [hparse] at haccept
    cases haccept
  | ok g =>
    rw [hparse] at haccept
    obtain ⟨hprobe, haccept⟩ := Bool.and_eq_true_iff.1 haccept
    obtain ⟨cfg, hload⟩ := loadConfig_isSome (fun _ => none) hprobe
    rw [hload] at haccept
    simp only [Option.any_some, Bool.and_eq_true, beq_iff_eq, bne_iff_ne] at haccept
    obtain ⟨⟨hfails, hok⟩, hlogits⟩ := haccept
    have hretry := hclaim plainLibc routedFile g cfg (fun x _ => x) sumAttention sumOps newWork
      [lost .router, lost .attnV] hparse hprobe hload newWork_new
      (by simp [lost_readsOnly]) [lost .router] (lost .attnV) [] rfl
    have hkept : kept g cfg (sumPages g cfg) [lost .router] newWork = [] := if_neg hfails
    have hsame := (hretry.2 hok).2
    change ((lost .attnV).after g cfg _ (runAll g cfg _ (kept g cfg (sumPages g cfg) _ _) _)).logits
      = _ at hsame
    rw [hkept] at hsame
    exact hlogits hsame

end Example

end VgEngine.Decode

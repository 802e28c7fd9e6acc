import VgEngine.Decode.Retry
import Mathlib.Tactic.IntervalCases

/-! Runs that go back to an earlier position and overwrite what they have decoded there, as the
speculative loop does after a rejected proposal. A row that is written again is as good as new; a
page that a later position has dropped does not come back. -/
namespace VgEngine.Decode
open Lib Bytes Gguf Model Single

/-- A decode of a token at a position in which no call fails. -/
structure Turn where
  token : Int
  pos : Nat
deriving DecidableEq

def Turn.attempt (a : Turn) : Attempt := ⟨a.token, a.pos, allOk⟩

/-- The token decoded last at a position. -/
def latest (as : List Turn) (p : Nat) : Int :=
  ((as.reverse.find? fun a => a.pos == p).map Turn.token).getD 0

/-- The latest tokens of the first `n` positions, in order. -/
def replay (as : List Turn) (n : Nat) : List Turn :=
  (List.range n).map fun p => ⟨latest as p, p⟩

/-- One more than the position of the last decode. -/
def nextPos (as : List Turn) : Nat := (as.getLast?.map fun a => a.pos + 1).getD 0

section Tokens

variable (as : List Turn) (a : Turn)

@[simp] theorem nextPos_append : nextPos (as ++ [a]) = a.pos + 1 := by simp [nextPos]

theorem latest_append (p : Nat) :
    latest (as ++ [a]) p = if p = a.pos then a.token else latest as p := by
  unfold latest
  rw [List.reverse_append, List.reverse_singleton, List.singleton_append, List.find?_cons]
  by_cases hp : p = a.pos
  · simp [hp]
  · have hne : (a.pos == p) = false := by simpa using fun h : a.pos = p => hp h.symm
    simp [hne, hp]

/-- A decode replays as the last one after those before its position. -/
theorem replay_append : replay (as ++ [a]) (a.pos + 1) = replay as a.pos ++ [a] := by
  unfold replay
  rw [List.range_succ, List.map_append, List.map_singleton, latest_append, if_pos rfl]
  congr 1
  apply List.map_congr_left
  intro p hp
  rw [latest_append, if_neg (List.mem_range.1 hp).ne]

theorem replay_split {m n : Nat} (h : m ≤ n) :
    ∃ rest, replay as n = replay as m ++ rest ∧ ∀ b ∈ rest, m ≤ b.pos ∧ b.pos < n := by
  refine ⟨(List.range' m (n - m)).map fun p => ⟨latest as p, p⟩, ?_, ?_⟩
  · unfold replay
    rw [← List.map_append, List.range_eq_range', List.range_eq_range']
    congr 1
    have happend : List.range' 0 m ++ List.range' (0 + m) (n - m) = List.range' 0 (m + (n - m)) :=
      List.range'_append_1
    rw [Nat.zero_add, Nat.add_sub_cancel' h] at happend
    exact happend.symm
  · intro b hb
    obtain ⟨p, hp, rfl⟩ := List.mem_map.1 hb
    have hrange := List.mem_range'_1.1 hp
    change m ≤ p ∧ p < n
    omega

/-- A run that never goes back is its own replay. -/
theorem replay_self (h : ∀ pre a post, as = pre ++ a :: post → a.pos = nextPos pre) :
    replay as (nextPos as) = as := by
  induction as using List.reverseRecOn with
  | nil => rfl
  | append_singleton as b ih =>
    have hlast : b.pos = nextPos as := h as b [] rfl
    rw [nextPos_append, replay_append, hlast, ih]
    intro pre a post heq
    exact h pre a (post ++ [b]) (by simp [heq])

end Tokens

section Property

variable {K : Type*} [Field K] [LinearOrder K] {V S : Type} (g : VgGguf) (cfg : ModelConfig K)
  (ops : Ops V S)

/-- The state after a run. -/
def decodeAll (as : List Turn) (s : Work V S) : Work V S :=
  runAll g cfg ops (as.map Turn.attempt) s

/-- Every decode of the run succeeds. -/
def AllSucceed : List Turn → Work V S → Prop
  | [], _ => True
  | a :: as, s => a.attempt.status g cfg ops s = .ok ∧ AllSucceed as (a.attempt.after g cfg ops s)

/-- Wherever the run stands, its logits are those of a graph in the first state that decodes only
the latest tokens up to the position, in order. -/
def Rewindable (as : List Turn) (s : Work V S) : Prop :=
  ∀ pre a post, as = pre ++ a :: post →
    AllSucceed g cfg ops (replay (pre ++ [a]) (a.pos + 1)) s ∧
      (decodeAll g cfg ops (pre ++ [a]) s).logits =
        (decodeAll g cfg ops (replay (pre ++ [a]) (a.pos + 1)) s).logits

variable {g cfg ops}

theorem runAll_append (as bs : List Attempt) (s : Work V S) :
    runAll g cfg ops (as ++ bs) s = runAll g cfg ops bs (runAll g cfg ops as s) := by
  induction as generalizing s with
  | nil => rfl
  | cons a as ih => exact ih _

theorem decodeAll_append (as bs : List Turn) (s : Work V S) :
    decodeAll g cfg ops (as ++ bs) s = decodeAll g cfg ops bs (decodeAll g cfg ops as s) := by
  unfold decodeAll
  rw [List.map_append, runAll_append]

theorem allSucceed_append {as bs : List Turn} {s : Work V S} :
    AllSucceed g cfg ops (as ++ bs) s ↔
      AllSucceed g cfg ops as s ∧ AllSucceed g cfg ops bs (decodeAll g cfg ops as s) := by
  induction as generalizing s with
  | nil => exact (true_and _).symm.to_iff
  | cons a as ih =>
    change _ ∧ AllSucceed g cfg ops (as ++ bs) _ ↔ (_ ∧ _) ∧ _
    rw [ih, and_assoc]
    rfl

theorem allSucceed_last {as : List Turn} {a : Turn} {s : Work V S} :
    AllSucceed g cfg ops (as ++ [a]) s ↔ AllSucceed g cfg ops as s ∧
      a.attempt.status g cfg ops (decodeAll g cfg ops as s) = .ok := by
  rw [allSucceed_append]
  exact and_congr_right fun _ => (and_true _).to_iff

end Property

section Condition

variable {K : Type*} (g : VgGguf) (cfg : ModelConfig K)

/-- The decode goes on from the position of the one before it or from an earlier one, and no later
position has dropped a page that this one does not drop. -/
structure Steady (pre : List Turn) (a : Turn) : Prop where
  next : a.pos ≤ nextPos pre
  spared : ∀ b ∈ pre, a.pos < b.pos → Evicts cfg b.pos →
    Evicts cfg a.pos ∧ evictPage cfg b.pos = evictPage cfg a.pos

/-- The condition on a run: it never goes back, or it only goes back steadily, where the pages hold
the rows of the model and a float holds every position. -/
def MayRewind (as : List Turn) : Prop :=
  (∀ pre a post, as = pre ++ a :: post → a.pos = nextPos pre) ∨
    (PagesHold g cfg ∧ HeadsInRow g cfg ∧ (∀ a ∈ as, toSingle a.pos = a.pos) ∧
      ∀ pre a post, as = pre ++ a :: post → Steady cfg pre a)

end Condition

section Steps

variable {K : Type*} [Field K] [LinearOrder K] {V F : Type} [Zero F] {g : VgGguf}
variable {cfg : ModelConfig K} {cell : V → Nat → F} {attention : Attention V F} {ops : Ops V Unit}
variable {strtof : List UInt8 → Option K} {s s' : Work V (KvPages F)} {a : Turn}

theorem allOk_readsOnly : ReadsOnly allOk := fun _ _ => rfl

omit [Field K] [LinearOrder K] in
theorem allOk_laid : Laid g cfg allOk := fun _ _ => ⟨Or.inl rfl, Or.inl rfl⟩

theorem fedAll_of_probe (hprobe : (modelProbe g).ok = true) (hload : loadConfig g strtof = some cfg) :
    FedAll g cfg allOk := by
  obtain ⟨arch, te, hprobed⟩ := modelProbe_probed hprobe
  have hagreed := agreed hprobe hload
  by_cases hexperts : 1 < cfg.nExpert
  · exact Or.inl hexperts
  · right
    intro l hl
    have hmoe : (modelProbe g).isMoe = false := by
      rw [Bool.eq_false_iff]
      exact fun hmoe => hexperts (hagreed.experts hmoe)
    have hdense := (hprobed.layers l (hprobed.nLayer hload ▸ hl)).dense hmoe
    constructor
    case up =>
      obtain ⟨t, q, hfind, -⟩ := hdense.up
      exact ⟨t, hfind⟩
    case gate =>
      intro hgate
      obtain ⟨t, q, hfind, -⟩ := hdense.gate (hagreed.gate ▸ hgate)
      exact ⟨t, hfind⟩
    case gated => exact fun _ => ⟨rfl, rfl⟩
    case ungated => exact fun _ => rfl

omit [Field K] [LinearOrder K] in
theorem headKnown_of_probe (hprobe : (modelProbe g).ok = true) : HeadKnown g cfg := by
  obtain ⟨te, hte, hscalar⟩ := modelProbe_headScalar hprobe
  have hknown (type : Nat) (h : supportedScalar type = true) : (quantInfo type).isSome = true :=
    (Bool.and_eq_true_iff.1 h).1
  intro name t hhead
  unfold headTensor at hhead
  cases houtput : find g (txt "output.weight") with
  | some t' =>
    have hname : (cpuGraph g cfg).file = g := rfl
    rw [hname, houtput] at hhead
    rw [houtput] at hscalar
    cases hhead
    exact hknown _ hscalar
  | none =>
    have hname : (cpuGraph g cfg).file = g := rfl
    rw [hname, houtput, hte] at hhead
    rw [houtput] at hscalar
    cases hhead
    exact hknown _ hscalar

/-- What the decodes of a model have in common. -/
structure Sound (g : VgGguf) (cfg : ModelConfig K) : Prop where
  projected : Projected g cfg
  fed : FedAll g cfg allOk
  known : HeadKnown g cfg
  pages : PagesHold g cfg
  ctx : cfg.nCtx < 2 ^ 31

theorem sound_of_probe (hprobe : (modelProbe g).ok = true) (hload : loadConfig g strtof = some cfg)
    (hpages : PagesHold g cfg) : Sound g cfg :=
  ⟨projected_of_probe hprobe hload, fedAll_of_probe hprobe hload, headKnown_of_probe hprobe, hpages,
    nCtx_lt hload⟩

/-- A position that a graph takes and a float holds. -/
def Taken (cfg : ModelConfig K) (p : Nat) : Prop := p < cfg.nCtx ∧ toSingle p = p

omit [Field K] [LinearOrder K] in
theorem Turn.pos_attempt (h : Taken cfg a.pos) (hctx : cfg.nCtx < 2 ^ 31) :
    toSingle (toUInt32 a.attempt.kvPos) = a.pos := by
  have hposition : toUInt32 a.attempt.kvPos = a.pos := by
    change (((a.pos : Int) % 2 ^ 32).toNat) = a.pos
    have hlt := h.1
    omega
  rw [hposition, h.2]

theorem reaches_of_ok (hok : a.attempt.status g cfg (pagedOps g cfg cell ops attention) s = .ok) :
    a.attempt.Reaches g cfg := by
  by_contra hrefused
  exact (refused_unchanged hrefused).1 hok

/-- A decode is one attempt at its position. -/
theorem turn_leaves (hsound : Sound g cfg) (htaken : Taken cfg a.pos)
    (hreach : a.attempt.Reaches g cfg) (hcold : s.gpuDense ≠ some true) (hpaired : Paired s.kv) :
    Behind g cfg (fun _ p => p = a.pos)
        (a.attempt.after g cfg (pagedOps g cfg cell ops attention) s).kv s.kv ∧
      (a.attempt.after g cfg (pagedOps g cfg cell ops attention) s).gpuDense ≠ some true := by
  have hpos := a.pos_attempt htaken hsound.ctx
  have hcarry : Carries g cfg allOk (pagedOps g cfg cell ops attention)
      (toSingle (toUInt32 a.attempt.kvPos))
      fun _ kv kv' => kv = kv' ∧ Behind g cfg (fun _ p => p = a.pos) kv s.kv := by
    rw [hpos]
    exact carries_alone hsound.pages hsound.ctx htaken.1
  have hsame (x y : V) (h : x = y) : x = y := h
  -- the decode next to itself
  have hdecode := modelGraphDecode_coupled allOk_readsOnly hsound.projected allOk_laid hsound.fed
    hreach hcarry (.inl hsame) s s ⟨rfl, ⟨rfl, hpaired, hpaired, .refl _, .refl _⟩, hcold, hcold⟩
  rcases hdecode.2 with ⟨-, hend⟩ | ⟨-, j, -, hend⟩
  · exact ⟨hend.kv.2, hend.cold⟩
  · exact ⟨hend.kv.2, hend.cold⟩

/-- A run is one attempt at each of its positions. -/
theorem decodeAll_leaves (hsound : Sound g cfg) {as : List Turn}
    (htaken : ∀ b ∈ as, Taken cfg b.pos)
    (hok : AllSucceed g cfg (pagedOps g cfg cell ops attention) as s)
    (hcold : s.gpuDense ≠ some true) (hpaired : Paired s.kv) :
    Behind g cfg (fun _ p => ∃ b ∈ as, b.pos = p)
        (decodeAll g cfg (pagedOps g cfg cell ops attention) as s).kv s.kv ∧
      (decodeAll g cfg (pagedOps g cfg cell ops attention) as s).gpuDense ≠ some true := by
  induction as generalizing s with
  | nil => exact ⟨⟨hpaired, hpaired, .refl _, .refl _⟩, hcold⟩
  | cons a as ih =>
    obtain ⟨hfirst, hrest⟩ := hok
    obtain ⟨hkv, hcold'⟩ := turn_leaves hsound (htaken a List.mem_cons_self)
      (reaches_of_ok hfirst) hcold hpaired
    obtain ⟨hkv', hcold''⟩ := ih (fun b hb => htaken b (List.mem_cons_of_mem a hb)) hrest hcold'
      hkv.paired
    refine ⟨(hkv'.trans hkv).mono ?_, hcold''⟩
    rintro - - p (⟨b, hb, hp⟩ | hp)
    · exact ⟨b, List.mem_cons_of_mem a hb, hp⟩
    · exact ⟨a, List.mem_cons_self, hp.symm⟩

/-- A decode makes the states alike again, whatever has been attempted at its position and after
it, as long as no page is missed. -/
theorem turn_settles (hsound : Sound g cfg) (hheads : HeadsInRow g cfg) {tried : Nat → Prop}
    (htaken : Taken cfg a.pos) (hbound : ∀ p, tried p → p < cfg.nCtx)
    (hlater : ∀ p, tried p → a.pos ≤ p)
    (hspared : ∀ p, tried p → a.pos < p → Evicts cfg p →
      Evicts cfg a.pos ∧ evictPage cfg p = evictPage cfg a.pos)
    (h : Apart (fun _ _ => True) (Behind g cfg fun _ => tried) s s')
    (hok : a.attempt.status g cfg (pagedOps g cfg cell ops attention) s = .ok) :
    a.attempt.status g cfg (pagedOps g cfg cell ops attention) s' = .ok ∧
      Apart Eq (Behind g cfg fun _ p => tried p ∧ p ≠ a.pos)
        (a.attempt.after g cfg (pagedOps g cfg cell ops attention) s)
        (a.attempt.after g cfg (pagedOps g cfg cell ops attention) s') := by
  have hpos := a.pos_attempt htaken hsound.ctx
  have hharm (p : Nat) (hp : tried p) : Harmless g cfg allOk a.pos p := by
    rcases Nat.eq_or_lt_of_le (hlater p hp) with heq | hlt
    · exact Or.inl ⟨heq.symm, fun l _ => ⟨rfl, rfl, rfl⟩⟩
    · exact Or.inr ⟨hlt, hheads, hspared p hp hlt⟩
  have hcarry : Carries g cfg allOk (pagedOps g cfg cell ops attention)
      (toSingle (toUInt32 a.attempt.kvPos)) fun l => Behind g cfg (left tried a.pos l) := by
    rw [hpos]
    exact carries_both hsound.pages hsound.ctx htaken.1 hbound hharm
  have hstart : Apart (fun _ _ => True) (Behind g cfg (left tried a.pos 0)) s s' :=
    ⟨trivial, h.kv.mono fun _ _ p hp => ⟨hp, fun hlt => absurd hlt (Nat.not_lt_zero _)⟩,
      h.cold, h.cold'⟩
  have hdecode := modelGraphDecode_coupled allOk_readsOnly hsound.projected allOk_laid hsound.fed
    (reaches_of_ok hok) hcarry (.inr hsound.known) s s' hstart
  rcases hdecode.2 with ⟨-, hend⟩ | ⟨hfails, -⟩
  · exact ⟨hdecode.1.symm.trans hok,
      hend.logits, hend.kv.mono fun l hl p hp => ⟨hp.1, hp.2 hl⟩, hend.cold, hend.cold'⟩
  · exact absurd hok hfails

end Steps

section Run

variable {K : Type*} [Field K] [LinearOrder K] {V F : Type} [Zero F] {g : VgGguf}
variable {cfg : ModelConfig K} {cell : V → Nat → F} {attention : Attention V F} {ops : Ops V Unit}
variable {strtof : List UInt8 → Option K} {s : Work V (KvPages F)} {as : List Turn} {a : Turn}

/-- A run and the replay of its latest tokens: they have the same logits, and their pages differ by
what the run has decoded from the next position on. -/
structure Tracks (g : VgGguf) (cfg : ModelConfig K) (ops : Ops V (KvPages F)) (as : List Turn)
    (s : Work V (KvPages F)) : Prop where
  taken : ∀ b ∈ as, Taken cfg b.pos
  visited : ∀ p < nextPos as, ∃ b ∈ as, b.pos = p
  replayed : AllSucceed g cfg ops (replay as (nextPos as)) s
  alike : Apart Eq (Behind g cfg fun _ p => nextPos as ≤ p ∧ ∃ b ∈ as, b.pos = p)
    (decodeAll g cfg ops as s) (decodeAll g cfg ops (replay as (nextPos as)) s)

/-- No run gets past the context. -/
theorem Tracks.nextPos_le {ops : Ops V (KvPages F)} (h : Tracks g cfg ops as s) :
    nextPos as ≤ cfg.nCtx := by
  by_contra hlong
  obtain ⟨b, hb, hpos⟩ := h.visited cfg.nCtx (Nat.not_le.1 hlong)
  exact absurd (h.taken b hb).1 (by omega)

/-- A graph next to itself before the first decode. -/
theorem tracks_nil (hnew : New s) {ops : Ops V (KvPages F)} : Tracks g cfg ops [] s := by
  have hcold : s.gpuDense ≠ some true := by
    rw [hnew.dense]
    decide
  have hpaired : Paired s.kv := fun i => by rw [hnew.keys, hnew.values]
  constructor
  case taken => exact fun b hb => nomatch hb
  case visited => exact fun p hp => absurd hp (Nat.not_lt_zero p)
  case replayed => exact trivial
  case alike => exact ⟨rfl, ⟨hpaired, hpaired, .refl _, .refl _⟩, hcold, hcold⟩

/-- The run next to the replay up to an earlier position. -/
theorem Tracks.back (hsound : Sound g cfg) {n : Nat}
    (h : Tracks g cfg (pagedOps g cfg cell ops attention) as s) (hnew : New s)
    (hn : n ≤ nextPos as) :
    AllSucceed g cfg (pagedOps g cfg cell ops attention) (replay as n) s ∧
      Apart (fun _ _ => True) (Behind g cfg fun _ p => n ≤ p ∧ ∃ b ∈ as, b.pos = p)
        (decodeAll g cfg (pagedOps g cfg cell ops attention) as s)
        (decodeAll g cfg (pagedOps g cfg cell ops attention) (replay as n) s) := by
  obtain ⟨rest, hsplit, hrest⟩ := replay_split as hn
  have hreplayed := h.replayed
  have halike := h.alike
  rw [hsplit] at hreplayed halike
  rw [decodeAll_append] at halike
  obtain ⟨hstart, hlast⟩ := allSucceed_append.1 hreplayed
  have hvisited (b : Turn) (hb : b ∈ rest) : ∃ c ∈ as, c.pos = b.pos :=
    h.visited b.pos (hrest b hb).2
  have htaken (b : Turn) (hb : b ∈ rest) : Taken cfg b.pos := by
    obtain ⟨c, hc, hpos⟩ := hvisited b hb
    exact hpos ▸ h.taken c hc
  have hcold : s.gpuDense ≠ some true := by
    rw [hnew.dense]
    decide
  have hpaired : Paired s.kv := fun i => by rw [hnew.keys, hnew.values]
  have htaken' (b : Turn) (hb : b ∈ replay as n) : Taken cfg b.pos := by
    obtain ⟨p, hp, rfl⟩ := List.mem_map.1 hb
    obtain ⟨c, hc, hpos⟩ := h.visited p ((List.mem_range.1 hp).trans_le hn)
    exact hpos ▸ h.taken c hc
  obtain ⟨hkv, hcold'⟩ := decodeAll_leaves hsound htaken' hstart hcold hpaired
  obtain ⟨hkv', -⟩ := decodeAll_leaves hsound htaken hlast hcold' hkv.paired
  refine ⟨hstart, trivial, (halike.kv.trans hkv').mono ?_, halike.cold, hcold'⟩
  rintro - - p (⟨hp, hb⟩ | ⟨b, hb, rfl⟩)
  · exact ⟨hn.trans hp, hb⟩
  · exact ⟨(hrest b hb).1, hvisited b hb⟩

/-- One more decode keeps the run on the track of its replay. -/
theorem Tracks.step (hsound : Sound g cfg) (hheads : HeadsInRow g cfg) (hnew : New s)
    (h : Tracks g cfg (pagedOps g cfg cell ops attention) as s) (hsteady : Steady cfg as a)
    (hexact : toSingle a.pos = a.pos)
    (hok : a.attempt.status g cfg (pagedOps g cfg cell ops attention)
      (decodeAll g cfg (pagedOps g cfg cell ops attention) as s) = .ok) :
    Tracks g cfg (pagedOps g cfg cell ops attention) (as ++ [a]) s := by
  have htaken : Taken cfg a.pos := by
    have hposition : toUInt32 a.attempt.kvPos = a.pos := by
      change (((a.pos : Int) % 2 ^ 32).toNat) = a.pos
      have hnext := hsteady.next
      have hlen := h.nextPos_le
      have hctx := hsound.ctx
      omega
    have hrange := (reaches_of_ok hok).1
    rw [hposition] at hrange
    exact ⟨hrange, hexact⟩
  have hall (b : Turn) (hb : b ∈ as ++ [a]) : Taken cfg b.pos := by
    rcases List.mem_append.1 hb with hb | hb
    · exact h.taken b hb
    · rw [List.mem_singleton.1 hb]
      exact htaken
  obtain ⟨hstart, halike⟩ := h.back hsound hnew hsteady.next
  obtain ⟨hok', hend⟩ := turn_settles hsound hheads htaken
    (fun p ⟨_, b, hb, hp⟩ => hp ▸ (h.taken b hb).1) (fun p hp => hp.1)
    (fun p ⟨_, b, hb, hp⟩ hlt => hp ▸ hsteady.spared b hb (hp ▸ hlt)) halike hok
  constructor
  case taken => exact hall
  case visited =>
    intro p hp
    rw [nextPos_append] at hp
    rcases Nat.lt_succ_iff_lt_or_eq.1 hp with hlt | rfl
    · obtain ⟨b, hb, hpos⟩ := h.visited p (hlt.trans_le hsteady.next)
      exact ⟨b, List.mem_append_left _ hb, hpos⟩
    · exact ⟨a, List.mem_append_right _ (List.mem_singleton_self a), rfl⟩
  case replayed =>
    rw [nextPos_append, replay_append]
    exact allSucceed_last.2 ⟨hstart, hok'⟩
  case alike =>
    rw [nextPos_append, replay_append, decodeAll_append, decodeAll_append]
    refine ⟨hend.logits, hend.kv.mono ?_, hend.cold, hend.cold'⟩
    rintro - - p ⟨⟨hp, b, hb, hpos⟩, hne⟩
    exact ⟨by omega, b, List.mem_append_left _ hb, hpos⟩

theorem tracks_of_steady (hsound : Sound g cfg) (hheads : HeadsInRow g cfg) (hnew : New s)
    (hexact : ∀ a ∈ as, toSingle a.pos = a.pos)
    (hsteady : ∀ pre a post, as = pre ++ a :: post → Steady cfg pre a)
    (hok : AllSucceed g cfg (pagedOps g cfg cell ops attention) as s) :
    Tracks g cfg (pagedOps g cfg cell ops attention) as s := by
  induction as using List.reverseRecOn with
  | nil => exact tracks_nil hnew
  | append_singleton as a ih =>
    obtain ⟨hpre, hlast⟩ := allSucceed_last.1 hok
    apply Tracks.step hsound hheads hnew _ (hsteady as a [] rfl) (hexact a (by simp)) hlast
    apply ih (fun b hb => hexact b (List.mem_append_left _ hb)) _ hpre
    intro pre b post heq
    exact hsteady pre b (post ++ [a]) (by simp [heq])

/-- In every run of decodes without a failing call that meets the condition, the logits are those of
the latest tokens up to the position. -/
theorem decode_rewindable (hprobe : (modelProbe g).ok = true)
    (hload : loadConfig g strtof = some cfg) (hnew : New s)
    (hok : AllSucceed g cfg (pagedOps g cfg cell ops attention) as s)
    (hmay : MayRewind g cfg as) : Rewindable g cfg (pagedOps g cfg cell ops attention) as s := by
  rintro pre a post rfl
  have happend : pre ++ a :: post = (pre ++ [a]) ++ post := by simp
  have hok' := (allSucceed_append.1 (happend ▸ hok)).1
  rcases hmay with hon | ⟨hpages, hheads, hexact, hsteady⟩
  · have hself : replay (pre ++ [a]) (nextPos (pre ++ [a])) = pre ++ [a] := by
      apply replay_self
      intro pre' b post' heq
      exact hon pre' b (post' ++ post) (by simp [happend, heq])
    rw [nextPos_append] at hself
    rw [hself]
    exact ⟨hok', rfl⟩
  · have hsound := sound_of_probe hprobe hload hpages
    have htracks : Tracks g cfg (pagedOps g cfg cell ops attention) (pre ++ [a]) s := by
      apply tracks_of_steady hsound hheads hnew _ _ hok'
      · exact fun b hb => hexact b (happend ▸ List.mem_append_left _ hb)
      · intro pre' b post' heq
        exact hsteady pre' b (post' ++ post) (by simp [happend, heq])
    have hreplayed := htracks.replayed
    have halike := htracks.alike.logits
    rw [nextPos_append] at hreplayed halike
    exact ⟨hreplayed, halike⟩

end Run

section Example

/-- One dense layer of width one with a window of two positions. -/
def windowFile : GgufFile :=
  ⟨(llamaLayout
    [("block_count", 1), ("attention.head_count", 1), ("feed_forward_length", 1),
      ("attention.sliding_window", 2)]
    [("token_embd.weight", [1, 1], 0), ("output_norm.weight", [1], 0),
     ("blk.0.attn_norm.weight", [1], 0), ("blk.0.attn_q.weight", [1, 1], 0),
     ("blk.0.attn_k.weight", [1, 1], 0), ("blk.0.attn_v.weight", [1, 1], 0),
     ("blk.0.attn_output.weight", [1, 1], 0), ("blk.0.ffn_norm.weight", [1], 0),
     ("blk.0.ffn_up.weight", [1, 1], 0), ("blk.0.ffn_down.weight", [1, 1], 0)]).encode ++
    List.replicate 64 0, by decide +kernel, by decide +kernel⟩

/-- The sum of the values up to the position. -/
def totalAttention : Attention Int Int := fun _ pos _ _ _ _ values =>
  ((List.range (pos + 1)).map fun t => (values 0 t 0).getD 0).sum

def totalPages (g : VgGguf) (cfg : ModelConfig ℚ) : Ops Int (KvPages Int) :=
  pagedOps g cfg (fun x _ => x) sumOps totalAttention

instance decidableAllSucceed {g : VgGguf} {cfg : ModelConfig ℚ} {ops : Ops Int (KvPages Int)} :
    (as : List Turn) → (s : Work Int (KvPages Int)) → Decidable (AllSucceed g cfg ops as s)
  | [], _ => isTrue trivial
  | a :: as, s => @instDecidableAnd _ _
    (inferInstanceAs (Decidable (a.attempt.status g cfg ops s = .ok)))
    (decidableAllSucceed as (a.attempt.after g cfg ops s))

theorem split_at {as pre post : List Turn} {a : Turn} (h : as = pre ++ a :: post) :
    pre.length < as.length ∧ as[pre.length]? = some a ∧ pre = as.take pre.length := by
  subst h
  simp

/-- Two positions, and the second again. -/
theorem decode_rewindable_again : ∃ (g : VgGguf) (cfg : ModelConfig ℚ),
    parseIndex plainLibc windowFile = .ok g ∧ (modelProbe g).ok = true ∧
      loadConfig g (fun _ => none) = some cfg ∧
      Rewindable g cfg (totalPages g cfg) [⟨0, 0⟩, ⟨0, 1⟩, ⟨0, 0⟩] newWork := by
  have haccept : (parseIndex plainLibc windowFile).toOption.any (fun g =>
      (modelProbe g).ok && (loadConfig g (fun _ => none)).any fun cfg : ModelConfig ℚ =>
        cfg.slidingWindow == 2 && decide (cfg.nLayer * cfg.kvCapacity < 2 ^ 32) &&
        decide (∀ l < cfg.nLayer, min cfg.nCtx pageTokens * kvDim g cfg l ≤ pageFloats g cfg l) &&
        decide (∀ l < cfg.nLayer, ∀ h < cfg.nHead, cfg.kvHead h * kvWidth g cfg l +
          max (headWidth g cfg l) (kvWidth g cfg l) ≤ kvDim g cfg l) &&
        decide (AllSucceed g cfg (totalPages g cfg) [⟨0, 0⟩, ⟨0, 1⟩, ⟨0, 0⟩] newWork)) = true := by
    decide +kernel
  cases hparse : parseIndex plainLibc windowFile with
  | error e =>
    rw [hparse] at haccept
    cases haccept
  | ok g =>
    rw [hparse] at haccept
    obtain ⟨hprobe, haccept⟩ := Bool.and_eq_true_iff.1 haccept
    obtain ⟨cfg, hload⟩ := loadConfig_isSome (fun _ => none) hprobe
    rw [hload] at haccept
    simp only [Option.any_some, Bool.and_eq_true, beq_iff_eq, decide_eq_true_eq] at haccept
    obtain ⟨⟨⟨⟨hwindow, hslots⟩, hrows⟩, hheads⟩, hok⟩ := haccept
    have hunevicted (p : Nat) (hp : p < 2) : ¬ Evicts cfg p := fun h => by
      have hlow := h.1
      omega
    refine ⟨g, cfg, rfl, hprobe, hload, decode_rewindable hprobe hload newWork_new hok (.inr ?_)⟩
    refine ⟨⟨hslots, hrows⟩, hheads, by decide, ?_⟩
    intro pre a post hsplit
    obtain ⟨hlt, hat, hpre⟩ := split_at hsplit
    have hsmall : ∀ b ∈ [(⟨0, 0⟩ : Turn), ⟨0, 1⟩, ⟨0, 0⟩], b.pos < 2 := by decide
    constructor
    case next =>
      have hlt : pre.length < 3 := hlt
      rw [hpre]
      generalize pre.length = i at hlt hat
      interval_cases i <;> cases hat <;> decide
    case spared =>
      intro b hb _ hevicts
      exact absurd hevicts (hunevicted b.pos (hsmall b (hsplit ▸ List.mem_append_left _ hb)))

/-- With a window of two positions, the decode at position 2 drops the page with row 0, which the
decode that goes back to position 1 still needs. -/
theorem windowFile_notRewindable :
    ¬ ∀ (env : Libc) (file : GgufFile) (g : VgGguf) (cfg : ModelConfig ℚ) (cell : Int → Nat → Int)
      (attention : Attention Int Int) (ops : Ops Int Unit) (s : Work Int (KvPages Int))
      (as : List Turn), parseIndex env file = .ok g → (modelProbe g).ok = true →
      loadConfig g (fun _ => none) = some cfg → New s →
      AllSucceed g cfg (pagedOps g cfg cell ops attention) as s →
      (∀ pre a post, as = pre ++ a :: post → a.pos = 0 ∨ ∃ b ∈ pre, a.pos ≤ b.pos + 1) →
      Rewindable g cfg (pagedOps g cfg cell ops attention) as s := by
  intro hclaim
  have haccept : (parseIndex plainLibc windowFile).toOption.any (fun g =>
      (modelProbe g).ok && (loadConfig g (fun _ => none)).any fun cfg : ModelConfig ℚ =>
        let ops := totalPages g cfg
        decide (AllSucceed g cfg ops [⟨0, 0⟩, ⟨0, 1⟩, ⟨0, 2⟩, ⟨0, 1⟩] newWork) &&
        (decodeAll g cfg ops [⟨0, 0⟩, ⟨0, 1⟩, ⟨0, 2⟩, ⟨0, 1⟩] newWork).logits !=
          (decodeAll g cfg ops [⟨0, 0⟩, ⟨0, 1⟩] newWork).logits) = true := by
    decide +kernel
  cases hparse : parseIndex plainLibc windowFile with
  | error e =>
    rw [hparse] at haccept
    cases haccept
  | ok g =>
    rw [hparse] at haccept
    obtain ⟨hprobe, haccept⟩ := Bool.and_eq_true_iff.1 haccept
    obtain ⟨cfg, hload⟩ := loadConfig_isSome (fun _ => none) hprobe
    rw [hload] at haccept
    simp only [Option.any_some, Bool.and_eq_true, decide_eq_true_eq, bne_iff_ne] at haccept
    obtain ⟨hok, hlogits⟩ := haccept
    have hrewind := hclaim plainLibc windowFile g cfg (fun x _ => x) totalAttention sumOps newWork
      [⟨0, 0⟩, ⟨0, 1⟩, ⟨0, 2⟩, ⟨0, 1⟩] hparse hprobe hload newWork_new hok ?_
      [⟨0, 0⟩, ⟨0, 1⟩, ⟨0, 2⟩] ⟨0, 1⟩ [] rfl
    · exact hlogits hrewind.2
    · intro pre a post hsplit
      obtain ⟨hlt, hat, hpre⟩ := split_at hsplit
      have hlt : pre.length < 4 := hlt
      rw [hpre]
      generalize pre.length = i at hlt hat
      interval_cases i <;> cases hat <;> decide

end Example

end VgEngine.Decode

import VgEngine.KvCache.Lineage
import VgEngine.Lib.Run
import Mathlib.Algebra.Order.Floor.Div

/-! The pages of a sequence are as many as its tokens need, after any calls. -/
namespace VgEngine.KvCache

variable {env : Nat → Bool} {w w' : World} {h : Nat} {q : KvSequence}

section Paged

/-- Every sequence has the pages that its tokens need. -/
structure Paged (w : World) : Prop where
  tokens : 0 < w.store.cfg.pageTokens
  lengths : ∀ h q, w.seq h = some q →
    q.pages.length = World.pagesFor w.store.cfg q.tokens.length

theorem Paged.of_seqs (hw : Paged w) (hseqs : w'.seqs = w.seqs)
    (hcfg : w'.store.cfg = w.store.cfg) : Paged w' := by
  refine ⟨hcfg ▸ hw.tokens, fun k p hp => ?_⟩
  unfold World.seq at hp
  rw [hseqs] at hp
  rw [hcfg]
  exact hw.lengths k p hp

theorem Paged.setSeq_none (hw : Paged w) (h : Nat) : Paged (w.setSeq h none) := by
  refine ⟨hw.tokens, fun k p hp => ?_⟩
  unfold World.setSeq World.seq at hp
  dsimp only at hp
  rw [List.getElem?_set] at hp
  split at hp
  · split at hp <;> cases hp
  · exact hw.lengths k p hp

theorem Paged.addSeq (hw : Paged w) {p : KvSequence}
    (hp : p.pages.length = World.pagesFor w.store.cfg p.tokens.length) :
    Paged (w.addSeq p).2 := by
  refine ⟨hw.tokens, fun k p' hp' => ?_⟩
  unfold World.addSeq at hp'
  rw [seq_append] at hp'
  split at hp'
  · obtain rfl := Option.some.inj hp'
    exact hp
  · exact hw.lengths k p' hp'

theorem Paged.sequenceClose (hw : Paged w) (hclose : w.sequenceClose h = some w') : Paged w' := by
  obtain ⟨q, -, hdrop⟩ := Option.bind_eq_some_iff.1 hclose
  obtain ⟨hseqs, hcfg, -⟩ := dropAll_seqs hdrop
  exact (hw.setSeq_none h).of_seqs hseqs hcfg

theorem Paged.closeAll {hs : List Nat} (hw : Paged w) (hclose : World.closeAll hs w = some w') :
    Paged w' := by
  induction hs generalizing w with
  | nil => exact Option.some.inj hclose ▸ hw
  | cons h hs ih =>
    obtain ⟨w1, hone, hrest⟩ := Option.bind_eq_some_iff.1 hclose
    exact ih (hw.sequenceClose hone) hrest

/-- No fork asks for a page that its source does not have. -/
theorem Paged.prefix_le (hw : Paged w) (hq : w.seq h = some q) {n : Nat}
    (hn : n ≤ q.tokens.length) : World.pagesFor w.store.cfg n ≤ q.pages.length := by
  rw [hw.lengths h q hq]
  exact pagesFor_mono _ hn

theorem Paged.sequenceFork (hw : Paged w) {src count : Nat} {result : Except Status Nat}
    (hfork : w.sequenceFork env src count = some (result, w')) : Paged w' := by
  obtain ⟨hcfg, -, ⟨hseqs, -⟩ | ⟨q, p, hq, hcount, htokens, hpages, -, hseqs⟩⟩ := sequenceFork_seqs hfork
  · exact hw.of_seqs hseqs hcfg
  · have hadd : Paged (w.addSeq p).2 := by
      apply hw.addSeq
      rw [hpages, htokens, List.length_take, List.length_take, Nat.min_eq_left hcount,
        Nat.min_eq_left (hw.prefix_le hq hcount)]
    exact hadd.of_seqs hseqs hcfg

theorem Paged.sequenceAppend (hw : Paged w) {token : Nat} {status : Status}
    (happend : w.sequenceAppend env h token = some (status, w')) : Paged w' := by
  obtain ⟨q, hq, -⟩ := Option.bind_eq_some_iff.1 happend
  obtain ⟨new, hcfg, -, hother, ⟨q', hq', hpages, htokens⟩, hlength, -⟩ :=
    sequenceAppend_appended hq happend
  refine ⟨hcfg ▸ hw.tokens, fun k p hp => ?_⟩
  by_cases hk : k = h
  · obtain rfl : q' = p := Option.some.inj (hq'.symm.trans (hk ▸ hp))
    have hold := hw.lengths h q hq
    rw [hpages, htokens, List.length_append, List.length_append, hlength, hcfg]
    by_cases hok : status = .ok
    · rw [if_pos hok, List.length_singleton]
      by_cases hfull : q.pages.length ≤ q.tokens.length / w.store.cfg.pageTokens
      · rw [if_pos ⟨hok, hfull⟩, pagesFor_succ_of_le hw.tokens (hold ▸ hfull), hold]
      · rw [if_neg fun h => hfull h.2, pagesFor_succ_of_lt hw.tokens (hold ▸ not_le.1 hfull), hold,
          Nat.add_zero]
    · rw [if_neg hok, if_neg fun h => hok h.1]
      exact hold
  · rw [hcfg]
    exact hw.lengths k p (hother k hk ▸ hp)

theorem Paged.radixInsert (hw : Paged w) {r seq count fp : Nat} {tainted : Bool} {status : Status}
    (hinsert : w.radixInsert env r seq count fp tainted = some (status, w')) : Paged w' := by
  obtain ⟨t, -, hinsert⟩ := Option.bind_eq_some_iff.1 hinsert
  obtain ⟨q, -, hinsert⟩ := Option.bind_eq_some_iff.1 hinsert
  split at hinsert
  · obtain ⟨-, rfl⟩ := Prod.mk.inj (Option.some.inj hinsert)
    exact hw
  · obtain ⟨w1, hclose, hrest⟩ := Option.bind_eq_some_iff.1 hinsert
    have hclosed : Paged w1 := by
      refine Paged.closeAll ?_ hclose
      exact hw.of_seqs rfl rfl
    split at hrest
    · obtain ⟨w2, hreplace, hrest⟩ := Option.bind_eq_some_iff.1 hrest
      have hreplaced : Paged w2 := by
        unfold World.closeReplaced at hreplace
        split at hreplace
        · exact Option.some.inj hreplace ▸ hclosed
        · exact hclosed.sequenceClose hreplace
      obtain ⟨⟨result, w3⟩, hfork, hend⟩ := Option.bind_eq_some_iff.1 hrest
      have hforked := hreplaced.sequenceFork hfork
      cases result with
      | error status =>
        obtain ⟨-, rfl⟩ := Prod.mk.inj (Option.some.inj hend)
        exact hforked
      | ok h =>
        obtain ⟨-, rfl⟩ := Prod.mk.inj (Option.some.inj hend)
        exact hforked.of_seqs rfl rfl
    · obtain ⟨-, rfl⟩ := Prod.mk.inj (Option.some.inj hrest)
      exact hclosed

theorem Paged.step (hw : Paged w) {call : Call} (hstep : w.step env call = some w') : Paged w' := by
  cases call with
  | sequenceInit =>
    obtain rfl := Option.some.inj hstep
    unfold World.sequenceInit World.ask
    dsimp only
    split
    · have hticks : Paged { w with ticks := w.ticks + 1 } := hw.of_seqs rfl rfl
      exact hticks.addSeq (p := World.KvSequence.init) (pagesFor_zero hw.tokens).symm
    · exact hw.of_seqs rfl rfl
  | append h token =>
    obtain ⟨r, happend, rfl⟩ := Option.map_eq_some_iff.1 hstep
    exact hw.sequenceAppend happend
  | fork src count =>
    obtain ⟨r, hfork, rfl⟩ := Option.map_eq_some_iff.1 hstep
    exact hw.sequenceFork hfork
  | close h => exact hw.sequenceClose hstep
  | pageAcquire h layer token desired =>
    obtain ⟨r, hacquire, rfl⟩ := Option.map_eq_some_iff.1 hstep
    obtain ⟨hseqs, hcfg, -⟩ := pageAcquire_seqs hacquire
    exact hw.of_seqs hseqs hcfg
  | radixOpen =>
    obtain rfl := Option.some.inj hstep
    unfold World.radixOpen World.ask
    dsimp only
    split
    · exact hw.of_seqs rfl rfl
    · split
      · exact hw.of_seqs rfl rfl
      · exact hw.of_seqs rfl rfl
  | radixInsert r seq count fp tainted =>
    obtain ⟨result, hinsert, rfl⟩ := Option.map_eq_some_iff.1 hstep
    exact hw.radixInsert hinsert
  | radixLookup r tokens =>
    obtain ⟨result, hlookup, rfl⟩ := Option.map_eq_some_iff.1 hstep
    obtain ⟨t, -, hlookup⟩ := Option.bind_eq_some_iff.1 hlookup
    dsimp only at hlookup
    split at hlookup
    · exact Option.some.inj hlookup ▸ hw.of_seqs rfl rfl
    · exact Option.some.inj hlookup ▸ hw.of_seqs rfl rfl
  | radixInvalidate r =>
    obtain ⟨t, -, hstep⟩ := Option.bind_eq_some_iff.1 hstep
    obtain ⟨w1, hclose, hend⟩ := Option.bind_eq_some_iff.1 hstep
    obtain rfl := Option.some.inj hend
    exact (hw.closeAll hclose).of_seqs rfl rfl

theorem paged_opened {cfg : KvConfig} {store : KvStore} (hopen : kvOpen cfg = .ok store) :
    Paged (World.opened store) := by
  unfold kvOpen at hopen
  split_ifs at hopen with hzero
  obtain rfl := Except.ok.inj hopen
  refine ⟨Nat.pos_of_ne_zero fun h => hzero (.inl h), fun k p hp => ?_⟩
  simp [World.opened, World.seq] at hp

end Paged

section Property

variable (env) in
/-- The pages of every sequence are as many as its tokens need, those that a fork copies or that an
acquisition indexes are there, and an append that fails leaves tokens and pages as they are. -/
structure SequenceGeometry (w : World) : Prop where
  pages : ∀ h q, w.seq h = some q →
    q.pages.length = q.tokens.length ⌈/⌉ w.store.cfg.pageTokens
  forks : ∀ h q n, w.seq h = some q → n ≤ q.tokens.length →
    World.pagesFor w.store.cfg n ≤ q.pages.length
  acquires : ∀ h q token, w.seq h = some q → token < q.tokens.length →
    token / w.store.cfg.pageTokens < q.pages.length
  appends : ∀ h q token status w', w.seq h = some q →
    w.sequenceAppend env h token = some (status, w') → status ≠ .ok →
    ∃ q', w'.seq h = some q' ∧ q'.tokens = q.tokens ∧ q'.pages = q.pages

variable (env) in
theorem Paged.sequenceGeometry (hw : Paged w) : SequenceGeometry env w where
  pages h q hq := by
    rw [Nat.ceilDiv_eq_add_pred_div]
    exact hw.lengths h q hq
  forks h q n hq hn := hw.prefix_le hq hn
  acquires h q token hq htoken := by
    rw [hw.lengths h q hq]
    exact div_lt_pagesFor hw.tokens htoken
  appends h q token status w' hq happend hfailed := by
    obtain ⟨new, -, -, -, ⟨q', hq', hpages, htokens⟩, hlength, -⟩ :=
      sequenceAppend_appended hq happend
    rw [if_neg fun h => hfailed h.1] at hlength
    rw [if_neg hfailed, List.append_nil] at htokens
    rw [List.length_eq_zero_iff.1 hlength, List.append_nil] at hpages
    exact ⟨q', hq', htokens, hpages⟩

end Property

end VgEngine.KvCache

import VgEngine.KvCache.Trees
import Mathlib.Data.List.Nodup

/-! Each snapshot of a radix tree is live and owned by one node, and the calls on the
trees keep it so. -/
namespace VgEngine.KvCache
open RadixTree RadixTree.Tree

variable {env : Nat → Bool} {w w' : World}

/-- The snapshots that the trees of a store own. -/
def World.owned (w : World) : List Nat := w.radixes.flatMap snapshots

/-- No snapshot is owned twice, and each is live. -/
structure TreesSound (w : World) : Prop where
  nodup : w.owned.Nodup
  live : ∀ k ∈ w.owned, (w.seq k).isSome

structure Sound (w : World) : Prop where
  seqs : SeqSound w []
  trees : TreesSound w

theorem TreesSound.kept (hw : TreesSound w) (hkept : Kept w w') : TreesSound w' where
  nodup := by
    unfold World.owned
    rw [hkept.radixes]
    exact hw.nodup
  live := by
    intro k hk
    unfold World.owned at hk
    rw [hkept.radixes] at hk
    exact hkept.live k (hw.live k hk)

theorem count_setRadix {r : Nat} {t : RadixNode} (ht : w.radixes[r]? = some t) (t' : RadixNode)
    (a : Nat) :
    (w.setRadix r t').owned.count a + owns a t = w.owned.count a + owns a t' := by
  obtain ⟨hlt, hget⟩ := List.getElem?_eq_some_iff.1 ht
  have hnew := (flatMap_set_perm snapshots hlt t').count_eq a
  have hold := (flatMap_set_perm snapshots hlt t).count_eq a
  rw [← hget, List.set_getElem_self, hget] at hold
  unfold World.owned World.setRadix owns
  dsimp only
  rw [hnew, hold, List.count_append, List.count_append]
  omega

theorem owns_le {r : Nat} {t : RadixNode} (ht : w.radixes[r]? = some t) (a : Nat) :
    owns a t ≤ w.owned.count a := by
  have hset := count_setRadix ht (.node [] .empty []) a
  rw [owns_node, owns_empty, ownsAll_nil] at hset
  omega

theorem mem_owned {r : Nat} {t : RadixNode} (ht : w.radixes[r]? = some t) {k : Nat}
    (hk : k ∈ snapshots t) : k ∈ w.owned := by
  have hpos : 0 < owns k t := List.count_pos_iff.2 hk
  exact List.count_pos_iff.1 (lt_of_lt_of_le hpos (owns_le ht k))

/-- Closing distinct live sequences. -/
theorem SeqSound.closeAll {hs : List Nat} (hw : SeqSound w []) (hnodup : hs.Nodup)
    (hlive : ∀ h ∈ hs, (w.seq h).isSome) :
    ∃ w', World.closeAll hs w = some w' ∧ SeqSound w' [] ∧ w'.radixes = w.radixes ∧
      ∀ k, k ∉ hs → w'.seq k = w.seq k := by
  induction hs generalizing w with
  | nil => exact ⟨w, rfl, hw, rfl, fun _ _ => rfl⟩
  | cons h hs ih =>
    obtain ⟨q, hq⟩ := Option.isSome_iff_exists.1 (hlive h List.mem_cons_self)
    obtain ⟨w1, hclose, h1, hframe⟩ := hw.sequenceClose hq
    have hseq : ∀ k, k ≠ h → w1.seq k = w.seq k := by
      intro k hk
      rw [hframe.seq, seq_setSeq (seq_lt hq), if_neg hk]
    rw [List.nodup_cons] at hnodup
    obtain ⟨w2, hrest, h2, hradixes, hother⟩ := ih h1 hnodup.2 (by
      intro k hk
      rw [hseq k fun heq => hnodup.1 (heq ▸ hk)]
      exact hlive k (List.mem_cons_of_mem h hk))
    refine ⟨w2, ?_, h2, hradixes.trans hframe.radixes, ?_⟩
    · rw [World.closeAll, hclose]
      exact hrest
    · intro k hk
      rw [List.mem_cons, not_or] at hk
      rw [hother k hk.2, hseq k hk.1]

/-- A new snapshot takes the place of the one it replaces. -/
theorem TreesSound.adopt (hw : TreesSound w) {r h fp : Nat} {t : RadixNode} {path : List Nat}
    {tainted : Bool} (ht : w.radixes[r]? = some t) (hradixes : w'.radixes = w.radixes)
    (hfresh : h ∉ w.owned) (hnew : (w'.seq h).isSome)
    (hother : ∀ k, (t.valueAt .empty path).snapshot ≠ some k → (w.seq k).isSome →
      (w'.seq k).isSome) :
    TreesSound (w'.setRadix r (t.update (fun _ => ⟨fp, tainted, some h⟩) path)) := by
  have howned : w'.owned = w.owned := by
    unfold World.owned
    rw [hradixes]
  have hcount : ∀ a, (w'.setRadix r (t.update (fun _ => ⟨fp, tainted, some h⟩) path)).owned.count a +
      foundOwns a (t.get path) ≤ w.owned.count a + if h = a then 1 else 0 := by
    intro a
    have hset := count_setRadix (w := w') (by rw [hradixes]; exact ht)
      (t.update (fun _ => ⟨fp, tainted, some h⟩) path) a
    have hupdate := update_owns a ⟨fp, tainted, some h⟩ path t
    have hone : NodeData.owns a ⟨fp, tainted, some h⟩ = if h = a then 1 else 0 := by
      simp [NodeData.owns, List.count_singleton]
    rw [howned] at hset
    omega
  have hle := List.nodup_iff_count_le_one.1 hw.nodup
  have hzero : w.owned.count h = 0 := List.count_eq_zero.2 hfresh
  constructor
  · rw [List.nodup_iff_count_le_one]
    intro a
    have ha := hcount a
    have hold := hle a
    split at ha
    · rename_i heq
      rw [← heq] at ha ⊢
      omega
    · omega
  · intro a hmem
    have ha := hcount a
    have hold := hle a
    have hpos := List.count_pos_iff.2 hmem
    split at ha
    · rename_i heq
      rw [← heq]
      exact hnew
    · have hmem' : a ∈ w.owned := List.count_pos_iff.1 (by omega)
      apply hother a _ (hw.live a hmem')
      intro hfound
      have hself := foundOwns_self hfound
      omega

/-- The insertion does not replace the sequence it forks from, the fork wraps no
reference count, and it does not fail once the old snapshot is closed. -/
structure SnapshotSafe (env : Nat → Bool) (w : World) (t : RadixNode) (seq : Nat)
    (path : List Nat) : Prop where
  other : (t.valueAt .empty path).snapshot ≠ some seq
  shares : ∀ w', w.closeReplaced t path = some w' → ForkSafe w' seq path.length
  replaces : ∀ w', w.closeReplaced t path = some w' → (t.valueAt .empty path).snapshot ≠ none →
    ∃ h w'', w'.sequenceFork env seq path.length = some (.ok h, w'')

theorem Sound.closeReplaced (hw : Sound w) {r : Nat} {t : RadixNode}
    (ht : w.radixes[r]? = some t) (path : List Nat) :
    ∃ w', w.closeReplaced t path = some w' ∧ SeqSound w' [] ∧ w'.radixes = w.radixes ∧
      w'.seqs.length = w.seqs.length ∧
      ∀ k, (t.valueAt .empty path).snapshot ≠ some k → w'.seq k = w.seq k := by
  unfold World.closeReplaced
  cases hold : (t.valueAt .empty path).snapshot with
  | none => exact ⟨w, rfl, hw.seqs, rfl, rfl, fun _ _ => rfl⟩
  | some old =>
    have hmem : old ∈ w.owned := mem_owned ht (snapshot_mem hold)
    obtain ⟨q, hq⟩ := Option.isSome_iff_exists.1 (hw.trees.live old hmem)
    obtain ⟨w', hclose, h', hframe⟩ := hw.seqs.sequenceClose hq
    refine ⟨w', hclose, h', hframe.radixes, ?_, ?_⟩
    · rw [hframe.seqs]
      exact List.length_set
    · intro k hk
      rw [hframe.seq, seq_setSeq (seq_lt hq), if_neg fun heq => hk (by rw [heq])]

theorem Sound.setSnapshot (hw : Sound w) {r seq : Nat} {t : RadixNode} {q : KvSequence}
    {path : List Nat} (ht : w.radixes[r]? = some t) (hq : w.seq seq = some q)
    (hsafe : SnapshotSafe env w t seq path) (fp : Nat) (tainted : Bool) :
    ∃ status w', w.setSnapshot env r t seq path fp tainted = some (status, w') ∧ Sound w' := by
  obtain ⟨w1, hclose, h1, hradixes, hlength, hother⟩ := hw.closeReplaced ht path
  have hq1 : w1.seq seq = some q := by
    rw [hother seq hsafe.other]
    exact hq
  obtain ⟨result, w2, hfork, h2, hkept, hnew⟩ :=
    h1.sequenceFork env hq1 (hsafe.shares w1 hclose)
  unfold World.setSnapshot
  rw [hclose]
  simp only [Option.bind_eq_bind, Option.bind_some, hfork]
  cases result with
  | error status =>
    have hnone : (t.valueAt .empty path).snapshot = none := by
      by_contra hsome
      obtain ⟨h, w3, hok⟩ := hsafe.replaces w1 hclose hsome
      rw [hfork] at hok
      cases hok
    have hsame : Kept w w1 := ⟨hradixes, fun k hk => by
      rw [hother k (by rw [hnone]; exact Option.some_ne_none k |>.symm)]
      exact hk⟩
    exact ⟨status, w2, rfl, h2, hw.trees.kept (hsame.trans hkept)⟩
  | ok h =>
    obtain ⟨hh, hlive⟩ := hnew h rfl
    refine ⟨.ok, _, rfl, ⟨h2.tokens, h2.pages, h2.lengths, h2.room⟩, ?_⟩
    apply hw.trees.adopt ht (hkept.radixes.trans hradixes) _ hlive
    · intro k hk hsome
      apply hkept.live k
      rw [hother k hk]
      exact hsome
    · intro hmem
      obtain ⟨p, hp⟩ := Option.isSome_iff_exists.1 (hw.trees.live h hmem)
      have hlt := seq_lt hp
      omega

/-- What an insertion needs where its path has been made to lead to a node. -/
def InsertSafe (env : Nat → Bool) (w : World) (r seq count : Nat) : Prop :=
  ∀ t q, w.radixes[r]? = some t → w.seq seq = some q → count ≤ q.tokens.length →
    (grow env (q.tokens.take count) t w.ticks).status = .ok →
    SnapshotSafe env
      ({ w with ticks := (grow env (q.tokens.take count) t w.ticks).ticks }.setRadix r
        (grow env (q.tokens.take count) t w.ticks).tree)
      (grow env (q.tokens.take count) t w.ticks).tree seq (q.tokens.take count)

/-- What the walk of an insertion leaves: the snapshots of the nodes it freed are live, and no node
owns them any longer. -/
structure Walked (w : World) (freed : List Nat) : Prop where
  trees : TreesSound w
  nodup : freed.Nodup
  live : ∀ k ∈ freed, (w.seq k).isSome
  apart : ∀ k ∈ w.owned, k ∉ freed

variable (env) in
theorem TreesSound.walked (hw : TreesSound w) {r : Nat} {t : RadixNode} (ht : w.radixes[r]? = some t)
    (path : List Nat) :
    Walked ({ w with ticks := (grow env path t w.ticks).ticks }.setRadix r
      (grow env path t w.ticks).tree) (grow env path t w.ticks).freed := by
  obtain ⟨w0, hw0⟩ : ∃ w0, w0 = { w with ticks := (grow env path t w.ticks).ticks }.setRadix r
    (grow env path t w.ticks).tree := ⟨_, rfl⟩
  have hgrow : ∀ a, (grow env path t w.ticks).freed.count a + w0.owned.count a ≤
      w.owned.count a := by
    intro a
    have howns := grow_owns env a path t w.ticks
    have hset := count_setRadix (w := { w with ticks := (grow env path t w.ticks).ticks }) ht
      (grow env path t w.ticks).tree a
    rw [← hw0] at hset
    have hsame : ({ w with ticks := (grow env path t w.ticks).ticks } : World).owned =
      w.owned := rfl
    rw [hsame] at hset
    omega
  have hle := List.nodup_iff_count_le_one.1 hw.nodup
  have hseq0 : ∀ k, w0.seq k = w.seq k := by
    intro k
    rw [hw0]
    rfl
  have hfreed : ∀ k ∈ (grow env path t w.ticks).freed, (w0.seq k).isSome := by
    intro k hk
    have hpos := List.count_pos_iff.2 hk
    have hk' := hgrow k
    rw [hseq0]
    exact hw.live k (List.count_pos_iff.1 (by omega))
  rw [← hw0]
  refine ⟨⟨?_, ?_⟩, ?_, hfreed, ?_⟩
  · rw [List.nodup_iff_count_le_one]
    intro a
    have ha := hgrow a
    have hold := hle a
    omega
  · intro k hk
    have hpos := List.count_pos_iff.2 hk
    have hk' := hgrow k
    rw [hseq0]
    exact hw.live k (List.count_pos_iff.1 (by omega))
  · rw [List.nodup_iff_count_le_one]
    intro a
    have ha := hgrow a
    have hold := hle a
    omega
  · intro k hk hk'
    have hpos := List.count_pos_iff.2 hk
    have hpos' := List.count_pos_iff.2 hk'
    have ha := hgrow k
    have hold := hle k
    omega

theorem Walked.closed {freed : List Nat} (hw : Walked w freed) (hradixes : w'.radixes = w.radixes)
    (hother : ∀ k, k ∉ freed → w'.seq k = w.seq k) : TreesSound w' := by
  have howned : w'.owned = w.owned := by
    unfold World.owned
    rw [hradixes]
  refine ⟨howned ▸ hw.trees.nodup, fun k hk => ?_⟩
  rw [howned] at hk
  rw [hother k (hw.apart k hk)]
  exact hw.trees.live k hk

theorem Sound.radixInsert (hw : Sound w) {r seq count : Nat} {t : RadixNode} {q : KvSequence}
    (ht : w.radixes[r]? = some t) (hq : w.seq seq = some q)
    (hsafe : InsertSafe env w r seq count) (fp : Nat) (tainted : Bool) :
    ∃ status w', w.radixInsert env r seq count fp tainted = some (status, w') ∧ Sound w' := by
  unfold World.radixInsert
  rw [ht, hq]
  simp only [Option.bind_eq_bind, Option.bind_some]
  split
  · exact ⟨_, w, rfl, hw⟩
  · rename_i hcount
    have hstep := hsafe t q ht hq (not_lt.1 hcount)
    have hwalked := hw.trees.walked env ht (q.tokens.take count)
    have h0 : SeqSound ({ w with ticks := (grow env (q.tokens.take count) t w.ticks).ticks }.setRadix
        r (grow env (q.tokens.take count) t w.ticks).tree) [] :=
      ⟨hw.seqs.tokens, hw.seqs.pages, hw.seqs.lengths, hw.seqs.room⟩
    obtain ⟨w1, hclose, h1, hradixes, hother⟩ := h0.closeAll hwalked.nodup hwalked.live
    rw [hclose]
    simp only [Option.bind_some]
    split
    · rename_i hok
      rw [grow_ok env hok] at hclose
      obtain rfl := Option.some.inj hclose
      refine Sound.setSnapshot ⟨h0, hwalked.trees⟩ ?_ hq (hstep hok) fp tainted
      exact List.getElem?_set_self (List.getElem?_eq_some_iff.1 ht).1
    · exact ⟨_, w1, rfl, h1, hwalked.closed hradixes hother⟩

theorem TreesSound.snapshots_nodup (hw : TreesSound w) {r : Nat} {t : RadixNode}
    (ht : w.radixes[r]? = some t) : (snapshots t).Nodup := by
  rw [List.nodup_iff_count_le_one]
  intro a
  exact (owns_le ht a).trans (List.nodup_iff_count_le_one.1 hw.nodup a)

/-- A tree whose snapshots are closed keeps none of them. -/
theorem TreesSound.invalidated (hw : TreesSound w) {r : Nat} {t : RadixNode}
    (ht : w.radixes[r]? = some t) (hradixes : w'.radixes = w.radixes)
    (hother : ∀ k, k ∉ snapshots t → w'.seq k = w.seq k) :
    TreesSound (w'.setRadix r (t.map fun v => { v with snapshot := none })) := by
  have hle := List.nodup_iff_count_le_one.1 hw.nodup
  have hcount : ∀ a, (w'.setRadix r (t.map fun v => { v with snapshot := none })).owned.count a +
      owns a t = w.owned.count a := by
    intro a
    have hset := count_setRadix (w := w') (by rw [hradixes]; exact ht)
      (t.map fun v => { v with snapshot := none }) a
    have hnone : owns a (t.map fun v => { v with snapshot := none }) = 0 := by
      unfold owns
      rw [map_snapshots fun _ => rfl]
      rfl
    have hsame : w'.owned = w.owned := by
      unfold World.owned
      rw [hradixes]
    rw [hnone, hsame, Nat.add_zero] at hset
    exact hset
  constructor
  · rw [List.nodup_iff_count_le_one]
    intro a
    have ha := hcount a
    have hold := hle a
    omega
  · intro k hk
    have hpos := List.count_pos_iff.2 hk
    have hk' := hcount k
    have hold := hle k
    have hmem : k ∈ w.owned := List.count_pos_iff.1 (by omega)
    have hnot : k ∉ snapshots t := by
      intro hmem'
      have hpos' : 0 < owns k t := List.count_pos_iff.2 hmem'
      omega
    exact (congrArg Option.isSome (hother k hnot)).trans (hw.live k hmem)

theorem Sound.radixInvalidate (hw : Sound w) {r : Nat} {t : RadixNode}
    (ht : w.radixes[r]? = some t) : ∃ w', w.radixInvalidate r = some w' ∧ Sound w' := by
  obtain ⟨w1, hclose, h1, hradixes, hother⟩ := hw.seqs.closeAll (hw.trees.snapshots_nodup ht)
    fun k hk => hw.trees.live k (mem_owned ht hk)
  unfold World.radixInvalidate
  rw [ht]
  simp only [Option.bind_eq_bind, Option.bind_some, hclose]
  exact ⟨_, rfl, ⟨h1.tokens, h1.pages, h1.lengths, h1.room⟩,
    hw.trees.invalidated ht hradixes hother⟩

end VgEngine.KvCache

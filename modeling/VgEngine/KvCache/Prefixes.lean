import VgEngine.KvCache.Granted
import VgEngine.Lib.Run

/-! The radix cache as a longest-prefix map: after any calls on a tree, a lookup finds the
longest prefix whose latest insertion was untainted, with a snapshot of exactly that
prefix. -/
namespace VgEngine.KvCache
open RadixTree RadixTree.Tree

/-- A call on one tree. -/
inductive TreeCall where
  | insert (seq count fp : Nat) (tainted : Bool)
  | invalidate
  | lookup (tokens : List Nat)

def TreeCall.call (r : Nat) : TreeCall → Call
  | .insert seq count fp tainted => .radixInsert r seq count fp tainted
  | .invalidate => .radixInvalidate r
  | .lookup tokens => .radixLookup r tokens

/-- An insertion is given a live sequence that the tree does not own. -/
def TreeCall.LegalIn (w : World) (r : Nat) : TreeCall → Prop
  | .insert seq _ _ _ => (w.seq seq).isSome ∧ ∀ t, w.radixes[r]? = some t → seq ∉ snapshots t
  | _ => True

/-- What a call does to the taints of the latest insertions. An insertion of more tokens
than there are does nothing. -/
def TreeCall.record (w : World) (latest : List Nat → Option Bool) :
    TreeCall → List Nat → Option Bool
  | .insert seq count _ tainted =>
    match w.seq seq with
    | none => latest
    | some q =>
      if q.tokens.length < count then latest
      else Function.update latest (q.tokens.take count) (some tainted)
  | .invalidate => fun _ => none
  | .lookup _ => latest

/-- Calls on the tree `r`, from its opening on, with the taint of the latest insertion at
each prefix since the last invalidation. Between the calls the rest of the store may
change: the tree and its snapshots stay. -/
inductive TreeRun (r : Nat) : World → (List Nat → Option Bool) → Prop where
  | opened {w : World} (hw : Usable w) (hr : r = w.radixes.length) :
    TreeRun r (w.radixOpen granted).2 fun _ => none
  | call {w w' : World} {latest : List Nat → Option Bool} (call : TreeCall)
    (h : TreeRun r w latest) (hlegal : call.LegalIn w r)
    (hstep : w.step granted (call.call r) = some w') : TreeRun r w' (call.record w latest)
  | others {w w' : World} {latest : List Nat → Option Bool} (h : TreeRun r w latest)
    (htree : w'.radixes[r]? = w.radixes[r]?)
    (hsnapshots : ∀ t k, w.radixes[r]? = some t → k ∈ snapshots t → w'.seq k = w.seq k)
    (hw : Usable w') : TreeRun r w' latest

/-- The longest non-empty prefix inserted untainted, or zero. -/
structure IsLongest (latest : List Nat → Option Bool) (tokens : List Nat) (matched : Nat) :
    Prop where
  bound : matched ≤ tokens.length
  untainted : 0 < matched → latest (tokens.take matched) = some false
  longest : ∀ j, matched < j → j ≤ tokens.length → latest (tokens.take j) ≠ some false

/-- The snapshot returned holds the prefix that was matched. -/
def Returned (w : World) (tokens : List Nat) (matched : Nat) : Option Nat → Prop
  | none => matched = 0
  | some h => 0 < matched ∧ ∃ q, w.seq h = some q ∧ q.tokens = tokens.take matched

/-- What the value at a path says about its latest insertion. -/
def Entry (w : World) (v : NodeData) (path : List Nat) : Option Bool → Prop
  | none => v.snapshot = none
  | some tainted => v.tainted = tainted ∧
    ∃ h q, v.snapshot = some h ∧ w.seq h = some q ∧ q.tokens = path

/-- The tree `t` at `r` stands for the latest insertions. -/
structure Holds (w : World) (r : Nat) (t : RadixNode) (latest : List Nat → Option Bool) :
    Prop where
  usable : Usable w
  tree : w.radixes[r]? = some t
  nodup : (snapshots t).Nodup
  live : ∀ k ∈ snapshots t, (w.seq k).isSome
  entries : ∀ path, Entry w (t.valueAt .empty path) path (latest path)

variable {w w' : World} {r : Nat} {t : RadixNode} {latest : List Nat → Option Bool}

theorem Usable.closeAll {hs : List Nat} (hw : Usable w) (hnodup : hs.Nodup)
    (hlive : ∀ h ∈ hs, (w.seq h).isSome) :
    ∃ w', World.closeAll hs w = some w' ∧ Usable w' ∧ w'.radixes = w.radixes ∧
      w'.seqs.length = w.seqs.length ∧ ∀ k, k ∉ hs → w'.seq k = w.seq k := by
  induction hs generalizing w with
  | nil => exact ⟨w, rfl, hw, rfl, rfl, fun _ _ => rfl⟩
  | cons h hs ih =>
    obtain ⟨q, hq⟩ := Option.isSome_iff_exists.1 (hlive h List.mem_cons_self)
    obtain ⟨w1, hclose, hcounted⟩ := hw.sequenceClose hq
    have hseq : ∀ k, k ≠ h → w1.seq k = w.seq k := by
      intro k hk
      rw [hcounted.seq, seq_setSeq (seq_lt hq), if_neg hk]
    rw [List.nodup_cons] at hnodup
    obtain ⟨w2, hrest, h2, hradixes, hlength, hother⟩ := ih (hw.closed hq hcounted) hnodup.2 (by
      intro k hk
      rw [hseq k fun heq => hnodup.1 (heq ▸ hk)]
      exact hlive k (List.mem_cons_of_mem h hk))
    refine ⟨w2, ?_, h2, hradixes.trans hcounted.radixes, ?_, ?_⟩
    · rw [World.closeAll, hclose]
      exact hrest
    · rw [hlength, hcounted.seqs]
      exact List.length_set
    · intro k hk
      rw [List.mem_cons, not_or] at hk
      rw [hother k hk.2, hseq k hk.1]

theorem Entry.kept {v : NodeData} {path : List Nat} {tainted : Option Bool}
    (h : Entry w v path tainted) (hseq : ∀ k q, v.snapshot = some k → w.seq k = some q →
      q.tokens = path → w'.seq k = some q) : Entry w' v path tainted := by
  cases tainted with
  | none => exact h
  | some tainted =>
    obtain ⟨htaint, k, q, hk, hq, htokens⟩ := h
    exact ⟨htaint, k, q, hk, hseq k q hk hq htokens, htokens⟩

/-- The sequence behind the snapshot at a path holds that path. -/
theorem Entry.tokens {v : NodeData} {path : List Nat} {tainted : Option Bool} {k : Nat}
    (h : Entry w v path tainted) (hk : v.snapshot = some k) :
    ∃ q, w.seq k = some q ∧ q.tokens = path := by
  cases tainted with
  | none =>
    rw [show v.snapshot = none from h] at hk
    cases hk
  | some tainted =>
    obtain ⟨-, k', q, hk', hq, htokens⟩ := h
    rw [hk] at hk'
    obtain rfl := Option.some.inj hk'
    exact ⟨q, hq, htokens⟩

theorem valueAt_update {f : NodeData → NodeData} {path : List Nat} (hpath : (t.get path).isSome)
    (q : List Nat) : (t.update f path).valueAt .empty q =
      if q = path then f (t.valueAt .empty path) else t.valueAt .empty q := by
  obtain ⟨v, hv⟩ := Option.isSome_iff_exists.1 hpath
  unfold valueAt
  rw [get_update, hv]
  split <;> rfl

theorem Holds.closeReplaced (hw : Holds w r t latest) (path : List Nat) :
    ∃ w', w.closeReplaced t path = some w' ∧ Usable w' ∧ w'.radixes = w.radixes ∧
      w'.seqs.length = w.seqs.length ∧
      ∀ k, (t.valueAt .empty path).snapshot ≠ some k → w'.seq k = w.seq k := by
  unfold World.closeReplaced
  cases hold : (t.valueAt .empty path).snapshot with
  | none => exact ⟨w, rfl, hw.usable, rfl, rfl, fun _ _ => rfl⟩
  | some old =>
    obtain ⟨q, hq, -⟩ := (hw.entries path).tokens hold
    obtain ⟨w', hclose, hcounted⟩ := hw.usable.sequenceClose hq
    refine ⟨w', hclose, hw.usable.closed hq hcounted, hcounted.radixes, ?_, ?_⟩
    · rw [hcounted.seqs]
      exact List.length_set
    · intro k hk
      rw [hcounted.seq, seq_setSeq (seq_lt hq), if_neg fun heq => hk (by rw [heq])]

/-- The new snapshot takes the place of the one at its path, and all others stay. -/
theorem Holds.setSnapshot (hw : Holds w r t latest) {seq : Nat} {q : KvSequence}
    {path : List Nat} (hpath : (t.get path).isSome) (hq : w.seq seq = some q)
    (hfree : seq ∉ snapshots t) (hwithin : path <+: q.tokens) (fp : Nat) (tainted : Bool) :
    ∃ w' t', w.setSnapshot granted r t seq path fp tainted = some (.ok, w') ∧
      Holds w' r t' (Function.update latest path (some tainted)) := by
  obtain ⟨w1, hclose, h1, hradixes1, hlength1, hother1⟩ := hw.closeReplaced path
  have hq1 : w1.seq seq = some q := by
    rw [hother1 seq fun heq => hfree (snapshot_mem heq)]
    exact hq
  obtain ⟨p, w2, hfork, hseqs2, htokens, hradixes2, h2⟩ :=
    h1.sequenceFork hq1 hwithin.length_le
  rw [← List.prefix_iff_eq_take.1 hwithin] at htokens
  have hseq2 : ∀ k, w2.seq k = if k = w.seqs.length then some p else w1.seq k := by
    intro k
    rw [← hlength1, ← seq_append]
    unfold World.seq
    rw [hseqs2]
  have hself := hseq2 w.seqs.length
  rw [if_pos rfl] at hself
  have hkept : ∀ k q, (t.valueAt .empty path).snapshot ≠ some k → w.seq k = some q →
      w2.seq k = some q := by
    intro k q' hk hq'
    rw [hseq2, if_neg (seq_lt hq').ne, hother1 k hk]
    exact hq'
  have hfresh : w.seqs.length ∉ snapshots t := by
    intro hmem
    obtain ⟨q', hq'⟩ := Option.isSome_iff_exists.1 (hw.live _ hmem)
    exact (seq_lt hq').ne rfl
  have hcount : ∀ a, owns a (t.update (fun _ => ⟨fp, tainted, some w.seqs.length⟩) path) +
      foundOwns a (t.get path) ≤ owns a t + if w.seqs.length = a then 1 else 0 := by
    intro a
    have hupdate := update_owns a ⟨fp, tainted, some w.seqs.length⟩ path t
    have hone : NodeData.owns a ⟨fp, tainted, some w.seqs.length⟩ =
        if w.seqs.length = a then 1 else 0 := by
      simp [NodeData.owns, List.count_singleton]
    rwa [hone] at hupdate
  have hle := List.nodup_iff_count_le_one.1 hw.nodup
  have hzero : owns w.seqs.length t = 0 := List.count_eq_zero.2 hfresh
  refine ⟨w2.setRadix r (t.update (fun _ => ⟨fp, tainted, some w.seqs.length⟩) path),
    t.update (fun _ => ⟨fp, tainted, some w.seqs.length⟩) path, ?_,
    ⟨h2.tokens, h2.lengths, h2.pages, h2.fits⟩, ?_, ?_, ?_, ?_⟩
  · rw [World.setSnapshot, hclose]
    simp only [Option.bind_eq_bind, Option.bind_some, hfork, hlength1]
  · obtain ⟨hlt, -⟩ := List.getElem?_eq_some_iff.1 hw.tree
    rw [World.setRadix, hradixes2, hradixes1]
    exact List.getElem?_set_self hlt
  · rw [List.nodup_iff_count_le_one]
    intro a
    have ha := hcount a
    have hold := hle a
    unfold owns at ha hzero
    split at ha
    · rename_i heq
      rw [← heq] at ha ⊢
      omega
    · omega
  · intro k hk
    have hpos : 0 < owns k _ := List.count_pos_iff.2 hk
    have hk' := hcount k
    have hold : owns k t ≤ 1 := hle k
    by_cases heq : w.seqs.length = k
    · rw [← heq]
      exact Option.isSome_iff_exists.2 ⟨p, hself⟩
    · rw [if_neg heq] at hk'
      have hmem : k ∈ snapshots t := List.count_pos_iff.1 (by unfold owns at hk' hpos; omega)
      obtain ⟨q', hq'⟩ := Option.isSome_iff_exists.1 (hw.live k hmem)
      refine Option.isSome_iff_exists.2 ⟨q', hkept k q' ?_ hq'⟩
      intro hfound
      have hone := foundOwns_self hfound
      omega
  · intro path'
    rw [valueAt_update hpath]
    by_cases heq : path' = path
    · rw [if_pos heq, heq, Function.update_self]
      exact ⟨rfl, w.seqs.length, p, rfl, hself, htokens⟩
    · rw [if_neg heq, Function.update_of_ne heq]
      apply (hw.entries path').kept
      intro k q' hk hq' htokens'
      apply hkept k q' _ hq'
      intro hfound
      obtain ⟨q'', hq'', htokens''⟩ := (hw.entries path).tokens hfound
      rw [hq'] at hq''
      obtain rfl := Option.some.inj hq''
      exact heq (htokens'.symm.trans htokens'')

theorem reach_owns (path : List Nat) (t : RadixNode) (a : Nat) :
    owns a (t.reach .empty path) ≤ owns a t := by
  have hgrow := grow_owns granted a path t 0
  have hreached := grow_granted path t 0
  rw [hreached.tree] at hgrow
  omega

theorem mem_of_mem_reach {path : List Nat} {k : Nat} (hk : k ∈ snapshots (t.reach .empty path)) :
    k ∈ snapshots t :=
  List.count_pos_iff.1 (lt_of_lt_of_le (List.count_pos_iff.2 hk) (reach_owns path t k))

/-- Making a path lead to a node changes no entry. -/
theorem Holds.reach (hw : Holds w r t latest) (path : List Nat) (ticks : Nat) :
    Holds ({ w with ticks := ticks }.setRadix r (t.reach .empty path)) r (t.reach .empty path)
      latest := by
  refine ⟨⟨hw.usable.tokens, hw.usable.lengths, hw.usable.pages, hw.usable.fits⟩,
    ?_, ?_, fun k hk => hw.live k (mem_of_mem_reach hk), ?_⟩
  · obtain ⟨hlt, -⟩ := List.getElem?_eq_some_iff.1 hw.tree
    exact List.getElem?_set_self hlt
  · rw [List.nodup_iff_count_le_one]
    intro a
    exact (reach_owns path t a).trans (List.nodup_iff_count_le_one.1 hw.nodup a)
  · intro path'
    rw [valueAt_reach]
    exact hw.entries path'

theorem Holds.radixInsert (hw : Holds w r t latest) {seq : Nat} (hlive : (w.seq seq).isSome)
    (hfree : seq ∉ snapshots t) (count fp : Nat) (tainted : Bool) :
    ∃ status w' t', w.radixInsert granted r seq count fp tainted = some (status, w') ∧
      Holds w' r t' (TreeCall.record w latest (.insert seq count fp tainted)) := by
  obtain ⟨q, hq⟩ := Option.isSome_iff_exists.1 hlive
  have hreached := grow_granted (q.tokens.take count) t w.ticks
  unfold World.radixInsert TreeCall.record
  rw [hw.tree]
  simp only [Option.bind_eq_bind, Option.bind_some, hq]
  by_cases hcount : q.tokens.length < count
  · rw [if_pos hcount, if_pos hcount]
    exact ⟨_, w, t, rfl, hw⟩
  · rw [if_neg hcount, if_neg hcount, hreached.freed, hreached.tree, World.closeAll,
      Option.bind_some, if_pos hreached.status]
    obtain ⟨w', t', hset, h'⟩ := (hw.reach (q.tokens.take count)
      (grow granted (q.tokens.take count) t w.ticks).ticks).setSnapshot
        (get_reach_self .empty _ t) hq (fun hmem => hfree (mem_of_mem_reach hmem))
        (List.take_prefix count q.tokens) fp tainted
    exact ⟨.ok, w', t', hset, h'⟩

theorem Holds.radixInvalidate (hw : Holds w r t latest) :
    ∃ w' t', w.radixInvalidate r = some w' ∧ Holds w' r t' fun _ => none := by
  obtain ⟨w1, hclose, h1, hradixes, -, -⟩ := hw.usable.closeAll hw.nodup hw.live
  have hnone : snapshots (t.map fun v => { v with snapshot := none }) = [] :=
    map_snapshots (fun _ => rfl) t
  refine ⟨w1.setRadix r (t.map fun v => { v with snapshot := none }),
    t.map fun v => { v with snapshot := none }, ?_,
    ⟨h1.tokens, h1.lengths, h1.pages, h1.fits⟩, ?_, ?_, ?_, ?_⟩
  · rw [World.radixInvalidate, hw.tree]
    simp only [Option.bind_eq_bind, Option.bind_some, hclose]
  · obtain ⟨hlt, -⟩ := List.getElem?_eq_some_iff.1 hw.tree
    rw [World.setRadix, hradixes]
    exact List.getElem?_set_self hlt
  · rw [hnone]
    exact List.nodup_nil
  · intro k hk
    rw [hnone] at hk
    exact absurd hk List.not_mem_nil
  · intro path
    unfold Entry valueAt
    rw [get_map]
    cases t.get path <;> rfl

theorem Holds.withStats (hw : Holds w r t latest) (stats : KvStats) :
    Holds (w.withStore { w.store with stats := stats }) r t latest :=
  ⟨⟨hw.usable.tokens, hw.usable.lengths, hw.usable.pages, hw.usable.fits⟩, hw.tree, hw.nodup,
    hw.live, hw.entries⟩

/-- A lookup finds the longest prefix, and changes the statistics alone. -/
theorem Holds.radixLookup (hw : Holds w r t latest) (tokens : List Nat) :
    ∃ matched snapshot w', w.radixLookup r tokens = some ((matched, snapshot), w') ∧
      Holds w' r t latest ∧ IsLongest latest tokens matched ∧
      Returned w tokens matched snapshot := by
  -- at a prefix, an accepted value is an untainted latest insertion
  have haccepted : ∀ j, (∃ v, Accepted (fun v => v.snapshot.isSome && !v.tainted) tokens j
      (t.get (tokens.take j)) v) ↔
        0 < j ∧ j ≤ tokens.length ∧ latest (tokens.take j) = some false := by
    intro j
    have hentry := hw.entries (tokens.take j)
    constructor
    · rintro ⟨v, hpos, hle, hget, hok⟩
      rw [valueAt, hget, Option.getD_some] at hentry
      rw [Bool.and_eq_true, Bool.not_eq_true'] at hok
      refine ⟨hpos, hle, ?_⟩
      cases hlatest : latest (tokens.take j) with
      | none =>
        rw [hlatest] at hentry
        rw [show v.snapshot = none from hentry] at hok
        exact absurd hok.1 Bool.false_ne_true
      | some taint =>
        rw [hlatest] at hentry
        rw [← hentry.1, hok.2]
    · rintro ⟨hpos, hle, hlatest⟩
      rw [hlatest, valueAt] at hentry
      obtain ⟨htaint, h, q, hsnapshot, -⟩ := hentry
      cases hget : t.get (tokens.take j) with
      | none =>
        rw [hget] at hsnapshot
        cases hsnapshot
      | some v =>
        rw [hget, Option.getD_some] at htaint hsnapshot
        exact ⟨v, hpos, hle, rfl, by simp [hsnapshot, htaint]⟩
  unfold World.radixLookup
  rw [hw.tree]
  simp only [Option.bind_eq_bind, Option.bind_some]
  rcases longest_spec (fun v : NodeData => v.snapshot.isSome && !v.tainted) tokens 0 none t with
    ⟨k, v, hfound, haccept, hlongest⟩ | ⟨hfound, hnone⟩
  · rw [hfound, Nat.zero_add]
    refine ⟨k, v.snapshot, _, rfl, hw.withStats _, ⟨haccept.2.1, ?_, ?_⟩, ?_⟩
    · exact fun _ => ((haccepted k).1 ⟨v, haccept⟩).2.2
    · intro j hlt hle heq
      obtain ⟨v', haccept'⟩ := (haccepted j).2 ⟨by omega, hle, heq⟩
      exact absurd (hlongest j v' haccept') (not_le.2 hlt)
    · have hentry := hw.entries (tokens.take k)
      rw [valueAt, haccept.2.2.1, Option.getD_some] at hentry
      have hok := haccept.2.2.2
      rw [Bool.and_eq_true] at hok
      obtain ⟨h, hsnapshot⟩ := Option.isSome_iff_exists.1 hok.1
      rw [hsnapshot]
      exact ⟨haccept.1, hentry.tokens hsnapshot⟩
  · rw [hfound]
    refine ⟨0, none, _, rfl, hw.withStats _, ⟨Nat.zero_le _, ?_, ?_⟩, rfl⟩
    · exact fun h => absurd h (Nat.lt_irrefl 0)
    · intro j hlt hle heq
      obtain ⟨v', haccept'⟩ := (haccepted j).2 ⟨hlt, hle, heq⟩
      exact hnone j v' haccept'

/-- A legal call on the tree is defined and keeps what the tree stands for. -/
theorem Holds.step (hw : Holds w r t latest) {call : TreeCall} (hlegal : call.LegalIn w r) :
    ∃ w' t', w.step granted (call.call r) = some w' ∧ Holds w' r t' (call.record w latest) := by
  cases call with
  | insert seq count fp tainted =>
    obtain ⟨status, w', t', hinsert, h'⟩ :=
      hw.radixInsert hlegal.1 (hlegal.2 t hw.tree) count fp tainted
    exact ⟨w', t', by rw [TreeCall.call, World.step, hinsert]; rfl, h'⟩
  | invalidate =>
    obtain ⟨w', t', hinvalidate, h'⟩ := hw.radixInvalidate
    exact ⟨w', t', hinvalidate, h'⟩
  | lookup tokens =>
    obtain ⟨matched, snapshot, w', hlookup, h', -⟩ := hw.radixLookup tokens
    exact ⟨w', t, by rw [TreeCall.call, World.step, hlookup]; rfl, h'⟩

/-- A tree just opened stands for no insertion at all. -/
theorem holds_opened (hw : Usable w) :
    Holds (w.radixOpen granted).2 w.radixes.length (.node [] .empty []) fun _ => none := by
  refine ⟨⟨hw.tokens, hw.lengths, hw.pages, hw.fits⟩, ?_, List.nodup_nil,
    fun k hk => absurd hk List.not_mem_nil, ?_⟩
  · exact List.getElem?_concat_length
  · intro path
    have hempty : (RadixTree.Tree.node [] NodeData.empty []).valueAt .empty path = .empty := by
      rw [valueAt, get_node, getAll]
      split <;> rfl
    rw [hempty]
    rfl

theorem TreeRun.holds (h : TreeRun r w latest) : ∃ t, Holds w r t latest := by
  induction h with
  | opened hw hr =>
    rw [hr]
    exact ⟨_, holds_opened hw⟩
  | call call _ hlegal hstep ih =>
    obtain ⟨t, hw⟩ := ih
    obtain ⟨w', t', hstep', h'⟩ := hw.step hlegal
    rw [hstep] at hstep'
    obtain rfl := Option.some.inj hstep'
    exact ⟨t', h'⟩
  | others _ htree hsnapshots hw' ih =>
    obtain ⟨t, hw⟩ := ih
    have hkept := fun k hk => hsnapshots t k hw.tree hk
    refine ⟨t, hw', htree.trans hw.tree, hw.nodup, ?_, ?_⟩
    · intro k hk
      rw [hkept k hk]
      exact hw.live k hk
    · intro path
      apply (hw.entries path).kept
      intro k q hk hq _
      rw [hkept k (snapshot_mem hk)]
      exact hq

/-- A store with a sequence of three tokens. -/
def threeTokens : Option World :=
  Run.exec (World.step granted) (World.opened (.opened ⟨16, 1, 1, 1, 1, 0, 0, 0, false⟩))
    [.sequenceInit, .append 0 1, .append 0 2, .append 0 3]

end VgEngine.KvCache

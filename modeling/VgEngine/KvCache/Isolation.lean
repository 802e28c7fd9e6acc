import VgEngine.KvCache.Blank
import VgEngine.KvCache.Lineage

/-! Forks and writes: what is written through one of two sequences, and what the other
one sees. -/
namespace VgEngine.KvCache

/-- Overwrite part of a page. -/
def patch (contents : List UInt8) (start : Nat) (bytes : List UInt8) : List UInt8 :=
  contents.take start ++ bytes ++ contents.drop (start + bytes.length)

section Model

variable (env : Nat → Bool)

/-- A write of the caller through the pointer that `vg_kv_page_acquire` hands out. Leaving
the bytes handed out, or the page, is undefined. -/
def World.write (w : World) (h layer token : Nat) (desired : Tier) (offset : Nat)
    (bytes : List UInt8) : Option (Status × World) := do
  let (result, w) ← w.pageAcquire env h layer token desired
  match result with
  | .error status => some (status, w)
  | .ok (data, start, size) =>
    let block ← data
    let contents ← w.heap.cells block
    if size < offset + bytes.length ∨ contents.length < start + size then none
    else some (.ok, { w with heap := w.heap.write block (patch contents (start + offset) bytes) })

/-- The bytes that `vg_kv_page_acquire` hands out. -/
def World.view (w : World) (h layer token : Nat) (desired : Tier) : Option (List UInt8) := do
  let (result, w) ← w.pageAcquire env h layer token desired
  match result with
  | .error _ => none
  | .ok (data, start, size) =>
    let contents ← w.heap.cells (← data)
    some ((contents.drop start).take size)

inductive Action where
  | call (call : Call)
  | write (h layer token : Nat) (desired : Tier) (offset : Nat) (bytes : List UInt8)

def World.act (w : World) : Action → Option World
  | .call call => w.step env call
  | .write h layer token desired offset bytes =>
    (w.write env h layer token desired offset bytes).map Prod.snd

/-- A safe call, or a write through a live sequence that stays in the page. -/
def ActionSafe (w : World) : Action → Prop
  | .call call => Safe env w call
  | .write h layer _ _ offset bytes => (w.seq h).isSome ∧
    (layer < w.store.cfg.nLayers → offset + bytes.length ≤ layerBytes w.store.cfg ∧
      layer * layerBytes w.store.cfg + layerBytes w.store.cfg ≤ pageBytes w.store.cfg)

end Model

variable {env : Nat → Bool} {w w' : World} {h : Nat} {q : KvSequence}

theorem patch_length {contents bytes : List UInt8} {start : Nat}
    (hfit : start + bytes.length ≤ contents.length) :
    (patch contents start bytes).length = contents.length := by
  unfold patch
  rw [List.length_append, List.length_append, List.length_take, List.length_drop]
  omega

/-- A sound store, up to its bytes, whose sequences hold no page twice. -/
structure Intact (w : World) : Prop where
  sound : Sound w.blank
  distinct : ∀ h q, w.seq h = some q → (q.pages.map Slot.block).Nodup

/-- The block of a slot is live, and every block that may be handed out is above it. -/
theorem Intact.block (hw : Intact w) (hq : w.seq h = some q) {x : Slot} (hx : x ∈ q.pages) :
    x.block < w.heap.next ∧
      ∃ contents, w.heap.cells x.block = some contents ∧
        contents.length = pageBytes w.store.cfg := by
  have hmem : x ∈ w.blank.slots ++ [] := List.mem_append_left _ (mem_slots hq hx)
  obtain ⟨-, hlt, hdata⟩ := hw.sound.seqs.pages.denotes x hmem
  obtain ⟨-, b, hb, hnext, hcells⟩ := hw.sound.seqs.pages.resident _ hlt
  rw [hdata] at hb
  obtain rfl := Option.some.inj hb
  refine ⟨hnext, ?_⟩
  rw [blank_cells, Option.map_eq_some_iff] at hcells
  obtain ⟨contents, hcells, hzeros⟩ := hcells
  have hlength := congrArg List.length hzeros
  rw [zeros, List.length_replicate, List.length_replicate] at hlength
  exact ⟨contents, hcells, hlength⟩

theorem Intact.step (hw : Intact w) {call : Call} (hsafe : Safe env w call) :
    ∃ w', w.step env call = some w' ∧ Intact w' := by
  obtain ⟨w1, hstep, hsound⟩ := step_sound hw.sound (safe_blank hsafe)
  rw [blank_step, Option.map_eq_some_iff] at hstep
  obtain ⟨w', hstep, rfl⟩ := hstep
  refine ⟨w', hstep, hsound, ?_⟩
  intro k p hp
  by_cases happend : ∃ h token, call = .append h token
  · obtain ⟨h, token, rfl⟩ := happend
    obtain ⟨q, hq⟩ := Option.isSome_iff_exists.1 hsafe.1
    obtain ⟨⟨status, w2⟩, happ, rfl⟩ := Option.map_eq_some_iff.1 hstep
    obtain ⟨new, happended⟩ := sequenceAppend_appended hq happ
    have hlength := happended.length_le
    obtain ⟨-, -, hother, ⟨q', hq', hpages, -⟩, -, hfresh⟩ := happended
    by_cases hk : k = h
    · rw [hk, hq'] at hp
      obtain rfl := Option.some.inj hp
      rw [hpages, List.map_append, List.nodup_append]
      refine ⟨hw.distinct h q hq, ?_, ?_⟩
      · match new, hlength with
        | [], _ => exact List.nodup_nil
        | [x], _ => exact List.nodup_singleton _
      · intro b hb c hc heq
        obtain ⟨x, hx, rfl⟩ := List.mem_map.1 hb
        obtain ⟨y, hy, rfl⟩ := List.mem_map.1 hc
        have hold := (hw.block hq hx).1
        have hnew := hfresh y hy
        omega
    · rw [hother k hk] at hp
      exact hw.distinct k p hp
  · have hderived := step_derived (fun h token heq => happend ⟨h, token, heq⟩) hstep
    rcases hderived k p hp with hnil | ⟨j, q, hq, hpre⟩
    · rw [hnil]
      exact List.nodup_nil
    · exact (hw.distinct j q hq).sublist (hpre.map Slot.block).sublist

variable (env) in
/-- What `vg_kv_page_acquire` gives in an intact store. -/
theorem Intact.pageAcquire (hw : Intact w) (hq : w.seq h = some q) (layer token : Nat)
    (desired : Tier) :
    (w.store.cfg.nLayers ≤ layer ∨ q.tokens.length ≤ token) ∧
        w.pageAcquire env h layer token desired = some (.error .invalid, w) ∨
      (layer < w.store.cfg.nLayers ∧ token < q.tokens.length) ∧
        ∃ x w', q.pages[token / w.store.cfg.pageTokens]? = some x ∧
          w.pageAcquire env h layer token desired =
            some (.ok (some x.block, layerOffset w.store.cfg layer, layerBytes w.store.cfg), w') ∧
          w'.heap = w.heap ∧ Frame w w' := by
  have hseqs := hw.sound.seqs
  unfold World.pageAcquire
  rw [hq]
  simp only [Option.bind_eq_bind, Option.bind_some]
  split
  · rename_i hbounds
    exact Or.inl ⟨hbounds, rfl⟩
  · rename_i hbounds
    rw [not_or, not_le, not_le] at hbounds
    have hpage : token / w.store.cfg.pageTokens < q.pages.length := by
      rw [hseqs.lengths h q hq]
      exact div_lt_pagesFor hseqs.tokens hbounds.2
    have hx : q.pages[token / w.store.cfg.pageTokens] ∈ w.blank.slots ++ [] :=
      List.mem_append_left _ (mem_slots hq (List.getElem_mem hpage))
    obtain ⟨-, hlt, hdata⟩ := hseqs.pages.denotes _ hx
    rw [List.getElem?_eq_getElem hpage]
    generalize q.pages[token / w.store.cfg.pageTokens] = x at hx hlt hdata ⊢
    have hderef : w.deref x.ptr = some (w.store.cells x.ptr.index) := deref_slot hseqs hx
    simp only [Option.bind_some, hderef]
    unfold World.faultPage
    rw [if_pos (hseqs.pages.resident _ hlt).1, if_neg (by simp)]
    have hresult := congrArg (fun d => (Except.ok (d, layerOffset w.store.cfg layer,
      layerBytes w.store.cfg) : Except Status (Option Nat × Nat × Nat))) hdata
    refine Or.inr ⟨hbounds, x, _, rfl, congrArg some (congrArg₂ Prod.mk hresult rfl), ?_, ?_⟩
    · rfl
    · exact ⟨rfl, rfl, rfl⟩

/-- What a sequence sees at a position: the bytes of the layer in the block of the page. -/
theorem Intact.view (hw : Intact w) (hq : w.seq h = some q) (layer token : Nat)
    (desired : Tier) :
    w.view env h layer token desired =
      if w.store.cfg.nLayers ≤ layer ∨ q.tokens.length ≤ token then none
      else (q.pages[token / w.store.cfg.pageTokens]?).bind fun x =>
        (w.heap.cells x.block).map fun contents =>
          (contents.drop (layerOffset w.store.cfg layer)).take (layerBytes w.store.cfg) := by
  unfold World.view
  rcases hw.pageAcquire env hq layer token desired with
    ⟨hbounds, hacquire⟩ | ⟨⟨hlayer, htoken⟩, x, w', hx, hacquire, hheap, -⟩
  · rw [hacquire, if_pos hbounds]
    rfl
  · rw [hacquire, if_neg (by omega), hx]
    simp only [Option.bind_eq_bind, Option.bind_some, hheap]
    cases w.heap.cells x.block with
    | none => rfl
    | some contents => rfl

/-- A write in the page keeps the store intact, and changes one block at most. -/
structure Written (w w' : World) (h token : Nat) (q : KvSequence) : Prop where
  intact : Intact w'
  seqs : w'.seqs = w.seqs
  cfg : w'.store.cfg = w.store.cfg
  heap : ∀ b, (∀ x, q.pages[token / w.store.cfg.pageTokens]? = some x → b ≠ x.block) →
    w'.heap.cells b = w.heap.cells b

variable (env) in
theorem Intact.write (hw : Intact w) {layer offset : Nat} (token : Nat) (desired : Tier)
    {bytes : List UInt8} (hq : w.seq h = some q)
    (hfits : layer < w.store.cfg.nLayers → offset + bytes.length ≤ layerBytes w.store.cfg ∧
      layer * layerBytes w.store.cfg + layerBytes w.store.cfg ≤ pageBytes w.store.cfg) :
    ∃ status w', w.write env h layer token desired offset bytes = some (status, w') ∧
      Written w w' h token q := by
  obtain ⟨hsound, hdistinct⟩ := hw
  have hw : Intact w := ⟨hsound, hdistinct⟩
  unfold World.write
  rcases hw.pageAcquire env hq layer token desired with
    ⟨-, hacquire⟩ | ⟨⟨hlayer, -⟩, x, w1, hx, hacquire, hheap, hframe⟩
  · rw [hacquire]
    exact ⟨.invalid, w, rfl, hw, rfl, rfl, fun _ _ => rfl⟩
  · obtain ⟨hoffset, hend⟩ := hfits hlayer
    obtain ⟨-, contents, hcells, hlength⟩ := hw.block hq (List.mem_of_getElem? hx)
    have hpage : pageBytes w.store.cfg < 2 ^ 64 := Nat.mod_lt _ (by decide)
    have hstart : layerOffset w.store.cfg layer = layer * layerBytes w.store.cfg :=
      Nat.mod_eq_of_lt (by omega)
    rw [hacquire, hstart]
    simp only [Option.bind_eq_bind, Option.bind_some, hheap, hcells]
    rw [if_neg (by omega)]
    have hsafe : Safe env w (.pageAcquire h layer token desired) :=
      ⟨by rw [Legal, hq]; rfl, trivial⟩
    obtain ⟨w2, hsame, hintact⟩ := hw.step hsafe
    rw [World.step, hacquire] at hsame
    obtain rfl := Option.some.inj hsame
    refine ⟨.ok, _, rfl, ⟨?_, hintact.distinct⟩, hframe.seqs, hframe.cfg, ?_⟩
    · rw [← hheap] at hcells ⊢
      rw [blank_write hcells (patch_length (by omega))]
      exact hintact.sound
    · intro b hb
      exact Memory.write_cells_of_ne (hb x hx)

theorem ActionSafe.intact (hw : Intact w) {action : Action} (hsafe : ActionSafe env w action) :
    ∃ w', w.act env action = some w' ∧ Intact w' := by
  cases action with
  | call call => exact hw.step hsafe
  | write h layer token desired offset bytes =>
    obtain ⟨hlive, hfits⟩ := hsafe
    obtain ⟨q, hq⟩ := Option.isSome_iff_exists.1 hlive
    obtain ⟨status, w', hwrite, hwritten⟩ := hw.write env token desired hq hfits
    exact ⟨w', by rw [World.act, hwrite]; rfl, hwritten.intact⟩

/-- Two lists of slots share a block only at one place, among the first `n`. -/
def Apart (xs ys : List Slot) (n : Nat) : Prop :=
  ∀ i j x y, xs[i]? = some x → ys[j]? = some y → x.block = y.block → i = j ∧ i < n

section Apart

variable {xs ys new : List Slot} {n : Nat}

theorem Apart.symm (h : Apart xs ys n) : Apart ys xs n := by
  intro i j x y hx hy heq
  obtain ⟨rfl, hlt⟩ := h j i y x hy hx heq.symm
  exact ⟨rfl, hlt⟩

theorem Apart.append (h : Apart xs ys n) (hfresh : ∀ x ∈ new, ∀ y ∈ ys, x.block ≠ y.block) :
    Apart (xs ++ new) ys n := by
  intro i j x y hx hy heq
  by_cases hi : i < xs.length
  · rw [List.getElem?_append_left hi] at hx
    exact h i j x y hx hy heq
  · rw [List.getElem?_append_right (not_lt.1 hi)] at hx
    exact absurd heq (hfresh x (List.mem_of_getElem? hx) y (List.mem_of_getElem? hy))

theorem apart_take (hnodup : (xs.map Slot.block).Nodup) (n : Nat) : Apart xs (xs.take n) n := by
  intro i j x y hx hy heq
  rw [List.getElem?_take] at hy
  split at hy
  · rename_i hj
    obtain ⟨hi, rfl⟩ := List.getElem?_eq_some_iff.1 hx
    obtain ⟨hj', rfl⟩ := List.getElem?_eq_some_iff.1 hy
    have hij : i = j := by
      have hi' : i < (xs.map Slot.block).length := by simpa using hi
      have hj' : j < (xs.map Slot.block).length := by simpa using hj'
      have hmap : (xs.map Slot.block)[i] = (xs.map Slot.block)[j] := by simpa using heq
      exact (List.Nodup.getElem_inj_iff hnodup).1 hmap
    exact ⟨hij, by omega⟩
  · cases hy

end Apart

/-- The two sequences of a fork share the pages of the prefix at most. -/
def Forked (w : World) (src fork n : Nat) : Prop :=
  src ≠ fork ∧ ∃ q p, w.seq src = some q ∧ w.seq fork = some p ∧ Apart q.pages p.pages n

theorem Forked.symm {src fork n : Nat} (h : Forked w src fork n) : Forked w fork src n := by
  obtain ⟨hne, q, p, hq, hp, hapart⟩ := h
  exact ⟨hne.symm, p, q, hp, hq, hapart.symm⟩

theorem Forked.of_seq {src fork n : Nat} (h : Forked w src fork n)
    (hsrc : w'.seq src = w.seq src) (hfork : w'.seq fork = w.seq fork) : Forked w' src fork n := by
  obtain ⟨hne, q, p, hq, hp, hapart⟩ := h
  exact ⟨hne, q, p, by rw [hsrc, hq], by rw [hfork, hp], hapart⟩

/-- An append to one of the two gives it a page of its own. -/
theorem Forked.append {src fork n token : Nat} {status : Status} (hw : Intact w)
    (h : Forked w src fork n) (happend : w.sequenceAppend env src token = some (status, w')) :
    Forked w' src fork n := by
  obtain ⟨hne, q, p, hq, hp, hapart⟩ := h
  obtain ⟨new, -, -, hother, ⟨q', hq', hpages, -⟩, -, hfresh⟩ :=
    sequenceAppend_appended hq happend
  refine ⟨hne, q', p, hq', by rw [hother fork hne.symm, hp], ?_⟩
  rw [hpages]
  apply hapart.append
  intro x hx y hy
  have hnew := hfresh x hx
  have hold := (hw.block hp hy).1
  omega

/-- What may follow a fork: appends, acquisitions, and writes, none through one of the two
sequences behind the prefix into the page in which the prefix ends. -/
def ForkUse (env : Nat → Bool) (src fork count : Nat) (w : World) (action : Action) : Prop :=
  ActionSafe env w action ∧
    match action with
    | .call (.append _ _) => True
    | .call (.pageAcquire _ _ _ _) => True
    | .call _ => False
    | .write h _ token _ _ _ => h = src ∨ h = fork → count ≤ token →
      count % w.store.cfg.pageTokens = 0 ∨
        token / w.store.cfg.pageTokens ≠ count / w.store.cfg.pageTokens

theorem ForkUse.forked {src fork count n : Nat} {action : Action} (hw : Intact w)
    (h : Forked w src fork n) (huse : ForkUse env src fork count w action)
    (hact : w.act env action = some w') :
    Forked w' src fork n ∧ w'.store.cfg = w.store.cfg := by
  obtain ⟨hsafe, hkind⟩ := huse
  cases action with
  | call call =>
    cases call with
    | append k token =>
      obtain ⟨r, happend, rfl⟩ := Option.map_eq_some_iff.1 hact
      obtain ⟨q, hq⟩ := Option.isSome_iff_exists.1 hsafe.1
      obtain ⟨new, hcfg, -, hother, -, -, -⟩ := sequenceAppend_appended hq happend
      refine ⟨?_, hcfg⟩
      by_cases hsrc : k = src
      · rw [hsrc] at happend
        exact h.append hw happend
      · by_cases hfork : k = fork
        · rw [hfork] at happend
          exact (h.symm.append hw happend).symm
        · exact h.of_seq (hother src (Ne.symm hsrc)) (hother fork (Ne.symm hfork))
    | pageAcquire k layer token desired =>
      obtain ⟨r, hacquire, rfl⟩ := Option.map_eq_some_iff.1 hact
      obtain ⟨q, hq⟩ := Option.isSome_iff_exists.1 hsafe.1
      rcases hw.pageAcquire env hq layer token desired with
        ⟨-, hinvalid⟩ | ⟨-, x, w1, -, hok, -, hframe⟩
      · rw [hinvalid] at hacquire
        obtain rfl := Option.some.inj hacquire
        exact ⟨h, rfl⟩
      · rw [hok] at hacquire
        obtain rfl := Option.some.inj hacquire
        exact ⟨h.of_seq (hframe.seq src) (hframe.seq fork), hframe.cfg⟩
    | sequenceInit => exact hkind.elim
    | fork src count => exact hkind.elim
    | close h => exact hkind.elim
    | radixOpen => exact hkind.elim
    | radixInsert r seq count fp tainted => exact hkind.elim
    | radixLookup r tokens => exact hkind.elim
    | radixInvalidate r => exact hkind.elim
  | write k layer token desired offset bytes =>
    obtain ⟨hlive, hfits⟩ := hsafe
    obtain ⟨q, hq⟩ := Option.isSome_iff_exists.1 hlive
    obtain ⟨status, w1, hwrite, hwritten⟩ :=
      hw.write env token desired hq hfits
    rw [World.act, hwrite] at hact
    obtain rfl := Option.some.inj hact
    exact ⟨h.of_seq (seq_of_seqs hwritten.seqs src) (seq_of_seqs hwritten.seqs fork), hwritten.cfg⟩

/-- A page that a prefix reaches into, at or behind its end, is the one in which it ends. -/
theorem partial_page {cfg : KvConfig} {count token : Nat} (htokens : 0 < cfg.pageTokens)
    (hcount : count ≤ token) (hlt : token / cfg.pageTokens < World.pagesFor cfg count) :
    count % cfg.pageTokens ≠ 0 ∧ token / cfg.pageTokens = count / cfg.pageTokens := by
  have hmono : count / cfg.pageTokens ≤ token / cfg.pageTokens := Nat.div_le_div_right hcount
  have hpages : World.pagesFor cfg count ≤ World.pagesFor cfg (count + 1) :=
    pagesFor_mono cfg (Nat.le_succ count)
  rw [pagesFor_succ htokens] at hpages
  refine ⟨?_, by omega⟩
  intro hzero
  have hexact : World.pagesFor cfg count = count / cfg.pageTokens := by
    have hsplit := Nat.div_add_mod count cfg.pageTokens
    rw [hzero, Nat.add_zero] at hsplit
    unfold World.pagesFor
    rw [← hsplit, Nat.add_sub_assoc htokens, Nat.mul_add_div htokens,
      Nat.div_eq_of_lt (show cfg.pageTokens - 1 < cfg.pageTokens by omega), Nat.add_zero,
      Nat.mul_div_cancel_left _ htokens]
  omega

/-- Outside the page in which the prefix ends, a write through one sequence of a fork is not
seen by the other one. -/
theorem Forked.isolated {src fork count layer token offset : Nat} {desired : Tier}
    {bytes : List UInt8} (hw : Intact w)
    (h : Forked w src fork (World.pagesFor w.store.cfg count))
    (hsafe : ActionSafe env w (.write src layer token desired offset bytes))
    (hcount : count ≤ token) (hpage : count % w.store.cfg.pageTokens = 0 ∨
      token / w.store.cfg.pageTokens ≠ count / w.store.cfg.pageTokens)
    (hact : w.act env (.write src layer token desired offset bytes) = some w')
    (layer' token' : Nat) (desired' : Tier) :
    w'.view env fork layer' token' desired' = w.view env fork layer' token' desired' := by
  obtain ⟨-, q, p, hq, hp, hapart⟩ := h
  obtain ⟨status, w1, hwrite, hintact, hseqs, hcfg, hheap⟩ :=
    hw.write env token desired hq hsafe.2
  rw [World.act, hwrite] at hact
  obtain rfl := Option.some.inj hact
  have hp' : w1.seq fork = some p := by rw [seq_of_seqs hseqs, hp]
  dsimp only
  rw [hintact.view hp', hw.view hp, hcfg]
  split
  · rfl
  · cases hx : p.pages[token' / w.store.cfg.pageTokens]? with
    | none => rfl
    | some x =>
      simp only [Option.bind_some]
      rw [hheap x.block]
      intro y hy heq
      obtain ⟨hsame, hlt⟩ := hapart _ _ y x hy hx heq.symm
      obtain ⟨hpart, hends⟩ := partial_page hw.sound.seqs.tokens hcount hlt
      rcases hpage with hzero | hne
      · exact hpart hzero
      · exact hne hends

theorem intact_opened {cfg : KvConfig} {store : KvStore} (hopen : kvOpen cfg = .ok store) :
    Intact (World.opened store) := by
  refine ⟨opened_sound hopen, ?_⟩
  intro h q hq
  simp [World.opened, World.seq] at hq

theorem forked_of_fork {src count fork : Nat} (hw : Intact w)
    (hfork : w.sequenceFork env src count = some (.ok fork, w')) :
    Forked w' src fork (World.pagesFor w'.store.cfg count) := by
  obtain ⟨hcfg, -, ⟨-, hfailed⟩ | ⟨q, p, hq, -, -, hpages, hresult, hseqs⟩⟩ := sequenceFork_seqs hfork
  · exact absurd rfl (hfailed fork)
  · obtain rfl := Except.ok.inj hresult
    have hseq : ∀ k, w'.seq k = World.seq { w with seqs := w.seqs ++ [some p] } k := by
      intro k
      unfold World.seq
      rw [hseqs]
    refine ⟨(seq_lt hq).ne, q, p, ?_, ?_, ?_⟩
    · rw [hseq, seq_append, if_neg (seq_lt hq).ne, hq]
    · rw [hseq, seq_append, if_pos rfl]
    · rw [hpages, hcfg]
      exact apart_take (hw.distinct src q hq) _

/-- What the actions after a fork keep. -/
structure ForkKept (cfg : KvConfig) (src fork count : Nat) (w : World) : Prop where
  intact : Intact w
  forked : Forked w src fork (World.pagesFor cfg count)
  config : w.store.cfg = cfg

theorem ForkKept.step {cfg : KvConfig} {src fork count : Nat} {action : Action}
    (hw : ForkKept cfg src fork count w) (huse : ForkUse env src fork count w action) :
    ∃ w', w.act env action = some w' ∧ ForkKept cfg src fork count w' := by
  obtain ⟨w', hact, hintact⟩ := huse.1.intact hw.intact
  obtain ⟨hforked, hcfg⟩ := huse.forked hw.intact hw.forked hact
  exact ⟨w', hact, hintact, hforked, hcfg.trans hw.config⟩

/-- The run is defined, and no write through one of the two sequences at or behind the prefix
changes what the other one sees anywhere. -/
def ForkIsolated (env : Nat → Bool) (w : World) (src fork count : Nat) (actions : List Action) :
    Prop :=
  (∃ w', Run.exec (World.act env) w actions = some w') ∧
    ∀ done s s' h other layer token desired offset bytes,
      done ++ [.write h layer token desired offset bytes] <+: actions →
      Run.exec (World.act env) w done = some s →
      s.act env (.write h layer token desired offset bytes) = some s' →
      h = src ∧ other = fork ∨ h = fork ∧ other = src → count ≤ token →
      ∀ layer' token' desired',
        s'.view env other layer' token' desired' = s.view env other layer' token' desired'

/-- Forks are isolated along every safe run that writes nothing into the page in which the
prefix ends, behind the prefix. -/
theorem forkIsolated_of_safe (env : Nat → Bool) {cfg : KvConfig} {store : KvStore}
    (hopen : kvOpen cfg = .ok store) {before after : List Action} {src count fork : Nat}
    {w0 w1 : World}
    (hbefore : Run.Guarded (World.act env) (ActionSafe env) (World.opened store) before)
    (hexec : Run.exec (World.act env) (World.opened store) before = some w0)
    (hshares : ForkSafe w0 src count)
    (hfork : w0.sequenceFork env src count = some (.ok fork, w1))
    (hafter : Run.Guarded (World.act env) (ForkUse env src fork count) w1 after) :
    ForkIsolated env w1 src fork count after := by
  have hstart : Intact w0 := by
    obtain ⟨w', hexec', hintact⟩ := Run.exec_of_guarded (I := Intact)
      (fun s a hs ha => ha.intact hs) (intact_opened hopen) hbefore
    rw [hexec] at hexec'
    obtain rfl := Option.some.inj hexec'
    exact hintact
  have hforked := forked_of_fork hstart hfork
  have hintact : Intact w1 := by
    have hlive : (w0.seq src).isSome := by
      obtain ⟨q, hq, -⟩ := Option.bind_eq_some_iff.1 hfork
      rw [hq]
      rfl
    have hsafe : Safe env w0 (.fork src count) := ⟨hlive, hshares⟩
    obtain ⟨w', hstep, hintact⟩ := hstart.step hsafe
    rw [World.step, hfork] at hstep
    obtain rfl := Option.some.inj hstep
    exact hintact
  have hinv : ForkKept w1.store.cfg src fork count w1 := ⟨hintact, hforked, rfl⟩
  refine ⟨?_, ?_⟩
  · obtain ⟨w', hrun, -⟩ := Run.exec_of_guarded (fun s a hs ha => hs.step ha) hinv hafter
    exact ⟨w', hrun⟩
  · intro done s s' h other layer token desired offset bytes hdone hrun hact hpair hcount
    have halways := Run.always_of_defined (fun s a hs ha => ForkKept.step hs ha) hinv hafter
    obtain ⟨hs, hf, hcfg⟩ := halways done s ((List.prefix_append _ _).trans hdone) hrun
    obtain ⟨hsafe, hpage⟩ := hafter done _ s hdone hrun
    rw [← hcfg] at hf
    rcases hpair with ⟨rfl, rfl⟩ | ⟨rfl, rfl⟩
    · exact hf.isolated hs hsafe hcount (hpage (Or.inl rfl) hcount) hact
    · exact hf.symm.isolated hs hsafe hcount (hpage (Or.inr rfl) hcount) hact

/-- Without a budget, a page is safe to open where the array has room or is empty. -/
theorem appendSafe_of_room (hbudget : w.store.cfg.hostBudgetBytes = 0)
    (hroom : w.store.pageCount ≠ w.store.pageCapacity ∨ w.store.pageCount = 0) :
    AppendSafe env w h := by
  intro q q' w' hq hprepare
  obtain ⟨p, hresized, -, -⟩ := prepareAppend_resized env hq
  rw [hprepare] at hresized
  have hstore : w'.store = w.store := hresized.store
  constructor
  · intro hne
    rw [hstore] at hne
    exact absurd hbudget hne
  · intro _ hfull _ _ i hi
    rw [hstore] at hfull hi
    rcases hroom with hne | hempty
    · exact absurd hfull hne
    · omega

/-- Two tokens a page, one byte a token, and no budget. -/
def pairConfig : KvConfig := ⟨2, 1, 1, 1, 1, 0, 0, 0, false⟩

def pairBefore : List Action :=
  [.call .sequenceInit, .call (.append 0 5), .call (.append 0 6)]

/-- A test for safe calls that never look for a page to evict or to move. -/
def Roomy (w : World) : Action → Bool
  | .call .sequenceInit => true
  | .call (.append h _) => (w.seq h).isSome && decide (w.store.cfg.hostBudgetBytes = 0) &&
    decide (w.store.pageCount ≠ w.store.pageCapacity ∨ w.store.pageCount = 0)
  | .call _ => false
  | .write h layer _ _ offset bytes => (w.seq h).isSome &&
    decide (layer < w.store.cfg.nLayers → offset + bytes.length ≤ layerBytes w.store.cfg ∧
      layer * layerBytes w.store.cfg + layerBytes w.store.cfg ≤ pageBytes w.store.cfg)

theorem actionSafe_of_roomy {action : Action} (h : Roomy w action = true) :
    ActionSafe env w action := by
  cases action with
  | call call =>
    cases call with
    | sequenceInit => exact ⟨trivial, trivial⟩
    | append k token =>
      simp only [Roomy, Bool.and_eq_true, decide_eq_true_eq] at h
      exact ⟨h.1.1, appendSafe_of_room h.1.2 h.2⟩
    | fork src count => cases h
    | close k => cases h
    | pageAcquire k layer token desired => cases h
    | radixOpen => cases h
    | radixInsert r seq count fp tainted => cases h
    | radixLookup r tokens => cases h
    | radixInvalidate r => cases h
  | write k layer token desired offset bytes =>
    simp only [Roomy, Bool.and_eq_true, decide_eq_true_eq] at h
    exact h

/-- The sequence that an append or a write is made on. -/
def Action.on : Action → Option Nat
  | .call (.append h _) => some h
  | .call _ => none
  | .write h _ _ _ _ _ => some h

theorem forkUse_of_roomy {src fork count : Nat} {action : Action}
    (h : Roomy w action = true ∧ action.on.isSome ∧ count % w.store.cfg.pageTokens = 0) :
    ForkUse env src fork count w action := by
  obtain ⟨hroomy, hon, haligned⟩ := h
  refine ⟨actionSafe_of_roomy hroomy, ?_⟩
  cases action with
  | call call =>
    cases call with
    | append k token => trivial
    | sequenceInit => cases hon
    | fork src count => cases hon
    | close k => cases hon
    | pageAcquire k layer token desired => cases hon
    | radixOpen => cases hon
    | radixInsert r seq count fp tainted => cases hon
    | radixLookup r tokens => cases hon
    | radixInvalidate r => cases hon
  | write k layer token desired offset bytes => exact fun _ _ => Or.inl haligned

/-- The fork of a prefix of the two tokens appended. -/
def pairFork (count : Nat) : Option (Except Status Nat × World) :=
  (Run.exec (World.act fun _ => true) (World.opened (.opened pairConfig)) pairBefore).bind
    fun w => w.sequenceFork (fun _ => true) 0 count

/-- An append to the fork, and a write to its position `token`. -/
def pairAfter (token : Nat) : List Action :=
  [.call (.append 1 7), .write 1 0 token .host (token % 2) [9]]

theorem pairFork_ok (count : Nat) (hok : (pairFork count).any (fun r => match r.1 with
    | .ok k => k == 1
    | .error _ => false) = true) : ∃ w1, pairFork count = some (.ok 1, w1) := by
  obtain ⟨⟨result, w1⟩, hfork, hresult⟩ := (Option.any_eq_true _ _).1 hok
  cases result with
  | error status => cases hresult
  | ok k =>
    obtain rfl : k = 1 := by simpa using hresult
    exact ⟨w1, hfork⟩

theorem forkIsolated_pair : ∃ w1, pairFork 2 = some (.ok 1, w1) ∧
    ForkIsolated (fun _ => true) w1 0 1 2 (pairAfter 2) := by
  have hopen : kvOpen pairConfig = .ok (.opened pairConfig) := rfl
  have hbefore : Run.Guarded (World.act fun _ => true) (fun w a => Roomy w a = true)
      (World.opened (.opened pairConfig)) pairBefore := Run.guarded_of_check (by decide +kernel)
  have hafter : (pairFork 2).all (fun r => Run.checkGuard (World.act fun _ => true)
      (fun w a => Roomy w a = true ∧ a.on.isSome ∧ 2 % w.store.cfg.pageTokens = 0) r.2
      (pairAfter 2)) = true := by decide +kernel
  have hshares : (Run.exec (World.act fun _ => true) (World.opened (.opened pairConfig))
      pairBefore).all (fun w => decide (ForkSafe w 0 2)) = true := by decide +kernel
  obtain ⟨w1, hpair⟩ := pairFork_ok 2 (by decide +kernel)
  refine ⟨w1, hpair, ?_⟩
  rw [hpair, Option.all_some] at hafter
  obtain ⟨w0, hexec, hfork⟩ := Option.bind_eq_some_iff.1 hpair
  rw [hexec, Option.all_some, decide_eq_true_iff] at hshares
  exact forkIsolated_of_safe _ hopen (hbefore.imp fun w a => actionSafe_of_roomy) hexec hshares
    hfork ((Run.guarded_of_check hafter).imp fun w a => forkUse_of_roomy)

/-- A legal call, or a write through a live sequence that stays in the page. -/
def ActionLegal (w : World) : Action → Prop
  | .call call => Legal w call
  | .write h layer _ _ offset bytes => (w.seq h).isSome ∧
    (layer < w.store.cfg.nLayers → offset + bytes.length ≤ layerBytes w.store.cfg ∧
      layer * layerBytes w.store.cfg + layerBytes w.store.cfg ≤ pageBytes w.store.cfg)

instance (w : World) : (action : Action) → Decidable (ActionLegal w action)
  | .call call => inferInstanceAs (Decidable (Legal w call))
  | .write h layer _ _ offset bytes => inferInstanceAs (Decidable ((w.seq h).isSome = true ∧
    (layer < w.store.cfg.nLayers → offset + bytes.length ≤ layerBytes w.store.cfg ∧
      layer * layerBytes w.store.cfg + layerBytes w.store.cfg ≤ pageBytes w.store.cfg)))

/-- A fork of one token of a page of two shares the page: its second token overwrites that
of the sequence it was forked from. -/
theorem forkIsolated_overwrites :
    ¬ ∀ (env : Nat → Bool) (cfg : KvConfig) (store : KvStore) (before after : List Action)
      (w0 w1 : World) (src count fork : Nat), kvOpen cfg = .ok store →
      Run.Guarded (World.act env) ActionLegal (World.opened store) before →
      Run.exec (World.act env) (World.opened store) before = some w0 →
      w0.sequenceFork env src count = some (.ok fork, w1) →
      Run.Guarded (World.act env)
        (fun w a => ActionLegal w a ∧ (a.on = some src ∨ a.on = some fork)) w1 after →
      ForkIsolated env w1 src fork count after := by
  intro hclaim
  have hbefore : Run.Guarded (World.act fun _ => true) ActionLegal
      (World.opened (.opened pairConfig)) pairBefore := Run.guarded_of_check (by decide +kernel)
  have hafter : (pairFork 1).all (fun r => Run.checkGuard (World.act fun _ => true)
      (fun w a => ActionLegal w a ∧ (a.on = some 0 ∨ a.on = some 1)) r.2 (pairAfter 1)) = true := by
    decide +kernel
  have hseen : (pairFork 1).all (fun r =>
      (Run.exec (World.act fun _ => true) r.2 [.call (.append 1 7)]).all fun s =>
        (s.act (fun _ => true) (.write 1 0 1 .host 1 [9])).any fun s' =>
          decide (s'.view (fun _ => true) 0 0 1 .host ≠ s.view (fun _ => true) 0 0 1 .host)) =
      true := by
    decide +kernel
  obtain ⟨w1, hpair⟩ := pairFork_ok 1 (by decide +kernel)
  rw [hpair, Option.all_some] at hafter hseen
  obtain ⟨w0, hexec, hfork⟩ := Option.bind_eq_some_iff.1 hpair
  obtain ⟨⟨w', hrun⟩, hisolated⟩ := hclaim _ pairConfig _ pairBefore (pairAfter 1) w0 w1 0 1 1 rfl
    hbefore hexec hfork (Run.guarded_of_check hafter)
  obtain ⟨s, hs, -⟩ := Option.bind_eq_some_iff.1 hrun
  have hfirst : Run.exec (World.act fun _ => true) w1 [.call (.append 1 7)] = some s := by
    rw [Run.exec_cons, hs]
    rfl
  rw [hfirst, Option.all_some] at hseen
  obtain ⟨s', hwrite, hchanged⟩ := (Option.any_eq_true _ _).1 hseen
  rw [decide_eq_true_iff] at hchanged
  exact hchanged (hisolated [.call (.append 1 7)] s s' 1 0 0 1 .host 1 [9] (List.prefix_refl _)
    hfirst hwrite (Or.inr ⟨rfl, rfl⟩) (Nat.le_refl 1) 0 1 .host)

end VgEngine.KvCache

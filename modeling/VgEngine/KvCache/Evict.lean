import VgEngine.KvCache.Pages

/-! Opening a page: eviction, growth of the array, and the slot it ends with. -/
namespace VgEngine.KvCache

def seqSlots : Option KvSequence → List Slot
  | none => []
  | some q => q.pages

/-- The page slots of all live sequences. -/
def World.slots (w : World) : List Slot := w.seqs.flatMap seqSlots

/-- The pages and sequences of a store fit together. The slots of `extra` are held by a
call that is under way. -/
structure SeqSound (w : World) (extra : List Slot) : Prop where
  tokens : 0 < w.store.cfg.pageTokens
  pages : PagesSound w.store w.heap (w.slots ++ extra)
  lengths : ∀ h q, w.seq h = some q → q.pages.length = World.pagesFor w.store.cfg q.tokens.length
  room : w.store.pageCount ≤ w.store.pageCapacity

/-- The sequences and the trees stay as they are. -/
structure Frame (w w' : World) : Prop where
  seqs : w'.seqs = w.seqs
  radixes : w'.radixes = w.radixes
  cfg : w'.store.cfg = w.store.cfg

theorem Frame.refl (w : World) : Frame w w := ⟨rfl, rfl, rfl⟩

theorem Frame.trans {w w' w'' : World} (h : Frame w w') (h' : Frame w' w'') : Frame w w'' :=
  ⟨h'.seqs.trans h.seqs, h'.radixes.trans h.radixes, h'.cfg.trans h.cfg⟩

variable {env : Nat → Bool} {w w' : World} {extra : List Slot}

theorem Frame.slots (h : Frame w w') : w'.slots = w.slots := by
  unfold World.slots
  rw [h.seqs]

theorem Frame.seq (h : Frame w w') (k : Nat) : w'.seq k = w.seq k := by
  unfold World.seq
  rw [h.seqs]

theorem SeqSound.of_frame (h : SeqSound w extra) {extra' : List Slot} (hframe : Frame w w')
    (hpages : PagesSound w'.store w'.heap (w.slots ++ extra'))
    (hroom : w'.store.pageCount ≤ w'.store.pageCapacity) : SeqSound w' extra' where
  tokens := by
    rw [hframe.cfg]
    exact h.tokens
  pages := by
    rw [hframe.slots]
    exact hpages
  lengths := by
    intro k q hq
    rw [hframe.cfg]
    exact h.lengths k q (by rw [← hframe.seq]; exact hq)
  room := hroom

/-- Asking the environment changes nothing else. -/
theorem SeqSound.ticks (h : SeqSound w extra) (ticks : Nat) :
    SeqSound { w with ticks := ticks } extra := ⟨h.tokens, h.pages, h.lengths, h.room⟩

theorem PagesSound.heap {s : KvStore} {heap heap' : Memory (List UInt8)} {slots : List Slot}
    (h : PagesSound s heap slots) (hnext : heap.next ≤ heap'.next)
    (hcells : ∀ b, b < heap.next → heap'.cells b = heap.cells b) : PagesSound s heap' slots where
  denotes := h.denotes
  resident := by
    intro i hi
    obtain ⟨hspilled, b, hb, hlt, hcontents⟩ := h.resident i hi
    exact ⟨hspilled, b, hb, lt_of_lt_of_le hlt hnext, by rw [hcells b hlt]; exact hcontents⟩
  distinct := h.distinct
  refs := h.refs

theorem free_some {b : Nat} {c : List UInt8} (hb : w.heap.cells b = some c) :
    w.free (some b) = some { w with heap := w.heap.free b } := by
  simp only [World.free, hb, Option.isSome_some, if_true]

/-- What spilling the page at `v`, with data block `b`, may touch. -/
structure Spilled (w w' : World) (v b : Nat) : Prop extends Frame w w' where
  gen : w'.store.gen = w.store.gen
  pageCount : w'.store.pageCount = w.store.pageCount
  pageCapacity : w'.store.pageCapacity = w.store.pageCapacity
  cells : ∀ i, i ≠ v → w'.store.cells i = w.store.cells i
  next : w'.heap.next = w.heap.next
  heap : ∀ c, c ≠ b → w'.heap.cells c = w.heap.cells c

theorem Spilled.ticks (w : World) (v b ticks : Nat) : Spilled w { w with ticks := ticks } v b :=
  ⟨⟨rfl, rfl, rfl⟩, rfl, rfl, rfl, fun _ _ => rfl, rfl, fun _ _ => rfl⟩

theorem spillPage_spec {v b : Nat} {c : List UInt8} (hdata : (w.store.cells v).data = some b)
    (hlive : w.heap.cells b = some c) : ∃ w', w.spillPage env v = some w' ∧ Spilled w w' v b ∧
      w'.store.stats = w.store.stats := by
  unfold World.spillPage
  simp only [hdata]
  by_cases hskip : w.store.cfg.spillDir = false ∨ (w.store.cells v).spilled = true
  · rw [if_pos hskip]
    exact ⟨w, rfl, Spilled.ticks w v b w.ticks, rfl⟩
  · rw [if_neg hskip]
    unfold World.ask
    dsimp only
    by_cases hopen : env w.ticks = false
    · rw [if_pos hopen]
      exact ⟨_, rfl, Spilled.ticks w v b _, rfl⟩
    · rw [if_neg hopen]
      by_cases hwrite : env (w.ticks + 1) = false
      · rw [if_pos hwrite]
        exact ⟨_, rfl, Spilled.ticks w v b _, rfl⟩
      · rw [if_neg hwrite, hlive]
        refine ⟨_, free_some hlive, ⟨⟨rfl, rfl, rfl⟩, rfl, rfl, rfl, ?_, rfl, ?_⟩, rfl⟩
        · intro i hi
          exact if_neg hi
        · intro d hd
          exact Memory.free_cells_of_ne hd

theorem victimFrom_some {cells : Nat → Page} {n i age v : Nat} {best : Option Nat}
    (h : World.victimFrom cells n i best age = some v) :
    best = some v ∨ (v < i + n ∧ (cells v).refs = 0) := by
  induction n generalizing i best age with
  | zero => exact Or.inl h
  | succ n ih =>
    unfold World.victimFrom at h
    split at h
    · rename_i hx
      rcases ih h with hbest | ⟨hlt, hrefs⟩
      · obtain rfl := Option.some.inj hbest
        exact Or.inr ⟨by omega, hx.1⟩
      · exact Or.inr ⟨by omega, hrefs⟩
    · rcases ih h with hbest | ⟨hlt, hrefs⟩
      · exact Or.inl hbest
      · exact Or.inr ⟨by omega, hrefs⟩

theorem victim_some {s : KvStore} {v : Nat} (h : World.victim s = some v) :
    v < s.pageCount ∧ (s.cells v).refs = 0 := by
  rcases victimFrom_some h with hnone | hfound
  · cases hnone
  · rwa [Nat.zero_add] at hfound

variable (env) in
/-- What `evict_pages` does with the page at `v` before it closes the gap. -/
theorem release_spec {v b : Nat} {c : List UInt8} (hdata : (w.store.cells v).data = some b)
    (hlive : w.heap.cells b = some c) :
    ∃ w', (if w.store.cfg.spillDir then w.spillPage env v else w.free (some b)) = some w' ∧
      Spilled w w' v b ∧ w'.store.stats = w.store.stats := by
  by_cases hdir : w.store.cfg.spillDir = true
  · rw [if_pos hdir]
    exact spillPage_spec hdata hlive
  · rw [if_neg hdir, free_some hlive]
    exact ⟨_, rfl, ⟨⟨rfl, rfl, rfl⟩, rfl, rfl, rfl, fun _ _ => rfl, rfl,
      fun d hd => Memory.free_cells_of_ne hd⟩, rfl⟩

theorem SeqSound.closeGap (h : SeqSound w extra) {v b : Nat} (hv : v < w.store.pageCount)
    (hdata : (w.store.cells v).data = some b)
    (hnone : ∀ j, v ≤ j → j < w.store.pageCount → (w.store.cells j).refs = 0)
    (hspilled : Spilled w w' v b) :
    SeqSound (w'.withStore (World.closeGap w'.store v)) extra ∧
      Frame w (w'.withStore (World.closeGap w'.store v)) := by
  have hframe : Frame w (w'.withStore (World.closeGap w'.store v)) :=
    ⟨hspilled.seqs, hspilled.radixes, hspilled.cfg⟩
  refine ⟨h.of_frame hframe ?_ ?_, hframe⟩
  · apply h.pages.closeGap hv hnone hspilled.cfg hspilled.gen hspilled.pageCount hspilled.cells
      hspilled.next
    intro c hc
    exact hspilled.heap c fun heq => hc (by rw [heq, hdata])
  · have hroom := h.room
    rw [← hspilled.pageCount, ← hspilled.pageCapacity] at hroom
    exact (Nat.sub_le _ _).trans hroom

/-- The store after the page at `v` is evicted, up to what was spilled where. -/
def closed (s : KvStore) (v : Nat) : KvStore := World.closeGap (World.uncount s (s.cells v)) v

@[simp] theorem uncount_cfg (s : KvStore) (x : Page) : (World.uncount s x).cfg = s.cfg := by
  rw [World.uncount]

@[simp] theorem uncount_gen (s : KvStore) (x : Page) : (World.uncount s x).gen = s.gen := by
  rw [World.uncount]

@[simp] theorem uncount_cells (s : KvStore) (x : Page) : (World.uncount s x).cells = s.cells := by
  rw [World.uncount]

@[simp] theorem uncount_pageCount (s : KvStore) (x : Page) :
    (World.uncount s x).pageCount = s.pageCount := by
  rw [World.uncount]

@[simp] theorem uncount_pageCapacity (s : KvStore) (x : Page) :
    (World.uncount s x).pageCapacity = s.pageCapacity := by
  rw [World.uncount]

@[simp] theorem closed_pageCount (s : KvStore) (v : Nat) :
    (closed s v).pageCount = s.pageCount - 1 := by
  rw [closed, World.closeGap, uncount_pageCount]

@[simp] theorem closed_pageCapacity (s : KvStore) (v : Nat) :
    (closed s v).pageCapacity = s.pageCapacity := by
  rw [closed, World.closeGap, uncount_pageCapacity]

/-- Two stores with the same configuration, counters and pages. -/
structure Alike (s s' : KvStore) : Prop where
  cfg : s'.cfg = s.cfg
  pageCount : s'.pageCount = s.pageCount
  pageCapacity : s'.pageCapacity = s.pageCapacity
  stats : s'.stats = s.stats
  cells : ∀ i < s.pageCount, s'.cells i = s.cells i

/-- Closing the gap covers what a spill wrote to the page at `v`. -/
theorem closeGap_alike {s s' : KvStore} {v : Nat} (hcfg : s'.cfg = s.cfg)
    (hcount : s'.pageCount = s.pageCount) (hcapacity : s'.pageCapacity = s.pageCapacity)
    (hstats : s'.stats = s.stats) (hcells : ∀ i < s.pageCount, i ≠ v → s'.cells i = s.cells i) :
    Alike (World.closeGap s v) (World.closeGap s' v) := by
  unfold World.closeGap
  refine ⟨hcfg, by dsimp only; rw [hcount], hcapacity, by dsimp only; rw [hstats], ?_⟩
  intro i hi
  dsimp only at hi ⊢
  rw [hcount]
  split
  · exact hcells _ (by omega) (by omega)
  · exact hcells _ (by omega) (by omega)

/-- Evicting a page leaves the others in place when no page above it is referenced. -/
theorem SeqSound.evictPage (h : SeqSound w extra) (env : Nat → Bool) {v : Nat}
    (hv : v < w.store.pageCount)
    (hnone : ∀ j, v ≤ j → j < w.store.pageCount → (w.store.cells j).refs = 0) :
    ∃ w', w.evictPage env v = some w' ∧ SeqSound w' extra ∧ Frame w w' ∧
      Alike (closed w.store v) w'.store := by
  obtain ⟨-, b, hdata, -, hlive⟩ := h.pages.resident v hv
  obtain ⟨s, hs⟩ : ∃ s, s = World.uncount w.store (w.store.cells v) := ⟨_, rfl⟩
  have hcells : s.cells = w.store.cells := by rw [hs, uncount_cells]
  obtain ⟨w1, hrelease, hsp, hstats⟩ := release_spec env (w := w.withStore s)
    (v := v) (b := b) (by rw [← hdata, ← hcells]; rfl) hlive
  have hgap : SeqSound (w1.withStore (World.closeGap w1.store v)) extra ∧
      Frame w (w1.withStore (World.closeGap w1.store v)) := by
    apply h.closeGap hv hdata hnone
    refine ⟨⟨hsp.seqs, hsp.radixes, hsp.cfg.trans ?_⟩, hsp.gen.trans ?_, hsp.pageCount.trans ?_,
      hsp.pageCapacity.trans ?_, fun i hi => (hsp.cells i hi).trans ?_, hsp.next, hsp.heap⟩
    · rw [World.withStore, hs, uncount_cfg]
    · rw [World.withStore, hs, uncount_gen]
    · rw [World.withStore, hs, uncount_pageCount]
    · rw [World.withStore, hs, uncount_pageCapacity]
    · rw [World.withStore, hcells]
  refine ⟨w1.withStore (World.closeGap w1.store v), ?_, hgap.1, hgap.2, ?_⟩
  · unfold World.evictPage
    dsimp only
    rw [← hs, hdata]
    split at hrelease <;> rename_i hdir
    · rw [if_pos hdir, hrelease]
      rfl
    · rw [if_neg hdir, hrelease]
      rfl
  · unfold closed
    rw [← hs]
    exact closeGap_alike hsp.cfg hsp.pageCount hsp.pageCapacity hstats
      fun i _ hi => hsp.cells i hi

/-- No page that the loop evicts lies below a referenced one. -/
def EvictsAbove : Nat → KvStore → Prop
  | 0, _ => True
  | n + 1, s => s.cfg.hostBudgetBytes < s.stats.hostBytes → ∀ v, World.victim s = some v →
    (∀ j, v < j → j < s.pageCount → (s.cells j).refs = 0) ∧ EvictsAbove n (closed s v)

theorem victimFrom_congr {cells cells' : Nat → Page} {n i age : Nat} {best : Option Nat}
    (h : ∀ j, i ≤ j → j < i + n → cells' j = cells j) :
    World.victimFrom cells' n i best age = World.victimFrom cells n i best age := by
  induction n generalizing i best age with
  | zero => rfl
  | succ n ih =>
    unfold World.victimFrom
    rw [h i (Nat.le_refl i) (by omega)]
    split
    · exact ih fun j hj hlt => h j (by omega) (by omega)
    · exact ih fun j hj hlt => h j (by omega) (by omega)

theorem Alike.victim {s s' : KvStore} (h : Alike s s') : World.victim s' = World.victim s := by
  unfold World.victim
  rw [h.pageCount]
  exact victimFrom_congr fun j _ hj => h.cells j (by omega)

theorem Alike.closed {s s' : KvStore} (h : Alike s s') {v : Nat} (hv : v < s.pageCount) :
    Alike (closed s v) (closed s' v) := by
  unfold KvCache.closed
  rw [h.cells v hv]
  apply closeGap_alike
  · rw [uncount_cfg, uncount_cfg, h.cfg]
  · rw [uncount_pageCount, uncount_pageCount, h.pageCount]
  · rw [uncount_pageCapacity, uncount_pageCapacity, h.pageCapacity]
  · rw [World.uncount, World.uncount, h.stats]
  · intro i hi _
    rw [uncount_pageCount] at hi
    rw [uncount_cells, uncount_cells, h.cells i hi]

theorem EvictsAbove.congr {n : Nat} {s s' : KvStore} (hsafe : EvictsAbove n s)
    (h : Alike s s') : EvictsAbove n s' := by
  induction n generalizing s s' with
  | zero => trivial
  | succ n ih =>
    intro hover v hvictim
    rw [h.cfg, h.stats] at hover
    rw [h.victim] at hvictim
    have hv := (victim_some hvictim).1
    obtain ⟨habove, hrest⟩ := hsafe hover v hvictim
    refine ⟨?_, ih hrest (h.closed hv)⟩
    intro j hj hlt
    rw [h.pageCount] at hlt
    rw [h.cells j hlt]
    exact habove j hj hlt

/-- Whether the next `evict_pages` finds nothing to evict. -/
def NothingToEvict (s : KvStore) : Prop :=
  s.cfg.hostBudgetBytes = 0 ∨ s.stats.hostBytes ≤ s.cfg.hostBudgetBytes ∨ World.victim s = none

variable (env) in
theorem SeqSound.evictLoop {n : Nat} (h : SeqSound w extra) (hsafe : EvictsAbove n w.store) :
    ∃ w', w.evictLoop env n = some w' ∧ SeqSound w' extra ∧ Frame w w' ∧
      (w' = w ∧ (n = 0 ∨ NothingToEvict w.store) ∨ w'.store.pageCount < w.store.pageCount ∧
        w'.store.pageCapacity = w.store.pageCapacity) := by
  induction n generalizing w with
  | zero => exact ⟨w, rfl, h, Frame.refl w, Or.inl ⟨rfl, Or.inl rfl⟩⟩
  | succ n ih =>
    unfold World.evictLoop
    by_cases hover : w.store.cfg.hostBudgetBytes < w.store.stats.hostBytes
    · rw [if_pos hover]
      cases hvictim : World.victim w.store with
      | none => exact ⟨w, rfl, h, Frame.refl w, Or.inl ⟨rfl, Or.inr (Or.inr (Or.inr hvictim))⟩⟩
      | some v =>
        obtain ⟨hv, hrefs⟩ := victim_some hvictim
        obtain ⟨habove, hrest⟩ := hsafe hover v hvictim
        have hnone : ∀ j, v ≤ j → j < w.store.pageCount → (w.store.cells j).refs = 0 := by
          intro j hj hlt
          rcases Nat.eq_or_lt_of_le hj with rfl | hj
          · exact hrefs
          · exact habove j hj hlt
        obtain ⟨w1, hevict, h1, hframe1, halike⟩ := h.evictPage env hv hnone
        obtain ⟨w2, hloop, h2, hframe2, hcount⟩ := ih h1 (hrest.congr halike)
        refine ⟨w2, by simp only [hevict, Option.bind_some, hloop], h2, hframe1.trans hframe2, ?_⟩
        have hshorter := halike.pageCount
        have hcapacity := halike.pageCapacity
        rw [closed_pageCount] at hshorter
        rw [closed_pageCapacity] at hcapacity
        rcases hcount with ⟨rfl, -⟩ | ⟨hlt, heq⟩
        · exact Or.inr ⟨by omega, hcapacity⟩
        · exact Or.inr ⟨by omega, heq.trans hcapacity⟩
    · rw [if_neg hover]
      exact ⟨w, rfl, h, Frame.refl w, Or.inl ⟨rfl, Or.inr (Or.inr (Or.inl (not_lt.1 hover)))⟩⟩

/-- Opening a page neither moves a referenced page down nor moves the array away from
under one. -/
structure PageSafe (env : Nat → Bool) (w : World) : Prop where
  evicts : w.store.cfg.hostBudgetBytes ≠ 0 → EvictsAbove w.store.pageCount w.store
  grows : NothingToEvict w.store → w.store.pageCount = w.store.pageCapacity →
    env w.ticks = true → env (w.ticks + 1) = true →
    ∀ i < w.store.pageCount, (w.store.cells i).refs = 0

theorem SeqSound.evictPages (h : SeqSound w extra) (hsafe : PageSafe env w) :
    ∃ w', w.evictPages env = some w' ∧ SeqSound w' extra ∧ Frame w w' ∧
      (w' = w ∧ NothingToEvict w.store ∨ w'.store.pageCount < w'.store.pageCapacity) := by
  unfold World.evictPages
  by_cases hbudget : w.store.cfg.hostBudgetBytes = 0
  · rw [if_pos hbudget]
    exact ⟨w, rfl, h, Frame.refl w, Or.inl ⟨rfl, Or.inl hbudget⟩⟩
  · rw [if_neg hbudget]
    obtain ⟨w', hloop, h', hframe, hcount⟩ := h.evictLoop env (hsafe.evicts hbudget)
    refine ⟨w', hloop, h', hframe, ?_⟩
    rcases hcount with ⟨heq, hzero | hnothing⟩ | ⟨hlt, hcapacity⟩
    · have hempty : World.victim w.store = none := by
        rw [World.victim, hzero, World.victimFrom]
      exact Or.inl ⟨heq, Or.inr (Or.inr hempty)⟩
    · exact Or.inl ⟨heq, hnothing⟩
    · rw [hcapacity]
      exact Or.inr (lt_of_lt_of_le hlt h.room)

theorem SeqSound.no_slots (h : SeqSound w extra)
    (hnone : ∀ i < w.store.pageCount, (w.store.cells i).refs = 0) : w.slots ++ extra = [] := by
  rw [List.eq_nil_iff_forall_not_mem]
  intro x hx
  obtain ⟨-, hlt, -⟩ := h.pages.denotes x hx
  have hzero := hnone _ hlt
  rw [h.pages.refs _ hlt] at hzero
  exact (refsTo_pos hx).ne' hzero

/-- The page goes to the end of the array, and its slot to the call under way. -/
theorem pushPage_sound {heap : Memory (List UInt8)} {block : Nat} {tier : Tier}
    (htokens : 0 < w.store.cfg.pageTokens)
    (hlengths : ∀ h q, w.seq h = some q → q.pages.length = World.pagesFor w.store.cfg q.tokens.length)
    (hheap : w.heap = heap.alloc (List.replicate (pageBytes w.store.cfg) 0))
    (hblock : block = heap.next) (hold : PagesSound w.store heap (w.slots ++ extra))
    (hroom : w.store.pageCount < w.store.pageCapacity) :
    SeqSound (w.pushPage block tier).2 ((w.pushPage block tier).1 :: extra) := by
  refine ⟨htokens, ?_, hlengths, hroom⟩
  have hpush : PagesSound (w.pushPage block tier).2.store
      (heap.alloc (List.replicate (pageBytes w.store.cfg) 0))
      (⟨⟨w.store.gen, w.store.pageCount⟩, heap.next⟩ :: (w.slots ++ extra)) :=
    hold.push (x := ⟨some block, pageBytes w.store.cfg, 1, inc64 w.store.clock, tier, false, 0⟩)
      (by rw [hblock]) rfl rfl rfl rfl rfl fun _ => rfl
  have hperm : ((w.pushPage block tier).2.slots ++ (w.pushPage block tier).1 :: extra).Perm
      (⟨⟨w.store.gen, w.store.pageCount⟩, heap.next⟩ :: (w.slots ++ extra)) := by
    rw [← hblock]
    exact List.perm_middle
  apply PagesSound.perm _ hperm
  rw [show (w.pushPage block tier).2.heap = w.heap from rfl, hheap]
  exact hpush

/-- `new_page` is defined where opening a page is safe, and keeps every other slot. -/
theorem SeqSound.newPage (h : SeqSound w extra) (hsafe : PageSafe env w) (tier : Tier) :
    ∃ slot w', w.newPage env tier = some (slot, w') ∧ Frame w w' ∧
      SeqSound w' (slot.toList ++ extra) := by
  unfold World.newPage
  dsimp only
  by_cases hbytes : pageBytes w.store.cfg = 0
  · rw [if_pos hbytes]
    exact ⟨none, w, rfl, Frame.refl w, h⟩
  · rw [if_neg hbytes]
    obtain ⟨w1, hevict, h1, hframe1, hroom⟩ := h.evictPages hsafe
    rw [hevict]
    simp only [Option.bind_eq_bind, Option.bind_some]
    by_cases hdevice : tier = .device ∧ w1.store.cfg.deviceBudgetBytes ≠ 0 ∧
        w1.store.cfg.deviceBudgetBytes <
          (w1.store.stats.deviceBytes + pageBytes w.store.cfg) % 2 ^ 64
    · rw [if_pos hdevice]
      exact ⟨none, w1, rfl, hframe1, h1⟩
    · rw [if_neg hdevice]
      unfold World.ask
      dsimp only
      by_cases halloc : env w1.ticks = false
      · rw [if_pos halloc]
        exact ⟨none, _, rfl, ⟨hframe1.seqs, hframe1.radixes, hframe1.cfg⟩, h1.ticks _⟩
      · rw [if_neg halloc, ← hframe1.cfg]
        rw [Bool.not_eq_false] at halloc
        unfold World.growPages
        dsimp only
        by_cases hfull : w1.store.pageCount = w1.store.pageCapacity
        · rw [if_pos hfull]
          unfold World.ask
          dsimp only
          by_cases hrealloc : env (w1.ticks + 1) = true
          · rw [if_pos hrealloc]
            have hnone : ∀ i < w1.store.pageCount, (w1.store.cells i).refs = 0 := by
              rcases hroom with ⟨heq, hnothing⟩ | hlt
              · rw [heq] at hfull halloc hrealloc ⊢
                exact hsafe.grows hnothing hfull halloc hrealloc
              · exact absurd hfull hlt.ne
            have hnil := h1.no_slots hnone
            have hmoved : PagesSound { w1.store with
                gen := w1.store.gen + 1
                pageCapacity := if w1.store.pageCapacity = 0 then 64
                  else w1.store.pageCapacity * 2 } w1.heap (w1.slots ++ extra) := by
              have hpages := h1.pages
              rw [hnil] at hpages ⊢
              exact hpages.move _ _
            refine ⟨_, _, rfl, ⟨hframe1.seqs, hframe1.radixes, hframe1.cfg⟩, ?_⟩
            have hroom' : w1.store.pageCount <
                if w1.store.pageCapacity = 0 then 64 else w1.store.pageCapacity * 2 := by
              split <;> omega
            exact pushPage_sound h1.tokens h1.lengths rfl rfl hmoved hroom'
          · rw [if_neg hrealloc, if_pos rfl, free_some (w1.heap.alloc_cells_self _)]
            refine ⟨none, _, rfl, ⟨hframe1.seqs, hframe1.radixes, hframe1.cfg⟩, ?_⟩
            refine ⟨h1.tokens, h1.pages.heap (Nat.le_succ _) ?_, h1.lengths, h1.room⟩
            intro b hb
            dsimp only
            rw [Memory.free_cells_of_ne hb.ne, Memory.alloc_cells_of_ne hb.ne]
        · rw [if_neg hfull, if_neg (by simp)]
          refine ⟨_, _, rfl, ⟨hframe1.seqs, hframe1.radixes, hframe1.cfg⟩, ?_⟩
          exact pushPage_sound h1.tokens h1.lengths rfl rfl h1.pages (lt_of_le_of_ne h1.room hfull)

end VgEngine.KvCache

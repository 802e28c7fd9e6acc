import VgEngine.KvCache.Owned
import VgEngine.Lib.Run

/-! Page identity over whole runs: along calls that move no referenced page, every slot
of a live sequence keeps denoting the page that was allocated for it. -/
namespace VgEngine.KvCache

variable {env : Nat → Bool} {w : World}

/-- The pointer of a slot reaches the page that was allocated for it, with its bytes. -/
def World.Denotes (w : World) (x : Slot) : Prop :=
  x.ptr.index < w.store.pageCount ∧ ∃ page, w.deref x.ptr = some page ∧
    page.data = some x.block ∧ page.spilled = false ∧
    w.heap.cells x.block = some (List.replicate (pageBytes w.store.cfg) 0)

/-- The page identity of a store. -/
structure PageIdentity (w : World) : Prop where
  denotes : ∀ h q, w.seq h = some q → ∀ x ∈ q.pages, w.Denotes x
  snapshots : ∀ h ∈ w.owned, (w.seq h).isSome
  refs : ∀ i < w.store.pageCount, (w.store.cells i).refs = refsTo w.slots i
  resident : ∀ i < w.store.pageCount, 0 < (w.store.cells i).refs →
    (w.store.cells i).spilled = false ∧
      ∃ b, (w.store.cells i).data = some b ∧ (w.heap.cells b).isSome

theorem Sound.pageIdentity (hw : Sound w) : PageIdentity w where
  denotes := by
    intro h q hq x hx
    have hmem : x ∈ w.slots ++ [] := List.mem_append_left _ (mem_slots hq hx)
    obtain ⟨-, hlt, hdata⟩ := hw.seqs.pages.denotes x hmem
    obtain ⟨hspilled, b, hb, -, hcontents⟩ := hw.seqs.pages.resident _ hlt
    rw [hdata] at hb
    obtain rfl := Option.some.inj hb
    exact ⟨hlt, _, deref_slot hw.seqs hmem, hdata, hspilled, hcontents⟩
  snapshots := hw.trees.live
  refs := by
    intro i hi
    have hrefs := hw.seqs.pages.refs i hi
    rwa [List.append_nil] at hrefs
  resident := by
    intro i hi _
    obtain ⟨hspilled, b, hb, -, hcontents⟩ := hw.seqs.pages.resident i hi
    exact ⟨hspilled, b, hb, by rw [hcontents]; rfl⟩

/-- A call on live handles. A snapshot is closed by its tree alone. -/
def Legal (w : World) : Call → Prop
  | .sequenceInit => True
  | .append h _ => (w.seq h).isSome
  | .fork src _ => (w.seq src).isSome
  | .close h => (w.seq h).isSome ∧ h ∉ w.owned
  | .pageAcquire h _ _ _ => (w.seq h).isSome
  | .radixOpen => True
  | .radixInsert r seq _ _ _ => r < w.radixes.length ∧ (w.seq seq).isSome
  | .radixLookup r _ => r < w.radixes.length
  | .radixInvalidate r => r < w.radixes.length

instance (w : World) : (call : Call) → Decidable (Legal w call)
  | .sequenceInit => inferInstanceAs (Decidable True)
  | .append h _ => inferInstanceAs (Decidable ((w.seq h).isSome = true))
  | .fork src _ => inferInstanceAs (Decidable ((w.seq src).isSome = true))
  | .close h => inferInstanceAs (Decidable ((w.seq h).isSome = true ∧ h ∉ w.owned))
  | .pageAcquire h _ _ _ => inferInstanceAs (Decidable ((w.seq h).isSome = true))
  | .radixOpen => inferInstanceAs (Decidable True)
  | .radixInsert r seq _ _ _ =>
    inferInstanceAs (Decidable (r < w.radixes.length ∧ (w.seq seq).isSome = true))
  | .radixLookup r _ => inferInstanceAs (Decidable (r < w.radixes.length))
  | .radixInvalidate r => inferInstanceAs (Decidable (r < w.radixes.length))

/-- A legal call that moves no referenced page, wraps no reference count and leaves no
closed snapshot in a tree. -/
def Safe (env : Nat → Bool) (w : World) (call : Call) : Prop :=
  Legal w call ∧
    match call with
    | .append h _ => AppendSafe env w h
    | .fork src count => ForkSafe w src count
    | .radixInsert r seq count _ _ => InsertSafe env w r seq count
    | _ => True

theorem radixOpen_sound (hw : Sound w) : Sound (w.radixOpen env).2 := by
  unfold World.radixOpen World.ask
  dsimp only
  split
  · exact ⟨hw.seqs.ticks _, hw.trees.nodup, hw.trees.live⟩
  · split
    · exact ⟨hw.seqs.ticks _, hw.trees.nodup, hw.trees.live⟩
    · have howned : World.owned
          { w with radixes := w.radixes ++ [.node [] .empty []], ticks := w.ticks + 1 + 1 } =
            w.owned := by
        unfold World.owned
        simp [snapshots_node, NodeData.empty]
      refine ⟨⟨hw.seqs.tokens, hw.seqs.pages, hw.seqs.lengths, hw.seqs.room⟩, ?_, ?_⟩
      · rw [howned]
        exact hw.trees.nodup
      · rw [howned]
        exact hw.trees.live

theorem withStats_sound (hw : Sound w) (stats : KvStats) :
    Sound (w.withStore { w.store with stats := stats }) where
  seqs := hw.seqs.of_frame ⟨rfl, rfl, rfl⟩ (hw.seqs.pages.of_eq rfl rfl rfl fun _ _ => rfl)
    hw.seqs.room
  trees := ⟨hw.trees.nodup, hw.trees.live⟩

theorem radixLookup_sound (hw : Sound w) {r : Nat} (hr : r < w.radixes.length)
    (tokens : List Nat) :
    ∃ result w', w.radixLookup r tokens = some (result, w') ∧ Sound w' := by
  unfold World.radixLookup
  rw [List.getElem?_eq_getElem hr]
  simp only [Option.bind_eq_bind, Option.bind_some]
  split
  · exact ⟨_, _, rfl, withStats_sound hw _⟩
  · exact ⟨_, _, rfl, withStats_sound hw _⟩

theorem sequenceClose_sound (hw : Sound w) {h : Nat} {q : KvSequence} (hq : w.seq h = some q)
    (hfree : h ∉ w.owned) : ∃ w', w.sequenceClose h = some w' ∧ Sound w' := by
  obtain ⟨w', hclose, h', hframe⟩ := hw.seqs.sequenceClose hq
  have howned : w'.owned = w.owned := congrArg (List.flatMap snapshots) hframe.radixes
  refine ⟨w', hclose, h', ?_, ?_⟩
  · rw [howned]
    exact hw.trees.nodup
  · intro k hk
    rw [howned] at hk
    have hne : k ≠ h := by
      intro heq
      rw [heq] at hk
      exact hfree hk
    rw [hframe.seq, seq_setSeq (seq_lt hq), if_neg hne]
    exact hw.trees.live k hk

/-- A safe call is defined and keeps the store sound. -/
theorem step_sound (hw : Sound w) {call : Call} (hsafe : Safe env w call) :
    ∃ w', w.step env call = some w' ∧ Sound w' := by
  obtain ⟨hlegal, hsafe⟩ := hsafe
  cases call with
  | sequenceInit =>
    obtain ⟨hseqs, hkept⟩ := hw.seqs.sequenceInit env
    exact ⟨_, rfl, hseqs, hw.trees.kept hkept⟩
  | append h token =>
    obtain ⟨q, hq⟩ := Option.isSome_iff_exists.1 hlegal
    obtain ⟨status, w', happend, h', hkept⟩ := hw.seqs.sequenceAppend hq hsafe token
    exact ⟨w', by rw [World.step, happend]; rfl, h', hw.trees.kept hkept⟩
  | fork src count =>
    obtain ⟨q, hq⟩ := Option.isSome_iff_exists.1 hlegal
    obtain ⟨result, w', hfork, h', hkept, -⟩ := hw.seqs.sequenceFork env hq hsafe
    exact ⟨w', by rw [World.step, hfork]; rfl, h', hw.trees.kept hkept⟩
  | close h =>
    obtain ⟨q, hq⟩ := Option.isSome_iff_exists.1 hlegal.1
    exact sequenceClose_sound hw hq hlegal.2
  | pageAcquire h layer token desired =>
    obtain ⟨q, hq⟩ := Option.isSome_iff_exists.1 hlegal
    obtain ⟨result, w', hacquire, h', hkept⟩ :=
      hw.seqs.pageAcquire env hq layer token desired
    exact ⟨w', by rw [World.step, hacquire]; rfl, h', hw.trees.kept hkept⟩
  | radixOpen => exact ⟨_, rfl, radixOpen_sound hw⟩
  | radixInsert r seq count fp tainted =>
    obtain ⟨q, hq⟩ := Option.isSome_iff_exists.1 hlegal.2
    obtain ⟨status, w', hinsert, h'⟩ :=
      hw.radixInsert (List.getElem?_eq_getElem hlegal.1) hq hsafe fp tainted
    exact ⟨w', by rw [World.step, hinsert]; rfl, h'⟩
  | radixLookup r tokens =>
    obtain ⟨result, w', hlookup, h'⟩ := radixLookup_sound hw hlegal tokens
    exact ⟨w', by rw [World.step, hlookup]; rfl, h'⟩
  | radixInvalidate r => exact hw.radixInvalidate (List.getElem?_eq_getElem hlegal)

theorem opened_sound {cfg : KvConfig} {store : KvStore} (hopen : kvOpen cfg = .ok store) :
    Sound (World.opened store) := by
  unfold kvOpen at hopen
  split at hopen
  · cases hopen
  · rename_i hzero
    split at hopen
    · cases hopen
    · obtain rfl := Except.ok.inj hopen
      refine ⟨⟨?_, ⟨by simp [World.opened, World.slots], ?_, ?_, ?_⟩, ?_, Nat.le_refl _⟩, ?_⟩
      · exact Nat.pos_of_ne_zero fun h => hzero (Or.inl h)
      · exact fun i hi => absurd hi (Nat.not_lt_zero i)
      · exact fun i j hi => absurd hi (Nat.not_lt_zero i)
      · exact fun i hi => absurd hi (Nat.not_lt_zero i)
      · intro h q hq
        simp [World.opened, World.seq] at hq
      · exact ⟨List.nodup_nil, fun k hk => absurd hk List.not_mem_nil⟩

/-- The run is defined, and page identity holds in every state of it. -/
def KeepsIdentity (env : Nat → Bool) (w : World) (calls : List Call) : Prop :=
  (∃ w', Run.exec (World.step env) w calls = some w') ∧
    Run.Always (World.step env) PageIdentity w calls

/-- Page identity holds along every run of safe calls. -/
theorem keepsIdentity_of_safe (env : Nat → Bool) {cfg : KvConfig} {store : KvStore}
    (hopen : kvOpen cfg = .ok store) {calls : List Call}
    (hsafe : Run.Guarded (World.step env) (Safe env) (World.opened store) calls) :
    KeepsIdentity env (World.opened store) calls := by
  have hstart := opened_sound hopen
  constructor
  · obtain ⟨w', hexec, -⟩ :=
      Run.exec_of_guarded (I := Sound) (fun s a hs ha => step_sound hs ha) hstart hsafe
    exact ⟨w', hexec⟩
  · have hsound : Run.Always (World.step env) Sound (World.opened store) calls := by
      apply Run.always_of_guarded _ hstart hsafe
      intro s call s' hs hcall hstep
      obtain ⟨s1, hstep', hs1⟩ := step_sound hs hcall
      rw [hstep] at hstep'
      obtain rfl := Option.some.inj hstep'
      exact hs1
    exact hsound.imp fun s hs => hs.pageIdentity

/-- One byte a page, and a budget of one page. -/
def tinyConfig : KvConfig := ⟨1, 1, 1, 1, 1, 1, 0, 0, false⟩

theorem keepsIdentity_tiny :
    KeepsIdentity (fun _ => true) (World.opened (.opened tinyConfig))
      [.sequenceInit, .append 0 7, .fork 0 1] := by
  have hopen : kvOpen tinyConfig = .ok (.opened tinyConfig) := rfl
  obtain ⟨hinit, -⟩ := (opened_sound hopen).seqs.sequenceInit fun _ => true
  refine keepsIdentity_of_safe _ hopen ?_
  rw [Run.guarded_cons rfl, Run.guarded_cons_iff]
  refine ⟨⟨trivial, trivial⟩, ⟨rfl, appendSafe_of_empty hinit rfl⟩, ?_⟩
  intro w2 hw2
  have hfork : ((World.step (fun _ => true)
      ((World.opened (.opened tinyConfig)).sequenceInit fun _ => true).2 (.append 0 7)).all
        fun w => decide ((w.seq 0).isSome ∧ ForkSafe w 0 1)) = true := by
    decide +kernel
  rw [hw2, Option.all_some, decide_eq_true_iff] at hfork
  rw [Run.guarded_cons_iff]
  exact ⟨hfork, fun _ _ => Run.guarded_nil⟩

/-- Closing the oldest page makes the next append move another sequence's page down. -/
def shiftCalls : List Call :=
  [.sequenceInit, .sequenceInit, .append 0 1, .append 1 2, .close 0, .sequenceInit, .append 2 3]

/-- What the handle 1 reaches at the end: its block, and the block of the page there. -/
def shifted (w : World) : Option (Nat × Option Nat) := do
  let q ← w.seq 1
  let x ← q.pages.head?
  let page ← w.deref x.ptr
  some (x.block, page.data)

theorem keepsIdentity_shifts :
    ¬ ∀ (env : Nat → Bool) (cfg : KvConfig) (store : KvStore) (calls : List Call),
      kvOpen cfg = .ok store →
      Run.Guarded (World.step env) Legal (World.opened store) calls →
      KeepsIdentity env (World.opened store) calls := by
  intro hclaim
  have hlegal : Run.Guarded (World.step fun _ => true) Legal (World.opened (.opened tinyConfig))
      shiftCalls :=
    Run.guarded_of_check (by decide +kernel)
  obtain ⟨⟨w, hexec⟩, halways⟩ := hclaim _ tinyConfig _ shiftCalls rfl hlegal
  have hend := halways shiftCalls w (List.prefix_refl _) hexec
  have hshift : (Run.exec (World.step fun _ => true) (World.opened (.opened tinyConfig))
      shiftCalls).bind shifted = some (1, some 2) := by
    decide +kernel
  rw [hexec, Option.bind_some] at hshift
  unfold shifted at hshift
  simp only [Option.bind_eq_bind, Option.bind_eq_some_iff] at hshift
  obtain ⟨q, hq, x, hx, page, hpage, hfound⟩ := hshift
  obtain ⟨-, page', hpage', hdata, -⟩ := hend.denotes 1 q hq x (List.mem_of_mem_head? hx)
  rw [hpage] at hpage'
  obtain rfl := Option.some.inj hpage'
  simp [hdata] at hfound
  omega

end VgEngine.KvCache

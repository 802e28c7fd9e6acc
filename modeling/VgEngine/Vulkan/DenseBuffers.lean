import VgEngine.Vulkan.Accounting
import VgEngine.Vulkan.DenseHead

/-! The buffers that the dense path acquires for a token: those of different slots are different, and
none of them is in the cache of the weights. -/
namespace VgEngine.Vulkan
open VgEngine.Lib CommandBuffer

section Pools

variable {driver : Driver} {v v' : VK} {loose : List Nat} {n b b' s s' : Nat} {p p' : Pool}
variable {bytes : UInt64}

/-- A slot that got a buffer holds it, and the other slots hold what they held. -/
theorem acquirePool_slot (h : v.acquirePool driver p s bytes = (.ok b, v')) :
    v'.slotBuffer p s = some b ∧ v'.cache = v.cache ∧
      ∀ p' s', ¬(p' = p ∧ s' = s) → v'.slotBuffer p' s' = v.slotBuffer p' s' := by
  have hrefill : ∀ {w : VK}, w.refill driver p s bytes = (.ok b, v') →
      v'.slotBuffer p s = some b ∧ v'.cache = w.cache ∧
        ∀ p' s', ¬(p' = p ∧ s' = s) → v'.slotBuffer p' s' = w.slotBuffer p' s' := by
    intro w hw
    unfold VK.refill at hw
    obtain ⟨status, allocated, calls, heq, -⟩ | ⟨mapped, heq, -, -⟩ :=
      makeBufferEx_cases driver w bytes (p = .devscratch)
    · rw [heq] at hw
      cases hw
    · rw [heq] at hw
      cases hw
      refine ⟨?_, rfl, fun p' s' hne => ?_⟩
      · rw [setPool_slotBuffer, if_pos ⟨rfl, rfl⟩]
        rfl
      · rw [setPool_slotBuffer, if_neg hne]
        rfl
  unfold VK.acquirePool at h
  split at h
  · cases h
  · split at h
    · exact hrefill h
    · rename_i size c hpool
      split at h
      · cases h
        exact ⟨slotBuffer_of_pool hpool, rfl, fun _ _ _ => rfl⟩
      · obtain ⟨hslot, hcache, hother⟩ := hrefill h
        obtain ⟨hsame, hpools⟩ : (v.destroyBuffer c).cache = v.cache ∧
            (v.destroyBuffer c).pools = v.pools := by
          unfold VK.destroyBuffer
          split <;> exact ⟨rfl, rfl⟩
        refine ⟨hslot, hcache.trans hsame, fun p' s' hne => (hother p' s' hne).trans ?_⟩
        unfold VK.slotBuffer
        rw [hpools]

theorem Owned.slot_lt (h : Owned v loose n) (hs : v.slotBuffer p s = some b) : s < n := by
  by_contra hle
  unfold VK.slotBuffer at hs
  rw [h.empty p s (Nat.not_lt.1 hle)] at hs
  cases hs

theorem Owned.holders_le (h : Owned v loose n) (b : Nat) : v.holders loose n b ≤ 1 := by
  rw [h.held b]
  split <;> decide

/-- A slot is one of the holders of its buffer. -/
theorem Owned.slot_holds (h : Owned v loose n) (hs : v.slotBuffer p s = some b) :
    (v.cache.map CacheItem.buf).count b + loose.count b + 1 ≤ v.holders loose n b := by
  have hpos : 0 < slotHolders (v.slotBuffer p) n b := slotHolders_pos (h.slot_lt hs) hs
  unfold VK.holders
  cases p <;> omega

/-- A buffer is in one slot only. -/
theorem Owned.slot_inj (h : Owned v loose n) (hs : v.slotBuffer p s = some b)
    (hs' : v.slotBuffer p' s' = some b) : p' = p ∧ s' = s := by
  by_contra hne
  obtain ⟨⟨size, c⟩, hpool, rfl⟩ := Option.map_eq_some_iff.1 hs
  have htaken := h.take_slot (h.slot_lt hs) hpool
  have hstays : (v.setPool p s none).slotBuffer p' s' = some c := by
    rw [setPool_slotBuffer, if_neg hne]
    exact hs'
  have hle := (htaken.slot_holds hstays).trans (htaken.holders_le c)
  rw [List.count_cons_self] at hle
  omega

/-- The buffer of a slot is not in the cache. -/
theorem Owned.slot_not_cached (h : Owned v loose n) (hs : v.slotBuffer p s = some b) :
    b ∉ v.cache.map CacheItem.buf := by
  intro hmem
  have hle := (h.slot_holds hs).trans (h.holders_le b)
  have hpos := List.count_pos_iff.2 hmem
  omega

/-- The buffers that were acquired since, each in its slot. -/
structure Acquired (loose : List Nat) (n : Nat) (cache : List CacheItem)
    (got : List ((Pool × Nat) × Nat)) (v : VK) : Prop where
  owned : Owned v loose n
  cache : v.cache = cache
  filled : ∀ e ∈ got, v.slotBuffer e.1.1 e.1.2 = some e.2

variable {cache : List CacheItem} {got : List ((Pool × Nat) × Nat)}

theorem Acquired.acquire (h : Acquired loose n cache got v) (hs : s < n)
    (hnew : (p, s) ∉ got.map Prod.fst) (hrun : v.acquirePool driver p s bytes = (.ok b, v')) :
    Acquired loose n cache (((p, s), b) :: got) v' := by
  obtain ⟨hslot, hcache, hother⟩ := acquirePool_slot hrun
  have howned : Owned (v.acquirePool driver p s bytes).2 loose n :=
    (acquirePool_carried h.owned hs bytes).owned
  rw [hrun] at howned
  refine ⟨howned, hcache.trans h.cache, fun e he => ?_⟩
  rcases List.mem_cons.1 he with rfl | he
  · exact hslot
  · rw [hother e.1.1 e.1.2 ?_]
    · exact h.filled e he
    · rintro ⟨hp, hs⟩
      exact hnew (List.mem_map.2 ⟨e, he, Prod.ext hp hs⟩)

/-- Different slots have different buffers. -/
theorem Acquired.ne (h : Acquired loose n cache got v) (hs : ((p, s), b) ∈ got)
    (hs' : ((p', s'), b') ∈ got) (hne : ¬(p' = p ∧ s' = s)) : b ≠ b' := by
  rintro rfl
  exact hne (h.owned.slot_inj (h.filled _ hs) (h.filled _ hs'))

theorem Acquired.not_cached (h : Acquired loose n cache got v) (hs : ((p, s), b) ∈ got) :
    b ∉ cache.map CacheItem.buf := by
  rw [← h.cache]
  exact h.owned.slot_not_cached (h.filled _ hs)

theorem not_mem_pool {p : Pool} {s : Nat} (h : ∀ e ∈ got, e.1.1 ≠ p ∨ e.1.2 ≠ s) :
    (p, s) ∉ got.map Prod.fst := by
  intro hmem
  obtain ⟨e, he, heq⟩ := List.mem_map.1 hmem
  rcases h e he with hp | hs
  · exact hp (congrArg Prod.fst heq)
  · exact hs (congrArg Prod.snd heq)

theorem not_mem_slots {p : Pool} {s : Nat} (h : ∀ e ∈ got, e.1.2 ≠ s) :
    (p, s) ∉ got.map Prod.fst :=
  not_mem_pool fun e he => Or.inr (h e he)

/-- Consecutive slots of a pool, acquired one after the other. -/
theorem slots_acquired {f : UInt64 × Nat → Work Nat} {base limit : Nat} {rs : List UInt64}
    {bs : List Nat} {k : Nat}
    (hf : ∀ r b (v v' : VK), r.2 < limit → (f r).on v = (.ok b, v') →
      v.acquirePool driver p (base + r.2) r.1 = (.ok b, v'))
    (h : Acquired loose n cache got v) (hn : base + k + rs.length ≤ n)
    (hlimit : k + rs.length ≤ limit)
    (hgot : ∀ e ∈ got, e.1.1 ≠ p ∨ e.1.2 < base + k ∨ base + k + rs.length ≤ e.1.2)
    (hrun : ((rs.zipIdx k).mapM f).on v = (.ok bs, v')) :
    ∃ got', got ⊆ got' ∧ Acquired loose n cache got' v' ∧
      (∀ e ∈ got', e ∈ got ∨
        e.1.1 = p ∧ base + k ≤ e.1.2 ∧ e.1.2 < base + k + rs.length) ∧
      ∀ i < rs.length, ((p, base + k + i), bs.getD i 0) ∈ got' := by
  induction rs generalizing k v got bs with
  | nil =>
    obtain ⟨rfl, rfl⟩ := Work.pure_ok hrun
    exact ⟨got, List.Subset.refl _, h, fun e he => Or.inl he, by simp⟩
  | cons size rs ih =>
    rw [List.zipIdx_cons, List.mapM_cons] at hrun
    obtain ⟨b, v₁, hb, hrun⟩ := Work.bind_ok hrun
    obtain ⟨bs', v₂, hrest, hrun⟩ := Work.bind_ok hrun
    obtain ⟨rfl, rfl⟩ := Work.pure_ok hrun
    rw [List.length_cons] at hn hlimit hgot ⊢
    have hb := hf _ _ _ _ (by dsimp only; omega) hb
    have hone := h.acquire (by dsimp only; omega) (not_mem_pool fun e he => by
      rcases hgot e he with hpool | hslot
      · exact Or.inl hpool
      · exact Or.inr (by dsimp only; omega)) hb
    obtain ⟨got', hsub, hacq, hslots, hbs⟩ := ih hone (by omega) (by omega) (by
      rw [List.forall_mem_cons]
      refine ⟨Or.inr (Or.inl (by dsimp only; omega)), fun e he => ?_⟩
      rcases hgot e he with hpool | hslot
      · exact Or.inl hpool
      · exact Or.inr (by omega)) hrest
    refine ⟨got', fun e he => hsub (List.mem_cons_of_mem _ he), hacq, fun e he => ?_,
      fun i hi => ?_⟩
    · rcases hslots e he with hmem | ⟨hpool, hslot⟩
      · rcases List.mem_cons.1 hmem with rfl | hmem
        · exact Or.inr ⟨rfl, by dsimp only; omega⟩
        · exact Or.inl hmem
      · exact Or.inr ⟨hpool, by omega⟩
    · cases i with
      | zero => exact hsub List.mem_cons_self
      | succ i =>
        have hmem := hbs i (by omega)
        rwa [show base + (k + 1) + i = base + k + (i + 1) by omega] at hmem

end Pools

section Token

variable {driver : Driver} {v v' : VK} {loose : List Nat} {n l : Nat} {cache : List CacheItem}
variable {got : List ((Pool × Nat) × Nat)} {cap : UInt32} {d d' : DenseLayer} {hidden : Option Nat}

/-- A layer without the buffers that are acquired for it. -/
def DenseLayer.given (d : DenseLayer) : DenseLayer := { d with kCache := 0, vCache := 0, hiddenDev := 0 }

theorem weights_of_given {L ds : List DenseLayer}
    (h : L.map DenseLayer.given = ds.map DenseLayer.given) :
    L.map DenseLayer.weights = ds.map DenseLayer.weights := by
  have hweights := congrArg (List.map DenseLayer.weights) h
  rwa [List.map_map, List.map_map] at hweights

/-- What a layer acquires: its caches, and the hidden state where there is none yet. -/
structure LayerGot (got : List ((Pool × Nat) × Nat)) (l : Nat) (d : DenseLayer) : Prop where
  below : l < 500
  keys : ((.devscratch, 1000 + 2 * l), d.kCache) ∈ got
  values : ((.devscratch, 1000 + (2 * l + 1)), d.vCache) ∈ got
  hidden : ((.devscratch, 2000), d.hiddenDev) ∈ got

/-- The slots in use before layer `l`. -/
def LayerSlots (l : Nat) (hidden : Option Nat) (got : List ((Pool × Nat) × Nat)) : Prop :=
  (∀ b ∈ hidden, ((.devscratch, 2000), b) ∈ got) ∧
    ∀ e ∈ got, e.1.1 = .devscratch ∧ (1000 ≤ e.1.2 ∧ e.1.2 < 1000 + 2 * l ∨
      e.1.2 = 2000 ∧ hidden.isSome)

theorem refuse_ok {P : Prop} [Decidable P] {status : Status} {a : Unit}
    (hrun : (refuse P status).on v = (.ok a, v')) : v' = v := by
  unfold refuse at hrun
  split at hrun
  · cases hrun
  · exact (Work.pure_ok hrun).2

theorem devbuf_ok {slot : UInt32} {bytes : UInt64} {b : Nat}
    (hrun : (devbuf driver slot bytes).on v = (.ok b, v')) :
    v.acquirePool driver .devscratch slot.toNat bytes = (.ok b, v') := hrun

theorem scratch_ok {slot : UInt32} {bytes : UInt64} {b : Nat}
    (hrun : (scratch driver slot bytes).on v = (.ok b, v')) :
    v.acquirePool driver .scratch slot.toNat bytes = (.ok b, v') := hrun

theorem denseLayer_acquired (h : Acquired loose n cache got v) (hn : 2000 < n) (hl : l < 500)
    (hgot : LayerSlots l hidden got)
    (hrun : (denseGpuLayerForward driver d l.toUInt32 cap hidden).on v = (.ok d', v')) :
    ∃ got', got ⊆ got' ∧ Acquired loose n cache got' v' ∧ LayerGot got' l d' ∧
      LayerSlots (l + 1) (some d'.hiddenDev) got' ∧ d'.given = d.given := by
  unfold denseGpuLayerForward at hrun
  obtain ⟨kc, v₁, hk, hrun⟩ := Work.bind_ok hrun
  obtain ⟨vc, v₂, hv, hrun⟩ := Work.bind_ok hrun
  have hk := devbuf_ok hk
  have hv := devbuf_ok hv
  rw [kSlot_toNat (by omega)] at hk
  rw [vSlot_toNat (by omega)] at hv
  have hkeys := h.acquire (by omega) (not_mem_slots fun e he => by
    have hslot := (hgot.2 e he).2
    omega) hk
  have hvalues := hkeys.acquire (by omega) (not_mem_slots (List.forall_mem_cons.2
    ⟨by dsimp only; omega, fun e he => by
      have hslot := (hgot.2 e he).2
      omega⟩)) hv
  cases hidden with
  | some b =>
    obtain ⟨rfl, rfl⟩ := Work.pure_ok hrun
    have hb := hgot.1 b rfl
    refine ⟨_, ?_, hvalues, ⟨hl, by simp, by simp, by simp [hb]⟩, ⟨by simp [hb], ?_⟩, rfl⟩
    · exact fun e he => List.mem_cons_of_mem _ (List.mem_cons_of_mem _ he)
    · simp only [List.forall_mem_cons, Option.isSome_some, and_true, true_and]
      refine ⟨by omega, by omega, fun e he => ?_⟩
      obtain ⟨hpool, hslot⟩ := hgot.2 e he
      exact ⟨hpool, by omega⟩
  | none =>
    obtain ⟨hid, v₃, hh, hrun⟩ := Work.bind_ok hrun
    obtain ⟨rfl, rfl⟩ := Work.pure_ok hrun
    have hhidden := hvalues.acquire (s := 2000) (by omega) (not_mem_slots (by
      simp only [List.forall_mem_cons]
      refine ⟨by omega, by omega, fun e he => ?_⟩
      have hslot := (hgot.2 e he).2
      simp at hslot
      omega)) (devbuf_ok hh)
    refine ⟨_, ?_, hhidden, ⟨hl, by simp, by simp, by simp⟩, ⟨by simp, ?_⟩, rfl⟩
    · exact fun e he => List.mem_cons_of_mem _ (List.mem_cons_of_mem _ (List.mem_cons_of_mem _ he))
    · simp only [List.forall_mem_cons, Option.isSome_some, and_true, true_and]
      refine ⟨by simp, by omega, by omega, fun e he => ?_⟩
      obtain ⟨hpool, hslot⟩ := hgot.2 e he
      simp only [Option.isSome_none, Bool.false_eq_true, and_false, or_false] at hslot
      exact ⟨hpool, by omega⟩

/-- The layers of a token share the hidden state, and their caches are in slots of their own. -/
theorem denseLayers_acquired {ds L : List DenseLayer} (h : Acquired loose n cache got v)
    (hn : 2000 < n) (hl : l + ds.length ≤ 500) (hgot : LayerSlots l hidden got)
    (hrun : (denseLayers driver cap ds l.toUInt32 hidden).on v = (.ok L, v')) :
    ∃ got', got ⊆ got' ∧ Acquired loose n cache got' v' ∧
      (∀ e ∈ got', e.1.1 = .devscratch ∧ 1000 ≤ e.1.2) ∧
      (∀ d ∈ L, ∃ j, LayerGot got' j d) ∧ L.map DenseLayer.given = ds.map DenseLayer.given := by
  induction ds generalizing v l hidden got L with
  | nil =>
    obtain ⟨rfl, rfl⟩ := Work.pure_ok hrun
    refine ⟨got, List.Subset.refl _, h, fun e he => ?_, by simp, rfl⟩
    obtain ⟨hpool, hslot⟩ := hgot.2 e he
    exact ⟨hpool, by omega⟩
  | cons d ds ih =>
    obtain ⟨d', v₁, hd, hrun⟩ := Work.bind_ok hrun
    obtain ⟨L', v₂, hrest, hrun⟩ := Work.bind_ok hrun
    obtain ⟨rfl, rfl⟩ := Work.pure_ok hrun
    rw [List.length_cons] at hl
    obtain ⟨got₁, hsub, hacq, hgot₁, hslots, hgiven⟩ :=
      denseLayer_acquired h hn (by omega) hgot hd
    have hnext : l.toUInt32 + 1 = (l + 1).toUInt32 := by
      apply UInt32.toNat.inj
      simp
    rw [hnext] at hrest
    obtain ⟨got₂, hsub₂, hacq₂, hslots₂, hL, hgiven₂⟩ := ih hacq (by omega) hslots hrest
    refine ⟨got₂, fun e he => hsub₂ (hsub he), hacq₂, hslots₂, ?_, ?_⟩
    · rw [List.forall_mem_cons]
      exact ⟨⟨l, hgot₁.below, hsub₂ hgot₁.keys, hsub₂ hgot₁.values, hsub₂ hgot₁.hidden⟩, hL⟩
    · rw [List.map_cons, List.map_cons, hgiven, hgiven₂]

theorem actSlot_toNat {i : Nat} (h : i < 20) : (actSlot i).toNat = 600 + i := by
  unfold actSlot
  simp only [UInt32.toNat_add, UInt32.toNat_ofNat, Nat.toUInt32_eq, UInt32.toNat_ofNat']
  omega

/-- The buffers of a recorded token. -/
structure TokenBuffers (B : Nat → Nat) (L : List DenseLayer) (out : Option Nat)
    (logits : Option (FinalHead × Nat × Nat)) : Prop where
  acts : (acts B).Nodup
  layers : ∀ d ∈ L, LayerApart B d
  hidden : ∀ d ∈ L, ∀ d' ∈ L, d.hiddenDev = d'.hiddenDev
  staged : ∀ b ∈ out, b ∉ Vulkan.acts B
  head : ∀ r ∈ logits, HeadApart B out r.2.1 r.2.2

/-- No layer writes what a layer reads only. -/
def Undisturbed (L : List DenseLayer) : Prop :=
  ∀ d ∈ L, ∀ e ∈ L, ∀ w ∈ d.weights, w ∉ [e.kCache, e.vCache, e.hiddenDev]

/-- What the final head and the staging buffers add to the buffers of a token. -/
structure HeadGot (got : List ((Pool × Nat) × Nat)) (out : Option Nat)
    (logits : Option (FinalHead × Nat × Nat)) : Prop where
  out : ∀ b ∈ out, ((.scratch, 601), b) ∈ got
  logits : ∀ r ∈ logits, ((.devscratch, 620), r.2.1) ∈ got ∧ ((.scratch, 602), r.2.2) ∈ got

theorem prepared_of_acquired {B : Nat → Nat} {L : List DenseLayer} {out : Option Nat}
    {logits : Option (FinalHead × Nat × Nat)} (h : Acquired loose n cache got v)
    (hacts : ∀ i < 20, ((.devscratch, 600 + i), B i) ∈ got)
    (hL : ∀ d ∈ L, ∃ j, LayerGot got j d)
    (hweights : ∀ d ∈ L, ∀ w ∈ d.weights, w ∈ cache.map CacheItem.buf)
    (hextra : HeadGot got out logits) : TokenBuffers B L out logits := by
  have hout : ∀ {p s b}, ((p, s), b) ∈ got → ¬(p = .devscratch ∧ 600 ≤ s ∧ s < 620) →
      b ∉ acts B := by
    intro p s b hb hs hmem
    obtain ⟨i, hi, rfl⟩ := List.mem_map.1 hmem
    have hi := List.mem_range.1 hi
    exact h.ne hb (hacts i hi) (by rintro ⟨rfl, rfl⟩; exact hs ⟨rfl, by omega, by omega⟩) rfl
  have hcached : ∀ {p s b w}, ((p, s), b) ∈ got → w ∈ cache.map CacheItem.buf → w ≠ b := by
    rintro p s b w hb hw rfl
    exact h.not_cached hb hw
  refine ⟨?_, fun d hd => ?_, fun d hd d' hd' => ?_, fun b hb => ?_, fun r hr => ?_⟩
  · refine List.Nodup.map_on (fun i hi j hj heq => ?_) List.nodup_range
    by_contra hne
    have hi := List.mem_range.1 hi
    have hj := List.mem_range.1 hj
    exact h.ne (hacts i hi) (hacts j hj) (by omega) heq
  · obtain ⟨j, hgot⟩ := hL d hd
    refine ⟨hout hgot.hidden (by omega), hout hgot.keys (by omega), hout hgot.values (by omega),
      fun w hw => ?_, h.ne hgot.keys hgot.values (by omega), ?_, ?_⟩
    · have hw := hweights d hd w hw
      simp only [List.mem_cons, not_or]
      refine ⟨hcached hgot.keys hw, hcached hgot.values hw, fun hmem => ?_⟩
      obtain ⟨i, hi, heq⟩ := List.mem_map.1 hmem
      exact hcached (hacts i (List.mem_range.1 hi)) hw heq.symm
    · have hbelow := hgot.below
      exact h.ne hgot.hidden hgot.keys (by omega)
    · have hbelow := hgot.below
      exact h.ne hgot.hidden hgot.values (by omega)
  · obtain ⟨j, hgot⟩ := hL d hd
    obtain ⟨j', hgot'⟩ := hL d' hd'
    have hsame := h.filled _ hgot.hidden
    rw [h.filled _ hgot'.hidden] at hsame
    exact (Option.some.inj hsame).symm
  · exact hout (hextra.out b hb) (by simp)
  · obtain ⟨hlogits, hstaging⟩ := hextra.logits r hr
    have hten := hacts 10 (by decide)
    exact ⟨fun b hb => h.ne (hextra.out b hb) hten (by simp), h.ne hlogits hten (by simp),
      h.ne hstaging hten (by simp)⟩

theorem HeadGot.mono {got' : List ((Pool × Nat) × Nat)} {out : Option Nat}
    {logits : Option (FinalHead × Nat × Nat)} (h : HeadGot got out logits) (hsub : got ⊆ got') :
    HeadGot got' out logits :=
  ⟨fun b hb => hsub (h.out b hb), fun r hr => ⟨hsub (h.logits r hr).1, hsub (h.logits r hr).2⟩⟩

/-- A staging buffer, where one is needed. -/
theorem acquireIf_acquired {P : Prop} [Decidable P] {slot : UInt32} {bytes : UInt64}
    {r : Option Nat} (h : Acquired loose n cache got v) (hn : slot.toNat < n)
    (hnew : (.scratch, slot.toNat) ∉ got.map Prod.fst)
    (hrun : (acquireIf driver P slot bytes).on v = (.ok r, v')) :
    ∃ got', Acquired loose n cache got' v' ∧ got ⊆ got' ∧
      (∀ e ∈ got', e ∈ got ∨ e.1 = (.scratch, slot.toNat)) ∧
      ∀ b ∈ r, ((.scratch, slot.toNat), b) ∈ got' := by
  unfold acquireIf at hrun
  split at hrun
  · obtain ⟨b, v₁, hb, hrun⟩ := Work.bind_ok hrun
    obtain ⟨rfl, rfl⟩ := Work.pure_ok hrun
    refine ⟨_, h.acquire hn hnew (scratch_ok hb), List.subset_cons_self _ _, ?_, by simp⟩
    rw [List.forall_mem_cons]
    exact ⟨Or.inr rfl, fun e he => Or.inl he⟩
  · obtain ⟨rfl, rfl⟩ := Work.pure_ok hrun
    exact ⟨got, h, List.Subset.refl _, fun e he => Or.inl he, by simp⟩

theorem acquireHead_acquired {d₀ : DenseLayer} {head : Option FinalHead}
    {r : Option (FinalHead × Nat × Nat)} (h : Acquired loose n cache got v) (hn : 2000 < n)
    (hgot : ∀ e ∈ got, e.1.1 = .devscratch ∧ (e.1.2 < 620 ∨ 1000 ≤ e.1.2))
    (hrun : (acquireHead driver d₀ head).on v = (.ok r, v')) :
    ∃ got', Acquired loose n cache got' v' ∧ got ⊆ got' ∧ r.map Prod.fst = head ∧
      (∀ e ∈ got', e ∈ got ∨ e.1 = (.devscratch, 620) ∨ e.1 = (.scratch, 602)) ∧
      ∀ x ∈ r, ((.devscratch, 620), x.2.1) ∈ got' ∧ ((.scratch, 602), x.2.2) ∈ got' := by
  cases head with
  | none =>
    obtain ⟨rfl, rfl⟩ := Work.pure_ok hrun
    exact ⟨got, h, List.Subset.refl _, rfl, fun e he => Or.inl he, by simp⟩
  | some head =>
    obtain ⟨_, v₁, hrefuse, hrun⟩ := Work.bind_ok hrun
    obtain ⟨logits, v₂, hlogits, hrun⟩ := Work.bind_ok hrun
    obtain ⟨staging, v₃, hstaging, hrun⟩ := Work.bind_ok hrun
    obtain ⟨rfl, rfl⟩ := Work.pure_ok hrun
    obtain rfl := refuse_ok hrefuse
    have hlogits : v₁.acquirePool driver .devscratch 620 _ = (.ok logits, v₂) := devbuf_ok hlogits
    have hstaging : v₂.acquirePool driver .scratch 602 _ = (.ok staging, v') := scratch_ok hstaging
    have hone := h.acquire (by omega) (not_mem_slots fun e he => by
      have hslot := (hgot e he).2
      omega) hlogits
    have htwo := hone.acquire (by omega) (not_mem_pool (List.forall_mem_cons.2
      ⟨Or.inl (by simp), fun e he => Or.inl (by simp [(hgot e he).1])⟩)) hstaging
    refine ⟨_, htwo, fun e he => List.mem_cons_of_mem _ (List.mem_cons_of_mem _ he), rfl, ?_, ?_⟩
    · simp only [List.forall_mem_cons]
      exact ⟨by simp, by simp, fun e he => Or.inl he⟩
    · rintro x hx
      cases hx
      exact ⟨by simp, by simp⟩

theorem denseForwardImpl_prepared {L : List DenseLayer} {head : Option FinalHead}
    {rings : Rings} {r : List Command × Rings} (h : Acquired loose n cache got v) (hn : 2000 < n)
    (hgot : ∀ e ∈ got, e.1.1 = .devscratch ∧ 1000 ≤ e.1.2)
    (hL : ∀ d ∈ L, ∃ j, LayerGot got j d)
    (hweights : ∀ d ∈ L, ∀ w ∈ d.weights, w ∈ cache.map CacheItem.buf)
    (hrun : (denseForwardImpl driver L head rings).on v = (.ok r, v')) :
    ∃ B input out d₀ last logits, L.head? = some d₀ ∧ L.getLast? = some last ∧
      logits.map Prod.fst = head ∧ TokenBuffers B L out logits ∧
        r = record B input out d₀ last L logits rings := by
  unfold denseForwardImpl at hrun
  split at hrun
  · rename_i d₀ last hhead hlast
    obtain ⟨_, v₁, h₁, hrun⟩ := Work.bind_ok hrun
    obtain ⟨_, v₂, h₂, hrun⟩ := Work.bind_ok hrun
    obtain ⟨_, v₃, h₃, hrun⟩ := Work.bind_ok hrun
    obtain ⟨bs, v₄, hbs, hrun⟩ := Work.bind_ok hrun
    rw [(refuse_ok h₃).trans ((refuse_ok h₂).trans (refuse_ok h₁))] at hbs
    obtain ⟨logits, v₅, hlogits, hrun⟩ := Work.bind_ok hrun
    obtain ⟨input, v₆, hinput, hrun⟩ := Work.bind_ok hrun
    obtain ⟨out, v₇, hout, hrun⟩ := Work.bind_ok hrun
    obtain ⟨rfl, rfl⟩ := Work.pure_ok hrun
    obtain ⟨got₁, hsub₁, hacq₁, hslots₁, hacts⟩ := slots_acquired
      (f := fun r => devbuf driver (actSlot r.2) r.1)
      (fun r b v v' hr hrun => actSlot_toNat hr ▸ devbuf_ok hrun) h (by simp [actSizes]; omega)
      (by simp [actSizes]) (fun e he => Or.inr (Or.inr (by
        have hslot := (hgot e he).2
        simp [actSizes]
        omega))) hbs
    have hslots₁ : ∀ e ∈ got₁, e.1.1 = .devscratch ∧ (e.1.2 < 620 ∨ 1000 ≤ e.1.2) := by
      intro e he
      rcases hslots₁ e he with hmem | ⟨hpool, -, hslot⟩
      · exact ⟨(hgot e hmem).1, Or.inr (hgot e hmem).2⟩
      · exact ⟨hpool, Or.inl (by simpa [actSizes] using hslot)⟩
    obtain ⟨got₂, hacq₂, hsub₂, hsame, hslots₂, hlogits⟩ := acquireHead_acquired hacq₁ hn hslots₁
      hlogits
    have hscratch : ∀ e ∈ got₂, e.1.1 = .scratch → e.1.2 = 602 := fun e he hpool => by
      rcases hslots₂ e he with hmem | heq | heq
      · simp [(hslots₁ e hmem).1] at hpool
      · simp [heq] at hpool
      · simp [heq]
    obtain ⟨got₃, hacq₃, hsub₃, hslots₃, -⟩ := acquireIf_acquired hacq₂
      (by rw [show (600 : UInt32).toNat = 600 from rfl]; omega)
      (not_mem_pool fun e he => by
        rw [← not_and_or]
        rintro ⟨hpool, hslot⟩
        rw [hscratch e he hpool] at hslot
        exact absurd hslot (by decide)) hinput
    obtain ⟨got₄, hacq₄, hsub₄, -, hstaged⟩ := acquireIf_acquired hacq₃
      (by rw [show (601 : UInt32).toNat = 601 from rfl]; omega)
      (not_mem_pool fun e he => by
        rw [← not_and_or]
        rintro ⟨hpool, hslot⟩
        rcases hslots₃ e he with hmem | heq
        · rw [hscratch e hmem hpool] at hslot
          exact absurd hslot (by decide)
        · rw [heq] at hslot
          exact absurd hslot (by decide)) hout
    have hsub : got₁ ⊆ got₄ := fun e he => hsub₄ (hsub₃ (hsub₂ he))
    refine ⟨_, input, out, d₀, last, logits, hhead, hlast, hsame,
      prepared_of_acquired hacq₄ (fun i hi => hsub ?_) (fun d hd => ?_) hweights
        ⟨hstaged, fun r hr => ?_⟩, rfl⟩
    · simpa using hacts i hi
    · obtain ⟨j, hj⟩ := hL d hd
      exact ⟨j, hj.below, hsub (hsub₁ hj.keys), hsub (hsub₁ hj.values), hsub (hsub₁ hj.hidden)⟩
    · exact ⟨hsub₄ (hsub₃ (hlogits r hr).1), hsub₄ (hsub₃ (hlogits r hr).2)⟩
  · cases hrun

/-- What the dense path records, it records with buffers that are apart. -/
theorem denseForward_prepared {ds : List DenseLayer} {head : Option FinalHead}
    {rings rings' : Rings} {cs : List Command} (hown : Owned v loose n)
    (hhidden : ∀ b ∈ hidden, v.slotBuffer .devscratch 2000 = some b)
    (hweights : ∀ d ∈ ds, ∀ w ∈ d.weights, w ∈ v.cache.map CacheItem.buf)
    (hlen : ds.length ≤ 500)
    (hrun : (denseForward driver cap ds hidden head rings).on v = (.ok (cs, rings'), v')) :
    ∃ B input out d₀ last logits L, L.head? = some d₀ ∧ L.getLast? = some last ∧
      logits.map Prod.fst = head ∧ L.map DenseLayer.given = ds.map DenseLayer.given ∧
        TokenBuffers B L out logits ∧ Undisturbed L ∧ cs = (record B input out d₀ last L logits rings).1 := by
  have hstart : Acquired loose (max n 2001) v.cache
      (hidden.toList.map fun b => ((.devscratch, 2000), b)) v := by
    refine ⟨hown.mono (Nat.le_max_left _ _), rfl, fun e he => ?_⟩
    obtain ⟨b, hb, rfl⟩ := List.mem_map.1 he
    exact hhidden b (Option.mem_toList.1 hb)
  have hslots : LayerSlots 0 hidden (hidden.toList.map fun b => ((.devscratch, 2000), b)) := by
    cases hidden <;> simp [LayerSlots]
  have hn : 2000 < max n 2001 := by omega
  obtain ⟨L, v₁, hlayers, himpl⟩ := Work.bind_ok hrun
  obtain ⟨got, -, hacq, hgot, hL, hsame⟩ :=
    denseLayers_acquired (l := 0) hstart hn (by omega) hslots hlayers
  have hwL : ∀ d ∈ L, ∀ w ∈ d.weights, w ∈ v.cache.map CacheItem.buf := by
    intro d hd w hw
    have hmem : d.weights ∈ ds.map DenseLayer.weights :=
      weights_of_given hsame ▸ List.mem_map_of_mem hd
    obtain ⟨d', hd', heq⟩ := List.mem_map.1 hmem
    exact hweights d' hd' w (heq ▸ hw)
  obtain ⟨B, input, out, d₀, last, logits, hhead, hlast, hfst, hprepared, hr⟩ :=
    denseForwardImpl_prepared hacq hn hgot hL hwL himpl
  have hkept : Undisturbed L := by
    intro d hd e he w hw
    obtain ⟨j, hgot⟩ := hL e he
    have hne : ∀ {p s b}, ((p, s), b) ∈ got → w ≠ b := by
      rintro p s b hb rfl
      exact hacq.not_cached hb (hwL d hd w hw)
    simp [hne hgot.keys, hne hgot.values, hne hgot.hidden]
  exact ⟨B, input, out, d₀, last, logits, L, hhead, hlast, hfst, hsame, hprepared, hkept,
    congrArg Prod.fst hr⟩

end Token

end VgEngine.Vulkan

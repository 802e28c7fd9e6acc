import VgEngine.KvCache.Lineage

/-! The byte size of a page and the windows of its layers. The products are taken in 64 bits, and
`vg_kv_open` only refuses those that become zero. -/
namespace VgEngine.KvCache

/-- The size of a page without the 64 bits. -/
def exactBytes (cfg : KvConfig) : Nat :=
  cfg.nLayers * cfg.kvHeads * cfg.headDim * cfg.elementBytes * cfg.pageTokens

section Windows

variable {cfg : KvConfig} {layer other : Nat}

theorem exactBytes_layers (cfg : KvConfig) : exactBytes cfg =
    cfg.nLayers * (cfg.kvHeads * cfg.headDim * cfg.elementBytes * cfg.pageTokens) := by
  simp only [exactBytes, Nat.mul_assoc]

theorem pageBytes_exact (hfits : exactBytes cfg < 2 ^ 64) : pageBytes cfg = exactBytes cfg :=
  Nat.mod_eq_of_lt hfits

/-- The parts of the layers fill the page. -/
theorem layers_fill (hlayers : 0 < cfg.nLayers) (hfits : exactBytes cfg < 2 ^ 64) :
    cfg.nLayers * layerBytes cfg = pageBytes cfg := by
  have hone : layerBytes cfg = cfg.kvHeads * cfg.headDim * cfg.elementBytes * cfg.pageTokens := by
    apply Nat.mod_eq_of_lt
    rw [exactBytes_layers] at hfits
    exact (Nat.le_mul_of_pos_left _ hlayers).trans_lt hfits
  rw [hone, pageBytes_exact hfits, exactBytes_layers]

theorem window_le (hfits : exactBytes cfg < 2 ^ 64) (hlayer : layer < cfg.nLayers) :
    layerOffset cfg layer = layer * layerBytes cfg ∧
      (layer + 1) * layerBytes cfg ≤ pageBytes cfg := by
  have hend : (layer + 1) * layerBytes cfg ≤ pageBytes cfg := by
    rw [← layers_fill (Nat.zero_lt_of_lt hlayer) hfits]
    exact Nat.mul_le_mul_right _ hlayer
  have hpage : pageBytes cfg < 2 ^ 64 := Nat.mod_lt _ (by decide)
  refine ⟨Nat.mod_eq_of_lt ?_, hend⟩
  rw [Nat.succ_mul] at hend
  omega

theorem window_inside (hfits : exactBytes cfg < 2 ^ 64) (hlayer : layer < cfg.nLayers) :
    layerOffset cfg layer + layerBytes cfg ≤ pageBytes cfg := by
  obtain ⟨hstart, hend⟩ := window_le hfits hlayer
  rw [hstart, ← Nat.succ_mul]
  exact hend

theorem window_before (hfits : exactBytes cfg < 2 ^ 64) (hother : other < cfg.nLayers)
    (hlt : layer < other) :
    layerOffset cfg layer + layerBytes cfg ≤ layerOffset cfg other := by
  rw [(window_le hfits (hlt.trans hother)).1, (window_le hfits hother).1, ← Nat.succ_mul]
  exact Nat.mul_le_mul_right _ hlt

end Windows

section Property

variable {env : Nat → Bool} {w w' : World} {h : Nat}

theorem pageAcquire_window {layer token start size : Nat} {desired : Tier} {data : Option Nat}
    (hacquire : w.pageAcquire env h layer token desired = some (.ok (data, start, size), w')) :
    layer < w.store.cfg.nLayers ∧ start = layerOffset w.store.cfg layer ∧
      size = layerBytes w.store.cfg := by
  have hcfg := (pageAcquire_seqs hacquire).2.1
  obtain ⟨q, -, hacquire⟩ := Option.bind_eq_some_iff.1 hacquire
  split at hacquire
  · cases hacquire
  · rename_i hbounds
    obtain ⟨slot, -, hacquire⟩ := Option.bind_eq_some_iff.1 hacquire
    obtain ⟨page, -, hacquire⟩ := Option.bind_eq_some_iff.1 hacquire
    generalize w.faultPage env slot.ptr.index = faulted at hacquire
    obtain ⟨ok, w1⟩ := faulted
    dsimp only at hacquire
    split at hacquire
    · cases hacquire
    · obtain ⟨hresult, rfl⟩ := Prod.mk.inj (Option.some.inj hacquire)
      cases hresult
      exact ⟨not_le.1 fun hle => hbounds (.inl hle), congrArg (layerOffset · layer) hcfg,
        congrArg layerBytes hcfg⟩

/-- The size of a page is exact, and the windows of its layers, as they are handed out, lie in it
and apart from each other. -/
structure PageArithmetic (cfg : KvConfig) : Prop where
  exact : pageBytes cfg = exactBytes cfg
  inside : ∀ env (w w' : World) h layer token desired data start size, w.store.cfg = cfg →
    w.pageAcquire env h layer token desired = some (.ok (data, start, size), w') →
    start + size ≤ pageBytes cfg
  apart : ∀ env (w w' w'' : World) h layer layer' token desired data data' start start' size size',
    w.store.cfg = cfg → layer ≠ layer' →
    w.pageAcquire env h layer token desired = some (.ok (data, start, size), w') →
    w.pageAcquire env h layer' token desired = some (.ok (data', start', size'), w'') →
    start + size ≤ start' ∨ start' + size' ≤ start

/-- The arithmetic is right exactly for the configurations whose pages have a size of 64 bits. -/
theorem pageArithmetic_iff {cfg : KvConfig} {store : KvStore} (hopen : kvOpen cfg = .ok store) :
    PageArithmetic store.cfg ↔
      cfg.nLayers * cfg.kvHeads * cfg.headDim * cfg.elementBytes * cfg.pageTokens < 2 ^ 64 := by
  have hcfg : exactBytes store.cfg =
      cfg.nLayers * cfg.kvHeads * cfg.headDim * cfg.elementBytes * cfg.pageTokens := by
    unfold kvOpen at hopen
    split_ifs at hopen
    obtain rfl := Except.ok.inj hopen
    rfl
  rw [← hcfg]
  constructor
  · intro harithmetic
    rw [← harithmetic.exact]
    exact Nat.mod_lt _ (by decide)
  · intro hfits
    refine ⟨pageBytes_exact hfits, ?_, ?_⟩
    · intro env w w' h layer token desired data start size heq hacquire
      obtain ⟨hlayer, rfl, rfl⟩ := pageAcquire_window hacquire
      rw [heq] at hlayer ⊢
      exact window_inside hfits hlayer
    · intro env w w' w'' h layer layer' token desired data data' start start' size size' heq hne
        hacquire hacquire'
      obtain ⟨hlayer, rfl, rfl⟩ := pageAcquire_window hacquire
      obtain ⟨hlayer', rfl, rfl⟩ := pageAcquire_window hacquire'
      rw [heq] at hlayer hlayer' ⊢
      rcases Nat.lt_or_gt_of_ne hne with hlt | hlt
      · exact .inl (window_before hfits hlayer' hlt)
      · exact .inr (window_before hfits hlayer hlt)

/-- Two layers of one byte. -/
theorem pageArithmetic_twoLayers :
    PageArithmetic (KvStore.opened ⟨1, 2, 1, 1, 1, 0, 0, 0, false⟩).cfg := by
  have hopen : kvOpen ⟨1, 2, 1, 1, 1, 0, 0, 0, false⟩ =
      .ok (.opened ⟨1, 2, 1, 1, 1, 0, 0, 0, false⟩) := rfl
  exact (pageArithmetic_iff hopen).2 (by decide)

/-- `193 * 65537 * 22253377` is `2 ^ 48 + 1`, so the page of these sizes has `2 ^ 16` bytes. -/
def wrappingConfig : KvConfig := ⟨1, 193, 65537, 22253377, 65536, 0, 0, 0, false⟩

theorem pageArithmetic_wraps : ¬ ∀ (cfg : KvConfig) (store : KvStore), cfg.nLayers < 2 ^ 32 →
    cfg.kvHeads < 2 ^ 32 → cfg.headDim < 2 ^ 32 → cfg.elementBytes < 2 ^ 32 →
    cfg.pageTokens < 2 ^ 32 → kvOpen cfg = .ok store → PageArithmetic store.cfg := by
  intro hclaim
  have hopen : kvOpen wrappingConfig = .ok (.opened wrappingConfig) := rfl
  have hexact := (hclaim wrappingConfig _ (by decide) (by decide) (by decide) (by decide) (by decide)
    hopen).exact
  exact absurd hexact (by decide)

end Property

end VgEngine.KvCache

import VgEngine.Vulkan.Dense

/-! How many descriptor sets and which slots a token of the dense path uses. -/
namespace VgEngine.Vulkan

/-- The descriptor sets a layer takes from a pipeline. -/
def perLayer : Pipeline → Nat
  | .matvecQ8_0 => 7
  | .actQuant => 4
  | .rmsnorm | .ropeAdj | .residAdd => 2
  | .swiglu | .attnScores => 1

/-- The descriptor sets the final head takes from a pipeline. -/
def perHead : Pipeline → Nat
  | .matvecQ8_0 | .rmsnorm | .actQuant => 1
  | .ropeAdj | .swiglu | .residAdd | .attnScores => 0

section Sets

variable {p q : Pipeline} {rings : Rings} {n : Nat}

theorem take_fst (i : Fin n) : (rings.take p n).1 i = (rings p).nth i :=
  (rings p).iterate_next i

theorem take_self : (rings.take p n).2 p = RingIndex.advance^[n] (rings p) :=
  Function.update_self _ _ _

theorem take_of_ne (h : q ≠ p) : (rings.take p n).2 q = rings q :=
  Function.update_of_ne h _ _

theorem setsOf_append (cs cs' : List Command) :
    setsOf p (cs ++ cs') = setsOf p cs ++ setsOf p cs' :=
  List.filterMap_append

theorem setsOf_copies {α : Type*} (f : α → Nat × Nat) (l : List α) :
    setsOf p (l.map fun a => Command.copy (f a).1 (f a).2) = [] := by
  induction l with
  | nil => rfl
  | cons a l ih => exact ih

/-- Some work of a recording took the next `n` sets of a pipeline. -/
structure Takes (p : Pipeline) (n : Nat) (rings : Rings) (r : List Command × Rings) : Prop where
  sets : setsOf p r.1 = (List.range n).map (rings p).nth
  rings : r.2 p = RingIndex.advance^[n] (rings p)

theorem Takes.append {m : Nat} {r r' : List Command × Rings} (h : Takes p m rings r)
    (h' : Takes p n r.2 r') : Takes p (m + n) rings (r.1 ++ r'.1, r'.2) := by
  constructor
  · have hnth : ∀ k, (r.2 p).nth k = (rings p).nth (m + k) := by
      intro k
      rw [h.rings, RingIndex.nth_iterate]
    rw [setsOf_append, h.sets, h'.sets, List.range_add, List.map_append, List.map_map]
    congr 1
    exact List.map_congr_left fun k _ => hnth k
  · rw [h'.rings, h.rings, ← Function.iterate_add_apply, Nat.add_comm]

/-- Copies take no sets. -/
theorem Takes.copies {α : Type*} {r : List Command × Rings} (h : Takes p n rings r)
    (f : α → Nat × Nat) (l : List α) :
    Takes p n rings (r.1 ++ l.map fun a => Command.copy (f a).1 (f a).2, r.2) := by
  refine ⟨?_, h.rings⟩
  rw [setsOf_append, setsOf_copies, List.append_nil]
  exact h.sets

theorem recordLayer_takes (B : Nat → Nat) (d : DenseLayer) (rings : Rings) (p : Pipeline) :
    Takes p (perLayer p) rings (recordLayer B d rings) := by
  unfold recordLayer
  constructor
  · cases p <;> simp [setsOf, take_fst, take_of_ne, perLayer, List.range_succ]
  · cases p <;> simp [take_self, take_of_ne, perLayer]

theorem recordHead_takes (B : Nat → Nat) (head : FinalHead) (hidden logits staging : Nat)
    (rings : Rings) (p : Pipeline) :
    Takes p (perHead p) rings (recordHead B head hidden logits staging rings) := by
  unfold recordHead
  constructor
  · cases p <;> simp [setsOf, take_fst, take_of_ne, perHead, List.range_succ]
  · cases p <;> simp [take_self, take_of_ne, perHead]

theorem recordLayers_takes (B : Nat → Nat) (out : Option Nat) (L : List DenseLayer) (rings : Rings)
    (p : Pipeline) : Takes p (L.length * perLayer p) rings (recordLayers B out L rings) := by
  induction L generalizing rings with
  | nil =>
    rw [List.length_nil, Nat.zero_mul]
    exact ⟨rfl, rfl⟩
  | cons d L ih =>
    have hlayer := recordLayer_takes B d rings p
    rw [List.length_cons, Nat.succ_mul, Nat.add_comm, recordLayers]
    dsimp only
    split
    · exact (hlayer.copies (fun b => (d.hiddenDev, b)) out.toList).append (ih _)
    · rw [List.append_nil]
      exact hlayer.append (ih _)

/-- The sets a token takes, in the order of the ring. -/
theorem record_takes (B : Nat → Nat) (input out : Option Nat) (d₀ last : DenseLayer)
    (L : List DenseLayer) (head : Option (FinalHead × Nat × Nat)) (rings : Rings) (p : Pipeline) :
    Takes p (L.length * perLayer p + if head.isSome then perHead p else 0) rings
      (record B input out d₀ last L head rings) := by
  have hlayers := recordLayers_takes B out L rings p
  have hcopied : Takes p (L.length * perLayer p) rings
      (input.toList.map (fun b => Command.copy b d₀.hiddenDev) ++ (recordLayers B out L rings).1,
        (recordLayers B out L rings).2) := by
    refine ⟨?_, hlayers.rings⟩
    rw [setsOf_append, setsOf_copies fun b => (b, d₀.hiddenDev), List.nil_append]
    exact hlayers.sets
  cases head with
  | none => exact hcopied
  | some r => exact hcopied.append (recordHead_takes B r.1 last.hiddenDev r.2.1 r.2.2 _ p)

/-- Every pipeline gets distinct sets exactly as long as the products with the weights fit. -/
theorem record_nodup_iff (B : Nat → Nat) (input out : Option Nat) (d₀ last : DenseLayer)
    (L : List DenseLayer) (head : Option (FinalHead × Nat × Nat)) (rings : Rings) :
    (∀ p, (setsOf p (record B input out d₀ last L head rings).1).Nodup) ↔ L.length ≤ 146 := by
  have hsets : ∀ p, (setsOf p (record B input out d₀ last L head rings).1).Nodup ↔
      L.length * perLayer p + (if head.isSome then perHead p else 0) ≤ descRing := by
    intro p
    rw [(record_takes B input out d₀ last L head rings p).sets, RingIndex.nodup_nth]
  constructor
  · intro hnodup
    have hmatvec := (hsets .matvecQ8_0).1 (hnodup .matvecQ8_0)
    rw [perLayer, descRing] at hmatvec
    omega
  · intro hle p
    rw [hsets]
    have hlayer : perLayer p ≤ 7 := by cases p <;> decide
    have hhead : (if head.isSome then perHead p else 0) ≤ 1 := by
      split
      · cases p <;> decide
      · exact Nat.zero_le 1
    have hmul : L.length * perLayer p ≤ 146 * 7 := Nat.mul_le_mul hle hlayer
    unfold descRing
    omega

end Sets

section Slots

variable {n : Nat}

theorem kSlot_toNat {l : Nat} (h : l < 2 ^ 30) : (kSlot l.toUInt32).toNat = 1000 + 2 * l := by
  unfold kSlot
  simp only [UInt32.toNat_add, UInt32.toNat_mul, UInt32.toNat_ofNat, Nat.toUInt32_eq,
    UInt32.toNat_ofNat']
  omega

theorem vSlot_toNat {l : Nat} (h : l < 2 ^ 30) :
    (vSlot l.toUInt32).toNat = 1000 + (2 * l + 1) := by
  unfold vSlot
  rw [UInt32.toNat_add, kSlot_toNat h, UInt32.toNat_one]
  omega

/-- The caches of the layers are in slots of their own. -/
theorem cacheSlots_toNat (h : n ≤ 2 ^ 30) :
    ((List.range n).flatMap fun l => [kSlot l.toUInt32, vSlot l.toUInt32]).map UInt32.toNat =
      (List.range (2 * n)).map (1000 + ·) := by
  induction n with
  | zero => rfl
  | succ n ih =>
    rw [List.range_succ, List.flatMap_append, List.map_append, ih (by omega), Nat.mul_succ,
      List.range_succ, List.range_succ, List.flatMap_singleton, List.map_cons, List.map_cons,
      kSlot_toNat (by omega), vSlot_toNat (by omega)]
    simp

theorem actSlots_toNat : ((List.range 20).map actSlot).map UInt32.toNat =
    (List.range 20).map (600 + ·) := by decide

/-- The K cache of layer 500 is in the slot of the hidden state. -/
theorem denseSlots_nodup_iff (head : Bool) : (denseSlots n head).Nodup ↔ n ≤ 500 := by
  constructor
  · intro hnodup
    by_contra hlt
    apply (List.nodup_cons.1 hnodup).1
    rw [List.mem_append, List.mem_append]
    refine Or.inl (Or.inl ?_)
    rw [List.mem_flatMap]
    refine ⟨500, List.mem_range.2 (by omega), ?_⟩
    have hslot : hiddenSlot = kSlot (500 : Nat).toUInt32 := by decide
    rw [hslot]
    exact List.mem_cons_self
  · intro hle
    apply List.Nodup.of_map UInt32.toNat
    have hlogits : (if head then [logitsSlot] else []).map UInt32.toNat =
        if head then [620] else [] := by
      cases head <;> rfl
    have hrange : ∀ b k, ((List.range k).map (b + ·)).Nodup := fun b k =>
      List.nodup_range.map fun _ _ heq => Nat.add_left_cancel heq
    unfold denseSlots
    rw [List.map_cons, List.map_append, List.map_append, cacheSlots_toNat (by omega),
      actSlots_toNat, hlogits, List.nodup_cons, List.nodup_append, List.nodup_append]
    have hhidden : hiddenSlot.toNat = 2000 := rfl
    have hmem : ∀ b k a, a ∈ (List.range k).map (b + ·) → b ≤ a ∧ a < b + k := by
      intro b k a ha
      obtain ⟨j, hj, rfl⟩ := List.mem_map.1 ha
      have hlt := List.mem_range.1 hj
      omega
    have hhead : ∀ a, a ∈ (if head then [620] else []) → a = 620 := by
      cases head <;> simp
    rw [hhidden]
    refine ⟨?_, ⟨hrange _ _, hrange _ _, ?_⟩, ?_, ?_⟩
    · rw [List.mem_append, List.mem_append]
      rintro ((ha | ha) | ha)
      · have hbounds := hmem _ _ _ ha
        omega
      · have hbounds := hmem _ _ _ ha
        omega
      · have heq := hhead _ ha
        omega
    · intro a ha b hb
      have hbounds := hmem _ _ _ ha
      have hbounds' := hmem _ _ _ hb
      omega
    · cases head <;> simp
    · intro a ha b hb
      have heq := hhead _ hb
      rcases List.mem_append.1 ha with ha | ha
      · have hbounds := hmem _ _ _ ha
        omega
      · have hbounds := hmem _ _ _ ha
        omega

end Slots

section Runs

variable {α β : Type} {driver : Driver} {v v' : VK}

/-- What the work makes of a device. -/
def Work.on (w : Work α) (v : VK) : Except Status α × VK := w v

theorem Work.bind_ok {w : Work α} {f : α → Work β} {b : β}
    (h : (w >>= f).on v = (.ok b, v')) : ∃ a u, w.on v = (.ok a, u) ∧ (f a).on u = (.ok b, v') := by
  have hbind : (w >>= f).on v = ExceptT.bindCont f (w.on v).1 (w.on v).2 := rfl
  rw [hbind] at h
  cases hw : w.on v with
  | mk r u =>
    rw [hw] at h
    cases r with
    | error status => cases h
    | ok a => exact ⟨a, u, rfl, h⟩

theorem Work.pure_ok {a b : α} (h : (pure a : Work α).on v = (.ok b, v')) : b = a ∧ v' = v := by
  cases h
  exact ⟨rfl, rfl⟩

/-- A token that is recorded is recorded with all its layers. -/
theorem denseForwardImpl_record {L : List DenseLayer} {head : Option FinalHead} {rings : Rings}
    {r : List Command × Rings} (h : (denseForwardImpl driver L head rings).on v = (.ok r, v')) :
    ∃ B input out d₀ last logits, r = record B input out d₀ last L logits rings := by
  unfold denseForwardImpl at h
  split at h
  · rename_i d₀ last _ _
    obtain ⟨_, v, -, h⟩ := Work.bind_ok h
    obtain ⟨_, v, -, h⟩ := Work.bind_ok h
    obtain ⟨_, v, -, h⟩ := Work.bind_ok h
    obtain ⟨bs, v, -, h⟩ := Work.bind_ok h
    obtain ⟨logits, v, -, h⟩ := Work.bind_ok h
    obtain ⟨input, v, -, h⟩ := Work.bind_ok h
    obtain ⟨out, v, -, h⟩ := Work.bind_ok h
    obtain ⟨rfl, -⟩ := Work.pure_ok h
    exact ⟨_, input, out, d₀, last, logits, rfl⟩
  · cases h

theorem denseLayers_length {cap layer : UInt32} {ds L : List DenseLayer} {hidden : Option Nat}
    (h : (denseLayers driver cap ds layer hidden).on v = (.ok L, v')) : L.length = ds.length := by
  induction ds generalizing v v' layer hidden L with
  | nil =>
    obtain ⟨rfl, -⟩ := Work.pure_ok h
    rfl
  | cons d ds ih =>
    obtain ⟨d', v, -, h⟩ := Work.bind_ok h
    obtain ⟨L', v, hrest, h⟩ := Work.bind_ok h
    obtain ⟨rfl, -⟩ := Work.pure_ok h
    rw [List.length_cons, List.length_cons, ih hrest]

theorem denseForward_nodup_iff {cap : UInt32} {ds : List DenseLayer} {hidden : Option Nat}
    {head : Option FinalHead} {rings rings' : Rings} {cs : List Command}
    (h : (denseForward driver cap ds hidden head rings).on v = (.ok (cs, rings'), v')) :
    (∀ p, (setsOf p cs).Nodup) ↔ ds.length ≤ 146 := by
  obtain ⟨L, u, hlayers, himpl⟩ := Work.bind_ok h
  obtain ⟨B, input, out, d₀, last, logits, hrecord⟩ := denseForwardImpl_record himpl
  have hsets := record_nodup_iff B input out d₀ last L logits rings
  rwa [← hrecord, denseLayers_length hlayers] at hsets

/-- When the dense path runs, every pipeline takes distinct descriptor sets for the command buffer
of a token, and the token's slots are distinct, exactly up to 146 layers. -/
theorem dense_distinct_iff (driver : Driver) (cap : UInt32) (ds : List DenseLayer)
    (hidden : Option Nat) (head : Option FinalHead) (rings rings' : Rings) (v v' : VK)
    (cs : List Command)
    (hrun : (denseForward driver cap ds hidden head rings).on v = (.ok (cs, rings'), v')) :
    (∀ p, (setsOf p cs).Nodup) ∧ (denseSlots ds.length head.isSome).Nodup ↔ ds.length ≤ 146 := by
  rw [denseForward_nodup_iff hrun, denseSlots_nodup_iff]
  omega

def smallLayer : DenseLayer :=
  ⟨1, 2, 3, 4, 5, 6, 7, none, 0, 0, 8, 9, 10, 11, 12, 13, 14, 15, 16, 0, true, true, true, true,
    32, 1, 1, 32, 32, 32, 32⟩

/-- The token of a model of equal layers, on a device just opened. -/
def smallToken (n : Nat) : Except Status (List Command × Rings) × VK :=
  (denseForward roomyDriver 16 (List.replicate n smallLayer) none none
    fun _ => ⟨0, by decide⟩).on (VK.opened 0x1000000 0)

theorem smallToken_ok {n : Nat} (hok : (smallToken n).1.isOk = true) :
    ∃ cs rings v, smallToken n = (.ok (cs, rings), v) := by
  cases hrun : smallToken n with
  | mk r v =>
    rw [hrun] at hok
    cases r with
    | error status => cases hok
    | ok r => exact ⟨r.1, r.2, v, rfl⟩

theorem dense_distinct_small : ∃ cs rings v, smallToken 1 = (.ok (cs, rings), v) ∧
    ((∀ p, (setsOf p cs).Nodup) ∧ (denseSlots 1 false).Nodup ↔ 1 ≤ 146) := by
  obtain ⟨cs, rings, v, hrun⟩ := smallToken_ok (n := 1) (by decide +kernel)
  exact ⟨cs, rings, v, hrun, dense_distinct_iff roomyDriver 16 [smallLayer] none none
    (fun _ => ⟨0, by decide⟩) rings (VK.opened 0x1000000 0) v cs hrun⟩

/-- From 147 layers on, the matrix products of the last layer take sets of the first. -/
theorem dense_aliases : ¬ ∀ driver cap ds hidden head rings rings' v v' cs,
    (denseForward driver cap ds hidden head rings).on v = (.ok (cs, rings'), v') →
      (∀ p, (setsOf p cs).Nodup) ∧ (denseSlots ds.length head.isSome).Nodup := by
  intro h
  obtain ⟨cs, rings, v, hrun⟩ := smallToken_ok (n := 147) (by decide +kernel)
  have hnodup := (h _ _ _ _ _ _ rings _ v cs hrun).1
  rw [denseForward_nodup_iff hrun, List.length_replicate] at hnodup
  omega

end Runs

end VgEngine.Vulkan

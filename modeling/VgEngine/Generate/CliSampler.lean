import VgEngine.Generate.Sampler
import VgEngine.Generate.Loop

/-! The sampler of the command line: the filters zero probabilities in place, and a draw is looked
up in the cumulative sum of what they leave, from the second token on. -/
namespace VgEngine.Generate
open Finset Cumulative Speculative

/-- Which of the buffers of `sample_token` could be allocated. -/
structure SampleAlloc where
  probs : Bool
  tmp : Bool
  idx : Bool

/-- What `sample_token` is given beside the logits and the random state. -/
structure SampleConfig (K : Type*) where
  nVocab : Nat
  temperature : K
  topK : Int
  topP : K
  repeatPenalty : K
  hist : List Int

section Model

variable {K : Type*} [Field K] [LinearOrder K]

/-- The repetition penalty of a build without the full engine. -/
def scalePenalty (logits : Nat → K) (nVocab : Nat) (hist : List Int) (penalty : K) : Nat → K :=
  if penalty = 1 then logits
  else hist.foldl (fun l t =>
    if t < 0 ∨ nVocab ≤ t.toNat then l
    else if 0 < l t.toNat then Function.update l t.toNat (l t.toNat / penalty)
    else if l t.toNat < 0 then Function.update l t.toNat (l t.toNat * penalty)
    else l) logits

/-- The logits with the penalty, divided by the temperature. -/
def scaledLogits (full : Bool) (cfg : SampleConfig K) (logits : Nat → K) (i : Nat) : K :=
  (if full then vgApplyRepetitionPenalty logits cfg.nVocab cfg.hist cfg.repeatPenalty
    else scalePenalty logits cfg.nVocab cfg.hist cfg.repeatPenalty) i / cfg.temperature

/-- The softmax. -/
def softmaxOf (exp : K → K) (logits : Nat → K) (nVocab : Nat) (i : Nat) : K :=
  exp (logits i - logits (argmax logits nVocab)) /
    ∑ j ∈ range nVocab, exp (logits j - logits (argmax logits nVocab))

/-- Two cells of an array exchanged. -/
def swapAt {α : Type*} (a : Nat → α) (i j : Nat) : Nat → α :=
  fun k => if k = i then a j else if k = j then a i else a k

/-- The first `k` passes of a selection sort, from the largest value down. -/
def selectTop (a : Nat → K) (n : Nat) : Nat → Nat → K
  | 0 => a
  | k + 1 => swapAt (selectTop a n k) k (argmaxFrom (selectTop a n k) (n - (k + 1)) (k + 1) k)

/-- The limit on the number of tokens; without its buffer there is none. -/
def topKFilter (tmp : Bool) (probs : Nat → K) (nVocab : Nat) (topK : Int) : Nat → K :=
  if 0 < topK ∧ topK.toNat < nVocab ∧ tmp = true then
    fun i => if probs i < selectTop probs nVocab topK.toNat (topK.toNat - 1) then 0 else probs i
  else probs

/-- The selection sort of the indices, up to the one at which the sum reaches `topP`, and the number
of those that stay. -/
def nucleusLoop (probs : Nat → K) (topP : K) (n : Nat) :
    Nat → Nat → (Nat → Nat) → K → (Nat → Nat) × Nat
  | 0, _, idx, _ => (idx, n)
  | left + 1, i, idx, cum =>
    let idx := swapAt idx i (argmaxFrom (fun j => probs (idx j)) (n - (i + 1)) (i + 1) i)
    let cum := cum + probs (idx i)
    if topP ≤ cum then (idx, i + 1) else nucleusLoop probs topP n left (i + 1) idx cum

/-- Zero the tokens at the indices from `cutoff` on. -/
def zeroFrom (probs : Nat → K) (idx : Nat → Nat) (n cutoff : Nat) : Nat → K :=
  (List.range' cutoff (n - cutoff)).foldl (fun p i => Function.update p (idx i) 0) probs

/-- Divide by the sum, if that is positive. -/
def renormalise (probs : Nat → K) (n : Nat) : Nat → K :=
  if 0 < ∑ i ∈ range n, probs i then fun i => probs i / ∑ i ∈ range n, probs i else probs

/-- The limit on the mass of the tokens; without its buffer there is none. -/
def topPFilter (idx : Bool) (probs : Nat → K) (nVocab : Nat) (topP : K) : Nat → K :=
  if 0 < topP ∧ topP < 1 ∧ idx = true then
    let (order, cutoff) := nucleusLoop probs topP nVocab nVocab 0 id 0
    renormalise (zeroFrom probs order nVocab cutoff) nVocab
  else probs

/-- What the filters leave of the probabilities. -/
def filtered (exp : K → K) (full : Bool) (alloc : SampleAlloc) (cfg : SampleConfig K)
    (logits : Nat → K) : Nat → K :=
  topPFilter alloc.idx (topKFilter alloc.tmp (softmaxOf exp (scaledLogits full cfg logits) cfg.nVocab)
    cfg.nVocab cfg.topK) cfg.nVocab cfg.topP

/-- The end of `sample_token`, for a draw. -/
def lookUp (probs : Nat → K) (nVocab : Nat) (r : K) : Nat :=
  (firstReach probs r (nVocab - 1) 1 (probs 0)).getD 0

/-- The token for a draw, at a positive temperature. -/
def tokenFor (exp : K → K) (full : Bool) (alloc : SampleAlloc) (cfg : SampleConfig K)
    (logits : Nat → K) (r : K) : Nat :=
  if alloc.probs then lookUp (filtered exp full alloc cfg logits) cfg.nVocab r
  else argmax (scaledLogits full cfg logits) cfg.nVocab

/-- `sample_token`: the token, and the random state after it. -/
def sampleToken (exp : K → K) (full : Bool) (alloc : SampleAlloc) (cfg : SampleConfig K)
    (logits : Nat → K) (rng : Nat) : Nat × Nat :=
  if cfg.temperature ≤ 0 then (argmax logits cfg.nVocab, rng)
  else if alloc.probs then
    (tokenFor exp full alloc cfg logits (((nextRng rng / 2 ^ 16 : Nat) : K) / 65536), nextRng rng)
  else (tokenFor exp full alloc cfg logits 0, rng)

end Model

section Lookup

variable {K : Type*} [Field K] [LinearOrder K] [IsStrictOrderedRing K] {left : Nat → K}
variable {n t : Nat} {r : K}

/-- The draws for which the scan ends with token `t`. It starts behind token 0, which is also what a
draw gets that the sum does not reach. -/
def FoundAt (left : Nat → K) (n : Nat) (r : K) (t : Nat) : Prop :=
  if t = 0 then n = 1 ∨ ∑ j ∈ range n, left j < r
  else r ≤ ∑ j ∈ range (t + 1), left j ∧ (t = 1 ∨ ∑ j ∈ range t, left j < r)

theorem lookUp_eq_iff (hleft : ∀ j < n, 0 ≤ left j) (ht : t < n) :
    lookUp left n r = t ↔ FoundAt left n r t := by
  have hsum (m : Nat) : left 0 + ∑ j ∈ Ico 1 (m + 1), left j = ∑ j ∈ range (m + 1), left j := by
    rw [range_eq_Ico, sum_eq_sum_Ico_succ_bot (Nat.succ_pos m)]
  unfold lookUp FoundAt
  by_cases hzero : t = 0
  · rw [if_pos hzero, hzero]
    have hnone : (firstReach left r (n - 1) 1 (left 0)).getD 0 = 0 ↔
        firstReach left r (n - 1) 1 (left 0) = none := by
      cases hfound : firstReach left r (n - 1) 1 (left 0) with
      | none => simp
      | some x =>
        have hlow := (firstReach_eq_some_iff.1 hfound).1
        simp
        omega
    rw [hnone, firstReach_eq_none_iff]
    simp only [hsum]
    constructor
    · intro hbelow
      by_cases hone : n = 1
      · exact Or.inl hone
      · right
        have hlast := hbelow (n - 1) (by omega) (by omega)
        rwa [Nat.sub_add_cancel (by omega)] at hlast
    · rintro (hone | hlast) y hlo hhi
      · omega
      · exact (sum_range_le hleft (show y + 1 ≤ n by omega)).trans_lt hlast
  · rw [if_neg hzero]
    have hsome : (firstReach left r (n - 1) 1 (left 0)).getD 0 = t ↔
        firstReach left r (n - 1) 1 (left 0) = some t := by
      cases hfound : firstReach left r (n - 1) 1 (left 0) with
      | none => simpa using Ne.symm hzero
      | some x => simp
    rw [hsome, firstReach_eq_some_iff]
    simp only [hsum]
    constructor
    · rintro ⟨-, -, hreach, hbelow⟩
      refine ⟨hreach, ?_⟩
      by_cases hone : t = 1
      · exact Or.inl hone
      · right
        have hlast := hbelow (t - 1) (by omega) (by omega)
        rwa [Nat.sub_add_cancel (by omega)] at hlast
    · rintro ⟨hreach, hlast⟩
      refine ⟨by omega, by omega, hreach, fun y hlo hhi => ?_⟩
      refine lt_of_le_of_lt ?_ (hlast.resolve_left (by omega))
      exact sum_range_le (fun j hj => hleft j (by omega)) (by omega)

end Lookup

section Swaps

variable {α : Type*} {a : Nat → α} {i j : Nat}

theorem swapAt_eq (a : Nat → α) (i j : Nat) : swapAt a i j = a ∘ Equiv.swap i j := by
  funext k
  rw [Function.comp_apply, Equiv.swap_apply_def]
  unfold swapAt
  split
  · rfl
  · split <;> rfl

theorem swapAt_injective (h : Function.Injective a) : Function.Injective (swapAt a i j) := by
  rw [swapAt_eq]
  exact h.comp (Equiv.swap i j).injective

theorem swapAt_of_ne {k : Nat} (hi : k ≠ i) (hj : k ≠ j) : swapAt a i j k = a k := by
  unfold swapAt
  rw [if_neg hi, if_neg hj]

theorem swapAt_left : swapAt a i j i = a j := if_pos rfl

end Swaps

section Left

variable {K : Type*} [Field K] [LinearOrder K] [IsStrictOrderedRing K]

/-- Weights of `n` tokens that can be drawn from. -/
structure Drawable (p : Nat → K) (n : Nat) : Prop where
  nonneg : ∀ i, 0 ≤ p i
  pos : ∃ i < n, 0 < p i

variable {p : Nat → K} {n : Nat}

theorem Drawable.sum_pos (h : Drawable p n) : 0 < ∑ i ∈ range n, p i := by
  obtain ⟨i, hi, hpos⟩ := h.pos
  exact hpos.trans_le (single_le_sum (fun j _ => h.nonneg j) (mem_range.2 hi))

theorem drawable_softmaxOf {exp : K → K} (hexp : ∀ x, 0 < exp x) (logits : Nat → K) (hn : 0 < n) :
    Drawable (softmaxOf exp logits n) n := by
  have htotal : 0 < ∑ j ∈ range n, exp (logits j - logits (argmax logits n)) :=
    Finset.sum_pos (fun j _ => hexp _) ⟨0, mem_range.2 hn⟩
  exact ⟨fun i => (div_pos (hexp _) htotal).le, 0, hn, div_pos (hexp _) htotal⟩

omit [IsStrictOrderedRing K] [Field K] in
theorem argmaxFrom_lt (a : Nat → K) {i : Nat} (hi : i < n) :
    argmaxFrom a (n - (i + 1)) (i + 1) i < n := by
  rcases argmaxFrom_mem a (n - (i + 1)) (i + 1) i with heq | ⟨-, hlt⟩
  · rw [heq]
    exact hi
  · omega

omit [IsStrictOrderedRing K] [Field K] in
/-- The sort moves the values about. -/
theorem selectTop_mem (a : Nat → K) {k : Nat} (hk : k ≤ n) {i : Nat} (hi : i < n) :
    ∃ j < n, selectTop a n k i = a j := by
  induction k generalizing i with
  | zero => exact ⟨i, hi, rfl⟩
  | succ k ih =>
    rw [selectTop]
    unfold swapAt
    split
    · exact ih (by omega) (argmaxFrom_lt _ hk)
    · split
      · exact ih (by omega) hk
      · exact ih (by omega) hi

omit [IsStrictOrderedRing K] in
theorem Drawable.topKFilter (h : Drawable p n) (tmp : Bool) (topK : Int) :
    Drawable (topKFilter tmp p n topK) n := by
  unfold Generate.topKFilter
  split
  · rename_i hcut
    obtain ⟨j, hj, hthresh⟩ := selectTop_mem p (k := topK.toNat) hcut.2.1.le
      (show topK.toNat - 1 < n by omega)
    rw [hthresh]
    constructor
    case nonneg =>
      intro i
      split
      · exact le_refl 0
      · exact h.nonneg i
    case pos =>
      -- a token of the largest probability stays
      obtain ⟨i, hi, hpos⟩ := h.pos
      by_cases hlt : p i < p j
      · exact ⟨j, hj, by rw [if_neg (lt_irrefl _)]; exact hpos.trans hlt⟩
      · exact ⟨i, hi, by rwa [if_neg hlt]⟩
  · exact h

/-- The sort of the indices from pass `i` on only moves those from there on. -/
structure SortedFrom (i : Nat) (idx : Nat → Nat) (result : (Nat → Nat) × Nat) : Prop where
  injective : Function.Injective result.1
  before : ∀ k < i, result.1 k = idx k
  cutoff : i < result.2

omit [IsStrictOrderedRing K] in
theorem nucleusLoop_sortedFrom (p : Nat → K) (topP : K) {left i : Nat} {idx : Nat → Nat} (cum : K)
    (hn : i + left = n) (hleft : 0 < left) (hinj : Function.Injective idx) :
    SortedFrom i idx (nucleusLoop p topP n left i idx cum) := by
  induction left generalizing i idx cum with
  | zero => exact absurd hleft (lt_irrefl 0)
  | succ left ih =>
    rw [nucleusLoop]
    have hrange := argmaxFrom_mem (fun j => p (idx j)) (n - (i + 1)) (i + 1) i
    generalize argmaxFrom (fun j => p (idx j)) (n - (i + 1)) (i + 1) i = m at hrange ⊢
    have hbefore (k : Nat) (hk : k < i) : swapAt idx i m k = idx k :=
      swapAt_of_ne hk.ne (by omega)
    have hinj' : Function.Injective (swapAt idx i m) := swapAt_injective hinj
    split
    · exact ⟨hinj', hbefore, Nat.lt_succ_self i⟩
    · cases left with
      | zero => exact ⟨hinj', hbefore, by rw [nucleusLoop]; dsimp only; omega⟩
      | succ left =>
        have hrest := ih (cum + p (swapAt idx i m i)) (i := i + 1) (by omega) (Nat.succ_pos left) hinj'
        refine ⟨hrest.injective, fun k hk => ?_, Nat.lt_of_succ_lt hrest.cutoff⟩
        rw [hrest.before k (by omega), hbefore k hk]

omit [IsStrictOrderedRing K] [LinearOrder K] in
theorem zeroFrom_of_ne {idx : Nat → Nat} {cutoff x : Nat} (h : ∀ i, cutoff ≤ i → idx i ≠ x) :
    zeroFrom p idx n cutoff x = p x := by
  unfold zeroFrom
  have hmem : ∀ i ∈ List.range' cutoff (n - cutoff), idx i ≠ x :=
    fun i hi => h i (List.mem_range'_1.1 hi).1
  generalize List.range' cutoff (n - cutoff) = ks at hmem ⊢
  induction ks generalizing p with
  | nil => rfl
  | cons k ks ih =>
    rw [List.foldl_cons, ih fun j hj => hmem j (List.mem_cons_of_mem k hj),
      Function.update_of_ne (hmem k List.mem_cons_self).symm]

omit [IsStrictOrderedRing K] in
theorem zeroFrom_nonneg (h : ∀ i, 0 ≤ p i) (idx : Nat → Nat) (cutoff i : Nat) :
    0 ≤ zeroFrom p idx n cutoff i := by
  unfold zeroFrom
  induction List.range' cutoff (n - cutoff) generalizing p with
  | nil => exact h i
  | cons k ks ih =>
    rw [List.foldl_cons]
    apply ih
    intro j
    by_cases hj : j = idx k
    · rw [hj, Function.update_self]
    · rw [Function.update_of_ne hj]
      exact h j

theorem Drawable.renormalise (h : Drawable p n) : Drawable (renormalise p n) n := by
  unfold Generate.renormalise
  rw [if_pos h.sum_pos]
  obtain ⟨i, hi, hpos⟩ := h.pos
  exact ⟨fun j => div_nonneg (h.nonneg j) h.sum_pos.le, i, hi, div_pos hpos h.sum_pos⟩

theorem sum_renormalise (h : Drawable p n) : ∑ i ∈ range n, renormalise p n i = 1 := by
  unfold renormalise
  rw [if_pos h.sum_pos, ← sum_div, div_self h.sum_pos.ne']

omit [IsStrictOrderedRing K] in
/-- The first pass of the sort finds a largest probability. -/
theorem nucleusLoop_first (p : Nat → K) (topP : K) (hn : 0 < n) :
    (nucleusLoop p topP n n 0 id 0).1 0 = argmax p n := by
  obtain ⟨left, rfl⟩ := Nat.exists_eq_add_of_lt hn
  rw [Nat.zero_add, nucleusLoop]
  generalize hm : argmaxFrom (fun j => p (id j)) (left + 1 - (0 + 1)) (0 + 1) 0 = m
  have hfirst : swapAt id 0 m 0 = argmax p (left + 1) := swapAt_left.trans hm.symm
  have hinj : Function.Injective (swapAt id 0 m) := swapAt_injective Function.injective_id
  split
  · exact hfirst
  · cases left with
    | zero => exact hfirst
    | succ left =>
      have hrest := nucleusLoop_sortedFrom p topP (0 + p (swapAt id 0 m 0))
        (show 0 + 1 + (left + 1) = left + 1 + 1 by omega) (Nat.succ_pos left) hinj
      exact (hrest.before 0 Nat.one_pos).trans hfirst

omit [IsStrictOrderedRing K] in
/-- The tokens before the cutoff stay, the first of them a largest. -/
theorem Drawable.zeroFrom (h : Drawable p n) (topP : K) :
    Drawable (zeroFrom p (nucleusLoop p topP n n 0 id 0).1 n (nucleusLoop p topP n n 0 id 0).2)
      n := by
  refine ⟨zeroFrom_nonneg h.nonneg _ _, ?_⟩
  obtain ⟨i, hi, hpos⟩ := h.pos
  have hn : 0 < n := Nat.zero_lt_of_lt hi
  have hsorted := nucleusLoop_sortedFrom p topP 0 (Nat.zero_add n) hn Function.injective_id
  refine ⟨argmax p n, argmax_lt p hn, ?_⟩
  rw [zeroFrom_of_ne]
  · exact hpos.trans_le (le_argmax p hi)
  · intro k hk heq
    rw [← nucleusLoop_first p topP hn] at heq
    have hzero := hsorted.injective heq
    have hcutoff := hsorted.cutoff
    omega

theorem Drawable.topPFilter (h : Drawable p n) (idx : Bool) (topP : K) :
    Drawable (topPFilter idx p n topP) n := by
  unfold Generate.topPFilter
  split
  · exact (h.zeroFrom topP).renormalise
  · exact h

/-- The filters leave something to draw. -/
theorem drawable_filtered {exp : K → K} (hexp : ∀ x, 0 < exp x) (full : Bool) (alloc : SampleAlloc)
    (cfg : SampleConfig K) (logits : Nat → K) (hvocab : 0 < cfg.nVocab) :
    Drawable (filtered exp full alloc cfg logits) cfg.nVocab :=
  ((drawable_softmaxOf hexp _ hvocab).topKFilter _ _).topPFilter _ _

end Left

section Property

variable {K : Type*} [Field K] [LinearOrder K] [IsStrictOrderedRing K] {exp : K → K}

/-- Every buffer could be allocated. -/
def SampleAlloc.all : SampleAlloc := ⟨true, true, true⟩

/-- The token for a draw is the one whose interval holds the draw, of those that the normalised
cumulative sum of what the filters leave cuts the unit interval into. -/
def DrawsRight (exp : K → K) (full : Bool) (alloc : SampleAlloc) (cfg : SampleConfig K)
    (logits : Nat → K) (r : K) : Prop :=
  InInterval (filtered exp full .all cfg logits) cfg.nVocab r (tokenFor exp full alloc cfg logits r)

omit [IsStrictOrderedRing K] in
theorem sampleToken_eq (exp : K → K) (full : Bool) (cfg : SampleConfig K)
    (logits : Nat → K) (htemp : 0 < cfg.temperature) (rng : Nat) :
    (sampleToken exp full .all cfg logits rng).1 =
      tokenFor exp full .all cfg logits (((nextRng rng / 2 ^ 16 : Nat) : K) / 65536) := by
  unfold sampleToken
  rw [if_neg (not_le.2 htemp)]
  rfl

/-- The token for a draw is right exactly when the scan, which starts behind token 0 and runs over
what the filters have not renormalised, finds it where the interval of the draw is. -/
theorem drawsRight_iff (hexp : ∀ x, 0 < exp x) (full : Bool) (alloc : SampleAlloc)
    (cfg : SampleConfig K) (logits : Nat → K) (hvocab : 0 < cfg.nVocab) {r : K} (hlow : 0 ≤ r)
    (hhigh : r < 1) :
    DrawsRight exp full alloc cfg logits r ↔
      ∀ t, InInterval (filtered exp full .all cfg logits) cfg.nVocab r t →
        if alloc.probs then FoundAt (filtered exp full alloc cfg logits) cfg.nVocab r t
        else t = argmax (scaledLogits full cfg logits) cfg.nVocab := by
  have hall := drawable_filtered hexp full .all cfg logits hvocab
  have hleft := drawable_filtered hexp full alloc cfg logits hvocab
  have htoken (t : Nat) (ht : t < cfg.nVocab) : tokenFor exp full alloc cfg logits r = t ↔
      if alloc.probs then FoundAt (filtered exp full alloc cfg logits) cfg.nVocab r t
      else t = argmax (scaledLogits full cfg logits) cfg.nVocab := by
    unfold tokenFor
    split
    · exact lookUp_eq_iff (fun j _ => hleft.nonneg j) ht
    · exact eq_comm
  constructor
  · intro hright t ht
    rw [← htoken t ht.entry]
    exact hright.unique (fun j _ => hall.nonneg j) hall.sum_pos ht
  · intro h
    obtain ⟨t, ht⟩ := exists_inInterval hall.sum_pos hlow hhigh
    unfold DrawsRight
    rw [(htoken t ht.entry).2 (h t ht)]
    exact ht

/-- Two tokens of even chances and no filter. -/
noncomputable def evenChances : SampleConfig ℝ := ⟨2, 1, 0, 1, 1, []⟩

theorem drawsRight_evenChances_iff :
    DrawsRight Real.exp true .all evenChances (fun _ => 0) (3 / 4) ↔
      ∀ t, InInterval (filtered Real.exp true .all evenChances fun _ => 0) 2 (3 / 4) t →
        if SampleAlloc.all.probs then
          FoundAt (filtered Real.exp true .all evenChances fun _ => 0) 2 (3 / 4) t
        else t = argmax (scaledLogits true evenChances fun _ => 0) 2 :=
  drawsRight_iff Real.exp_pos true .all evenChances (fun _ => 0) two_pos (by norm_num) (by norm_num)

/-- The lowest draw belongs to token 0, but gets token 1. -/
theorem not_drawsRight :
    ¬ ∀ (full : Bool) (cfg : SampleConfig ℝ) (logits : Nat → ℝ) (r : ℝ), 0 < cfg.nVocab →
      0 < cfg.temperature → 0 ≤ r → r < 1 → DrawsRight Real.exp full .all cfg logits r := by
  intro hclaim
  have hright := hclaim true evenChances (fun _ => 0) 0 two_pos one_pos (le_refl 0) one_pos
  have hleft := drawable_filtered Real.exp_pos true .all evenChances (fun _ => 0) two_pos
  have htoken : tokenFor Real.exp true .all evenChances (fun _ => 0) 0 = 1 := by
    refine (lookUp_eq_iff (fun j _ => hleft.nonneg j) Nat.one_lt_two).2 ?_
    exact ⟨sum_nonneg fun j _ => hleft.nonneg j, Or.inl rfl⟩
  have habove := hright.above
  rw [htoken, sum_range_one] at habove
  have hfirst : 0 < filtered Real.exp true .all evenChances (fun _ => 0) 0 := by
    have hsame : filtered Real.exp true .all evenChances (fun _ => 0) =
        softmaxOf Real.exp (scaledLogits true evenChances fun _ => 0) 2 := by
      unfold filtered topPFilter topKFilter
      rw [if_neg fun h => lt_irrefl _ h.2.1, if_neg fun h => lt_irrefl _ h.1]
      rfl
    rw [hsame]
    exact div_pos (Real.exp_pos _) (sum_pos (fun j _ => Real.exp_pos _) ⟨0, mem_range.2 two_pos⟩)
  exact absurd habove (not_le.2 (div_pos hfirst hleft.sum_pos))

end Property

end VgEngine.Generate

import Mathlib.Algebra.BigOperators.Intervals
import Mathlib.Data.Finset.Image
import Mathlib.Order.Bounds.Basic

/-! The lanes of a workgroup. Between two barriers each lane acts on its own cell of the shared
memory, at any time, so that a phase is the list of the lanes in the order in which they act. -/
namespace VgEngine.Lib

section Phases

variable {ι α : Type*} [DecidableEq ι]

/-- The lanes act in turn: lane `i` puts `act i m` in its cell. -/
def runPhase (act : ι → (ι → α) → α) (order : List ι) (m : ι → α) : ι → α :=
  order.foldl (fun m i => Function.update m i (act i m)) m

/-- No lane reads a cell that another lane changes. -/
def RaceFree (act : ι → (ι → α) → α) : Prop :=
  ∀ i m m', (∀ j, j = i ∨ (∀ n, act j n = n j) → m j = m' j) → act i m = act i m'

/-- All lanes act on what the memory held at the barrier, whatever their order. -/
theorem runPhase_eq {act : ι → (ι → α) → α} (h : RaceFree act) {order : List ι}
    (hnodup : order.Nodup) (m : ι → α) (i : ι) :
    runPhase act order m i = if i ∈ order then act i m else m i := by
  induction order generalizing m with
  | nil => rfl
  | cons a order ih =>
    obtain ⟨ha, hrest⟩ := List.nodup_cons.mp hnodup
    rw [runPhase, List.foldl_cons, ← runPhase, ih hrest]
    by_cases hia : i = a
    · subst hia
      rw [if_neg ha, if_pos List.mem_cons_self, Function.update_self]
    · simp only [List.mem_cons, hia, false_or]
      split_ifs with hi
      · refine h i _ _ fun j hj => ?_
        by_cases hja : j = a
        · subst hja
          obtain rfl | hidle := hj
          · exact absurd rfl hia
          · rw [Function.update_self, hidle]
        · exact Function.update_of_ne hja _ _
      · exact Function.update_of_ne hia _ _

omit [DecidableEq ι] in
theorem raceFree_const (v : ι → α) : RaceFree fun i (_ : ι → α) => v i :=
  fun _ _ _ _ => rfl

end Phases

section Reduction

variable {γ K : Type*}

/-- `if (lane < s) red[group][lane] += red[group][lane + s];` -/
def halve [Add K] (s : Nat) (i : γ × Nat) (m : γ × Nat → K) : K :=
  if i.2 < s then m i + m (i.1, i.2 + s) else m i

/-- The phases of the strides `2 ^ (k - 1)` to `1`, with a barrier after each. -/
def treeReduce [DecidableEq γ] [Add K] (orders : Nat → List (γ × Nat)) :
    Nat → (γ × Nat → K) → γ × Nat → K
  | 0, m => m
  | k + 1, m => treeReduce orders k (runPhase (halve (2 ^ k)) (orders k) m)

theorem raceFree_halve [Add K] (s : Nat) :
    RaceFree (halve s : γ × Nat → (γ × Nat → K) → K) := by
  intro i m m' h
  have hown : m i = m' i := h i (.inl rfl)
  -- the cell that is read besides belongs to a lane that does not act
  have hpartner : m (i.1, i.2 + s) = m' (i.1, i.2 + s) :=
    h _ (.inr fun n => if_neg (by dsimp only; omega))
  rw [halve, halve, hown, hpartner]

variable [DecidableEq γ] [AddCommMonoid K]

/-- The first lane of a group is left with the sum over the group. -/
theorem treeReduce_eq {orders : Nat → List (γ × Nat)} (k : Nat) (g : γ)
    (horders : ∀ j < k, (orders j).Nodup ∧ ∀ l < 2 ^ k, (g, l) ∈ orders j) (m : γ × Nat → K) :
    treeReduce orders k m (g, 0) = ∑ l ∈ Finset.range (2 ^ k), m (g, l) := by
  induction k generalizing m with
  | zero => simp [treeReduce]
  | succ k ih =>
    have hgrow : 2 ^ (k + 1) = 2 ^ k + 2 ^ k := by rw [Nat.pow_succ, Nat.mul_two]
    obtain ⟨hnodup, hall⟩ := horders k (Nat.lt_succ_self k)
    rw [treeReduce, ih fun j hj => ⟨(horders j (by omega)).1,
      fun l hl => (horders j (by omega)).2 l (by omega)⟩, hgrow, Finset.sum_range_add,
      ← Finset.sum_add_distrib]
    refine Finset.sum_congr rfl fun l hl => ?_
    have hlt : l < 2 ^ k := Finset.mem_range.mp hl
    rw [runPhase_eq (raceFree_halve _) hnodup, if_pos (hall l (by omega)), halve, if_pos hlt,
      Nat.add_comm l]

end Reduction

section Strides

/-- `for (i = start; i < n; i += step)` -/
def strided (n step start : Nat) : List Nat :=
  List.range' start ((n + (step - 1) - start) / step) step

theorem mem_strided {n step start i : Nat} (h : start < step) :
    i ∈ strided n step start ↔ i < n ∧ i % step = start := by
  have hpos : 0 < step := Nat.zero_lt_of_lt h
  simp only [strided, List.mem_range']
  constructor
  · rintro ⟨k, hk, rfl⟩
    rw [Nat.lt_iff_add_one_le, Nat.le_div_iff_mul_le hpos, Nat.succ_mul, Nat.mul_comm k] at hk
    exact ⟨by omega, by rw [Nat.add_mul_mod_self_left, Nat.mod_eq_of_lt h]⟩
  · rintro ⟨hi, rfl⟩
    have hsplit := Nat.mod_add_div i step
    refine ⟨i / step, ?_, hsplit.symm⟩
    rw [Nat.lt_iff_add_one_le, Nat.le_div_iff_mul_le hpos, Nat.succ_mul, Nat.mul_comm _ step]
    omega

theorem nodup_strided {n step start : Nat} (h : start < step) : (strided n step start).Nodup :=
  List.nodup_range' step (Nat.zero_lt_of_lt h)

/-- The lanes together take each number once. -/
theorem strided_perm (n step : Nat) (hpos : 0 < step) :
    ((List.range step).flatMap (strided n step)).Perm (List.range n) := by
  apply (List.perm_ext_iff_of_nodup ?_ List.nodup_range).2
  · intro i
    simp only [List.mem_flatMap, List.mem_range]
    constructor
    · rintro ⟨lane, hlane, hi⟩
      exact ((mem_strided hlane).1 hi).1
    · exact fun hi => ⟨i % step, Nat.mod_lt i hpos, (mem_strided (Nat.mod_lt i hpos)).2 ⟨hi, rfl⟩⟩
  · rw [List.nodup_flatMap]
    constructor
    · exact fun lane hlane => nodup_strided (List.mem_range.1 hlane)
    · apply List.Pairwise.imp_of_mem ?_ List.nodup_range
      intro lane lane' hlane hlane' hne i hi hi'
      have hmod := ((mem_strided (List.mem_range.1 hlane)).1 hi).2
      have hmod' := ((mem_strided (List.mem_range.1 hlane')).1 hi').2
      exact hne (hmod.symm.trans hmod')

/-- The loops of all lanes together are over all numbers. -/
theorem sum_strided {K : Type*} [AddCommMonoid K] (n step : Nat) (f : Nat → K) (hpos : 0 < step) :
    ∑ l ∈ Finset.range step, ((strided n step l).map f).sum = ∑ i ∈ Finset.range n, f i := by
  have hlanes : ∀ l ∈ Finset.range step, ((strided n step l).map f).sum =
      ∑ i ∈ Finset.range n with i % step = l, f i := by
    intro l hl
    have hlt : l < step := Finset.mem_range.mp hl
    rw [← List.sum_toFinset f (nodup_strided hlt)]
    refine Finset.sum_congr (Finset.ext fun i => ?_) fun _ _ => rfl
    simp [mem_strided hlt]
  rw [Finset.sum_congr rfl hlanes]
  exact Finset.sum_fiberwise_of_maps_to
    (fun i _ => Finset.mem_range.mpr (Nat.mod_lt i hpos)) f

end Strides

section Turns

variable {ι M V : Type*} {act : ι → M → M} {own : ι → M → V} {order : List ι}

/-- What the memory is at the barrier, if the lanes come to act in this order. -/
def inTurn (act : ι → M → M) (order : List ι) (m : M) : M := order.foldl (fun m i => act i m) m

@[simp] theorem inTurn_nil (m : M) : inTurn act [] m = m := rfl

@[simp] theorem inTurn_cons (i : ι) (m : M) :
    inTurn act (i :: order) m = inTurn act order (act i m) := rfl

/-- A lane changes nothing of what another lane owns, and what it makes of its own follows from its
own. -/
structure ActsAlone (act : ι → M → M) (own : ι → M → V) : Prop where
  frame : ∀ i j m, i ≠ j → own i (act j m) = own i m
  reads : ∀ i m m', own i m = own i m' → own i (act i m) = own i (act i m')

theorem ActsAlone.inTurn_of_notMem (h : ActsAlone act own) {i : ι} (hi : i ∉ order) (m : M) :
    own i (inTurn act order m) = own i m := by
  induction order generalizing m with
  | nil => simp
  | cons j order ih =>
    simp only [List.mem_cons, not_or] at hi
    rw [inTurn_cons, ih hi.2, h.frame i j m hi.1]

/-- A lane finds what the memory held at the barrier before, whatever its turn. -/
theorem ActsAlone.inTurn_own (h : ActsAlone act own) (hnodup : order.Nodup) {i : ι} (hi : i ∈ order)
    (m : M) : own i (inTurn act order m) = own i (act i m) := by
  induction order generalizing m with
  | nil => simp at hi
  | cons j order ih =>
    simp only [List.nodup_cons] at hnodup
    rw [inTurn_cons]
    by_cases hij : i = j
    · subst hij
      exact h.inTurn_of_notMem hnodup.1 _
    · have hmem : i ∈ order := by simpa [hij] using hi
      rw [ih hnodup.2 hmem]
      exact h.reads i _ _ (h.frame i j m hij)

end Turns

section Maximum

variable {γ K : Type*} [LinearOrder K]

/-- A loop that keeps the greatest value. -/
theorem foldl_isGreatest (f : Nat → K) (l : List Nat) (a : K) :
    IsGreatest (insert a (f '' {j | j ∈ l})) (l.foldl (fun mx j => if mx < f j then f j else mx) a) := by
  induction l generalizing a with
  | nil => simp
  | cons j l ih =>
    have hstep : (if a < f j then f j else a) = max a (f j) := by
      split_ifs with h
      · exact (max_eq_right h.le).symm
      · exact (max_eq_left (not_lt.1 h)).symm
    have hrest := ih (max a (f j))
    rw [List.foldl_cons, hstep]
    constructor
    · rcases hrest.1 with heq | hmem
      · rw [heq]
        rcases max_choice a (f j) with hmax | hmax <;> simp [hmax]
      · obtain ⟨i, hi, heq⟩ := hmem
        exact .inr ⟨i, List.mem_cons_of_mem j hi, heq⟩
    · have hmax := hrest.2 (Set.mem_insert _ _)
      rintro x (rfl | ⟨i, hi, rfl⟩)
      · exact (le_max_left _ _).trans hmax
      · rcases List.mem_cons.1 hi with rfl | hi
        · exact (le_max_right _ _).trans hmax
        · exact hrest.2 (.inr ⟨i, hi, rfl⟩)

/-- `if (lane < s) red[lane] = max(red[lane], red[lane + s]);` -/
def halveMax (s : Nat) (i : γ × Nat) (m : γ × Nat → K) : K :=
  if i.2 < s then max (m i) (m (i.1, i.2 + s)) else m i

/-- The phases of the strides `2 ^ (k - 1)` to `1`, with a barrier after each. -/
def treeMax [DecidableEq γ] (orders : Nat → List (γ × Nat)) : Nat → (γ × Nat → K) → γ × Nat → K
  | 0, m => m
  | k + 1, m => treeMax orders k (runPhase (halveMax (2 ^ k)) (orders k) m)

theorem raceFree_halveMax (s : Nat) :
    RaceFree (halveMax s : γ × Nat → (γ × Nat → K) → K) := by
  intro i m m' h
  have hown : m i = m' i := h i (.inl rfl)
  have hpartner : m (i.1, i.2 + s) = m' (i.1, i.2 + s) :=
    h _ (.inr fun n => if_neg (by dsimp only; omega))
  simp only [halveMax, hown, hpartner]

variable [DecidableEq γ]

/-- The first lane of a group is left with the greatest cell of the group. -/
theorem treeMax_isGreatest {orders : Nat → List (γ × Nat)} (k : Nat) (g : γ)
    (horders : ∀ j < k, (orders j).Nodup ∧ ∀ l < 2 ^ k, (g, l) ∈ orders j) (m : γ × Nat → K) :
    IsGreatest ((fun l => m (g, l)) '' Set.Iio (2 ^ k)) (treeMax orders k m (g, 0)) := by
  induction k generalizing m with
  | zero => simp [treeMax]
  | succ k ih =>
    have hgrow : 2 ^ (k + 1) = 2 ^ k + 2 ^ k := by rw [Nat.pow_succ, Nat.mul_two]
    have hall := (horders k (Nat.lt_succ_self k)).2
    have hcell : ∀ l < 2 ^ k, runPhase (halveMax (2 ^ k)) (orders k) m (g, l) =
        max (m (g, l)) (m (g, l + 2 ^ k)) := by
      intro l hl
      rw [runPhase_eq (raceFree_halveMax _) (horders k (Nat.lt_succ_self k)).1,
        if_pos (hall l (by omega)), halveMax, if_pos hl]
    have hhalf := ih (fun j hj => ⟨(horders j (by omega)).1,
      fun l hl => (horders j (by omega)).2 l (by omega)⟩)
      (runPhase (halveMax (2 ^ k)) (orders k) m)
    rw [treeMax]
    constructor
    · obtain ⟨l, hl, heq⟩ := hhalf.1
      rw [← heq]
      dsimp only
      rw [hcell l hl]
      have hl : l < 2 ^ k := hl
      rcases max_choice (m (g, l)) (m (g, l + 2 ^ k)) with hmax | hmax <;> rw [hmax]
      · exact ⟨l, show l < 2 ^ (k + 1) by omega, rfl⟩
      · exact ⟨l + 2 ^ k, show l + 2 ^ k < 2 ^ (k + 1) by omega, rfl⟩
    · rintro x ⟨l, hl, rfl⟩
      have hl : l < 2 ^ (k + 1) := hl
      -- each cell is one of the two of a lane of the lower half
      have hlane : ∀ l < 2 ^ k, max (m (g, l)) (m (g, l + 2 ^ k)) ≤ treeMax orders k
          (runPhase (halveMax (2 ^ k)) (orders k) m) (g, 0) := fun l hl =>
        hcell l hl ▸ hhalf.2 ⟨l, hl, rfl⟩
      by_cases hlow : l < 2 ^ k
      · exact (le_max_left _ _).trans (hlane l hlow)
      · have hupper := hlane (l - 2 ^ k) (by omega)
        rw [Nat.sub_add_cancel (Nat.not_lt.1 hlow)] at hupper
        exact (le_max_right _ _).trans hupper

end Maximum

end VgEngine.Lib

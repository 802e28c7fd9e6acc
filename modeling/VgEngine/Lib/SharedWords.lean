import Mathlib.Logic.Function.Basic
import Mathlib.Data.List.Count
import Mathlib.Data.UInt
import Mathlib.Tactic.IntervalCases

/-! Lanes that load words into a shared memory between two barriers. Each takes its accesses in its
own order, and the lanes take turns in any; what is followed is one byte of the memory. -/
namespace VgEngine.Lib

section Turns

variable {ι M Op V : Type*} [DecidableEq ι] [BEq ι] [LawfulBEq ι] (apply : Op → M → M)

/-- Each turn is the next access of its lane, if it has not got to the barrier yet. -/
def runTurns : (ι → List Op) → List ι → M → M
  | _, [], m => m
  | prog, i :: turns, m =>
    match prog i with
    | [] => runTurns prog turns m
    | o :: rest => runTurns (Function.update prog i rest) turns (apply o m)

/-- A part of the memory that the accesses of one lane alone change is left as that lane leaves it. -/
theorem runTurns_part {part : M → V} {act : Op → V → V}
    (hact : ∀ o m, part (apply o m) = act o (part m)) {prog : ι → List Op} {i : ι}
    {turns : List ι} (hquiet : ∀ j ∈ turns, j ≠ i → ∀ o ∈ prog j, ∀ v, act o v = v)
    (hturns : (prog i).length ≤ turns.count i) (m : M) :
    part (runTurns apply prog turns m) = (prog i).foldl (fun v o => act o v) (part m) := by
  induction turns generalizing prog m with
  | nil =>
    have hdone : prog i = [] := List.eq_nil_of_length_eq_zero (Nat.le_zero.1 hturns)
    rw [hdone]
    rfl
  | cons j turns ih =>
    have hlater : ∀ k ∈ turns, k ≠ i → ∀ o ∈ prog k, ∀ v, act o v = v := fun k hk =>
      hquiet k (List.mem_cons_of_mem j hk)
    rw [runTurns]
    split
    · rename_i hnone
      apply ih hlater
      by_cases hji : j = i
      · subst hji
        rw [hnone]
        exact Nat.zero_le _
      · rwa [List.count_cons_of_ne hji] at hturns
    · rename_i o rest hnext
      by_cases hji : j = i
      · subst hji
        rw [hnext, List.length_cons, List.count_cons_self] at hturns
        rw [ih ?_ ?_ (apply o m), Function.update_self, hnext, List.foldl_cons, hact]
        · intro k hk hkj
          rw [Function.update_of_ne hkj]
          exact hlater k hk hkj
        · rw [Function.update_self]
          exact Nat.le_of_succ_le_succ hturns
      · have hsame : act o (part m) = part m := by
          apply hquiet j List.mem_cons_self hji
          rw [hnext]
          exact List.mem_cons_self
        rw [ih ?_ ?_ (apply o m), Function.update_of_ne (Ne.symm hji), hact, hsame]
        · intro k hk hki o' ho'
          by_cases hkj : k = j
          · subst hkj
            rw [Function.update_self] at ho'
            apply hlater k hk hki
            rw [hnext]
            exact List.mem_cons_of_mem o ho'
          · rw [Function.update_of_ne hkj] at ho'
            exact hlater k hk hki o' ho'
        · rwa [Function.update_of_ne (Ne.symm hji), ← List.count_cons_of_ne hji]

/-- A loop one pass of which sets a part that the others leave. -/
theorem foldl_sets {α : Type*} {f : V → α → V} {a : α} {v : V} {l : List α} (ha : a ∈ l)
    (hset : ∀ u, f u a = v) (hother : ∀ b ∈ l, b ≠ a → ∀ u, f u b = u) (u : V) :
    l.foldl f u = v := by
  classical
  have hkeeps : ∀ l' ⊆ l, l'.foldl f v = v := by
    intro l' hsub
    induction l' with
    | nil => rfl
    | cons b l' ih =>
      have hb : f v b = v := by
        by_cases hba : b = a
        · rw [hba]
          exact hset v
        · exact hother b (hsub List.mem_cons_self) hba v
      rw [List.foldl_cons, hb]
      exact ih fun c hc => hsub (List.mem_cons_of_mem b hc)
  obtain ⟨before, after, rfl⟩ := List.append_of_mem ha
  rw [List.foldl_append, List.foldl_cons, hset]
  apply hkeeps
  intro c hc
  exact List.mem_append_right _ (List.mem_cons_of_mem a hc)

end Turns

section Words

/-- The byte `k` of a word. -/
def byteOf (w : UInt32) (k : Nat) : UInt8 := (w >>> UInt32.ofNat (8 * k)).toUInt8

variable {ι : Type*} [DecidableEq ι]

/-- An access of a lane to a word of the shared memory. -/
inductive Access (ι : Type*)
  | store (cell : ι) (w : UInt32)
  | atomicAnd (cell : ι) (w : UInt32)
  | atomicOr (cell : ι) (w : UInt32)

def Access.apply : Access ι → (ι → UInt32) → ι → UInt32
  | store cell w, m => Function.update m cell w
  | atomicAnd cell w, m => Function.update m cell (m cell &&& w)
  | atomicOr cell w, m => Function.update m cell (m cell ||| w)

/-- What an access makes of the byte `k` of a cell. -/
def Access.onByte (c : ι) (k : Nat) : Access ι → UInt8 → UInt8
  | store cell w, b => if cell = c then byteOf w k else b
  | atomicAnd cell w, b => if cell = c then b &&& byteOf w k else b
  | atomicOr cell w, b => if cell = c then b ||| byteOf w k else b

theorem byteOf_eq {w : UInt32} {c : UInt8} {k : Nat} (hk : k < 4)
    (h : ∀ i < 8, w.toNat.testBit (8 * k + i) = c.toNat.testBit i) : byteOf w k = c := by
  have hshift : (UInt32.ofNat (8 * k)).toNat % 32 = 8 * k := by
    rw [UInt32.toNat_ofNat']
    omega
  apply UInt8.toNat_inj.1
  apply Nat.eq_of_testBit_eq
  intro i
  rw [byteOf, UInt32.toNat_toUInt8, UInt32.toNat_shiftRight, hshift, Nat.testBit_mod_two_pow,
    Nat.testBit_shiftRight]
  by_cases hi : i < 8
  · rw [h i hi, decide_eq_true hi, Bool.true_and]
  · rw [decide_eq_false hi, Bool.false_and]
    exact (Nat.testBit_lt_two_pow (c.toNat_lt.trans_le (Nat.pow_le_pow_right (by decide)
      (Nat.le_of_not_lt hi)))).symm

theorem byteOf_and (v w : UInt32) (k : Nat) : byteOf (v &&& w) k = byteOf v k &&& byteOf w k := by
  apply UInt8.toBitVec_inj.1
  simp [byteOf, BitVec.ushiftRight_and_distrib]

theorem byteOf_or (v w : UInt32) (k : Nat) : byteOf (v ||| w) k = byteOf v k ||| byteOf w k := by
  apply UInt8.toBitVec_inj.1
  simp [byteOf, BitVec.ushiftRight_or_distrib]

theorem Access.byteOf_apply (c : ι) (k : Nat) (o : Access ι) (m : ι → UInt32) :
    byteOf (o.apply m c) k = o.onByte c k (byteOf (m c) k) := by
  cases o with
  | store cell w =>
    simp only [apply, onByte, Function.update_apply, eq_comm (a := c)]
    split_ifs <;> rfl
  | atomicAnd cell w =>
    simp only [apply, onByte, Function.update_apply]
    by_cases h : c = cell
    · subst h
      rw [if_pos rfl, if_pos rfl, byteOf_and]
    · rw [if_neg h, if_neg (Ne.symm h)]
  | atomicOr cell w =>
    simp only [apply, onByte, Function.update_apply]
    by_cases h : c = cell
    · subst h
      rw [if_pos rfl, if_pos rfl, byteOf_or]
    · rw [if_neg h, if_neg (Ne.symm h)]

/-- A byte that is put in its place in a word. -/
theorem byteOf_placed (b : UInt32) {j k : Nat} (hj : j < 4) (hk : k < 4) :
    byteOf ((b &&& 0xFF) <<< UInt32.ofNat (j * 8)) k = if j = k then b.toUInt8 else 0 := by
  have hplace : (UInt32.ofNat (j * 8)).toNat % 32 = 8 * j := by
    rw [UInt32.toNat_ofNat']
    omega
  apply byteOf_eq hk
  intro i hi
  rw [UInt32.toNat_shiftLeft, hplace, Nat.testBit_mod_two_pow, Nat.testBit_shiftLeft, UInt32.toNat_and,
    show (0xFF : UInt32).toNat = 2 ^ 8 - 1 from rfl, Nat.and_two_pow_sub_one_eq_mod,
    Nat.testBit_mod_two_pow, decide_eq_true (show 8 * k + i < 32 by omega), Bool.true_and]
  split_ifs with hjk
  · subst hjk
    have hbit : 8 * j + i - 8 * j = i := by omega
    rw [hbit, decide_eq_true (show 8 * j ≤ 8 * j + i by omega), decide_eq_true hi, Bool.true_and,
      UInt32.toNat_toUInt8, Nat.testBit_mod_two_pow, decide_eq_true hi]
  · by_cases hlow : 8 * j ≤ 8 * k + i
    · have hhigh : ¬8 * k + i - 8 * j < 8 := by omega
      rw [decide_eq_false hhigh, Bool.false_and, Bool.and_false]
      exact (Nat.zero_testBit i).symm
    · rw [decide_eq_false hlow, Bool.false_and]
      exact (Nat.zero_testBit i).symm

/-- The mask that leaves the other bytes of a word. -/
theorem byteOf_mask {j k : Nat} (hj : j < 4) (hk : k < 4) :
    byteOf (~~~((0xFF : UInt32) <<< UInt32.ofNat (j * 8))) k = if j = k then 0 else 0xFF := by
  interval_cases j <;> interval_cases k <;> decide

end Words

end VgEngine.Lib

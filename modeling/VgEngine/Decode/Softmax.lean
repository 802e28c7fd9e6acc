import VgEngine.Decode.KvPages
import Mathlib.Algebra.Order.BigOperators.Group.List
import Mathlib.Algebra.Order.Field.Basic

/-! The score, softmax and value loops of `attention_layer`. -/
namespace VgEngine.Decode
open Lib Bytes Gguf Model

/-- The functions of `math.h` that the loops call. -/
structure AttnLibm (F : Type) where
  exp : F → F
  tanh : F → F
  sqrt : F → F

/-- What the heads read: head, position and element. -/
abbrev View (F : Type) := Nat → Nat → Nat → Option F

section Loops

variable {F : Type} [Field F] [LinearOrder F] (libm : AttnLibm F)

/-- `scores[t]` before the softmax. Without a page the product is zero. -/
def score (cfg : ModelConfig F) (width : Nat) (q : Nat → F) (keys : View F) (h t : Nat) : F :=
  let dot := ((List.range width).map fun d => q (h * width + d) * (keys h t d).getD 0).sum
  let s := dot * (1 / libm.sqrt width)
  let c := cfg.attnLogitSoftcap
  if 0 < c then c * libm.tanh (s / c) else s

/-- `mx` -/
def maxScore (scores : Nat → F) (pos : Nat) : F :=
  (List.range' 1 pos).foldl (fun mx t => if mx < scores t then scores t else mx) (scores 0)

/-- `scores[t]` after `expf`. -/
def expScore (scores : Nat → F) (pos t : Nat) : F := libm.exp (scores t - maxScore scores pos)

/-- `s`, the denominator. -/
def denominator (scores : Nat → F) (pos : Nat) : F :=
  ((List.range (pos + 1)).map (expScore libm scores pos)).sum

/-- `scores[t]` after the softmax; a later position has none. -/
def softmaxWeight (scores : Nat → F) (pos t : Nat) : F :=
  let s := denominator libm scores pos
  if pos < t then 0
  else if 0 < s then expScore libm scores pos t / s else expScore libm scores pos t

/-- The value row of a position on top of the output of a head. -/
def addRow (width h : Nat) (w : F) (row : Nat → F) (out : Nat → F) : Nat → F :=
  (List.range width).foldl
    (fun out d => Function.update out (h * width + d) (out (h * width + d) + w * row d)) out

/-- The value loop of a head. A position without a page adds nothing. -/
def addHead (width : Nat) (weights : Nat → F) (values : View F) (pos h : Nat) (out : Nat → F) :
    Nat → F :=
  (List.range (pos + 1)).foldl
    (fun out t => addRow width h (weights t) (fun d => (values h t d).getD 0) out) out

/-- The loop over the heads; one without a score buffer adds nothing. -/
def softmaxAttention (g : VgGguf) (cfg : ModelConfig F) : Attention (Nat → F) F :=
  fun layer pos kvd scored q keys values =>
    (List.range cfg.nHead).foldl (fun out h =>
      if scored h then
        addHead (kvd / cfg.kvHeads)
          (softmaxWeight libm (score libm cfg (headWidth g cfg layer) q keys h) pos) values pos h out
      else out) fun _ => 0

end Loops

section Weights

variable {F : Type} [Field F] [LinearOrder F] [IsStrictOrderedRing F] {libm : AttnLibm F}
variable {scores : Nat → F} {pos t : Nat}

theorem denominator_pos (hexp : ∀ x, 0 < libm.exp x) : 0 < denominator libm scores pos := by
  apply List.sum_pos
  · intro x hx
    obtain ⟨t, -, rfl⟩ := List.mem_map.1 hx
    exact hexp _
  · simp

/-- Every position up to that of the decode has a weight, whether its page is there or not. -/
theorem softmaxWeight_ne_zero_iff (hexp : ∀ x, 0 < libm.exp x) :
    softmaxWeight libm scores pos t ≠ 0 ↔ t ≤ pos := by
  unfold softmaxWeight
  by_cases ht : pos < t
  · simp [ht]
  · have hweight : 0 < expScore libm scores pos t / denominator libm scores pos :=
      div_pos (hexp _) (denominator_pos hexp)
    simp only [ht, if_false, if_pos (denominator_pos hexp)]
    exact iff_of_true hweight.ne' (Nat.not_lt.1 ht)

end Weights

section Output

variable {F : Type} [Field F] {out : Nat → F} {width h d : Nat}

/-- A loop that adds to a cell adds up. -/
theorem foldl_adds {α : Type} {step : (Nat → F) → α → Nat → F} {cell : Nat} {add : α → F}
    (l : List α) (h : ∀ x ∈ l, ∀ out, step out x cell = out cell + add x) (out : Nat → F) :
    l.foldl step out cell = out cell + (l.map add).sum := by
  induction l generalizing out with
  | nil => simp
  | cons x l ih =>
    rw [List.foldl_cons, ih fun y hy => h y (List.mem_cons_of_mem x hy),
      h x List.mem_cons_self, List.map_cons, List.sum_cons, add_assoc]

theorem sum_at (f : Nat → F) (hd : d < width) :
    ((List.range width).map fun i => if i = d then f i else 0).sum = f d := by
  induction width with
  | zero => exact absurd hd (Nat.not_lt_zero d)
  | succ n ih =>
    rw [List.range_succ, List.map_append, List.sum_append]
    rcases Nat.lt_succ_iff_lt_or_eq.1 hd with hlt | rfl
    · simp [ih hlt, hlt.ne']
    · have hzero : ((List.range d).map fun i => if i = d then f i else 0).sum = 0 := by
        apply List.sum_eq_zero
        intro x hx
        obtain ⟨i, hi, rfl⟩ := List.mem_map.1 hx
        exact if_neg (List.mem_range.1 hi).ne
      simp [hzero]

theorem head_cell_inj {h' d' : Nat} (hd : d < width) (hd' : d' < width)
    (heq : h' * width + d' = h * width + d) : h' = h ∧ d' = d := by
  have hquot := congrArg (· / width) heq
  have hpos : 0 < width := Nat.zero_lt_of_lt hd
  simp only [Nat.mul_comm _ width, Nat.mul_add_div hpos, Nat.div_eq_of_lt hd,
    Nat.div_eq_of_lt hd', Nat.add_zero] at hquot
  subst hquot
  exact ⟨rfl, Nat.add_left_cancel heq⟩

theorem addRow_apply {h' : Nat} {w : F} {row : Nat → F} (hd : d < width) :
    addRow width h' w row out (h * width + d) =
      out (h * width + d) + if h' = h then w * row d else 0 := by
  -- a step adds to the cell of its own head and element only
  have hstep (i : Nat) (hi : i ∈ List.range width) (out : Nat → F) :
      Function.update out (h' * width + i) (out (h' * width + i) + w * row i) (h * width + d) =
        out (h * width + d) + if i = d then (if h' = h then w * row i else 0) else 0 := by
    by_cases hcell : h' * width + i = h * width + d
    · obtain ⟨rfl, rfl⟩ := head_cell_inj hd (List.mem_range.1 hi) hcell
      simp
    · rw [Function.update_of_ne (Ne.symm hcell)]
      by_cases hi' : i = d
      · have hne : h' ≠ h := by
          rintro rfl
          exact hcell (by rw [hi'])
        simp [hi', hne]
      · simp [hi']
  unfold addRow
  rw [foldl_adds _ hstep, sum_at (fun i => if h' = h then w * row i else 0) hd]

theorem addHead_apply {h' pos : Nat} {weights : Nat → F} {values : View F} (hd : d < width) :
    addHead width weights values pos h' out (h * width + d) = out (h * width + d) +
      ((List.range (pos + 1)).map fun t =>
        if h' = h then weights t * (values h' t d).getD 0 else 0).sum := by
  have hrow (t : Nat) (_ : t ∈ List.range (pos + 1)) (out : Nat → F) :
      addRow width h' (weights t) (fun d => (values h' t d).getD 0) out (h * width + d) =
        out (h * width + d) + if h' = h then weights t * (values h' t d).getD 0 else 0 :=
    addRow_apply hd
  exact foldl_adds _ hrow out

variable [LinearOrder F] {libm : AttnLibm F} {g : VgGguf} {cfg : ModelConfig F}

/-- An output element of a head is the sum of its values under the weights. -/
theorem softmaxAttention_apply {layer pos kvd : Nat} {scored : Nat → Bool} {q : Nat → F}
    {keys values : View F} (hh : h < cfg.nHead) (hscored : scored h = true)
    (hd : d < kvd / cfg.kvHeads) :
    softmaxAttention libm g cfg layer pos kvd scored q keys values (h * (kvd / cfg.kvHeads) + d) =
      ((List.range (pos + 1)).map fun t =>
        softmaxWeight libm (score libm cfg (headWidth g cfg layer) q keys h) pos t *
          (values h t d).getD 0).sum := by
  have hstep (h' : Nat) (_ : h' ∈ List.range cfg.nHead) (out : Nat → F) :
      (if scored h' then addHead (kvd / cfg.kvHeads)
        (softmaxWeight libm (score libm cfg (headWidth g cfg layer) q keys h') pos) values pos h' out
      else out) (h * (kvd / cfg.kvHeads) + d) =
        out (h * (kvd / cfg.kvHeads) + d) + if h' = h then ((List.range (pos + 1)).map fun t =>
          softmaxWeight libm (score libm cfg (headWidth g cfg layer) q keys h') pos t *
            (values h' t d).getD 0).sum else 0 := by
    by_cases heq : h' = h
    · subst heq
      simp [hscored, addHead_apply hd]
    · rw [if_neg heq]
      split
      · simp [addHead_apply hd, heq]
      · simp
  unfold softmaxAttention
  rw [foldl_adds _ hstep, sum_at (fun h' => ((List.range (pos + 1)).map fun t =>
    softmaxWeight libm (score libm cfg (headWidth g cfg layer) q keys h') pos t *
      (values h' t d).getD 0).sum) hh, zero_add]

end Output

end VgEngine.Decode

import VgEngine.Gguf.Reader
import VgEngine.Gguf.Layout

/-! The buffer of `read_array_text`: where its bytes are written, and how large it is at each
write. -/
namespace VgEngine.Gguf
open Bytes

section Writes

variable (env : Libc)

/-- The writes of the item loop and of the end of the text, as indices with the capacity of the
buffer at that moment. `len` bytes are there. -/
def arrayWrites (item : Cursor → Option (List UInt8 × Cursor)) (quoted : Bool) :
    Nat → Bool → Nat → Nat → Cursor → List (Nat × Nat)
  | 0, _, len, cap, _ => [(len, cap), (len + 1, cap)]
  | n + 1, first, len, cap, c =>
    match item c with
    | none => []
    | some (text, c) =>
      match growTo env 64 (itemNeed len first quoted text) cap c with
      | none => []
      | some (cap, c) =>
        let written := (itemText first quoted text).length
        (List.range written).map (fun k => (len + k, cap)) ++
          arrayWrites item quoted n false (len + written) cap c

/-- The writes of a call of `read_array_text` into its buffer. -/
def arrayTextWrites (item : Nat → Cursor → Option (List UInt8 × Cursor)) (c : Cursor) :
    List (Nat × Nat) :=
  match u32 c with
  | none => []
  | some (type, c) =>
    match u64 c with
    | none => []
    | some (n, c) =>
      if 2 ^ 20 < n then []
      else
        match malloc env c with
        | none => []
        | some c => (0, 64) :: arrayWrites env (item type) (type == 8) n true 1 64 c

/-- The items that are appended, and whether those are all of them. -/
def arrayTexts (item : Cursor → Option (List UInt8 × Cursor)) (quoted : Bool) :
    Nat → Bool → Nat → Nat → Cursor → List (List UInt8) × Bool
  | 0, _, _, _, _ => ([], true)
  | n + 1, first, len, cap, c =>
    match item c with
    | none => ([], false)
    | some (text, c) =>
      match growTo env 64 (itemNeed len first quoted text) cap c with
      | none => ([], false)
      | some (cap, c) =>
        let written := (itemText first quoted text).length
        let rest := arrayTexts item quoted n false (len + written) cap c
        (text :: rest.1, rest.2)

/-- The strings of an array of strings that are appended; other arrays count as having none. -/
def arrayStrings (item : Nat → Cursor → Option (List UInt8 × Cursor)) (c : Cursor) :
    List (List UInt8) × Bool :=
  match u32 c with
  | none => ([], false)
  | some (type, c) =>
    match u64 c with
    | none => ([], false)
    | some (n, c) =>
      if 2 ^ 20 < n ∨ type ≠ 8 then ([], false)
      else
        match malloc env c with
        | none => ([], false)
        | some c => arrayTexts env (item type) true n true 1 64 c

/-- Every write is below the capacity. -/
def Inside (writes : List (Nat × Nat)) : Prop := ∀ w ∈ writes, w.1 < w.2

end Writes

/-- The bytes of a string that get a backslash. -/
def escapes (s : List UInt8) : Nat := s.countP fun c => c = 34 ∨ c = 92

/-- The length of the text after some strings: the bracket, and the strings in quotes, with their
backslashes and the commas between them. -/
def filled (ss : List (List UInt8)) : Nat :=
  if ss = [] then 1 else (ss.map fun s => s.length + escapes s + 3).sum

/-- No capacity `64 * 2 ^ j` that has room for a string without its backslashes is too small for
it with them; after the last string, the closing bracket and the terminator count too. -/
def StepsClear (strings : List (List UInt8) × Bool) : Prop :=
  ∀ before s after, strings.1 = before ++ s :: after → ∀ j,
    filled (before ++ [s]) - escapes s + 1 < 64 * 2 ^ j →
      filled (before ++ [s]) + (if after = [] ∧ strings.2 = true then 2 else 0) ≤ 64 * 2 ^ j

section Lengths

variable {s : List UInt8} {ss : List (List UInt8)}

theorem length_escape (s : List UInt8) : (escape s).length = s.length + escapes s := by
  unfold escape escapes
  induction s with
  | nil => rfl
  | cons c s ih =>
    rw [List.flatMap_cons, List.length_append, ih, List.length_cons, List.countP_cons]
    by_cases hc : c = 34 ∨ c = 92
    · simp only [if_pos hc, decide_eq_true hc, List.length_cons, List.length_nil, if_true]
      omega
    · simp only [if_neg hc, decide_eq_false hc, List.length_cons, List.length_nil,
        Bool.false_eq_true, if_false]
      omega

theorem filled_concat (ss : List (List UInt8)) (s : List UInt8) :
    filled (ss ++ [s]) = filled ss + (itemText ss.isEmpty true s).length := by
  have hne : ss ++ [s] ≠ [] := by simp
  cases ss with
  | nil =>
    simp only [filled, itemText, length_escape, List.isEmpty_nil, List.nil_append, if_true,
      List.length_append, List.length_cons, List.length_nil, List.map_cons, List.map_nil,
      List.sum_cons, List.sum_nil]
    simp
    omega
  | cons t ss =>
    unfold filled
    rw [if_neg hne, if_neg (List.cons_ne_nil t ss), List.map_append, List.sum_append]
    simp [itemText, length_escape]

theorem itemNeed_eq (ss : List (List UInt8)) (s : List UInt8) :
    itemNeed (filled ss) ss.isEmpty true s = filled (ss ++ [s]) - escapes s + 1 := by
  rw [filled_concat]
  cases hempty : ss.isEmpty <;> simp [itemNeed, itemText, length_escape] <;> omega

end Lengths

section Capacity

variable {env : Libc}

/-- The least of the capacities that are above a number. -/
structure Roomy (cap need : Nat) : Prop where
  step : ∃ j, cap = 64 * 2 ^ j
  above : need < cap
  least : ∀ j, need < 64 * 2 ^ j → cap ≤ 64 * 2 ^ j

theorem roomy_first : Roomy 64 0 :=
  ⟨⟨0, rfl⟩, by decide, fun j _ => Nat.le_mul_of_pos_right 64 (Nat.two_pow_pos j)⟩

theorem Roomy.grow {fuel need need' cap cap' : Nat} {c c' : Cursor} (h : Roomy cap need)
    (hle : need ≤ need') (hgrow : growTo env fuel need' cap c = some (cap', c')) :
    Roomy cap' need' := by
  induction fuel generalizing need cap c with
  | zero => cases hgrow
  | succ fuel ih =>
    unfold growTo at hgrow
    split_ifs at hgrow with hroom
    · cases hgrow
      exact ⟨h.step, hroom, fun j hj => h.least j (hle.trans_lt hj)⟩
    · obtain ⟨c1, -, hrest⟩ := Option.bind_eq_some_iff.1 hgrow
      obtain ⟨k, hk⟩ := h.step
      -- what is above the need but not above the old capacity is at least twice that
      have hdouble : Roomy (cap * 2) cap := by
        refine ⟨⟨k + 1, by rw [hk, pow_succ, Nat.mul_assoc]⟩, ?_, fun j hj => ?_⟩
        · have := h.above
          omega
        · rw [hk, Nat.mul_assoc, ← pow_succ]
          rw [hk] at hj
          have hlt := (Nat.pow_lt_pow_iff_right (by decide)).1 (Nat.lt_of_mul_lt_mul_left hj)
          exact Nat.mul_le_mul_left 64 (Nat.pow_le_pow_right (by decide) hlt)
      exact ih hdouble (Nat.not_lt.1 hroom) hrest

theorem Roomy.le_iff {cap need n : Nat} (h : Roomy cap need) :
    n ≤ cap ↔ ∀ j, need < 64 * 2 ^ j → n ≤ 64 * 2 ^ j := by
  constructor
  · exact fun hn j hj => hn.trans (h.least j hj)
  · intro hall
    obtain ⟨j, hj⟩ := h.step
    rw [hj]
    exact hall j (hj ▸ h.above)

theorem growTo_above {fuel need cap cap' : Nat} {c c' : Cursor}
    (h : growTo env fuel need cap c = some (cap', c')) : need < cap' := by
  induction fuel generalizing cap c with
  | zero => cases h
  | succ fuel ih =>
    unfold growTo at h
    split_ifs at h with hroom
    · cases h
      exact hroom
    · obtain ⟨c1, -, hrest⟩ := Option.bind_eq_some_iff.1 h
      exact ih hrest

end Capacity

section Loop

variable {env : Libc}

theorem inside_append {ws vs : List (Nat × Nat)} : Inside (ws ++ vs) ↔ Inside ws ∧ Inside vs :=
  List.forall_mem_append

theorem inside_run {len n cap : Nat} (hlen : len < cap) :
    Inside ((List.range n).map fun k => (len + k, cap)) ↔ len + n ≤ cap := by
  unfold Inside
  simp only [List.forall_mem_map, List.mem_range]
  constructor
  · intro h
    cases n with
    | zero => exact hlen.le
    | succ n => exact h n (Nat.lt_succ_self n)
  · intro h k hk
    omega

theorem forall_split_cons {α : Type*} {a : α} {l : List α} {Q : List α → α → List α → Prop} :
    (∀ before x after, a :: l = before ++ x :: after → Q before x after) ↔
      Q [] a l ∧ ∀ before x after, l = before ++ x :: after → Q (a :: before) x after := by
  constructor
  · intro h
    exact ⟨h [] a l rfl, fun before x after heq => h (a :: before) x after (congrArg _ heq)⟩
  · rintro ⟨hfirst, hrest⟩ before x after heq
    cases before with
    | nil =>
      cases heq
      exact hfirst
    | cons b before =>
      obtain ⟨rfl, hl⟩ := List.cons.inj heq
      exact hrest before x after hl

/-- `StepsClear` for the strings that follow those already there. -/
def StepsClearFrom (done : List (List UInt8)) (strings : List (List UInt8) × Bool) : Prop :=
  ∀ before s after, strings.1 = before ++ s :: after → ∀ j,
    filled (done ++ before ++ [s]) - escapes s + 1 < 64 * 2 ^ j →
      filled (done ++ before ++ [s]) + (if after = [] ∧ strings.2 = true then 2 else 0) ≤ 64 * 2 ^ j

theorem stepsClearFrom_cons {done ss : List (List UInt8)} {s : List UInt8} {complete : Bool} :
    StepsClearFrom done (s :: ss, complete) ↔
      (∀ j, filled (done ++ [s]) - escapes s + 1 < 64 * 2 ^ j →
        filled (done ++ [s]) + (if ss = [] ∧ complete = true then 2 else 0) ≤ 64 * 2 ^ j) ∧
        StepsClearFrom (done ++ [s]) (ss, complete) := by
  unfold StepsClearFrom
  rw [forall_split_cons (Q := fun before s after => ∀ j,
    filled (done ++ before ++ [s]) - escapes s + 1 < 64 * 2 ^ j →
      filled (done ++ before ++ [s]) + (if after = [] ∧ complete = true then 2 else 0) ≤ 64 * 2 ^ j)]
  simp only [List.append_nil, List.append_assoc, List.singleton_append]

/-- A loop over strings, with the strings `done` in the buffer. -/
theorem inside_strings {item : Cursor → Option (List UInt8 × Cursor)} (n : Nat)
    {done : List (List UInt8)} {cap need : Nat} {c : Cursor} (hcap : Roomy cap need)
    (hneed : need ≤ filled done + 1) :
    Inside (arrayWrites env item true n done.isEmpty (filled done) cap c) ↔
      ((arrayTexts env item true n done.isEmpty (filled done) cap c).1 = [] ∧
          (arrayTexts env item true n done.isEmpty (filled done) cap c).2 = true →
        filled done + 2 ≤ cap) ∧
      StepsClearFrom done (arrayTexts env item true n done.isEmpty (filled done) cap c) := by
  induction n generalizing done cap need c with
  | zero =>
    have hend : Inside [(filled done, cap), (filled done + 1, cap)] ↔ filled done + 2 ≤ cap := by
      simp only [Inside, List.forall_mem_cons, List.not_mem_nil, false_imp_iff, implies_true,
        and_true]
      omega
    simp [arrayWrites, arrayTexts, StepsClearFrom, hend]
  | succ n ih =>
    unfold arrayWrites arrayTexts
    cases item c with
    | none => simp [Inside, StepsClearFrom]
    | some read =>
      obtain ⟨s, c1⟩ := read
      dsimp only
      have hge : need ≤ itemNeed (filled done) done.isEmpty true s := by
        unfold itemNeed
        split_ifs <;> omega
      cases hgrow : growTo env 64 (itemNeed (filled done) done.isEmpty true s) cap c1 with
      | none => simp [Inside, StepsClearFrom]
      | some grown =>
        obtain ⟨cap', c2⟩ := grown
        have hcap' := hcap.grow hge hgrow
        have hfits := hcap'.above
        rw [itemNeed_eq] at hcap'
        have hlen : filled done < cap' := by
          unfold itemNeed at hfits
          omega
        dsimp only
        rw [← filled_concat, inside_append, inside_run hlen, ← filled_concat]
        have hrest := @ih (done ++ [s]) cap' _ c2 hcap' (by omega)
        rw [show (done ++ [s]).isEmpty = false by simp] at hrest
        rw [hrest, stepsClearFrom_cons, ← hcap'.le_iff]
        generalize arrayTexts env item true n false (filled (done ++ [s])) cap' c2 = strings
        by_cases hlast : strings.1 = [] ∧ strings.2 = true
        · rw [if_pos hlast]
          constructor
          · rintro ⟨-, hend, hrest⟩
            exact ⟨fun h => absurd h.1 (List.cons_ne_nil _ _), hend hlast, hrest⟩
          · rintro ⟨-, hend, hrest⟩
            exact ⟨by omega, fun _ => hend, hrest⟩
        · rw [if_neg hlast, Nat.add_zero]
          constructor
          · rintro ⟨hfit, -, hrest⟩
            exact ⟨fun h => absurd h.1 (List.cons_ne_nil _ _), hfit, hrest⟩
          · rintro ⟨-, hfit, hrest⟩
            exact ⟨hfit, fun h => absurd h hlast, hrest⟩

/-- A loop over items without quotes, whose need covers all that is written. -/
theorem inside_plain {item : Cursor → Option (List UInt8 × Cursor)} (n : Nat) {first : Bool}
    {len cap : Nat} {c : Cursor} (hcap : len + 1 < cap) :
    Inside (arrayWrites env item false n first len cap c) := by
  induction n generalizing first len cap c with
  | zero =>
    simp only [arrayWrites, Inside, List.forall_mem_cons, List.not_mem_nil, false_imp_iff,
      implies_true, and_true]
    omega
  | succ n ih =>
    unfold arrayWrites
    cases item c with
    | none => simp [Inside]
    | some read =>
      obtain ⟨text, c1⟩ := read
      dsimp only
      cases hgrow : growTo env 64 (itemNeed len first false text) cap c1 with
      | none => simp [Inside]
      | some grown =>
        obtain ⟨cap', c2⟩ := grown
        have hneed : len + (itemText first false text).length + 1 < cap' := by
          have hroom := growTo_above hgrow
          unfold itemNeed at hroom
          cases first <;> simp [itemText] at hroom ⊢ <;> omega
        dsimp only
        rw [inside_append, inside_run (by omega)]
        exact ⟨by omega, ih hneed⟩

/-- Whatever an array holds, a call of `read_array_text` writes inside its buffer exactly when it is no
array of strings or no capacity lies between the lengths of its text with and without the backslashes
of a string. -/
theorem arrayTextWrites_inside_iff (env : Libc) (fuel : Nat) (c : Cursor) :
    Inside (arrayTextWrites env (readScalarValue env fuel) c) ↔
      StepsClear (arrayStrings env (readScalarValue env fuel) c) := by
  have hclear : StepsClear ([], false) := fun before s after heq => by simp at heq
  have hnone : Inside [] := fun w hw => by cases hw
  unfold arrayTextWrites arrayStrings
  cases u32 c with
  | none => exact iff_of_true hnone hclear
  | some read =>
    obtain ⟨type, c1⟩ := read
    dsimp only
    cases u64 c1 with
    | none => exact iff_of_true hnone hclear
    | some read =>
      obtain ⟨n, c2⟩ := read
      dsimp only
      by_cases hn : 2 ^ 20 < n
      · rw [if_pos hn, if_pos (Or.inl hn)]
        exact iff_of_true hnone hclear
      · rw [if_neg hn]
        cases malloc env c2 with
        | none => simpa using iff_of_true hnone hclear
        | some c3 =>
          have hbracket (ws : List (Nat × Nat)) : Inside ((0, 64) :: ws) ↔ Inside ws := by
            simp [Inside]
          rw [hbracket]
          by_cases htype : type = 8
          · rw [if_neg (not_or.2 ⟨hn, not_not.2 htype⟩), show (type == 8) = true by simp [htype]]
            have h := @inside_strings env (readScalarValue env fuel type) n [] 64 0 c3 roomy_first
              (Nat.zero_le _)
            rw [show filled [] = 1 from rfl, show ([] : List (List UInt8)).isEmpty = true from rfl]
              at h
            rw [h]
            exact and_iff_right fun _ => by decide
          · rw [if_pos (Or.inr htype), show (type == 8) = false by simp [htype]]
            exact iff_of_true (inside_plain n (by decide)) hclear

end Loop

section Text

variable {env : Libc}

/-- The writes are those of the text that is returned, its terminator included, one after the
other. -/
theorem arrayWrites_indices {item : Cursor → Option (List UInt8 × Cursor)} {quoted : Bool} (n : Nat)
    {first : Bool} {out out' : List UInt8} {cap : Nat} {c c' : Cursor}
    (h : arrayItems env item quoted n first out cap c = some (out', c')) :
    out.length ≤ out'.length ∧
      (arrayWrites env item quoted n first out.length cap c).map Prod.fst =
        List.range' out.length (out'.length + 2 - out.length) := by
  induction n generalizing first out cap c with
  | zero =>
    cases h
    refine ⟨le_rfl, ?_⟩
    rw [Nat.add_sub_cancel_left]
    rfl
  | succ n ih =>
    unfold arrayItems at h
    unfold arrayWrites
    obtain ⟨⟨text, c1⟩, hitem, h⟩ := Option.bind_eq_some_iff.1 h
    obtain ⟨⟨cap', c2⟩, hgrow, h⟩ := Option.bind_eq_some_iff.1 h
    obtain ⟨hle, hrest⟩ := ih h
    rw [List.length_append] at hle hrest
    simp only [hitem, hgrow, List.map_append, hrest, List.map_map]
    refine ⟨by omega, ?_⟩
    have hrun : (List.range (itemText first quoted text).length).map
        (Prod.fst ∘ fun k => (out.length + k, cap')) =
          List.range' out.length (itemText first quoted text).length := by
      rw [List.range'_eq_map_range]
      rfl
    rw [hrun, List.range'_append_1]
    congr 1
    omega

theorem arrayTextWrites_indices {item : Nat → Cursor → Option (List UInt8 × Cursor)}
    {text : List UInt8} {c c' : Cursor} (h : readArrayText env item c = some (text, c')) :
    (arrayTextWrites env item c).map Prod.fst = List.range (text.length + 1) := by
  obtain ⟨⟨type, c1⟩, htype, h⟩ := Option.bind_eq_some_iff.1 h
  obtain ⟨⟨n, c2⟩, hn, h⟩ := Option.bind_eq_some_iff.1 h
  dsimp only at h
  split_ifs at h with hmany
  obtain ⟨c3, hmalloc, h⟩ := Option.bind_eq_some_iff.1 h
  obtain ⟨⟨out, c4⟩, hitems, h⟩ := Option.bind_eq_some_iff.1 h
  cases h
  obtain ⟨hle, hindices⟩ := arrayWrites_indices n hitems
  unfold arrayTextWrites
  simp only [htype, hn, if_neg hmany, hmalloc, List.map_cons]
  rw [show ([91] : List UInt8).length = 1 from rfl] at hindices hle
  rw [hindices, List.range_eq_range', List.length_append,
    show out.length + [(93 : UInt8)].length + 1 = out.length + 2 - 1 + 1 by
      rw [List.length_singleton]; omega, List.range'_succ]

end Text

section Example

/-- One string of 59 quotes. -/
def quotesArray : List UInt8 := leBytes 4 8 ++ (leBytes 8 1 ++ encodeString (List.replicate 59 34))

/-- 59 bytes and their backslashes go into a buffer of 64. -/
theorem quotesArray_overruns : ¬ ∀ (env : Libc) (fuel : Nat) (c : Cursor),
    Inside (arrayTextWrites env (readScalarValue env fuel) c) := by
  intro hclaim
  have hinside := hclaim ⟨fun _ => true, fun _ => [48], fun _ => [48]⟩ 1 ⟨quotesArray, 0, 0⟩
  have hover : (64, 64) ∈ arrayTextWrites ⟨fun _ => true, fun _ => [48], fun _ => [48]⟩
      (readScalarValue ⟨fun _ => true, fun _ => [48], fun _ => [48]⟩ 1) ⟨quotesArray, 0, 0⟩ := by
    decide +kernel
  exact absurd (hinside _ hover) (by decide)

end Example

end VgEngine.Gguf

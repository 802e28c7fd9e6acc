import Mathlib.Data.List.Infix
import Mathlib.Tactic.Ring

/-! UTF-8 as lists of bytes: the length a first byte announces, and where characters start. -/
namespace VgEngine.Lib.Utf8

/-- The encoding of a list of characters. -/
def utf8 (cs : List Char) : List UInt8 := cs.flatMap String.utf8EncodeChar

/-- A byte that does not start a character. -/
def Continues (b : UInt8) : Prop := 128 ≤ b.toNat ∧ b.toNat < 192

/-- The length of a character by its first byte. -/
def announced (b : UInt8) : Nat :=
  if 240 ≤ b.toNat then 4 else if 224 ≤ b.toNat then 3 else if 192 ≤ b.toNat then 2 else 1

/-- A first byte, and as many continuing ones as it announces. -/
structure IsForm (bytes : List UInt8) (first : UInt8) (rest : List UInt8) : Prop where
  eq : bytes = first :: rest
  starts : ¬ Continues first
  continues : ∀ b ∈ rest, Continues b
  length : announced first = rest.length + 1

variable {c d : Char} {cs ds : List Char} {xs ys : List UInt8}

theorem isForm_one {n : Nat} (h : n < 128) : IsForm [UInt8.ofNat n] (UInt8.ofNat n) [] := by
  have hn : (UInt8.ofNat n).toNat = n := by
    rw [UInt8.toNat_ofNat']
    omega
  refine ⟨rfl, ?_, by simp, ?_⟩
  · rw [Continues, hn]
    omega
  · rw [announced, hn, if_neg (by omega), if_neg (by omega), if_neg (by omega)]
    rfl

theorem continues_ofNat (n : Nat) : Continues (UInt8.ofNat (n % 64 + 128)) := by
  rw [Continues, UInt8.toNat_ofNat']
  omega

theorem isForm_of {n : Nat} {rest : List UInt8} (hrest : ∀ b ∈ rest, Continues b)
    (hlow : 192 ≤ n) (hhigh : n < 248)
    (hk : rest.length + 1 = if 240 ≤ n then 4 else if 224 ≤ n then 3 else 2) :
    IsForm (UInt8.ofNat n :: rest) (UInt8.ofNat n) rest := by
  have hn : (UInt8.ofNat n).toNat = n := by
    rw [UInt8.toNat_ofNat']
    omega
  refine ⟨rfl, ?_, hrest, ?_⟩
  · rw [Continues, hn]
    omega
  · rw [announced, hn, hk]
    split_ifs <;> omega

theorem encodeChar_form (c : Char) : ∃ first rest,
    IsForm (String.utf8EncodeChar c) first rest := by
  unfold String.utf8EncodeChar
  dsimp only
  split_ifs with h1 h2 h3
  · exact ⟨_, _, isForm_one (by omega)⟩
  · refine ⟨_, _, isForm_of ?_ (by omega) (by omega) ?_⟩
    · exact List.forall_mem_singleton.2 (continues_ofNat _)
    · rw [if_neg (by omega), if_neg (by omega)]
      rfl
  · refine ⟨_, _, isForm_of ?_ (by omega) (by omega) ?_⟩
    · exact List.forall_mem_cons.2 ⟨continues_ofNat _,
        List.forall_mem_singleton.2 (continues_ofNat _)⟩
    · rw [if_neg (by omega), if_pos (by omega)]
      rfl
  · refine ⟨_, _, isForm_of ?_ (by omega) (by omega) ?_⟩
    · exact List.forall_mem_cons.2 ⟨continues_ofNat _, List.forall_mem_cons.2
        ⟨continues_ofNat _, List.forall_mem_singleton.2 (continues_ofNat _)⟩⟩
    · rw [if_pos (by omega)]
      rfl

theorem encodeChar_inj (h : String.utf8EncodeChar c = String.utf8EncodeChar d) : c = d := by
  have hvalid (c : Char) : c.val.toNat < 0x110000 := by
    have := c.valid
    simp only [UInt32.isValidChar, Nat.isValidChar] at this
    omega
  have hc := hvalid c
  have hd := hvalid d
  apply Char.ext
  apply UInt32.toNat_inj.1
  unfold String.utf8EncodeChar at h
  dsimp only at h
  split_ifs at h <;>
    simp only [List.cons.injEq, ← UInt8.toNat_inj, UInt8.toNat_ofNat', reduceCtorEq, and_false,
      and_true] at h <;> omega

/-- An encoded character is determined by a text it stands at the head of. -/
theorem encodeChar_append_inj
    (h : String.utf8EncodeChar c ++ xs = String.utf8EncodeChar d ++ ys) : c = d ∧ xs = ys := by
  obtain ⟨first, rest, hc⟩ := encodeChar_form c
  obtain ⟨first', rest', hd⟩ := encodeChar_form d
  rw [hc.eq, hd.eq] at h
  obtain ⟨hfirst, htail⟩ := List.cons.inj h
  have hlength : rest.length = rest'.length := by
    have hannounced := hc.length
    rw [hfirst, hd.length] at hannounced
    omega
  obtain ⟨hrest, hxs⟩ := List.append_inj htail hlength
  refine ⟨encodeChar_inj ?_, hxs⟩
  rw [hc.eq, hd.eq, hfirst, hrest]

/-- Where one text is a prefix of another, so are its characters. -/
theorem isPrefix_of_utf8 (h : utf8 cs <+: utf8 ds) : cs <+: ds := by
  induction cs generalizing ds with
  | nil => exact List.nil_prefix
  | cons c cs ih =>
    obtain ⟨xs, hxs⟩ := h
    cases ds with
    | nil =>
      obtain ⟨first, rest, hc⟩ := encodeChar_form c
      simp [utf8, hc.eq] at hxs
    | cons d ds =>
      unfold utf8 at hxs
      rw [List.flatMap_cons, List.flatMap_cons, List.append_assoc] at hxs
      obtain ⟨rfl, htail⟩ := encodeChar_append_inj hxs
      obtain ⟨es, rfl⟩ := ih ⟨xs, htail⟩
      exact ⟨es, rfl⟩

theorem utf8_append (cs ds : List Char) : utf8 (cs ++ ds) = utf8 cs ++ utf8 ds :=
  List.flatMap_append

theorem utf8_cons (c : Char) (cs : List Char) :
    utf8 (c :: cs) = String.utf8EncodeChar c ++ utf8 cs := List.flatMap_cons

theorem utf8_inj (h : utf8 cs = utf8 ds) : cs = ds := by
  obtain ⟨es, rfl⟩ := isPrefix_of_utf8 (h ▸ List.prefix_rfl : utf8 cs <+: utf8 ds)
  rw [utf8_append] at h
  cases es with
  | nil => simp
  | cons e es =>
    obtain ⟨first, rest, he⟩ := encodeChar_form e
    have hlength := congrArg List.length h
    rw [List.length_append, utf8_cons, he.eq] at hlength
    simp at hlength

theorem head_of_suffix {rest : List UInt8} (hrest : ∀ b ∈ rest, Continues b)
    (h : xs <:+ rest ++ ys) {b : UInt8} (hb : xs.head? = some b) : Continues b ∨ xs <:+ ys := by
  induction rest with
  | nil => exact Or.inr h
  | cons r rest ih =>
    rw [List.cons_append] at h
    rcases List.suffix_cons_iff.1 h with rfl | h
    · rw [List.head?_cons, Option.some.injEq] at hb
      exact Or.inl (hb ▸ hrest r List.mem_cons_self)
    · exact ih (fun b hb => hrest b (List.mem_cons_of_mem r hb)) h

theorem announced_of_continues {b : UInt8} (h : Continues b) : announced b = 1 := by
  unfold Continues at h
  rw [announced, if_neg (by omega), if_neg (by omega), if_neg (by omega)]

/-- From any byte of a text on, there are as many bytes as it announces. -/
theorem announced_le (h : xs <:+ utf8 cs) {b : UInt8} (hb : xs.head? = some b) :
    announced b ≤ xs.length := by
  have hpos : 1 ≤ xs.length := by
    cases xs with
    | nil => cases hb
    | cons x xs => simp
  induction cs with
  | nil =>
    rw [List.suffix_nil.1 h] at hb
    cases hb
  | cons c cs ih =>
    obtain ⟨first, rest, hform⟩ := encodeChar_form c
    rw [utf8_cons, hform.eq, List.cons_append] at h
    rcases List.suffix_cons_iff.1 h with rfl | h
    · rw [List.head?_cons, Option.some.injEq] at hb
      rw [← hb, hform.length, List.length_cons, List.length_append]
      omega
    · rcases head_of_suffix hform.continues h hb with hcont | h
      · rw [announced_of_continues hcont]
        exact hpos
      · exact ih h

/-- An ASCII byte is a character of its own. -/
theorem toNat_eq_of_mem {b : UInt8} (hb : b.toNat < 128) (h : b ∈ String.utf8EncodeChar c) :
    c.val.toNat = b.toNat := by
  unfold String.utf8EncodeChar at h
  dsimp only at h
  split_ifs at h <;>
    simp only [List.mem_cons, ← UInt8.toNat_inj, UInt8.toNat_ofNat', List.not_mem_nil,
      or_false] at h <;> omega

theorem zero_notMem_utf8 (h : Char.ofNat 0 ∉ cs) : 0 ∉ utf8 cs := by
  intro hmem
  obtain ⟨c, hc, hzero⟩ := List.mem_flatMap.1 hmem
  have hc0 : c = Char.ofNat 0 := by
    apply Char.ext
    apply UInt32.toNat_inj.1
    exact toNat_eq_of_mem (by decide) hzero
  rw [hc0] at hc
  exact h hc

/-- Where a byte starts a character, the text before it and the text from it on are in UTF-8. -/
theorem utf8_split (h : xs ++ ys = utf8 cs) {b : UInt8} (hb : ys.head? = some b)
    (hstarts : ¬ Continues b) : ∃ as bs, cs = as ++ bs ∧ xs = utf8 as ∧ ys = utf8 bs := by
  induction cs generalizing xs with
  | nil =>
    rw [(List.append_eq_nil_iff.1 h).2] at hb
    cases hb
  | cons c cs ih =>
    cases xs with
    | nil => exact ⟨[], c :: cs, rfl, rfl, h⟩
    | cons x xs =>
      obtain ⟨first, rest, hform⟩ := encodeChar_form c
      rw [utf8_cons, hform.eq, List.cons_append, List.cons_append] at h
      obtain ⟨rfl, htail⟩ := List.cons.inj h
      rcases List.append_eq_append_iff.1 htail with ⟨zs, hrest, hys⟩ | ⟨zs, hxs, hcs⟩
      · cases zs with
        | nil =>
          rw [List.append_nil] at hrest
          refine ⟨[c], cs, rfl, ?_, hys⟩
          rw [utf8_cons, hform.eq, hrest]
          simp [utf8]
        | cons z zs =>
          rw [hys, List.cons_append, List.head?_cons, Option.some.injEq] at hb
          refine absurd ?_ hstarts
          rw [← hb]
          exact hform.continues z (by simp [hrest])
      · obtain ⟨as, bs, rfl, rfl, rfl⟩ := ih hcs.symm
        refine ⟨c :: as, bs, rfl, ?_, rfl⟩
        rw [utf8_cons, hform.eq, hxs]
        rfl

end VgEngine.Lib.Utf8

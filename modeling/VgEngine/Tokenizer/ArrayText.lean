import VgEngine.Gguf.Complete
import VgEngine.Tokenizer.Model

/-! The arrays of strings on their way from the file to the tokenizer: the text that the parser makes
of them, and the two passes over it. -/
namespace VgEngine.Tokenizer
open Bytes Lib Gguf Model

section Scan

/-- The next bytes of an entry go to a buffer of `cap` bytes, as far as they fit; `n` bytes of the
entry came before them. Without a buffer `cap` is 0. -/
def store (cap : Nat) (out : List UInt8) (n : Nat) (bytes : List UInt8) : List UInt8 :=
  if n < cap then out ++ bytes.take (cap - n) else out

/-- `scan_quoted` behind the opening quote, with what is in the buffer and the length so far. -/
def scanInto (cap : Nat) (out : List UInt8) (n : Nat) : List UInt8 → List UInt8 × Nat × List UInt8
  | [] => (out, n, [])
  | c :: p =>
    if c = 34 then (out, n, p)
    else if c = 92 then
      match p with
      | [] => (out, n, [])
      | e :: p =>
        if e = 117 then
          match p with
          | x :: y :: z :: w :: p =>
            let cp := hex4 x y z w
            match p with
            | c :: e :: x :: y :: z :: w :: q =>
              let lo := hex4 x y z w
              if 0xD800 ≤ cp ∧ cp ≤ 0xDBFF ∧ c = 92 ∧ e = 117 ∧ 0xDC00 ≤ lo ∧ lo ≤ 0xDFFF then
                let tmp := utf8Put (0x10000 + (cp - 0xD800) * 1024 + (lo - 0xDC00))
                scanInto cap (store cap out n tmp) (n + tmp.length) q
              else
                let tmp := utf8Put cp
                scanInto cap (store cap out n tmp) (n + tmp.length) (c :: e :: x :: y :: z :: w :: q)
            | p =>
              let tmp := utf8Put cp
              scanInto cap (store cap out n tmp) (n + tmp.length) p
          | p => (out, n, p)
        else scanInto cap (store cap out n [unescape e]) (n + 1) p
    else scanInto cap (store cap out n [c]) (n + 1) p

/-- `array_next`: what it writes and the length of the entry, and the cursor. -/
def arrayNextInto (cap : Nat) (advance : Bool) (pp : List UInt8) :
    Option (List UInt8 × Nat) × List UInt8 :=
  let p := pp.dropWhile isSeparator
  let p := if p.head? = some 91 then p.tail else p
  match p.dropWhile isSeparator with
  | 34 :: q =>
    let (out, n, rest) := scanInto cap [] 0 q
    (some (out, n), if advance then rest else pp)
  | p => (none, if advance then p else pp)

/-- The first pass: entries are counted, each scanned into a buffer of `cap` bytes. -/
def countEntries (cap : Nat) : Nat → List UInt8 → Nat
  | 0, _ => 0
  | fuel + 1, q =>
    match arrayNextInto cap true q with
    | (some _, q) => countEntries cap fuel q + 1
    | (none, _) => 0

/-- The second pass, over at most `n` entries: each is measured, then copied with its terminator. An
entry of the vocabulary gets its number as its id. -/
def loadEntries : Nat → Nat → List UInt8 → List (CString × Nat)
  | 0, _, _ => []
  | n + 1, id, p =>
    match arrayNextInto 0 false p with
    | (none, _) => []
    | (some (_, need), p) =>
      match arrayNextInto (need + 1) true p with
      | (none, _) => []
      | (some (text, _), p) => (.ofBytes (text.take need), id) :: loadEntries n (id + 1) p

/-- Both passes, the first with a scratch buffer: 1024 bytes for the vocabulary, 2048 for the
merges. -/
def twoPasses (scratch : Nat) (text : List UInt8) : List (CString × Nat) :=
  loadEntries (countEntries scratch text.length text) 0 text

theorem store_take (cap : Nat) (full bytes : List UInt8) :
    store cap (full.take cap) full.length bytes = (full ++ bytes).take cap := by
  unfold store
  rw [List.take_append]
  split_ifs with hlt
  · rfl
  · rw [Nat.sub_eq_zero_of_le (Nat.le_of_not_lt hlt), List.take_zero, List.append_nil]

/-- The buffer holds as much of the entry as fits, and the length is that of all of it. -/
def Scanned (cap : Nat) (full : List UInt8) (r : List UInt8 × List UInt8)
    (r' : List UInt8 × Nat × List UInt8) : Prop :=
  r' = ((full ++ r.1).take cap, full.length + r.1.length, r.2)

theorem scanned_nil (cap : Nat) (full p : List UInt8) :
    Scanned cap full ([], p) (full.take cap, full.length, p) := by
  unfold Scanned
  rw [List.append_nil, List.length_nil, Nat.add_zero]

/-- More bytes of the entry, then the rest of it. -/
theorem scanned_prepend {cap : Nat} {full p tmp : List UInt8}
    (h : ∀ full, Scanned cap full (scanQuoted p) (scanInto cap (full.take cap) full.length p)) :
    Scanned cap full (prepend tmp (scanQuoted p))
      (scanInto cap (store cap (full.take cap) full.length tmp) (full.length + tmp.length) p) := by
  have hrest := h (full ++ tmp)
  unfold Scanned at hrest ⊢
  rw [store_take, ← List.length_append, hrest]
  simp only [prepend, List.append_assoc, List.length_append, Nat.add_assoc]

theorem scanInto_scanned (cap : Nat) (full p : List UInt8) :
    Scanned cap full (scanQuoted p) (scanInto cap (full.take cap) full.length p) := by
  fun_induction scanQuoted p generalizing full with
  | case1 => exact scanned_nil cap full []
  | case2 p =>
    rw [scanInto.eq_def]
    exact scanned_nil cap full p
  | case3 h =>
    rw [scanInto.eq_def]
    exact scanned_nil cap full []
  | case4 x y z w cp c e x' y' z' w' q lo hpair h ih =>
    rw [scanInto.eq_def]
    dsimp only
    rw [if_neg h, if_pos rfl, if_pos rfl, if_pos hpair]
    exact scanned_prepend ih
  | case5 x y z w cp c e x' y' z' w' q lo hpair h ih =>
    rw [scanInto.eq_def]
    dsimp only
    rw [if_neg h, if_pos rfl, if_pos rfl, if_neg hpair]
    exact scanned_prepend ih
  | case6 x y z w cp p hp h ih =>
    rw [scanInto.eq_def]
    dsimp only
    rw [if_neg h, if_pos rfl, if_pos rfl]
    split
    · exact absurd rfl (hp _ _ _ _ _ _ _)
    · exact scanned_prepend ih
  | case7 p hp h =>
    rw [scanInto.eq_def]
    dsimp only
    rw [if_neg h, if_pos rfl, if_pos rfl]
    split
    · exact absurd rfl (hp _ _ _ _ _)
    · exact scanned_nil cap full p
  | case8 e p he h ih =>
    rw [scanInto.eq_def]
    dsimp only
    rw [if_neg h, if_pos rfl, if_neg he]
    exact scanned_prepend ih
  | case9 c p hquote hslash ih =>
    rw [scanInto.eq_def]
    dsimp only
    rw [if_neg hquote, if_neg hslash]
    exact scanned_prepend ih

/-- A scan from the start of an entry. -/
theorem scanInto_nil (cap : Nat) (p : List UInt8) :
    scanInto cap [] 0 p = ((scanQuoted p).1.take cap, (scanQuoted p).1.length, (scanQuoted p).2) := by
  have h := scanInto_scanned cap [] p
  unfold Scanned at h
  simpa using h

theorem arrayNextInto_some {p entry rest : List UInt8} (h : arrayNext p = some (entry, rest))
    (cap : Nat) (advance : Bool) : arrayNextInto cap advance p =
      (some (entry.take cap, entry.length), if advance then rest else p) := by
  unfold arrayNext at h
  unfold arrayNextInto
  dsimp only at h ⊢
  split at h
  · rename_i q hq
    simp only [hq, scanInto_nil, Option.some.inj h]
  · cases h

theorem arrayNextInto_none {p : List UInt8} (h : arrayNext p = none) (cap : Nat) (advance : Bool) :
    (arrayNextInto cap advance p).1 = none := by
  unfold arrayNext at h
  unfold arrayNextInto
  dsimp only at h ⊢
  split at h
  · cases h
  · rename_i hq
    first
    | rfl
    | split
      · rename_i q hq'
        exact absurd hq' (hq q)
      · rfl

theorem countEntries_eq (cap fuel : Nat) (p : List UInt8) :
    countEntries cap fuel p = (arrayEntries fuel p).length := by
  induction fuel generalizing p with
  | zero => rfl
  | succ fuel ih =>
    unfold countEntries arrayEntries
    cases h : arrayNext p with
    | none =>
      have hnone := arrayNextInto_none h cap true
      split
      · rename_i heq
        rw [heq] at hnone
        cases hnone
      · rfl
    | some r =>
      rw [arrayNextInto_some h cap true]
      exact congrArg (· + 1) (ih r.2)

/-- The second pass keeps each entry as it is up to its first NUL. -/
theorem loadEntries_eq (n id : Nat) (p : List UInt8) :
    loadEntries n id p = ((arrayEntries n p).map CString.ofBytes).zipIdx id := by
  induction n generalizing id p with
  | zero => rfl
  | succ n ih =>
    unfold loadEntries arrayEntries
    cases h : arrayNext p with
    | none =>
      have hnone := arrayNextInto_none h 0 false
      split
      · rfl
      · rename_i heq
        rw [heq] at hnone
        cases hnone
    | some r =>
      rw [arrayNextInto_some h 0 false]
      dsimp only
      rw [if_neg (by decide), arrayNextInto_some h _ true]
      dsimp only
      rw [List.take_take, Nat.min_eq_left (Nat.le_succ _), List.take_length, if_pos rfl, ih]
      rfl

theorem arrayEntries_length (fuel : Nat) (p : List UInt8) :
    arrayEntries (arrayEntries fuel p).length p = arrayEntries fuel p := by
  induction fuel generalizing p with
  | zero => rfl
  | succ fuel ih =>
    rw [arrayEntries]
    cases h : arrayNext p with
    | none => rfl
    | some r =>
      rw [List.length_cons, arrayEntries, h]
      exact congrArg (r.1 :: ·) (ih r.2)

/-- Whatever the size of the scratch buffer, the passes load the entries of the text, numbered. -/
theorem twoPasses_eq (scratch : Nat) (text : List UInt8) :
    twoPasses scratch text = (arrayStrings text).zipIdx := by
  unfold twoPasses arrayStrings
  rw [loadEntries_eq, countEntries_eq, arrayEntries_length]

end Scan

section RoundTrip

/-- An array of strings in a file. -/
def stringArray (ss : List CString) : MetaValue := .array 8 (ss.map fun s => .string s.val)

variable {env : Libc}

/-- The scanner undoes the escapes, and stops at the quote. -/
theorem scanQuoted_escape (s rest : List UInt8) :
    scanQuoted (escape s ++ 34 :: rest) = (s, rest) := by
  induction s with
  | nil =>
    rw [scanQuoted.eq_def]
    rfl
  | cons c s ih =>
    have hcons : escape (c :: s) = (if c = 34 ∨ c = 92 then [92, c] else [c]) ++ escape s := by
      unfold escape
      exact List.flatMap_cons
    rw [hcons, List.append_assoc]
    split_ifs with hescaped
    · -- neither a quote nor a backslash stands for anything else
      have hplain : c ≠ 117 ∧ unescape c = c := by
        rcases hescaped with rfl | rfl
        · decide
        · decide
      rw [scanQuoted.eq_def]
      simp only [List.cons_append, List.nil_append]
      rw [if_neg (by decide), if_pos trivial, if_neg hplain.1, hplain.2, ih]
      rfl
    · obtain ⟨hquote, hslash⟩ := not_or.1 hescaped
      rw [scanQuoted.eq_def]
      simp only [List.cons_append, List.nil_append]
      rw [if_neg hquote, if_neg hslash, ih]
      rfl

theorem arrayNext_comma (q : List UInt8) : arrayNext (44 :: 34 :: q) = some (scanQuoted q) := rfl

theorem arrayNext_bracket (q : List UInt8) : arrayNext (91 :: 34 :: q) = some (scanQuoted q) := rfl

theorem cstr_val (s : CString) : cstr s.val = s.val :=
  cstr_eq_self fun b hb h => s.property (h ▸ hb)

theorem ofBytes_val (s : CString) : CString.ofBytes s.val = s := Subtype.ext (cstr_val s)

/-- The text of the items, with the end of the array. -/
def itemsEnd (env : Libc) (first : Bool) (ss : List CString) : List UInt8 :=
  itemsText env escape true first (ss.map fun s => .string s.val) ++ [93]

theorem itemsEnd_cons (first : Bool) (s : CString) (ss : List CString) :
    itemsEnd env first (s :: ss) = (if first then [] else [44]) ++
      34 :: (escape s.val ++ 34 :: itemsEnd env false ss) := by
  unfold itemsEnd
  rw [List.map_cons, itemsText, MetaValue.text, cstr_val]
  simp

theorem text_stringArray (ss : List CString) :
    (stringArray ss).text env escape = 91 :: itemsEnd env true ss := by
  unfold stringArray itemsEnd
  rw [MetaValue.text]
  rfl

/-- Behind a separator. -/
theorem arrayEntries_itemsEnd {fuel : Nat} {ss : List CString} (h : ss.length ≤ fuel) :
    arrayEntries fuel (itemsEnd env false ss) = ss.map Subtype.val := by
  induction ss generalizing fuel with
  | nil => cases fuel <;> rfl
  | cons s ss ih =>
    obtain ⟨fuel, rfl⟩ := Nat.exists_eq_succ_of_ne_zero (Nat.ne_of_gt (Nat.lt_of_lt_of_le
      (Nat.succ_pos ss.length) h))
    rw [itemsEnd_cons, arrayEntries]
    simp only [Bool.false_eq_true, if_false, List.cons_append, List.nil_append, arrayNext_comma,
      scanQuoted_escape]
    rw [ih (Nat.le_of_succ_le_succ h)]
    rfl

theorem length_le_itemsEnd (first : Bool) (ss : List CString) :
    ss.length ≤ (itemsEnd env first ss).length := by
  induction ss generalizing first with
  | nil => exact Nat.zero_le _
  | cons s ss ih =>
    have hrest := ih false
    rw [itemsEnd_cons]
    simp only [List.length_append, List.length_cons]
    omega

/-- The entries of the text of an array are the strings that it was made of. -/
theorem arrayStrings_text (ss : List CString) :
    arrayStrings ((stringArray ss).text env escape) = ss := by
  have hentries : arrayEntries ((stringArray ss).text env escape).length
      ((stringArray ss).text env escape) = ss.map Subtype.val := by
    rw [text_stringArray, List.length_cons, arrayEntries]
    cases ss with
    | nil => rfl
    | cons s ss =>
      have hlength : ss.length ≤ (itemsEnd env false ss).length := length_le_itemsEnd false ss
      rw [itemsEnd_cons]
      simp only [if_true, List.nil_append, arrayNext_bracket, scanQuoted_escape]
      rw [arrayEntries_itemsEnd]
      · rfl
      · simp only [List.length_append, List.length_cons]
        omega
  unfold arrayStrings
  rw [hentries, List.map_map]
  exact List.map_id'' ofBytes_val ss

theorem length_escape_le (s : List UInt8) : (escape s).length ≤ 2 * s.length := by
  unfold escape
  induction s with
  | nil => exact Nat.le_refl 0
  | cons c s ih =>
    rw [List.flatMap_cons, List.length_append, List.length_cons]
    split_ifs
    · simp only [List.length_cons, List.length_nil]
      omega
    · simp only [List.length_cons, List.length_nil]
      omega

theorem length_itemsEnd_le {ss : List CString} (hlen : ∀ s ∈ ss, s.val.length ≤ 2 ^ 20)
    (first : Bool) : (itemsEnd env first ss).length ≤ ss.length * (2 ^ 21 + 3) + 1 := by
  induction ss generalizing first with
  | nil => exact Nat.le_refl 1
  | cons s ss ih =>
    have hs := length_escape_le s.val
    have hsize := hlen s List.mem_cons_self
    have hrest := ih (fun s' hs' => hlen s' (List.mem_cons_of_mem s hs')) false
    have hseparator : (if first then [] else [(44 : UInt8)]).length ≤ 1 := by
      split_ifs <;> simp
    rw [itemsEnd_cons]
    simp only [List.length_append, List.length_cons]
    omega

theorem not_mem_itemsEnd (first : Bool) (ss : List CString) : 0 ∉ itemsEnd env first ss := by
  induction ss generalizing first with
  | nil => exact (by decide : (0 : UInt8) ∉ [(93 : UInt8)])
  | cons s ss ih =>
    have hescape : 0 ∉ escape s.val := by
      unfold escape
      rw [List.mem_flatMap]
      rintro ⟨c, hc, hmem⟩
      split_ifs at hmem
      · rcases List.mem_cons.1 hmem with h | h
        · cases h
        · exact s.property (List.mem_singleton.1 h ▸ hc)
      · exact s.property (List.mem_singleton.1 hmem ▸ hc)
    rw [itemsEnd_cons]
    simp [hescape, ih]

theorem stringArray_valid {ss : List CString} (hcount : ss.length ≤ 2 ^ 20)
    (hlen : ∀ s ∈ ss, s.val.length ≤ 2 ^ 20) : (stringArray ss).Valid := by
  refine ⟨by decide, by rwa [List.length_map], ?_⟩
  clear hcount
  induction ss with
  | nil => trivial
  | cons s ss ih =>
    exact ⟨rfl, hlen s List.mem_cons_self, ih fun s' hs' => hlen s' (List.mem_cons_of_mem s hs')⟩

end RoundTrip

/-- Strings within the limits of the readers: their array is read as a C string, and the passes over
it load them as they are, each under its position. -/
theorem stringArray_roundTrip {env : Libc} (hmem : env.Plenty) {ss : List CString}
    (hcount : ss.length ≤ 2 ^ 20) (hlen : ∀ s ∈ ss, s.val.length ≤ 2 ^ 20) {c : Cursor}
    {r : List UInt8} (h : c.rest = (stringArray ss).encode ++ r) :
    ∃ text c', readArrayText env (readScalarValue env c.rest.length) c = some (text, c') ∧
      c'.rest = r ∧ 0 ∉ text ∧ ∀ scratch, twoPasses scratch text = ss.zipIdx := by
  have hsize : ((stringArray ss).text env escape).length < 2 ^ 63 := by
    have hle : (itemsEnd env true ss).length ≤ ss.length * (2 ^ 21 + 3) + 1 :=
      length_itemsEnd_le hlen true
    rw [text_stringArray, List.length_cons]
    omega
  have hfuel : (encodeItems (ss.map fun s => .string s.val)).length < c.rest.length := by
    rw [h, List.length_append, stringArray, MetaValue.encode]
    simp only [List.length_append, length_leBytes]
    omega
  obtain ⟨c', hread, hreads⟩ := readArrayText_of_rest hmem
    (fun v _ => readScalarValue_of_rest hmem v c.rest.length) h (stringArray_valid hcount hlen)
    hfuel hsize
  refine ⟨_, c', hread, hreads.rest_eq h, ?_, fun scratch => ?_⟩
  · change 0 ∉ (stringArray ss).text env escape
    rw [text_stringArray]
    exact List.not_mem_cons_of_ne_of_not_mem (by decide) (not_mem_itemsEnd true ss)
  · rw [twoPasses_eq]
    exact congrArg List.zipIdx (arrayStrings_text ss)

section Example

/-- All of the characters that the text form or the scanner treats in a special way. -/
def awkward : List CString :=
  [⟨[97, 34, 98], by decide⟩, ⟨[92, 110], by decide⟩, ⟨[44, 93, 91, 10], by decide⟩, ⟨[], by decide⟩,
    ⟨[92, 117, 48, 48, 50, 50], by decide⟩]

theorem stringArray_roundTrip_awkward : ∃ text c',
    readArrayText plainLibc (readScalarValue plainLibc (stringArray awkward).encode.length)
      ⟨(stringArray awkward).encode, 0, 0⟩ = some (text, c') ∧
      c'.rest = [] ∧ 0 ∉ text ∧ ∀ scratch, twoPasses scratch text = awkward.zipIdx :=
  stringArray_roundTrip (fun _ => rfl) (by decide) (by decide) (List.append_nil _).symm

end Example

/-- A list of more strings than the reader admits is refused. -/
theorem readArrayText_of_many {env : Libc} {ss : List CString} (hcount : 2 ^ 20 < ss.length)
    (hword : ss.length < 2 ^ 64) {item : Nat → Cursor → Option (List UInt8 × Cursor)} {c : Cursor}
    {r : List UInt8} (h : c.rest = (stringArray ss).encode ++ r) :
    readArrayText env item c = none := by
  rw [stringArray, MetaValue.encode, List.append_assoc, List.append_assoc, List.length_map] at h
  obtain ⟨c1, h1, hreads1⟩ := u32_of_rest (by decide) h
  obtain ⟨c2, h2, -⟩ := u64_of_rest hword (hreads1.rest_eq h)
  simp only [readArrayText, h1, h2, Option.bind_eq_bind, Option.bind_some, if_pos hcount]

/-- The limit on the number of strings is felt. -/
theorem long_array_refused : ¬ ∀ (env : Libc), env.Plenty → ∀ (ss : List CString) (c : Cursor)
    (r : List UInt8), c.rest = (stringArray ss).encode ++ r →
      ∃ text c', readArrayText env (readScalarValue env c.rest.length) c = some (text, c') ∧
        ∀ scratch, twoPasses scratch text = ss.zipIdx := by
  intro h
  let ss : List CString := List.replicate (2 ^ 20 + 1) ⟨[], by decide⟩
  have hlength : ss.length = 2 ^ 20 + 1 := List.length_replicate
  have hrest : (⟨(stringArray ss).encode, 0, 0⟩ : Cursor).rest = (stringArray ss).encode ++ [] :=
    (List.append_nil _).symm
  obtain ⟨text, c', hread, -⟩ := h plainLibc (fun _ => rfl) ss _ [] hrest
  rw [readArrayText_of_many (by omega) (by omega) hrest] at hread
  cases hread

end VgEngine.Tokenizer

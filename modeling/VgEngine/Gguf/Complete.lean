import VgEngine.Gguf.AcceptIndex

/-! The converse of acceptance: when every allocation succeeds, the readers get
through the encoding of any valid value whose text fits in memory. -/
namespace VgEngine.Gguf
open Bytes

theorem Reads.rest_eq {c c' : Cursor} {s r : List UInt8} (h : Reads c s c')
    (hr : c.rest = s ++ r) : c'.rest = r :=
  List.append_cancel_left (h.rest.symm.trans hr)

theorem rd_of_rest {c : Cursor} {n : Nat} {s r : List UInt8} (hn : s.length = n)
    (h : c.rest = s ++ r) : ∃ c', rd n c = some (s, c') ∧ Reads c s c' := by
  subst hn
  refine ⟨{ c with rest := r, pos := c.pos + s.length }, ?_, ⟨h, rfl⟩⟩
  simp [rd, h]

theorem word_of_rest {c : Cursor} {width n : Nat} {r : List UInt8} (hn : n < 256 ^ width)
    (h : c.rest = leBytes width n ++ r) :
    ∃ c', (rd width c).map (fun p => (leNat p.1, p.2)) = some (n, c') ∧
      Reads c (leBytes width n) c' := by
  obtain ⟨c', hrd, hreads⟩ := rd_of_rest (length_leBytes width n) h
  exact ⟨c', by simp [hrd, leNat_leBytes width n hn], hreads⟩

theorem u32_of_rest {c : Cursor} {n : Nat} {r : List UInt8} (hn : n < 2 ^ 32)
    (h : c.rest = leBytes 4 n ++ r) : ∃ c', u32 c = some (n, c') ∧ Reads c (leBytes 4 n) c' :=
  word_of_rest hn h

theorem u64_of_rest {c : Cursor} {n : Nat} {r : List UInt8} (hn : n < 2 ^ 64)
    (h : c.rest = leBytes 8 n ++ r) : ∃ c', u64 c = some (n, c') ∧ Reads c (leBytes 8 n) c' :=
  word_of_rest hn h

/-- No allocation of the parse fails. -/
def Libc.Plenty (env : Libc) : Prop := ∀ n, env.mallocOk n = true

section
variable {env : Libc} (hmem : env.Plenty)
include hmem

theorem malloc_of_plenty (c : Cursor) : ∃ c', malloc env c = some c' ∧ Reads c [] c' :=
  ⟨{ c with mallocs := c.mallocs + 1 }, by simp [malloc, hmem c.mallocs], ⟨rfl, rfl⟩⟩

theorem readString_of_rest {c : Cursor} {s r : List UInt8} (hs : s.length ≤ 2 ^ 20)
    (h : c.rest = encodeString s ++ r) :
    ∃ c', readString env c = some (cstr s, c') ∧ Reads c (encodeString s) c' := by
  rw [encodeString, List.append_assoc] at h
  obtain ⟨c1, hn, hreads1⟩ := u64_of_rest (by omega) h
  obtain ⟨c2, hm, hreads2⟩ := malloc_of_plenty hmem c1
  have hreads12 := hreads1.trans_nil hreads2
  obtain ⟨c3, hrd, hreads3⟩ := rd_of_rest rfl (hreads12.rest_eq h)
  refine ⟨c3, ?_, hreads12.trans hreads3⟩
  simp only [readString, hn, hm, hrd, Option.bind_eq_bind, Option.bind_some,
    if_neg (Nat.not_lt.2 hs)]

theorem readNumber_of_rest {c : Cursor} {width n : Nat} {format : Nat → List UInt8}
    {r : List UInt8} (hn : n < 256 ^ width) (h : c.rest = leBytes width n ++ r) :
    ∃ c', readNumber env width format c = some (format n, c') ∧
      Reads c (leBytes width n) c' := by
  obtain ⟨c1, hrd, hreads1⟩ := rd_of_rest (length_leBytes width n) h
  obtain ⟨c2, hm, hreads2⟩ := malloc_of_plenty hmem c1
  refine ⟨c2, ?_, hreads1.trans_nil hreads2⟩
  simp [readNumber, hrd, hm, leNat_leBytes width n hn]

/-- A capacity that is a power of two reaches any need below 2^63. -/
theorem growTo_of_plenty {need : Nat} (hneed : need < 2 ^ 63) (fuel j : Nat) (hj : j ≤ 63)
    (hfuel : 64 ≤ j + fuel) (c : Cursor) :
    ∃ j' c', j' ≤ 63 ∧ j ≤ j' ∧ growTo env fuel need (2 ^ j) c = some (2 ^ j', c') ∧
      Reads c [] c' := by
  induction fuel generalizing j c with
  | zero => omega
  | succ fuel ih =>
    by_cases hlt : need < 2 ^ j
    · exact ⟨j, c, hj, le_rfl, by simp [growTo, hlt], ⟨rfl, rfl⟩⟩
    · have hj' : j < 63 := by
        by_contra hcon
        obtain rfl : j = 63 := by omega
        omega
      have hcap : ¬ sizeMax / 2 < 2 ^ j := by
        have : 2 ^ j ≤ 2 ^ 62 := Nat.pow_le_pow_right (by decide) (by omega)
        unfold sizeMax
        omega
      obtain ⟨c1, hm, hreads1⟩ := malloc_of_plenty hmem c
      obtain ⟨j', c', hj'63, hle, hgrow, hreads2⟩ := ih (j + 1) (by omega) (by omega) c1
      refine ⟨j', c', hj'63, by omega, ?_, hreads1.nil_trans hreads2⟩
      simp [growTo, hlt, hcap, hm, ← Nat.pow_succ, hgrow]

end

theorem length_le_escape (s : List UInt8) : s.length ≤ (escape s).length := by
  induction s with
  | nil => simp
  | cons b bs ih =>
    have hcons : escape (b :: bs) = (if b = 34 ∨ b = 92 then [92, b] else [b]) ++ escape bs := by
      simp [escape]
    rw [hcons, List.length_append, List.length_cons]
    split <;> simp only [List.length_cons, List.length_nil] <;> omega

theorem itemNeed_le (len : Nat) (first quoted : Bool) (text : List UInt8) :
    itemNeed len first quoted text ≤ len + (itemText first quoted text).length + 1 := by
  have hesc := length_le_escape text
  cases first <;> cases quoted <;> simp [itemNeed, itemText] <;> omega

theorem length_encode_item {v : MetaValue} {vs : List MetaValue} :
    (encodeItems (v :: vs)).length = v.encode.length + (encodeItems vs).length := by
  simp [encodeItems]

variable {env : Libc}

/-- What completeness says of one value, for a given amount of fuel. -/
def CompleteAt (env : Libc) (fuel : Nat) (v : MetaValue) : Prop :=
  ∀ c r, c.rest = v.encode ++ r → v.Valid → v.encode.length < fuel →
    (v.text env escape).length < 2 ^ 63 →
    ∃ c', readScalarValue env fuel v.typeCode c = some (v.text env escape, c') ∧
      Reads c v.encode c'

theorem arrayItems_of_rest (hmem : env.Plenty) {fuel elem : Nat} (quoted first : Bool)
    {items : List MetaValue} (hitems : ∀ v ∈ items, CompleteAt env fuel v) (j : Nat)
    (out : List UInt8) {r : List UInt8} {c : Cursor} (hj : 6 ≤ j) (hj' : j ≤ 63)
    (h : c.rest = encodeItems items ++ r) (hvalid : ValidItems elem items)
    (hfuel : (encodeItems items).length < fuel)
    (htext : out.length + (itemsText env escape quoted first items).length + 1 < 2 ^ 63) :
    ∃ c', arrayItems env (readScalarValue env fuel elem) quoted items.length first out (2 ^ j) c =
      some (out ++ itemsText env escape quoted first items, c') ∧
        Reads c (encodeItems items) c' := by
  induction items generalizing first out j c with
  | nil => exact ⟨c, by simp [arrayItems, itemsText], ⟨rfl, rfl⟩⟩
  | cons v vs ih =>
    obtain ⟨htype, hv, hvs⟩ := hvalid
    have hsplit : itemsText env escape quoted first (v :: vs) =
        itemText first quoted (v.text env escape) ++ itemsText env escape quoted false vs := by
      simp [itemsText, itemText]
    rw [hsplit, List.length_append] at htext
    rw [length_encode_item] at hfuel
    rw [encodeItems, List.append_assoc] at h
    have hneed := itemNeed_le out.length first quoted (v.text env escape)
    have htv : (v.text env escape).length < 2 ^ 63 := by
      unfold itemNeed at hneed
      omega
    obtain ⟨c1, hread, hreads1⟩ :=
      hitems v List.mem_cons_self c _ h hv (by omega) htv
    rw [htype] at hread
    obtain ⟨j', c2, hj63, hle, hgrow, hreads2⟩ := growTo_of_plenty hmem
      (show itemNeed out.length first quoted (v.text env escape) < 2 ^ 63 by omega) 64 j hj'
      (by omega) c1
    have hreads12 := hreads1.trans_nil hreads2
    obtain ⟨c3, hrest, hreads3⟩ := ih false (fun w hw => hitems w (List.mem_cons_of_mem _ hw))
      j' (out ++ itemText first quoted (v.text env escape)) (by omega) hj63 (hreads12.rest_eq h) hvs (by omega)
      (by rw [List.length_append]; omega)
    refine ⟨c3, ?_, ?_⟩
    · simp only [List.length_cons, arrayItems, hread, hgrow, hrest, hsplit, List.append_assoc,
        Option.bind_eq_bind, Option.bind_some]
    · rw [encodeItems]
      exact hreads12.trans hreads3

theorem readArrayText_of_rest (hmem : env.Plenty) {fuel elem : Nat} {items : List MetaValue}
    (hitems : ∀ v ∈ items, CompleteAt env fuel v) {r : List UInt8} {c : Cursor}
    (h : c.rest = (MetaValue.array elem items).encode ++ r)
    (hvalid : (MetaValue.array elem items).Valid) (hfuel : (encodeItems items).length < fuel)
    (htext : ((MetaValue.array elem items).text env escape).length < 2 ^ 63) :
    ∃ c', readArrayText env (readScalarValue env fuel) c =
      some ((MetaValue.array elem items).text env escape, c') ∧
        Reads c (MetaValue.array elem items).encode c' := by
  obtain ⟨helem, hcount, hall⟩ := hvalid
  rw [MetaValue.encode, List.append_assoc, List.append_assoc] at h
  obtain ⟨c1, h1, hreads1⟩ := u32_of_rest helem h
  obtain ⟨c2, h2, hreads2⟩ := u64_of_rest (by omega) (hreads1.rest_eq h)
  obtain ⟨c3, h3, hreads3⟩ := malloc_of_plenty hmem c2
  have hreads23 := hreads2.trans_nil hreads3
  simp only [MetaValue.text, List.length_append, List.length_cons, List.length_nil] at htext
  obtain ⟨c4, h4, hreads4⟩ := arrayItems_of_rest hmem (elem == 8) true hitems 6 [91]
    (by decide) (by decide)
    (hreads23.rest_eq (hreads1.rest_eq h)) hall hfuel
    (by simp only [List.length_cons, List.length_nil]; omega)
  rw [show (2 : Nat) ^ 6 = 64 by decide] at h4
  refine ⟨c4, ?_, ?_⟩
  · simp only [readArrayText, h1, h2, h3, h4, Option.bind_eq_bind, Option.bind_some,
      if_neg (Nat.not_lt.2 hcount), MetaValue.text, List.cons_append, List.nil_append]
  · rw [MetaValue.encode]
    exact (hreads1.trans hreads23).trans hreads4

theorem readScalarValue_of_rest (hmem : env.Plenty) (v : MetaValue) :
    ∀ fuel, CompleteAt env fuel v := by
  induction v using MetaValue.rec
    (motive_2 := fun vs => ∀ v ∈ vs, ∀ fuel, CompleteAt env fuel v) with
  | int t v =>
    intro fuel c r h hvalid hfuel htext
    obtain ⟨fuel, rfl⟩ := Nat.exists_eq_succ_of_ne_zero (show fuel ≠ 0 by omega)
    have hlt : t.word v < 256 ^ t.width := by
      simpa [Nat.pow_mul] using t.word_lt v
    obtain ⟨c', hread, hreads⟩ := readNumber_of_rest hmem hlt h
    refine ⟨c', ?_, hreads⟩
    rw [MetaValue.Valid] at hvalid
    simp only [MetaValue.typeCode, Nat.succ_eq_add_one, readScalarValue_int, MetaValue.text]
    rw [hread, t.value_word hvalid]
  | float32 bits =>
    intro fuel c r h hvalid hfuel htext
    obtain ⟨fuel, rfl⟩ := Nat.exists_eq_succ_of_ne_zero (show fuel ≠ 0 by omega)
    obtain ⟨c', hread, hreads⟩ := readNumber_of_rest hmem hvalid h
    exact ⟨c', by rw [MetaValue.text]; exact hread, hreads⟩
  | float64 bits =>
    intro fuel c r h hvalid hfuel htext
    obtain ⟨fuel, rfl⟩ := Nat.exists_eq_succ_of_ne_zero (show fuel ≠ 0 by omega)
    obtain ⟨c', hread, hreads⟩ := readNumber_of_rest hmem hvalid h
    exact ⟨c', by rw [MetaValue.text]; exact hread, hreads⟩
  | bool raw =>
    intro fuel c r h hvalid hfuel htext
    obtain ⟨fuel, rfl⟩ := Nat.exists_eq_succ_of_ne_zero (show fuel ≠ 0 by omega)
    have hencode : (MetaValue.bool raw).encode = leBytes 1 raw.toNat := by
      simp [MetaValue.encode, leBytes]
    rw [hencode] at h ⊢
    obtain ⟨c', hread, hreads⟩ := readNumber_of_rest hmem (by simpa using raw.toNat_lt) h
    exact ⟨c', by rw [MetaValue.text]; exact hread, hreads⟩
  | string s =>
    intro fuel c r h hvalid hfuel htext
    obtain ⟨fuel, rfl⟩ := Nat.exists_eq_succ_of_ne_zero (show fuel ≠ 0 by omega)
    obtain ⟨c', hread, hreads⟩ := readString_of_rest hmem hvalid h
    exact ⟨c', by rw [MetaValue.text]; exact hread, hreads⟩
  | array elem items ih =>
    intro fuel c r h hvalid hfuel htext
    obtain ⟨fuel, rfl⟩ := Nat.exists_eq_succ_of_ne_zero (show fuel ≠ 0 by omega)
    have hlen : (encodeItems items).length < fuel := by
      simp only [MetaValue.encode, List.length_append, length_leBytes] at hfuel
      omega
    exact readArrayText_of_rest hmem (fun v hv => ih v hv fuel) h hvalid hlen htext
  | nil =>
    rename_i w hw fuel
    simp at hw
  | cons v vs ihv ihvs =>
    rename_i w hw fuel
    rcases List.mem_cons.1 hw with rfl | hw
    · exact ihv fuel
    · exact ihvs w hw fuel

end VgEngine.Gguf

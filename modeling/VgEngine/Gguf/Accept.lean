import VgEngine.Gguf.Layout

/-! What the readers accept is well formed: the bytes a successful reader consumed
are the encoding of a valid value, and its result is the text of that value. -/
namespace VgEngine.Gguf
open Bytes

/-- The reader went from `c` to `c'` over exactly the bytes `s`. -/
structure Reads (c : Cursor) (s : List UInt8) (c' : Cursor) : Prop where
  rest : c.rest = s ++ c'.rest
  pos : c'.pos = c.pos + s.length

namespace Reads

theorem trans {c c' c'' : Cursor} {s t : List UInt8} (h : Reads c s c') (h' : Reads c' t c'') :
    Reads c (s ++ t) c'' := by
  constructor
  · rw [h.rest, h'.rest, List.append_assoc]
  · rw [h'.pos, h.pos, List.length_append, Nat.add_assoc]

theorem trans_nil {c c' c'' : Cursor} {s : List UInt8} (h : Reads c s c') (h' : Reads c' [] c'') :
    Reads c s c'' := by
  simpa using h.trans h'

theorem nil_trans {c c' c'' : Cursor} {s : List UInt8} (h : Reads c [] c') (h' : Reads c' s c'') :
    Reads c s c'' := by
  simpa using h.trans h'

end Reads

theorem rd_reads {n : Nat} {c c' : Cursor} {b : List UInt8} (h : rd n c = some (b, c')) :
    Reads c b c' ∧ b.length = n := by
  unfold rd at h
  split at h
  · simp only [Option.some.injEq, Prod.mk.injEq] at h
    obtain ⟨rfl, rfl⟩ := h
    refine ⟨⟨?_, ?_⟩, ?_⟩
    · simp
    · simp; omega
    · simp; omega
  · simp at h

theorem word_reads {width n : Nat} {c c' : Cursor}
    (h : (rd width c).map (fun p => (leNat p.1, p.2)) = some (n, c')) :
    Reads c (leBytes width n) c' ∧ n < 256 ^ width := by
  obtain ⟨⟨b, c1⟩, hrd, heq⟩ := Option.map_eq_some_iff.1 h
  obtain ⟨rfl, rfl⟩ := Prod.mk.injEq .. ▸ heq
  obtain ⟨hreads, rfl⟩ := rd_reads hrd
  exact ⟨by rwa [leBytes_leNat], leNat_lt b⟩

theorem u32_reads {n : Nat} {c c' : Cursor} (h : u32 c = some (n, c')) :
    Reads c (leBytes 4 n) c' ∧ n < 2 ^ 32 :=
  word_reads h

theorem u64_reads {n : Nat} {c c' : Cursor} (h : u64 c = some (n, c')) :
    Reads c (leBytes 8 n) c' ∧ n < 2 ^ 64 :=
  word_reads h

variable {env : Libc}

theorem malloc_reads {c c' : Cursor} (h : malloc env c = some c') : Reads c [] c' := by
  unfold malloc at h
  split at h
  · cases h
    exact ⟨rfl, rfl⟩
  · simp at h

theorem readString_reads {s : List UInt8} {c c' : Cursor} (h : readString env c = some (s, c')) :
    ∃ raw : List UInt8, Reads c (encodeString raw) c' ∧ s = cstr raw ∧ raw.length ≤ 2 ^ 20 := by
  obtain ⟨⟨n, c1⟩, hn, h⟩ := Option.bind_eq_some_iff.1 h
  dsimp only at h
  split at h
  · simp at h
  · obtain ⟨c2, hm, h⟩ := Option.bind_eq_some_iff.1 h
    obtain ⟨⟨raw, c3⟩, hrd, h⟩ := Option.bind_eq_some_iff.1 h
    simp only [Option.some.injEq, Prod.mk.injEq] at h
    obtain ⟨rfl, rfl⟩ := h
    obtain ⟨hraw, rfl⟩ := rd_reads hrd
    refine ⟨raw, ?_, rfl, by omega⟩
    exact (u64_reads hn).1.trans ((malloc_reads hm).nil_trans hraw)

theorem readNumber_reads {width : Nat} {format : Nat → List UInt8} {s : List UInt8}
    {c c' : Cursor} (h : readNumber env width format c = some (s, c')) :
    ∃ n, Reads c (leBytes width n) c' ∧ n < 256 ^ width ∧ s = format n := by
  obtain ⟨⟨b, c1⟩, hrd, h⟩ := Option.bind_eq_some_iff.1 h
  obtain ⟨c2, hm, h⟩ := Option.bind_eq_some_iff.1 h
  simp only [Option.some.injEq, Prod.mk.injEq] at h
  obtain ⟨rfl, rfl⟩ := h
  obtain ⟨hraw, rfl⟩ := rd_reads hrd
  exact ⟨leNat b, by rw [leBytes_leNat]; exact hraw.trans_nil (malloc_reads hm), leNat_lt b, rfl⟩

theorem growTo_reads {fuel need cap cap' : Nat} {c c' : Cursor}
    (h : growTo env fuel need cap c = some (cap', c')) : Reads c [] c' := by
  induction fuel generalizing cap c with
  | zero => simp [growTo] at h
  | succ fuel ih =>
    unfold growTo at h
    split at h
    · simp only [Option.some.injEq, Prod.mk.injEq] at h
      obtain ⟨-, rfl⟩ := h
      exact ⟨rfl, rfl⟩
    · split at h
      · simp at h
      · obtain ⟨c1, hm, h⟩ := Option.bind_eq_some_iff.1 h
        exact (malloc_reads hm).nil_trans (ih h)

/-- A reader of values of one type that only accepts encodings. -/
def SoundItem (env : Libc) (elem : Nat) (item : Cursor → Option (List UInt8 × Cursor)) : Prop :=
  ∀ c s c', item c = some (s, c') → ∃ v : MetaValue, v.typeCode = elem ∧ v.Valid ∧
    Reads c v.encode c' ∧ s = v.text env escape

theorem arrayItems_reads {elem : Nat} {item : Cursor → Option (List UInt8 × Cursor)}
    (hitem : SoundItem env elem item) {quoted first : Bool} {n cap : Nat} {out out' : List UInt8}
    {c c' : Cursor} (h : arrayItems env item quoted n first out cap c = some (out', c')) :
    ∃ items : List MetaValue, items.length = n ∧ ValidItems elem items ∧
      Reads c (encodeItems items) c' ∧ out' = out ++ itemsText env escape quoted first items := by
  induction n generalizing first out cap c with
  | zero =>
    simp only [arrayItems, Option.some.injEq, Prod.mk.injEq] at h
    obtain ⟨rfl, rfl⟩ := h
    exact ⟨[], rfl, trivial, ⟨rfl, rfl⟩, by simp [itemsText]⟩
  | succ n ih =>
    obtain ⟨⟨text, c1⟩, htext, h⟩ := Option.bind_eq_some_iff.1 h
    obtain ⟨⟨cap1, c2⟩, hgrow, h⟩ := Option.bind_eq_some_iff.1 h
    obtain ⟨v, htype, hvalid, hreads, rfl⟩ := hitem c text c1 htext
    obtain ⟨items, hlen, hitems, hrest, rfl⟩ := ih h
    refine ⟨v :: items, by simp [hlen], ⟨htype, hvalid, hitems⟩, ?_, ?_⟩
    · exact hreads.trans ((growTo_reads hgrow).nil_trans hrest)
    · simp [itemsText, itemText]

theorem readArrayText_reads {item : Nat → Cursor → Option (List UInt8 × Cursor)}
    (hitem : ∀ elem, SoundItem env elem (item elem)) {s : List UInt8} {c c' : Cursor}
    (h : readArrayText env item c = some (s, c')) :
    ∃ elem items, (MetaValue.array elem items).Valid ∧
      Reads c (MetaValue.array elem items).encode c' ∧
      s = (MetaValue.array elem items).text env escape := by
  obtain ⟨⟨elem, c1⟩, helem, h⟩ := Option.bind_eq_some_iff.1 h
  obtain ⟨⟨n, c2⟩, hn, h⟩ := Option.bind_eq_some_iff.1 h
  dsimp only at h
  split at h
  · simp at h
  · obtain ⟨c3, hm, h⟩ := Option.bind_eq_some_iff.1 h
    obtain ⟨⟨out, c4⟩, hout, h⟩ := Option.bind_eq_some_iff.1 h
    simp only [Option.some.injEq, Prod.mk.injEq] at h
    obtain ⟨rfl, rfl⟩ := h
    obtain ⟨items, rfl, hvalid, hreads, rfl⟩ := arrayItems_reads (hitem elem) hout
    obtain ⟨helem, hlt⟩ := u32_reads helem
    refine ⟨elem, items, ⟨hlt, by omega, hvalid⟩, ?_, by simp [MetaValue.text]⟩
    exact (helem.trans (u64_reads hn).1).trans ((malloc_reads hm).nil_trans hreads)

/-- Every integer case of the source's switch is one reader, indexed by its type. -/
theorem readScalarValue_int (fuel : Nat) (t : IntType) (c : Cursor) :
    readScalarValue env (fuel + 1) t.code c =
      readNumber env t.width (fun n => decimalInt (t.value n)) c := by
  cases t <;> simp only [IntType.code, readScalarValue, IntType.value, IntType.width,
    IntType.signed] <;> rfl

theorem readNumber_int_reads {t : IntType} {s : List UInt8} {c c' : Cursor}
    (h : readNumber env t.width (fun n => decimalInt (t.value n)) c = some (s, c')) :
    ∃ v, t.Fits v ∧ Reads c (MetaValue.int t v).encode c' ∧
      s = (MetaValue.int t v).text env escape := by
  obtain ⟨n, hreads, hlt, rfl⟩ := readNumber_reads h
  have hlt' : n < 2 ^ (8 * t.width) := by rwa [Nat.pow_mul]
  refine ⟨t.value n, t.fits_value hlt', ?_, by simp [MetaValue.text]⟩
  rwa [MetaValue.encode, t.word_value hlt']

theorem readScalarValue_sound (fuel type : Nat) :
    SoundItem env type (readScalarValue env fuel type) := by
  induction fuel generalizing type with
  | zero => intro c s c' h; simp [readScalarValue] at h
  | succ fuel ih =>
    intro c s c' h
    have hint : ∀ t : IntType, type = t.code → ∃ v : MetaValue, v.typeCode = type ∧ v.Valid ∧
        Reads c v.encode c' ∧ s = v.text env escape := by
      rintro t rfl
      rw [readScalarValue_int] at h
      obtain ⟨v, hfits, hreads, htext⟩ := readNumber_int_reads h
      exact ⟨.int t v, rfl, by rwa [MetaValue.Valid], hreads, htext⟩
    match type with
    | 0 => exact hint .uint8 rfl
    | 1 => exact hint .int8 rfl
    | 2 => exact hint .uint16 rfl
    | 3 => exact hint .int16 rfl
    | 4 => exact hint .uint32 rfl
    | 5 => exact hint .int32 rfl
    | 10 => exact hint .uint64 rfl
    | 11 => exact hint .int64 rfl
    | 6 =>
      obtain ⟨n, hreads, hlt, rfl⟩ := readNumber_reads h
      exact ⟨.float32 n, rfl, hlt, hreads, by simp [MetaValue.text]⟩
    | 12 =>
      obtain ⟨n, hreads, hlt, rfl⟩ := readNumber_reads h
      exact ⟨.float64 n, rfl, hlt, hreads, by simp [MetaValue.text]⟩
    | 7 =>
      obtain ⟨n, hreads, hlt, rfl⟩ := readNumber_reads h
      refine ⟨.bool (UInt8.ofNat n), rfl, trivial, hreads, ?_⟩
      rw [MetaValue.text, UInt8.toNat_ofNat', Nat.mod_eq_of_lt (by simpa using hlt)]
    | 8 =>
      obtain ⟨raw, hreads, rfl, hlen⟩ := readString_reads h
      exact ⟨.string raw, rfl, hlen, hreads, by simp [MetaValue.text]⟩
    | 9 =>
      obtain ⟨elem, items, hvalid, hreads, htext⟩ := readArrayText_reads ih h
      exact ⟨.array elem items, rfl, hvalid, hreads, htext⟩
    | n + 13 => simp [readScalarValue] at h

end VgEngine.Gguf

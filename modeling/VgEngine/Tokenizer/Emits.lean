import VgEngine.Tokenizer.Lookup

/-! What the encoders emit, whatever the caller's array holds: a text is split at its reserved
tokens, and the ids of the segments and of the reserved tokens follow one another. -/
namespace VgEngine.Tokenizer
open Lib

def IdBuffer.puts (b : IdBuffer) (ids : List Int) : IdBuffer := ids.foldl IdBuffer.put b

/-- An encoder emits these ids into every array. -/
def Emits (f : IdBuffer → Option IdBuffer) (ids : List Int) : Prop := ∀ b, f b = some (b.puts ids)

/-- An encoder that runs out of a buffer, whatever the caller's array holds. -/
def Fails (f : IdBuffer → Option IdBuffer) : Prop := ∀ b, f b = none

variable {ids ids' : List Int} {seg text : List UInt8}

theorem IdBuffer.puts_append (b : IdBuffer) : b.puts (ids ++ ids') = (b.puts ids).puts ids' :=
  List.foldl_append

theorem IdBuffer.puts_eq (b : IdBuffer) : b.puts ids =
    { b with written := b.written ++ ids.take (b.room - b.n), n := b.n + ids.length } := by
  induction ids generalizing b with
  | nil => simp [IdBuffer.puts]
  | cons id ids ih =>
    change (b.put id).puts ids = _
    rw [ih]
    unfold IdBuffer.put
    by_cases hroom : b.n < b.room
    · obtain ⟨k, hk⟩ : ∃ k, b.room - b.n = k + 1 := ⟨b.room - b.n - 1, by omega⟩
      have hk' : b.room - (b.n + 1) = k := by omega
      simp [hroom, hk, hk', Nat.add_assoc, Nat.add_comm 1]
    · have hk : b.room - b.n = 0 := by omega
      have hk' : b.room - (b.n + 1) = 0 := by omega
      simp [hroom, hk, hk', Nat.add_assoc, Nat.add_comm 1]

/-- The ids written are the first that have room. -/
theorem Emits.written {f : IdBuffer → Option IdBuffer} (h : Emits f ids) (room : Nat) :
    f ⟨room, [], 0⟩ = some ⟨room, ids.take room, ids.length⟩ := by
  rw [h, IdBuffer.puts_eq]
  simp

theorem emits_flushSegment {body : List UInt8 → IdBuffer → Option IdBuffer}
    (h : seg ≠ [] → Emits (body seg) ids) (hempty : seg = [] → ids = []) :
    Emits (flushSegment body seg) ids := by
  intro b
  unfold flushSegment
  split_ifs with hseg
  · rw [hempty hseg]
    rfl
  · rw [(h hseg).written, IdBuffer.puts_eq]
    rfl

theorem fails_flushSegment {body : List UInt8 → IdBuffer → Option IdBuffer} (hseg : seg ≠ [])
    (h : Fails (body seg)) : Fails (flushSegment body seg) := by
  intro b
  unfold flushSegment
  rw [if_neg hseg, h]
  rfl

namespace VgTokenizer

variable {tok : VgTokenizer} {body : Nat → List UInt8 → IdBuffer → Option IdBuffer}

/-- The segments of a text, each with the reserved token behind it. -/
def splitAdded (tok : VgTokenizer) : Nat → List UInt8 → List UInt8 →
    List (List UInt8 × Option (Nat × Nat))
  | 0, _, _ => []
  | fuel + 1, seg, p =>
    match p with
    | [] => [(seg, none)]
    | c :: q =>
      match tok.matchAdded p with
      | none => tok.splitAdded fuel (seg ++ [c]) q
      | some a => (seg, some a) :: tok.splitAdded fuel [] (p.drop a.2)

/-- The segments that are encoded by themselves. -/
def segments (tok : VgTokenizer) (text : List UInt8) : List (List UInt8 × Option (Nat × Nat)) :=
  if tok.added = [] then [(text, none)] else tok.splitAdded (text.length + 1) [] text

/-- The ids of the segments by `f`, and of the reserved tokens. -/
def idsOf (f : List UInt8 → List Int) (segs : List (List UInt8 × Option (Nat × Nat))) :
    List Int :=
  segs.flatMap fun s => f s.1 ++ (s.2.map fun a => (a.1 : Int)).toList

/-- A match is a reserved token that stands at the head of the text. -/
def IsAdded (tok : VgTokenizer) (p : List UInt8) (a : Nat × Nat) : Prop :=
  ∃ i ∈ tok.added, a = (i.val, (tok.vocab.get i).val.length) ∧ (tok.vocab.get i).val <+: p

theorem foldl_longerAdded {p : List UInt8} (is : List (Fin tok.vocab.length))
    (best : Option (Nat × Nat)) (hsub : ∀ i ∈ is, i ∈ tok.added)
    (hbest : ∀ a, best = some a → tok.IsAdded p a) :
    ∀ a, is.foldl (tok.longerAdded p) best = some a → tok.IsAdded p a := by
  induction is generalizing best with
  | nil => exact hbest
  | cons i is ih =>
    refine ih _ (fun j hj => hsub j (List.mem_cons_of_mem i hj)) fun a ha => ?_
    unfold longerAdded at ha
    dsimp only at ha
    split_ifs at ha with hlonger
    · refine ⟨i, hsub i List.mem_cons_self, (Option.some.inj ha).symm, ?_⟩
      exact List.isPrefixOf_iff_prefix.1 hlonger.2
    · exact hbest a ha

theorem matchAdded_some {p : List UInt8} {a : Nat × Nat} (h : tok.matchAdded p = some a) :
    tok.IsAdded p a :=
  foldl_longerAdded tok.added none (fun _ hi => hi) (by simp) a h

theorem matchAdded_length {p : List UInt8} {a : Nat × Nat} (h : tok.matchAdded p = some a) :
    0 < a.2 := by
  obtain ⟨i, hi, rfl, -⟩ := matchAdded_some h
  exact Nat.lt_of_lt_of_le (by decide) (tok.added_long i hi)

theorem encodeSegments_emits {f : List UInt8 → List Int} (hf : f [] = []) {fuel : Nat}
    {seg p : List UInt8} (hfuel : p.length < fuel)
    (hbody : ∀ s ∈ tok.splitAdded fuel seg p, s.1 ≠ [] → ∀ n, Emits (body n s.1) (f s.1)) :
    Emits (tok.encodeSegments body fuel seg p) (idsOf f (tok.splitAdded fuel seg p)) := by
  induction fuel generalizing seg p with
  | zero => omega
  | succ fuel ih =>
    have hflush (a : Option (Nat × Nat)) (hmem : (seg, a) ∈ tok.splitAdded (fuel + 1) seg p)
        (n : Nat) : Emits (flushSegment (body n) seg) (f seg) :=
      emits_flushSegment (fun hseg => hbody _ hmem hseg n) fun hseg => hseg ▸ hf
    intro b
    unfold splitAdded at hbody hflush ⊢
    unfold encodeSegments
    cases p with
    | nil =>
      rw [hflush none (List.mem_singleton_self _)]
      simp [idsOf]
    | cons c q =>
      rw [List.length_cons] at hfuel
      dsimp only at hbody hflush ⊢
      cases hmatch : tok.matchAdded (c :: q) with
      | none =>
        rw [hmatch] at hbody
        exact ih (by omega) hbody b
      | some a =>
        have hlength := matchAdded_length hmatch
        rw [hmatch] at hbody hflush
        dsimp only at hbody hflush ⊢
        rw [hflush (some a) List.mem_cons_self]
        dsimp only
        rw [ih]
        · simp [idsOf, IdBuffer.puts]
        · rw [List.length_drop, List.length_cons]
          omega
        · exact fun s hs => hbody s (List.mem_cons_of_mem _ hs)

/-- The encoder emits the ids of the segments and the reserved tokens, in the order of the text. -/
theorem encodeImpl_emits {f : List UInt8 → List Int} (hf : tok.added ≠ [] → f [] = [])
    {text : List UInt8} (hbody : ∀ s ∈ tok.segments text, tok.added = [] ∨ s.1 ≠ [] → ∀ n,
      Emits (body n s.1) (f s.1)) :
    Emits (tok.encodeImpl body text) (idsOf f (tok.segments text)) := by
  intro b
  unfold encodeImpl
  unfold segments at hbody ⊢
  split_ifs at hbody ⊢ with hadded
  · rw [hbody (text, none) (List.mem_singleton_self _) (Or.inl hadded)]
    simp [idsOf]
  · refine encodeSegments_emits (hf hadded) (Nat.lt_succ_self _) (fun s hs hne => ?_) b
    exact hbody s hs (Or.inr hne)

theorem encodeSegments_fails {fuel : Nat} {seg p : List UInt8}
    {s : List UInt8 × Option (Nat × Nat)} (hs : s ∈ tok.splitAdded fuel seg p) (hne : s.1 ≠ [])
    (hbody : ∀ n, Fails (body n s.1)) : Fails (tok.encodeSegments body fuel seg p) := by
  induction fuel generalizing seg p with
  | zero => cases hs
  | succ fuel ih =>
    intro b
    unfold splitAdded at hs
    unfold encodeSegments
    cases p with
    | nil =>
      obtain rfl := List.mem_singleton.1 hs
      exact fails_flushSegment hne (hbody b.n) b
    | cons c q =>
      dsimp only at hs ⊢
      cases hmatch : tok.matchAdded (c :: q) with
      | none =>
        rw [hmatch] at hs
        exact ih hs b
      | some a =>
        rw [hmatch] at hs
        dsimp only
        rcases List.mem_cons.1 hs with rfl | hs
        · rw [fails_flushSegment hne (hbody b.n)]
        · cases flushSegment (body b.n) seg b with
          | none => rfl
          | some b' => exact ih hs _

/-- A segment that cannot be encoded ends the encoding of the text. -/
theorem encodeImpl_fails {text : List UInt8} {s : List UInt8 × Option (Nat × Nat)}
    (hs : s ∈ tok.segments text) (hne : tok.added = [] ∨ s.1 ≠ [])
    (hbody : ∀ n, Fails (body n s.1)) : Fails (tok.encodeImpl body text) := by
  intro b
  unfold segments at hs
  unfold encodeImpl
  split_ifs at hs ⊢ with hadded
  · obtain rfl := List.mem_singleton.1 hs
    exact hbody b.n b
  · exact encodeSegments_fails hs (hne.resolve_left hadded) hbody b

/-- The text of a reserved token of the split. -/
def addedText (tok : VgTokenizer) (a : Option (Nat × Nat)) : List UInt8 :=
  (a.bind fun a => tok.tokenText a.1).getD []

theorem splitAdded_flatten {fuel : Nat} {seg p : List UInt8} (hfuel : p.length < fuel) :
    ((tok.splitAdded fuel seg p).flatMap fun s => s.1 ++ tok.addedText s.2) = seg ++ p := by
  induction fuel generalizing seg p with
  | zero => omega
  | succ fuel ih =>
    unfold splitAdded
    cases p with
    | nil => simp [addedText]
    | cons c q =>
      rw [List.length_cons] at hfuel
      dsimp only
      cases hmatch : tok.matchAdded (c :: q) with
      | none =>
        dsimp only
        rw [ih (by omega)]
        simp
      | some a =>
        have hlength := matchAdded_length hmatch
        obtain ⟨i, -, rfl, rest, hrest⟩ := matchAdded_some hmatch
        have htext : tok.addedText (some (i.val, (tok.vocab.get i).val.length)) =
            (tok.vocab.get i).val := by
          simp [addedText, tokenText]
        dsimp only
        rw [List.flatMap_cons, ih, htext, ← hrest, List.drop_left]
        · simp
        · rw [List.length_drop, List.length_cons]
          omega

theorem splitAdded_added {fuel : Nat} {seg p : List UInt8} : ∀ s ∈ tok.splitAdded fuel seg p,
    ∀ a, s.2 = some a → ∃ i ∈ tok.added, a = (i.val, (tok.vocab.get i).val.length) := by
  induction fuel generalizing seg p with
  | zero => simp [splitAdded]
  | succ fuel ih =>
    unfold splitAdded
    cases p with
    | nil => simp
    | cons c q =>
      dsimp only
      cases hmatch : tok.matchAdded (c :: q) with
      | none => exact ih
      | some a =>
        intro s hs a' ha'
        rcases List.mem_cons.1 hs with rfl | hs
        · obtain ⟨i, hi, heq, -⟩ := matchAdded_some hmatch
          exact ⟨i, hi, (Option.some.inj ha').symm.trans heq⟩
        · exact ih s hs a' ha'

/-- What stands behind a segment is a reserved token. -/
theorem segments_added (tok : VgTokenizer) (text : List UInt8) : ∀ s ∈ tok.segments text,
    ∀ a, s.2 = some a → ∃ i ∈ tok.added, a = (i.val, (tok.vocab.get i).val.length) := by
  unfold segments
  split_ifs
  · simp
  · exact splitAdded_added

/-- Where each part of a split is the text of its ids, so is the whole. -/
theorem idsOf_pieces {f : List UInt8 → List Int} {segs : List (List UInt8 × Option (Nat × Nat))}
    (hf : ∀ s ∈ segs, ((f s.1).map tok.piece).flatten = s.1)
    (hadded : ∀ s ∈ segs, ∀ a, s.2 = some a → tok.piece ((a.1 : Nat) : Int) = tok.addedText (some a)) :
    ((idsOf f segs).map tok.piece).flatten =
      segs.flatMap fun s => s.1 ++ tok.addedText s.2 := by
  induction segs with
  | nil => rfl
  | cons s segs ih =>
    have hrest := ih (fun s' hs' => hf s' (List.mem_cons_of_mem s hs'))
      fun s' hs' => hadded s' (List.mem_cons_of_mem s hs')
    have hbehind : ((s.2.map fun a => ((a.1 : Nat) : Int)).toList.map tok.piece).flatten =
        tok.addedText s.2 := by
      cases ha : s.2 with
      | none => rfl
      | some a => simpa using hadded s List.mem_cons_self a ha
    have hsplit : idsOf f (s :: segs) =
        f s.1 ++ (s.2.map fun a => ((a.1 : Nat) : Int)).toList ++ idsOf f segs := List.flatMap_cons
    rw [hsplit, List.map_append, List.map_append, List.flatten_append, List.flatten_append,
      hf s List.mem_cons_self, hbehind, hrest, List.flatMap_cons]

/-- The segments and the reserved tokens make up the text. -/
theorem segments_flatten (tok : VgTokenizer) (text : List UInt8) :
    ((tok.segments text).flatMap fun s => s.1 ++ tok.addedText s.2) = text := by
  unfold segments
  split_ifs
  · simp [addedText]
  · exact splitAdded_flatten (Nat.lt_succ_self _)

end VgTokenizer

end VgEngine.Tokenizer

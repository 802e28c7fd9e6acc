import VgEngine.Gguf.Blocks
import VgEngine.Gguf.AcceptIndex

/-! What a failed parse leaves: which blocks its object holds, and when `vg_gguf_close` can be called
on it. -/
namespace VgEngine.Gguf.Owned
open Bytes Lib Lib.Owning

variable {env : Libc}

section Readers

variable {held : List Nat}

/-- A reader whose result is in a block of its own, and which leaves nothing when it fails. -/
def Fresh (m : Owning Unit ((List UInt8 × Nat) × Cursor)) : Prop :=
  ∀ held, Keeps held m (fun r => r.1.2 :: held) fun _ => held

theorem keeps_malloc (c : Cursor) :
    Keeps held (malloc env c) (fun r => r.1 :: held) fun _ => held := by
  unfold malloc
  cases Gguf.malloc env c with
  | none => exact Keeps.fail (List.Perm.refl _)
  | some c =>
    refine Keeps.bind keeps_alloc fun b => ?_
    exact Keeps.pure (List.Perm.refl _)

theorem fresh_readString (c : Cursor) : Fresh (readString env c) := by
  intro held
  unfold readString
  refine Keeps.bind keeps_ofOption ?_
  rintro ⟨n, c⟩
  dsimp only
  split_ifs
  · exact Keeps.fail (List.Perm.refl _)
  · refine Keeps.bind (keeps_malloc c) ?_
    rintro ⟨s, c⟩
    refine Keeps.bind (Keeps.orFree keeps_ofOption fun _ => List.Perm.refl _) ?_
    rintro ⟨text, c⟩
    exact Keeps.pure (List.Perm.refl _)

theorem fresh_readNumber (width : Nat) (format : Nat → List UInt8) (c : Cursor) :
    Fresh (readNumber env width format c) := by
  intro held
  unfold readNumber
  refine Keeps.bind keeps_ofOption ?_
  rintro ⟨b, c⟩
  refine Keeps.bind (keeps_malloc c) ?_
  rintro ⟨s, c⟩
  exact Keeps.pure (List.Perm.refl _)

theorem keeps_growTo (fuel need cap out : Nat) (c : Cursor) :
    Keeps (out :: held) (growTo env fuel need cap out c) (fun r => r.1.2 :: held)
      fun out => out :: held := by
  induction fuel generalizing cap out c with
  | zero => exact Keeps.fail (List.Perm.refl _)
  | succ fuel ih =>
    unfold growTo
    split_ifs
    · exact Keeps.pure (List.Perm.refl _)
    · exact Keeps.fail (List.Perm.refl _)
    · have hrequest : Keeps (out :: held) ((malloc env c).handle fun _ => fail out)
          (fun r => r.1 :: out :: held) fun out => out :: held :=
        Triple.handle (keeps_malloc c) fun _ => Keeps.fail (List.Perm.refl _)
      refine Keeps.bind hrequest ?_
      rintro ⟨grown, c⟩
      refine Keeps.bind (keeps_free (List.Perm.swap _ _ _)) fun _ => ?_
      exact ih (cap * 2) grown c

theorem keeps_arrayItems {item : Cursor → Owning Unit ((List UInt8 × Nat) × Cursor)}
    (hitem : ∀ c, Fresh (item c)) (quoted : Bool) (n : Nat) (first : Bool) (text : List UInt8)
    (cap out : Nat) (c : Cursor) :
    Keeps (out :: held) (arrayItems env item quoted n first text cap out c)
      (fun r => r.1.2 :: held) fun _ => held := by
  induction n generalizing first text cap out c with
  | zero => exact Keeps.pure (List.Perm.refl _)
  | succ n ih =>
    unfold arrayItems
    refine Keeps.bind (Keeps.orFree (hitem c _) fun _ => List.Perm.refl _) ?_
    rintro ⟨⟨piece, s⟩, c⟩
    have hgrow : Keeps (s :: out :: held)
        ((growTo env 64 (itemNeed text.length first quoted piece) cap out c).handle
          fun out => do
            free [s, out]
            fail ())
        (fun r => r.1.2 :: s :: held) fun _ => held := by
      refine Triple.handle (Keeps.perm (keeps_growTo _ _ _ _ _) (List.Perm.swap _ _ _)) fun out => ?_
      refine Keeps.bind (keeps_free (List.Perm.swap _ _ _)) fun _ => ?_
      exact Keeps.fail (List.Perm.refl _)
    refine Keeps.bind hgrow ?_
    rintro ⟨⟨cap, out⟩, c⟩
    refine Keeps.bind (keeps_free (List.Perm.swap _ _ _)) fun _ => ?_
    exact ih false _ cap out c

theorem fresh_readArrayText {item : Nat → Cursor → Owning Unit ((List UInt8 × Nat) × Cursor)}
    (hitem : ∀ type c, Fresh (item type c)) (c : Cursor) : Fresh (readArrayText env item c) := by
  intro held
  unfold readArrayText
  refine Keeps.bind keeps_ofOption ?_
  rintro ⟨type, c⟩
  refine Keeps.bind keeps_ofOption ?_
  rintro ⟨n, c⟩
  dsimp only
  split_ifs
  · exact Keeps.fail (List.Perm.refl _)
  · refine Keeps.bind (keeps_malloc c) ?_
    rintro ⟨out, c⟩
    refine Keeps.bind (keeps_arrayItems (hitem type) _ n true [91] 64 out c) ?_
    rintro ⟨⟨text, out⟩, c⟩
    exact Keeps.pure (List.Perm.refl _)

theorem fresh_readScalarValue (fuel type : Nat) (c : Cursor) :
    Fresh (readScalarValue env fuel type c) := by
  induction fuel generalizing type c with
  | zero => exact fun held => Keeps.fail (List.Perm.refl _)
  | succ fuel ih =>
    unfold readScalarValue
    split
    case h_9 => exact fresh_readString c
    case h_13 => exact fresh_readArrayText ih c
    case h_14 => exact fun held => Keeps.fail (List.Perm.refl _)
    all_goals exact fresh_readNumber _ _ c

end Readers

section Values

theorem computes_malloc (c : Cursor) : Computes Prod.snd (malloc env c) (Gguf.malloc env c) := by
  intro h
  unfold malloc
  cases Gguf.malloc env c <;> rfl

/-- What a reader computes is its text, the block aside. -/
def textOf (r : (List UInt8 × Nat) × Cursor) : List UInt8 × Cursor := (r.1.1, r.2)

theorem computes_readString (c : Cursor) :
    Computes textOf (readString env c) (Gguf.readString env c) := by
  unfold readString Gguf.readString
  refine Computes.bind (computes_ofOption _) ?_
  rintro ⟨n, c⟩
  dsimp only [id]
  split_ifs
  · exact fun _ => rfl
  · refine Computes.bind (computes_malloc c) ?_
    rintro ⟨s, c⟩
    refine Computes.bind (computes_ofOption _).orFree ?_
    rintro ⟨text, c⟩
    exact fun _ => rfl

theorem computes_readNumber (width : Nat) (format : Nat → List UInt8) (c : Cursor) :
    Computes textOf (readNumber env width format c) (Gguf.readNumber env width format c) := by
  unfold readNumber Gguf.readNumber
  refine Computes.bind (computes_ofOption _) ?_
  rintro ⟨b, c⟩
  refine Computes.bind (computes_malloc c) ?_
  rintro ⟨s, c⟩
  exact fun _ => rfl

theorem computes_growTo (fuel need cap out : Nat) (c : Cursor) :
    Computes (fun r => (r.1.1, r.2)) (growTo env fuel need cap out c)
      (Gguf.growTo env fuel need cap c) := by
  induction fuel generalizing cap out c with
  | zero => exact fun _ => rfl
  | succ fuel ih =>
    unfold growTo Gguf.growTo
    split_ifs
    · exact fun _ => rfl
    · exact fun _ => rfl
    · refine Computes.bind ((computes_malloc c).handle fun _ _ => rfl) ?_
      rintro ⟨grown, c⟩
      exact fun h => ih (cap * 2) grown c _

theorem computes_arrayItems {item : Cursor → Owning Unit ((List UInt8 × Nat) × Cursor)}
    {item' : Cursor → Option (List UInt8 × Cursor)}
    (hitem : ∀ c, Computes textOf (item c) (item' c)) (quoted : Bool) (n : Nat) (first : Bool)
    (text : List UInt8) (cap out : Nat) (c : Cursor) :
    Computes textOf (arrayItems env item quoted n first text cap out c)
      (Gguf.arrayItems env item' quoted n first text cap c) := by
  induction n generalizing first text cap out c with
  | zero => exact fun _ => rfl
  | succ n ih =>
    unfold arrayItems Gguf.arrayItems
    refine Computes.bind (hitem c).orFree ?_
    rintro ⟨⟨piece, s⟩, c⟩
    refine Computes.bind ((computes_growTo 64 _ cap out c).handle fun _ _ => rfl) ?_
    rintro ⟨⟨cap, out⟩, c⟩
    exact fun h => ih false _ cap out c _

theorem computes_readArrayText {item : Nat → Cursor → Owning Unit ((List UInt8 × Nat) × Cursor)}
    {item' : Nat → Cursor → Option (List UInt8 × Cursor)}
    (hitem : ∀ type c, Computes textOf (item type c) (item' type c)) (c : Cursor) :
    Computes textOf (readArrayText env item c) (Gguf.readArrayText env item' c) := by
  unfold readArrayText Gguf.readArrayText
  refine Computes.bind (computes_ofOption _) ?_
  rintro ⟨type, c⟩
  refine Computes.bind (computes_ofOption _) ?_
  rintro ⟨n, c⟩
  dsimp only [id]
  split_ifs
  · exact fun _ => rfl
  · refine Computes.bind (computes_malloc c) ?_
    rintro ⟨out, c⟩
    refine Computes.bind (computes_arrayItems (hitem type) _ n true [91] 64 out c) ?_
    rintro ⟨⟨text, out⟩, c⟩
    exact fun _ => rfl

theorem computes_readScalarValue (fuel type : Nat) (c : Cursor) :
    Computes textOf (readScalarValue env fuel type c) (Gguf.readScalarValue env fuel type c) := by
  induction fuel generalizing type c with
  | zero => exact fun _ => rfl
  | succ fuel ih =>
    unfold readScalarValue Gguf.readScalarValue
    split
    case h_9 => exact computes_readString c
    case h_13 => exact computes_readArrayText ih c
    case h_14 =>
      first
      | exact fun _ => rfl
      | split
        case h_14 => exact fun _ => rfl
        all_goals simp_all
    all_goals exact computes_readNumber _ _ c

variable (env) in
/-- Where the records of the metadata end, if they can all be read and stored. -/
def recordsEnd : Nat → Cursor → Option Cursor
  | 0, c => some c
  | n + 1, c => do
    let (_, c) ← Gguf.readString env c
    let (type, c) ← u32 c
    let (_, c) ← Gguf.readScalarValue env (c.rest.length + 1) type c
    let c ← Gguf.malloc env c
    recordsEnd n c

theorem computes_readMetas (n : Nat) (x : Object) (c : Cursor) :
    Computes Prod.snd (readMetas env n x c) (recordsEnd env n c) := by
  induction n generalizing x c with
  | zero => exact fun _ => rfl
  | succ n ih =>
    unfold readMetas recordsEnd
    refine Computes.bind (computes_readString c).orFree ?_
    rintro ⟨⟨key, k⟩, c⟩
    refine Computes.bind (computes_ofOption _).orFree ?_
    rintro ⟨type, c⟩
    refine Computes.bind (computes_readScalarValue _ type c).orFree ?_
    rintro ⟨⟨value, v⟩, c⟩
    refine Computes.bind (computes_malloc c).orFree ?_
    rintro ⟨m, c⟩
    exact fun h => ih _ c _

end Values

section Loops

/-- The blocks of an object. -/
def Held.blocks (x : Held) : List Nat :=
  x.names.filterMap id ++ x.texts.flatMap (fun t => [t.1, t.2]) ++ x.tensors.toList ++
    x.metas.toList ++ x.tensorHash.toList ++ x.metaHash.toList ++ x.path.toList ++ [x.self]

/-- The blocks in use are those of the object, and each entry of its metadata has its two. -/
structure Owns (x : Object) (h : Blocks) : Prop where
  blocks : h.Holds x.held.blocks
  texts : x.held.texts.length = x.g.metas.length

section Step

variable {α : Type} {m : Owning Unit α} {held held' bs : List Nat} {ok : α → List Nat} {x : Object}
  {E : Status × Object → Blocks → Prop}

/-- A failure after which the object is as before. -/
theorem Keeps.leaves (hm : Keeps held m ok fun _ => held') (hp : held'.Perm (bs ++ x.held.blocks))
    {status : Status} (hE : ∀ h, h.Holds x.held.blocks → E (status, x) h) :
    Triple (·.Holds held) (m.orFree bs (status, x)) (fun a h => h.Holds (ok a)) E := by
  refine Triple.handle hm fun e => ?_
  refine Triple.bind (triple_free hp) fun _ => ?_
  exact Triple.fail hE

theorem blocks_addMeta (x : Held) (m k v : Nat) : (m :: v :: k :: x.blocks).Perm
    (x.metas.toList ++
      ({ x with metas := some m, texts := x.texts ++ [(k, v)] } : Held).blocks) := by
  rw [List.perm_iff_count]
  intro b
  unfold Held.blocks
  simp only [List.count_append, List.count_cons, List.flatMap_append, List.flatMap_cons,
    List.flatMap_nil, List.count_nil, Option.toList_some]
  omega

end Step

/-- A step that leaves the tensors and the tables alone. -/
structure SameTables (x y : Object) : Prop where
  names : y.held.names = x.held.names
  tensors : y.held.tensors = x.held.tensors
  tensorHash : y.held.tensorHash = x.held.tensorHash
  metaHash : y.held.metaHash = x.held.metaHash
  tensorCount : y.g.tensorCount = x.g.tensorCount

theorem SameTables.refl (x : Object) : SameTables x x := ⟨rfl, rfl, rfl, rfl, rfl⟩

theorem keeps_readMetas (n : Nat) (x : Object) (c : Cursor)
    (htexts : x.held.texts.length = x.g.metas.length) :
    Triple (·.Holds x.held.blocks) (readMetas env n x c)
      (fun r h => Owns r.1 h ∧ SameTables x r.1) fun e h => Owns e.2 h ∧ SameTables x e.2 := by
  induction n generalizing x c with
  | zero => exact Triple.pure fun h hh => ⟨⟨hh, htexts⟩, .refl x⟩
  | succ n ih =>
    have hsame (status : Status) (h : Blocks) (hh : h.Holds x.held.blocks) :
        Owns (status, x).2 h ∧ SameTables x (status, x).2 := ⟨⟨hh, htexts⟩, .refl x⟩
    unfold readMetas
    refine Triple.bind (Keeps.leaves (fresh_readString c x.held.blocks)
      (List.Perm.refl x.held.blocks) (hsame .format)) ?_
    rintro ⟨⟨key, k⟩, c⟩
    refine Triple.bind (Keeps.leaves keeps_ofOption (List.Perm.refl (k :: x.held.blocks))
      (hsame .format)) ?_
    rintro ⟨type, c⟩
    refine Triple.bind (Keeps.leaves (fresh_readScalarValue _ type c (k :: x.held.blocks))
      (List.Perm.refl (k :: x.held.blocks)) (hsame .format)) ?_
    rintro ⟨⟨value, v⟩, c⟩
    refine Triple.bind (Keeps.leaves (keeps_malloc c) (List.Perm.swap k v x.held.blocks)
      (hsame .nomem)) ?_
    rintro ⟨m, c⟩
    refine Triple.bind (triple_free (blocks_addMeta x.held m k v)) fun _ => ?_
    exact (ih ⟨_, _⟩ c (by simp [htexts])).imp (fun _ hh => hh)
      (fun _ _ ⟨ho, hs⟩ => ⟨ho, hs.names, hs.tensors, hs.tensorHash, hs.metaHash, hs.tensorCount⟩)
      fun _ _ ⟨ho, hs⟩ => ⟨ho, hs.names, hs.tensors, hs.tensorHash, hs.metaHash, hs.tensorCount⟩

section Tensors

variable {held : List Nat}

theorem keeps_readTensor (c : Cursor) :
    Keeps held (readTensor env c) (fun r => r.1.2 :: held) fun e => e.2.2.toList ++ held := by
  unfold readTensor
  refine Keeps.bind (Keeps.orFree (fresh_readString c held) fun _ => List.Perm.refl _) ?_
  rintro ⟨⟨name, s⟩, c⟩
  refine Keeps.bind (Keeps.orFree keeps_ofOption fun _ => List.Perm.refl (s :: held)) ?_
  rintro ⟨nd, c⟩
  dsimp only
  split_ifs
  · refine Keeps.bind (keeps_free (List.Perm.refl (s :: held))) fun _ => ?_
    exact Keeps.fail (List.Perm.refl _)
  · cases recordRest name nd c with
    | error e => exact Keeps.fail (List.Perm.refl _)
    | ok r => exact Keeps.pure (List.Perm.refl _)

theorem blocks_names (x : Held) (names more : List (Option Nat)) :
    (more.filterMap id ++ ({ x with names := names } : Held).blocks).Perm
      ({ x with names := names ++ more } : Held).blocks := by
  rw [List.perm_iff_count]
  intro b
  unfold Held.blocks
  simp only [List.count_append, List.filterMap_append]
  omega

/-- The tensor loop over a table of `total` records. -/
theorem keeps_readTensors (x : Object) (total : Nat) (n : Nat) (done : List GgufTensor)
    (names : List (Option Nat)) (c : Cursor) (htotal : names.length + n = total) :
    Triple (·.Holds ({ x.held with names := names } : Held).blocks)
      (readTensors env x n done names c)
      (fun r h => h.Holds ({ x.held with names := r.1.2 } : Held).blocks ∧ r.1.2.length = total)
      fun e h => h.Holds e.2.held.blocks ∧ e.2.held.names.length = total ∧
        e.2.held.texts = x.held.texts ∧ e.2.g.metas = x.g.metas ∧
        e.2.g.tensorCount = x.g.tensorCount := by
  induction n generalizing done names c with
  | zero => exact Triple.pure fun h hh => ⟨hh, htotal⟩
  | succ n ih =>
    unfold readTensors
    refine Triple.bind (Triple.handle (keeps_readTensor c) ?_) ?_
    · rintro ⟨status, t, s⟩
      refine Triple.fail fun h hh => ⟨hh.perm ?_, ?_, rfl, rfl, rfl⟩
      · refine List.Perm.trans (List.Perm.of_eq ?_) (blocks_names x.held names _)
        cases s <;> simp
      · simp only [List.length_append, List.length_cons, List.length_replicate]
        omega
    · rintro ⟨⟨t, s⟩, c⟩
      refine (ih (done ++ [t]) (names ++ [some s]) c ?_).imp (fun h hh => hh.perm ?_)
        (fun _ _ hh => hh) fun _ _ hh => hh
      · simp only [List.length_append, List.length_singleton]
        omega
      · exact blocks_names x.held names [some s]

end Tensors

section Hashes

variable {held : List Nat} {ε : Type} {E : ε → Blocks → Prop}

theorem keeps_hashGrow (t : HashTable) (b : Nat) (c : Cursor) :
    Keeps (b :: held) (hashGrow env t b c) (fun r => r.1.2 :: held) fun _ => b :: held := by
  unfold hashGrow
  split_ifs
  · exact Keeps.pure (List.Perm.refl _)
  · refine Keeps.bind (keeps_malloc c) ?_
    rintro ⟨nt, c⟩
    refine Keeps.bind (keeps_free (List.Perm.swap _ _ _)) fun _ => ?_
    exact Keeps.pure (List.Perm.refl _)

theorem keeps_hashInsert (t : HashTable) (b : Nat) (key : List UInt8) (index : Nat) (c : Cursor) :
    Triple (·.Holds (b :: held)) (hashInsert env t b key index c)
      (fun r h => h.Holds (r.1.2 :: held)) E := by
  unfold hashInsert
  refine Triple.handle (Keeps.bind (keeps_hashGrow t b c) ?_) fun _ => Triple.pure fun h hh => hh
  rintro ⟨⟨t, b⟩, c⟩
  dsimp only
  cases hashFind t key with
  | none => exact Keeps.pure (List.Perm.refl _)
  | some i =>
    dsimp only
    split_ifs
    · exact Keeps.pure (List.Perm.refl _)
    · exact Keeps.pure (List.Perm.refl _)

theorem keeps_hashInsertAll (keys : List (List UInt8)) (index : Nat) (t : HashTable) (b : Nat)
    (c : Cursor) :
    Triple (·.Holds (b :: held)) (hashInsertAll env keys index t b c)
      (fun r h => h.Holds (r.1.2 :: held)) E := by
  induction keys generalizing index t b c with
  | nil => exact Triple.pure fun h hh => hh
  | cons key keys ih =>
    unfold hashInsertAll
    refine Triple.bind (keeps_hashInsert t b key index c) ?_
    rintro ⟨⟨t, b⟩, c⟩
    exact ih (index + 1) t b c

theorem keeps_fillHash (b : Option Nat) (keys : List (List UInt8)) (c : Cursor) :
    Triple (·.Holds (b.toList ++ held)) (fillHash env b keys c)
      (fun r h => h.Holds (r.1.2.toList ++ held)) E := by
  cases b with
  | none => exact Triple.pure fun h hh => hh
  | some b =>
    unfold fillHash
    refine Triple.bind (keeps_hashInsertAll keys 0 _ b c) ?_
    rintro ⟨⟨t, b⟩, c⟩
    exact Triple.pure fun h hh => hh

theorem keeps_callocTable (entries : Nat) (e : ε) (c : Cursor) :
    Triple (·.Holds held) (callocTable env entries e c)
      (fun r h => h.Holds (r.1.toList ++ held) ∧ ((Gguf.malloc env c).isSome = false → entries = 0))
      fun e' h => e' = e ∧ h.Holds held ∧ (Gguf.malloc env c).isSome = false := by
  unfold callocTable
  cases Gguf.malloc env c with
  | some c =>
    refine Triple.bind triple_alloc fun b => ?_
    exact Triple.pure fun h hh => ⟨hh, fun hnone => by cases hnone⟩
  | none =>
    dsimp only
    split_ifs with hentries
    · exact Triple.pure fun h hh => ⟨hh, fun _ => hentries⟩
    · exact Triple.fail fun h hh => ⟨rfl, hh, rfl⟩

theorem blocks_setTensorHash (x : Held) (b : Option Nat) (hnone : x.tensorHash = none) :
    (b.toList ++ x.blocks).Perm ({ x with tensorHash := b } : Held).blocks := by
  rw [List.perm_iff_count]
  intro a
  unfold Held.blocks
  simp only [List.count_append, hnone, Option.toList_none, List.count_nil]
  omega

theorem blocks_setMetaHash (x : Held) (b : Option Nat) (hnone : x.metaHash = none) :
    (b.toList ++ x.blocks).Perm ({ x with metaHash := b } : Held).blocks := by
  rw [List.perm_iff_count]
  intro a
  unfold Held.blocks
  simp only [List.count_append, hnone, Option.toList_none, List.count_nil]
  omega

theorem keeps_buildHashes (x : Object) (c : Cursor) (htexts : x.held.texts.length = x.g.metas.length)
    (htensor : x.held.tensorHash = none) (hmeta : x.held.metaHash = none) :
    Triple (·.Holds x.held.blocks) (buildHashes env x c) Owns
      fun e h => Owns e.2 h ∧ e.2.held.names = x.held.names ∧
        e.2.g.tensorCount = x.g.tensorCount := by
  unfold buildHashes
  refine Triple.bind ((keeps_callocTable _ _ c).imp (fun _ hh => hh) (fun _ _ hh => hh.1) ?_) ?_
  · rintro e h ⟨rfl, hh, -⟩
    exact ⟨⟨hh, htexts⟩, rfl, rfl⟩
  rintro ⟨b, c⟩
  refine Triple.bind (keeps_fillHash b _ c) ?_
  rintro ⟨⟨t, b⟩, c⟩
  have hset := blocks_setTensorHash x.held b htensor
  refine Triple.bind ((keeps_callocTable _ _ c).imp (fun _ hh => hh.perm hset)
    (fun _ _ hh => hh.1) ?_) ?_
  · rintro e h ⟨rfl, hh, -⟩
    exact ⟨⟨hh, htexts⟩, rfl, rfl⟩
  rintro ⟨b', c⟩
  refine Triple.bind (keeps_fillHash b' _ c) ?_
  rintro ⟨⟨t', b'⟩, c⟩
  exact Triple.pure fun h hh =>
    ⟨hh.perm (blocks_setMetaHash { x.held with tensorHash := b } b' hmeta), htexts⟩

theorem blocks_setTensors (x : Held) (b : Option Nat) (hnone : x.tensors = none) :
    (b.toList ++ x.blocks).Perm ({ x with tensors := b } : Held).blocks := by
  rw [List.perm_iff_count]
  intro a
  unfold Held.blocks
  simp only [List.count_append, hnone, Option.toList_none, List.count_nil]
  omega

/-- A failure leaves a table with all of its records, or none if its `calloc` failed. -/
theorem keeps_parseTable (x : Object) (c : Cursor) (htexts : x.held.texts.length = x.g.metas.length)
    (hnames : x.held.names = []) (htensors : x.held.tensors = none)
    (htensor : x.held.tensorHash = none) (hmeta : x.held.metaHash = none) :
    Triple (·.Holds x.held.blocks) (parseTable env x c) Owns
      fun e h => Owns e.2 h ∧ e.2.g.tensorCount = x.g.tensorCount ∧
        e.2.held.names.length =
          if (Gguf.malloc env c).isSome then x.g.tensorCount else 0 := by
  have hlength (hcalloc : (Gguf.malloc env c).isSome = false → x.g.tensorCount = 0) :
      x.g.tensorCount = if (Gguf.malloc env c).isSome then x.g.tensorCount else 0 := by
    split_ifs with hsome
    · rfl
    · exact hcalloc (by simpa using hsome)
  unfold parseTable
  refine Triple.bind ((keeps_callocTable _ _ c).imp (fun _ hh => hh) (fun _ _ hh => hh) ?_) ?_
  · rintro e h ⟨rfl, hh, hfailed⟩
    refine ⟨⟨hh, htexts⟩, rfl, ?_⟩
    rw [hfailed, hnames]
    rfl
  rintro ⟨b, c'⟩
  refine Triple.of_fact fun hcalloc => ?_
  have htable := hlength hcalloc
  generalize (if (Gguf.malloc env c).isSome = true then x.g.tensorCount else 0) = size at htable ⊢
  have hset : (b.toList ++ x.held.blocks).Perm
      ({ x.held with tensors := b, names := [] } : Held).blocks := by
    have hnil : ({ x.held with tensors := b, names := [] } : Held) = { x.held with tensors := b } :=
      congrArg (fun names => ({ x.held with tensors := b, names := names } : Held)) hnames.symm
    rw [hnil]
    exact blocks_setTensors x.held b htensors
  refine Triple.bind ((keeps_readTensors ⟨x.g, { x.held with tensors := b }⟩ x.g.tensorCount
    x.g.tensorCount [] [] c' (Nat.zero_add _)).imp (fun h hh => hh.perm hset) (fun _ _ hh => hh) ?_) ?_
  · rintro e h ⟨hh, htotal, htexts', hmetas', hcount⟩
    refine ⟨⟨hh, ?_⟩, hcount, htotal.trans htable⟩
    rw [htexts', hmetas']
    exact htexts
  rintro ⟨⟨tensors, names⟩, c''⟩
  refine Triple.of_fact fun hnames' => ?_
  dsimp only
  split_ifs
  · exact Triple.fail fun h hh => ⟨⟨hh, htexts⟩, rfl, hnames'.trans htable⟩
  · exact Triple.fail fun h hh => ⟨⟨hh, htexts⟩, rfl, hnames'.trans htable⟩
  · refine Triple.imp (keeps_buildHashes _ c'' ?_ ?_ ?_) (fun _ hh => hh) (fun _ _ hh => hh) ?_
    · exact htexts
    · exact htensor
    · exact hmeta
    rintro e h ⟨howns, hsame, hcount⟩
    refine ⟨howns, hcount, ?_⟩
    rw [hsame]
    exact hnames'.trans htable

end Hashes

end Loops

section Header

/-- The words at the head of a file. -/
def magicWord (file : GgufFile) : Nat := leNat (file.bytes.take 4)

def versionWord (file : GgufFile) : Nat := leNat ((file.bytes.drop 4).take 4)

def declaredTensors (file : GgufFile) : Nat := leNat ((file.bytes.drop 8).take 8)

def declaredRecords (file : GgufFile) : Nat := leNat ((file.bytes.drop 16).take 8)

def HeaderAccepted (file : GgufFile) : Prop :=
  magicWord file = 0x46554747 ∧ 2 ≤ versionWord file ∧ versionWord file ≤ 3

instance (file : GgufFile) : Decidable (HeaderAccepted file) :=
  inferInstanceAs (Decidable (_ ∧ _ ∧ _))

/-- The cursor behind the header. -/
def afterHeader (file : GgufFile) : Cursor := ⟨file.bytes.drop 24, 24, 0⟩

theorem rd_of_le {n : Nat} {c : Cursor} (h : n ≤ c.rest.length) :
    rd n c = some (c.rest.take n, { c with rest := c.rest.drop n, pos := c.pos + n }) := by
  unfold rd
  rw [if_pos h]

theorem readHeader_eq (file : GgufFile) (g : VgGguf) :
    (¬ HeaderAccepted file ∧ readHeader g ⟨file.bytes, 0, 0⟩ = .error (.format, g)) ∨
    (HeaderAccepted file ∧ (2 ^ 24 < declaredTensors file ∨ 2 ^ 24 < declaredRecords file) ∧
      readHeader g ⟨file.bytes, 0, 0⟩ =
        .error (.range, { g with tensorCount := declaredTensors file })) ∨
    (HeaderAccepted file ∧ declaredTensors file ≤ 2 ^ 24 ∧ declaredRecords file ≤ 2 ^ 24 ∧
      readHeader g ⟨file.bytes, 0, 0⟩ =
        .ok ({ g with tensorCount := declaredTensors file }, declaredRecords file,
          afterHeader file)) := by
  have hsize := file.size_ge
  have hmagic : u32 ⟨file.bytes, 0, 0⟩ = some (magicWord file, ⟨file.bytes.drop 4, 4, 0⟩) := by
    unfold u32
    rw [rd_of_le (by dsimp only; omega)]
    rfl
  have hversion : u32 ⟨file.bytes.drop 4, 4, 0⟩ =
      some (versionWord file, ⟨file.bytes.drop 8, 8, 0⟩) := by
    unfold u32
    rw [rd_of_le (by simp only [List.length_drop]; omega)]
    simp only [Option.map_some, List.drop_drop]
    rfl
  have htensors : u64 ⟨file.bytes.drop 8, 8, 0⟩ =
      some (declaredTensors file, ⟨file.bytes.drop 16, 16, 0⟩) := by
    unfold u64
    rw [rd_of_le (by simp only [List.length_drop]; omega)]
    simp only [Option.map_some, List.drop_drop]
    rfl
  have hrecords : u64 ⟨file.bytes.drop 16, 16, 0⟩ =
      some (declaredRecords file, afterHeader file) := by
    unfold u64
    rw [rd_of_le (by simp only [List.length_drop]; omega)]
    simp only [Option.map_some, List.drop_drop]
    rfl
  have hheader : readHeader g ⟨file.bytes, 0, 0⟩ =
      if magicWord file ≠ 0x46554747 then .error (.format, g)
      else if versionWord file < 2 ∨ 3 < versionWord file then .error (.format, g)
      else if 2 ^ 24 < declaredTensors file ∨ 2 ^ 24 < declaredRecords file then
        .error (.range, { g with tensorCount := declaredTensors file })
      else .ok ({ g with tensorCount := declaredTensors file }, declaredRecords file,
        afterHeader file) := by
    unfold readHeader
    simp only [hmagic, hversion, htensors, hrecords, orFail, bind, Except.bind]
    split_ifs <;> rfl
  rw [hheader]
  unfold HeaderAccepted
  split_ifs with hbadMagic hbadVersion hlimits
  · exact Or.inl ⟨fun h => hbadMagic h.1, rfl⟩
  · exact Or.inl ⟨fun h => by omega, rfl⟩
  · exact Or.inr (Or.inl ⟨by omega, hlimits, rfl⟩)
  · exact Or.inr (Or.inr ⟨by omega, by omega, by omega, rfl⟩)

/-- The tensor table is not needed, or the parse comes to its `calloc` and that succeeds. -/
def TableAllocated (env : Libc) (file : GgufFile) : Prop :=
  ¬ HeaderAccepted file ∨ declaredTensors file = 0 ∨
    (declaredTensors file ≤ 2 ^ 24 ∧ declaredRecords file ≤ 2 ^ 24 ∧
      ((recordsEnd env (declaredRecords file) (afterHeader file)).bind (Gguf.malloc env)).isSome)

end Header

section Close

theorem below_isSome {α : Type} (l : List α) (n : Nat) : (below l n).isSome ↔ n ≤ l.length := by
  unfold below
  split_ifs with hle <;> simp [hle]

/-- An object whose blocks are in order is closable if its table has the records that it counts. -/
theorem Owns.closable_iff {x : Object} {h : Blocks} (hx : Owns x h)
    (hnames : x.held.names.length = x.g.tensorCount ∨ x.held.names.length = 0) :
    Closable x h ↔ x.g.tensorCount ≤ x.held.names.length := by
  constructor
  · rintro ⟨bs, hbs, -⟩
    obtain ⟨names, hnames, -⟩ := Option.bind_eq_some_iff.1 hbs
    exact (below_isSome _ _).1 (Option.isSome_iff_exists.2 ⟨names, hnames⟩)
  · intro hle
    have hall : x.held.names.take x.g.tensorCount = x.held.names :=
      List.take_of_length_le (by omega)
    refine ⟨x.held.blocks, ?_, hx.blocks⟩
    unfold vgGgufClose below
    rw [if_pos hle, hall, if_pos (Nat.le_of_eq hx.texts.symm), ← hx.texts, List.take_length]
    rfl

end Close

theorem holds_open (pathOk : Bool) : (openBlocks pathOk).Holds (openHeld pathOk).blocks := by
  cases pathOk
  · exact List.Perm.refl _
  · exact List.Perm.swap _ _ _

/-- Behind the header: the records of the metadata, then the table. -/
theorem records_leave {env : Libc} {n : Nat} {x₀ x : Object} {c₀ : Cursor} {status : Status}
    {h₀ h : Blocks}
    (hfailed : (do
      let (x, c) ← readMetas env n x₀ c₀
      parseTable env x c) h₀ = (.error (status, x), h))
    (hopened : h₀.Holds x₀.held.blocks) (htexts : x₀.held.texts.length = x₀.g.metas.length)
    (hnames : x₀.held.names = []) (htensors : x₀.held.tensors = none)
    (htensor : x₀.held.tensorHash = none) (hmeta : x₀.held.metaHash = none) :
    Owns x h ∧ x.g.tensorCount = x₀.g.tensorCount ∧
      x.held.names.length =
        if ((recordsEnd env n c₀).bind (Gguf.malloc env)).isSome then x₀.g.tensorCount else 0 := by
  obtain ⟨hok, herror⟩ := @keeps_readMetas env n x₀ c₀ htexts h₀ hopened
  have hend := @computes_readMetas env n x₀ c₀ h₀
  cases hr : readMetas env n x₀ c₀ h₀ with
  | mk r h₁ =>
    rw [hr] at hend
    cases r with
    | error e =>
      rw [Owning.bind_error hr] at hfailed
      obtain ⟨hx, rfl⟩ := Prod.mk.inj hfailed
      obtain rfl := Except.error.inj hx
      obtain ⟨howns, hsame⟩ := herror _ _ hr
      refine ⟨howns, hsame.tensorCount, ?_⟩
      rw [← hend, hsame.names, hnames]
      rfl
    | ok r =>
      obtain ⟨x₁, c₁⟩ := r
      rw [Owning.bind_ok hr] at hfailed
      obtain ⟨howns, hsame⟩ := hok _ _ hr
      obtain ⟨howns', hcount, hlength⟩ := (keeps_parseTable x₁ c₁ howns.texts
        (hsame.names.trans hnames) (hsame.tensors.trans htensors) (hsame.tensorHash.trans htensor)
        (hsame.metaHash.trans hmeta) h₁ howns.blocks).2 _ _ hfailed
      refine ⟨howns', hcount.trans hsame.tensorCount, ?_⟩
      rw [← hend]
      dsimp only at hlength hsame
      rw [hlength, hsame.tensorCount]
      rfl

/-- What a failed parse leaves, by how far it came. -/
structure LeftBy (env : Libc) (file : GgufFile) (x : Object) (h : Blocks) : Prop where
  owns : Owns x h
  names : x.held.names.length = x.g.tensorCount ∨ x.held.names.length = 0
  table : x.g.tensorCount ≤ x.held.names.length ↔ TableAllocated env file

theorem failed_open_leaves {env : Libc} {pathOk : Bool} {file : GgufFile} {status : Status}
    {x : Object} {h : Blocks} (hopen : vgGgufOpen env pathOk file = (.error (status, x), h)) :
    LeftBy env file x h := by
  have hopened := holds_open pathOk
  unfold vgGgufOpen parseIndex at hopen
  rcases readHeader_eq file (VgGguf.blank file.size) with ⟨hrefused, heq⟩ | ⟨haccepted, hlimits, heq⟩ |
    ⟨haccepted, htensors, hrecords, heq⟩
  · rw [heq] at hopen
    obtain ⟨hx, rfl⟩ := Prod.mk.inj hopen
    obtain ⟨-, rfl⟩ := Prod.mk.inj (Except.error.inj hx)
    exact ⟨⟨hopened, rfl⟩, Or.inr rfl, iff_of_true (Nat.le_refl 0) (Or.inl hrefused)⟩
  · rw [heq] at hopen
    obtain ⟨hx, rfl⟩ := Prod.mk.inj hopen
    obtain ⟨-, rfl⟩ := Prod.mk.inj (Except.error.inj hx)
    refine ⟨⟨hopened, rfl⟩, Or.inr rfl, ?_⟩
    change declaredTensors file ≤ 0 ↔ _
    unfold TableAllocated
    simp only [haccepted, not_true_eq_false, false_or]
    omega
  · rw [heq] at hopen
    obtain ⟨howns, hcount, hlength⟩ := records_leave hopen hopened rfl rfl rfl rfl rfl
    change x.g.tensorCount = declaredTensors file at hcount
    change x.held.names.length = if _ then declaredTensors file else 0 at hlength
    refine ⟨howns, ?_, ?_⟩
    · rw [hlength, hcount]
      split_ifs
      · exact Or.inl rfl
      · exact Or.inr rfl
    · unfold TableAllocated
      simp only [haccepted, not_true_eq_false, false_or, htensors, hrecords, true_and]
      rw [hlength, hcount]
      split_ifs with hsome
      · exact iff_of_true (Nat.le_refl _) (Or.inr hsome)
      · simp [hsome]

/-- A failed open leaves an object that can be closed exactly when the tensor table is not needed or
has been allocated. -/
theorem failed_open_closable_iff {env : Libc} {pathOk : Bool} {file : GgufFile} {status : Status}
    {x : Object} {h : Blocks} (hopen : vgGgufOpen env pathOk file = (.error (status, x), h)) :
    Closable x h ↔ TableAllocated env file := by
  have hleft := failed_open_leaves hopen
  rw [hleft.owns.closable_iff hleft.names, hleft.table]

section Example

/-- A header and nothing behind it. -/
def headerFile (tensors records : Nat) : GgufFile where
  bytes := leBytes 4 0x46554747 ++ leBytes 4 3 ++ leBytes 8 tensors ++ leBytes 8 records
  size_ge := by simp [length_leBytes]
  size_lt := by simp [length_leBytes]

/-- Every allocation succeeds. -/
def ampleLibc : Libc := ⟨fun _ => true, fun _ => [], fun _ => []⟩

theorem open_headerFile_fails (tensors records : Nat)
    (hfails : (vgGgufOpen ampleLibc true (headerFile tensors records)).1.toOption.isNone) :
    ∃ status x h, vgGgufOpen ampleLibc true (headerFile tensors records) =
      (.error (status, x), h) := by
  cases hr : vgGgufOpen ampleLibc true (headerFile tensors records) with
  | mk r h =>
    rw [hr] at hfails
    cases r with
    | error e => exact ⟨e.1, e.2, h, rfl⟩
    | ok x => cases hfails

/-- A tensor is declared, and its record is missing. -/
theorem failed_open_closable_iff_noRecord : ∃ status x h,
    vgGgufOpen ampleLibc true (headerFile 1 0) = (.error (status, x), h) ∧
      (Closable x h ↔ TableAllocated ampleLibc (headerFile 1 0)) := by
  obtain ⟨status, x, h, hopen⟩ := open_headerFile_fails 1 0 (by decide +kernel)
  exact ⟨status, x, h, hopen, failed_open_closable_iff hopen⟩

/-- A tensor and a key are declared, and the key is missing. -/
theorem missing_key_not_closable : ¬ ∀ (env : Libc) (pathOk : Bool) (file : GgufFile)
    (status : Status) (x : Object) (h : Blocks),
    vgGgufOpen env pathOk file = (.error (status, x), h) → Closable x h := by
  intro hclaim
  obtain ⟨status, x, h, hopen⟩ := open_headerFile_fails 1 1 (by decide +kernel)
  have hleft := failed_open_leaves hopen
  have htable := (hleft.owns.closable_iff hleft.names).1 (hclaim _ _ _ _ _ _ hopen)
  rcases hleft.table.1 htable with hrefused | hnone | ⟨-, -, hend⟩
  · exact hrefused (by decide +kernel : HeaderAccepted (headerFile 1 1))
  · exact absurd hnone (by decide +kernel)
  · exact absurd hend (by decide +kernel)

end Example

end VgEngine.Gguf.Owned

import VgEngine.Gguf.Tables
import VgEngine.Gguf.Geometry
import VgEngine.Model.Metadata

/-! Looking up tensors and metadata by name gives what a search through the file in its order
gives. -/
namespace VgEngine.Model
open Bytes Gguf

variable {env : Libc}

/-- The tables of an object know the first tensor and the first metadata value of each name. -/
structure Indexed (g : VgGguf) : Prop where
  tensors : ∃ t, g.tensorHash = some t ∧ t.Indexes (g.tensorList.map fun t => t.name.getD [])
  metas : ∃ t, g.metaHash = some t ∧ t.Indexes (g.metas.map Prod.fst)

theorem callocTable_of_plenty {ε : Type} (hmem : env.Plenty) (entries : Nat) (error : ε)
    (c : Cursor) : ∃ c', callocTable env entries error c = .ok (true, c') := by
  obtain ⟨c', hc', -⟩ := malloc_of_plenty hmem c
  refine ⟨c', ?_⟩
  unfold callocTable
  rw [hc']

theorem fillHash_indexes (hmem : env.Plenty) (keys : List (List UInt8)) (c : Cursor) :
    ∃ t c', fillHash env true keys c = (some t, c') ∧ t.Indexes keys := by
  have hcap : 4 ≤ hashCap keys.length := by
    unfold hashCap
    split <;> omega
  exact ⟨_, _, rfl, (HashTable.Indexes.empty hcap).insertAll hmem keys c⟩

theorem buildHashes_indexed (hmem : env.Plenty) {g g' : VgGguf} {c : Cursor}
    (h : buildHashes env g c = .ok g') : Indexed g' := by
  obtain ⟨c1, hc1⟩ := callocTable_of_plenty hmem g.tensorCount (Status.nomem, g) c
  obtain ⟨t, c2, ht, htensors⟩ := fillHash_indexes hmem (g.tensorList.map fun t => t.name.getD []) c1
  obtain ⟨c3, hc3⟩ := callocTable_of_plenty hmem g.metas.length
    (Status.nomem, { g with tensorHash := some t }) c2
  obtain ⟨t', c4, ht', hmetas⟩ := fillHash_indexes hmem (g.metas.map Prod.fst) c3
  unfold buildHashes at h
  simp only [hc1, ht, hc3, ht', ok_bind] at h
  cases h
  exact ⟨⟨t, rfl, htensors⟩, ⟨t', rfl, hmetas⟩⟩

theorem parseIndex_indexed (hmem : env.Plenty) {file : GgufFile} {g : VgGguf}
    (h : parseIndex env file = .ok g) : Indexed g := by
  obtain ⟨⟨g1, kvCount, c1⟩, -, h⟩ := bind_ok.1 h
  obtain ⟨⟨g2, c2⟩, -, h⟩ := bind_ok.1 h
  obtain ⟨⟨allocated, c3⟩, -, h⟩ := bind_ok.1 h
  obtain ⟨⟨ts, c4⟩, -, h⟩ := bind_ok.1 h
  dsimp only at h
  split at h
  · exact absurd h throw_ne_ok
  split at h
  · exact absurd h throw_ne_ok
  exact buildHashes_indexed hmem h

/-- The records of an accepted file have names. -/
theorem parseIndex_named {file : GgufFile} {g : VgGguf} (h : parseIndex env file = .ok g) :
    ∀ t ∈ g.tensorList, t.name.isSome = true := by
  obtain ⟨L, rest, -, -, hindex, -, -⟩ := parseIndex_accepts h
  have hlist : g.tensorList = L.tensors.map TensorDecl.record := by
    simp [VgGguf.tensorList, hindex.tensors]
  intro t ht
  rw [hlist] at ht
  obtain ⟨d, -, rfl⟩ := List.mem_map.1 ht
  rfl

theorem findIdx?_congr {α : Type*} {p q : α → Bool} {l : List α} (h : ∀ a ∈ l, p a = q a) :
    l.findIdx? p = l.findIdx? q := by
  induction l with
  | nil => rfl
  | cons a l ih =>
    rw [List.findIdx?_cons, List.findIdx?_cons, h a List.mem_cons_self,
      ih fun b hb => h b (List.mem_cons_of_mem a hb)]

variable {g : VgGguf}

/-- The search behind a table that knows the answer is not needed. -/
theorem findTensorIndex_eq (hindexed : Indexed g) (hnamed : ∀ t ∈ g.tensorList, t.name.isSome = true)
    (name : List UInt8) :
    findTensorIndex g name = g.tensorList.findIdx? fun t => t.name == some name := by
  obtain ⟨t, ht, hindexes⟩ := hindexed.tensors
  have hlookup : t.lookup name = g.tensorList.findIdx? fun t => t.name == some name := by
    rw [hindexes.lookup, List.findIdx?_map]
    refine findIdx?_congr fun t ht => ?_
    obtain ⟨s, hs⟩ := Option.isSome_iff_exists.1 (hnamed t ht)
    simp [hs]
  unfold findTensorIndex
  rw [ht, Option.bind_some, hlookup]
  cases g.tensorList.findIdx? fun t => t.name == some name <;> rfl

theorem findMetaIndex_eq (hindexed : Indexed g) (key : List UInt8) :
    findMetaIndex g key = g.metas.findIdx? fun m => m.1 == key := by
  obtain ⟨t, ht, hindexes⟩ := hindexed.metas
  have hlookup : t.lookup key = g.metas.findIdx? fun m => m.1 == key := by
    rw [hindexes.lookup, List.findIdx?_map]
    rfl
  unfold findMetaIndex
  rw [ht, Option.bind_some, hlookup]
  cases g.metas.findIdx? fun m => m.1 == key <;> rfl

/-- With allocations succeeding, both lookups give the first match in the order of the file, and
nothing where there is none; every probe of the tables comes to an end at a slot. -/
theorem lookups_linear (hmem : env.Plenty) {file : GgufFile} (h : parseIndex env file = .ok g) :
    (∀ name, find g name = g.tensorList.find? fun t => t.name == some name) ∧
      (∀ key, ggufMeta g key = findMeta g.metas key) ∧
      ∀ t, g.tensorHash = some t ∨ g.metaHash = some t → ∀ key, (hashFind t key).isSome = true := by
  have hindexed := parseIndex_indexed hmem h
  refine ⟨fun name => ?_, fun key => ?_, fun t ht key => ?_⟩
  · rw [find, findTensor, findTensorIndex_eq hindexed (parseIndex_named h),
      List.find?_eq_bind_findIdx?_getElem?]
    cases g.tensorList.findIdx? fun t => t.name == some name with
    | none => rfl
    | some i => simp
  · rw [ggufMeta, findMetaIndex_eq hindexed, findMeta,
      List.find?_eq_bind_findIdx?_getElem?]
    cases g.metas.findIdx? fun m => m.1 == key <;> rfl
  · obtain ⟨t1, ht1, hindexes1⟩ := hindexed.tensors
    obtain ⟨t2, ht2, hindexes2⟩ := hindexed.metas
    rcases ht with ht | ht
    · rw [ht1] at ht
      exact Option.some.inj ht ▸ hindexes1.hashFind key
    · rw [ht2] at ht
      exact Option.some.inj ht ▸ hindexes2.hashFind key

section Example

/-- Two tensors of one name, the second of two elements. -/
def twiceNamedFile : GgufFile :=
  ⟨(IndexLayout.mk 3 [] [⟨[97], [1], 0, 0⟩, ⟨[97], [2], 0, 4⟩]).encode ++ List.replicate 64 0,
    by decide +kernel, by decide +kernel⟩

theorem lookups_twiceNamed : ∃ g, parseIndex plainLibc twiceNamedFile = .ok g ∧
    find g [97] = g.tensorList.find? (fun t => t.name == some [97]) := by
  have haccept : (parseIndex plainLibc twiceNamedFile).isOk = true := by decide +kernel
  cases h : parseIndex plainLibc twiceNamedFile with
  | error e => simp [h, Except.isOk, Except.toBool] at haccept
  | ok g => exact ⟨g, rfl, (lookups_linear (fun _ => rfl) h).1 [97]⟩

end Example

end VgEngine.Model

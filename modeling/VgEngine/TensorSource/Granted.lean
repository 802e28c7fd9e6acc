import VgEngine.TensorSource.Pins
import Mathlib.Data.List.Perm.Basic

/-! What a lease on a tensor grants: its tensor, its size, and where its bytes are. -/
namespace VgEngine.TensorSource
open Gguf Keyed

variable {file : Handle} {st st' : State} {leases leases' : List Lease}

theorem held_perm (h : leases.Perm leases') (b : Nat) : held leases b = held leases' b :=
  h.countP_eq _

/-- The order of the leases does not matter. -/
theorem Sound.perm (h : Sound file st leases) (hperm : leases.Perm leases') :
    Sound file st leases' := by
  refine ⟨h.sameFile, h.distinct, h.owns, h.live, ?_, ?_, h.tier, ?_⟩
  · intro e he
    rw [← held_perm hperm]
    exact h.refs e he
  · intro e he hnone
    rw [← held_perm hperm] at hnone
    exact h.age e he hnone
  · intro l hl
    have hsound := h.lease l (hperm.mem_iff.2 hl)
    unfold LeaseSound at hsound ⊢
    simp only [held_perm hperm] at hsound
    exact hsound

/-- A release that finds its entry, of a lease held beside others. -/
theorem Sound.release_cons {l : Lease} (h : Sound file st (l :: leases))
    (hfinds : FindsEntry ⟨st, l :: leases⟩ (.release 0)) : Sound file (release st l) leases :=
  Sound.call (w := ⟨st, l :: leases⟩) h hfinds

/-- Entries have the sizes of their tensors. -/
def Sized (st : State) : Prop := ∀ e ∈ st.source.entries, ∃ t,
  st.source.file.index.tensorList[e.tensor]? = some t ∧ e.bytes = t.nbytes

/-- A lease on the tensor `t` at position `i`: on the mapping of the file, or on a block. -/
def Grants (st : State) (i : Nat) (t : GgufTensor) (l : Lease) : Prop :=
  l.tensor = i ∧ l.size = t.nbytes ∧
    match l.data with
    | .mapping o => st.source.file.mapped = true ∧
        o = (st.source.file.index.dataBase + t.dataOffset) % 2 ^ 64
    | .block _ => l.mapped = false

/-- What an acquire leaves as it was: the file, but for the mapping, which stays. -/
structure Extends (st st' : State) : Prop where
  index : st'.source.file.index = st.source.file.index
  file : st'.source.file.file = st.source.file.file
  mapped : st.source.file.mapped = true → st'.source.file.mapped = true

theorem Extends.refl (st : State) : Extends st st := ⟨rfl, rfl, id⟩

theorem Extends.of_eq {st₁ : State} (h : Extends st₁ st')
    (hfile : st₁.source.file = st.source.file) : Extends st st' :=
  ⟨hfile ▸ h.index, hfile ▸ h.file, hfile ▸ h.mapped⟩

theorem Extends.trans {st'' : State} (h : Extends st st') (h' : Extends st' st'') :
    Extends st st'' :=
  ⟨h'.index.trans h.index, h'.file.trans h.file, fun hmapped => h'.mapped (h.mapped hmapped)⟩

/-- What holds after an acquire of the tensor `t`. -/
structure Granted (st : State) (i : Nat) (t : GgufTensor) (r : Except Status Lease × State) :
    Prop where
  later : Extends st r.2
  sized : Sized r.2
  lease : ∀ l, r.1 = .ok l → Grants r.2 i t l

theorem Sized.of_subset (h : Sized st) (hindex : st'.source.file.index = st.source.file.index)
    (hentries : ∀ e ∈ st'.source.entries, e ∈ st.source.entries) : Sized st' := by
  intro e he
  rw [hindex]
  exact h e (hentries e he)

theorem Sized.modify (h : Sized st) (k : Nat) {f : CacheEntry → CacheEntry}
    (hf : ∀ e, (f e).tensor = e.tensor ∧ (f e).bytes = e.bytes) :
    Sized (st.withEntries (st.source.entries.modify k f)) := by
  intro x hx
  obtain ⟨y, hy, rfl | rfl⟩ := mem_modify hx
  · exact h x hy
  · rw [(hf y).1, (hf y).2]
    exact h y hy

theorem sized_opened (file : Handle) (cfg : Option Config) :
    Sized ⟨Source.opened file cfg, .empty⟩ := by
  intro e he
  cases he

theorem Granted.of_extends {st₁ : State} {i : Nat} {t : GgufTensor}
    {r : Except Status Lease × State} (h : Granted st₁ i t r) (hst : Extends st st₁) :
    Granted st i t r :=
  ⟨hst.trans h.later, h.sized, h.lease⟩

theorem mapFile_extends (st : State) (ok : Bool) : Extends st (st.mapFile ok) :=
  ⟨rfl, rfl, fun hmapped => by simp [State.mapFile, ggufMap, hmapped]⟩

theorem evictFor_file (st : State) (need : Nat) :
    (evictFor st need).source.file = st.source.file := by
  obtain ⟨left, evictions, hsource, -⟩ := evictFor_source st need
  rw [hsource]

theorem place_granted {i block : Nat} {t : GgufTensor} {desired : Tier} {reallocOk : Bool}
    (hsized : Sized st) (ht : st.source.file.index.tensorList[i]? = some t) :
    Granted st i t (place st i block t.nbytes desired reallocOk) := by
  unfold place
  dsimp only
  split
  · obtain ⟨-, hsub⟩ := evictFor_frame st t.nbytes
    have hfile := evictFor_file st t.nbytes
    have hevicted : Sized (evictFor st t.nbytes) := hsized.of_subset (by rw [hfile]) hsub
    split
    · refine ⟨⟨by rw [hfile], by rw [hfile], by rw [hfile]; exact id⟩, hevicted, ?_⟩
      intro l hl
      cases hl
    · rename_i st' hreserve
      obtain ⟨hentries, -, -, hfile'⟩ := reserveEntry_some hreserve
      have hsame : st'.source.file = st.source.file := hfile'.trans hfile
      refine ⟨⟨?_, ?_, ?_⟩, ?_, ?_⟩
      · exact congrArg Handle.index hsame
      · exact congrArg Handle.file hsame
      · exact fun hmapped => (congrArg Handle.mapped hsame).trans hmapped
      · intro e he
        have he' : e ∈ st'.source.entries ++ [_] := he
        have hindex : st'.source.file.index = st.source.file.index := by rw [hsame]
        rcases List.mem_append.1 he' with he' | he'
        · rw [hentries] at he'
          exact hindex ▸ hsized e (hsub e he')
        · rw [List.mem_singleton.1 he']
          exact ⟨t, hindex ▸ ht, rfl⟩
      · intro l hl
        cases hl
        exact ⟨rfl, rfl, rfl⟩
  · refine ⟨⟨rfl, rfl, id⟩, hsized, ?_⟩
    intro l hl
    cases hl
    exact ⟨rfl, rfl, rfl⟩

theorem ggufRead_mapped {io : ReadIo} {h : Handle} {t : GgufTensor} {off n : Nat}
    (hmapped : h.mapped = true) : (ggufRead io h t off n).2.mapped = true := by
  unfold ggufRead
  split
  · exact hmapped
  · dsimp only
    rw [if_neg (by simp [hmapped])]
    exact hmapped

theorem load_granted {i : Nat} {t : GgufTensor} {desired : Tier} {o : Outcome}
    (hsized : Sized st) (ht : st.source.file.index.tensorList[i]? = some t) :
    Granted st i t (load st i t desired o) := by
  have hnone {status : Status} {st' : State} (hst : Extends st st') (hst' : Sized st') :
      Granted st i t (.error status, st') := by
    refine ⟨hst, hst', ?_⟩
    intro l hl
    cases hl
  obtain ⟨mapped, hread⟩ := ggufRead_handle o.read st.source.file t 0 t.nbytes
  have hmapped : st.source.file.mapped = true → mapped = true := by
    intro h
    have hafter : (ggufRead o.read st.source.file t 0 t.nbytes).2.mapped = true := ggufRead_mapped h
    rwa [hread] at hafter
  unfold load
  split
  · exact hnone (.refl st) hsized
  · dsimp only
    rw [hread]
    have hst : Extends st { st with source := { st.source with
        file := { st.source.file with mapped := mapped } } } := ⟨rfl, rfl, hmapped⟩
    cases (ggufRead o.read st.source.file t 0 t.nbytes).1 with
    | error status => exact hnone hst hsized
    | ok bytes =>
      dsimp only
      split
      · exact hnone ⟨rfl, rfl, hmapped⟩ hsized
      · exact (place_granted (by exact hsized) (by exact ht)).of_extends ⟨rfl, rfl, hmapped⟩

theorem miss_granted {i : Nat} {t : GgufTensor} {desired : Tier} {o : Outcome}
    (hsized : Sized st) (ht : st.source.file.index.tensorList[i]? = some t) :
    Granted st i t (miss st i t desired o) := by
  unfold miss
  dsimp only
  split
  · have hst : Extends st (st.countMiss.mapFile o.map2) :=
      (mapFile_extends st.countMiss o.map2).of_eq rfl
    split
    · rename_i hcovers
      refine ⟨hst, hsized, ?_⟩
      intro l hl
      cases hl
      refine ⟨rfl, rfl, ?_, rfl⟩
      exact (of_decide_eq_true hcovers).1
    · refine ⟨hst, hsized, ?_⟩
      intro l hl
      cases hl
  · exact (load_granted (by exact hsized) (by exact ht)).of_extends ⟨rfl, rfl, id⟩

theorem lookup_granted {i : Nat} {t : GgufTensor} {desired : Tier} {o : Outcome}
    (hsized : Sized st) (ht : st.source.file.index.tensorList[i]? = some t) :
    Granted st i t (lookup st i t desired o) := by
  have hcount : Extends st st.countLookup := ⟨rfl, rfl, id⟩
  unfold lookup
  dsimp only
  split
  · exact (miss_granted (by exact hsized) (by exact ht)).of_extends hcount
  · rename_i k hfind
    obtain ⟨e, he, htensor, -⟩ := findEntry_some hfind
    rw [he]
    refine ⟨⟨rfl, rfl, id⟩, ?_, ?_⟩
    · exact hsized.modify k fun e => ⟨rfl, rfl⟩
    · intro l hl
      cases hl
      obtain ⟨t', ht', hbytes⟩ := hsized e (List.mem_of_getElem? he)
      rw [htensor, ht] at ht'
      obtain rfl := Option.some.inj ht'
      exact ⟨rfl, hbytes, rfl⟩

/-- An acquire by name grants a lease on the tensor of that name. -/
theorem acquire_granted {name : List UInt8} {desired : Tier} {o : Outcome} (hsized : Sized st)
    {i : Nat} {t : GgufTensor} (hfind : findTensor st.source.file.index name = some (i, t)) :
    Granted st i t (acquire st name desired o) := by
  have ht := findTensor_getElem hfind
  unfold acquire
  rw [hfind]
  dsimp only
  split
  · have hst : Extends st (st.countLookup.mapFile o.map1) :=
      (mapFile_extends st.countLookup o.map1).of_eq rfl
    split
    · rename_i hcovers
      refine ⟨⟨hst.index, hst.file, hst.mapped⟩, hsized, ?_⟩
      intro l hl
      cases hl
      refine ⟨rfl, rfl, ?_, rfl⟩
      exact (of_decide_eq_true hcovers).1
    · exact (lookup_granted (by exact hsized) (by exact ht)).of_extends hst
  · exact lookup_granted hsized ht

theorem release_eq (st : State) (l : Lease) : release st l = st ∨
    (∃ k, release st l = st.withEntries (st.source.entries.modify k fun e =>
      { e with refs := e.refs - 1 })) ∨
    ∃ b, release st l = { st with memory := st.memory.free b } := by
  unfold release
  split
  · split
    · exact Or.inl rfl
    · exact Or.inr (Or.inl ⟨_, rfl⟩)
  · split
    · split
      · exact Or.inl rfl
      · exact Or.inr (Or.inr ⟨_, rfl⟩)
    · exact Or.inl rfl

theorem release_file (st : State) (l : Lease) : (release st l).source.file = st.source.file := by
  rcases release_eq st l with h | ⟨k, h⟩ | ⟨b, h⟩ <;> rw [h]
  rfl

theorem release_later (st : State) (l : Lease) : Extends st (release st l) := by
  have hfile := release_file st l
  exact ⟨congrArg Handle.index hfile, congrArg Handle.file hfile,
    fun hmapped => (congrArg Handle.mapped hfile).trans hmapped⟩

theorem Sized.release (h : Sized st) (l : Lease) : Sized (release st l) := by
  rcases release_eq st l with heq | ⟨k, heq⟩ | ⟨b, heq⟩ <;> rw [heq]
  · exact h
  · exact h.modify k fun e => ⟨rfl, rfl⟩
  · exact h

end VgEngine.TensorSource

import VgEngine.Model.Probe
import VgEngine.Gguf.AcceptIndex

/-! What a successful probe has checked. -/
namespace VgEngine.Model
open Bytes Gguf

/-- The check goes on with the same geometry, or ends in a refusal. -/
structure Keeps (p : ModelProbe) (c : Check ModelProbe) : Prop where
  same : ∀ p', c = .ok p' → p'.status = .ok ∧ p'.toGeometry = p.toGeometry
  refused : ∀ p', c = .error p' → p'.ok = false

section Keeps

variable {p : ModelProbe} {c : Check ModelProbe}

theorem Keeps.ok (h : p.status = .ok) : Keeps p (.ok p) := by
  constructor
  · rintro p' ⟨⟩
    exact ⟨h, rfl⟩
  · rintro p' ⟨⟩

theorem fail_ok (h : p.status = .ok) (status : Status) (tensor : Option (List UInt8))
    (detail : List (List UInt8)) : (fail p status tensor detail).ok = false := by
  unfold fail
  rw [if_neg (by simpa using h)]

theorem Keeps.refuse (h : p.status = .ok) (status : Status) (tensor : Option (List UInt8))
    (detail : List (List UInt8)) : Keeps p (refuse p status tensor detail) := by
  constructor
  · rintro p' ⟨⟩
  · rintro p' ⟨⟩
    exact fail_ok h status tensor detail

theorem Keeps.missing (h : p.status = .ok) (name : List UInt8) : Keeps p (missing p name) :=
  Keeps.refuse h _ _ _

theorem Keeps.bind {f : ModelProbe → Check ModelProbe} (h : Keeps p c)
    (hf : ∀ p', p'.status = .ok → p'.toGeometry = p.toGeometry → Keeps p' (f p')) :
    Keeps p (c >>= f) := by
  constructor
  · intro p'' heq
    obtain ⟨p', hc, hp''⟩ := bind_ok.1 heq
    obtain ⟨hstatus, hgeometry⟩ := h.same p' hc
    obtain ⟨hstatus', hgeometry'⟩ := (hf p' hstatus hgeometry).same p'' hp''
    exact ⟨hstatus', hgeometry'.trans hgeometry⟩
  · intro p'' heq
    cases hc : c with
    | error p' =>
      rw [hc] at heq
      cases heq
      exact h.refused _ hc
    | ok p' =>
      rw [hc] at heq
      obtain ⟨hstatus, hgeometry⟩ := h.same p' hc
      exact (hf p' hstatus hgeometry).refused p'' heq

theorem Keeps.of_eq {p' : ModelProbe} (h : Keeps p' c) (heq : p'.toGeometry = p.toGeometry) :
    Keeps p c :=
  ⟨fun q hq => ⟨(h.same q hq).1, (h.same q hq).2.trans heq⟩, h.refused⟩

theorem Keeps.ite {P : Prop} [Decidable P] {c' : Check ModelProbe} (h : Keeps p c)
    (h' : Keeps p c') : Keeps p (if P then c else c') := by
  split
  · exact h
  · exact h'

@[simp] theorem addQuant_status (p : ModelProbe) (type : Nat) :
    (addQuant p type).status = p.status := by
  unfold addQuant
  dsimp only
  split <;> rfl

@[simp] theorem addQuant_geometry (p : ModelProbe) (type : Nat) :
    (addQuant p type).toGeometry = p.toGeometry := by
  unfold addQuant
  dsimp only
  split <;> rfl

end Keeps

section Requirements

variable {g : VgGguf} {p p' : ModelProbe} {name : List UInt8}

/-- A tensor that `require_tensor` lets pass. -/
def Passes (g : VgGguf) (name : List UInt8) (dim0 dim1 : Nat) (dims : Bool) : Prop :=
  ∃ t q, find g name = some t ∧ quantInfo t.ggmlType = some q ∧
    supportedScalar t.ggmlType = true ∧
    (dims = true → 2 ≤ t.nDims ∧ (dim0 ≠ 0 → dim t 0 = dim0) ∧ (dim1 ≠ 0 → dim t 1 = dim1) ∧
      dim t 0 % q.blockSize = 0)

theorem checkDims_keeps (h : p.status = .ok) (t : GgufTensor) (q : QuantInfo)
    (dim0 dim1 : Nat) : Keeps p (checkDims p name t q dim0 dim1) := by
  unfold checkDims
  exact .ite (.refuse h _ _ _) <| .ite (.refuse h _ _ _) <| .ite (.refuse h _ _ _) <|
    .ite (.refuse h _ _ _) (.ok h)

theorem checkDims_ok {t : GgufTensor} {q : QuantInfo} {dim0 dim1 : Nat}
    (h : checkDims p name t q dim0 dim1 = .ok p') :
    2 ≤ t.nDims ∧ (dim0 ≠ 0 → dim t 0 = dim0) ∧ (dim1 ≠ 0 → dim t 1 = dim1) ∧
      dim t 0 % q.blockSize = 0 := by
  unfold checkDims refuse at h
  split at h
  · cases h
  split at h
  · cases h
  split at h
  · cases h
  split at h
  · cases h
  · rename_i hrank h0 h1 hblock
    simp only [not_and, not_not] at h0 h1 hblock
    exact ⟨not_lt.1 hrank, h0, h1, hblock⟩

theorem requireTensor_keeps (h : p.status = .ok) (name : List UInt8) (dim0 dim1 : Nat)
    (dims : Bool) : Keeps p (requireTensor g p name dim0 dim1 dims) := by
  unfold requireTensor
  split
  · exact .missing h name
  · rename_i t _
    split
    · exact .refuse h _ _ _
    · rename_i q _
      have hadd : (addQuant p t.ggmlType).status = .ok := by rw [addQuant_status, h]
      refine Keeps.of_eq ?_ (addQuant_geometry p t.ggmlType)
      exact .ite (.refuse hadd _ _ _) (.ite (checkDims_keeps hadd t q dim0 dim1) (.ok hadd))

theorem requireTensor_passes {dim0 dim1 : Nat} {dims : Bool}
    (h : requireTensor g p name dim0 dim1 dims = .ok p') : Passes g name dim0 dim1 dims := by
  unfold requireTensor at h
  split at h
  · cases h
  · rename_i t hfind
    split at h
    · cases h
    · rename_i q hq
      dsimp only at h
      split at h
      · cases h
      · rename_i hscalar
        refine ⟨t, q, hfind, hq, by simpa using hscalar, ?_⟩
        rintro rfl
        exact checkDims_ok h

theorem requireVector_keeps (h : p.status = .ok) (name : List UInt8) (width : Nat) :
    Keeps p (requireVector g p name width) := by
  unfold requireVector
  split
  · exact .missing h name
  · exact .ite (.refuse h _ _ _) (.ite (.refuse h _ _ _) (.ok h))

end Requirements

section Layers

variable {g : VgGguf} {p p' : ModelProbe}

/-- The tensors that every layer must have. -/
structure AttentionChecked (g : VgGguf) (p : Geometry) (qdim kdim l : Nat) : Prop where
  norm : Passes g (blk l "attn_norm.weight") p.nEmbd 0 false
  query : Passes g (blk l "attn_q.weight") p.nEmbd qdim true
  key : Passes g (blk l "attn_k.weight") p.nEmbd kdim true
  value : Passes g (blk l "attn_v.weight") p.nEmbd kdim true
  output : Passes g (blk l "attn_output.weight") qdim p.nEmbd true
  ffnNorm : Passes g (blk l "ffn_norm.weight") p.nEmbd 0 false

theorem qdim_congr (h : p'.toGeometry = p.toGeometry) : p'.qdim = p.qdim := by
  unfold ModelProbe.qdim
  rw [h]

theorem kdim_congr (h : p'.toGeometry = p.toGeometry) : p'.kdim = p.kdim := by
  unfold ModelProbe.kdim
  rw [h]

theorem checkAttention_keeps (h : p.status = .ok) (l : Nat) : Keeps p (checkAttention g l p) := by
  unfold checkAttention
  refine (requireTensor_keeps h _ _ _ _).bind fun p1 h1 _ => ?_
  refine (requireTensor_keeps h1 _ _ _ _).bind fun p2 h2 _ => ?_
  refine (requireTensor_keeps h2 _ _ _ _).bind fun p3 h3 _ => ?_
  refine (requireTensor_keeps h3 _ _ _ _).bind fun p4 h4 _ => ?_
  refine (requireTensor_keeps h4 _ _ _ _).bind fun p5 h5 _ => ?_
  exact requireTensor_keeps h5 _ _ _ _

theorem checkAttention_checked (hp : p.status = .ok) {l : Nat} (h : checkAttention g l p = .ok p') :
    AttentionChecked g p.toGeometry p.qdim p.kdim l := by
  obtain ⟨p1, h1, h⟩ := bind_ok.1 h
  obtain ⟨p2, h2, h⟩ := bind_ok.1 h
  obtain ⟨p3, h3, h⟩ := bind_ok.1 h
  obtain ⟨p4, h4, h⟩ := bind_ok.1 h
  obtain ⟨p5, h5, h6⟩ := bind_ok.1 h
  obtain ⟨s1, g1⟩ := (requireTensor_keeps hp _ _ _ _).same p1 h1
  obtain ⟨s2, g2⟩ := (requireTensor_keeps s1 _ _ _ _).same p2 h2
  obtain ⟨s3, g3⟩ := (requireTensor_keeps s2 _ _ _ _).same p3 h3
  obtain ⟨s4, g4⟩ := (requireTensor_keeps s3 _ _ _ _).same p4 h4
  obtain ⟨-, g5⟩ := (requireTensor_keeps s4 _ _ _ _).same p5 h5
  rw [g1] at g2
  rw [g2] at g3
  rw [g3] at g4
  rw [g4] at g5
  rw [qdim_congr g1, g1] at h2
  rw [kdim_congr g2, g2] at h3
  rw [kdim_congr g3, g3] at h4
  rw [qdim_congr g4, g4] at h5
  rw [g5] at h6
  exact ⟨requireTensor_passes h1, requireTensor_passes h2, requireTensor_passes h3,
    requireTensor_passes h4, requireTensor_passes h5, requireTensor_passes h6⟩

theorem checkSubNorms_keeps (h : p.status = .ok) (l : Nat) : Keeps p (checkSubNorms g l p) := by
  unfold checkSubNorms
  apply Keeps.ite
  · exact (requireVector_keeps h _ _).bind fun p1 h1 _ => requireVector_keeps h1 _ _
  · exact .ok h

theorem checkExperts_keeps (h : p.status = .ok) (l : Nat) : Keeps p (checkExperts g l p) := by
  unfold checkExperts
  refine (requireTensor_keeps h _ _ _ _).bind fun p1 h1 _ => ?_
  refine (requireTensor_keeps h1 _ _ _ _).bind fun p2 h2 _ => ?_
  refine (requireTensor_keeps h2 _ _ _ _).bind fun p3 h3 _ => ?_
  refine (requireTensor_keeps h3 _ _ _ _).bind fun p4 h4 _ => ?_
  split
  · exact .ok h4
  · exact .ite (.refuse h4 _ _ _) (.ok h4)

theorem checkDense_keeps (h : p.status = .ok) (l : Nat) : Keeps p (checkDense g l p) := by
  have hgate : Keeps p (checkGate g l p) := .ite (requireTensor_keeps h _ _ _ _) (.ok h)
  unfold checkDense
  refine hgate.bind fun p1 h1 _ => ?_
  exact (requireTensor_keeps h1 _ _ _ _).bind fun p2 h2 _ => requireTensor_keeps h2 _ _ _ _

theorem checkLayer_keeps (h : p.status = .ok) (l : Nat) : Keeps p (checkLayer g p l) := by
  unfold checkLayer
  refine (checkAttention_keeps h l).bind fun p1 h1 _ => ?_
  refine (checkSubNorms_keeps h1 l).bind fun p2 h2 _ => ?_
  exact .ite (checkExperts_keeps h2 l) (checkDense_keeps h2 l)

/-- All the layers of a list pass, and none of them changes the geometry. -/
theorem foldlM_layers {ls : List Nat} (hp : p.status = .ok)
    (h : ls.foldlM (checkLayer g) p = .ok p') : p'.toGeometry = p.toGeometry ∧ p'.status = .ok ∧
      ∀ l ∈ ls, ∃ p1 p2, p1.toGeometry = p.toGeometry ∧ p1.status = .ok ∧
        checkLayer g p1 l = .ok p2 := by
  induction ls generalizing p with
  | nil =>
    cases h
    exact ⟨rfl, hp, by simp⟩
  | cons l ls ih =>
    rw [List.foldlM_cons] at h
    obtain ⟨p1, h1, h⟩ := bind_ok.1 h
    obtain ⟨hs1, hg1⟩ := (checkLayer_keeps hp l).same p1 h1
    obtain ⟨hg, hs, hrest⟩ := ih hs1 h
    refine ⟨hg.trans hg1, hs, fun k hk => ?_⟩
    rcases List.mem_cons.1 hk with rfl | hk
    · exact ⟨p, p1, rfl, hp, h1⟩
    · obtain ⟨p2, p3, hg2, hs2, h2⟩ := hrest k hk
      exact ⟨p2, p3, hg2.trans hg1, hs2, h2⟩

theorem foldlM_layers_refused {ls : List Nat} (hp : p.status = .ok)
    (h : ls.foldlM (checkLayer g) p = .error p') : p'.ok = false := by
  induction ls generalizing p with
  | nil => cases h
  | cons l ls ih =>
    rw [List.foldlM_cons] at h
    cases h1 : checkLayer g p l with
    | error p1 =>
      rw [h1] at h
      cases h
      exact (checkLayer_keeps hp l).refused _ h1
    | ok p1 =>
      rw [h1] at h
      exact ih ((checkLayer_keeps hp l).same p1 h1).1 h

structure ExpertsChecked (g : VgGguf) (p : Geometry) (l : Nat) : Prop where
  router : Passes g (blk l "ffn_gate_inp.weight") p.nEmbd p.nExpert true
  gate : Passes g (blk l "ffn_gate_exps.weight") p.nEmbd 0 true
  up : Passes g (blk l "ffn_up_exps.weight") p.nEmbd 0 true
  down : Passes g (blk l "ffn_down_exps.weight") p.nFf p.nEmbd true
  stacked : ∀ ge, find g (txt "blk.0.ffn_gate_exps.weight") = some ge → 3 ≤ ge.nDims →
    dim ge 2 = p.nExpert

structure DenseChecked (g : VgGguf) (p : Geometry) (l : Nat) : Prop where
  gate : has g "blk.0.ffn_gate.weight" = true →
    Passes g (blk l "ffn_gate.weight") p.nEmbd p.nFf true
  up : Passes g (blk l "ffn_up.weight") p.nEmbd p.nFf true
  down : Passes g (blk l "ffn_down.weight") p.nFf p.nEmbd true

theorem checkExperts_checked (hp : p.status = .ok) {l : Nat} (h : checkExperts g l p = .ok p') :
    ExpertsChecked g p.toGeometry l := by
  obtain ⟨p1, h1, h⟩ := bind_ok.1 h
  obtain ⟨p2, h2, h⟩ := bind_ok.1 h
  obtain ⟨p3, h3, h⟩ := bind_ok.1 h
  obtain ⟨p4, h4, h⟩ := bind_ok.1 h
  obtain ⟨s1, g1⟩ := (requireTensor_keeps hp _ _ _ _).same p1 h1
  obtain ⟨s2, g2⟩ := (requireTensor_keeps s1 _ _ _ _).same p2 h2
  obtain ⟨s3, g3⟩ := (requireTensor_keeps s2 _ _ _ _).same p3 h3
  obtain ⟨s4, g4⟩ := (requireTensor_keeps s3 _ _ _ _).same p4 h4
  rw [g1] at g2 h2
  rw [g2] at g3 h3
  rw [g3] at g4 h4
  refine ⟨requireTensor_passes h1, requireTensor_passes h2, requireTensor_passes h3,
    requireTensor_passes h4, ?_⟩
  intro ge hge hrank
  rw [hge] at h
  dsimp only at h
  split at h
  · cases h
  · rename_i hstack
    rw [g4] at hstack
    by_contra hne
    exact hstack ⟨hrank, hne⟩

theorem checkGate_keeps (h : p.status = .ok) (l : Nat) : Keeps p (checkGate g l p) :=
  .ite (requireTensor_keeps h _ _ _ _) (.ok h)

theorem checkDense_checked (hp : p.status = .ok) {l : Nat} (h : checkDense g l p = .ok p') :
    DenseChecked g p.toGeometry l := by
  obtain ⟨p1, h1, h⟩ := bind_ok.1 h
  obtain ⟨p2, h2, h3⟩ := bind_ok.1 h
  obtain ⟨s1, g1⟩ := (checkGate_keeps hp l).same p1 h1
  obtain ⟨-, g2⟩ := (requireTensor_keeps s1 _ _ _ _).same p2 h2
  rw [g1] at g2 h2
  rw [g2] at h3
  refine ⟨fun hgate => ?_, requireTensor_passes h2, requireTensor_passes h3⟩
  rw [checkGate, if_pos hgate] at h1
  exact requireTensor_passes h1

/-- What the probe has checked of a layer. -/
structure LayerChecked (g : VgGguf) (p : Geometry) (qdim kdim l : Nat) : Prop where
  attention : AttentionChecked g p qdim kdim l
  experts : p.isMoe = true → ExpertsChecked g p l
  dense : p.isMoe = false → DenseChecked g p l

theorem checkLayer_checked (hp : p.status = .ok) {l : Nat} (h : checkLayer g p l = .ok p') :
    LayerChecked g p.toGeometry p.qdim p.kdim l := by
  obtain ⟨p1, h1, h⟩ := bind_ok.1 h
  obtain ⟨p2, h2, h⟩ := bind_ok.1 h
  obtain ⟨s1, g1⟩ := (checkAttention_keeps hp l).same p1 h1
  obtain ⟨s2, g2⟩ := (checkSubNorms_keeps s1 l).same p2 h2
  rw [g1] at g2
  have hmoe : p2.isMoe = p.isMoe := by rw [g2]
  rw [hmoe] at h
  constructor
  · exact checkAttention_checked hp h1
  · intro hexperts
    rw [hexperts, if_pos rfl] at h
    exact g2 ▸ checkExperts_checked s2 h
  · intro hdense
    rw [hdense, if_neg Bool.false_ne_true] at h
    exact g2 ▸ checkDense_checked s2 h

end Layers

section Probed

variable {g : VgGguf}

/-- The geometry under an architecture, before any tensor but the embedding is checked. -/
def geometryOf (g : VgGguf) (arch : List UInt8) (te : GgufTensor) : Geometry :=
  (readFeatures g (deriveHeads (deriveVocab te (readMetadata g arch .blank)))).toGeometry

/-- What a probe that reports success has checked. -/
structure Probed (g : VgGguf) (p : ModelProbe) (arch : List UInt8) (te : GgufTensor) : Prop where
  declared : ggufMeta g (txt "general.architecture") = some arch
  known : archSupported arch = true
  embedding : find g (txt "token_embd.weight") = some te
  scalar : supportedScalar te.ggmlType = true
  geometry : p.toGeometry = geometryOf g arch te
  heads : p.nHead ≠ 0
  sizes : p.nLayer ≠ 0 ∧ p.nEmbd ≠ 0 ∧ p.headDim ≠ 0
  shared : p.hasSharedExpert = true → p.isMoe = true
  norm : Passes g (txt "output_norm.weight") p.nEmbd 0 false
  head : 2 ≤ ((find g (txt "output.weight")).getD te).nDims ∧
    dim ((find g (txt "output.weight")).getD te) 0 = p.nEmbd
  layers : ∀ l < p.nLayer, LayerChecked g p.toGeometry p.qdim p.kdim l

theorem deriveHeads_congr {p q : ModelProbe} (h : p.toGeometry = q.toGeometry) :
    (deriveHeads p).toGeometry = (deriveHeads q).toGeometry := by
  unfold deriveHeads
  simp only [h]

theorem deriveVocab_congr {p q : ModelProbe} (te : GgufTensor)
    (h : p.toGeometry = q.toGeometry) :
    (deriveVocab te p).toGeometry = (deriveVocab te q).toGeometry := by
  unfold deriveVocab
  simp only [h]

theorem readFeatures_congr {p q : ModelProbe} (h : p.toGeometry = q.toGeometry) :
    (readFeatures g p).toGeometry = (readFeatures g q).toGeometry := by
  unfold readFeatures
  simp only [h]

theorem readMetadata_congr {p q : ModelProbe} (arch : List UInt8)
    (h : p.toGeometry = q.toGeometry) :
    (readMetadata g arch p).toGeometry = (readMetadata g arch q).toGeometry := by
  unfold readMetadata
  simp only [h]

theorem probeGeometry_ok {arch : List UInt8} {te : GgufTensor} {p p' : ModelProbe}
    (hp : p.status = .ok) (hzero : p.toGeometry = .zero)
    (h : probeGeometry g arch te p = .ok p') :
    p'.status = .ok ∧ p'.toGeometry = geometryOf g arch te ∧ supportedScalar te.ggmlType = true ∧
      p'.nHead ≠ 0 ∧ p'.nLayer ≠ 0 ∧ p'.nEmbd ≠ 0 ∧ p'.headDim ≠ 0 := by
  unfold probeGeometry refuse at h
  dsimp only at h
  split at h
  · cases h
  split at h
  · cases h
  split at h
  · cases h
  · rename_i hhead hscalar hsizes
    cases h
    have hgeometry : (readFeatures g (addQuant (deriveHeads (deriveVocab te
        (readMetadata g arch p))) te.ggmlType)).toGeometry = geometryOf g arch te := by
      apply readFeatures_congr
      rw [addQuant_geometry]
      apply deriveHeads_congr
      apply deriveVocab_congr
      apply readMetadata_congr
      exact hzero
    rw [not_or, not_or] at hsizes
    refine ⟨?_, hgeometry, by simpa using hscalar, ?_, hsizes⟩
    · simpa [readFeatures, deriveHeads, deriveVocab, readMetadata] using hp
    · simpa [readFeatures, deriveHeads, deriveVocab, readMetadata] using hhead

theorem checkLayout_keeps {p : ModelProbe} (h : p.status = .ok) : Keeps p (checkLayout g p) := by
  unfold checkLayout
  split
  · exact .refuse h _ _ _
  · exact .ite (.refuse h _ _ _) (.ite (.refuse h _ _ _) (.ok h))

theorem checkLayout_shared {p p' : ModelProbe} (h : checkLayout g p = .ok p') :
    p.hasSharedExpert = true → p.isMoe = true := by
  intro hshared
  unfold checkLayout refuse at h
  split at h
  · cases h
  split at h
  · cases h
  split at h
  · cases h
  · rename_i hmoe
    by_contra hdense
    exact hmoe ⟨hshared, by simpa using hdense⟩

theorem checkArch_keeps {p : ModelProbe} (h : p.status = .ok) (arch : List UInt8) :
    Keeps p (checkArch g arch p) := by
  unfold checkArch
  dsimp only
  generalize hcap : ({ p with logitSoftcap := _ } : ModelProbe) = q
  have hq : q.status = .ok ∧ q.toGeometry = p.toGeometry := by
    rw [← hcap]
    exact ⟨h, rfl⟩
  exact Keeps.of_eq (.ite (.ok hq.1) (.refuse hq.1 _ _ _)) hq.2

theorem checkArch_known {p p' : ModelProbe} {arch : List UInt8}
    (h : checkArch g arch p = .ok p') : archSupported arch = true := by
  unfold checkArch refuse at h
  dsimp only at h
  split at h
  · assumption
  · cases h

theorem checkHead_keeps {p : ModelProbe} (h : p.status = .ok) (te : GgufTensor) :
    Keeps p (checkHead g te p) := by
  unfold checkHead
  refine (requireTensor_keeps h _ _ _ _).bind fun p1 h1 _ => ?_
  have hadd : (addQuant p1 ((find g (txt "output.weight")).getD te).ggmlType).status = .ok := by
    rw [addQuant_status, h1]
  exact Keeps.of_eq (.ite (.refuse hadd _ _ _) (.ite (.refuse hadd _ _ _) (.ok hadd)))
    (addQuant_geometry _ _)

theorem checkHead_ok {p p' : ModelProbe} {te : GgufTensor} (hp : p.status = .ok)
    (h : checkHead g te p = .ok p') : Passes g (txt "output_norm.weight") p.nEmbd 0 false ∧
      2 ≤ ((find g (txt "output.weight")).getD te).nDims ∧
      dim ((find g (txt "output.weight")).getD te) 0 = p.nEmbd := by
  obtain ⟨p1, h1, h⟩ := bind_ok.1 h
  obtain ⟨-, g1⟩ := (requireTensor_keeps hp _ _ _ _).same p1 h1
  refine ⟨requireTensor_passes h1, ?_⟩
  unfold refuse at h
  dsimp only at h
  split at h
  · cases h
  split at h
  · cases h
  · rename_i hshape
    rw [not_or, not_not, addQuant_geometry, g1] at hshape
    exact ⟨not_lt.1 hshape.1, hshape.2⟩

/-- The checks that follow the geometry. -/
def checksAfter (g : VgGguf) (arch : List UInt8) (te : GgufTensor) (p : ModelProbe) :
    Check ModelProbe := do
  let p ← checkLayout g p
  let p ← checkArch g arch p
  let p ← checkHead g te p
  let p ← checkLayers g p
  pure (listOps p)

theorem checkLayers_keeps {p : ModelProbe} (h : p.status = .ok) : Keeps p (checkLayers g p) := by
  constructor
  · intro p' hp'
    obtain ⟨hgeometry, hstatus, -⟩ := foldlM_layers h hp'
    exact ⟨hstatus, hgeometry⟩
  · intro p' hp'
    exact foldlM_layers_refused h hp'

theorem checksAfter_keeps {p : ModelProbe} (h : p.status = .ok) (arch : List UInt8)
    (te : GgufTensor) : Keeps p (checksAfter g arch te p) := by
  unfold checksAfter
  refine (checkLayout_keeps h).bind fun p1 h1 _ => ?_
  refine (checkArch_keeps h1 arch).bind fun p2 h2 _ => ?_
  refine (checkHead_keeps h2 te).bind fun p3 h3 _ => ?_
  exact (checkLayers_keeps h3).bind fun p4 h4 _ => ⟨by rintro _ ⟨⟩; exact ⟨h4, rfl⟩, by rintro _ ⟨⟩⟩

theorem probeGeometry_refused {p p' : ModelProbe} {arch : List UInt8} {te : GgufTensor}
    (hp : p.status = .ok) (h : probeGeometry g arch te p = .error p') : p'.ok = false := by
  unfold probeGeometry refuse at h
  dsimp only at h
  split at h
  · cases h
    apply fail_ok
    simpa [deriveVocab, readMetadata] using hp
  split at h
  · cases h
    apply fail_ok
    simpa [deriveHeads, deriveVocab, readMetadata] using hp
  split at h
  · cases h
    apply fail_ok
    simpa [readFeatures, deriveHeads, deriveVocab, readMetadata] using hp
  · cases h

theorem probeChecks_refused {p : ModelProbe} (h : probeChecks g = .error p) : p.ok = false := by
  unfold probeChecks at h
  dsimp only at h
  generalize hblank : ({ ModelProbe.blank with arch := _ } : ModelProbe) = q at h
  have hq : q.status = .ok := by rw [← hblank]; rfl
  split at h
  · cases h
    exact fail_ok hq _ _ _
  · rename_i arch _
    split at h
    · cases h
      apply fail_ok
      simpa [readMetadata] using hq
    · rename_i te _
      cases hg : probeGeometry g arch te q with
      | error p1 =>
        rw [hg] at h
        cases h
        exact probeGeometry_refused hq hg
      | ok p1 =>
        rw [hg] at h
        have hzero : q.toGeometry = .zero := by rw [← hblank]; rfl
        exact (checksAfter_keeps (probeGeometry_ok hq hzero hg).1 arch te).refused p h

/-- The checks that a probe with success has gone through. -/
theorem modelProbe_passes (h : (modelProbe g).ok = true) : ∃ arch te p p1,
    ggufMeta g (txt "general.architecture") = some arch ∧
      find g (txt "token_embd.weight") = some te ∧ p.status = .ok ∧ p.toGeometry = .zero ∧
        probeGeometry g arch te p = .ok p1 ∧ checksAfter g arch te p1 = .ok (modelProbe g) := by
  unfold modelProbe at h ⊢
  cases hc : probeChecks g with
  | error p =>
    rw [hc] at h
    rw [probeChecks_refused hc] at h
    cases h
  | ok p =>
    unfold probeChecks at hc
    dsimp only at hc
    generalize hblank : ({ ModelProbe.blank with arch := _ } : ModelProbe) = q at hc
    have hq : q.status = .ok := by rw [← hblank]; rfl
    have hzero : q.toGeometry = .zero := by rw [← hblank]; rfl
    split at hc
    · cases hc
    · rename_i arch harch
      split at hc
      · cases hc
      · rename_i te hte
        obtain ⟨p1, hg, hc⟩ := bind_ok.1 hc
        exact ⟨arch, te, q, p1, harch, hte, hq, hzero, hg, hc⟩

/-- A file that the probe accepts has passed every check. -/
theorem modelProbe_probed (h : (modelProbe g).ok = true) :
    ∃ arch te, Probed g (modelProbe g) arch te := by
  obtain ⟨arch, te, q, p1, harch, hte, hq, hzero, hg, hc⟩ := modelProbe_passes h
  refine ⟨arch, te, ?_⟩
  generalize modelProbe g = p at hc ⊢
  obtain ⟨hs1, hgeometry, hscalar, hheads, hsizes⟩ := probeGeometry_ok hq hzero hg
  obtain ⟨p2, h2, hc⟩ := bind_ok.1 hc
  obtain ⟨p3, h3, hc⟩ := bind_ok.1 hc
  obtain ⟨p4, h4, hc⟩ := bind_ok.1 hc
  obtain ⟨p5, h5, hc⟩ := bind_ok.1 hc
  obtain ⟨s2, g2⟩ := (checkLayout_keeps hs1).same p2 h2
  obtain ⟨s3, g3⟩ := (checkArch_keeps s2 arch).same p3 h3
  obtain ⟨s4, g4⟩ := (checkHead_keeps s3 te).same p4 h4
  obtain ⟨g5, -, hlayers⟩ := foldlM_layers s4 h5
  obtain ⟨hnorm, hrank, hwidth⟩ := checkHead_ok s3 h4
  cases hc
  have hsame : (listOps p5).toGeometry = p1.toGeometry := by
    change p5.toGeometry = _
    rw [g5, g4, g3, g2]
  have hlast : (listOps p5).toGeometry = p4.toGeometry := g5
  have hhead : (listOps p5).toGeometry = p3.toGeometry := hlast.trans g4
  constructor
  case declared => exact harch
  case known => exact checkArch_known h3
  case embedding => exact hte
  case scalar => exact hscalar
  case geometry => exact hsame.trans hgeometry
  case heads => rwa [hsame]
  case sizes => rwa [hsame]
  case shared => rw [hsame]; exact checkLayout_shared h2
  case norm => rwa [hhead]
  case head => rw [hhead]; exact ⟨hrank, hwidth⟩
  case layers =>
    intro l hl
    rw [hlast] at hl ⊢
    obtain ⟨q1, q2, hq1, hs, hlayer⟩ := hlayers l (List.mem_range.2 hl)
    have hchecked := checkLayer_checked hs hlayer
    rw [hq1, qdim_congr hq1, kdim_congr hq1] at hchecked
    rwa [qdim_congr hlast, kdim_congr hlast]

/-- The output head that the probe accepts has a type with a dequantizer. -/
theorem modelProbe_headScalar (h : (modelProbe g).ok = true) : ∃ te,
    find g (txt "token_embd.weight") = some te ∧
      supportedScalar ((find g (txt "output.weight")).getD te).ggmlType = true := by
  obtain ⟨arch, te, q, p1, -, hte, -, -, -, hc⟩ := modelProbe_passes h
  obtain ⟨p2, -, hc⟩ := bind_ok.1 hc
  obtain ⟨p3, -, hc⟩ := bind_ok.1 hc
  obtain ⟨p4, h4, -⟩ := bind_ok.1 hc
  obtain ⟨p5, -, h4⟩ := bind_ok.1 h4
  refine ⟨te, hte, ?_⟩
  unfold refuse at h4
  dsimp only at h4
  split at h4
  · cases h4
  · rename_i hscalar
    simpa using hscalar

end Probed

end VgEngine.Model

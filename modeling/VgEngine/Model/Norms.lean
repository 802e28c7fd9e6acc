import VgEngine.Model.Loaded
import VgEngine.Model.Shapes
import Mathlib.Algebra.Order.Field.Rat

/-! The norm weights that a decode reads as raw floats, and what the probe makes sure of. The
probe looks for the norms of the layers and of the output, but compares neither their type nor
their shape; it does not look at the norms of the heads. -/
namespace VgEngine.Model
open Bytes Gguf

section Model

variable {K : Type*} (g : VgGguf) (cfg : ModelConfig K)

/-- The norms that every layer and the output read, with the numbers of floats read. -/
def blockNorms : List (List UInt8 × Nat) :=
  (List.range cfg.nLayer).flatMap (fun layer =>
    [(blk layer "attn_norm.weight", cfg.nEmbd), (blk layer "ffn_norm.weight", cfg.nEmbd)]) ++
    [(txt "output_norm.weight", cfg.nEmbd)]

/-- The norms that a layer reads for its heads where the file has them. -/
def headNorms : List (List UInt8 × Nat) :=
  (List.range cfg.nLayer).flatMap fun layer =>
    [(blk layer "attn_q_norm.weight", headWidth g cfg layer),
     (blk layer "attn_k_norm.weight", keyWidth g cfg layer)]

/-- A read of `count` raw floats from a tensor of floats that has them. -/
def ReadsInside (t : GgufTensor) (count : Nat) : Prop := t.ggmlType = 0 ∧ 4 * count ≤ t.nbytes

/-- Every norm weight that a decode reads as raw floats is a tensor of floats that holds the
whole read. -/
structure NormsInside : Prop where
  block : ∀ read ∈ blockNorms cfg, ∃ t, find g read.1 = some t ∧ ReadsInside t read.2
  head : ∀ read ∈ headNorms g cfg, ∀ t, find g read.1 = some t → ReadsInside t read.2

/-- The norm weights of the file are declared as F32, with an element for each float read. -/
def NormsDeclared : Prop :=
  ∀ read ∈ blockNorms cfg ++ headNorms g cfg, ∀ t, find g read.1 = some t →
    t.ggmlType = 0 ∧ read.2 ≤ t.dims.prod

end Model

section Probe

variable {K : Type*} [Field K] [LinearOrder K] {strtof : List UInt8 → Option K}
variable {env : Libc} {file : GgufFile} {g : VgGguf} {cfg : ModelConfig K}

theorem readsInside_iff {name : List UInt8} {t : GgufTensor} {count : Nat}
    (hparse : parseIndex env file = .ok g) (hfind : find g name = some t) :
    ReadsInside t count ↔ t.ggmlType = 0 ∧ count ≤ t.dims.prod := by
  unfold ReadsInside
  apply and_congr_right
  intro htype
  rw [nbytes_of_f32 hparse hfind htype]
  omega

theorem Passes.found {name : List UInt8} {dim0 dim1 : Nat} {dims : Bool}
    (h : Passes g name dim0 dim1 dims) : ∃ t, find g name = some t := by
  obtain ⟨t, _, hfind, -⟩ := h
  exact ⟨t, hfind⟩

/-- The probe finds the norms of every layer that the loader counts. -/
theorem blockNorms_found (hprobe : (modelProbe g).ok = true)
    (hload : loadConfig g strtof = some cfg) :
    ∀ read ∈ blockNorms cfg, ∃ t, find g read.1 = some t := by
  obtain ⟨arch, te, hprobed⟩ := modelProbe_probed hprobe
  intro read hread
  rcases List.mem_append.1 hread with hread | hread
  · obtain ⟨layer, hlayer, hread⟩ := List.mem_flatMap.1 hread
    rw [List.mem_range, hprobed.nLayer hload] at hlayer
    have hchecked := (hprobed.layers layer hlayer).attention
    rcases List.mem_pair.1 hread with rfl | rfl
    · exact hchecked.norm.found
    · exact hchecked.ffnNorm.found
  · rw [List.mem_singleton.1 hread]
    exact hprobed.norm.found

/-- On an accepted file, the raw reads of the norms stay inside float tensors exactly when the
file happens to declare them so. -/
theorem normsInside_iff (hparse : parseIndex env file = .ok g)
    (hprobe : (modelProbe g).ok = true) (hload : loadConfig g strtof = some cfg) :
    NormsInside g cfg ↔ NormsDeclared g cfg := by
  constructor
  · intro hinside read hread t hfind
    apply (readsInside_iff hparse hfind).1
    rcases List.mem_append.1 hread with hread | hread
    · obtain ⟨u, hu, hreads⟩ := hinside.block read hread
      rw [hfind] at hu
      obtain rfl := Option.some.inj hu
      exact hreads
    · exact hinside.head read hread t hfind
  · intro hdeclared
    constructor
    · intro read hread
      obtain ⟨t, hfind⟩ := blockNorms_found hprobe hload read hread
      refine ⟨t, hfind, (readsInside_iff hparse hfind).2 ?_⟩
      exact hdeclared read (List.mem_append_left _ hread) t hfind
    · intro read hread t hfind
      apply (readsInside_iff hparse hfind).2
      exact hdeclared read (List.mem_append_right _ hread) t hfind

end Probe

section Example

/-- A llama file: its counts, and its tensors with their dimensions and types. -/
def llamaLayout (counts : List (String × Nat)) (tensors : List (String × List Nat × Nat)) :
    IndexLayout :=
  ⟨3, (txt "general.architecture", .string (txt "llama")) ::
      counts.map fun c => (txt ("llama." ++ c.1), .int .uint32 c.2),
    tensors.map fun t => ⟨txt t.1, t.2.1, t.2.2, 0⟩⟩

/-- One layer of width one, the type of whose output norm is left open. -/
def unitLayout (norm : Nat) : IndexLayout :=
  llamaLayout
    [("block_count", 1), ("attention.head_count", 1), ("feed_forward_length", 1)]
    [("token_embd.weight", [1, 1], 0), ("output_norm.weight", [1], norm),
     ("blk.0.attn_norm.weight", [1], 0), ("blk.0.attn_q.weight", [1, 1], 0),
     ("blk.0.attn_k.weight", [1, 1], 0), ("blk.0.attn_v.weight", [1, 1], 0),
     ("blk.0.attn_output.weight", [1, 1], 0), ("blk.0.ffn_norm.weight", [1], 0),
     ("blk.0.ffn_up.weight", [1, 1], 0), ("blk.0.ffn_down.weight", [1, 1], 0)]

def floatNormFile : GgufFile :=
  ⟨(unitLayout 0).encode ++ List.replicate 64 0, by decide +kernel, by decide +kernel⟩

/-- The output norm is one half-precision number: two bytes, of which four are read. -/
def halfNormFile : GgufFile :=
  ⟨(unitLayout 1).encode ++ List.replicate 64 0, by decide +kernel, by decide +kernel⟩

theorem loadConfig_isSome (strtof : List UInt8 → Option ℚ) {g : VgGguf}
    (hprobe : (modelProbe g).ok = true) : ∃ cfg, loadConfig g strtof = some cfg := by
  obtain ⟨arch, te, hprobed⟩ := modelProbe_probed hprobe
  refine ⟨configOf g strtof arch, ?_⟩
  unfold loadConfig
  rw [hprobed.declared]
  rfl

theorem normsInside_float : ∃ (g : VgGguf) (cfg : ModelConfig ℚ),
    parseIndex plainLibc floatNormFile = .ok g ∧ (modelProbe g).ok = true ∧
      loadConfig g (fun _ => none) = some cfg ∧ (NormsInside g cfg ↔ NormsDeclared g cfg) := by
  have haccept : (parseIndex plainLibc floatNormFile).toOption.any
      (fun g => (modelProbe g).ok) = true := by decide +kernel
  cases hparse : parseIndex plainLibc floatNormFile with
  | error e =>
    rw [hparse] at haccept
    cases haccept
  | ok g =>
    rw [hparse] at haccept
    have hprobe : (modelProbe g).ok = true := haccept
    obtain ⟨cfg, hload⟩ := loadConfig_isSome (fun _ => none) hprobe
    exact ⟨g, cfg, rfl, hprobe, hload, normsInside_iff hparse hprobe hload⟩

/-- The probe accepts a model whose output norm is read past its end. -/
theorem halfNorm_accepted :
    ¬ ∀ (env : Libc) (file : GgufFile) (g : VgGguf) (cfg : ModelConfig ℚ),
      parseIndex env file = .ok g → (modelProbe g).ok = true →
      loadConfig g (fun _ => none) = some cfg → NormsInside g cfg := by
  intro hclaim
  have haccept : (parseIndex plainLibc halfNormFile).toOption.any (fun g =>
      (modelProbe g).ok && (find g (txt "output_norm.weight")).any fun t => t.ggmlType == 1) =
      true := by
    decide +kernel
  cases hparse : parseIndex plainLibc halfNormFile with
  | error e =>
    rw [hparse] at haccept
    cases haccept
  | ok g =>
    rw [hparse] at haccept
    obtain ⟨hprobe, htype⟩ := Bool.and_eq_true_iff.1 haccept
    obtain ⟨cfg, hload⟩ := loadConfig_isSome (fun _ => none) hprobe
    have hinside := hclaim plainLibc halfNormFile g cfg hparse hprobe hload
    obtain ⟨t, hfind, hreads, -⟩ := hinside.block (txt "output_norm.weight", cfg.nEmbd)
      (List.mem_append_right _ (List.mem_singleton_self _))
    rw [hfind] at htype
    have hhalf : t.ggmlType = 1 := by simpa using htype
    omega

end Example

end VgEngine.Model

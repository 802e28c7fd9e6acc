import VgEngine.Model.Config
import VgEngine.Model.Probed

/-! The numbers that the loader takes from a file next to those that the probe takes. They
read the same keys, but the loader keeps the sign bit of a negative number. -/
namespace VgEngine.Model
open Bytes Gguf

section Text

theorem digitsValue_of_head {ds : List UInt8} (h : ds.head?.any isDigit = false) :
    digitsValue ds = 0 := by
  cases ds with
  | nil => rfl
  | cons d ds =>
    have hd : isDigit d = false := h
    simp [digitsValue, hd]

/-- A text that does not start with a number counts as zero. -/
theorem strtol_of_not_converts {s : List UInt8} (h : strtolConverts s = false) :
    strtol s = 0 := by
  unfold strtolConverts at h
  unfold strtol
  generalize s.dropWhile isSpace = d at h ⊢
  split
  · rw [digitsValue_of_head h]
    rfl
  · rw [digitsValue_of_head h]
    rfl
  · rename_i hminus hplus
    split at h
    · cases hminus _ rfl
    · cases hplus _ rfl
    · rw [digitsValue_of_head h]
      rfl

theorem snprintf_eq {size : Nat} {parts : List (List UInt8)} (h : parts.flatten.length < size) :
    snprintf size parts = parts.flatten :=
  List.take_of_length_le (by omega)

theorem archSupported_length {arch : List UInt8} (h : archSupported arch = true) :
    arch.length ≤ 12 := by
  obtain ⟨a, ha, heq⟩ := List.any_eq_true.1 h
  have hall : ∀ a ∈ archs, (txt a).length ≤ 12 := by decide +kernel
  rw [← beq_iff_eq.1 heq]
  exact hall a ha

theorem toInt32_range (x : Int) : -2 ^ 31 ≤ toInt32 x ∧ toInt32 x < 2 ^ 31 := by
  have hlow := Int.emod_nonneg x (show (2 : Int) ^ 32 ≠ 0 by decide)
  have hhigh := Int.emod_lt_of_pos x (show (0 : Int) < 2 ^ 32 by decide)
  unfold toInt32 toSigned
  split <;> omega

end Text

section Numbers

variable {g : VgGguf} {arch : List UInt8} {key : String}

theorem readMetadataInt_eq (key : List UInt8) :
    readMetadataInt g key 0 = (metaInt g key).getD 0 := by
  unfold readMetadataInt metaInt
  cases ggufMeta g key with
  | none => rfl
  | some v =>
    change toInt32 (strtol (skipList v)) = Option.getD (if _ then some _ else none) 0
    by_cases hconverts : strtolConverts (skipList v) = true
    · rw [if_pos hconverts]
      rfl
    · rw [if_neg hconverts, strtol_of_not_converts (by simpa using hconverts)]
      rfl

theorem metaInt_range (key : List UInt8) :
    -2 ^ 31 ≤ (metaInt g key).getD 0 ∧ (metaInt g key).getD 0 < 2 ^ 31 := by
  rw [← readMetadataInt_eq]
  unfold readMetadataInt
  split
  · decide
  · exact toInt32_range _

/-- The keys of both readers are the same for an architecture that the probe knows. -/
theorem archKey_eq (harch : archSupported arch = true) (hkey : (txt key).length ≤ 100) :
    archKey arch key = snprintf 160 [arch, txt key] := by
  have hlen := archSupported_length harch
  have hflat : [arch, txt key].flatten.length = arch.length + (txt key).length := by simp
  unfold archKey
  rw [snprintf_eq (by omega), snprintf_eq (by omega)]

theorem readInt_eq (harch : archSupported arch = true) (hkey : (txt key).length ≤ 100) :
    readInt g arch key = toUInt32 ((metaInt g (snprintf 160 [arch, txt key])).getD 0) := by
  unfold readInt
  rw [readMetadataInt_eq, archKey_eq harch hkey]

/-- A count that the probe finds is the one that the loader reads. -/
theorem readInt_of_metaCount (harch : archSupported arch = true)
    (hkey : (txt key).length ≤ 100) (h : metaCount g arch key ≠ 0) :
    readInt g arch key = metaCount g arch key := by
  obtain ⟨hlow, hhigh⟩ := metaInt_range (g := g) (snprintf 160 [arch, txt key])
  rw [readInt_eq harch hkey]
  unfold metaCount at h ⊢
  unfold toUInt32
  omega

end Numbers

section Probed

variable {K : Type*} [Field K] [LinearOrder K] {strtof : List UInt8 → Option K}
variable {g : VgGguf} {p : ModelProbe} {arch : List UInt8} {te : GgufTensor} {cfg : ModelConfig K}

theorem Probed.config (h : Probed g p arch te) (hload : loadConfig g strtof = some cfg) :
    cfg = configOf g strtof arch := by
  unfold loadConfig at hload
  rw [h.declared] at hload
  exact (Option.some.inj hload).symm

theorem Probed.nLayer (h : Probed g p arch te) (hload : loadConfig g strtof = some cfg) :
    cfg.nLayer = p.nLayer := by
  have hcount : p.nLayer = metaCount g arch ".block_count" := by rw [h.geometry]; rfl
  rw [h.config hload, hcount]
  exact readInt_of_metaCount h.known (by decide +kernel) (hcount ▸ h.sizes.1)

theorem Probed.nHead (h : Probed g p arch te) (hload : loadConfig g strtof = some cfg) :
    cfg.nHead = p.nHead := by
  have hcount : p.nHead = metaCount g arch ".attention.head_count" := by rw [h.geometry]; rfl
  rw [h.config hload, hcount]
  exact readInt_of_metaCount h.known (by decide +kernel) (hcount ▸ h.heads)

theorem Probed.nHeadKv_pos (h : Probed g p arch te) : 0 < p.nHeadKv := by
  have hkv : p.nHeadKv = if metaCount g arch ".attention.head_count_kv" = 0 then p.nHead
      else metaCount g arch ".attention.head_count_kv" := by rw [h.geometry]; rfl
  have hheads := h.heads
  split at hkv <;> omega

/-- The key heads of the loader are those of the probe, except under a negative count: the
probe then takes one for each query head, the loader more than there are query heads. -/
theorem Probed.kvHeads (h : Probed g p arch te) (hload : loadConfig g strtof = some cfg) :
    cfg.kvHeads = p.nHeadKv ∨ (p.nHeadKv = p.nHead ∧ p.nHead < cfg.kvHeads) := by
  have hprobe : p.nHeadKv = if metaCount g arch ".attention.head_count_kv" = 0 then p.nHead
      else metaCount g arch ".attention.head_count_kv" := by rw [h.geometry]; rfl
  have hcfg : cfg.nHeadKv = if readInt g arch ".attention.head_count_kv" = 0 then cfg.nHead
      else readInt g arch ".attention.head_count_kv" := by rw [h.config hload]; rfl
  have hcount : p.nHead = metaCount g arch ".attention.head_count" := by rw [h.geometry]; rfl
  have hhead := metaInt_range (g := g) (snprintf 160 [arch, txt ".attention.head_count"])
  have hkv := metaInt_range (g := g) (snprintf 160 [arch, txt ".attention.head_count_kv"])
  have hheads := h.heads
  rw [h.nHead hload, readInt_eq h.known (by decide +kernel)] at hcfg
  unfold metaCount at hprobe hcount
  unfold ModelConfig.kvHeads
  unfold toUInt32 at hcfg
  generalize (metaInt g (snprintf 160 [arch, txt ".attention.head_count_kv"])).getD 0 = z at *
  split_ifs at hprobe hcfg ⊢ <;> omega

end Probed

end VgEngine.Model

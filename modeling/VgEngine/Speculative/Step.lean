import Mathlib.Algebra.BigOperators.Group.Finset.Basic
import Mathlib.Algebra.Field.Defs
import Mathlib.Algebra.Order.Ring.Defs

/-! Draft and verify: the speculative step over two model graphs. Arithmetic is exact, and
the graphs are what the step sees of them: the logits after the tokens fed so far. -/
namespace VgEngine.Speculative
open Finset

/-- A model: its logits at a position are a function of the tokens fed up to it. -/
structure Model (K : Type*) where
  nCtx : Nat
  nVocab : Nat
  logits : List Nat → Nat → K

/-- `VG_SpeculativeConfig`. Without a draft of its own, the target graph is its own draft.
A caller that keeps no generator gets `localRng` at every call. -/
structure Config (K σ : Type*) where
  target : Model K
  draft : Option (Model K)
  nDraft : Int
  temperature : K
  localRng : Option σ

/-- The tokens last fed to the two graphs, by position, and the generator. -/
structure State (σ : Type*) where
  target : Nat → Nat
  draft : Nat → Nat
  rng : σ

section Model

variable {K : Type*}

/-- `vg_model_graph_decode`: a position past the context fails. -/
def Model.decode (m : Model K) (fed : Nat → Nat) (token pos : Nat) :
    Option ((Nat → K) × (Nat → Nat)) :=
  if m.nCtx ≤ pos then none
  else
    let fed := Function.update fed pos token
    some (m.logits ((List.range (pos + 1)).map fed), fed)

variable {σ : Type*}

def Config.draftVocab (cfg : Config K σ) : Nat := (cfg.draft.getD cfg.target).nVocab

def Config.decodeTarget (cfg : Config K σ) (s : State σ) (token pos : Nat) :
    Option ((Nat → K) × State σ) :=
  (cfg.target.decode s.target token pos).map fun (logits, fed) => (logits, { s with target := fed })

def Config.decodeDraft (cfg : Config K σ) (s : State σ) (token pos : Nat) :
    Option ((Nat → K) × State σ) :=
  match cfg.draft with
  | none => cfg.decodeTarget s token pos
  | some m => (m.decode s.draft token pos).map fun (logits, fed) => (logits, { s with draft := fed })

end Model

variable {K σ : Type*} [Field K] [LinearOrder K]

/-- The scan for the first largest entry, from position `i` on. -/
def argmaxFrom (p : Nat → K) : Nat → Nat → Nat → Nat
  | 0, _, best => best
  | n + 1, i, best => argmaxFrom p n (i + 1) (if p best < p i then i else best)

def argmax (p : Nat → K) (nVocab : Nat) : Nat := argmaxFrom p (nVocab - 1) 1 0

/-- `dist_from_logits`: one-hot at temperature zero, softmax above. -/
def distFromLogits (exp : K → K) (logits : Nat → K) (nVocab : Nat) (temperature : K) : Nat → K :=
  if temperature ≤ 0 then fun i => if i = argmax logits nVocab then 1 else 0
  else
    let mx := logits (argmax logits nVocab)
    let p := fun i => max 0 (exp ((logits i - mx) / temperature))
    let total := ∑ i ∈ range nVocab, p i
    if 0 < total then fun i => p i * (1 / total) else p

/-- The scan of a cumulative sum for the first entry, of those taken, that reaches `r`. -/
def scan (take : Nat → Bool) (w : Nat → K) (r : K) : Nat → Nat → K → Option Nat
  | 0, _, _ => none
  | n + 1, i, acc =>
    if take i then
      if r ≤ acc + w i then some i else scan take w r n (i + 1) (acc + w i)
    else scan take w r n (i + 1) acc

section Draws

variable (rand : σ → K × σ)

/-- `sample_from` -/
def sampleFrom (p : Nat → K) (nVocab : Nat) (rng : σ) : Nat × σ :=
  let (r, rng) := rand rng
  ((scan (fun _ => true) p r nVocab 0 0).getD (nVocab - 1), rng)

/-- `sample_residual`: a draw from `max(0, target - draft)`, or from the target where that
is empty. -/
def sampleResidual (draft target : Nat → K) (nVocab : Nat) (rng : σ) : Nat × σ :=
  let d := fun i => target i - draft i
  let total := ∑ i ∈ range nVocab, if 0 < d i then d i else 0
  if 0 < total then
    let (u, rng) := rand rng
    ((scan (fun i => decide (0 < d i)) d (u * total) nVocab 0 0).getD 0, rng)
  else
    let total := ∑ i ∈ range nVocab, target i
    if 0 < total then
      let (u, rng) := rand rng
      ((scan (fun _ => true) target (u * total) nVocab 0 0).getD (nVocab - 1), rng)
    else (0, rng)

variable (exp : K → K) (cfg : Config K σ)

/-- The temperature after the clamp at zero. -/
def Config.temp : K := max 0 cfg.temperature

/-- The draft phase: each proposal with the probability the draft gave it. -/
def propose : Nat → Nat → Nat → State σ → List (Nat × K) × State σ
  | 0, _, _, s => ([], s)
  | n + 1, token, pos, s =>
    match cfg.decodeDraft s token pos with
    | none => ([], s)
    | some (logits, s) =>
      let p := distFromLogits exp logits cfg.target.nVocab cfg.temp
      let (x, rng) := if 0 < cfg.temp then sampleFrom rand p cfg.target.nVocab s.rng
        else (argmax logits cfg.target.nVocab, s.rng)
      let (rest, s) := propose n x (pos + 1) { s with rng := rng }
      ((x, p x) :: rest, s)

/-- The verification of the proposals, `left` of which may still be written. -/
def verify : List (Nat × K) → Nat → Nat → Nat → State σ → List Nat × State σ
  | [], _, _, _, s => ([], s)
  | _ :: _, 0, _, _, s => ([], s)
  | (x, q) :: rest, left + 1, feed, pos, s =>
    match cfg.decodeTarget s feed pos with
    | none => ([], s)
    | some (logits, s) =>
      let p := distFromLogits exp logits cfg.target.nVocab cfg.temp
      if cfg.temp ≤ 0 then
        let best := argmax p cfg.target.nVocab
        if x = best then
          let (written, s) := verify rest left best (pos + 1) s
          (best :: written, s)
        else ([best], s)
      else
        let acceptP := if 0 < q then min 1 (p x / q) else 1
        let (u, rng) := rand s.rng
        let s := { s with rng := rng }
        if u ≤ acceptP then
          let (written, s) := verify rest left x (pos + 1) s
          (x :: written, s)
        else
          -- the buffer was reused by later proposals, so the draft decodes again
          let (pDraft, s) := match cfg.decodeDraft s feed pos with
            | some (logits, s) => (distFromLogits exp logits cfg.target.nVocab cfg.temp, s)
            | none => (fun _ => 0, s)
          let (y, rng) := sampleResidual rand pDraft p cfg.target.nVocab s.rng
          ([y], { s with rng := rng })

/-- Proposals per step: four by default, at most 64 and at most what may be written. -/
def Config.proposals (maxAccepted : Nat) : Nat :=
  min (min (if cfg.nDraft ≤ 0 then 4 else cfg.nDraft.toNat) 64) maxAccepted

/-- `vg_speculative_step`: the tokens written. `allocated` tells whether its buffers could
be allocated. -/
def speculativeStep (allocated : Bool) (inputToken kvPos maxAccepted : Nat) (s : State σ) :
    List Nat × State σ :=
  if maxAccepted = 0 ∨ cfg.draftVocab ≠ cfg.target.nVocab ∨ allocated = false then ([], s)
  else
    let rng := s.rng
    let start := { s with rng := cfg.localRng.getD rng }
    let (proposals, s) := propose rand exp cfg (cfg.proposals maxAccepted) inputToken kvPos start
    let (written, s) := verify rand exp cfg proposals maxAccepted inputToken kvPos s
    (written, { s with rng := if cfg.localRng.isSome then rng else s.rng })

/-- Steps chained as the driver does: each continues after the last token written, and one
that writes nothing ends the chain. -/
def chain (maxAccepted : Nat) : List Bool → Nat → Nat → State σ → List Nat × State σ
  | [], _, _, s => ([], s)
  | allocated :: calls, token, pos, s =>
    let (written, s) := speculativeStep rand exp cfg allocated token pos maxAccepted s
    match written.getLast? with
    | none => ([], s)
    | some last =>
      let (more, s) := chain maxAccepted calls last (pos + written.length) s
      (written ++ more, s)

end Draws

/-- The target model decoded alone: at each position the first token of largest logit. -/
def greedyDecode (m : Model K) : Nat → Nat → Nat → (Nat → Nat) → List Nat
  | 0, _, _, _ => []
  | n + 1, token, pos, fed =>
    match m.decode fed token pos with
    | none => []
    | some (logits, fed) =>
      argmax logits m.nVocab :: greedyDecode m n (argmax logits m.nVocab) (pos + 1) fed

end VgEngine.Speculative

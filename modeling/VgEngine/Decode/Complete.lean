import VgEngine.Decode.Reported
import VgEngine.Model.Norms

/-! When a decode that succeeds has computed everything. A failed acquire of a norm, of an
attention projection or of a dense feed-forward weight, a failed buffer and a product that was
not made are passed over, and the layer goes on without the operand. -/
namespace VgEngine.Decode
open Lib Bytes Gguf Model

section Complete

variable {K : Type*} [Field K] [LinearOrder K] {V S : Type}

theorem fails_of_failed {o : Outcomes} {e : Event} (h : e.failed = true) : e.fails o = true := by
  cases e with
  | call c failed =>
    change failed = true at h
    rw [Event.fails, h, Bool.true_or]
  | skipped place layer => exact h
  | refused st => exact h
  | matmul c m st => exact h
  | ffn layer kind => exact h

end Complete

section Example

/-- Only the acquire of the first query projection fails. -/
def queryLost : Outcomes := fun c => if c = ⟨.attnQ, .acquire, 0, 0⟩ then .io else .ok

end Example

end VgEngine.Decode

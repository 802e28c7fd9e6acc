import VgEngine.Decode.Decode

/-! The parts of a layer that only acquire weights and allocate buffers, and pass their failures
over: a property of such calls holds of all that they log. -/
namespace VgEngine.Decode
open Lib Bytes Gguf Model

/-- The places whose failure ends the decode with an error. -/
def Place.reported : Place → Bool
  | .embedding | .router | .routeOrder | .expertGate | .expertUp | .expertDown => true
  | _ => false

/-- The property holds of every call that is passed over and logged as it turned out. -/
def Passive (o : Outcomes) (P : Event → Prop) : Prop :=
  ∀ c failed, c.place.reported = false → (o c ≠ .ok → failed = true) → P (.call c failed)

section Passive

variable {K : Type*} {V S : Type} {g : Graph K} {o : Outcomes} {ops : Ops V S}
variable {place : Place} {layer index pos : Nat} {P : Event → Prop} (hP : Passive o P)
include hP

theorem acquireWeight_logs (h : place.reported = false) (name : List UInt8) :
    Logged.Logs P (acquireWeight g o place layer index name : Exec V S _) := by
  unfold acquireWeight
  cases find g.file name with
  | none => exact (Logged.Logs.log (hP _ _ h fun _ => rfl)).bind fun _ => .pure _
  | some t =>
    exact (Logged.Logs.log (hP _ _ h fun hbad => decide_eq_true hbad)).bind fun _ => .pure _

theorem acquireOptional_logs (h : place.reported = false) (name : List UInt8) :
    Logged.Logs P (acquireOptional g o place layer index name : Exec V S _) := by
  unfold acquireOptional
  cases find g.file name with
  | none => exact .pure _
  | some t =>
    exact (Logged.Logs.log (hP _ _ h fun hbad => decide_eq_true hbad)).bind fun _ => .pure _

theorem allocate_logs (h : place.reported = false) :
    Logged.Logs P (allocate o place layer index : Exec V S _) :=
  (Logged.Logs.log (hP _ _ h fun hbad => decide_eq_true hbad)).bind fun _ => .pure _

theorem normalise_logs (h : place.reported = false) (name : List UInt8) (x : V) :
    Logged.Logs P (normalise g o ops layer place name x : Exec V S _) := by
  unfold normalise
  refine (acquireWeight_logs hP h name).bind fun r => ?_
  cases r <;> exact .pure _

theorem shapedNorm_logs (h : place.reported = false) (name : List UInt8) (width : Nat) (x : V) :
    Logged.Logs P (shapedNorm g o ops layer place name width x : Exec V S _) := by
  unfold shapedNorm
  refine (acquireOptional_logs hP h name).bind fun r => ?_
  cases r <;> exact .pure _

theorem postNorm_logs (h : place.reported = false) (name : List UInt8) (x : V) :
    Logged.Logs P (postNorm g o ops layer place name x : Exec V S _) := by
  unfold postNorm
  exact .ite (shapedNorm_logs hP h _ _ _) (.pure _)

theorem addBias_logs (h : place.reported = false) (name : List UInt8) (width : Nat) (x : V) :
    Logged.Logs P (addBias g o ops layer place name width x : Exec V S _) := by
  unfold addBias
  refine .ite ((acquireOptional_logs hP h name).bind fun r => ?_) (.pure _)
  cases r <;> exact .pure _

theorem rotateHead_logs (h : place.reported = false) (name : List UInt8) (width : Nat) (x : V)
    (i : Nat) : Logged.Logs P (rotateHead g o ops layer pos place name width x i : Exec V S _) := by
  unfold rotateHead
  refine (acquireOptional_logs hP h name).bind fun r => ?_
  cases r <;> exact .pure _

theorem growQkv_logs (index kvd : Nat) :
    Logged.Logs P (growQkv g o layer index kvd : Exec V S _) := by
  unfold growQkv grow
  refine Logged.Logs.get.bind fun w => ?_
  refine Logged.Logs.bind (.ite ?_ (.pure _)) fun _ => .modify _
  exact (allocate_logs hP rfl).bind fun _ => .pure _

theorem storeRow_logs (k v : Option V) (kvd : Nat) :
    Logged.Logs P (storeRow g o ops layer pos k v kvd) := by
  have hpage : Logged.Logs P (addPage o ops layer pos kvd) := by
    unfold addPage
    refine Logged.Logs.get.bind fun w => .ite ?_ (.pure _)
    refine (allocate_logs hP rfl).bind fun keys => ?_
    exact (allocate_logs hP rfl).bind fun values => .modify _
  unfold storeRow
  refine (Logged.Logs.onlyIf (.modify _)).bind fun _ => .ite ?_ (.pure _)
  exact hpage.bind fun _ => .modify _

theorem attendStage_logs (kvd : Nat) : Logged.Logs P (attendStage g o ops layer pos kvd) := by
  have hnorm (width : Nat) : Logged.Logs P (attentionSubNorm g o ops layer width) := by
    unfold attentionSubNorm
    refine Logged.Logs.get.bind fun w => ?_
    exact (shapedNorm_logs hP rfl _ _ _).bind fun _ => .modify _
  unfold attendStage grow
  refine Logged.Logs.get.bind fun w => ?_
  refine Logged.Logs.bind (.ite ((allocate_logs hP rfl).bind fun _ => .pure _) (.pure _))
    fun cap => ?_
  refine (Logged.Logs.modify _).bind fun _ => ?_
  refine Logged.Logs.bind (.forM (fun h => ?_) _) fun _ => ?_
  · exact .log (hP _ _ rfl fun hbad => decide_eq_true hbad)
  · exact (Logged.Logs.modify _).bind fun _ => .onlyIf (hnorm _)

end Passive

end VgEngine.Decode

import Patchbay.Json.Decode
import Patchbay.Decimal.Layout

namespace Patchbay

inductive Curve where
  | set
  | linear
  | exponential
  deriving DecidableEq, Repr

namespace Curve

def name : Curve → String
  | .set => "set"
  | .linear => "linear"
  | .exponential => "exponential"

def ofName? : String → Option Curve
  | "set" => some .set
  | "linear" | "lin" => some .linear
  | "exponential" | "exp" => some .exponential
  | _ => none

-- A name that is not known ramps linearly, with a warning.
def ofName (name : String) : Curve × List Warning :=
  match ofName? name with
  | some curve => (curve, [])
  | none => (.linear, [.unknownStage name])

def read [Json.Source δ] (d : δ) : Json.Decode Curve := do
  let (curve, warnings) := ofName (← Json.Source.text d)
  modify (· ++ warnings)
  return curve

end Curve

structure Stage where
  curve : Curve
  value : Float
  -- Seconds after the end of the stage before.
  duration : Float
  deriving BEq

inductive StageFault where
  | value (x : Float)
  | duration (x : Float)

def StageFault.message : StageFault → String
  | .value x => "value " ++ Decimal.plain x ++ " is not finite"
  | .duration x => "duration " ++ Decimal.plain x ++ " must be a non-negative number"

namespace Stage

def set (value : Float) : Stage := ⟨.set, value, 0⟩

def linear (value duration : Float) : Stage := ⟨.linear, value, duration⟩

def exponential (value duration : Float) : Stage := ⟨.exponential, value, duration⟩

def fault (stage : Stage) : Option StageFault :=
  if !stage.value.isFinite then some (.value stage.value)
  else if !stage.duration.isFinite || stage.duration < 0 then some (.duration stage.duration)
  else none

-- An exponential ramp cannot reach zero; it ends here.
def floor : Float := 0.00001

def target (stage : Stage) : Float :=
  if stage.curve = .exponential && stage.value == 0 then floor else stage.value

def read [Json.Source δ] (d : δ) : Json.Decode Stage := do
  let (curve, value, duration) ← Json.Source.triple Curve.read Json.Source.float Json.Source.float d
  return ⟨curve, value, duration⟩

def toJson (stage : Stage) : Json :=
  .array [.string stage.curve.name, .real stage.value, .real stage.duration]

end Stage

-- The stage at `index` is at fault.
structure ContourFault where
  index : Nat
  fault : StageFault

def ContourFault.message (fault : ContourFault) : String :=
  "invalid contour stage " ++ toString fault.index ++ ": " ++ fault.fault.message

structure Contour where
  stages : List Stage
  sound : stages.all (fun stage => stage.fault.isNone) = true

namespace Contour

def empty : Contour := ⟨[], rfl⟩

instance : BEq Contour := ⟨fun a b => a.stages == b.stages⟩

def isEmpty (contour : Contour) : Bool := contour.stages.isEmpty

def firstFault (index : Nat) : List Stage → Option ContourFault
  | [] => none
  | stage :: rest =>
    match stage.fault with
    | some fault => some ⟨index, fault⟩
    | none => firstFault (index + 1) rest

theorem sound_of_firstFault {index : Nat} {stages : List Stage}
    (h : firstFault index stages = none) :
    stages.all (fun stage => stage.fault.isNone) = true := by
  induction stages generalizing index with
  | nil => rfl
  | cons stage rest ih =>
      unfold firstFault at h
      split at h
      · contradiction
      · next hs => simp [hs, ih h]

def ofStages (stages : List Stage) : Except ContourFault Contour :=
  match h : firstFault 0 stages with
  | some fault => .error fault
  | none => .ok ⟨stages, sound_of_firstFault h⟩

-- The durations added from the first to the last.
def duration (contour : Contour) : Float :=
  contour.stages.foldl (fun total stage => total + stage.duration) 0

def read [Json.Source δ] (d : δ) : Json.Decode Contour := do
  let stages ← Json.Source.list Stage.read d
  match ofStages stages with
  | .ok contour => return contour
  | .error fault => Json.Decode.fail (.refused fault.message)

def toJson (contour : Contour) : Json := .array (contour.stages.map Stage.toJson)

end Contour

end Patchbay

import Patchbay.Keyed
import Patchbay.Node.Effect
import Patchbay.Node.Shape
import Patchbay.Patch.Literal

namespace Patchbay

namespace Builder

def new (context : ContextId) : Act BuilderId :=
  modifyGet fun studio =>
    (studio.builders.size, { studio with builders := studio.builders.push ⟨context, []⟩ })

def state (builder : BuilderId) : Act Builder :=
  return ((← get).builders[builder]?).getD ⟨0, []⟩

def memoize (builder : BuilderId) (id : String) (node : Node) : Act Unit :=
  modify fun studio => { studio with
    builders := studio.builders.modify builder fun b => { b with memo := Keyed.insert id node b.memo } }

mutual
def build (builder : BuilderId) (patch : Patch) : Act Node := do
  let context := (← state builder).context
  match patch with
  | .connect route patches =>
    match ← buildAll builder patches, route with
    | [], _ => Node.bypass context
    | first :: rest, .serial => Node.inSeries first rest
    | first :: rest, .parallel => Node.inParallel first rest
  | .gain level => Node.gain context (← drive builder level)
  | .oscillator waveform frequency detune =>
    let frequency ← drive builder frequency
    Node.oscillator context waveform frequency (← driveIfGiven builder detune)
  | .biquadFilter type frequency q detune =>
    let frequency ← drive builder frequency
    let q ← driveIfGiven builder q
    Node.filter context type frequency q (← driveIfGiven builder detune)
  | .envelope attack release => Node.shaper context attack release
  | .delay time feedback =>
    let time ← drive builder time
    match feedback with
    | some amount => Node.echo context time none amount
    | none => Node.delay context time
  | .constant value => Node.constant context value
  | .noise duration looping => Node.noise context (some duration) looping
  | .convolver duration decay reverse => Node.room context duration decay reverse
  | .memoize id patch =>
    if id.isEmpty then throw .missingMemoId
    match Keyed.get? (← state builder).memo id with
    | some node => return node
    | none =>
      let node ← build builder patch
      memoize builder id node
      return node
  | .destination => Node.destination context

def buildAll (builder : BuilderId) : List Patch → Act (List Node)
  | [] => return []
  | patch :: rest => do
    let node ← build builder patch
    return node :: (← buildAll builder rest)

def drive (builder : BuilderId) : Control → Act Drive
  | .value x => return .fixed x
  | .node patch => return .source (← build builder patch)

def driveIfGiven (builder : BuilderId) : Option Control → Act (Option Drive)
  | none => return none
  | some control => return some (← drive builder control)
end

end Builder

-- With a builder of its own.
def Patch.build (context : ContextId) (source : String) : Act Node := do
  let patch ← Act.reading (Patch.parse source)
  Builder.build (← Builder.new context) patch

end Patchbay

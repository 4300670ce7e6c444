import Patchbay.Json.InPlace
import Patchbay.Json.Render
import Patchbay.Patch.Literal

namespace Patchbay.Patch

open Json (Source Field Decode Kept Doc)

inductive Kind where
  | connect
  | gain
  | oscillator
  | biquadFilter
  | envelope
  | delay
  | constant
  | noise
  | convolver
  | memoize
  | destination
  deriving DecidableEq

def Kind.names : List (String × Kind) := [
  ("connect", .connect), ("gain", .gain), ("oscillator", .oscillator),
  ("biquadFilter", .biquadFilter), ("envelope", .envelope), ("delay", .delay),
  ("constant", .constant), ("noise", .noise), ("convolver", .convolver), ("memoize", .memoize),
  ("destination", .destination)]

def expected : String := "internally tagged enum GraphNode"

def kindExpected : String := "variant identifier"

def Kind.ofText (doc : Doc) : Decode Kind :=
  match doc with
  | .string lexeme => do
    let name ← Json.liftExcept lexeme.value
    Decode.placed lexeme.stop (Json.chooseName Kind.names name)
  | doc => throw (doc.mismatch kindExpected)

-- In a value that was set aside the kind may be given by its number.
def Kind.ofJson : Json → Decode Kind
  | .string name => Json.chooseName Kind.names name
  | .number (.whole n) =>
    match Kind.names[n]? with
    | some (_, kind) => pure kind
    | none =>
      Decode.fail (.badValue (.number (.whole n))
        ("variant index 0 <= i < " ++ toString Kind.names.length))
  | json => Json.mismatch json kindExpected

-- All that a part of the value may be read as.
structure Reading where
  json : Json
  patch : Decode Patch
  patches : Decode (List Patch)
  control : Decode Control

namespace Reading

def kept (r : Reading) : Kept := ⟨r.json⟩

def optionalControl (r : Reading) : Decode (Option Control) :=
  match r.json with
  | .null => pure none
  | _ => some <$> r.control

end Reading

-- The fields of a node without its kind.
inductive Content where
  | fields (entries : List (String × Reading))
  | items (readings : List Reading)

def Content.record (expected : String) (table : List (Field Reading α)) (base : α) :
    Content → Decode α
  | .fields entries => Json.readEntries table [] base entries
  | .items readings => Json.readPositions Kept.excess expected table 0 base readings

def floatField (name : String) (set : Float → α → α) : Field Reading α :=
  .optional name (fun r => Source.float r.kept) set

def boolField (name : String) (set : Bool → α → α) : Field Reading α :=
  .optional name (fun r => Source.bool r.kept) set

def controlField (name : String) (set : Control → α → α) : Field Reading α :=
  .optional name Reading.control set

def optionalControlField (name : String) (set : Option Control → α → α) : Field Reading α :=
  .optional name Reading.optionalControl set

def concert : Control := .value 440

-- The parts of an oscillator and of a filter while they are read.
structure Tone where
  waveform : Waveform
  type : FilterType
  frequency : Control
  q : Option Control
  detune : Option Control

def connectFields : List (Field Reading (Route × List Patch)) := [
  .optional "route" (fun r => Route.read r.kept) fun x c => (x, c.2),
  .optional "nodes" Reading.patches fun x c => (c.1, x)]

def oscillatorFields : List (Field Reading Tone) := [
  .optional "waveform" (fun r => Waveform.read r.kept) fun x c => { c with waveform := x },
  controlField "frequency" fun x c => { c with frequency := x },
  optionalControlField "detune" fun x c => { c with detune := x }]

def filterFields : List (Field Reading Tone) := [
  .optional "filterType" (fun r => FilterType.read r.kept) fun x c => { c with type := x },
  controlField "frequency" fun x c => { c with frequency := x },
  (optionalControlField "Q" fun x c => { c with q := x } : Field Reading Tone).also "q",
  optionalControlField "detune" fun x c => { c with detune := x }]

def envelopeFields : List (Field Reading (Contour × Option Contour)) := [
  .optional "attack" (fun r => Contour.read r.kept) fun x c => (x, c.2),
  .optional "release" (fun r => Source.option Contour.read r.kept) fun x c => (c.1, x)]

def delayFields : List (Field Reading (Control × Option Float)) := [
  .needed "delayTime" Reading.control fun x c => (x, c.2),
  .optional "feedback" (fun r => Source.option Source.float r.kept) fun x c => (c.1, x)]

def constantFields : List (Field Reading Float) :=
  [.needed "value" (fun r => Source.float r.kept) fun x _ => x]

def noiseFields : List (Field Reading (Float × Bool)) := [
  floatField "duration" fun x c => (x, c.2),
  boolField "looping" fun x c => (c.1, x)]

def convolverFields : List (Field Reading (Float × Option Float × Bool)) := [
  floatField "duration" fun x c => (x, c.2),
  .optional "decay" (fun r => Source.option Source.float r.kept) fun x c => (c.1, x, c.2.2),
  boolField "reverse" fun x c => (c.1, c.2.1, x)]

def memoizeFields : List (Field Reading (String × Patch)) := [
  .needed "id" (fun r => Source.text r.kept) fun x c => (x, c.2),
  .needed "node" Reading.patch fun x c => (c.1, x)]

def variantExpected (name : String) (fields : Nat) : String :=
  "struct variant GraphNode::" ++ name ++ " with " ++
    (if fields = 1 then "1 element" else toString fields ++ " elements")

def Content.patch (content : Content) : Kind → Decode Patch
  | .connect => do
    let (route, nodes) ←
      content.record (variantExpected "Connect" 2) connectFields (.serial, [])
    return .connect route nodes
  | .gain => do
    let level ← content.record (variantExpected "Gain" 1)
      [controlField "gain" fun x _ => x] (.value 1)
    return .gain level
  | .oscillator => do
    let c ← content.record (variantExpected "Oscillator" 3) oscillatorFields
      ⟨.sine, .lowpass, concert, none, none⟩
    return .oscillator c.waveform c.frequency c.detune
  | .biquadFilter => do
    let c ← content.record (variantExpected "BiquadFilter" 4) filterFields
      ⟨.sine, .lowpass, .value 350, none, none⟩
    return .biquadFilter c.type c.frequency c.q c.detune
  | .envelope => do
    let (attack, release) ←
      content.record (variantExpected "Envelope" 2) envelopeFields (.empty, none)
    return .envelope attack release
  | .delay => do
    let (time, feedback) ←
      content.record (variantExpected "Delay" 2) delayFields (.value 0, none)
    return .delay time feedback
  | .constant => do
    let value ← content.record (variantExpected "Constant" 1) constantFields 0
    return .constant value
  | .noise => do
    let (duration, looping) ←
      content.record (variantExpected "Noise" 2) noiseFields (1, false)
    return .noise duration looping
  | .convolver => do
    let (duration, decay, reverse) ←
      content.record (variantExpected "Convolver" 3) convolverFields (1, none, false)
    return .convolver duration decay reverse
  | .memoize => do
    let (id, node) ←
      content.record (variantExpected "Memoize" 2) memoizeFields ("", .destination)
    return .memoize id node
  | .destination =>
    match content with
    | .fields _ => return .destination
    | .items readings => Json.readPositions Kept.excess "" [] 0 Patch.destination readings

def kindKey : String := "type"

-- A number stands for itself, anything else must be a node.
def controlOf (json : Json) (patch : Decode Patch) : Decode Control :=
  match json with
  | .number n => pure (.value n.toFloat)
  | _ => do
    match ← patch.attempt with
    | some patch => return .node patch
    | none => Decode.fail (.noMatch "ParamSpec")

def Reading.make (json : Json) (patch : Decode Patch) (patches : Decode (List Patch)) : Reading :=
  ⟨json, patch, patches, controlOf json patch⟩

def Reading.ofScalar (json : Json) : Reading :=
  .make json (Json.mismatch json expected) (Json.mismatch json "a sequence")

def Reading.ofItems (json : Json) (readings : List Reading) : Reading :=
  let patch : Decode Patch :=
    match readings with
    | [] => Decode.fail (.missingField kindKey)
    | kind :: rest => do (Content.items rest).patch (← Kind.ofJson kind.json)
  .make json patch (readings.mapM Reading.patch)

def Reading.ofFields (json : Json) (entries : List (String × Reading)) : Reading :=
  let (kinds, rest) := entries.partition fun (key, _) => key == kindKey
  let patch : Decode Patch :=
    match kinds with
    | [] => Decode.fail (.missingField kindKey)
    | (_, kind) :: more => do
      let kind ← Kind.ofJson kind.json
      if more.isEmpty then (Content.fields rest).patch kind
      else Decode.fail (.duplicateField kindKey)
  .make json patch (Json.mismatch json "a sequence")

mutual
def reading : Json → Reading
  | .array items => .ofItems (.array items) (readings items)
  | .object fields => .ofFields (.object fields) (fieldReadings fields)
  | .null => .ofScalar .null
  | .bool b => .ofScalar (.bool b)
  | .number n => .ofScalar (.number n)
  | .string s => .ofScalar (.string s)

def readings : List Json → List Reading
  | [] => []
  | item :: rest => reading item :: readings rest

def fieldReadings : List (String × Json) → List (String × Reading)
  | [] => []
  | (name, value) :: rest => (name, reading value) :: fieldReadings rest
end

-- The outermost node, in place as far as its kind.
def readDoc : Doc → Decode Patch
  | .array start level items => do
    Json.guardDepth start level
    let (kind, rest) ← items.next Kind.ofText
    match kind with
    | none => throw (.on (.missingField kindKey) rest.mark)
    | some kind =>
      let others ← Json.liftExcept rest.keep
      (Content.items (readings others)).patch kind
  | .object start level fields => do
    Json.guardDepth start level
    let table : List (Field Doc Kind) := [.needed kindKey Kind.ofText fun kind _ => kind]
    let (kind, others, _) ← fields.entries table Json.setAside [] .destination []
    (Content.fields (fieldReadings others)).patch kind
  | doc => throw (doc.mismatch expected)

def ofText (source : String) : Decode Patch := Json.wholeText readDoc source

-- A parameter is set aside whole before it is known what it is.
def readControl (doc : Doc) : Decode Control := do
  return ← (reading (← Source.keep doc)).control

def render (patch : Patch) : String := patch.toJson.render

-- Whether the normal form is read back as the same patch.
def survives (patch : Patch) : Bool :=
  match (ofText patch.render).run [] with
  | .ok again _ => again == patch
  | .error _ _ => false

end Patchbay.Patch

import Patchbay.Host.Basic

namespace Patchbay

inductive Route where
  | serial
  | parallel
  deriving DecidableEq

namespace Route

def names : List (String × Route) := [("serial", .serial), ("parallel", .parallel)]

def name : Route → String
  | .serial => "serial"
  | .parallel => "parallel"

def read [Json.Source δ] (d : δ) : Json.Decode Route := Json.Source.choice names d

end Route

mutual
inductive Patch where
  | connect (route : Route) (nodes : List Patch)
  | gain (level : Control)
  | oscillator (waveform : Waveform) (frequency : Control) (detune : Option Control)
  | biquadFilter (type : FilterType) (frequency : Control) (q detune : Option Control)
  | envelope (attack : Contour) (release : Option Contour)
  | delay (time : Control) (feedback : Option Float)
  | constant (value : Float)
  | noise (duration : Float) (looping : Bool)
  -- Convolution over decaying noise.
  | convolver (duration : Float) (decay : Option Float) (reverse : Bool)
  -- Built once and shared wherever the id stands.
  | memoize (id : String) (node : Patch)
  | destination

-- The setting of a parameter: a number, or a node that modulates it.
inductive Control where
  | value (x : Float)
  | node (patch : Patch)
end

-- A field that is left out when there is nothing to write.
def Json.given (name : String) (value : Option Json) : List (String × Json) :=
  (value.map (name, ·)).toList

mutual
def Patch.toJson : Patch → Json
  | .connect route nodes => .object [
      ("type", .string "connect"), ("route", .string route.name),
      ("nodes", .array (Patch.listToJson nodes))]
  | .gain level => .object [("type", .string "gain"), ("gain", level.toJson)]
  | .oscillator waveform frequency detune => .object ([
      ("type", .string "oscillator"), ("waveform", waveform.toJson),
      ("frequency", frequency.toJson)] ++ Json.given "detune" (Control.optionToJson detune))
  | .biquadFilter type frequency q detune => .object ([
      ("type", .string "biquadFilter"), ("filterType", type.toJson),
      ("frequency", frequency.toJson)] ++ Json.given "Q" (Control.optionToJson q) ++
      Json.given "detune" (Control.optionToJson detune))
  | .envelope attack release => .object ([
      ("type", .string "envelope"), ("attack", attack.toJson)] ++
      Json.given "release" (release.map Contour.toJson))
  | .delay time feedback => .object ([
      ("type", .string "delay"), ("delayTime", time.toJson)] ++
      Json.given "feedback" (feedback.map Json.real))
  | .constant value => .object [("type", .string "constant"), ("value", .real value)]
  | .noise duration looping => .object [
      ("type", .string "noise"), ("duration", .real duration), ("looping", .bool looping)]
  | .convolver duration decay reverse => .object ([
      ("type", .string "convolver"), ("duration", .real duration)] ++
      Json.given "decay" (decay.map Json.real) ++ [("reverse", .bool reverse)])
  | .memoize id node => .object [
      ("type", .string "memoize"), ("id", .string id), ("node", node.toJson)]
  | .destination => .object [("type", .string "destination")]

def Patch.listToJson : List Patch → List Json
  | [] => []
  | patch :: rest => patch.toJson :: Patch.listToJson rest

def Control.toJson : Control → Json
  | .value x => .real x
  | .node patch => patch.toJson

def Control.optionToJson : Option Control → Option Json
  | none => none
  | some control => some control.toJson
end

-- Equality by the values of numbers: the two zeros are equal.
mutual
def Patch.same : Patch → Patch → Bool
  | .connect r ns, .connect r' ns' => r == r' && Patch.sameList ns ns'
  | .gain l, .gain l' => l.same l'
  | .oscillator w f d, .oscillator w' f' d' => w == w' && f.same f' && Control.sameOption d d'
  | .biquadFilter t f q d, .biquadFilter t' f' q' d' =>
    t == t' && f.same f' && Control.sameOption q q' && Control.sameOption d d'
  | .envelope a r, .envelope a' r' => a == a' && r == r'
  | .delay t f, .delay t' f' => t.same t' && f == f'
  | .constant v, .constant v' => v == v'
  | .noise d l, .noise d' l' => d == d' && l == l'
  | .convolver d c r, .convolver d' c' r' => d == d' && c == c' && r == r'
  | .memoize i n, .memoize i' n' => i == i' && n.same n'
  | .destination, .destination => true
  | _, _ => false

def Patch.sameList : List Patch → List Patch → Bool
  | [], [] => true
  | n :: ns, n' :: ns' => n.same n' && Patch.sameList ns ns'
  | _, _ => false

def Control.same : Control → Control → Bool
  | .value x, .value x' => x == x'
  | .node n, .node n' => n.same n'
  | _, _ => false

def Control.sameOption : Option Control → Option Control → Bool
  | none, none => true
  | some c, some c' => c.same c'
  | _, _ => false
end

instance : BEq Patch := ⟨Patch.same⟩

instance : BEq Control := ⟨Control.same⟩

end Patchbay

import Patchbay.Node.Signal
import Patchbay.Settings.Adsr
import Patchbay.Settings.Filter

namespace Patchbay.Node

def filter (context : ContextId) (type : FilterType) (frequency : Drive) (q detune : Option Drive) :
    Act Node :=
  ofKind context (.biquadFilter type) [(.frequency, some frequency), (.q, q), (.detune, detune)]

def filterOf (context : ContextId) (settings : FilterSettings) : Act Node :=
  filter context settings.type (.fixed settings.frequency) (settings.q.map .fixed)
    (settings.detune.map .fixed)

-- A gain that is silent until it is started. Without a release it lasts as long as its attack.
def shaper (context : ContextId) (attack : Contour) (release : Option Contour) : Act Node := do
  let host ← Act.createHost context .gain
  Act.host context (·.setParam host .gain 0)
  let duration := if release.isNone then some attack.duration else none
  enrol context ("Envelope" ++ hostLabel host) duration (release.map Contour.duration)
    fun info => .envelope info host attack release

def contour (stages : List Stage) : Act Contour :=
  Act.ofExcept .invalidContour (Contour.ofStages stages)

-- Up, and at once down again.
def percussive (context : ContextId) (attack decay : Option Float) : Act Node := do
  let stages := [.set 0, .linear 1 (attack.getD 0.01), .exponential 0 (decay.getD 0.2)]
  shaper context (← contour stages) none

-- Up from `low` to `high`, held there, and down.
def swell (context : ContextId) (attack hold decay high low : Float) : Act Node := do
  let stages := [.set low, .linear high attack, .set high, .linear high hold, .linear low decay]
  shaper context (← contour stages) none

def adsr (context : ContextId) (settings : Adsr) : Act Node := do
  let attack ← Act.ofExcept .invalidContour settings.attackContour
  let release ← Act.ofExcept .invalidContour settings.releaseContour
  shaper context attack (some release)

-- A frequency that rises by octaves and falls again, along an envelope.
def sweep (context : ContextId) (frequency octaves : Float) (settings : Adsr) : Act Node := do
  spanning frequency (frequency * (2 : Float).pow octaves) (← adsr context settings)

end Patchbay.Node

import Patchbay.Node.Signal
import Patchbay.Settings.Bank

namespace Patchbay.Node

def oscillator (context : ContextId) (waveform : Waveform) (frequency : Drive)
    (detune : Option Drive) : Act Node :=
  ofKind context (.oscillator waveform) [(.frequency, some frequency), (.detune, detune)]

def sine (context : ContextId) (frequency : Drive) : Act Node :=
  oscillator context .sine frequency none

-- A slow oscillator of a given amplitude, to modulate with.
def lfo (context : ContextId) (waveform : Waveform) (rate amplitude : Float) : Act Node := do
  scaled (.fixed amplitude) (← oscillator context waveform (.fixed rate) none)

-- Items are taken in turn, from the first again after the last.
def inTurn (items : List α) (i : Nat) : Option α := items[i % items.length]?

-- The partials from the `i`th on, each through its own gain.
def partials (context : ContextId) (settings : BankSettings) (i : Nat) :
    List Float → Act (List Node)
  | [] => return []
  | ratio :: rest => do
    let waveform := (inTurn settings.waveforms i).getD .sine
    let level := (inTurn settings.gains i).getD 1
    let tone ← oscillator context waveform (.fixed (ratio * settings.frequency)) none
    let voice ← inSeries tone [← gain context (.fixed level)]
    return voice :: (← partials context settings (i + 1) rest)

def bank (context : ContextId) (ratios : List Float) (settings : BankSettings) : Act Node := do
  match ← partials context settings 0 ratios with
  | [] => throw (.config .emptyBank)
  | first :: rest =>
    let level := if settings.normalize then 1 / Float.ofNat ratios.length else 1
    inSeries (← inParallel first rest) [← gain context (.fixed level)]

end Patchbay.Node

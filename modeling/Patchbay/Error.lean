import Patchbay.Audio.Decode
import Patchbay.Host.Fault
import Patchbay.Organ.Registration
import Patchbay.Patch.Read
import Patchbay.Soundfont.Script

namespace Patchbay

inductive ConfigFault where
  | unevenChannels
  | emptyBank
  | holdsNoBuffer (label : String)
  | notLoaded (url : String)
  | registration (fault : Registration.Fault)
  | contour (message : String)

def ConfigFault.message : ConfigFault → String
  | .unevenChannels => "buffer channels differ in length"
  | .emptyBank => "oscillator bank needs at least one partial"
  | .holdsNoBuffer label => label ++ " holds no buffer"
  | .notLoaded url => url ++ " is not loaded"
  | .registration fault => fault.message
  | .contour message => "contour: " ++ message

inductive Error where
  | invalidTime (label : String) (time : Float)
  | invalidContour (fault : ContourFault)
  | unknownParam (label : String) (param : Param)
  | missingMemoId
  | graph (source : String) (fault : Json.Fault)
  | config (fault : ConfigFault)
  | noSynth
  | host (fault : HostFault)
  | soundfont (fault : Soundfont.Fault)
  | decode (fault : Audio.Fault)

def Error.message : Error → String
  | .invalidTime label time =>
    "cannot schedule " ++ label ++ ": time " ++ Decimal.plain time ++
      " is not a finite number (is it connected?)"
  | .invalidContour fault => fault.message
  | .unknownParam label param => label ++ " has no parameter `" ++ param.name ++ "`"
  | .missingMemoId => "memoized node requires a non-empty id"
  | .graph source fault => "invalid graph: " ++ fault.message source
  | .config fault => "invalid configuration: " ++ fault.message
  | .noSynth => "instrument has no synth to build a voice from a value"
  | .host fault => "host audio engine error: " ++ fault.message
  | .soundfont fault => "soundfont error: " ++ fault.message
  | .decode fault => "cannot decode audio: " ++ fault.message

-- Channels that differ in length are at fault as a buffer, not as a file.
def Error.ofAudio : Audio.Fault → Error
  | .uneven => .config .unevenChannels
  | fault => .decode fault

def Registration.ofText (text : String) : Except Error Registration :=
  (Registration.parse text).mapError fun fault => .config (.registration fault)

-- A contour read from text by itself.
def Contour.ofText (source : String) : EStateM Error (List Warning) Contour := fun warnings =>
  match (Json.wholeText Contour.read source).run warnings with
  | .ok contour warnings => .ok contour warnings
  | .error fault warnings => .error (.config (.contour (fault.message source))) warnings

def Patch.parse (source : String) : EStateM Error (List Warning) Patch := fun warnings =>
  match (Patch.ofText source).run warnings with
  | .ok patch warnings => .ok patch warnings
  | .error fault warnings => .error (.graph source fault) warnings

def Soundfont.parseScript (script : String) :
    EStateM Error (List Warning) (List (Nat × List UInt8)) := fun warnings =>
  match (Soundfont.parse script).run warnings with
  | .ok notes warnings => .ok notes warnings
  | .error fault warnings => .error (.soundfont fault) warnings

-- Every note of the script is decoded.
def Soundfont.ofScript (name script : String) : EStateM Error (List Warning) Soundfont := do
  let encoded ← Soundfont.parseScript script
  match Soundfont.decodeNotes encoded with
  | .ok notes => return .ofNotes name notes
  | .error fault => throw (.ofAudio fault)

end Patchbay

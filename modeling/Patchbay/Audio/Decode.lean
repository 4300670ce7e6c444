import Patchbay.Audio.Mp3

namespace Patchbay.Audio

inductive Fault where
  | wav (fault : WavFault)
  | noFrames
  -- The channels are not of one length.
  | uneven

def Fault.message : Fault → String
  | .wav fault => "wav: " ++ fault.message
  | .noFrames => "mp3 contained no audio frames"
  | .uneven => "buffer channels differ in length"

def assemble (rate : Float) (channels : List (List Float32)) : Except Fault Buffer :=
  match Buffer.ofChannels? rate channels with
  | some buffer => .ok buffer
  | none => .error .uneven

def decodeWav (bytes : List UInt8) : Except Fault Buffer :=
  match Wav.decode bytes with
  | .ok (rate, channels) => assemble rate channels
  | .error fault => .error (.wav fault)

def decodeMp3 (bytes : List UInt8) : Except Fault Buffer :=
  match Mp3.decode? bytes with
  | some (rate, channels) => assemble rate channels
  | none => .error .noFrames

def decode (bytes : List UInt8) : Except Fault Buffer :=
  if (Wav.tag "RIFF").isPrefixOf bytes then decodeWav bytes else decodeMp3 bytes

end Patchbay.Audio

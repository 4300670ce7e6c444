namespace Patchbay

inductive Warning where
  | unknownStage (name : String)
  | silentSource
  | silentConvolver
  | skippedEntry (name : String)
  | missingSample (font : String) (note : Nat)
  | stuckVoice (id : Nat) (reason : String)

def Warning.message : Warning → String
  | .unknownStage name => "unknown contour stage type `" ++ name ++ "`, ramping linearly"
  | .silentSource => "buffer not ready, source will be silent"
  | .silentConvolver => "impulse response not ready, convolver will be silent"
  | .skippedEntry name => "skipping soundfont entry `" ++ name ++ "`: not a note name"
  | .missingSample font note =>
    "soundfont `" ++ font ++ "` has no sample for note " ++ toString note
  | .stuckVoice id reason => "voice " ++ toString id ++ " did not disconnect: " ++ reason

end Patchbay

import Patchbay.Organ.Registration
import Patchbay.Settings.SampleVoice
import Patchbay.Settings.Subtractive
import Patchbay.Soundfont.Script

namespace Patchbay

inductive Recipe where
  | sine
  -- A sine under a short percussive envelope.
  | pluck
  | adsr (settings : Adsr)
  | subtractive (settings : SubtractiveSettings)
  | organ (registration : Registration)
  -- Built from its text for every voice; the value is not used.
  | patch (source : String)
  -- The value is the number of a note.
  | sampler (font : Soundfont) (voice : SampleVoice)

end Patchbay

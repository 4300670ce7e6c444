import Patchbay.Json.Render
import Patchbay.Patch.Report
import Patchbay.Plate
import Patchbay.Instrument.Setup
import Patchbay.Studio.Clock
import Patchbay.Studio.Listing
import Patchbay.Proofs.Ends.Scheduled
import Patchbay.Proofs.Voices.SharedNodes
import Patchbay.Proofs.Lifetime.StartReach
import Patchbay.Proofs.Lifetime.StopReach
import Patchbay.Proofs.Node.Drafts
import Patchbay.Proofs.Observers.Passive
import Patchbay.Proofs.Voices.Entry
import Patchbay.Proofs.Voices.Stealing
import Patchbay.Proofs.Voices.FailedStart
import Patchbay.Proofs.Patch.NormalForm
import Patchbay.Proofs.Lifetime.Refusal
import Patchbay.Proofs.Wiring.Contexts
import Patchbay.Proofs.Builder.Memo
import Patchbay.Proofs.Builder.Buildable
import Patchbay.Proofs.Voices.StolenStops
import Patchbay.Proofs.Observers.VoiceCount
import Patchbay.Proofs.Clock.EndOrder
import Patchbay.Proofs.Host.Log
import Patchbay.Proofs.Wiring.Endpoints
import Patchbay.Proofs.Disconnection.Aftermath
import Patchbay.Proofs.Host.LateAudio
import Patchbay.Proofs.Wiring.Composition
import Patchbay.Proofs.Soundfont.Script
import Patchbay.Proofs.Audio.Wav
import Patchbay.Proofs.Settings.Overlay
import Patchbay.Proofs.Independence.Theorems
import Patchbay.Proofs.Builder.Inlining
import Patchbay.Proofs.Voices.NamedStop
import Patchbay.Proofs.Settings.RoundTrip
import Patchbay.Proofs.Host.Contours
import Patchbay.Proofs.Wiring.Bank
import Patchbay.Proofs.Organ.Drawbars
import Patchbay.Proofs.Patch.Places
import Patchbay.Proofs.Observers.Circulation
import Patchbay.Proofs.Patch.Acceptance


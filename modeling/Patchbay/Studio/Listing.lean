import Patchbay.Studio.Basic
import Patchbay.Text.Quoted

namespace Patchbay

namespace Listing

def number (x : Float) : String := Decimal.Layout.listing.render x

def option (write : α → String) : Option α → String
  | none => "None"
  | some a => "Some(" ++ write a ++ ")"

def ofFields (name : String) (fields : List (String × String)) : String :=
  name ++ " \x7b " ++ String.intercalate ", " (fields.map fun (key, text) => key ++ ": " ++ text) ++
    " \x7d"

end Listing

open Listing

def Node.listing (node : Node) (studio : Studio) : String :=
  ofFields "Node" [
    ("label", Text.quoted node.label), ("id", option toString (node.state studio).voice),
    ("duration", option number node.duration), ("release", option number node.release),
    ("dependents", toString node.dependents.length)]

def Engine.listing (engine : Engine) : String :=
  ofFields "Context" [("now", number engine.now), ("sample_rate", number engine.rate)]

def Instrument.listing (inst : Instrument) : String :=
  ofFields "Instrument" [
    ("voices", toString inst.voices.length), ("max_voices", toString inst.maxVoices),
    ("has_synth", toString inst.synth.isSome)]

end Patchbay

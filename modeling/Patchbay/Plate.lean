import Patchbay.Node.Effect
import Patchbay.Text.Casing

namespace Patchbay

structure Plate where
  node : Node
  impulse : Sample
  url : String

namespace Plate

def folder : String := "https://danigb.github.io/sampled/IR/EMT140-Plate/samples/"

def standard : String := "Emt 140 Medium 2"

def names : List String :=
  ["Bright", "Dark", "Medium"].flatMap fun tone =>
    ["1", "2", "3", "4", "5"].map fun number => "Emt 140 " ++ tone ++ " " ++ number

def address (name : Option String) : String :=
  folder ++ Text.slug (name.getD standard) ++ ".wav"

def install (context : ContextId) (name : Option String) : Act Plate :=
  return ⟨← Node.convolver context none true, .empty, address name⟩

-- The host holds from now on what has arrived.
def attach (plate : Plate) : Act Unit :=
  match plate.impulse.buffer with
  | some _ => plate.node.setBuffer
  | none => throw (.config (.notLoaded plate.url))

def fill (plate : Plate) (impulse : Buffer) : Act Plate := do
  let plate := { plate with impulse := plate.impulse.fill impulse }
  plate.attach
  return plate

end Plate

end Patchbay

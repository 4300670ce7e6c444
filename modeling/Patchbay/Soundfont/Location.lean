import Patchbay.Json.Decode
import Patchbay.Text.Casing

namespace Patchbay.Soundfont

open Json (Source Field Decode)

inductive Library where
  | fluid
  | musyng
  deriving DecidableEq

namespace Library

def names : List (String × Library) := [("FluidR3_GM", .fluid), ("MusyngKite", .musyng)]

def name : Library → String
  | .fluid => "FluidR3_GM"
  | .musyng => "MusyngKite"

def read [Source δ] (d : δ) : Decode Library := Source.choice names d

end Library

inductive Format where
  | mp3
  | ogg
  deriving DecidableEq

namespace Format

def names : List (String × Format) := [("mp3", .mp3), ("ogg", .ogg)]

def name : Format → String
  | .mp3 => "mp3"
  | .ogg => "ogg"

def read [Source δ] (d : δ) : Decode Format := Source.choice names d

end Format

structure LoadOptions where
  library : Library
  format : Format
  deriving DecidableEq

namespace LoadOptions

def standard : LoadOptions := ⟨.musyng, .mp3⟩

def fields [Source δ] : List (Field δ LoadOptions) := [
  .optional "soundfont" Library.read fun x c => { c with library := x },
  .optional "format" Format.read fun x c => { c with format := x }]

def read [Source δ] (d : δ) : Decode LoadOptions :=
  Source.record "struct LoadOptions" fields standard d

def toJson (c : LoadOptions) : Json :=
  .object [("soundfont", .string c.library.name), ("format", .string c.format.name)]

end LoadOptions

def server : String := "https://gleitz.github.io/midi-js-soundfonts/"

-- A name whose path ends in `.js` is an address already.
def isAddress (name : String) : Bool :=
  let path := name.toList.takeWhile (· != '?')
  ".js".toList.isSuffixOf (path.map Char.toLower)

def address (name : String) (library : Library) (format : Format) : String :=
  if isAddress name then name
  else server ++ library.name ++ "/" ++ Text.slug name ++ "-" ++ format.name ++ ".js"

end Patchbay.Soundfont

import Patchbay.Audio.Decode
import Patchbay.Json.InPlace
import Patchbay.Pitch
import Patchbay.Soundfont.Base64
import Patchbay.Soundfont.Location
import Patchbay.Text.Basic

namespace Patchbay.Soundfont

inductive Fault where
  | notAScript
  | badEntries (message : String)
  | badAudio (name : String) (fault : Base64.Fault)
  -- Only one of the formats can be decoded.
  | undecodable

def Fault.message : Fault → String
  | .notAScript => "invalid MIDI.js soundfont"
  | .badEntries message => "invalid MIDI.js soundfont: " ++ message
  | .badAudio name fault => "note " ++ name ++ ": " ++ fault.message
  | .undecodable => "only mp3 soundfonts can be decoded"

-- What is left of the text from the first place where the pattern stands.
def dropTo (pattern : List Char) : List Char → Option (List Char)
  | [] => if pattern.isEmpty then some [] else none
  | c :: rest =>
    if pattern.isPrefixOf (c :: rest) then some (c :: rest) else dropTo pattern rest

def header : List Char := "MIDI.Soundfont.".toList

-- What stands before the last closing brace.
def upToBrace (cs : List Char) : Option (List Char) :=
  match cs.reverse.dropWhile (· != '\x7d') with
  | [] => none
  | _ :: before => some before.reverse

-- A comma after the last entry is allowed.
def dropComma (cs : List Char) : List Char :=
  match cs.reverse with
  | ',' :: before => before.reverse
  | _ => cs

-- The object of entries, as JSON text.
def entriesText (script : String) : Option String := do
  let assigned ← dropTo header script.toList
  let opened ← dropTo ['\x7b'] assigned
  let body ← upToBrace (opened.drop 1)
  return String.ofList ('\x7b' :: dropComma (Text.trimEndChars body) ++ ['\x7d'])

def readTexts : Json.Fields → Json.Decode (List (String × String))
  | .field _ name _ colon value rest => do
    let key ← Json.liftExcept name.value
    Json.Decode.refuse colon
    let text ← Json.Source.text value
    return (key, text) :: (← readTexts rest)
  | fields => do
    Json.Decode.refuse fields.ending
    return []

def readEntries : Json.Doc → Json.Decode (List (String × String))
  | .object _ _ fields => readTexts fields
  | doc => throw (doc.mismatch "a map")

-- The data of a URI stands behind its first comma.
def uriData (uri : String) : String :=
  match uri.toList.dropWhile (· != ',') with
  | [] => uri
  | _ :: data => String.ofList data

def noteOf (name : String) : Option Nat :=
  match (Pitch.noteNumber name).map Int32.toInt with
  | some (.ofNat n) => if n < 256 then some n else none
  | _ => none

abbrev Reading := EStateM Fault (List Warning)

-- Entries are taken in the order of their names.
def decodeEntries : List (String × String) → List (Nat × List UInt8) →
    Reading (List (Nat × List UInt8))
  | [], notes => pure notes
  | (name, uri) :: rest, notes =>
    match noteOf name with
    | none => do
      modify (· ++ [Warning.skippedEntry name])
      decodeEntries rest notes
    | some note =>
      match Base64.decode (Text.trim (uriData uri)).toUTF8.toList with
      | .error fault => throw (.badAudio name fault)
      | .ok bytes => decodeEntries rest (Keyed.insert note bytes notes)

-- The encoded audio of each note, in ascending order.
def parse (script : String) : Reading (List (Nat × List UInt8)) :=
  match entriesText script with
  | none => throw .notAScript
  | some text =>
    match (Json.wholeText readEntries text).run [] with
    | .error fault _ => throw (.badEntries (fault.message text))
    | .ok entries _ => decodeEntries (Keyed.ofList entries) []

end Soundfont

-- The decoded notes of a soundfont, in ascending order.
structure Soundfont where
  name : String
  notes : List (Nat × Buffer)

namespace Soundfont

def ofNotes (name : String) (notes : List (Nat × Buffer)) : Soundfont :=
  ⟨name, Keyed.ofList notes⟩

def buffer? (font : Soundfont) (note : Nat) : Option Buffer := Keyed.get? font.notes note

-- The address to fetch from.
def source (name : String) (options : LoadOptions) : Except Fault String :=
  match options.format with
  | .mp3 => .ok (address name options.library options.format)
  | .ogg => .error .undecodable

def decodeNotes : List (Nat × List UInt8) → Except Audio.Fault (List (Nat × Buffer))
  | [] => .ok []
  | (note, bytes) :: rest => do
    let buffer ← Audio.decodeMp3 bytes
    return (note, buffer) :: (← decodeNotes rest)

end Patchbay.Soundfont

import Patchbay.Json.Basic
import Patchbay.Decimal.Layout

namespace Patchbay

def hexByte (n : Nat) : String :=
  let digit (d : Nat) : Char := if d < 10 then Char.ofNat (48 + d) else Char.ofNat (87 + d)
  String.ofList [digit (n / 16 % 16), digit (n % 16)]

namespace Json

def escapedChar (c : Char) : String :=
  if c = '"' then "\\\""
  else if c = '\\' then "\\\\"
  else if c = '\n' then "\\n"
  else if c = '\r' then "\\r"
  else if c = '\t' then "\\t"
  else if c.toNat = 0x08 then "\\b"
  else if c.toNat = 0x0C then "\\f"
  else if c.toNat < 0x20 then "\\u00" ++ hexByte c.toNat
  else String.ofList [c]

def renderString (s : String) : String :=
  "\"" ++ String.join (s.toList.map escapedChar) ++ "\""

def renderNumber : Number → String
  | .whole n => toString n
  | .negative n => "-" ++ toString n
  | .real x => if x.isFinite then Decimal.Layout.json.render x else "null"

mutual
def render : Json → String
  | .null => "null"
  | .bool b => if b then "true" else "false"
  | .number n => renderNumber n
  | .string s => renderString s
  | .array [] => "[]"
  | .array (first :: rest) => "[" ++ render first ++ renderItems rest
  | .object [] => "\x7b\x7d"
  | .object (first :: rest) => "\x7b" ++ renderField first ++ renderFields rest

def renderItems : List Json → String
  | [] => "]"
  | item :: rest => "," ++ render item ++ renderItems rest

def renderField : String × Json → String
  | (name, value) => renderString name ++ ":" ++ render value

def renderFields : List (String × Json) → String
  | [] => "\x7d"
  | field :: rest => "," ++ renderField field ++ renderFields rest
end

end Json

end Patchbay

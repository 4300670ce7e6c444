import Patchbay.Json.Basic
import Patchbay.Decimal.Layout
import Patchbay.Text.Quoted

namespace Patchbay.Json

-- What stood where something else was expected.
inductive Found where
  | null
  | bool (b : Bool)
  | number (n : Number)
  | text (s : String)
  | sequence
  | map

inductive Reason where
  | unfinishedList
  | unfinishedObject
  | unfinishedString
  | unfinishedValue
  | expectedColon
  | expectedListEnd
  | expectedObjectEnd
  | expectedWord
  | expectedValue
  | badEscape
  | badNumber
  | numberOutOfRange
  | controlCharacter
  | keyNotText
  | loneSurrogate
  | unfinishedEscape
  | trailingComma
  | trailingCharacters
  | tooDeep
  | mismatch (found : Found) (expected : String)
  | badValue (found : Found) (expected : String)
  | badLength (length : Nat) (expected : String)
  | unknownVariant (name : String) (expected : List String)
  | missingField (name : String)
  | duplicateField (name : String)
  | noMatch (type : String)
  | refused (message : String)

structure Fault where
  reason : Reason
  -- Bytes read when the fault was found.
  offset : Option Nat

def quote (name : String) : String := "`" ++ name ++ "`"

def Found.wording : Found → String
  | .null => "null"
  | .bool b => "boolean " ++ quote (if b then "true" else "false")
  | .number (.whole n) => "integer " ++ quote (toString n)
  | .number (.negative n) => "integer " ++ quote ("-" ++ toString n)
  | .number (.real x) => "floating point " ++ quote (Decimal.Layout.json.render x)
  | .text s => "string " ++ Text.quoted s
  | .sequence => "sequence"
  | .map => "map"

def oneOf : List String → String
  | [] => "there are no variants"
  | [a] => "expected " ++ quote a
  | [a, b] => "expected " ++ quote a ++ " or " ++ quote b
  | names => "expected one of " ++ ", ".intercalate (names.map quote)

def Reason.message : Reason → String
  | .unfinishedList => "EOF while parsing a list"
  | .unfinishedObject => "EOF while parsing an object"
  | .unfinishedString => "EOF while parsing a string"
  | .unfinishedValue => "EOF while parsing a value"
  | .expectedColon => "expected `:`"
  | .expectedListEnd => "expected `,` or `]`"
  | .expectedObjectEnd => "expected `,` or `\x7d`"
  | .expectedWord => "expected ident"
  | .expectedValue => "expected value"
  | .badEscape => "invalid escape"
  | .badNumber => "invalid number"
  | .numberOutOfRange => "number out of range"
  | .controlCharacter => "control character (\\u0000-\\u001F) found while parsing a string"
  | .keyNotText => "key must be a string"
  | .loneSurrogate => "lone leading surrogate in hex escape"
  | .unfinishedEscape => "unexpected end of hex escape"
  | .trailingComma => "trailing comma"
  | .trailingCharacters => "trailing characters"
  | .tooDeep => "recursion limit exceeded"
  | .mismatch found expected => "invalid type: " ++ found.wording ++ ", expected " ++ expected
  | .badValue found expected => "invalid value: " ++ found.wording ++ ", expected " ++ expected
  | .badLength length expected => "invalid length " ++ toString length ++ ", expected " ++ expected
  | .unknownVariant name expected => "unknown variant " ++ quote name ++ ", " ++ oneOf expected
  | .missingField name => "missing field " ++ quote name
  | .duplicateField name => "duplicate field " ++ quote name
  | .noMatch type => "data did not match any variant of untagged enum " ++ type
  | .refused message => message

-- A place in text: lines count from one, columns count the bytes before it on its line.
structure Position where
  line : Nat
  column : Nat
  deriving DecidableEq, Repr

-- `offset` bytes are passed over from the place `p`.
def Position.advance (p : Position) : List Char → Nat → Position
  | [], _ => p
  | c :: rest, offset =>
    if offset < c.utf8Size then ⟨p.line, p.column + offset⟩
    else if c = '\n' then Position.advance ⟨p.line + 1, 0⟩ rest (offset - 1)
    else Position.advance ⟨p.line, p.column + c.utf8Size⟩ rest (offset - c.utf8Size)

def Position.ofOffset (text : String) (offset : Nat) : Position :=
  Position.advance ⟨1, 0⟩ text.toList offset

def Fault.position (text : String) (fault : Fault) : Option Position :=
  fault.offset.map (Position.ofOffset text)

def Fault.message (text : String) (fault : Fault) : String :=
  match fault.position text with
  | none => fault.reason.message
  | some p =>
    fault.reason.message ++ " at line " ++ toString p.line ++ " column " ++ toString p.column

def Fault.unplaced (reason : Reason) : Fault := ⟨reason, none⟩

-- A fault that has a place keeps it.
def Fault.placed (offset : Nat) (fault : Fault) : Fault :=
  ⟨fault.reason, some (fault.offset.getD offset)⟩

end Patchbay.Json

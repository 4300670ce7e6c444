import Patchbay.Json.Fault
import Patchbay.Text.Basic
import Patchbay.Text.Width

namespace Patchbay.Report

-- The bytes of each line, its newline among them. The first has some already.
def lineLengths : Nat → List Char → List Nat
  | length, [] => if length = 0 then [] else [length]
  | length, c :: rest =>
    if c = '\n' then (length + 1) :: lineLengths 0 rest
    else lineLengths (length + c.utf8Size) rest

-- The byte a place stands for, at most the length of the text. Lines and the bytes on them count from
-- one; what is past the end stands for the end. The sum is one of words and wraps around.
def byteOffset (text : String) (line column : UInt64) : Nat :=
  let before := ((lineLengths 0 text.toList).take (line.toNat - 1)).foldl (· + ·) 0
  min (UInt64.ofNat before + UInt64.ofNat (column.toNat - 1)).toNat text.utf8ByteSize

def isLineEnd (c : Char) : Bool :=
  c == '\n' || c == '\r' || c.toNat == 0x0B || c.toNat == 0x0C || c.toNat == 0x85 ||
    c.toNat == 0x2028 || c.toNat == 0x2029

-- Lines with their ends; a return and a line feed are one end. The line being read is reversed.
def splitLines : List Char → List Char → List (List Char)
  | [], [] => []
  | line, [] => [line.reverse]
  | line, '\r' :: '\n' :: rest => ('\n' :: '\r' :: line).reverse :: splitLines [] rest
  | line, c :: rest =>
    if isLineEnd c then (c :: line).reverse :: splitLines [] rest
    else splitLines (c :: line) rest

-- The line that holds a byte, its number and the bytes before the place on it. The end of the text
-- belongs to the last line.
def locate (number : Nat) : List (List Char) → Nat → Nat × List Char × Nat
  | [], offset => (number, [], offset)
  | [line], offset => (number, line, offset)
  | line :: rest, offset =>
    if offset < Text.byteSize line then (number, line, offset)
    else locate (number + 1) rest (offset - Text.byteSize line)

-- The characters that lie wholly before a byte.
def charsBefore : List Char → Nat → Nat
  | [], _ => 0
  | c :: rest, bytes => if c.utf8Size ≤ bytes then charsBefore rest (bytes - c.utf8Size) + 1 else 0

def spreadFrom (column : Nat) : List Char → String
  | [] => ""
  | c :: rest =>
    let (shown, width) := Text.spread c column
    String.ofList (List.replicate (if shown = ' ' then width else 1) shown) ++
      spreadFrom (column + 1) rest

def repeated (c : Char) (n : Nat) : String := String.ofList (List.replicate n c)

-- Below each character shown stands a sign as wide as it is, the sign itself and then its tail.
def signs (shown : List Char) (sign : Nat → Char × Char) (columns : Nat) : String :=
  String.join <| (List.range columns).map fun column =>
    let width := match shown[column]? with
      | some c => (Text.spread c column).2
      | none => 1
    let (head, tail) := sign column
    match width with
    | 0 => ""
    | n + 1 => String.ofList (head :: List.replicate n tail)

def render (title source message : String) (line column : UInt64) : String :=
  let offset := byteOffset source line column
  let empty := offset == source.utf8ByteSize
  let lines := match splitLines [] source.toList with
    | [] => [[]]
    | lines => lines
  let (number, text, bytes) := locate 1 lines offset
  let start := charsBefore text bytes
  let columns := (if empty then start else start + 1) + 2
  let shown := Text.trimEndChars text
  let margin := repeated ' ' ((toString number).length + 2)
  let mark (c : Nat) : Char × Char :=
    if c = start then (if empty then ('│', ' ') else ('┬', '─')) else (' ', ' ')
  let arrow (c : Nat) : Char × Char :=
    if c < start then (' ', ' ') else if c = start then ('╰', '─') else ('─', '─')
  "Error: " ++ title ++ "\n" ++
  margin ++ "╭─[ <unknown>:" ++ toString number ++ ":" ++ toString (start + 1) ++ " ]\n" ++
  margin ++ "│\n" ++
  " " ++ toString number ++ " │ " ++ spreadFrom 0 shown ++ "\n" ++
  margin ++ "│ " ++ signs shown mark columns ++ "\n" ++
  margin ++ "│ " ++ signs shown arrow columns ++ " " ++ message ++ "\n" ++
  repeated '─' ((toString number).length + 2) ++ "╯\n"

-- A fault without a place is shown at the start.
def ofFault (title source : String) (fault : Json.Fault) : String :=
  let place := (fault.position source).getD ⟨0, 0⟩
  render title source (fault.message source) (.ofNat place.line) (.ofNat place.column)

end Patchbay.Report

import Patchbay.Json.Doc
import Patchbay.Text.Basic

namespace Patchbay.Json

def wordLimit : Nat := 0xFFFFFFFFFFFFFFFF

def isSpace (c : Char) : Bool := c == ' ' || c == '\n' || c == '\t' || c == '\r'

def skipSpace : List Char → Nat → List Char × Nat
  | [], o => ([], o)
  | c :: rest, o => if isSpace c then skipSpace rest (o + 1) else (c :: rest, o)

def digitValue (c : Char) : Nat := c.toNat - 48

-- The digits at the head of the text.
def spanDigits (cs : List Char) : List Nat × List Char :=
  ((cs.takeWhile Char.isDigit).map digitValue, cs.dropWhile Char.isDigit)

-- The parts of a number as written.
structure Numeral where
  negative : Bool
  whole : List Nat
  fraction : List Nat
  -- Whether the exponent is negative, and its digits.
  exponent : Option (Bool × List Nat)

-- The significand takes digits while it fits; the rest are left.
def absorb (significand : Nat) : List Nat → Nat × List Nat
  | [] => (significand, [])
  | d :: rest =>
    if significand * 10 + d ≤ wordLimit then absorb (significand * 10 + d) rest
    else (significand, d :: rest)

def valueOf (digits : List Nat) : Nat := digits.foldl (fun n d => n * 10 + d) 0

-- Exponents past 32 bits are not computed; how many digits show that.
def exponentLimit : Nat := 0x7FFFFFFF

def overflowLength (n : Nat) : List Nat → Option Nat
  | [] => none
  | d :: rest =>
    if n * 10 + d ≤ exponentLimit then (overflowLength (n * 10 + d) rest).map (· + 1) else some 1

def powerOfTen (n : Nat) : Float := Float.ofScientific 1 false n

def greatestPower : Nat := 308

-- Division by more than the greatest power goes in steps, until nothing is left.
def divideByTen : Nat → Float → Nat → Float
  | 0, x, _ => x
  | fuel + 1, x, power =>
    if power ≤ greatestPower then x / powerOfTen power
    else if x == 0.0 then x
    else divideByTen fuel (x / powerOfTen greatestPower) (power - greatestPower)

-- The double nearest to the parts under this arithmetic; none when it is infinite.
def scaled (significand : Nat) (power : Int) : Option Float :=
  let x := Float.ofNat significand
  match power with
  | .negSucc n => some (divideByTen (n / greatestPower + 2) x (n + 1))
  | .ofNat n =>
    if n ≤ greatestPower then
      let product := x * powerOfTen n
      if product.isInf then none else some product
    else if x == 0.0 then some x
    else none

def signed (negative : Bool) (x : Float) : Float := if negative then -x else x

def Numeral.integer (negative : Bool) (n : Nat) : Number :=
  if negative then
    if n = 0 ∨ 0x8000000000000000 < n then .real (-Float.ofNat n) else .negative n
  else .whole n

def Numeral.real (numeral : Numeral) (stop : Nat) : Except Fault Number :=
  let (whole, left) := absorb 0 numeral.whole
  let (significand, dropped) := absorb whole numeral.fraction
  let shift : Int := left.length - (numeral.fraction.length - dropped.length : Nat)
  let finish (power : Int) : Except Fault Number :=
    match scaled significand power with
    | some x => .ok (.real (signed numeral.negative x))
    | none => .error (.on .numberOutOfRange stop)
  match numeral.exponent with
  | none => finish shift
  | some (below, digits) =>
    match overflowLength 0 digits with
    | some read =>
      if significand ≠ 0 ∧ ¬ below then
        .error (.on .numberOutOfRange (stop - (digits.length - read)))
      else .ok (.real (signed numeral.negative 0.0))
    | none => finish (if below then shift - valueOf digits else shift + valueOf digits)

def Numeral.number (numeral : Numeral) (stop : Nat) : Except Fault Number :=
  let (whole, left) := absorb 0 numeral.whole
  if numeral.fraction.isEmpty ∧ numeral.exponent.isNone ∧ left.isEmpty then
    .ok (Numeral.integer numeral.negative whole)
  else numeral.real stop

-- A number that breaks off, by the reader that wants it and the one that passes over it.
structure BadNumber where
  value : Fault
  skip : Fault

def BadNumber.ended (o : Nat) : BadNumber := ⟨.on .unfinishedValue o, .on .badNumber o⟩

def BadNumber.at (o : Nat) : BadNumber := ⟨.on .badNumber o, .on .badNumber o⟩

abbrev Scanned (α : Type) := Except BadNumber (α × List Char × Nat)

def scanWhole (cs : List Char) (o : Nat) : Scanned (List Nat) :=
  match cs with
  | [] => .error (.ended o)
  | '0' :: rest =>
    match rest with
    | d :: _ => if d.isDigit then .error (.at (o + 2)) else .ok ([0], rest, o + 1)
    | [] => .ok ([0], rest, o + 1)
  | c :: _ =>
    if c.isDigit then
      let (digits, rest) := spanDigits cs
      .ok (digits, rest, o + digits.length)
    else .error (.at (o + 1))

def scanFraction (cs : List Char) (o : Nat) : Scanned (List Nat) :=
  match cs with
  | '.' :: rest =>
    match spanDigits rest with
    | ([], []) => .error (.ended (o + 1))
    | ([], _) => .error (.at (o + 2))
    | (digits, rest) => .ok (digits, rest, o + 1 + digits.length)
  | _ => .ok ([], cs, o)

def scanExponent (cs : List Char) (o : Nat) : Scanned (Option (Bool × List Nat)) :=
  match cs with
  | [] => .ok (none, cs, o)
  | e :: rest =>
    if e = 'e' ∨ e = 'E' then
      let (below, rest, o) := match rest with
        | '+' :: rest => (false, rest, o + 2)
        | '-' :: rest => (true, rest, o + 2)
        | _ => (false, rest, o + 1)
      match spanDigits rest with
      | ([], []) => .error (.ended o)
      | ([], _) => .error (.at (o + 1))
      | (digits, rest) => .ok (some (below, digits), rest, o + digits.length)
    else .ok (none, cs, o)

def scanSign (cs : List Char) (o : Nat) : Bool × List Char × Nat :=
  match cs with
  | '-' :: rest => (true, rest, o + 1)
  | _ => (false, cs, o)

def scanNumeral (cs : List Char) (o : Nat) : Except BadNumber (Numeral × List Char × Nat) := do
  let (negative, cs, o) := scanSign cs o
  let (whole, cs, o) ← scanWhole cs o
  let (fraction, cs, o) ← scanFraction cs o
  let (exponent, cs, o) ← scanExponent cs o
  return (⟨negative, whole, fraction, exponent⟩, cs, o)

def scanNumber (cs : List Char) (start : Nat) : Lexeme Number × List Char × Nat :=
  match scanNumeral cs start with
  | .ok (numeral, rest, stop) => (⟨start, numeral.number stop, none, stop⟩, rest, stop)
  | .error bad => (⟨start, .error bad.value, some bad.skip, start⟩, [], start)

def hexValue (c : Char) : Option Nat :=
  if c.isDigit then some (c.toNat - 48)
  else if 'a' ≤ c ∧ c ≤ 'f' then some (c.toNat - 87)
  else if 'A' ≤ c ∧ c ≤ 'F' then some (c.toNat - 55)
  else none

-- Four hexadecimal digits are four bytes.
def scanHex (cs : List Char) (o : Nat) : Except Fault (Nat × List Char × Nat) :=
  if Text.byteSize (cs.take 4) < 4 then .error (.on .unfinishedString (o + Text.byteSize cs))
  else
    match (cs.take 4).mapM hexValue with
    | some digits => .ok (digits.foldl (fun n d => n * 16 + d) 0, cs.drop 4, o + 4)
    | none => .error (.on .badEscape (o + 4))

def isHigh (unit : Nat) : Bool := 0xD800 ≤ unit && unit ≤ 0xDBFF

def isLow (unit : Nat) : Bool := 0xDC00 ≤ unit && unit ≤ 0xDFFF

-- The low half that must follow a high one.
def scanLow (cs : List Char) (o : Nat) : Except Fault (Nat × List Char × Nat) :=
  match cs with
  | [] => .error (.on .unfinishedString o)
  | ['\\'] => .error (.on .unfinishedString (o + 1))
  | '\\' :: 'u' :: rest => do
    let (unit, rest, o) ← scanHex rest (o + 2)
    if isLow unit then return (unit, rest, o) else .error (.on .loneSurrogate o)
  | '\\' :: _ => .error (.on .unfinishedEscape (o + 2))
  | _ => .error (.on .unfinishedEscape (o + 1))

def simpleEscape (c : Char) : Option Char :=
  match c with
  | '"' => some '"'
  | '\\' => some '\\'
  | '/' => some '/'
  | 'b' => some '\x08'
  | 'f' => some '\x0c'
  | 'n' => some '\n'
  | 'r' => some '\r'
  | 't' => some '\t'
  | _ => none

-- What is known of a string so far: its characters, nearest first, or what is wrong with them.
abbrev Spelling := Except Fault (List Char)

def Spelling.push (c : Char) (spelling : Spelling) : Spelling := spelling.map (c :: ·)

-- The first fault stands.
def Spelling.fail (fault : Fault) (spelling : Spelling) : Spelling :=
  match spelling with
  | .ok _ => .error fault
  | .error first => .error first

def brokenString (start : Nat) (spelling : Spelling) (value skip : Fault) :
    Lexeme String × List Char × Nat :=
  match Spelling.fail value spelling with
  | .ok _ => (⟨start, .error value, some skip, start⟩, [], start)
  | .error fault => (⟨start, .error fault, some skip, start⟩, [], start)

-- The characters after the opening quote. Half a surrogate pair spoils the reading of a string but
-- not the passing over it.
def scanString (start : Nat) : Nat → Spelling → List Char → Nat → Lexeme String × List Char × Nat
  | 0, spelling, _, o =>
    brokenString start spelling (.on .unfinishedString o) (.on .unfinishedString o)
  | fuel + 1, spelling, cs, o =>
    match cs with
    | [] => brokenString start spelling (.on .unfinishedString o) (.on .unfinishedString o)
    | '"' :: rest =>
      (⟨start, spelling.map fun cs => String.ofList cs.reverse, none, o + 1⟩, rest, o + 1)
    | ['\\'] =>
      brokenString start spelling (.on .unfinishedString (o + 1)) (.on .unfinishedString (o + 1))
    | '\\' :: 'u' :: rest =>
      match scanHex rest (o + 2) with
      | .error fault => brokenString start spelling fault fault
      | .ok (unit, rest, o) =>
        if isLow unit then
          scanString start fuel (Spelling.fail (.on .loneSurrogate o) spelling) rest o
        else if isHigh unit then
          match scanLow rest o with
          | .ok (low, rest, o) =>
            let code := (unit - 0xD800) * 0x400 + (low - 0xDC00) + 0x10000
            scanString start fuel (Spelling.push (Char.ofNat code) spelling) rest o
          | .error fault => scanString start fuel (Spelling.fail fault spelling) rest o
        else scanString start fuel (Spelling.push (Char.ofNat unit) spelling) rest o
    | '\\' :: c :: rest =>
      match simpleEscape c with
      | some c => scanString start fuel (Spelling.push c spelling) rest (o + 2)
      | none =>
        brokenString start spelling (.on .badEscape (o + 2)) (.on .badEscape (o + 2))
    | c :: rest =>
      if c.toNat < 0x20 then
        brokenString start spelling (.on .controlCharacter (o + 1)) (.on .controlCharacter o)
      else scanString start fuel (Spelling.push c spelling) rest (o + c.utf8Size)

def scanText (cs : List Char) (start : Nat) : Lexeme String × List Char × Nat :=
  scanString start (cs.length + 1) (.ok []) cs (start + 1)

-- The letters of a word after its first; a wrong one is counted as read.
def scanWord : List Char → List Char → Nat → Except Fault (List Char × Nat)
  | [], cs, o => .ok (cs, o)
  | _, [], o => .error (.on .unfinishedValue o)
  | w :: word, c :: cs, o =>
    if w = c then scanWord word cs (o + 1) else .error (.on .expectedWord (o + 1))

def scanNamed (word : List Char) (make : Nat → Nat → Doc) (cs : List Char) (start : Nat) :
    Doc × List Char × Nat :=
  match scanWord word cs (start + 1) with
  | .ok (rest, stop) => (make start stop, rest, stop)
  | .error fault => (.broken start fault, [], start)

-- A colon, or the fault of its absence.
def scanColon (cs : List Char) (o : Nat) : Option Fault × List Char × Nat :=
  match cs with
  | ':' :: rest => (none, rest, o + 1)
  | [] => (some (.on .unfinishedObject o), [], o)
  | _ => (some (.peeking .expectedColon o), [], o)

mutual
-- `level` counts the containers around the value.
def scanValue : Nat → Nat → List Char → Nat → Doc × List Char × Nat
  | 0, _, cs, o => (.absent o, cs, o)
  | fuel + 1, level, cs, o =>
    match skipSpace cs o with
    | ([], o) => (.absent o, [], o)
    | ('n' :: rest, o) => scanNamed ['u', 'l', 'l'] Doc.null rest o
    | ('t' :: rest, o) => scanNamed ['r', 'u', 'e'] (Doc.bool true) rest o
    | ('f' :: rest, o) => scanNamed ['a', 'l', 's', 'e'] (Doc.bool false) rest o
    | ('"' :: rest, o) =>
      let (lexeme, rest, stop) := scanText rest o
      (.string lexeme, rest, stop)
    | ('[' :: rest, o) =>
      let (items, rest, stop) := scanItems fuel (level + 1) rest (o + 1)
      (.array o (level + 1) items, rest, stop)
    | ('\x7b' :: rest, o) =>
      let (fields, rest, stop) := scanFields fuel (level + 1) rest (o + 1)
      (.object o (level + 1) fields, rest, stop)
    | (c :: rest, o) =>
      if c.isDigit ∨ c = '-' then
        let (lexeme, rest, stop) := scanNumber (c :: rest) o
        (.number lexeme, rest, stop)
      else (.broken o (.peeking .expectedValue o), [], o)

-- The items after the opening bracket.
def scanItems : Nat → Nat → List Char → Nat → Items × List Char × Nat
  | 0, _, cs, o => (.unclosed o, cs, o)
  | fuel + 1, level, cs, o =>
    match skipSpace cs o with
    | ([], o) => (.unclosed o, [], o)
    | (']' :: rest, o) => (.closed (o + 1), rest, o + 1)
    | (cs, o) => scanItem fuel level cs o

def scanItem : Nat → Nat → List Char → Nat → Items × List Char × Nat
  | 0, _, cs, o => (.unclosed o, cs, o)
  | fuel + 1, level, cs, start =>
    let (value, rest, o) := scanValue fuel level cs start
    let (items, rest, o) := scanMoreItems fuel level rest o
    (.item start value items, rest, o)

def scanMoreItems : Nat → Nat → List Char → Nat → Items × List Char × Nat
  | 0, _, cs, o => (.unclosed o, cs, o)
  | fuel + 1, level, cs, o =>
    match skipSpace cs o with
    | ([], o) => (.unclosed o, [], o)
    | (']' :: rest, o) => (.closed (o + 1), rest, o + 1)
    | (',' :: rest, o) =>
      match skipSpace rest (o + 1) with
      | ([], o) => (.dangling o true, [], o)
      | (']' :: _, o) => (.dangling o false, [], o)
      | (cs, o) => scanItem fuel level cs o
    | (_, o) => (.stray o, [], o)

-- The fields after the opening brace.
def scanFields : Nat → Nat → List Char → Nat → Fields × List Char × Nat
  | 0, _, cs, o => (.unclosed o, cs, o)
  | fuel + 1, level, cs, o =>
    match skipSpace cs o with
    | ([], o) => (.unclosed o, [], o)
    | ('\x7d' :: rest, o) => (.closed (o + 1), rest, o + 1)
    | (cs, o) => scanField fuel level o cs o

def scanField : Nat → Nat → Nat → List Char → Nat → Fields × List Char × Nat
  | 0, _, _, cs, o => (.unclosed o, cs, o)
  | fuel + 1, level, comma, cs, start =>
    match cs with
    | '"' :: rest =>
      let (name, rest, o) := scanText rest start
      let (rest, o) := skipSpace rest o
      let settled := if rest.head? = some '\x7d' then o + 1 else o
      let (colon, rest, o) := scanColon rest o
      let (value, rest, o) := scanValue fuel level rest o
      let (fields, rest, o) := scanMoreFields fuel level rest o
      (.field comma name settled colon value fields, rest, o)
    | _ => (.nameless comma start, [], start)

def scanMoreFields : Nat → Nat → List Char → Nat → Fields × List Char × Nat
  | 0, _, cs, o => (.unclosed o, cs, o)
  | fuel + 1, level, cs, o =>
    match skipSpace cs o with
    | ([], o) => (.unclosed o, [], o)
    | ('\x7d' :: rest, o) => (.closed (o + 1), rest, o + 1)
    | (',' :: rest, o) =>
      match skipSpace rest (o + 1) with
      | ([], o') => (.dangling o o' true, [], o')
      | ('\x7d' :: _, o') => (.dangling o o' false, [], o')
      | (cs, o') => scanField fuel level o cs o'
    | (_, o) => (.stray o, [], o)
end

-- A text holds one value; `trailing` is where something else follows it.
structure Scan where
  root : Doc
  trailing : Option Nat

def scan (text : String) : Scan :=
  let cs := text.toList
  let (root, rest, o) := scanValue (3 * cs.length + 3) 0 cs 0
  match skipSpace rest o with
  | ([], _) => ⟨root, none⟩
  | (_, o) => ⟨root, some o⟩

end Patchbay.Json

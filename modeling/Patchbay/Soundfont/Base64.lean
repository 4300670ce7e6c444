namespace Patchbay.Base64

inductive Fault where
  | symbol (code offset : Nat)
  | length (n : Nat)
  | lastSymbol (code offset : Nat)
  | padding
  deriving DecidableEq

def Fault.message : Fault → String
  | .symbol code offset => s!"Invalid symbol {code}, offset {offset}."
  | .length n => s!"Invalid input length: {n}"
  | .lastSymbol code offset => s!"Invalid last symbol {code}, offset {offset}."
  | .padding => "Invalid padding"

def alphabet : List Char :=
  "ABCDEFGHIJKLMNOPQRSTUVWXYZabcdefghijklmnopqrstuvwxyz0123456789+/".toList

def pad : UInt8 := 61

-- The six bits a symbol stands for.
def value? (b : UInt8) : Option Nat :=
  if 65 ≤ b && b ≤ 90 then some (b.toNat - 65)
  else if 97 ≤ b && b ≤ 122 then some (b.toNat - 71)
  else if 48 ≤ b && b ≤ 57 then some (b.toNat + 4)
  else if b == 43 then some 62
  else if b == 47 then some 63
  else none

def symbol (b : UInt8) (offset : Nat) : Except Fault Nat :=
  match value? b with
  | some n => .ok n
  | none => .error (.symbol b.toNat offset)

def threeBytes (a b c d : Nat) : List UInt8 :=
  [UInt8.ofNat (a * 4 + b / 16), UInt8.ofNat (b % 16 * 16 + c / 4), UInt8.ofNat (c % 4 * 64 + d)]

-- Symbols up to the padding, each with its code, and how many signs of padding follow.
structure Ending where
  symbols : List (Nat × Nat)
  padding : Nat
  firstPad : Nat

-- Padding may stand only behind two symbols, and nothing may stand behind it.
def readEnding (start : Nat) : Nat → Ending → List UInt8 → Except Fault Ending
  | _, ending, [] => .ok ending
  | i, ending, b :: rest =>
    if b == pad then
      if i < 2 then .error (.symbol b.toNat (start + i))
      else
        readEnding start (i + 1)
          { ending with
            padding := ending.padding + 1
            firstPad := if ending.padding = 0 then i else ending.firstPad } rest
    else if ending.padding ≠ 0 then .error (.symbol pad.toNat (start + ending.firstPad))
    else
      match symbol b (start + i) with
      | .error fault => .error fault
      | .ok n =>
        readEnding start (i + 1) { ending with symbols := ending.symbols ++ [(n, b.toNat)] } rest

-- The last four symbols or fewer.
def decodeEnding (start : Nat) (bytes : List UInt8) : Except Fault (List UInt8) := do
  if bytes.isEmpty then return []
  let ending ← readEnding start 0 ⟨[], 0, 0⟩ bytes
  let count := ending.symbols.length
  if count < 2 then throw (.length (start + count))
  if (ending.padding + count) % 4 ≠ 0 then throw .padding
  match ending.symbols with
  | [(a, _), (b, code)] =>
    if b % 16 ≠ 0 then throw (.lastSymbol code (start + 1))
    else return (threeBytes a b 0 0).take 1
  | [(a, _), (b, _), (c, code)] =>
    if c % 4 ≠ 0 then throw (.lastSymbol code (start + 2))
    else return (threeBytes a b c 0).take 2
  | [(a, _), (b, _), (c, _), (d, _)] => return threeBytes a b c d
  | _ => return []

-- Whole groups of four symbols, while something follows them.
def decodeFrom (start : Nat) : List UInt8 → Except Fault (List UInt8)
  | a :: b :: c :: d :: e :: rest => do
    let a ← symbol a start
    let b ← symbol b (start + 1)
    let c ← symbol c (start + 2)
    let d ← symbol d (start + 3)
    return threeBytes a b c d ++ (← decodeFrom (start + 4) (e :: rest))
  | ending => decodeEnding start ending

-- A single symbol too many is looked at first, as it often is a line end.
def decode (bytes : List UInt8) : Except Fault (List UInt8) :=
  match bytes.getLast? with
  | some b =>
    if bytes.length % 4 = 1 && b != pad && (value? b).isNone then
      .error (.symbol b.toNat (bytes.length - 1))
    else decodeFrom 0 bytes
  | none => .ok []

end Patchbay.Base64

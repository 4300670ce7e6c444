import Patchbay.Decimal.Shortest

namespace Patchbay.Decimal

-- The point of a decimal is the power of ten it lies below: `digits * 10 ^ exponent` is
-- `0.digits * 10 ^ point`.
structure Layout where
  tie : Tie
  -- The points between which a value is written without an exponent; none for all of them.
  positional : Option (Int × Int)
  wholePoint : Bool
  plusExponent : Bool

namespace Numeral

def text (d : Numeral) : String := toString d.digits

def point (d : Numeral) : Int := d.text.length + d.exponent

end Numeral

def zeros (n : Nat) : String := String.ofList (List.replicate n '0')

-- The point falls after the digits, before them or among them.
def positionalText (wholePoint : Bool) (d : Numeral) : String :=
  let digits := d.text
  let point := d.point
  if 0 ≤ d.exponent then
    digits ++ zeros d.exponent.toNat ++ (if wholePoint then ".0" else "")
  else if point ≤ 0 then
    "0." ++ zeros (-point).toNat ++ digits
  else
    let cs := digits.toList
    String.ofList (cs.take point.toNat) ++ "." ++ String.ofList (cs.drop point.toNat)

def exponentText (plusExponent : Bool) (d : Numeral) : String :=
  let power := d.point - 1
  let sign := if plusExponent && decide (0 ≤ power) then "+" else ""
  let digits := match d.text.toList with
    | [] => ""
    | [c] => String.ofList [c]
    | c :: rest => String.ofList (c :: '.' :: rest)
  digits ++ "e" ++ sign ++ toString power

def Layout.positive (layout : Layout) (d : Numeral) : String :=
  match layout.positional with
  | none => positionalText layout.wholePoint d
  | some (least, most) =>
    if least ≤ d.point ∧ d.point ≤ most then positionalText layout.wholePoint d
    else exponentText layout.plusExponent d

def Layout.render (layout : Layout) (x : Float) : String :=
  if x.isNaN then "NaN"
  else
    let bits := x.toBits
    let sign := if bits >>> 63 == 1 then "-" else ""
    let magnitude := bits &&& 0x7FFFFFFFFFFFFFFF
    if x.isInf then sign ++ "inf"
    else if magnitude == 0 then sign ++ (if layout.wholePoint then "0.0" else "0")
    else sign ++ layout.positive (shortest layout.tie (Binary.ofBits magnitude))

-- A number inside a sentence: never an exponent, and no point on whole values.
def Layout.plain : Layout :=
  { tie := .up, positional := none, wholePoint := false, plusExponent := false }

-- A number in JSON text.
def Layout.json : Layout :=
  { tie := .even, positional := some (-4, 16), wholePoint := true, plusExponent := true }

-- A number in a listing of a value's fields.
def Layout.listing : Layout :=
  { tie := .up, positional := some (-3, 16), wholePoint := true, plusExponent := false }

def plain (x : Float) : String := Layout.plain.render x

end Patchbay.Decimal

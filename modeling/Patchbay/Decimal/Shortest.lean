namespace Patchbay.Decimal

-- A positive finite double, `significand * 2 ^ exponent`. At a power of two the gap below is half
-- the gap above.
structure Binary where
  significand : Nat
  exponent : Int
  narrowBelow : Bool

-- A decimal, `digits * 10 ^ exponent`.
structure Numeral where
  digits : Nat
  exponent : Int
  deriving DecidableEq, Repr

-- Which of two equally near candidates is taken.
inductive Tie where
  | even
  | up
  deriving DecidableEq, Repr

namespace Binary

def ofBits (bits : UInt64) : Binary :=
  let field := ((bits >>> 52) &&& 0x7FF).toNat
  let fraction := (bits &&& 0xFFFFFFFFFFFFF).toNat
  if field = 0 then ⟨fraction, -1074, false⟩
  else ⟨0x10000000000000 + fraction, (field : Int) - 1075, fraction == 0 && field > 1⟩

-- `a * 10 ^ i` against `b * 2 ^ j`, in whole numbers.
def compareScaled (a : Nat) (i : Int) (b : Nat) (j : Int) : Ordering :=
  compare (a * Nat.pow 10 i.toNat * Nat.pow 2 (-j).toNat)
    (b * Nat.pow 2 j.toNat * Nat.pow 10 (-i).toNat)

-- The interval is measured in quarters of the gap above, so that both of its ends are whole.
def readsBack (x : Binary) (d : Numeral) : Bool :=
  let closed := x.significand % 2 == 0
  let below := if x.narrowBelow then 1 else 2
  let low := compareScaled d.digits d.exponent (4 * x.significand - below) (x.exponent - 2)
  let high := compareScaled d.digits d.exponent (4 * x.significand + 2) (x.exponent - 2)
  (low == .gt || closed && low == .eq) && (high == .lt || closed && high == .eq)

-- The value as a fraction of the grid `10 ^ grid`.
def onGrid (x : Binary) (grid : Int) : Nat × Nat :=
  (x.significand * Nat.pow 2 x.exponent.toNat * Nat.pow 10 (-grid).toNat,
    Nat.pow 2 (-x.exponent).toNat * Nat.pow 10 grid.toNat)

-- The least `k` with `x < 10 ^ k`. The binary logarithm gives it but for two steps.
def scale (x : Binary) : Int :=
  let start := ((x.significand.log2 : Int) + x.exponent) * 30103 / 100000
  let fits (k : Int) : Bool := compareScaled 1 k x.significand x.exponent == .gt
  if fits start then start else if fits (start + 1) then start + 1 else start + 2

-- The neighbours of the value on a grid that read back as it; of two the nearer.
def candidate (tie : Tie) (x : Binary) (grid : Int) : Option Numeral :=
  let (top, bottom) := x.onGrid grid
  let floor : Nat := top / bottom
  let lower : Numeral := ⟨floor, grid⟩
  let upper : Numeral := ⟨floor + 1, grid⟩
  match x.readsBack lower, x.readsBack upper with
  | true, false => some lower
  | false, true => some upper
  | false, false => none
  | true, true =>
    match compare (2 * (top - floor * bottom)) bottom with
    | .lt => some lower
    | .gt => some upper
    | .eq => if tie = .even ∧ floor % 2 = 0 then some lower else some upper

end Binary

namespace Numeral

-- Trailing zeros move into the exponent, at most `fuel` of them.
def strip : Nat → Numeral → Numeral
  | 0, d => d
  | fuel + 1, d =>
    if d.digits % 10 = 0 ∧ d.digits ≠ 0 then strip fuel ⟨d.digits / 10, d.exponent + 1⟩ else d

end Numeral

-- Seventeen digits always suffice; past them the value itself would be given, digit for digit.
def shortest (tie : Tie) (x : Binary) : Numeral :=
  let k := x.scale
  let found := (List.range 17).findSome? fun n : Nat => x.candidate tie (k - 1 - n)
  match found with
  | some d => d.strip 17
  | none =>
    ⟨x.significand * Nat.pow 2 x.exponent.toNat * Nat.pow 5 (-x.exponent).toNat, min 0 x.exponent⟩

end Patchbay.Decimal

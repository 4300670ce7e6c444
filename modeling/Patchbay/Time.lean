namespace Patchbay

namespace Time

-- The greater of two times or lengths; one that is not a number gives way to the other.
def later (x y : Float) : Float :=
  if x.isNaN then y else if y.isNaN then x else if x < y then y else x

def earlier (x y : Float) : Float :=
  if x.isNaN then y else if y.isNaN then x else if y < x then y else x

-- Strict order of times. Of the two zeros the negative one comes first.
def precedes (x y : Float) : Bool :=
  x < y || (x == y && x.toBits >>> 63 == 1 && y.toBits >>> 63 == 0)

def given (t : Option Float) : Float :=
  match t with
  | some t => if t.isNaN then 0 else t
  | none => 0

-- Nothing is scheduled before the present; a delay counts from the later of the two.
def resolve (time delay : Option Float) (now : Float) : Float :=
  later now (given time) + given delay

def after (delay now : Float) : Float := resolve none (some delay) now

-- Rounded to the nearest sample; what does not fit a 64-bit count takes the nearest end.
def samples (seconds rate : Float) : Nat := (seconds * rate).round.toUInt64.toNat

end Time

end Patchbay

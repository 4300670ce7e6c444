import Patchbay.Keyed

namespace Patchbay

inductive Number where
  | whole (n : Nat)
  -- The number `-n`, for a positive `n`.
  | negative (n : Nat)
  | real (x : Float)

inductive Json where
  | null
  | bool (b : Bool)
  | number (n : Number)
  | string (s : String)
  | array (items : List Json)
  | object (fields : List (String × Json))

def Number.toFloat : Number → Float
  | .whole n => Float.ofNat n
  | .negative n => -Float.ofNat n
  | .real x => x

namespace Json

def ofNat (n : Nat) : Json := .number (.whole n)

def ofInt : Int → Json
  | .ofNat n => .number (.whole n)
  | .negSucc n => .number (.negative (n + 1))

def real (x : Float) : Json := .number (.real x)

def ofOption (write : α → Json) : Option α → Json
  | none => .null
  | some a => write a

-- Fields in the order of their names, the last of equal ones.
def sorted (fields : List (String × Json)) : List (String × Json) := Keyed.ofList fields

def get? (name : String) : Json → Option Json
  | .object fields => (fields.reverse.find? fun (key, _) => key == name).map Prod.snd
  | _ => none

end Json

end Patchbay

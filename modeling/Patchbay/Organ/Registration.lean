import Patchbay.Level
import Patchbay.Text.Basic

namespace Patchbay

structure Registration where
  bars : List Nat
  deriving DecidableEq

namespace Registration

inductive Fault where
  | badDrawbar (c : Char) (text : String)
  | tooManyDrawbars (text : String)

def Fault.message : Fault → String
  | .badDrawbar c text => "bad drawbar `" ++ String.ofList [c] ++ "` in `" ++ text ++ "`"
  | .tooManyDrawbars text => "too many drawbars in `" ++ text ++ "`"

def count : Nat := 9

def bar? (c : Char) : Option Nat := if '0' ≤ c ∧ c ≤ '8' then some (c.toNat - 48) else none

-- The bars are read from left to right; `bars` holds those already read.
def readBars (text : String) : List Nat → List Char → Except Fault (List Nat)
  | bars, [] => .ok bars
  | bars, c :: rest =>
    match bar? c with
    | none => .error (.badDrawbar c text)
    | some n =>
      if count ≤ bars.length then .error (.tooManyDrawbars text)
      else readBars text (bars ++ [n]) rest

-- Blanks count for nothing; bars that are not given are pushed in.
def parse (text : String) : Except Fault Registration := do
  let bars ← readBars text [] (text.toList.filter fun c => !Text.isBlank c)
  return ⟨bars ++ List.replicate (count - bars.length) 0⟩

def presets : List (String × String) := [
  ("gospel", "88 8000 008"), ("blues", "88 8800 000"), ("bluesB", "88 5324 588"),
  ("booker", "88 8630 000"), ("onions", "80 8800 008"), ("smith", "88 8000 000"),
  ("mcgriff", "86 8600 006"), ("errol", "80 0008 888"), ("genesis", "33 6866 330")]

def preset? (name : String) : Option Registration :=
  match presets.lookup name with
  | none => none
  | some text => (parse text).toOption

-- Each step below 8 is three decibels less.
def gain (bar : Nat) : Float :=
  if bar = 0 then 0 else Level.ofDecibels (-3.0 * Float.ofNat (8 - bar))

def gains (r : Registration) : List Float := r.bars.map gain

-- The frequencies of the bars, against that of the third.
def ratios : List Float :=
  [0.5, 1.498823530, 1.0, 2.0, 2.997647060, 4.0, 5.040941178, 5.995294120, 8.0]

end Registration

end Patchbay

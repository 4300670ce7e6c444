namespace Patchbay.Pitch

def letterSemitone (c : Char) : Option Int32 :=
  match c.toUpper with
  | 'C' => some 0
  | 'D' => some 2
  | 'E' => some 4
  | 'F' => some 5
  | 'G' => some 7
  | 'A' => some 9
  | 'B' => some 11
  | _ => none

-- The sharps and flats at the head move the semitone one by one; what follows them is left.
def accidentals (semitone : Int32) : List Char → Int32 × List Char
  | '#' :: rest => accidentals (semitone + 1) rest
  | 'b' :: rest => accidentals (semitone - 1) rest
  | cs => (semitone, cs)

def decimalValue (digits : List Char) : Nat :=
  digits.foldl (fun n c => n * 10 + (c.toNat - '0'.toNat)) 0

def digits? (cs : List Char) : Option Nat :=
  if cs.isEmpty || !cs.all Char.isDigit then none else some (decimalValue cs)

-- A sign or none, then at least one digit; a number past 32 bits is refused.
def octave? (cs : List Char) : Option Int32 :=
  let value := match cs with
    | '-' :: rest => (digits? rest).map fun n : Nat => -(n : Int)
    | '+' :: rest => (digits? rest).map fun n : Nat => (n : Int)
    | cs => (digits? cs).map fun n : Nat => (n : Int)
  (value.filter fun n => decide (-0x80000000 ≤ n ∧ n < 0x80000000)).map Int32.ofInt

-- Note 60 is `C4`. The octave is small enough by itself, but the sums wrap around in 32 bits.
def noteNumber (name : String) : Option Int32 :=
  match name.toList with
  | [] => none
  | letter :: rest => do
    let semitone ← letterSemitone letter
    let (semitone, rest) := accidentals semitone rest
    let octave ← octave? rest
    return (octave + 1) * 12 + semitone

def names : List String := ["C", "Db", "D", "Eb", "E", "F", "Gb", "G", "Ab", "A", "Bb", "B"]

-- Black keys are spelled as flats.
def noteName (note : Int) : String :=
  names.getD (note % 12).toNat "" ++ toString (note / 12 - 1)

-- `tuning` is the frequency of note 69.
def frequency (note tuning : Float) : Float := tuning * Float.pow 2.0 ((note - 69.0) / 12.0)

def ofFrequency (frequency tuning : Float) : Float := 69.0 + 12.0 * (frequency / tuning).log2

def concert : Float := 440.0

def noteFrequency (name : String) : Option Float :=
  (noteNumber name).map fun note => frequency (Float.ofInt note.toInt) concert

def detuned (frequency cents : Float) : Float := frequency * Float.pow 2.0 (cents / 1200.0)

end Patchbay.Pitch

import Patchbay.Json.Fault
import Patchbay.Warning

namespace Patchbay.Json

-- Warnings given before a failure stay given.
abbrev Decode (α : Type) := EStateM Fault (List Warning) α

namespace Decode

variable {α : Type}

def fail (reason : Reason) : Decode α := throw (.unplaced reason)

def warn (warning : Warning) : Decode Unit := modify (· ++ [warning])

-- A fault without a place gets this one.
def placed (offset : Nat) (read : Decode α) : Decode α := fun warnings =>
  match read warnings with
  | .ok a warnings => .ok a warnings
  | .error fault warnings => .error (fault.placed offset) warnings

def attempt (read : Decode α) : Decode (Option α) := fun warnings =>
  match read warnings with
  | .ok a warnings => .ok (some a) warnings
  | .error _ warnings => .ok none warnings

def refuse (fault : Option Fault) : Decode Unit :=
  match fault with
  | none => pure ()
  | some fault => throw fault

end Decode

structure Field (δ α : Type) where
  name : String
  aliases : List String
  required : Bool
  read : δ → Decode (α → α)

namespace Field

variable {δ α β : Type}

def optional (name : String) (read : δ → Decode β) (set : β → α → α) : Field δ α :=
  ⟨name, [], false, fun d => set <$> read d⟩

def needed (name : String) (read : δ → Decode β) (set : β → α → α) : Field δ α :=
  ⟨name, [], true, fun d => set <$> read d⟩

def also (other : String) (field : Field δ α) : Field δ α :=
  { field with aliases := field.aliases ++ [other] }

def answers (key : String) (field : Field δ α) : Bool :=
  field.name == key || field.aliases.contains key

end Field

def firstMissing (table : List (Field δ α)) (seen : List String) : Option String :=
  (table.find? fun field => field.required && !seen.contains field.name).map Field.name

-- What can be read: text in place, a value set aside while its text was read, or one from elsewhere.
-- They differ in where their faults are placed and in what they say of items that nobody asked for.
class Source (δ : Type) where
  float : δ → Decode Float
  bool : δ → Decode Bool
  text : δ → Decode String
  option {α : Type} : (δ → Decode α) → δ → Decode (Option α)
  list {α : Type} : (δ → Decode α) → δ → Decode (List α)
  triple {α β γ : Type} : (δ → Decode α) → (δ → Decode β) → (δ → Decode γ) → δ → Decode (α × β × γ)
  -- One of several names.
  choice {α : Type} : List (String × α) → δ → Decode α
  -- Fields by name, or in the order of the table.
  record {α : Type} : String → List (Field δ α) → α → δ → Decode α
  -- Fields by name, and what else is there for another reader.
  openRecord {α : Type} : String → List (Field δ α) → α →
    (α → List (String × Json) → Decode α) → δ → Decode α
  keep : δ → Decode Json

def tripleExpected : String := "a tuple of size 3"

def chooseName (choices : List (String × α)) (name : String) : Decode α :=
  match choices.find? fun (spelling, _) => spelling == name with
  | some (_, a) => pure a
  | none => Decode.fail (.unknownVariant name (choices.map Prod.fst))

def found : Json → Found
  | .null => .null
  | .bool b => .bool b
  | .number n => .number n
  | .string s => .text s
  | .array _ => .sequence
  | .object _ => .map

def mismatch (json : Json) (expected : String) : Decode α :=
  Decode.fail (.mismatch (found json) expected)

def readFloat : Json → Decode Float
  | .number n => pure n.toFloat
  | json => mismatch json "f64"

def readBool : Json → Decode Bool
  | .bool b => pure b
  | json => mismatch json "a boolean"

def readText : Json → Decode String
  | .string s => pure s
  | json => mismatch json "a string"

-- What is said of items past the last one wanted: how many were read, and how many there are.
abbrev Excess := Nat → Nat → Reason

def readEntries (table : List (Field δ α)) (seen : List String) (draft : α) :
    List (String × δ) → Decode α
  | [] =>
    match firstMissing table seen with
    | some name => Decode.fail (.missingField name)
    | none => pure draft
  | (key, d) :: rest =>
    match table.find? (Field.answers key) with
    | none => readEntries table seen draft rest
    | some field =>
      if seen.contains field.name then Decode.fail (.duplicateField field.name)
      else do
        let set ← field.read d
        readEntries table (field.name :: seen) (set draft) rest

def readPositions (excess : Excess) (expected : String) :
    List (Field δ α) → Nat → α → List δ → Decode α
  | [], _, draft, [] => pure draft
  | [], i, _, extra => Decode.fail (excess i (i + extra.length))
  | field :: table, i, draft, [] =>
    if field.required then Decode.fail (.badLength i expected)
    else readPositions excess expected table (i + 1) draft []
  | field :: table, i, draft, d :: rest => do
    let set ← field.read d
    readPositions excess expected table (i + 1) (set draft) rest

def readTriple (excess : Excess) (first : δ → Decode α) (second : δ → Decode β)
    (third : δ → Decode γ) : List δ → Decode (α × β × γ)
  | [] => Decode.fail (.badLength 0 tripleExpected)
  | [a] => do
    let _ ← first a
    Decode.fail (.badLength 1 tripleExpected)
  | [a, b] => do
    let _ ← first a
    let _ ← second b
    Decode.fail (.badLength 2 tripleExpected)
  | a :: b :: c :: extra => do
    let a ← first a
    let b ← second b
    let c ← third c
    if extra.isEmpty then return (a, b, c) else Decode.fail (excess 3 (3 + extra.length))

-- The names in the table go to it, the others are left for the second reader.
def splitEntries (table : List (Field δ α)) (entries : List (String × Json)) :
    List (String × Json) × List (String × Json) :=
  entries.partition fun (key, _) => table.any (Field.answers key)

-- A value set aside while its text was read.
structure Kept where
  json : Json

def Kept.excess : Excess := fun read total =>
  .badLength total (if read = 1 then "1 element in sequence" else
    toString read ++ " elements in sequence")

def Kept.entries (fields : List (String × Json)) : List (String × Kept) :=
  fields.map fun (key, json) => (key, ⟨json⟩)

instance : Source Kept where
  float d := readFloat d.json
  bool d := readBool d.json
  text d := readText d.json
  option read
    | ⟨.null⟩ => pure none
    | d => some <$> read d
  list read
    | ⟨.array items⟩ => items.mapM fun json => read ⟨json⟩
    | ⟨json⟩ => mismatch json "a sequence"
  triple first second third
    | ⟨.array items⟩ => readTriple Kept.excess first second third (items.map Kept.mk)
    | ⟨json⟩ => mismatch json tripleExpected
  choice choices
    | ⟨.string name⟩ => chooseName choices name
    | ⟨.object [(name, content)]⟩ => do
      let a ← chooseName choices name
      match content with
      | .null | .object [] => return a
      | content => mismatch content "unit"
    | ⟨.object _⟩ => Decode.fail (.badValue .map "map with a single key")
    | ⟨json⟩ => mismatch json "string or map"
  record expected table base
    | ⟨.object fields⟩ => readEntries table [] base (Kept.entries fields)
    | ⟨.array items⟩ => readPositions Kept.excess expected table 0 base (items.map Kept.mk)
    | ⟨json⟩ => mismatch json expected
  openRecord expected table base finish
    | ⟨.object fields⟩ => do
      let (given, others) := splitEntries table fields
      let a ← readEntries table [] base (Kept.entries given)
      finish a others
    | ⟨json⟩ => mismatch json expected
  keep d := pure d.json

-- A value that stands on its own. Its fields are taken in the order of their names, and of equal
-- ones only the last is there.
structure Settled where
  json : Json

def Settled.excess : Excess := fun _ total => .badLength total "fewer elements in array"

def Settled.entries (fields : List (String × Json)) : List (String × Settled) :=
  (sorted fields).map fun (key, json) => (key, ⟨json⟩)

instance : Source Settled where
  float d := readFloat d.json
  bool d := readBool d.json
  text d := readText d.json
  option read
    | ⟨.null⟩ => pure none
    | d => some <$> read d
  list read
    | ⟨.array items⟩ => items.mapM fun json => read ⟨json⟩
    | ⟨json⟩ => mismatch json "a sequence"
  triple first second third
    | ⟨.array items⟩ => readTriple Settled.excess first second third (items.map Settled.mk)
    | ⟨json⟩ => mismatch json tripleExpected
  choice choices
    | ⟨.string name⟩ => chooseName choices name
    | ⟨.object fields⟩ =>
      match sorted fields with
      | [(name, content)] => do
        let a ← chooseName choices name
        match content with
        | .null => return a
        | content => mismatch content "unit"
      | _ => Decode.fail (.badValue .map "map with a single key")
    | ⟨json⟩ => mismatch json "string or map"
  record expected table base
    | ⟨.object fields⟩ => readEntries table [] base (Settled.entries fields)
    | ⟨.array items⟩ => readPositions Settled.excess expected table 0 base (items.map Settled.mk)
    | ⟨json⟩ => mismatch json expected
  openRecord expected table base finish
    | ⟨.object fields⟩ => do
      let (given, others) := splitEntries table (sorted fields)
      let a ← readEntries table [] base (Settled.entries given)
      finish a others
    | ⟨json⟩ => mismatch json expected
  keep d := pure d.json

end Patchbay.Json

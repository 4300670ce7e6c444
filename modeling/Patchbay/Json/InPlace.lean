import Patchbay.Json.Decode
import Patchbay.Json.Scan

namespace Patchbay.Json

variable {α β γ : Type}

def Doc.mismatch (expected : String) : Doc → Fault
  | .absent start => .on .unfinishedValue start
  | .broken _ fault => fault
  | .null _ stop => .on (.mismatch .null expected) stop
  | .bool b _ stop => .on (.mismatch (.bool b) expected) stop
  | .number lexeme =>
    match lexeme.value with
    | .ok n => .on (.mismatch (.number n) expected) lexeme.stop
    | .error fault => fault
  | .string lexeme =>
    match lexeme.value with
    | .ok s => .on (.mismatch (.text s) expected) lexeme.stop
    | .error fault => fault
  | .array start _ _ => .on (.mismatch .sequence expected) start
  | .object start _ _ => .on (.mismatch .map expected) start

def liftExcept : Except Fault α → Decode α
  | .ok a => pure a
  | .error fault => throw fault

def guardDepth (start level : Nat) : Decode Unit :=
  if depthLimit < level then throw (.peeking .tooDeep start) else pure ()

def Items.collect (read : Doc → Decode α) : Items → Decode (List α)
  | .item _ value rest => do
    let a ← Decode.placed rest.mark (read value)
    return a :: (← rest.collect read)
  | items => do
    Decode.refuse items.ending
    return []

-- The next item and what follows it; none at the end of the list.
def Items.next (read : Doc → Decode α) : Items → Decode (Option α × Items)
  | .item _ value rest => do
    let a ← Decode.placed rest.mark (read value)
    return (some a, rest)
  | items => do
    Decode.refuse items.ending
    return (none, items)

def Items.positions : List (Field Doc α) → α → Items → Decode α
  | [], draft, items => do
    Decode.refuse items.overrun
    return draft
  | field :: table, draft, items => do
    let (set, rest) ← items.next field.read
    Items.positions table ((set.getD id) draft) rest

def Items.demand (read : Doc → Decode α) (i : Nat) (items : Items) : Decode (α × Items) := do
  let (a, rest) ← items.next read
  match a with
  | some a => return (a, rest)
  | none => throw (.on (.badLength i tripleExpected) rest.mark)

-- `other` is what becomes of fields that are not in the table.
def Fields.entries (table : List (Field Doc α)) (other : Doc → Except Fault (Option Json)) :
    List String → α → List (String × Json) → Fields → Decode (α × List (String × Json) × Nat)
  | seen, draft, others, .field _ name settled colon value rest => do
    let key ← liftExcept name.value
    match table.find? (Field.answers key) with
    | none =>
      Decode.refuse colon
      let json ← liftExcept (other value)
      rest.entries table other seen draft (others ++ (json.map (key, ·)).toList)
    | some wanted =>
      if seen.contains wanted.name then throw (.on (.duplicateField wanted.name) settled)
      else
        Decode.refuse colon
        let set ← Decode.placed rest.mark (wanted.read value)
        rest.entries table other (wanted.name :: seen) (set draft) others
  | seen, draft, others, fields => do
    Decode.refuse fields.ending
    match firstMissing table seen with
    | some name => throw (.on (.missingField name) fields.mark)
    | none => return (draft, others, fields.mark)

-- Unwanted values are passed over.
def passOver (value : Doc) : Except Fault (Option Json) :=
  match value.skip with
  | none => .ok none
  | some fault => .error fault

def setAside (value : Doc) : Except Fault (Option Json) := value.keep.map some

-- After a name that stands for itself only its empty content and the closing brace may follow.
def Fields.closeChoice : Fields → Decode Unit
  | .closed _ => pure ()
  | .unclosed start => throw (.on .unfinishedObject start)
  | fields => throw (.on .expectedValue fields.mark)

def Doc.choice (choices : List (String × α)) : Doc → Decode α
  | .absent start => throw (.on .unfinishedValue start)
  | .string lexeme => do
    let name ← liftExcept lexeme.value
    Decode.placed lexeme.stop (chooseName choices name)
  | .object start level fields => do
    guardDepth start level
    match fields with
    | .field _ name _ colon value rest =>
      let spelling ← liftExcept name.value
      let a ← Decode.placed name.stop (chooseName choices spelling)
      Decode.refuse colon
      match value with
      | .null _ _ => rest.closeChoice
      | value => throw (value.mismatch "unit")
      return a
    | .nameless _ start => throw (.peeking .keyNotText start)
    | .unclosed start => throw (.on .unfinishedObject start)
    | fields => throw (.on .expectedValue fields.mark)
  | doc => throw (.peeking .expectedValue doc.start)

instance : Source Doc where
  float
    | .number lexeme => do return (← liftExcept lexeme.value).toFloat
    | doc => throw (doc.mismatch "f64")
  bool
    | .bool b _ _ => pure b
    | doc => throw (doc.mismatch "a boolean")
  text
    | .string lexeme => liftExcept lexeme.value
    | doc => throw (doc.mismatch "a string")
  option read
    | .null _ _ => pure none
    | doc => some <$> read doc
  list read
    | .array start level items => do
      guardDepth start level
      items.collect read
    | doc => throw (doc.mismatch "a sequence")
  triple first second third
    | .array start level items => do
      guardDepth start level
      let (a, items) ← items.demand first 0
      let (b, items) ← items.demand second 1
      let (c, items) ← items.demand third 2
      Decode.refuse items.overrun
      return (a, b, c)
    | doc => throw (doc.mismatch tripleExpected)
  choice choices doc := doc.choice choices
  record expected table base
    | .object start level fields => do
      guardDepth start level
      let (a, _) ← fields.entries table passOver [] base []
      return a
    | .array start level items => do
      guardDepth start level
      Items.positions table base items
    | doc => throw (doc.mismatch expected)
  openRecord expected table base finish
    | .object start level fields => do
      guardDepth start level
      let (a, others, stop) ← fields.entries table setAside [] base []
      Decode.placed stop (finish a others)
    | doc => throw (doc.mismatch expected)
  keep doc := liftExcept doc.keep

-- A text holds one value and nothing after it.
def wholeText (read : Doc → Decode α) (text : String) : Decode α := do
  let scan := scan text
  let a ← read scan.root
  match scan.trailing with
  | some start => throw (.peeking .trailingCharacters start)
  | none => return a

def ofText (text : String) : Except Fault Json :=
  match (wholeText Source.keep text).run [] with
  | .ok json _ => .ok json
  | .error fault _ => .error fault

end Patchbay.Json

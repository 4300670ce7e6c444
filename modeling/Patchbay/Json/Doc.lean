import Patchbay.Json.Fault

namespace Patchbay.Json

-- A string or a number: its reading, the fault of passing it over unread, and where it stops.
structure Lexeme (α : Type) where
  start : Nat
  value : Except Fault α
  skip : Option Fault
  stop : Nat

-- What is wrong with a text stands in the tree where it was met, and is raised only by a reader that
-- comes to it.
mutual
inductive Doc where
  -- The text ends where a value should stand.
  | absent (start : Nat)
  | broken (start : Nat) (fault : Fault)
  | null (start stop : Nat)
  | bool (b : Bool) (start stop : Nat)
  | number (lexeme : Lexeme Number)
  | string (lexeme : Lexeme String)
  -- The level counts the containers around it, itself included.
  | array (start level : Nat) (items : Items)
  | object (start level : Nat) (fields : Fields)

inductive Items where
  | closed (stop : Nat)
  | unclosed (start : Nat)
  -- Something other than a comma or the end stands after an item.
  | stray (start : Nat)
  -- No item follows a comma; the text may have ended.
  | dangling (start : Nat) (ended : Bool)
  | item (start : Nat) (value : Doc) (rest : Items)

inductive Fields where
  | closed (stop : Nat)
  | unclosed (start : Nat)
  | stray (start : Nat)
  | dangling (comma start : Nat) (ended : Bool)
  -- Something other than a string stands for a name.
  | nameless (comma start : Nat)
  -- `settled` is where a reader stands that gives up after the name.
  | field (comma : Nat) (name : Lexeme String) (settled : Nat) (colon : Option Fault) (value : Doc)
      (rest : Fields)
end

-- Found when the byte after `start` was looked at.
def Fault.peeking (reason : Reason) (start : Nat) : Fault := ⟨reason, some (start + 1)⟩

def Fault.on (reason : Reason) (offset : Nat) : Fault := ⟨reason, some offset⟩

-- The deepest container that is read.
def depthLimit : Nat := 127

def Doc.start : Doc → Nat
  | .absent start | .broken start _ | .null start _ | .bool _ start _ | .array start _ _
  | .object start _ _ => start
  | .number lexeme => lexeme.start
  | .string lexeme => lexeme.start

-- Where a reader stands that gives up here and looks for the end of the list.
def Items.mark : Items → Nat
  | .closed stop => stop
  | .unclosed start | .stray start | .dangling start _ | .item start _ _ => start

-- Objects are left at the comma, lists after it.
def Fields.mark : Fields → Nat
  | .closed stop => stop
  | .unclosed start | .stray start => start
  | .dangling comma _ _ | .nameless comma _ | .field comma _ _ _ _ _ => comma

-- The fault of a list that ends where an item is wanted; none when one is there.
def Items.ending : Items → Option Fault
  | .closed _ | .item _ _ _ => none
  | .unclosed start => some (.on .unfinishedList start)
  | .stray start => some (.peeking .expectedListEnd start)
  | .dangling start ended =>
    some (if ended then .on .unfinishedValue start else .peeking .trailingComma start)

-- The fault of a list that goes on where its end is wanted.
def Items.overrun : Items → Option Fault
  | .closed _ => none
  | .unclosed start => some (.on .unfinishedList start)
  | .stray start => some (.peeking .trailingCharacters start)
  | .dangling start ended =>
    some (if ended then .on .trailingCharacters start else .peeking .trailingComma start)
  | .item start _ _ => some (.peeking .trailingCharacters start)

def Fields.ending : Fields → Option Fault
  | .closed _ | .field _ _ _ _ _ _ => none
  | .unclosed start => some (.on .unfinishedObject start)
  | .stray start => some (.peeking .expectedObjectEnd start)
  | .dangling _ start ended =>
    some (if ended then .on .unfinishedValue start else .peeking .trailingComma start)
  | .nameless _ start => some (.peeking .keyNotText start)

mutual
-- The fault met on passing over a value, by rules that look at neither depth nor range.
def Doc.skip : Doc → Option Fault
  | .absent start => some (.on .unfinishedValue start)
  | .broken _ fault => some fault
  | .null _ _ | .bool _ _ _ => none
  | .number lexeme => lexeme.skip
  | .string lexeme => lexeme.skip
  | .array _ _ items => items.skip
  | .object _ _ fields => fields.skip

def Items.skip : Items → Option Fault
  | .closed _ => none
  | .unclosed start => some (.on .unfinishedList start)
  | .stray start => some (.peeking .expectedListEnd start)
  | .dangling start ended =>
    some (if ended then .on .unfinishedValue start else .peeking .expectedValue start)
  | .item _ value rest => value.skip.or rest.skip

def Fields.skip : Fields → Option Fault
  | .closed _ => none
  | .unclosed start => some (.on .unfinishedObject start)
  | .stray start => some (.peeking .expectedObjectEnd start)
  | .dangling _ start ended =>
    some (if ended then .on .unfinishedObject start else .peeking .keyNotText start)
  | .nameless _ start => some (.peeking .keyNotText start)
  | .field _ name _ colon value rest => ((name.skip.or colon).or value.skip).or rest.skip
end

mutual
-- The whole value, set aside to be read later without its places.
def Doc.keep : Doc → Except Fault Json
  | .absent start => .error (.on .unfinishedValue start)
  | .broken _ fault => .error fault
  | .null _ _ => .ok .null
  | .bool b _ _ => .ok (.bool b)
  | .number lexeme => do return .number (← lexeme.value)
  | .string lexeme => do return .string (← lexeme.value)
  | .array start level items =>
    if depthLimit < level then .error (.peeking .tooDeep start)
    else do return .array (← items.keep)
  | .object start level fields =>
    if depthLimit < level then .error (.peeking .tooDeep start)
    else do return .object (← fields.keep)

def Items.keep : Items → Except Fault (List Json)
  | .closed _ => .ok []
  | .unclosed start => .error (.on .unfinishedList start)
  | .stray start => .error (.peeking .expectedListEnd start)
  | .dangling start ended =>
    .error (if ended then .on .unfinishedValue start else .peeking .trailingComma start)
  | .item _ value rest => do return (← value.keep) :: (← rest.keep)

def Fields.keep : Fields → Except Fault (List (String × Json))
  | .closed _ => .ok []
  | .unclosed start => .error (.on .unfinishedObject start)
  | .stray start => .error (.peeking .expectedObjectEnd start)
  | .dangling _ start ended =>
    .error (if ended then .on .unfinishedValue start else .peeking .trailingComma start)
  | .nameless _ start => .error (.peeking .keyNotText start)
  | .field _ name _ colon value rest => do
    let key ← name.value
    match colon with
    | some fault => .error fault
    | none => return (key, ← value.keep) :: (← rest.keep)
end

end Patchbay.Json

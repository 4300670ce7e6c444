import Patchbay.Node.Basic
import Patchbay.Synth.Recipe

namespace Patchbay

abbrev InstrumentId := Nat

structure Voice where
  id : VoiceId
  node : Node
  stopped : Bool

inductive Event where
  | started (voice : VoiceId) (time : Float)
  -- How many voices are registered.
  | voices (count : Nat)
  | ended (voice : VoiceId)
  deriving DecidableEq

inductive Topic where
  | started
  | voices
  | ended
  deriving DecidableEq

def Event.topic : Event → Topic
  | .started _ _ => .started
  | .voices _ => .voices
  | .ended _ => .ended

-- What an observer does in answer to an event, on its own instrument.
inductive Reaction where
  -- Has the same events observed once more.
  | subscribe
  -- Plays a value now; none is a value that cannot be played.
  | play (value : Option Float) (duration : Option Float)
  | stopAll

structure Observer where
  tag : String
  reaction : Option Reaction
  -- How often it still reacts.
  left : Nat

namespace Observer

def plain (tag : String) : Observer := ⟨tag, none, 0⟩

-- The reaction that is due, and the observer with that reaction counted.
def react (observer : Observer) : Option Reaction × Observer :=
  match observer.reaction, observer.left with
  | some reaction, left + 1 => (some reaction, { observer with left })
  | _, _ => (none, observer)

-- Reactions still to come.
def credit (observer : Observer) : Nat :=
  match observer.reaction with
  | some _ => observer.left
  | none => 0

end Observer

-- An event, and who was registered when it was announced.
structure Announcement where
  event : Event
  registered : List VoiceId
  deriving DecidableEq

structure Instrument where
  context : ContextId
  synth : Option Recipe
  destination : Option Node
  -- None at all when it is 0.
  maxVoices : Nat
  -- Every node that was ever registered. The id of its voice is its place here.
  played : List Node
  -- In ascending order of their ids.
  voices : List Voice
  -- Of every event so far, whether or not anyone heard it.
  announcements : List Announcement
  observers : Topic → List Observer

namespace Instrument

def new (context : ContextId) : Instrument where
  context
  synth := none
  destination := none
  maxVoices := 0
  played := []
  voices := []
  announcements := []
  observers := fun _ => []

-- Ids are handed out in order, from 0.
def nextId (inst : Instrument) : VoiceId := inst.played.length

-- In the order of the registry.
def voiceIds (inst : Instrument) : List VoiceId := inst.voices.map Voice.id

def announced (inst : Instrument) : List Event := inst.announcements.map Announcement.event

def voice? (inst : Instrument) (id : VoiceId) : Option Voice :=
  inst.voices.find? (·.id == id)

-- The voice that takes the next id.
def register (inst : Instrument) (node : Node) : Instrument :=
  { inst with
    played := inst.played ++ [node]
    voices := inst.voices ++ [⟨inst.nextId, node, false⟩] }

def erase (inst : Instrument) (id : VoiceId) : Instrument :=
  { inst with voices := inst.voices.filter (·.id != id) }

def markStopped (inst : Instrument) (id : VoiceId) : Instrument :=
  { inst with voices := inst.voices.map fun v => if v.id = id then { v with stopped := true } else v }

-- The oldest sounding voices, as many as one more voice would be too many.
def excess (inst : Instrument) : List Voice :=
  if inst.maxVoices = 0 then [] else
    let sounding := inst.voices.filter (!·.stopped)
    sounding.take (sounding.length + 1 - inst.maxVoices)

def observing (inst : Instrument) (topic : Topic) (list : List Observer) : Instrument :=
  { inst with observers := fun t => if t = topic then list else inst.observers t }

def note (inst : Instrument) (event : Event) : Instrument :=
  { inst with announcements := inst.announcements ++ [⟨event, inst.voiceIds⟩] }

@[simp] theorem announced_note (inst : Instrument) (event : Event) :
    (inst.note event).announced = inst.announced ++ [event] := by
  simp [announced, note]

def credit (inst : Instrument) : Nat :=
  ([Topic.started, .voices, .ended].flatMap inst.observers).foldl (· + ·.credit) 0

end Instrument

end Patchbay

import Stagecraft.Script.Frame

/-!
# Events

An event starts every script under a matching hat: the operation of the hat must be the event's,
and the hat's fields must have the listed values, ignoring case. Events wait in a queue until the
end of a pass.
-/

namespace Stagecraft

/-- Something that starts scripts. -/
structure Event where
  /-- The hat of the scripts. -/
  hat : Opcode
  /-- Fields of the hat and the values that they must have. -/
  fields : List (String × String)
  /-- The only actor whose scripts start, if it is restricted to one. -/
  actor : Option ActorId
deriving DecidableEq

namespace Event

/-- The event that starts the scripts under a hat. -/
def ofHat (hat : Opcode) : Event := ⟨hat, [], none⟩

/-- Require a value of one more field. -/
def withField (e : Event) (name value : String) : Event :=
  { e with fields := e.fields ++ [(name, value)] }

/-- Restrict an event to one actor. -/
def only (e : Event) (actor : ActorId) : Event := { e with actor := some actor }

/-- The green flag was clicked. -/
def greenFlag : Event := ofHat (.event .whenFlagClicked)

/-- A message was broadcast. -/
def broadcast (message : String) : Event :=
  (ofHat (.event .whenBroadcastReceived)).withField "BROADCAST_OPTION" message

/-- A key was pressed, by its name. -/
def keyPressed (key : String) : Event :=
  (ofHat (.event .whenKeyPressed)).withField "KEY_OPTION" key

/-- An actor was clicked. -/
def clicked (actor : ActorId) : Event := (ofHat (.event .whenThisSpriteClicked)).only actor

/-- A clone came to be. -/
def cloneStart (actor : ActorId) : Event := (ofHat (.control .startAsClone)).only actor

end Event

/-- Events that wait, oldest first. -/
structure EventQueue where
  /-- The events. -/
  events : List Event
deriving DecidableEq

namespace EventQueue

/-- The queue without events. -/
def empty : EventQueue := ⟨[]⟩

/-- Add an event at the end. -/
def push (q : EventQueue) (e : Event) : EventQueue := ⟨q.events ++ [e]⟩

/-- Take all events out. -/
def drain (q : EventQueue) : EventQueue × List Event := (empty, q.events)

/-- The number of events. -/
def size (q : EventQueue) : Nat := q.events.length

end EventQueue

end Stagecraft

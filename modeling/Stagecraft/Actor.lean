import Stagecraft.Graph.Arena
import Stagecraft.Script.Frame
import Stagecraft.Value.ListIndex

/-!
# Actors

The stage, sprites and clones of sprites. An actor owns variables and lists by id; a sprite holds
the program that its actor and the clones of that actor share.
-/

namespace Stagecraft

/-- Names a sprite: an actor with its clones. -/
abbrev SpriteId := Nat

/-- The two kinds of variables. -/
inductive VariableKind where
  | scalar
  | list
deriving DecidableEq

/-- What a variable holds. -/
inductive Content where
  | scalar (v : Value)
  | list (items : List Value)
deriving DecidableEq

/-- A variable or list of an actor. -/
structure Variable where
  /-- The id, unique on its actor. -/
  id : String
  /-- The name. -/
  name : String
  /-- What it holds. -/
  content : Content
  /-- Whether writes to it are sent to the cloud. -/
  cloud : Bool
deriving DecidableEq

namespace Variable

/-- A scalar that holds zero. -/
def scalar (id name : String) : Variable := ⟨id, name, .scalar (.number 0.0), false⟩

/-- An empty list. -/
def list (id name : String) : Variable := ⟨id, name, .list [], false⟩

/-- A variable of a kind as it first is. -/
def ofKind : VariableKind → String → String → Variable
  | .scalar => scalar
  | .list => list

/-- The kind of a variable. -/
def kind (v : Variable) : VariableKind :=
  match v.content with
  | .scalar _ => .scalar
  | .list _ => .list

/-- The value of a scalar; a list reads as its joined items. -/
def get (v : Variable) : Value :=
  match v.content with
  | .scalar x => x
  | .list items => .text (joinValues items)

/-- Overwrite a scalar; a list is left alone. -/
def set (v : Variable) (x : Value) : Variable :=
  match v.content with
  | .scalar _ => { v with content := .scalar x }
  | .list _ => v

/-- The items of a list. -/
def items? (v : Variable) : Option (List Value) :=
  match v.content with
  | .scalar _ => none
  | .list items => some items

/-- Change the items of a list. -/
def modifyItems (v : Variable) (f : List Value → List Value) : Variable :=
  match v.content with
  | .scalar _ => v
  | .list items => { v with content := .list (f items) }

end Variable

/-- The stage, a sprite or a clone of one. -/
structure Actor where
  /-- The id of the actor. -/
  id : ActorId
  /-- The sprite whose program it runs. -/
  sprite : SpriteId
  /-- The name. -/
  name : String
  /-- Whether it is a stage. -/
  isStage : Bool
  /-- Whether it is a clone. -/
  isClone : Bool
  /-- The variables and lists by id. -/
  vars : Table String Variable
  /-- Horizontal position. -/
  x : Float
  /-- Vertical position. -/
  y : Float
  /-- Whether it is shown. -/
  visible : Bool
  /-- The text of its bubble. -/
  bubble : Option String
deriving DecidableEq

/-- Take coordinates within a billionth of a whole number for that number. -/
def snap (coordinate : Float) : Float :=
  let rounded := coordinate.round
  if (coordinate - rounded).abs < 1e-9 then rounded else coordinate

namespace Actor

/-- A new actor. -/
def create (id : ActorId) (sprite : SpriteId) (name : String) (isStage : Bool) : Actor where
  id := id
  sprite := sprite
  name := name
  isStage := isStage
  isClone := false
  vars := .empty
  x := 0.0
  y := 0.0
  visible := true
  bubble := none

/-- A clone: variables and position carry over, the bubble does not. -/
def clone (a : Actor) (id : ActorId) : Actor :=
  { a with id := id, isClone := true, bubble := none }

/-- Add or replace a variable. -/
def insertVariable (a : Actor) (v : Variable) : Actor :=
  { a with vars := a.vars.insert v.id v }

/-- The id of a variable, if there is one of that kind. -/
def findById? (a : Actor) (id : String) (kind : VariableKind) : Option String :=
  match a.vars.get? id with
  | some v => if v.kind = kind then some id else none
  | none => none

/-- The id of the first variable with a name and kind. -/
def findByName? (a : Actor) (name : String) (kind : VariableKind) : Option String :=
  (a.vars.entries.find? fun e => e.2.name = name && e.2.kind = kind).map (·.1)

/-- The first variable with a name and kind. -/
def variableByName? (a : Actor) (name : String) (kind : VariableKind) : Option Variable :=
  (a.findByName? name kind).bind a.vars.get?

/-- Set the position. -/
def setXY (a : Actor) (x y : Float) : Actor := { a with x := snap x, y := snap y }

/-- What an actor is called in listings. -/
def kindName (a : Actor) : String :=
  if a.isStage then "stage" else if a.isClone then "clone" else "sprite"

end Actor

/-- An actor's program, shared with its clones. -/
structure Sprite where
  /-- The name. -/
  name : String
  /-- The program. -/
  graph : Graph
  /-- The actor that is no clone. -/
  lead : ActorId
  /-- The clones, oldest first. -/
  clones : List ActorId
deriving DecidableEq

end Stagecraft

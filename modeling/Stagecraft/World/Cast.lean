import Stagecraft.World.State
import Stagecraft.Graph.Procedure

/-!
# Actors and variables of a world

Adding actors, finding them and their programs, and looking variables up. A variable is looked for
by id on the actor, by id on the stage, by name on the actor and by name on the stage; if it is
nowhere, the actor gets a new one.
-/

namespace Stagecraft.World

variable {σ : Type}

/-! ### Actors -/

/-- Add an actor with a program of its own. -/
def addActor (w : World σ) (name : String) (g : Graph) (isStage : Bool) : World σ × ActorId :=
  let id := w.nextActor
  let sprite := w.nextSprite
  ({ w with
      nextActor := id + 1
      nextSprite := sprite + 1
      sprites := w.sprites.insert sprite ⟨name, g.indexed, id, []⟩
      actors := w.actors.insert id (.create id sprite name isStage) }, id)

/-- Add a sprite. -/
def addSprite (w : World σ) (name : String) (g : Graph) : World σ × ActorId :=
  w.addActor name g false

/-- Add a stage; it takes the place of an earlier one. -/
def addStage (w : World σ) (name : String) (g : Graph) : World σ × ActorId :=
  let (w, id) := w.addActor name g true
  let w := match w.stage with
    | some old => w.notify (.stageReplaced old id)
    | none => w
  ({ w with stage := some id }, id)

/-- An actor by id. -/
def actor? (w : World σ) (id : ActorId) : Option Actor := w.actors.get? id

/-- Change an actor. -/
def modifyActor (w : World σ) (id : ActorId) (f : Actor → Actor) : World σ :=
  { w with actors := w.actors.modify id f }

/-- The actor with a name, clones not counted. -/
def actorByName? (w : World σ) (name : String) : Option Actor :=
  w.actors.values.find? fun a => !a.isClone && a.name == name

/-- The stage. -/
def stage? (w : World σ) : Option Actor := w.stage.bind w.actor?

/-- The program of an actor. -/
def graph? (w : World σ) (id : ActorId) : Option Graph :=
  ((w.actor? id).bind fun a => w.sprites.get? a.sprite).map (·.graph)

/-- Edit the program of an actor. A thread in its turn keeps the program that it began with. -/
def editGraph (w : World σ) (id : ActorId) (f : Graph → Graph) : World σ :=
  match w.actor? id with
  | some a =>
    { w with sprites := w.sprites.modify a.sprite fun s => { s with graph := (f s.graph).indexed } }
  | none => w

/-! ### Variables -/

/-- The actor and the stage, as far as they exist. -/
def scopes (w : World σ) (actor : ActorId) : List Actor :=
  ([some actor, w.stage].filterMap id).filterMap w.actor?

/-- The owner and id of a variable: by id first, then by name, each on the actor and the stage. -/
def locate? (w : World σ) (actor : ActorId) (id : Option String) (name : String)
    (kind : VariableKind) : Option (ActorId × String) :=
  let byId := id.bind fun id =>
    (w.scopes actor).findSome? fun a => (a.findById? id kind).map fun k => (a.id, k)
  match byId with
  | some found => some found
  | none => (w.scopes actor).findSome? fun a => (a.findByName? name kind).map fun k => (a.id, k)

/-- The owner and id of a variable. One that is nowhere is created on the actor; nothing is found
when there is no such actor. -/
def lookupVariable (w : World σ) (actor : ActorId) (id : Option String) (name : String)
    (kind : VariableKind) : World σ × Option (ActorId × String) :=
  match w.locate? actor id name kind with
  | some found => (w, some found)
  | none =>
    match w.actor? actor with
    | none => (w, none)
    | some _ =>
      let key := id.getD name
      (w.modifyActor actor (·.insertVariable (.ofKind kind key name)), some (actor, key))

/-- A variable by owner and id. -/
def variableAt? (w : World σ) (place : ActorId × String) : Option Variable :=
  (w.actor? place.1).bind (·.vars.get? place.2)

/-- Change a variable by owner and id. -/
def modifyVariable (w : World σ) (place : ActorId × String) (f : Variable → Variable) : World σ :=
  w.modifyActor place.1 fun a => { a with vars := a.vars.modify place.2 f }

end Stagecraft.World

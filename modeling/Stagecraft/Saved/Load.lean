import Stagecraft.Saved.Project
import Stagecraft.World.Cast

/-!
# Loading and exporting projects

Loading turns the keys of a saved project into handles and exporting turns handles into keys. Keys
are reserved in file order before any block is created, so handles follow the file, and a link that
leads nowhere keeps its key.
-/

namespace Stagecraft

/-! ### Loading -/

/-- Reserve keys one after the other. -/
def Graph.reserveAll (g : Graph) (keys : List String) : Graph :=
  keys.foldl (fun g key => (g.reserve key).1) g

/-- The handle of a key that may be absent. -/
def Graph.reserve? (g : Graph) : Option String → Graph × Option Handle
  | none => (g, none)
  | some key =>
    let (g, h) := g.reserve key
    (g, some h)

/-- Turn a saved input into an input. -/
def Graph.loadInput (g : Graph) : SavedInput → Graph × Input
  | .literal v => (g, .literal v)
  | .reporter key =>
    let (g, h) := g.reserve key
    (g, .reporter h)
  | .branch key =>
    let (g, h) := g.reserve key
    (g, .branch h)

/-- Turn saved inputs into inputs, after those already there. -/
def Graph.loadInputs : Graph → List (String × SavedInput) → Table String Input →
    Graph × Table String Input
  | g, [], inputs => (g, inputs)
  | g, (name, saved) :: rest, inputs =>
    let (g, input) := g.loadInput saved
    g.loadInputs rest (inputs.insert name input)

/-- Add a saved block. -/
def Graph.loadBlock (g : Graph) (key : String) (b : SavedBlock) : Graph :=
  let (g, next) := g.reserve? b.next
  let (g, parent) := g.reserve? b.parent
  let (g, inputs) := g.loadInputs b.inputs.entries .empty
  (g.create { Block.detached key (.ofName b.opcode) with
    next := next
    parent := parent
    inputs := inputs
    fields := b.fields
    signature := b.signature
    shadow := b.shadow
    topLevel := b.topLevel
    x := b.x
    y := b.y }).1

/-- The program of saved blocks. -/
def Graph.ofSaved (blocks : Table String SavedBlock) : Graph :=
  blocks.entries.foldl (fun g e => g.loadBlock e.1 e.2) (Graph.empty.reserveAll blocks.keys)

/-- The variables and lists of a saved actor. -/
def SavedActor.allVariables (a : SavedActor) : List Variable :=
  (a.vars.entries.map fun e => ⟨e.1, e.2.name, .scalar e.2.value, e.2.isCloud⟩) ++
    a.lists.entries.map fun e => ⟨e.1, e.2.name, .list e.2.items, false⟩

/-- Fill a new actor with what was saved. -/
def SavedActor.dress (saved : SavedActor) (a : Actor) : Actor :=
  { saved.allVariables.foldl Actor.insertVariable a with
    x := saved.x
    y := saved.y
    visible := saved.visible }

namespace World

variable {σ : Type}

/-- Add a saved actor. -/
def loadActor (w : World σ) (saved : SavedActor) : World σ × ActorId :=
  let g := Graph.ofSaved saved.blocks
  let (w, id) := if saved.isStage then w.addStage saved.name g else w.addSprite saved.name g
  (w.modifyActor id saved.dress, id)

/-- Add saved actors one after the other. -/
def loadActors : World σ → List SavedActor → World σ × List ActorId
  | w, [] => (w, [])
  | w, a :: rest =>
    let (w, id) := w.loadActor a
    let (w, ids) := w.loadActors rest
    (w, id :: ids)

/-- Load a project, warning about what is wrong with it. -/
def load (w : World σ) (p : SavedProject) : World σ × List ActorId :=
  let w := match p.problems with
    | [] => w
    | problems => w.notify (.projectProblem (SavedProject.problemText problems))
  w.loadActors p.targets

/-- Load a project if nothing is wrong with it. -/
def loadStrict (w : World σ) (p : SavedProject) : Except (List Problem) (World σ × List ActorId) :=
  match p.problems with
  | [] => .ok (w.loadActors p.targets)
  | problems => .error problems

end World

/-! ### Exporting -/

/-- Turn an input into a saved input; one whose handle has no key is left out. -/
def Graph.saveInput? (g : Graph) : Input → Option SavedInput
  | .literal v => some (.literal v)
  | .reporter h => (g.keyOf? h).map SavedInput.reporter
  | .branch h => (g.keyOf? h).map SavedInput.branch

/-- Turn a block into a saved block. -/
def Graph.saveBlock (g : Graph) (b : Block) : SavedBlock where
  opcode := b.opcode.name
  next := b.next.bind g.keyOf?
  parent := b.parent.bind g.keyOf?
  inputs := .ofList (b.inputs.entries.filterMap fun e =>
    (g.saveInput? e.2).map fun input => (e.1, input))
  fields := b.fields
  signature := b.signature
  shadow := b.shadow
  topLevel := b.topLevel
  x := b.x
  y := b.y

/-- The saved blocks of a program. -/
def Graph.toSaved (g : Graph) : Table String SavedBlock :=
  .ofList (g.blocks.map fun b => (b.key, g.saveBlock b))

namespace Actor

/-- The variables of an actor as they are saved. -/
def savedVariables (a : Actor) : Table String SavedVariable :=
  a.vars.pick fun v =>
    match v.content with
    | .scalar value => some ⟨v.name, value, v.cloud⟩
    | .list _ => none

/-- The lists of an actor as they are saved. -/
def savedLists (a : Actor) : Table String SavedList :=
  a.vars.pick fun v =>
    match v.content with
    | .scalar _ => none
    | .list items => some ⟨v.name, items⟩

end Actor

namespace World

variable {σ : Type}

/-- An actor as it is saved. -/
def saveActor (w : World σ) (a : Actor) : SavedActor where
  name := a.name
  isStage := a.isStage
  vars := a.savedVariables
  lists := a.savedLists
  blocks := match w.graph? a.id with
    | some g => g.toSaved
    | none => .empty
  x := a.x
  y := a.y
  visible := a.visible

/-- The stage and the sprites, without clones, with what their variables hold now. -/
def toProject (w : World σ) : SavedProject :=
  ⟨(w.actors.values.filter (!·.isClone)).map w.saveActor⟩

end World

end Stagecraft

import Stagecraft.Graph.Block

/-!
# Saved projects

A project as an editor saves it: blocks are named by keys, and links between blocks are keys too,
which may lead nowhere. `SavedProject.same` compares two projects as their readers would: numbers by
their values and tables without regard to order.

A project is sound when it has at most one stage and every link of a block names a block of the same
actor. `SavedProject.problems` lists whatever is wrong, in the order of the file.
-/

namespace Stagecraft

/-- A saved variable. -/
structure SavedVariable where
  /-- The name. -/
  name : String
  /-- The value. -/
  value : Value
  /-- Whether it is shared. -/
  isCloud : Bool
deriving DecidableEq

/-- A saved list. -/
structure SavedList where
  /-- The name. -/
  name : String
  /-- The items. -/
  items : List Value
deriving DecidableEq

/-- What a saved input slot holds. -/
inductive SavedInput where
  | literal (v : Value)
  | reporter (key : String)
  | branch (key : String)
deriving DecidableEq

/-- The key that a saved input refers to. -/
def SavedInput.key? : SavedInput → Option String
  | .literal _ => none
  | .reporter key => some key
  | .branch key => some key

/-- A saved block. -/
structure SavedBlock where
  /-- The name of the operation. -/
  opcode : String
  /-- The key of the block after it. -/
  next : Option String
  /-- The key of the block that holds it. -/
  parent : Option String
  /-- The inputs by name. -/
  inputs : Table String SavedInput
  /-- The fields by name. -/
  fields : Table String Field
  /-- The signature, on procedure blocks. -/
  signature : Option Signature
  /-- Whether it stands in for a value that was left out. -/
  shadow : Bool
  /-- Whether it starts a script. -/
  topLevel : Bool
  /-- Horizontal place in the editor. -/
  x : Float
  /-- Vertical place in the editor. -/
  y : Float
deriving DecidableEq

/-- A saved actor. -/
structure SavedActor where
  /-- The name. -/
  name : String
  /-- Whether it is the stage. -/
  isStage : Bool
  /-- The variables by id. -/
  vars : Table String SavedVariable
  /-- The lists by id. -/
  lists : Table String SavedList
  /-- The blocks by key. -/
  blocks : Table String SavedBlock
  /-- Horizontal position. -/
  x : Float
  /-- Vertical position. -/
  y : Float
  /-- Whether it is shown. -/
  visible : Bool
deriving DecidableEq

/-- A saved project: the stage and the sprites. -/
structure SavedProject where
  /-- The actors. -/
  targets : List SavedActor
deriving DecidableEq

/-! ### Comparison -/

/-- Compare two tables without regard to order. -/
def Table.same {α : Type} (eq : α → α → Bool) (a b : Table String α) : Bool :=
  a.size == b.size && a.entries.all fun (k, v) =>
    match b.get? k with
    | some w => eq v w
    | none => false

/-- Compare two lists item by item. -/
def sameItems {α : Type} (eq : α → α → Bool) : List α → List α → Bool
  | [], [] => true
  | a :: as, b :: bs => eq a b && sameItems eq as bs
  | _, _ => false

/-- Compare two values; zeros of either sign are the same, and what is not a number differs from
everything. -/
def Value.same : Value → Value → Bool
  | .number n, .number m => n == m
  | .text s, .text t => s == t
  | .flag a, .flag b => a == b
  | _, _ => false

/-- Compare two saved variables. -/
def SavedVariable.same (a b : SavedVariable) : Bool :=
  a.name == b.name && a.value.same b.value && a.isCloud == b.isCloud

/-- Compare two saved lists. -/
def SavedList.same (a b : SavedList) : Bool :=
  a.name == b.name && sameItems Value.same a.items b.items

/-- Compare two saved inputs. -/
def SavedInput.same : SavedInput → SavedInput → Bool
  | .literal v, .literal w => v.same w
  | .reporter k, .reporter l => k == l
  | .branch k, .branch l => k == l
  | _, _ => false

/-- Compare two saved blocks. -/
def SavedBlock.same (a b : SavedBlock) : Bool :=
  a.opcode == b.opcode && a.next == b.next && a.parent == b.parent &&
    a.inputs.same SavedInput.same b.inputs && a.fields.same (· == ·) b.fields &&
    a.signature == b.signature && a.shadow == b.shadow && a.topLevel == b.topLevel &&
    a.x == b.x && a.y == b.y

/-- Compare two saved actors. -/
def SavedActor.same (a b : SavedActor) : Bool :=
  a.name == b.name && a.isStage == b.isStage && a.vars.same SavedVariable.same b.vars &&
    a.lists.same SavedList.same b.lists && a.blocks.same SavedBlock.same b.blocks &&
    a.x == b.x && a.y == b.y && a.visible == b.visible

/-- Compare two projects. -/
def SavedProject.same (a b : SavedProject) : Bool := sameItems SavedActor.same a.targets b.targets

/-! ### Problems -/

/-- Something wrong with a saved project. -/
inductive Problem where
  /-- There is more than one stage. -/
  | stages (count : Nat)
  /-- A link of a block leads nowhere. -/
  | dangling (actor block link key : String)
deriving DecidableEq

/-- The text of a problem. -/
def Problem.text : Problem → String
  | .stages count => toString count ++ " stages, expected at most one"
  | .dangling actor block link key =>
    actor ++ ": block '" ++ block ++ "' has dangling " ++ link ++ " '" ++ key ++ "'"

/-- The links of a block, each with what it is called. -/
def SavedBlock.links (b : SavedBlock) : List (String × String) :=
  (b.next.toList.map fun k => ("next", k)) ++ (b.parent.toList.map fun k => ("parent", k)) ++
    (b.inputs.values.filterMap SavedInput.key?).map fun k => ("input", k)

/-- The links of an actor's blocks that lead nowhere. -/
def SavedActor.problems (a : SavedActor) : List Problem :=
  a.blocks.entries.flatMap fun (key, b) =>
    (b.links.filter fun l => !a.blocks.contains l.2).map fun l => .dangling a.name key l.1 l.2

namespace SavedProject

/-- The number of stages. -/
def stageCount (p : SavedProject) : Nat := (p.targets.filter (·.isStage)).length

/-- Everything wrong with a project. -/
def problems (p : SavedProject) : List Problem :=
  (if 1 < p.stageCount then [.stages p.stageCount] else []) ++ p.targets.flatMap (·.problems)

/-- The text that lists problems. -/
def problemText (problems : List Problem) : String :=
  "Project error: " ++ "; ".intercalate (problems.map Problem.text)

/-- The name of every actor with the number of its scripts. -/
def scriptCounts (p : SavedProject) : List (String × Nat) :=
  p.targets.map fun a => (a.name, (a.blocks.values.filter (·.topLevel)).length)

end SavedProject

end Stagecraft

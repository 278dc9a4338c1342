import Stagecraft.Primitive.Scene
import Stagecraft.World.Devices
import Stagecraft.Value.Basic

/-!
# Variable and list primitives

Every primitive looks its variable up first, creating it if need be. Lists stop growing at a limit,
and an index outside a list changes nothing.
-/

namespace Stagecraft.Primitive

variable {σ : Type}

/-- Lists stop growing at so many items. -/
def listLimit : Nat := 200000

/-- Find the variable that a field of the block names. -/
def lookup (site : Site) (s : Scene σ) (field : String) (kind : VariableKind) :
    Scene σ × Option (ActorId × String) :=
  let (w, found) := s.world.lookupVariable s.thread.actor (site.fieldId? field)
    ((site.field? field).getD "") kind
  ({ s with world := w }, found)

/-! ### Variables -/

/-- The value of a variable. -/
def readVariable (site : Site) (s : Scene σ) : Scene σ × Value :=
  let (s, found) := lookup site s "VARIABLE" .scalar
  match found.bind s.world.variableAt? with
  | some v => (s, v.get)
  | none => (s, .blank)

/-- Write a variable; one that is shared is also sent to the cloud. -/
def writeVariable (site : Site) (s : Scene σ) (update : Value → Value) : Scene σ :=
  let (s, found) := lookup site s "VARIABLE" .scalar
  match found with
  | none => s
  | some place =>
    match s.world.variableAt? place with
    | none => s
    | some v =>
      let value := update v.get
      let w := s.world.modifyVariable place (·.set value)
      { s with world := if v.cloud then w.requestCloud (.update v.name value) else w }

/-! ### Lists -/

/-- The items of the list that the block names. -/
def readList (site : Site) (s : Scene σ) : Scene σ × Option (List Value) :=
  let (s, found) := lookup site s "LIST" .list
  (s, (found.bind s.world.variableAt?).bind (·.items?))

/-- Change the items of the list that the block names. -/
def editList (site : Site) (s : Scene σ) (f : List Value → List Value) : Scene σ :=
  let (s, found) := lookup site s "LIST" .list
  match found with
  | some place => { s with world := s.world.modifyVariable place (·.modifyItems f) }
  | none => s

/-- Add an item at the end. -/
def addItem (item : Value) (items : List Value) : List Value :=
  if items.length < listLimit then items ++ [item] else items

/-- Delete an item, or all of them. -/
def deleteItem (index : Value) (draw : Nat) (items : List Value) : List Value :=
  match index.toListIndex items.length true draw with
  | .all => []
  | .position i => items.eraseIdx (i - 1)
  | .invalid => items

/-- Insert an item before a position, or at the end. -/
def insertItem (index item : Value) (draw : Nat) (items : List Value) : List Value :=
  if listLimit ≤ items.length then items
  else match index.toListIndex (items.length + 1) false draw with
    | .position i => items.insertIdx (i - 1) item
    | _ => items

/-- Replace an item. -/
def replaceItem (index item : Value) (draw : Nat) (items : List Value) : List Value :=
  match index.toListIndex items.length false draw with
  | .position i => items.set (i - 1) item
  | _ => items

/-- The item at a position. -/
def itemAt (index : Value) (draw : Nat) (items : List Value) : Value :=
  match index.toListIndex items.length false draw with
  | .position i => items[i - 1]?.getD .blank
  | _ => .blank

/-- Draw a random number. -/
def draw (s : Scene σ) : Scene σ × Nat :=
  let (w, n) := s.world.draw
  ({ s with world := w }, n)

/-- Run a variable or list primitive. -/
def data (op : DataOp) (site : Site) (args : Args) (s : Scene σ) : Scene σ × Outcome :=
  match op with
  | .variable =>
    let (s, v) := readVariable site s
    (s, .value v)
  | .setVariable => (writeVariable site s fun _ => args.value "VALUE", .done)
  | .changeVariable =>
    (writeVariable site s fun v => .number (v.toNumber + args.number "VALUE"), .done)
  | .listContents =>
    let (s, items) := readList site s
    (s, .value (.text (joinValues (items.getD []))))
  | .addToList => (editList site s (addItem (args.value "ITEM")), .done)
  | .deleteOfList =>
    let (s, n) := draw s
    (editList site s (deleteItem (args.value "INDEX") n), .done)
  | .deleteAllOfList => (editList site s fun _ => [], .done)
  | .insertAtList =>
    let (s, n) := draw s
    (editList site s (insertItem (args.value "INDEX") (args.value "ITEM") n), .done)
  | .replaceItemOfList =>
    let (s, n) := draw s
    (editList site s (replaceItem (args.value "INDEX") (args.value "ITEM") n), .done)
  | .itemOfList =>
    let (s, n) := draw s
    let (s, items) := readList site s
    (s, .value (itemAt (args.value "INDEX") n (items.getD [])))
  | .lengthOfList =>
    let (s, items) := readList site s
    (s, .value (.number (items.getD []).length.toUInt64.toFloat))
  | .listContainsItem =>
    let (s, items) := readList site s
    let item := args.value "ITEM"
    (s, .value (.flag ((items.getD []).any fun v => v.compare item == .eq)))

end Stagecraft.Primitive

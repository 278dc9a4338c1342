import Stagecraft.Saved.Project
import Stagecraft.Json.Record
import Stagecraft.Json.Printer

/-!
# The file format of projects

Every kind of saved thing with its reader from a document and its writer to one, side by side.
Fields that a file leaves out take the values of something new; a signature or an id that is absent
is left out of the file again.
-/

namespace Stagecraft

/-! ### Values -/

/-- Read a value: a number, a string or a truth value. -/
def Value.ofJson? : Json → Option Value
  | .number spelling => (Json.worth? spelling).map Value.number
  | .text s => s.map Value.text
  | .flag b => some (.flag b)
  | _ => none

/-- Write a value. -/
def Value.toJson : Value → Json
  | .number n => .ofFloat n
  | .text s => .ofString s
  | .flag b => .flag b

/-! ### Variables and lists -/

/-- Read a saved variable. -/
def SavedVariable.ofJson? (j : Json) : Option SavedVariable := do
  let r ← j.record? ["name", "value", "isCloud"]
  return ⟨← r.required? "name" Json.string?, ← r.optional? "value" .blank Value.ofJson?,
    ← r.optional? "isCloud" false Json.bool?⟩

/-- Write a saved variable. -/
def SavedVariable.toJson (v : SavedVariable) : Json :=
  .ofMembers [("name", .ofString v.name), ("value", v.value.toJson), ("isCloud", .flag v.isCloud)]

/-- Read a saved list. -/
def SavedList.ofJson? (j : Json) : Option SavedList := do
  let r ← j.record? ["name", "items"]
  return ⟨← r.required? "name" Json.string?, ← r.optional? "items" [] (Json.list? Value.ofJson?)⟩

/-- Write a saved list. -/
def SavedList.toJson (l : SavedList) : Json :=
  .ofMembers [("name", .ofString l.name), ("items", .array (l.items.map Value.toJson))]

/-! ### Blocks -/

/-- Read a saved input: an object with one member that says what the slot holds. -/
def SavedInput.ofJson? : Json → Option SavedInput
  | .object [(some "literal", j)] => (Value.ofJson? j).map SavedInput.literal
  | .object [(some "reporter", j)] => j.string?.map SavedInput.reporter
  | .object [(some "branch", j)] => j.string?.map SavedInput.branch
  | _ => none

/-- Write a saved input. -/
def SavedInput.toJson : SavedInput → Json
  | .literal v => .ofMembers [("literal", v.toJson)]
  | .reporter key => .ofMembers [("reporter", .ofString key)]
  | .branch key => .ofMembers [("branch", .ofString key)]

/-- Read a field. -/
def Field.ofJson? (j : Json) : Option Field := do
  let r ← j.record? ["value", "id"]
  return ⟨← r.required? "value" Json.string?,
    ← r.optional? "id" none (Json.nullable? Json.string?)⟩

/-- Write a field. -/
def Field.toJson (f : Field) : Json :=
  .ofMembers (("value", .ofString f.value) :: f.id.toList.map fun id => ("id", .ofString id))

/-- Read a signature. -/
def Signature.ofJson? (j : Json) : Option Signature := do
  let r ← j.record? ["proccode", "argumentIds", "argumentNames", "argumentDefaults", "warp"]
  return ⟨← r.required? "proccode" Json.string?,
    ← r.optional? "argumentIds" [] (Json.list? Json.string?),
    ← r.optional? "argumentNames" [] (Json.list? Json.string?),
    ← r.optional? "argumentDefaults" [] (Json.list? Json.string?),
    ← r.optional? "warp" false Json.bool?⟩

/-- Write a signature. -/
def Signature.toJson (s : Signature) : Json :=
  .ofMembers
    [("proccode", .ofString s.code),
     ("argumentIds", .array (s.argumentIds.map Json.ofString)),
     ("argumentNames", .array (s.argumentNames.map Json.ofString)),
     ("argumentDefaults", .array (s.argumentDefaults.map Json.ofString)),
     ("warp", .flag s.warp)]

/-- Write a table. -/
def Table.toJson {α : Type} (write : α → Json) (t : Table String α) : Json :=
  .ofMembers (t.entries.map fun e => (e.1, write e.2))

/-- Write a key that may be absent. -/
def keyToJson : Option String → Json
  | some key => .ofString key
  | none => .null

/-- Read a saved block. -/
def SavedBlock.ofJson? (j : Json) : Option SavedBlock := do
  let r ← j.record? ["opcode", "next", "parent", "inputs", "fields", "mutation", "shadow",
    "topLevel", "x", "y"]
  return {
    opcode := ← r.required? "opcode" Json.string?
    next := ← r.optional? "next" none (Json.nullable? Json.string?)
    parent := ← r.optional? "parent" none (Json.nullable? Json.string?)
    inputs := ← r.optional? "inputs" .empty (Json.table? SavedInput.ofJson?)
    fields := ← r.optional? "fields" .empty (Json.table? Field.ofJson?)
    signature := ← r.optional? "mutation" none (Json.nullable? Signature.ofJson?)
    shadow := ← r.optional? "shadow" false Json.bool?
    topLevel := ← r.optional? "topLevel" false Json.bool?
    x := ← r.optional? "x" 0.0 Json.float?
    y := ← r.optional? "y" 0.0 Json.float? }

/-- Write a saved block. -/
def SavedBlock.toJson (b : SavedBlock) : Json :=
  .ofMembers (
    [("opcode", .ofString b.opcode),
     ("next", keyToJson b.next),
     ("parent", keyToJson b.parent),
     ("inputs", b.inputs.toJson SavedInput.toJson),
     ("fields", b.fields.toJson Field.toJson)] ++
    (b.signature.toList.map fun s => ("mutation", s.toJson)) ++
    [("shadow", .flag b.shadow),
     ("topLevel", .flag b.topLevel),
     ("x", .ofFloat b.x),
     ("y", .ofFloat b.y)])

/-! ### Actors and projects -/

/-- Read a saved actor. -/
def SavedActor.ofJson? (j : Json) : Option SavedActor := do
  let r ← j.record? ["name", "isStage", "variables", "lists", "blocks", "x", "y", "visible"]
  return {
    name := ← r.required? "name" Json.string?
    isStage := ← r.optional? "isStage" false Json.bool?
    vars := ← r.optional? "variables" .empty (Json.table? SavedVariable.ofJson?)
    lists := ← r.optional? "lists" .empty (Json.table? SavedList.ofJson?)
    blocks := ← r.optional? "blocks" .empty (Json.table? SavedBlock.ofJson?)
    x := ← r.optional? "x" 0.0 Json.float?
    y := ← r.optional? "y" 0.0 Json.float?
    visible := ← r.optional? "visible" true Json.bool? }

/-- Write a saved actor. -/
def SavedActor.toJson (a : SavedActor) : Json :=
  .ofMembers
    [("name", .ofString a.name),
     ("isStage", .flag a.isStage),
     ("variables", a.vars.toJson SavedVariable.toJson),
     ("lists", a.lists.toJson SavedList.toJson),
     ("blocks", a.blocks.toJson SavedBlock.toJson),
     ("x", .ofFloat a.x),
     ("y", .ofFloat a.y),
     ("visible", .flag a.visible)]

/-- Read a project. -/
def SavedProject.ofJson? (j : Json) : Option SavedProject := do
  let r ← j.record? ["targets"]
  return ⟨← r.required? "targets" (Json.list? SavedActor.ofJson?)⟩

/-- Write a project. -/
def SavedProject.toJson (p : SavedProject) : Json :=
  .ofMembers [("targets", .array (p.targets.map SavedActor.toJson))]

/-- Read the text of a project. -/
def SavedProject.parse? (source : String) : Option SavedProject :=
  (Json.parse? source).bind SavedProject.ofJson?

/-- The text of a project. -/
def SavedProject.text (p : SavedProject) : String := p.toJson.indented

end Stagecraft

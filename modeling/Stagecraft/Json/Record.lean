import Stagecraft.Json.Number
import Stagecraft.Table

/-!
# Records in documents

A record is written as an object, whose unknown members are ignored and whose known members may not
repeat, or as an array of its fields in order, from which fields at the end may be missing. A table
is written as an object; a repeated key keeps its first place and its last value.
-/

namespace Stagecraft.Json

/-! ### Plain values -/

/-- A string. -/
def string? : Json → Option String
  | .text s => s
  | _ => none

/-- A truth value. -/
def bool? : Json → Option Bool
  | .flag b => some b
  | _ => none

/-- A number. -/
def float? : Json → Option Float
  | .number spelling => worth? spelling
  | _ => none

/-- A natural number of at most so many bits. -/
def word? (bits : Nat) : Json → Option Nat
  | .number spelling => (natural? spelling).filter (· < Nat.pow 2 bits)
  | _ => none

/-- Something that may be null. -/
def nullable? {α : Type} (read : Json → Option α) : Json → Option (Option α)
  | .null => some none
  | j => (read j).map some

/-- An array. -/
def list? {α : Type} (read : Json → Option α) : Json → Option (List α)
  | .array items => items.mapM read
  | _ => none

/-- A row of a table. -/
def row? {α : Type} (read : Json → Option α) (member : Option String × Json) :
    Option (String × α) := do
  return (← member.1, ← read member.2)

/-- A table. -/
def table? {α : Type} (read : Json → Option α) : Json → Option (Table String α)
  | .object members => (members.mapM (row? read)).map Table.ofList
  | _ => none

/-! ### Records -/

/-- The fields of a record, by name. -/
structure Record where
  /-- Names and documents of the fields that are there. -/
  fields : List (String × Json)

/-- The known members of an object; nothing if one repeats or a name has no text. -/
def known? (names : List String) :
    List (Option String × Json) → List (String × Json) → Option (List (String × Json))
  | [], found => some found
  | (none, _) :: _, _ => none
  | (some name, j) :: rest, found =>
    if names.contains name then
      if found.any fun f => f.1 == name then none else known? names rest ((name, j) :: found)
    else known? names rest found

/-- A record with fields of the given names. -/
def record? (names : List String) : Json → Option Record
  | .object members => (known? names members []).map Record.mk
  | .array items => if items.length ≤ names.length then some ⟨names.zip items⟩ else none
  | _ => none

/-- A field that has to be there. -/
def Record.required? {α : Type} (r : Record) (name : String) (read : Json → Option α) : Option α :=
  (r.fields.find? fun f => f.1 == name).bind fun f => read f.2

/-- A field that may be missing. -/
def Record.optional? {α : Type} (r : Record) (name : String) (default : α)
    (read : Json → Option α) : Option α :=
  match r.fields.find? fun f => f.1 == name with
  | some f => read f.2
  | none => some default

end Stagecraft.Json

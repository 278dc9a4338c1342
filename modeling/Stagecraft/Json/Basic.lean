/-!
# JSON documents

A document as it is written: members of an object stay in order and may repeat, and a number keeps
its spelling, because what it is worth depends on who reads it. A string with a surrogate escape
that lacks its partner has no text; such a string is only wrong where its text is used.
-/

namespace Stagecraft

/-- A JSON document. -/
inductive Json where
  | null
  | flag (b : Bool)
  /-- A number by its spelling. -/
  | number (spelling : String)
  /-- A string by its text, if it has one. -/
  | text (s : Option String)
  | array (items : List Json)
  | object (members : List (Option String × Json))

namespace Json

instance : Inhabited Json := ⟨.null⟩

/-- A string with a text. -/
def ofString (s : String) : Json := .text (some s)

/-- A whole number. -/
def ofNat (n : Nat) : Json := .number (toString n)

/-- An object whose members have texts for names. -/
def ofMembers (members : List (String × Json)) : Json :=
  .object (members.map fun m => (some m.1, m.2))

/-- The last member with a name. -/
def member? (j : Json) (name : String) : Option Json :=
  match j with
  | .object members => (members.findRev? fun m => m.1 == some name).map (·.2)
  | _ => none

end Json

end Stagecraft

import Stagecraft.Inspect.Value
import Stagecraft.Json.Record
import Stagecraft.Graph.Edit

/-!
# Reading requests

Tools ask with documents whose parts may be missing: a missing text is empty, a missing number is
zero, a missing truth value is false, and null counts as missing. Doubles may be given by their
bits, the way they are shown.
-/

namespace Stagecraft.Json

/-! ### Whole documents -/

/-- A number, or bits in hexadecimal digits. -/
def toFloat (j : Json) : Float :=
  match j with
  | .number spelling => (worth? spelling).getD 0.0
  | j => match (j.member? "bits").bind string? with
    | some digits =>
      Float.ofBits (digits.toList.foldl (fun n c => n * 16 + (hexDigit? c).getD 0) 0).toUInt64
    | none => 0.0

/-- A value: a string, a truth value or a number. -/
def toValue (j : Json) : Value :=
  match j with
  | .text s => .text (s.getD "")
  | .flag b => .flag b
  | j => .number j.toFloat

/-- A natural number. -/
def toNat (j : Json) : Nat :=
  match j with
  | .number spelling => (natural? spelling).getD 0
  | _ => 0

/-- A text. -/
def toText (j : Json) : String := j.string?.getD ""

/-- The items of an array. -/
def toItems (j : Json) : List Json :=
  match j with
  | .array items => items
  | _ => []

/-- A pair of texts. -/
def toTextPair (j : Json) : String × String :=
  match j.toItems with
  | [a, b] => (a.toText, b.toText)
  | _ => ("", "")

/-- A name with a value. -/
def toBinding (j : Json) : String × Value :=
  match j.toItems with
  | [a, b] => (a.toText, b.toValue)
  | _ => ("", .blank)

/-! ### Parts -/

/-- A part that is neither missing nor null. -/
def at? (j : Json) (name : String) : Option Json :=
  match j.member? name with
  | some .null => none
  | found => found

/-- A text, if it is there. -/
def textAt? (j : Json) (name : String) : Option String := (j.at? name).bind string?

/-- A text. -/
def textAt (j : Json) (name : String) : String := (j.textAt? name).getD ""

/-- A natural number, if it is there. -/
def natAt? (j : Json) (name : String) : Option Nat := (j.at? name).map toNat

/-- A natural number. -/
def natAt (j : Json) (name : String) : Nat := (j.natAt? name).getD 0

/-- A truth value. -/
def flagAt (j : Json) (name : String) : Bool := ((j.at? name).bind bool?).getD false

/-- A double, if it is there. -/
def floatAt? (j : Json) (name : String) : Option Float := (j.at? name).map toFloat

/-- A double. -/
def floatAt (j : Json) (name : String) : Float := (j.floatAt? name).getD 0.0

/-- A value. -/
def valueAt (j : Json) (name : String) : Value := ((j.at? name).map toValue).getD .blank

/-- The items of an array. -/
def itemsAt (j : Json) (name : String) : List Json := ((j.at? name).map toItems).getD []

/-- Texts. -/
def textsAt (j : Json) (name : String) : List String := (j.itemsAt name).map toText

/-! ### Events and places -/

/-- An event by its kind, then further fields, then the only actor. -/
def toEvent (j : Json) : Event :=
  let base := match j.textAt "kind" with
    | "flag" => Event.greenFlag
    | "broadcast" => .broadcast (j.textAt "arg")
    | "key" => .keyPressed (j.textAt "arg")
    | "clicked" => .clicked (j.natAt "target")
    | "clone" => .cloneStart (j.natAt "target")
    | _ => .ofHat (.ofName (j.textAt "arg"))
  let e := (j.itemsAt "fields").foldl (fun e f => e.withField f.toTextPair.1 f.toTextPair.2) base
  match j.natAt? "only" with
  | some id => e.only id
  | none => e

/-- A signature. -/
def toSignature (j : Json) : Signature :=
  ⟨j.textAt "proccode", j.textsAt "ids", j.textsAt "names", j.textsAt "defaults", j.flagAt "warp"⟩

/-- Where to move a block; `find` gives the handles of names. -/
def toDestination (find : String → Handle) (j : Json) : Destination :=
  match j.textAt? "next_of" with
  | some p => .after (find p)
  | none =>
    match j.textAt? "input_of" with
    | some p => .input (find p) (j.textAt "name") (j.flagAt "branch")
    | none => .topLevel (j.floatAt "x") (j.floatAt "y")

end Stagecraft.Json

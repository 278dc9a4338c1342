import Stagecraft.Json.Basic
import Stagecraft.Actor
import Stagecraft.Deferred
import Stagecraft.Event
import Stagecraft.Fault
import Stagecraft.Device.Cloud

/-!
# Showing values

What tools see of values, variables, events, faults and results that come later. A double is shown
by its bits, so that nothing is lost, and a long list by its ends.
-/

namespace Stagecraft.Inspect

/-- Something that may be absent. -/
def orNull {α : Type} (show' : α → Json) : Option α → Json
  | some a => show' a
  | none => .null

/-- Texts. -/
def texts (l : List String) : Json := .array (l.map Json.ofString)

/-- Ids. -/
def ids (l : List Nat) : Json := .array (l.map Json.ofNat)

/-- A natural number as a text, whatever its size. -/
def wide (n : Nat) : Json := .ofString (toString n)

/-- A double by its bits, in sixteen hexadecimal digits. -/
def double (x : Float) : Json :=
  if x.isNaN then .ofString "nan"
  else
    let digits := Nat.toDigits 16 x.toBits.toNat
    .ofString (String.ofList (List.replicate (16 - digits.length) '0' ++ digits))

/-- A value. -/
def value : Value → Json
  | .number n => .ofMembers [("n", double n)]
  | .text s => .ofString s
  | .flag b => .flag b

/-- Values. -/
def values (l : List Value) : Json := .array (l.map value)

/-- Names with values. -/
def bindings (l : List (String × Value)) : Json :=
  .array (l.map fun e => .array [.ofString e.1, value e.2])

/-- Lists of at most so many items are shown in full. -/
def shownItems : Nat := 40

/-- The items of a list; of a long one, its length and three items at each end. -/
def items (l : List Value) : Json :=
  let n := l.length
  if n ≤ shownItems then values l
  else .ofMembers
    [("len", .ofNat n), ("head", values (l.take 3)), ("tail", values (l.drop (n - 3)))]

/-- A variable or list. -/
def slot (v : Variable) : Json :=
  let content := match v.content with
    | .scalar x => value x
    | .list l => .ofMembers [("list", items l)]
  .ofMembers [("id", .ofString v.id), ("name", .ofString v.name), ("cloud", .flag v.cloud),
    ("value", content)]

/-- An event. -/
def event (e : Event) : Json :=
  .ofMembers [("hat", .ofString e.hat.name),
    ("fields", .array (e.fields.map fun f => texts [f.1, f.2])),
    ("target", orNull Json.ofNat e.actor)]

/-- An error by its kind and its text. -/
def error (kind text : String) : Json :=
  .ofMembers [("error", .ofString kind), ("message", .ofString text)]

/-- A fault. -/
def fault (f : Fault) : Json :=
  let kind := match f with
    | .failed _ _ => "Fault"
    | .rejected _ => "Rejected"
    | .crashed _ _ => "Panicked"
    | .tooDeep _ => "TooDeep"
  error kind f.message

/-- A fault with the thread that it retired. -/
def record (r : FaultRecord) : Json :=
  .ofMembers [("thread", .ofNat r.thread), ("target", .ofNat r.actor),
    ("opcode", .ofString r.opcode), ("error", fault r.fault)]

/-- What polling gave. -/
def delivery : Option Delivery → Json
  | none => .ofString "pending"
  | some (.resolved v) => .ofMembers [("resolved", value v)]
  | some (.rejected reason) => .ofMembers [("rejected", .ofString reason)]

/-- A request to the provider of shared variables. -/
def request : CloudRequest → Json
  | .update name v => .array [.ofString "update", .ofString name, value v]
  | .create name v => .array [.ofString "create", .ofString name, value v]
  | .rename old new => texts ["rename", old, new]
  | .delete name => texts ["delete", name]

end Stagecraft.Inspect

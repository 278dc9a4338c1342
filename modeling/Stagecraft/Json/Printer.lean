import Stagecraft.Json.Basic
import Stagecraft.Decimal.Layout

/-!
# Writing JSON

The compact form has no blanks; the indented form gives every item and member a line of its own,
two spaces deeper than what holds it. Quotes, backslashes and control characters are escaped and
nothing else is.
-/

namespace Stagecraft.Json

/-- Numbers in documents: the fewest digits, no exponent from `0.00001` up to below `10 ^ 16`, and
always a point or an exponent. -/
def numberLayout : Layout where
  plain := some (-5, 16)
  pointZero := true
  plusExponent := true
  signedZero := true
  tie := .toEven
  notANumber := "null"
  infinity := "null"

/-- A double as a document; there is no number for what is not finite. -/
def ofFloat (x : Float) : Json :=
  match Double.ofFloat? x with
  | some _ => .number (numberLayout.render x)
  | none => .null

/-! ### Strings -/

/-- A hexadecimal digit in lower case. -/
def hexChar (n : Nat) : Char :=
  if n < 10 then Char.ofNat ('0'.toNat + n) else Char.ofNat ('a'.toNat + (n - 10))

/-- A character inside quotes. -/
def escape (c : Char) : List Char :=
  match c with
  | '"' => ['\\', '"']
  | '\\' => ['\\', '\\']
  | '\n' => ['\\', 'n']
  | '\r' => ['\\', 'r']
  | '\t' => ['\\', 't']
  | c =>
    if c.toNat = 0x08 then ['\\', 'b']
    else if c.toNat = 0x0C then ['\\', 'f']
    else if c.toNat < 0x20 then
      ['\\', 'u', '0', '0', hexChar (c.toNat / 16), hexChar (c.toNat % 16)]
    else [c]

/-- A text in quotes, after what is written already. -/
def writeString (out : String) (s : String) : String :=
  (s.toList.foldl (fun out c => (escape c).foldl String.push out) (out.push '"')).push '"'

/-- The name of a member; one without a text is written empty. -/
def writeName (out : String) (name : Option String) : String := writeString out (name.getD "")

/-! ### The compact form -/

mutual

/-- Write a document after what is written already. -/
def writeCompact (out : String) : Json → String
  | .null => out ++ "null"
  | .flag b => out ++ (if b then "true" else "false")
  | .number spelling => out ++ spelling
  | .text s => writeName out s
  | .array items => (writeItems (out.push '[') true items).push ']'
  | .object members => (writeMembers (out.push '\x7b') true members).push '\x7d'

/-- Write items, separated by commas. -/
def writeItems (out : String) (first : Bool) : List Json → String
  | [] => out
  | item :: rest =>
    writeItems (writeCompact (if first then out else out.push ',') item) false rest

/-- Write members, separated by commas. -/
def writeMembers (out : String) (first : Bool) : List (Option String × Json) → String
  | [] => out
  | (name, value) :: rest =>
    let out := writeName (if first then out else out.push ',') name
    writeMembers (writeCompact (out.push ':') value) false rest

end

/-- The compact form of a document. -/
def compact (j : Json) : String := writeCompact "" j

/-! ### The indented form -/

/-- Start a line at a depth. -/
def startLine (out : String) (depth : Nat) : String :=
  (List.replicate (2 * depth) ' ').foldl String.push (out.push '\n')

mutual

/-- Write a document after what is written already, at a depth. -/
def writeIndented (out : String) (depth : Nat) : Json → String
  | .null => out ++ "null"
  | .flag b => out ++ (if b then "true" else "false")
  | .number spelling => out ++ spelling
  | .text s => writeName out s
  | .array [] => out ++ "[]"
  | .array (item :: rest) =>
    (startLine (writeLines (out.push '[') depth true (item :: rest)) depth).push ']'
  | .object [] => out ++ "\x7b\x7d"
  | .object (member :: rest) =>
    (startLine (writeMemberLines (out.push '\x7b') depth true (member :: rest)) depth).push '\x7d'

/-- Write items on lines of their own. -/
def writeLines (out : String) (depth : Nat) (first : Bool) : List Json → String
  | [] => out
  | item :: rest =>
    let out := startLine (if first then out else out.push ',') (depth + 1)
    writeLines (writeIndented out (depth + 1) item) depth false rest

/-- Write members on lines of their own. -/
def writeMemberLines (out : String) (depth : Nat) (first : Bool) :
    List (Option String × Json) → String
  | [] => out
  | (name, value) :: rest =>
    let out := startLine (if first then out else out.push ',') (depth + 1)
    let out := writeName out name ++ ": "
    writeMemberLines (writeIndented out (depth + 1) value) depth false rest

end

/-- The indented form of a document. -/
def indented (j : Json) : String := writeIndented "" 0 j

end Stagecraft.Json

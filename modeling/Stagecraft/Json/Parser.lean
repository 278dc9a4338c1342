import Stagecraft.Json.Basic

/-!
# Reading JSON

A document is a value with blanks around it. Blanks are the space, the tab and the two line ends.
A value costs the reader one call and every item one more, so twice the length of the text bounds
the recursion.
-/

namespace Stagecraft.Json

/-! ### Blanks -/

/-- Whether a character may stand between tokens. -/
def isSpace (c : Char) : Bool := c = ' ' || c = '\n' || c = '\t' || c = '\r'

/-- Skip blanks. -/
def skipSpace (cs : List Char) : List Char := cs.dropWhile isSpace

/-! ### Strings -/

/-- The value of a hexadecimal digit. -/
def hexDigit? (c : Char) : Option Nat :=
  if '0' ≤ c && c ≤ '9' then some (c.toNat - '0'.toNat)
  else if 'a' ≤ c && c ≤ 'f' then some (c.toNat - 'a'.toNat + 10)
  else if 'A' ≤ c && c ≤ 'F' then some (c.toNat - 'A'.toNat + 10)
  else none

/-- The unit that four hexadecimal digits name. -/
def hexUnit? (a b c d : Char) : Option Nat := do
  return ((← hexDigit? a) * 16 + (← hexDigit? b)) * 256 + (← hexDigit? c) * 16 + (← hexDigit? d)

/-- What a letter after a backslash stands for. -/
def escaped? (c : Char) : Option Nat :=
  match c with
  | '"' => some 0x22
  | '\\' => some 0x5C
  | '/' => some 0x2F
  | 'b' => some 0x08
  | 'f' => some 0x0C
  | 'n' => some 0x0A
  | 'r' => some 0x0D
  | 't' => some 0x09
  | _ => none

/-- The rest of a string after its opening quote: the units of its text, last first, where a
character that is written out is one unit. -/
def scanString : List Char → List Nat → Option (List Nat × List Char)
  | [], _ => none
  | '"' :: rest, units => some (units, rest)
  | '\\' :: 'u' :: a :: b :: c :: d :: rest, units =>
    match hexUnit? a b c d with
    | some u => scanString rest (u :: units)
    | none => none
  | '\\' :: c :: rest, units =>
    match escaped? c with
    | some u => scanString rest (u :: units)
    | none => none
  | c :: rest, units => if c.toNat < 0x20 then none else scanString rest (c.toNat :: units)

/-- The text of units that come last first, before what follows it: a high surrogate needs a low one
after it. -/
def joinUnits : List Nat → List Char → Option (List Char)
  | [], after => some after
  | u :: rest, after =>
    if 0xDC00 ≤ u && u ≤ 0xDFFF then
      match rest with
      | high :: rest =>
        if 0xD800 ≤ high && high ≤ 0xDBFF then
          joinUnits rest (Char.ofNat (0x10000 + (high - 0xD800) * 0x400 + (u - 0xDC00)) :: after)
        else none
      | [] => none
    else if 0xD800 ≤ u && u ≤ 0xDBFF then none
    else joinUnits rest (Char.ofNat u :: after)

/-- A string after its opening quote. -/
def readString (cs : List Char) : Option (Option String × List Char) :=
  (scanString cs []).map fun (units, rest) => ((joinUnits units []).map String.ofList, rest)

/-! ### Numbers -/

/-- At least one digit. -/
def readDigits (cs : List Char) : Option (List Char × List Char) :=
  match cs.takeWhile Char.isDigit with
  | [] => none
  | ds => some (ds, cs.dropWhile Char.isDigit)

/-- A whole part: zero, or digits that do not start with one. -/
def readWhole (cs : List Char) : Option (List Char × List Char) :=
  match cs with
  | '0' :: c :: rest => if c.isDigit then none else some (['0'], c :: rest)
  | cs => readDigits cs

/-- A point and digits, if there is a point. -/
def readFraction (cs : List Char) : Option (List Char × List Char) :=
  match cs with
  | '.' :: rest => (readDigits rest).map fun (ds, rest) => ('.' :: ds, rest)
  | cs => some ([], cs)

/-- An exponent, if there is a mark of one. -/
def readExponent (cs : List Char) : Option (List Char × List Char) :=
  match cs with
  | c :: rest =>
    if c = 'e' || c = 'E' then
      match rest with
      | '+' :: rest => (readDigits rest).map fun (ds, rest) => ('e' :: '+' :: ds, rest)
      | '-' :: rest => (readDigits rest).map fun (ds, rest) => ('e' :: '-' :: ds, rest)
      | rest => (readDigits rest).map fun (ds, rest) => ('e' :: ds, rest)
    else some ([], cs)
  | [] => some ([], [])

/-- The spelling of a number. -/
def readNumber (cs : List Char) : Option (String × List Char) := do
  let (sign, cs) := match cs with
    | '-' :: rest => (['-'], rest)
    | cs => ([], cs)
  let (whole, cs) ← readWhole cs
  let (fraction, cs) ← readFraction cs
  let (exponent, cs) ← readExponent cs
  return (String.ofList (sign ++ whole ++ fraction ++ exponent), cs)

/-! ### Values -/

mutual

/-- A value, with blanks before it. -/
def readValue : Nat → List Char → Option (Json × List Char)
  | 0, _ => none
  | fuel + 1, cs =>
    match skipSpace cs with
    | 'n' :: 'u' :: 'l' :: 'l' :: rest => some (.null, rest)
    | 't' :: 'r' :: 'u' :: 'e' :: rest => some (.flag true, rest)
    | 'f' :: 'a' :: 'l' :: 's' :: 'e' :: rest => some (.flag false, rest)
    | '"' :: rest => (readString rest).map fun (s, rest) => (.text s, rest)
    | '[' :: rest =>
      match skipSpace rest with
      | ']' :: rest => some (.array [], rest)
      | rest => readItems fuel rest []
    | '\x7b' :: rest =>
      match skipSpace rest with
      | '\x7d' :: rest => some (.object [], rest)
      | rest => readMembers fuel rest []
    | cs => (readNumber cs).map fun (s, rest) => (.number s, rest)

/-- The items of an array up to its end, after those already read, which come last first. -/
def readItems : Nat → List Char → List Json → Option (Json × List Char)
  | 0, _, _ => none
  | fuel + 1, cs, items =>
    match readValue fuel cs with
    | none => none
    | some (item, cs) =>
      match skipSpace cs with
      | ',' :: rest => readItems fuel rest (item :: items)
      | ']' :: rest => some (.array (item :: items).reverse, rest)
      | _ => none

/-- The members of an object up to its end, after those already read, which come last first. -/
def readMembers : Nat → List Char → List (Option String × Json) → Option (Json × List Char)
  | 0, _, _ => none
  | fuel + 1, cs, members =>
    match skipSpace cs with
    | '"' :: rest =>
      match readString rest with
      | none => none
      | some (name, cs) =>
        match skipSpace cs with
        | ':' :: rest =>
          match readValue fuel rest with
          | none => none
          | some (value, cs) =>
            match skipSpace cs with
            | ',' :: rest => readMembers fuel rest ((name, value) :: members)
            | '\x7d' :: rest => some (.object ((name, value) :: members).reverse, rest)
            | _ => none
        | _ => none
    | _ => none

end

/-- Read a whole text as one document. -/
def parse? (source : String) : Option Json :=
  let cs := source.toList
  match readValue (2 * cs.length + 2) cs with
  | some (j, rest) => if (skipSpace rest).isEmpty then some j else none
  | none => none

end Stagecraft.Json

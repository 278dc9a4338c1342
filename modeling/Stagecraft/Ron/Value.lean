import Stagecraft.Ron.Number

/-!
# Values of RON documents

Settings ignore fields that they do not know, whatever their values are. `Ron.skipValue` passes over
a value of any shape: numbers and ranges, strings, characters, names, options, tuples, structures,
lists and maps. Values may nest only so deep: each option, list, map, tuple or structure takes a
level, and so does each entry of the latter four.
-/

namespace Stagecraft.Ron

/-! ### Extensions -/

/-- The extensions of the format that a document may switch on. -/
inductive Extension where
  /-- A structure of one field may leave out its name and parentheses. -/
  | bareStructures
  /-- The value of an option may stand alone. -/
  | implicitSome
  /-- The only value in the parentheses of a variant may leave out its own. -/
  | bareVariants
  /-- A structure has to give its name. -/
  | namedStructures
deriving DecidableEq

/-- The extensions by their names. -/
def Extension.all : List (String × Extension) :=
  [("unwrap_newtypes", .bareStructures), ("implicit_some", .implicitSome),
   ("unwrap_variant_newtypes", .bareVariants),
   ("explicit_struct_names", .namedStructures)]

/-! ### Entries -/

/-- The closing character and what follows it, after entries with commas between them. -/
def skipEntries (close : Char) (entry : Skipper) : Nat → Skipper
  | 0, _ => none
  | fuel + 1, cs =>
    match skip cs with
    | some (c :: rest) =>
      if c = close then some (c :: rest)
      else match (entry (c :: rest)).bind skipComma with
        | some (true, rest) => skipEntries close entry fuel rest
        | some (false, d :: rest) => if d = close then some (d :: rest) else none
        | _ => none
    | _ => none

/-- A key, a colon and a value. -/
def skipPair (key value : Skipper) : Skipper := fun cs => do
  match ← skip (← key cs) with
  | ':' :: rest => value (← skip rest)
  | _ => none

/-- Pass over a name that stands for a field. -/
def skipName : Skipper := fun cs => (readName cs).map (·.2)

/-- Whether a name and a colon come next, as in a structure. -/
def namesField (cs : List Char) : Bool :=
  match (takeName cs).bind fun r => skip r.2 with
  | some (':' :: _) => true
  | _ => false

/-! ### Nested values -/

/-- What passes over values that stand so many levels deeper, starting with one level; none where a
document must not nest any deeper. -/
abbrev Deeper := List Skipper

/-- What passes over the entries of something one level deeper. -/
def Deeper.entry (deeper : Deeper) : Skipper := (deeper[1]?).getD fun _ => none

/-- The closing character and what follows it, after the entries of a list, a map or parentheses. -/
def Deeper.skipBetween (deeper : Deeper) (close : Char) (cs : List Char) : Option (List Char) :=
  if deeper.isEmpty then none
  else do
    let cs ← skip cs
    let entry := match close with
      | '\x7d' => skipPair deeper.entry deeper.entry
      | ')' => if namesField cs then skipPair skipName deeper.entry else deeper.entry
      | _ => deeper.entry
    skipEntries close entry (cs.length + 1) cs

/-- The rest after the entries of a list, a map or parentheses. -/
def Deeper.skipEnclosed (deeper : Deeper) (close : Char) (cs : List Char) : Option (List Char) :=
  (deeper.skipBetween close cs).map (·.drop 1)

/-- The closing parenthesis and what follows it, after the value of an option. -/
def skipOptionValue (value : Skipper) : Skipper := fun cs => do
  match ← skipComma (← value cs) with
  | (_, ')' :: rest) => return ')' :: rest
  | _ => none

/-- The rest after a string or a character. -/
def skipQuoted : Skipper := fun cs =>
  match skipCharacter cs with
  | some rest => some rest
  | none =>
    match skipText cs with
    | some rest => some rest
    | none => skipBytes cs

/-- Whether a comma and another entry follow the first entry in parentheses that were opened.
Brackets inside, so many of them open, are only counted. -/
def hasSecondEntry : Nat → Nat → List Char → Option Bool
  | 0, _, _ => none
  | fuel + 1, depth, cs => do
    let cs ← skip cs
    match skipQuoted cs, cs with
    | some rest, _ => hasSecondEntry fuel depth rest
    | none, [] => none
    | none, c :: rest =>
      if c = '(' || c = '[' || c = '\x7b' then hasSecondEntry fuel (depth + 1) rest
      else if c = ')' || c = ']' || c = '\x7d' then
        match depth with
        | 0 => return false
        | depth + 1 => hasSecondEntry fuel depth rest
      else if c = ',' && depth = 0 then return (← skip rest).head? != some ')'
      else hasSecondEntry fuel depth rest

/-- The rest after the value of an option whose parenthesis was opened. Where parentheses may be
left out it may be nothing, or the entries of a tuple or a structure. -/
def Deeper.skipOptionIn (deeper : Deeper) (value : Skipper) (bare : Bool) (cs : List Char) :
    Option (List Char) := do
  let cs ← skip cs
  let entries := Deeper.skipBetween (deeper.drop 1) ')'
  let found :=
    if !bare then skipOptionValue value cs
    else if cs.head? = some ')' then some cs
    else if namesField cs then entries cs
    else match hasSecondEntry (cs.length + 1) 0 cs with
      | some true => entries cs
      | some false => skipOptionValue value cs
      | none => none
  found.map (·.drop 1)

/-- The rest after an option whose word was taken. -/
def Deeper.skipOption (deeper : Deeper) (extensions : List Extension) (cs : List Char) :
    Option (List Char) := do
  let value ← deeper.head?
  match ← skip cs with
  | '(' :: rest =>
    deeper.skipOptionIn value (extensions.contains .bareVariants) rest
  | cs => if extensions.contains .implicitSome then value cs else none

/-- The rest after a name that stands for a variant or a structure, with what it holds. -/
def Deeper.skipNamed (deeper : Deeper) (cs : List Char) : Option (List Char) := do
  let (_, rest) ← takeName cs
  match ← skip rest with
  | '(' :: inside => deeper.skipEnclosed ')' inside
  | rest => some rest

/-- The rest after a value that starts with no name. -/
def Deeper.skipNameless (deeper : Deeper) (cs : List Char) : Option (List Char) :=
  match cs with
  | '(' :: ')' :: rest => some rest
  | '(' :: rest => deeper.skipEnclosed ')' rest
  | '[' :: rest => deeper.skipEnclosed ']' rest
  | '\x7b' :: rest => deeper.skipEnclosed '\x7d' rest
  | '"' :: _ => skipText cs
  | 'r' :: _ => skipText cs
  | 'b' :: '\'' :: _ => skipNumbers cs
  | 'b' :: _ => skipBytes cs
  | '\'' :: _ => skipCharacter cs
  | cs => skipNumbers cs

/-- The rest after a value, given what passes over deeper ones. -/
def Deeper.skipHere (deeper : Deeper) (extensions : List Extension) : Skipper := fun cs =>
  match readWords ["true", "false", "None"] cs with
  | some rest => some rest
  | none =>
    match readWord "Some" cs with
    | some rest => deeper.skipOption extensions rest
    | none =>
      if (readNamed cs).isSome then skipNumbers cs
      else if (takeName cs).isSome then deeper.skipNamed cs
      else deeper.skipNameless cs

/-- What passes over values with less than so many levels left, the most levels first. -/
def below (extensions : List Extension) : Nat → Deeper
  | 0 => []
  | levels + 1 =>
    let deeper := below extensions levels
    deeper.skipHere extensions :: deeper

/-- The rest after a value below which there may be so many levels. -/
def skipValue (extensions : List Extension) (levels : Nat) : Skipper :=
  (below extensions levels).skipHere extensions

/-- The levels of a document. -/
def levelLimit : Nat := 128

end Stagecraft.Ron

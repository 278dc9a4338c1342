import Stagecraft.Text.Name

/-!
# Tokens of RON documents

Blanks with comments, names and words. Every reader takes the characters that are left and gives
what it read with the rest, or nothing; a `Skipper` gives the rest alone.
-/

namespace Stagecraft.Ron

/-- What passes over a part of a document: the rest, or nothing if the part is not there. -/
abbrev Skipper := List Char → Option (List Char)

/-- Whether characters start with others. -/
def startsWith (cs : List Char) (word : String) : Bool := word.toList.isPrefixOf cs

/-- Pass over given characters. -/
def expect (word : String) : Skipper := fun cs =>
  if startsWith cs word then some (cs.drop word.length) else none

/-! ### Blanks -/

/-- Whether a character may stand between tokens. -/
def isSpace (c : Char) : Bool :=
  let n := c.toNat
  (9 ≤ n && n ≤ 13) || n = 0x20 || n = 0x85 || n = 0x200E || n = 0x200F || n = 0x2028 || n = 0x2029

/-- Where a reader of blanks is. -/
inductive Within where
  /-- Outside comments. -/
  | blanks
  /-- In a comment that lasts to the end of the line. -/
  | line
  /-- In a comment with delimiters, inside so many more of its kind. -/
  | block (depth : Nat)

/-- Skip blanks and comments; nothing if a comment is not closed. -/
def skipFrom : Within → List Char → Option (List Char)
  | .blanks, [] => some []
  | .blanks, '/' :: '/' :: rest => skipFrom .line rest
  | .blanks, '/' :: '*' :: rest => skipFrom (.block 0) rest
  | .blanks, c :: rest =>
    if c = '/' then none else if isSpace c then skipFrom .blanks rest else some (c :: rest)
  | .line, [] => some []
  | .line, c :: rest => if c = '\n' then skipFrom .blanks rest else skipFrom .line rest
  | .block _, [] => none
  | .block depth, '/' :: '*' :: rest => skipFrom (.block (depth + 1)) rest
  | .block 0, '*' :: '/' :: rest => skipFrom .blanks rest
  | .block (depth + 1), '*' :: '/' :: rest => skipFrom (.block depth) rest
  | .block depth, _ :: rest => skipFrom (.block depth) rest

/-- Skip blanks and comments. -/
def skip : Skipper := skipFrom .blanks

/-- Skip blanks, a comma and more blanks; tells whether there was a comma. -/
def skipComma (cs : List Char) : Option (Bool × List Char) := do
  match ← skip cs with
  | ',' :: rest => return (true, ← skip rest)
  | cs => return (false, cs)

/-- Given characters one after the other, with blanks after each. -/
def skipTokens : List String → Skipper
  | [], cs => some cs
  | token :: tokens, cs => do skipTokens tokens (← skip (← expect token cs))

/-! ### Names -/

/-- Whether a character may continue a name that is marked as raw. -/
def isRawChar (c : Char) : Bool := Text.continuesName c || c = '.' || c = '+' || c = '-'

/-- Whether a name goes on here. -/
def namesOn (cs : List Char) : Bool :=
  match cs with
  | c :: _ => Text.continuesName c
  | [] => false

/-- Whether characters start a string or character with a letter before its quote. -/
def startsQuoted (cs : List Char) : Bool :=
  ["b\"", "b'", "br#", "br\"", "r\"", "r#\"", "r##"].any (startsWith cs)

/-- A name as far as it goes. One that is marked as raw may have signs and points in it. -/
def takeName (cs : List Char) : Option (String × List Char) :=
  if startsQuoted cs then none
  else match cs with
    | 'r' :: '#' :: rest =>
      match rest.takeWhile isRawChar with
      | [] => none
      | name => some (String.ofList name, rest.dropWhile isRawChar)
    | c :: _ =>
      if Text.startsName c then
        some (String.ofList (cs.takeWhile Text.continuesName), cs.dropWhile Text.continuesName)
      else none
    | [] => none

/-- A name that stands for a field. It does not end before a sign or a point: a name with these has
to be marked as raw. -/
def readName (cs : List Char) : Option (String × List Char) :=
  match takeName cs with
  | some (_, c :: _) => if isRawChar c then none else takeName cs
  | found => found

/-- Pass over a word that no name goes on after. -/
def readWord (word : String) : Skipper := fun cs =>
  match expect word cs with
  | some rest => if namesOn rest then none else some rest
  | none => none

/-- Pass over one of several words. -/
def readWords (words : List String) : Skipper := fun cs =>
  words.findSome? fun word => readWord word cs

/-! ### Truth values -/

/-- A truth value. -/
def readBool (cs : List Char) : Option (Bool × List Char) :=
  match readWord "true" cs with
  | some rest => some (true, rest)
  | none => (readWord "false" cs).map fun rest => (false, rest)

end Stagecraft.Ron

import Stagecraft.Ron.Quoted

/-!
# Numbers of RON documents

Whole numbers in four bases, doubles, and ranges between numbers. A number may name its type right
after its digits; it then has to fit that type.
-/

namespace Stagecraft.Ron

/-! ### Whole numbers -/

/-- A type of whole numbers. -/
structure WholeType where
  /-- Whether it has negative numbers. -/
  signed : Bool
  /-- How many bits its numbers have. -/
  bits : Nat
deriving DecidableEq

namespace WholeType

/-- The types of whole numbers that have at most 64 bits. -/
def all : List WholeType :=
  [false, true].flatMap fun signed => [8, 16, 32, 64].map (WholeType.mk signed)

/-- The name of a type. -/
def name (t : WholeType) : String := (if t.signed then "i" else "u") ++ toString t.bits

/-- Whether a number with a sign is one of a type. -/
def holds (t : WholeType) (negative : Bool) (n : Nat) : Bool :=
  if t.signed then if negative then n ≤ Nat.pow 2 (t.bits - 1) else n < Nat.pow 2 (t.bits - 1)
  else n < Nat.pow 2 t.bits && !(negative && n ≠ 0)

end WholeType

/-- The base that a numeral announces, and what follows. -/
def announced (cs : List Char) : Nat × List Char :=
  match cs with
  | '0' :: 'b' :: rest => (2, rest)
  | '0' :: 'o' :: rest => (8, rest)
  | '0' :: 'x' :: rest => (16, rest)
  | cs => (10, cs)

/-- Whether a character belongs to the digits of a whole number. -/
def isDigitOrBar (c : Char) : Bool := (baseDigit? 16 c).isSome || c = '_'

/-- The number that digits stand for; bars between them do not count. -/
def digits? (base : Nat) (cs : List Char) : Option Nat :=
  match cs with
  | [] => none
  | '_' :: _ => none
  | cs => (cs.filter (· ≠ '_')).foldlM (fun n c => (baseDigit? base c).map (base * n + ·)) 0

/-- A whole number as it is written. -/
structure Whole where
  /-- Whether it has a minus sign. -/
  negative : Bool
  /-- Its digits. -/
  magnitude : Nat
  /-- The type that it names. -/
  type : Option WholeType

/-- A whole number with the type that it names, and the rest. -/
def readWhole (cs : List Char) : Option (Whole × List Char) := do
  let (negative, cs) := Numeral.takeSign cs
  let (base, cs) := announced cs
  let n ← digits? base (cs.takeWhile isDigitOrBar)
  let rest := cs.dropWhile isDigitOrBar
  match WholeType.all.findSome? fun t => (readWord t.name rest).map (t, ·) with
  | some (t, rest) => return (⟨negative, n, some t⟩, rest)
  | none => return (⟨negative, n, none⟩, rest)

/-- A natural number of so many bits; a type that it names has to be just that one. -/
def readNatural (bits : Nat) (cs : List Char) : Option (Nat × List Char) := do
  let (n, rest) ← readWhole cs
  let expected : WholeType := ⟨false, bits⟩
  if (n.type.all (· == expected)) && expected.holds n.negative n.magnitude then
    return (n.magnitude, rest)
  else none

/-- Whether a whole number fits the type that it names, or the widest with its sign. -/
def Whole.fits (n : Whole) : Bool :=
  (n.type.getD ⟨n.negative, 64⟩).holds n.negative n.magnitude

/-! ### Doubles -/

/-- Whether a character belongs to a double. -/
def isDoubleChar (c : Char) : Bool :=
  c.isDigit || c = 'e' || c = 'E' || c = '.' || c = '+' || c = '-' || c = '_'

/-- The characters of a double at the front, and the rest. Two points are none of them. -/
def splitDouble : List Char → List Char × List Char
  | [] => ([], [])
  | c :: rest =>
    if c = '.' && rest.head? = some '.' then ([], c :: rest)
    else if isDoubleChar c then ((c :: (splitDouble rest).1), (splitDouble rest).2)
    else ([], c :: rest)

/-- Drop the bars of a double; nothing if one comes first or right after the point. -/
def dropBars : Bool → List Char → Option (List Char)
  | _, [] => some []
  | allowed, c :: rest =>
    if c = '_' then if allowed then dropBars allowed rest else none
    else
      let allowed := if c.isDigit || c = 'e' || c = 'E' then true
        else if c = '.' then false else allowed
      (dropBars allowed rest).map (c :: ·)

/-- A double as it is written. -/
structure Written where
  /-- The double. -/
  value : Float
  /-- Whether it has a minus sign, which a double that is not a number keeps. -/
  negative : Bool
  /-- Whether it names the type of doubles with half the bits. -/
  half : Bool

/-- A type of doubles right at the front: whether it is the one with half the bits. -/
def readDoubleType (cs : List Char) : Bool × List Char :=
  match readWord "f64" cs with
  | some rest => (false, rest)
  | none => match readWord "f32" cs with
    | some rest => (true, rest)
    | none => (false, cs)

/-- The names of infinity and of what is not a number. -/
def namedDoubles : List (String × Float) := [("inf", infinity), ("NaN", notANumber)]

/-- A double by its name. -/
def readNamed (cs : List Char) : Option (Written × List Char) :=
  let (negative, cs) := Numeral.takeSign cs
  namedDoubles.findSome? fun (name, x) => do
    let (half, rest) := readDoubleType (← expect name cs)
    if namesOn rest then none
    else return (⟨if negative then -x else x, negative, half⟩, rest)

/-- A double by its digits. -/
def readDigits (cs : List Char) : Option (Written × List Char) := do
  let (digits, rest) := splitDouble cs
  let n ← Numeral.read? (← dropBars false digits)
  let (half, rest) := readDoubleType rest
  return (⟨n.toFloat, n.negative, half⟩, rest)

/-- A double of either type. -/
def readWritten (cs : List Char) : Option (Written × List Char) :=
  match readNamed cs with
  | some found => some found
  | none => readDigits cs

/-- A double that names no other type. -/
def readDouble (cs : List Char) : Option (Written × List Char) := do
  let (x, rest) ← readWritten cs
  if x.half then none else return (x, rest)

/-! ### Any number -/

/-- The rest after a whole number that fits. -/
def skipWhole : Skipper := fun cs => do
  let (n, rest) ← readWhole cs
  if n.fits then return rest else none

/-- The rest after a number of any type: as a whole number, unless it goes on as a double or is too
large. -/
def skipNumber : Skipper := fun cs =>
  match skipByte cs with
  | some rest => some rest
  | none =>
    match skipWhole cs, (readWritten cs).map (·.2) with
    | some whole, some double => some (if double.length < whole.length then double else whole)
    | some whole, none => some whole
    | none, double => double

/-- The rest after the end of a range whose two points were taken. Only an end that is meant to be
included has to be there. -/
def skipRangeEnd : Skipper := fun cs =>
  match cs with
  | '=' :: rest => skipNumber rest
  | cs => some ((skipNumber cs).getD cs)

/-- The rest after a number or a range, which has no blanks in it. -/
def skipNumbers : Skipper := fun cs =>
  match cs with
  | '.' :: '.' :: rest => skipRangeEnd rest
  | cs =>
    match skipNumber cs with
    | some ('.' :: '.' :: rest) => skipRangeEnd rest
    | found => found

end Stagecraft.Ron

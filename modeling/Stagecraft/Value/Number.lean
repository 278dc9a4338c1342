import Stagecraft.Text.Blank
import Stagecraft.Decimal.Layout
import Stagecraft.Decimal.Numeral

/-!
# Numbers as script authors write them

`readNumber` reads a text as a number: blanks around it do not count, the empty text is zero, and
`Infinity` as well as hexadecimal, binary and octal whole numbers are understood; any other text
is not a number. `writeNumber` is the text of a number in a bubble or in joined text.
-/

namespace Stagecraft

/-- The double that stands for no number. -/
def notANumber : Float := 0.0 / 0.0

/-- Positive infinity. -/
def infinity : Float := 1.0 / 0.0

/-- The value of a digit in a base of at most sixteen. -/
def baseDigit? (base : Nat) (c : Char) : Option Nat :=
  let value :=
    if '0' ≤ c && c ≤ '9' then c.toNat - '0'.toNat
    else if 'a' ≤ c && c ≤ 'f' then c.toNat - 'a'.toNat + 10
    else if 'A' ≤ c && c ≤ 'F' then c.toNat - 'A'.toNat + 10
    else base
  if value < base then some value else none

/-- Digits in a base, at least one, with an optional plus sign, of a number below `2 ^ 64`. -/
def readWord? (base : Nat) (cs : List Char) : Option UInt64 :=
  let digits := match cs with
    | '+' :: rest => rest
    | cs => cs
  if digits.isEmpty then none
  else do
    let value ← digits.foldlM (fun n c => (baseDigit? base c).map (base * n + ·)) 0
    if value < UInt64.size then some value.toUInt64 else none

/-- The base that the first two characters of a literal announce. -/
def announcedBase? : List Char → Option (Nat × List Char)
  | '0' :: c :: rest =>
    if c = 'x' || c = 'X' then some (16, rest)
    else if c = 'b' || c = 'B' then some (2, rest)
    else if c = 'o' || c = 'O' then some (8, rest)
    else none
  | _ => none

/-- The characters that a decimal numeral may hold. -/
def isNumeralChar (c : Char) : Bool :=
  c.isDigit || c = '.' || c = 'e' || c = 'E' || c = '+' || c = '-'

/-- Read a text as a number. -/
def readNumber (source : String) : Float :=
  let cs := Text.trim source.toList
  if cs.isEmpty then 0.0
  else if cs = "Infinity".toList || cs = "+Infinity".toList then infinity
  else if cs = "-Infinity".toList then -infinity
  else match announcedBase? cs with
    | some (base, digits) =>
      match readWord? base digits with
      | some n => n.toFloat
      | none => notANumber
    | none =>
      if cs.all isNumeralChar then
        match Numeral.read? cs with
        | some n => n.toFloat
        | none => notANumber
      else notANumber

/-- Numbers in bubbles and joined text: the fewest digits, no exponent from a millionth up to
below `10 ^ 21`, and no sign on zero. -/
def spokenLayout : Layout where
  plain := some (-6, 21)
  pointZero := false
  plusExponent := true
  signedZero := false
  tie := .away
  notANumber := "NaN"
  infinity := "Infinity"

/-- The text of a number in a bubble or in joined text. -/
def writeNumber (n : Float) : String := spokenLayout.render n

end Stagecraft

/-!
# Reading decimal numerals

A numeral is an optional sign, digits with at most one point among, before or after them (at least
one digit), and optionally `e` or `E` with a whole exponent. `Numeral.toFloat` is the double nearest
to it, ties to even; magnitudes beyond the doubles give an infinity or zero without building their
powers of ten.
-/

namespace Stagecraft

/-- The number `± digits * 10 ^ exponent`. -/
structure Numeral where
  /-- Whether it starts with a minus sign. -/
  negative : Bool
  /-- All its digits, read as one natural number. -/
  digits : Nat
  /-- The power of ten that scales them. -/
  exponent : Int

namespace Numeral

/-- The value of a decimal digit. -/
def digitValue (c : Char) : Nat := c.toNat - '0'.toNat

/-- Digits read as one natural number, after those already read. -/
def digitsFrom (start : Nat) (ds : List Char) : Nat :=
  ds.foldl (fun n c => 10 * n + digitValue c) start

/-- Take a sign off the front; `true` is minus. -/
def takeSign : List Char → Bool × List Char
  | '-' :: rest => (true, rest)
  | '+' :: rest => (false, rest)
  | cs => (false, cs)

/-- Split the digits off the front. -/
def takeDigits (cs : List Char) : List Char × List Char :=
  (cs.takeWhile Char.isDigit, cs.dropWhile Char.isDigit)

/-- What may follow the digits: nothing, or a mark and a whole exponent. -/
def readExponent? : List Char → Option Int
  | [] => some 0
  | c :: rest =>
    if c = 'e' || c = 'E' then
      let (negative, rest) := takeSign rest
      match takeDigits rest with
      | ([], _) => none
      | (ds, []) => some (if negative then -(digitsFrom 0 ds : Int) else digitsFrom 0 ds)
      | (_, _) => none
    else none

/-- Read a whole text as a numeral. -/
def read? (cs : List Char) : Option Numeral :=
  let (negative, cs) := takeSign cs
  let (whole, rest) := takeDigits cs
  let (fraction, rest) := match rest with
    | '.' :: rest => takeDigits rest
    | rest => ([], rest)
  if whole.isEmpty && fraction.isEmpty then none
  else (readExponent? rest).map fun e =>
    ⟨negative, digitsFrom (digitsFrom 0 whole) fraction, e - fraction.length⟩

/-- The double nearest to a numeral. -/
def toFloat (n : Numeral) : Float :=
  let size := ((toString n.digits).length : Int) + n.exponent
  let magnitude : Float :=
    if n.digits = 0 then 0.0
    else if 400 < size then 1.0 / 0.0
    else if size < -400 then 0.0
    else Float.ofScientific n.digits (n.exponent < 0) n.exponent.natAbs
  if n.negative then -magnitude else magnitude

end Numeral

end Stagecraft

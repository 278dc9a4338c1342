import Stagecraft.Json.Parser
import Stagecraft.Decimal.Numeral

/-!
# What a number is worth

The double of a spelled number is found in two steps. Its digits are collected into a word of 64
bits as far as they fit, which leaves a power of ten; the word is then multiplied or divided by that
power in double precision. The result may miss the nearest double by a unit, and a number beyond the
doubles has none.
-/

namespace Stagecraft.Json

/-- Collect whole digits after a word; gives the word and how many digits did not fit. -/
def collectWhole : List Char → Nat → Nat × Nat
  | [], word => (word, 0)
  | c :: rest, word =>
    let longer := 10 * word + Numeral.digitValue c
    if longer < UInt64.size then collectWhole rest longer else (word, rest.length + 1)

/-- Collect digits of a fraction after a word; gives the word and how many digits did fit. -/
def collectFraction : List Char → Nat → Nat → Nat × Nat
  | [], word, taken => (word, taken)
  | c :: rest, word, taken =>
    let longer := 10 * word + Numeral.digitValue c
    if longer < UInt64.size then collectFraction rest longer (taken + 1) else (word, taken)

/-- The double nearest to a power of ten. -/
def powerOfTen (k : Nat) : Float := Float.ofScientific 1 false k

/-- Multiply by a power of ten, staying finite. -/
def scaleUp (f : Float) (k : Nat) : Option Float :=
  if k ≤ 308 then
    let g := f * powerOfTen k
    if g.isInf then none else some g
  else if f == 0.0 then some f
  else none

/-- Divide by a power of ten, in steps where the power is no double. -/
def scaleDown (f : Float) (k : Nat) : Float :=
  if k ≤ 308 then f / powerOfTen k
  else if f == 0.0 then f
  else scaleDown (f / powerOfTen 308) (k - 308)
termination_by k

/-- The exponents that are looked at; what lies beyond is too large or vanishes. -/
def exponentLimit : Nat := Nat.pow 2 31

/-- A word with a power of ten, and the exponent that was written for it. -/
def scale (word : Nat) (start : Int) (negativeExponent : Bool) (written : Nat) : Option Float :=
  if exponentLimit ≤ written then
    if word ≠ 0 && !negativeExponent then none else some 0.0
  else
    let e : Int := if negativeExponent then start - written else start + written
    let f := word.toUInt64.toFloat
    if 0 ≤ e then scaleUp f e.toNat else some (scaleDown f (-e).toNat)

/-- The magnitude of a number without its sign. -/
def magnitude? (cs : List Char) : Option Float :=
  let (whole, rest) := Numeral.takeDigits cs
  let (fraction, rest) := match rest with
    | '.' :: rest => Numeral.takeDigits rest
    | rest => ([], rest)
  let (negativeExponent, written) := match rest with
    | _ :: rest =>
      let (negative, ds) := Numeral.takeSign rest
      (negative, Numeral.digitsFrom 0 ds)
    | [] => (false, 0)
  let (word, dropped) := collectWhole whole 0
  let (word, taken) := collectFraction fraction word 0
  scale word ((dropped : Int) - taken) negativeExponent written

/-- The double that a spelled number is worth. -/
def worth? (spelling : String) : Option Float :=
  match spelling.toList with
  | '-' :: cs => (magnitude? cs).map fun f => -f
  | cs => magnitude? cs

/-- The natural number below `2 ^ 64` that is spelled with digits alone. -/
def natural? (spelling : String) : Option Nat :=
  let cs := spelling.toList
  if cs.all Char.isDigit then
    let n := Numeral.digitsFrom 0 cs
    if n < UInt64.size then some n else none
  else none

end Stagecraft.Json

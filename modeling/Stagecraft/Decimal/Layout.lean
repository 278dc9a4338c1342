import Stagecraft.Decimal.Shortest

/-!
# Laying out decimals

A `Layout` holds the decisions of one written form of numbers: which magnitudes are written without
an exponent, whether whole numbers keep a `.0`, how an exponent is marked. `Layout.render` writes a
double with the fewest digits that identify it.
-/

namespace Stagecraft

/-- The decisions of one written form of numbers. -/
structure Layout where
  /-- Numbers whose leading digit stands for `10 ^ e` with `e` from the first to below the second
  bound are written without an exponent; all are when there are no bounds. -/
  plain : Option (Int × Int)
  /-- Whole numbers written without an exponent end in `.0`. -/
  pointZero : Bool
  /-- A positive exponent has a `+`. -/
  plusExponent : Bool
  /-- Negative zero has its sign. -/
  signedZero : Bool
  /-- What is chosen between two equally near decimals. -/
  tie : Tie
  /-- What is not a number. -/
  notANumber : String
  /-- Infinity, to which the sign is added. -/
  infinity : String

namespace Layout

/-- Digits with the decimal point after the first `point` of them. -/
def placePoint (layout : Layout) (digits : List Char) (point : Int) : List Char :=
  if point ≤ 0 then '0' :: '.' :: (List.replicate (-point).toNat '0' ++ digits)
  else if digits.length ≤ point.toNat then
    digits ++ List.replicate (point.toNat - digits.length) '0' ++
      (if layout.pointZero then ['.', '0'] else [])
  else digits.take point.toNat ++ '.' :: digits.drop point.toNat

/-- The first digit, the point before the others if there are any, and the exponent. -/
def placeExponent (layout : Layout) (digits : List Char) (e : Int) : List Char :=
  let fraction := match digits.drop 1 with
    | [] => []
    | rest => '.' :: rest
  let sign := if e < 0 then ['-'] else if layout.plusExponent then ['+'] else []
  digits.take 1 ++ fraction ++ 'e' :: (sign ++ (toString e.natAbs).toList)

/-- A positive decimal, laid out. -/
def ofDecimal (layout : Layout) (d : Decimal) : List Char :=
  let digits := (toString d.digits).toList
  let e := d.exponent + digits.length - 1
  match layout.plain with
  | none => layout.placePoint digits (e + 1)
  | some (lo, hi) =>
    if lo ≤ e && e < hi then layout.placePoint digits (e + 1) else layout.placeExponent digits e

/-- The text of a double. -/
def render (layout : Layout) (x : Float) : String :=
  match Double.ofFloat? x with
  | none =>
    if x.isNaN then layout.notANumber
    else if x < 0.0 then "-" ++ layout.infinity else layout.infinity
  | some d =>
    if d.significand = 0 then
      (if d.negative && layout.signedZero then "-" else "") ++
        (if layout.pointZero then "0.0" else "0")
    else
      (if d.negative then "-" else "") ++
        String.ofList (layout.ofDecimal (Decimal.shortest layout.tie d))

end Layout

end Stagecraft

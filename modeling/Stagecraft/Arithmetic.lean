import Stagecraft.Decimal.Double

/-!
# Arithmetic of the motion and operator blocks

Angles, clamping, remainders and rounding to a number of decimals. The remainder is exact: it is
computed on the significands and has the sign of the dividend.
-/

namespace Stagecraft.Arithmetic

/-- The ratio of a circle's circumference to its diameter, to the nearest double. -/
def pi : Float := 3.141592653589793

/-- Degrees to radians. -/
def degToRad (degrees : Float) : Float := degrees * pi / 180.0

/-- Radians to degrees. -/
def radToDeg (radians : Float) : Float := radians * 180.0 / pi

/-- The greater of two numbers; what is not a number gives way. -/
def greater (a b : Float) : Float := if a.isNaN then b else if a < b then b else a

/-- The smaller of two numbers; what is not a number gives way. -/
def smaller (a b : Float) : Float := if a.isNaN then b else if b < a then b else a

/-- The number in `low … high` nearest to a value. -/
def clamp (value low high : Float) : Float := smaller (greater value low) high

/-- Wrap a number into the whole-number range from `low` up to and including `high`. -/
def wrapClamp (n low high : Float) : Float :=
  let range := (high - low) + 1.0
  n - ((n - low) / range).floor * range

/-- Two to the power of `e`, for the exponents of doubles. -/
def twoTo (e : Int) : Float :=
  if -1022 ≤ e then Float.ofBits ((e + 1023).toNat * Nat.pow 2 52).toUInt64
  else Float.ofBits (Nat.pow 2 (e + 1074).toNat).toUInt64

/-- The remainder of a division that is rounded towards zero. -/
def remainder (x y : Float) : Float :=
  match Double.ofFloat? x, Double.ofFloat? y with
  | some a, some b =>
    if b.significand = 0 then 0.0 / 0.0
    else
      let e := min a.exponent b.exponent
      let m := a.significand * Nat.pow 2 (a.exponent - e).toNat %
        (b.significand * Nat.pow 2 (b.exponent - e).toNat)
      let magnitude := m.toUInt64.toFloat * twoTo e
      if a.negative then -magnitude else magnitude
  | some _, none => if y.isNaN then y else x
  | none, _ => 0.0 / 0.0

/-- The remainder with the sign of the divisor. -/
def modulo (n modulus : Float) : Float :=
  let r := remainder n modulus
  if r / modulus < 0.0 then r + modulus else r

/-- A power with a natural exponent by repeated squaring, over `bits` binary digits of it. -/
def powerFrom : Nat → Float → Nat → Float → Float
  | 0, _, _, acc => acc
  | bits + 1, base, n, acc =>
    let acc := if n % 2 = 1 then acc * base else acc
    if n / 2 = 0 then acc else powerFrom bits (base * base) (n / 2) acc

/-- A power with a whole exponent; a negative one gives the reciprocal. -/
def power (base : Float) (n : Int) : Float :=
  let r := powerFrom 64 base n.natAbs 1.0
  if n < 0 then 1.0 / r else r

/-- Round to a number of decimals, halves away from zero. -/
def roundTo (value : Float) (decimals : Int) : Float :=
  let scale := power 10.0 decimals
  (value * scale).round / scale

/-- The tangent of an angle in degrees, infinite at the poles and rounded to ten decimals. -/
def tangent (angle : Float) : Float :=
  let angle := remainder angle 360.0
  if angle == 90.0 || angle == -270.0 then 1.0 / 0.0
  else if angle == -90.0 || angle == 270.0 then -(1.0 / 0.0)
  else roundTo (pi * angle / 180.0).tan 10

/-- Round to the nearest whole number, halves up. -/
def roundHalfUp (n : Float) : Float := (n + 0.5).floor

/-- The functions of the mathematics block by their lower-case names; an unknown one gives zero. -/
def mathFunction (name : String) (n : Float) : Float :=
  match name with
  | "abs" => n.abs
  | "floor" => n.floor
  | "ceiling" => n.ceil
  | "sqrt" => n.sqrt
  | "sin" => roundTo (degToRad n).sin 10
  | "cos" => roundTo (degToRad n).cos 10
  | "tan" => tangent n
  | "asin" => radToDeg n.asin
  | "acos" => radToDeg n.acos
  | "atan" => radToDeg n.atan
  | "ln" => n.log
  | "log" => n.log10
  | "e ^" => n.exp
  | "10 ^" => Float.pow 10.0 n
  | _ => 0.0

end Stagecraft.Arithmetic

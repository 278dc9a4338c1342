/-!
# Doubles as exact numbers

A finite double is `± significand * 2 ^ exponent`. `Double.ofFloat?` reads the three parts off the
bits, and everything that must be exact (text, whole parts, durations) is computed from them in
integer arithmetic.
-/

namespace Stagecraft

/-- A finite double: `significand * 2 ^ exponent`, negated when `negative`. -/
structure Double where
  /-- Whether the sign bit is set. -/
  negative : Bool
  /-- The significand, below `2 ^ 53`. -/
  significand : Nat
  /-- The power of two that scales it. -/
  exponent : Int
  /-- The gap to the next smaller magnitude is half the gap to the next larger one. -/
  narrowBelow : Bool
deriving DecidableEq

namespace Double

/-- The parts of a finite double; nothing for the infinities and what is not a number. -/
def ofFloat? (x : Float) : Option Double :=
  let bits : Nat := x.toBits.toNat
  let field : Nat := bits / Nat.pow 2 52 % Nat.pow 2 11
  let fraction : Nat := bits % Nat.pow 2 52
  let negative := bits / Nat.pow 2 63 == 1
  if field = 2047 then none
  else if field = 0 then some ⟨negative, fraction, -1074, false⟩
  else some ⟨negative, Nat.pow 2 52 + fraction, (field : Int) - 1075, fraction == 0 && 1 < field⟩

/-- The magnitude is `numerator / denominator`. -/
def numerator (d : Double) : Nat := d.significand * Nat.pow 2 d.exponent.toNat

/-- The magnitude is `numerator / denominator`; the denominator is a power of two. -/
def denominator (d : Double) : Nat := Nat.pow 2 (-d.exponent).toNat

/-- The greatest integer that is not above the number. -/
def floor (d : Double) : Int :=
  if d.negative then -((d.numerator + d.denominator - 1) / d.denominator : Nat)
  else (d.numerator / d.denominator : Nat)

/-- The integer part, towards zero. -/
def truncate (d : Double) : Int :=
  if d.negative then -(d.numerator / d.denominator : Nat) else (d.numerator / d.denominator : Nat)

/-- Whether the number is an integer. -/
def isWhole (d : Double) : Bool := d.numerator % d.denominator == 0

theorem denominator_pos (d : Double) : 0 < d.denominator := Nat.two_pow_pos _

end Double

/-! ### Integers next to a double -/

/-- Whether a double is an integer. -/
def isWhole (x : Float) : Bool :=
  match Double.ofFloat? x with
  | some d => d.isWhole
  | none => false

/-- The integer part of a double, kept inside `lo … hi`; what is not a number counts as zero. -/
def clampToInt (lo hi : Int) (x : Float) : Int :=
  match Double.ofFloat? x with
  | some d => max lo (min hi d.truncate)
  | none => if x.isNaN then 0 else if 0.0 < x then hi else lo

/-- The nearest double to a natural number, ties to even, as a natural number again. -/
def nearestDouble (n : Nat) : Nat :=
  let drop := Nat.log2 n - 52
  let unit := Nat.pow 2 drop
  let q := n / unit
  let r := n % unit
  let up := unit < 2 * r || (2 * r == unit && q % 2 == 1)
  (if up then q + 1 else q) * unit

end Stagecraft

import Stagecraft.Decimal.Double

/-!
# The fewest digits that identify a double

A decimal identifies a double when it lies among the reals that round to it. `Decimal.shortest`
takes the coarsest power-of-ten grid with such a decimal next to the value, and on it the nearer of
the value's two neighbours. Everything is decided by exact comparison of natural numbers.
-/

namespace Stagecraft

/-- Which of two equally near decimals is taken. -/
inductive Tie where
  /-- The one with an even last digit. -/
  | toEven
  /-- The one with the larger magnitude. -/
  | away
deriving DecidableEq

/-- The decimal `digits * 10 ^ exponent`. -/
structure Decimal where
  /-- The digits, read as one natural number. -/
  digits : Nat
  /-- The power of ten that scales them. -/
  exponent : Int
deriving DecidableEq

namespace Decimal

/-- Compare `a * 10 ^ i` with `n * 2 ^ j`. -/
def compareScaled (a : Nat) (i : Int) (n : Nat) (j : Int) : Ordering :=
  compare (a * Nat.pow 10 i.toNat * Nat.pow 2 (-j).toNat)
    (n * Nat.pow 2 j.toNat * Nat.pow 10 (-i).toNat)

/-- Whether a decimal lies among the reals that round to the magnitude of a double: between the
midpoints to its neighbours, the midpoints themselves included when the significand is even. -/
def identifies (d : Decimal) (x : Double) : Bool :=
  let low := if x.narrowBelow then 4 * x.significand - 1 else 4 * x.significand - 2
  let high := 4 * x.significand + 2
  let closed := x.significand % 2 == 0
  let atLow := compareScaled d.digits d.exponent low (x.exponent - 2)
  let atHigh := compareScaled d.digits d.exponent high (x.exponent - 2)
  (atLow == .gt || (closed && atLow == .eq)) && (atHigh == .lt || (closed && atHigh == .eq))

/-- The least `k`, from `k` on and at most `tries` steps up, with the magnitude below `10 ^ k`. -/
def decadeFrom (x : Double) : Nat → Int → Int
  | 0, k => k
  | tries + 1, k =>
    if compareScaled 1 k x.significand x.exponent == .gt then k else decadeFrom x tries (k + 1)

/-- The least `k` with the magnitude below `10 ^ k`, from an estimate by the binary logarithm. -/
def decade (x : Double) : Int :=
  decadeFrom x 5 (((Nat.log2 x.significand : Int) + x.exponent) * 30103 / 100000 - 1)

/-- The value's neighbour on the grid `10 ^ g` that identifies it, the nearer one if both do. -/
def onGrid? (tie : Tie) (x : Double) (g : Int) : Option Decimal :=
  let num := x.numerator * Nat.pow 10 (-g).toNat
  let den := x.denominator * Nat.pow 10 g.toNat
  let below : Decimal := ⟨num / den, g⟩
  let above : Decimal := ⟨num / den + 1, g⟩
  match below.identifies x && below.digits != 0, above.identifies x with
  | true, false => some below
  | false, true => some above
  | true, true =>
    match compare (2 * (num % den)) den with
    | .lt => some below
    | .gt => some above
    | .eq => match tie with
      | .away => some above
      | .toEven => if below.digits % 2 == 0 then some below else some above
  | false, false => none

/-- What is found on a grid identifies the double, and is not zero. -/
theorem onGrid?_eq_some {tie : Tie} {x : Double} {g : Int} {d : Decimal}
    (h : onGrid? tie x g = some d) : d.identifies x = true ∧ d.digits ≠ 0 := by
  unfold onGrid? at h
  simp only at h
  split at h
  · rename_i hbelow _
    simp only [Bool.and_eq_true, bne_iff_ne] at hbelow
    cases h
    exact hbelow
  · rename_i habove
    cases h
    exact ⟨habove, Nat.succ_ne_zero _⟩
  · rename_i hbelow habove
    simp only [Bool.and_eq_true, bne_iff_ne] at hbelow
    split at h
    · cases h
      exact hbelow
    · cases h
      exact ⟨habove, Nat.succ_ne_zero _⟩
    · cases tie with
      | away =>
        cases h
        exact ⟨habove, Nat.succ_ne_zero _⟩
      | toEven =>
        simp only at h
        split at h
        · cases h
          exact hbelow
        · cases h
          exact ⟨habove, Nat.succ_ne_zero _⟩
  · cases h

/-- Move trailing zeros of the digits into the exponent, at most `tries` of them. -/
def strip : Nat → Decimal → Decimal
  | 0, d => d
  | tries + 1, d =>
    if d.digits != 0 && d.digits % 10 == 0 then strip tries ⟨d.digits / 10, d.exponent + 1⟩ else d

/-- The shortest decimal that identifies the magnitude of a nonzero double. Seventeen digits are
enough for every double; the exact value stands in where no grid has a neighbour. -/
def shortest (tie : Tie) (x : Double) : Decimal :=
  let k := decade x
  let found := (List.range 17).findSome? fun (n : Nat) => onGrid? tie x (k - n - 1)
  match found with
  | some d => strip 400 d
  | none => strip 1100 ⟨x.numerator * Nat.pow 5 (-x.exponent).toNat, min x.exponent 0⟩

end Decimal

end Stagecraft

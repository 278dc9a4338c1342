import Stagecraft.Value.Number
import Stagecraft.Text.Casing

/-!
# Script values

Inputs, variables and reporter results are values of one of three kinds. Every primitive casts its
arguments to what it needs; no cast fails. Two values are compared as numbers when both read as
numbers, where a text of blanks does not count as one, and otherwise as texts without regard to
case.
-/

namespace Stagecraft

/-- A value of a script. -/
inductive Value where
  | number (n : Float)
  | text (s : String)
  | flag (b : Bool)
deriving DecidableEq

namespace Value

/-- What a missing input and an unknown reporter evaluate to. -/
def blank : Value := .text ""

instance : Inhabited Value := ⟨blank⟩

/-- The number a value reads as; what is not a number stays so. -/
def strictNumber : Value → Float
  | .number n => n
  | .flag b => if b then 1.0 else 0.0
  | .text s => readNumber s

/-- The number a value counts as: zero for everything that is not a number. -/
def toNumber (v : Value) : Float :=
  let n := v.strictNumber
  if n.isNaN then 0.0 else n

/-- The truth of a value: the empty text, `0` and `false` in any ASCII case are false. -/
def toFlag : Value → Bool
  | .flag b => b
  | .number n => !(n == 0.0) && !n.isNaN
  | .text s => !(s.isEmpty || s == "0" || s.toList.map Char.toLower == "false".toList)

/-- The text of a value. -/
def toText : Value → String
  | .number n => writeNumber n
  | .text s => s
  | .flag b => if b then "true" else "false"

/-- Whether a value reads as an integer: a text does when it has no decimal point, and what is not
a number does too. -/
def isWhole : Value → Bool
  | .number n => n.isNaN || Stagecraft.isWhole n
  | .flag _ => true
  | .text s => !s.toList.contains '.'

/-- Whether a value is a text of blanks alone, or empty. -/
def isBlank : Value → Bool
  | .text s => Text.isAllBlank s
  | _ => false

/-! ### Order -/

/-- Whether a value reads as zero only because it is blank. -/
def isBlankZero (v : Value) : Bool := v.strictNumber == 0.0 && v.isBlank

/-- The order of two numbers; numbers of which neither is smaller are equal. -/
def compareNumbers (a b : Float) : Ordering :=
  if a < b then .lt else if b < a then .gt else .eq

/-- The order of two texts, ignoring case. -/
def compareTexts (a b : String) : Ordering :=
  compareOfLessAndEq (Text.lower a) (Text.lower b)

/-- The order of two values, as the comparison operators see it. -/
def compare (a b : Value) : Ordering :=
  let n := if a.isBlankZero then notANumber else a.strictNumber
  let m := if !a.isBlankZero && b.isBlankZero then notANumber else b.strictNumber
  if n.isNaN || m.isNaN then compareTexts a.toText b.toText else compareNumbers n m

end Value

end Stagecraft

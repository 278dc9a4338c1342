import Stagecraft.Primitive.Data
import Stagecraft.Arithmetic

/-!
# Operator primitives

Arithmetic, comparison, logic and text. Only the random number touches the world.
-/

namespace Stagecraft.Primitive

variable {σ : Type}

/-- A number between two bounds; a whole one when both bounds read as integers. -/
def randomBetween (lower upper : Value) (draw : Nat) : Float :=
  let n := lower.toNumber
  let m := upper.toNumber
  let (low, high) := if n ≤ m then (n, m) else (m, n)
  let r := draw.toUInt64.toFloat / 9007199254740992.0
  if low == high then low
  else if lower.isWhole && upper.isWhole then low + (r * (high + 1.0 - low)).floor
  else r * (high - low) + low

/-- The character at a position counted from one; nothing outside the text. -/
def letterOf (position : Float) (text : String) : String :=
  let i := position - 1.0
  if i < 0.0 then ""
  else match text.toList[(clampToInt 0 (UInt64.size - 1 : Nat) i).toNat]? with
    | some c => String.singleton c
    | none => ""

/-- Whether a list of characters occurs in another. -/
def occursIn (needle : List Char) : List Char → Bool
  | [] => needle.isEmpty
  | c :: rest => needle.isPrefixOf (c :: rest) || occursIn needle rest

/-- Whether a text occurs in another, ignoring case. -/
def containsText (text part : String) : Bool :=
  occursIn (Text.lower part).toList (Text.lower text).toList

/-- The value of an operator that touches nothing. -/
def operate (op : OperatorOp) (site : Site) (args : Args) (draw : Nat) : Value :=
  let order := (args.value "OPERAND1").compare (args.value "OPERAND2")
  match op with
  | .add => .number (args.number "NUM1" + args.number "NUM2")
  | .subtract => .number (args.number "NUM1" - args.number "NUM2")
  | .multiply => .number (args.number "NUM1" * args.number "NUM2")
  | .divide => .number (args.number "NUM1" / args.number "NUM2")
  | .modulo => .number (Arithmetic.modulo (args.number "NUM1") (args.number "NUM2"))
  | .round => .number (Arithmetic.roundHalfUp (args.number "NUM"))
  | .random => .number (randomBetween (args.value "FROM") (args.value "TO") draw)
  | .less => .flag (order == .lt)
  | .equals => .flag (order == .eq)
  | .greater => .flag (order == .gt)
  | .and => .flag (args.flag "OPERAND1" && args.flag "OPERAND2")
  | .or => .flag (args.flag "OPERAND1" || args.flag "OPERAND2")
  | .not => .flag (!args.flag "OPERAND")
  | .join => .text (args.text "STRING1" ++ args.text "STRING2")
  | .letterOf => .text (letterOf (args.number "LETTER") (args.text "STRING"))
  | .length => .number (args.text "STRING").length.toUInt64.toFloat
  | .contains => .flag (containsText (args.text "STRING1") (args.text "STRING2"))
  | .mathFunction =>
    .number (Arithmetic.mathFunction (Text.lower ((site.field? "OPERATOR").getD ""))
      (args.number "NUM"))

/-- Run an operator. -/
def operator (op : OperatorOp) (site : Site) (args : Args) (s : Scene σ) : Scene σ × Outcome :=
  match op with
  | .random =>
    let (s, n) := draw s
    (s, .value (operate .random site args n))
  | op => (s, .value (operate op site args 0))

end Stagecraft.Primitive

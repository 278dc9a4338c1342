import Stagecraft.Value.Basic

/-!
# Positions in a list

An index argument is `all`, `last`, `random` or `any`, or a number counted from one. A random
position comes from a draw that the caller supplies.
-/

namespace Stagecraft

/-- What an index argument means for a list. -/
inductive ListIndex where
  /-- A position, counted from one. -/
  | position (i : Nat)
  /-- The whole list. -/
  | all
  /-- Outside the list, or no index at all. -/
  | invalid
deriving DecidableEq

namespace Value

/-- The last position that can be named at all. -/
def lastPosition : Nat := UInt64.size - 1

/-- The position a number names: its floor, if that lies from one up to the length. The length is
compared as a double, so that beyond `2 ^ 53` it is the nearest one. -/
def positionOf (n : Float) (length : Nat) : ListIndex :=
  match Double.ofFloat? n with
  | some d =>
    if 1 ≤ d.floor && d.floor ≤ nearestDouble length then
      .position (min d.floor.toNat lastPosition)
    else .invalid
  | none => .invalid

/-- What an index argument means for a list of `length` items; `all` counts only if it is
accepted, and `draw` picks a random position. -/
def toListIndex (v : Value) (length : Nat) (acceptAll : Bool) (draw : Nat) : ListIndex :=
  match v with
  | .text "all" => if acceptAll then .all else .invalid
  | .text "last" => if 0 < length then .position length else .invalid
  | .text "random" => if 0 < length then .position (draw % length + 1) else .invalid
  | .text "any" => if 0 < length then .position (draw % length + 1) else .invalid
  | v => positionOf v.toNumber length

end Value

/-- The text of a list of values: items of one character each stand side by side, all others are
separated by a space. -/
def joinValues (items : List Value) : String :=
  let texts := items.map Value.toText
  let separator := if texts.all fun s => s.length == 1 then "" else " "
  separator.intercalate texts

end Stagecraft

import Stagecraft.Primitive.Scene

/-!
# Motion and looks primitives

Position, bubbles and visibility. The stage does neither move nor speak; its position reads zero.
-/

namespace Stagecraft.Primitive

variable {σ : Type}

/-- The running actor, unless it is a stage. -/
def performer? (s : Scene σ) : Option Actor := s.actor?.filter (!·.isStage)

/-- Move the running actor; a visible one asks for a redraw. -/
def moveTo (s : Scene σ) (path : Float → Float → Float × Float) : Scene σ :=
  match performer? s with
  | none => s
  | some a =>
    let (x, y) := path a.x a.y
    let s := s.modifyActor (·.setXY x y)
    if a.visible then s.requestRedraw else s

/-- Change the looks of the running actor. -/
def restyle (s : Scene σ) (f : Actor → Actor) : Scene σ :=
  match performer? s with
  | none => s
  | some _ => (s.modifyActor f).requestRedraw

/-- A coordinate of the running actor. -/
def coordinate (s : Scene σ) (f : Actor → Float) : Value :=
  match performer? s with
  | some a => .number (f a)
  | none => .number 0.0

/-- Run a motion primitive. -/
def motion (op : MotionOp) (args : Args) (s : Scene σ) : Scene σ × Outcome :=
  match op with
  | .goToXY => (moveTo s fun _ _ => (args.number "X", args.number "Y"), .done)
  | .changeXBy => (moveTo s fun x y => (x + args.number "DX", y), .done)
  | .changeYBy => (moveTo s fun x y => (x, y + args.number "DY"), .done)
  | .setX => (moveTo s fun _ y => (args.number "X", y), .done)
  | .setY => (moveTo s fun x _ => (x, args.number "Y"), .done)
  | .xPosition => (s, .value (coordinate s (·.x)))
  | .yPosition => (s, .value (coordinate s (·.y)))

/-- Run a looks primitive. -/
def looks (op : LooksOp) (args : Args) (s : Scene σ) : Scene σ × Outcome :=
  match op with
  | .say =>
    let message := args.text "MESSAGE"
    (restyle s fun a => { a with bubble := if message.isEmpty then none else some message }, .done)
  | .show => (restyle s fun a => { a with visible := true }, .done)
  | .hide => (restyle s fun a => { a with visible := false }, .done)

end Stagecraft.Primitive

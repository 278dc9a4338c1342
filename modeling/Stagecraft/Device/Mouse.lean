import Stagecraft.Arithmetic

/-!
# The mouse

The pointer's position on the host's canvas and on the stage, and whether its button is down.
-/

namespace Stagecraft

/-- What the host tells about the pointer; coordinates count only on a canvas with an extent. -/
structure MouseMove where
  /-- Horizontal position on the canvas. -/
  x : Option Float
  /-- Vertical position on the canvas. -/
  y : Option Float
  /-- The width of the canvas. -/
  canvasWidth : Float
  /-- The height of the canvas. -/
  canvasHeight : Float
  /-- Whether the button is down. -/
  down : Option Bool

/-- The pointer. -/
structure Mouse where
  /-- The width of the stage. -/
  stageWidth : Float
  /-- The height of the stage. -/
  stageHeight : Float
  /-- Horizontal position on the canvas. -/
  clientX : Float
  /-- Vertical position on the canvas. -/
  clientY : Float
  /-- Horizontal position on the stage, whole and inside it. -/
  stageX : Float
  /-- Vertical position on the stage, whole and inside it. -/
  stageY : Float
  /-- Whether the button is down. -/
  down : Bool
deriving DecidableEq

namespace Mouse

open Arithmetic

/-- A pointer at the origin of a stage. -/
def create (stageWidth stageHeight : Float) : Mouse :=
  ⟨stageWidth, stageHeight, 0.0, 0.0, 0.0, 0.0, false⟩

/-- Move the pointer horizontally. -/
def moveX (m : Mouse) (x canvas : Float) : Mouse :=
  let along := m.stageWidth * (x / canvas - 0.5)
  { m with
    clientX := x
    stageX := roundHalfUp (clamp along (-m.stageWidth / 2.0) (m.stageWidth / 2.0)) }

/-- Move the pointer vertically; the stage's axis points up. -/
def moveY (m : Mouse) (y canvas : Float) : Mouse :=
  let along := -m.stageHeight * (y / canvas - 0.5)
  { m with
    clientY := y
    stageY := roundHalfUp (clamp along (-m.stageHeight / 2.0) (m.stageHeight / 2.0)) }

/-- Take in what the host tells. -/
def post (m : Mouse) (e : MouseMove) : Mouse :=
  let m := match e.x with
    | some x => if 0.0 < e.canvasWidth then m.moveX x e.canvasWidth else m
    | none => m
  let m := match e.y with
    | some y => if 0.0 < e.canvasHeight then m.moveY y e.canvasHeight else m
    | none => m
  { m with down := e.down.getD m.down }

end Mouse

end Stagecraft

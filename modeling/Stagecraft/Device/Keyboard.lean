import Stagecraft.Event
import Stagecraft.Text.Casing

/-!
# The keyboard

Keys have names: a few have a word, the others are the upper-case form of their character. The
keyboard knows the names of the keys that are held, and raises an event for every key that goes
down.
-/

namespace Stagecraft

/-- The key names that are words. -/
def keyWords : List String :=
  ["space", "left arrow", "up arrow", "right arrow", "down arrow", "enter", "any"]

/-- The name of a key of the host; nothing for keys that scripts cannot see. -/
def keyName? (key : String) : Option String :=
  match key with
  | " " => some "space"
  | "ArrowLeft" => some "left arrow"
  | "Left" => some "left arrow"
  | "ArrowUp" => some "up arrow"
  | "Up" => some "up arrow"
  | "ArrowRight" => some "right arrow"
  | "Right" => some "right arrow"
  | "ArrowDown" => some "down arrow"
  | "Down" => some "down arrow"
  | "Enter" => some "enter"
  | key => match key.toList with
    | [c] => some (String.ofList (Text.upperChar c))
    | _ => none

/-- The key that a whole number names: a digit or capital by its code, or a word. -/
def keyOfCode? (code : Float) : Option String :=
  if 48.0 ≤ code && code ≤ 90.0 && isWhole code then
    some (String.singleton (Char.ofNat (clampToInt 0 90 code).toNat))
  else match clampToInt (-1) 1000 code with
    | 32 => some "space"
    | 37 => some "left arrow"
    | 38 => some "up arrow"
    | 39 => some "right arrow"
    | 40 => some "down arrow"
    | _ => none

/-- The key that a text names: a word, or the upper-case form of its first character. -/
def keyOfText? (text : String) : Option String :=
  if keyWords.contains text then some text
  else match text.toList with
    | [] => none
    | c :: _ => some (String.ofList (Text.upperChar c))

/-- The key that an argument names. -/
def keyOfValue? (v : Value) : Option String :=
  match v with
  | .number code => match keyOfCode? code with
    | some name => some name
    | none => keyOfText? v.toText
  | v => keyOfText? v.toText

/-- The keys that are held, by name, oldest first. -/
structure Keyboard where
  /-- The names. -/
  held : List String
deriving DecidableEq

namespace Keyboard

/-- No key is held. -/
def empty : Keyboard := ⟨[]⟩

/-- Whether the key that an argument names is held; `any` asks for any key at all. -/
def isDown (k : Keyboard) (v : Value) : Bool :=
  match keyOfValue? v with
  | none => false
  | some "any" => !k.held.isEmpty
  | some name => k.held.contains name

/-- A key of the host goes down or up; a key going down raises events. -/
def post (k : Keyboard) (key : String) (down : Bool) : Keyboard × List Event :=
  match keyName? key with
  | none => (k, [])
  | some name =>
    if down then
      (⟨if k.held.contains name then k.held else k.held ++ [name]⟩,
        [.keyPressed name, .keyPressed "any"])
    else (⟨k.held.filter (· ≠ name)⟩, [])

end Keyboard

end Stagecraft

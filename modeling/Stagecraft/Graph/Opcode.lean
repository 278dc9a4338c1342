/-!
# Opcodes

The operation of a block, by family. Names without a built-in operation are kept as they are: they
may belong to a host extension, and they survive saving either way.

* `Opcode.name_ofName`: a name that was read is written back as it was.
-/

namespace Stagecraft

/-- Loops, conditions, waits, stopping and clones. -/
inductive ControlOp where
  | forever
  | repeatTimes
  | repeatUntil
  | whileTrue
  | ifThen
  | ifElse
  | wait
  | waitUntil
  | stop
  | createCloneOf
  | createCloneOfMenu
  | deleteThisClone
  | startAsClone
  | allAtOnce
deriving DecidableEq

/-- Hats of events, and broadcasts. -/
inductive EventOp where
  | whenFlagClicked
  | whenBroadcastReceived
  | whenKeyPressed
  | whenThisSpriteClicked
  | broadcast
  | broadcastAndWait
  | broadcastMenu
deriving DecidableEq

/-- Variables and lists. -/
inductive DataOp where
  | variable
  | setVariable
  | changeVariable
  | listContents
  | addToList
  | deleteOfList
  | deleteAllOfList
  | insertAtList
  | replaceItemOfList
  | itemOfList
  | lengthOfList
  | listContainsItem
deriving DecidableEq

/-- Arithmetic, comparison, logic and text. -/
inductive OperatorOp where
  | add
  | subtract
  | multiply
  | divide
  | modulo
  | round
  | random
  | less
  | equals
  | greater
  | and
  | or
  | not
  | join
  | letterOf
  | length
  | contains
  | mathFunction
deriving DecidableEq

/-- Procedures and their arguments. -/
inductive ProcedureOp where
  | definition
  | prototype
  | call
  | argumentText
  | argumentFlag
deriving DecidableEq

/-- Position. -/
inductive MotionOp where
  | goToXY
  | changeXBy
  | changeYBy
  | setX
  | setY
  | xPosition
  | yPosition
deriving DecidableEq

/-- Bubbles and visibility. -/
inductive LooksOp where
  | say
  | show
  | hide
deriving DecidableEq

/-- Timer, keyboard, mouse, user and prompts. -/
inductive SensingOp where
  | timer
  | resetTimer
  | keyPressed
  | keyOptions
  | mouseX
  | mouseY
  | mouseDown
  | username
  | askAndWait
  | answer
deriving DecidableEq

/-- The operation of a block. -/
inductive Opcode where
  | control (op : ControlOp)
  | event (op : EventOp)
  | data (op : DataOp)
  | operator (op : OperatorOp)
  | procedure (op : ProcedureOp)
  | motion (op : MotionOp)
  | looks (op : LooksOp)
  | sensing (op : SensingOp)
  /-- An operation that is not built in. -/
  | custom (name : String)
deriving DecidableEq

namespace Opcode

/-- The built-in operations with the names under which they are saved. -/
def builtIns : List (String × Opcode) :=
  [("control_forever", .control .forever),
   ("control_repeat", .control .repeatTimes),
   ("control_repeat_until", .control .repeatUntil),
   ("control_while", .control .whileTrue),
   ("control_if", .control .ifThen),
   ("control_if_else", .control .ifElse),
   ("control_wait", .control .wait),
   ("control_wait_until", .control .waitUntil),
   ("control_stop", .control .stop),
   ("control_create_clone_of", .control .createCloneOf),
   ("control_create_clone_of_menu", .control .createCloneOfMenu),
   ("control_delete_this_clone", .control .deleteThisClone),
   ("control_start_as_clone", .control .startAsClone),
   ("control_all_at_once", .control .allAtOnce),
   ("event_whenflagclicked", .event .whenFlagClicked),
   ("event_whenbroadcastreceived", .event .whenBroadcastReceived),
   ("event_whenkeypressed", .event .whenKeyPressed),
   ("event_whenthisspriteclicked", .event .whenThisSpriteClicked),
   ("event_broadcast", .event .broadcast),
   ("event_broadcastandwait", .event .broadcastAndWait),
   ("event_broadcast_menu", .event .broadcastMenu),
   ("data_variable", .data .variable),
   ("data_setvariableto", .data .setVariable),
   ("data_changevariableby", .data .changeVariable),
   ("data_listcontents", .data .listContents),
   ("data_addtolist", .data .addToList),
   ("data_deleteoflist", .data .deleteOfList),
   ("data_deletealloflist", .data .deleteAllOfList),
   ("data_insertatlist", .data .insertAtList),
   ("data_replaceitemoflist", .data .replaceItemOfList),
   ("data_itemoflist", .data .itemOfList),
   ("data_lengthoflist", .data .lengthOfList),
   ("data_listcontainsitem", .data .listContainsItem),
   ("operator_add", .operator .add),
   ("operator_subtract", .operator .subtract),
   ("operator_multiply", .operator .multiply),
   ("operator_divide", .operator .divide),
   ("operator_mod", .operator .modulo),
   ("operator_round", .operator .round),
   ("operator_random", .operator .random),
   ("operator_lt", .operator .less),
   ("operator_equals", .operator .equals),
   ("operator_gt", .operator .greater),
   ("operator_and", .operator .and),
   ("operator_or", .operator .or),
   ("operator_not", .operator .not),
   ("operator_join", .operator .join),
   ("operator_letter_of", .operator .letterOf),
   ("operator_length", .operator .length),
   ("operator_contains", .operator .contains),
   ("operator_mathop", .operator .mathFunction),
   ("procedures_definition", .procedure .definition),
   ("procedures_prototype", .procedure .prototype),
   ("procedures_call", .procedure .call),
   ("argument_reporter_string_number", .procedure .argumentText),
   ("argument_reporter_boolean", .procedure .argumentFlag),
   ("motion_gotoxy", .motion .goToXY),
   ("motion_changexby", .motion .changeXBy),
   ("motion_changeyby", .motion .changeYBy),
   ("motion_setx", .motion .setX),
   ("motion_sety", .motion .setY),
   ("motion_xposition", .motion .xPosition),
   ("motion_yposition", .motion .yPosition),
   ("looks_say", .looks .say),
   ("looks_show", .looks .show),
   ("looks_hide", .looks .hide),
   ("sensing_timer", .sensing .timer),
   ("sensing_resettimer", .sensing .resetTimer),
   ("sensing_keypressed", .sensing .keyPressed),
   ("sensing_keyoptions", .sensing .keyOptions),
   ("sensing_mousex", .sensing .mouseX),
   ("sensing_mousey", .sensing .mouseY),
   ("sensing_mousedown", .sensing .mouseDown),
   ("sensing_username", .sensing .username),
   ("sensing_askandwait", .sensing .askAndWait),
   ("sensing_answer", .sensing .answer)]

/-- The operation saved under a name; a name that is not built in is kept. -/
def ofName (name : String) : Opcode :=
  match builtIns.find? fun e => e.1 = name with
  | some e => e.2
  | none => .custom name

/-- The name under which an operation is saved. -/
def name (op : Opcode) : String :=
  match op with
  | .custom name => name
  | op => match builtIns.find? fun e => e.2 = op with
    | some e => e.1
    | none => ""

/-- Whether a hat restarts a script that is already running; nothing for what is not a hat. -/
def restartsRunning? : Opcode → Option Bool
  | .event .whenFlagClicked => some true
  | .event .whenBroadcastReceived => some true
  | .event .whenThisSpriteClicked => some true
  | .event .whenKeyPressed => some false
  | .control .startAsClone => some false
  | _ => none

/-- Whether a block only reports the value of its single field. -/
def isMenu : Opcode → Bool
  | .control .createCloneOfMenu => true
  | .event .broadcastMenu => true
  | .sensing .keyOptions => true
  | _ => false

/-- Whether an operation is built in. -/
def isBuiltIn : Opcode → Bool
  | .custom _ => false
  | _ => true

/-! ### Names and operations -/

theorem name_of_mem_builtIns : ∀ e ∈ builtIns, e.2.name = e.1 := by decide +kernel

/-- Writing the name of an operation that was read gives the name back. -/
theorem name_ofName (s : String) : (ofName s).name = s := by
  unfold ofName
  split
  · next e h =>
    have hm := name_of_mem_builtIns e (List.mem_of_find?_eq_some h)
    have hs := List.find?_some h
    simp only [decide_eq_true_eq] at hs
    rw [hm, hs]
  · rfl

end Opcode

end Stagecraft

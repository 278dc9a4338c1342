import Stagecraft.Directory
import Stagecraft.Settings.Basic
import Stagecraft.Ron.Value
import Stagecraft.Json.Record

/-!
# The file formats of settings

Settings are written as a RON structure or as a JSON record. Every field may be missing and then
keeps its standard; fields that are not known are ignored. Which format a file has is told by the
ending of its name.
-/

namespace Stagecraft

/-- Why settings could not be read. -/
inductive SettingsError where
  /-- The file could not be read. -/
  | io (cause : FileError)
  /-- The text is no RON structure of settings. -/
  | ron
  /-- The text is no JSON record of settings. -/
  | json
  /-- The file has another ending. -/
  | unsupported (ending : String)
deriving DecidableEq

/-- What is said about an ending that is not supported. -/
def SettingsError.unsupportedText (ending : String) : String :=
  "Unsupported config format: '" ++ ending ++ "' (expected .ron or .json)"

namespace Settings

/-- The names of the fields, in order. -/
def fieldNames : List String :=
  ["framerate", "work_fraction", "warp_time_ms", "max_call_depth", "max_reporter_depth",
   "max_clones", "turbo_mode", "repeat_until_redraw", "cloud_updates_per_second", "stage_width",
   "stage_height"]

/-! ### JSON -/

/-- Read a side of the stage from a document. -/
def Extent.ofJson? (j : Json) : Option Extent := j.float?.map .ofFloat

/-- Read settings from a document. -/
def ofJson? (j : Json) : Option Settings := do
  let r ← j.record? fieldNames
  return {
    framerate := ← r.optional? "framerate" standard.framerate (Json.word? 32)
    workFraction := ← r.optional? "work_fraction" standard.workFraction Json.float?
    warpTimeMs := ← r.optional? "warp_time_ms" standard.warpTimeMs (Json.word? 64)
    maxCallDepth := ← r.optional? "max_call_depth" standard.maxCallDepth (Json.word? 64)
    maxReporterDepth := ← r.optional? "max_reporter_depth" standard.maxReporterDepth (Json.word? 64)
    maxClones := ← r.optional? "max_clones" standard.maxClones (Json.word? 64)
    turboMode := ← r.optional? "turbo_mode" standard.turboMode Json.bool?
    repeatUntilRedraw :=
      ← r.optional? "repeat_until_redraw" standard.repeatUntilRedraw Json.bool?
    cloudUpdatesPerSecond :=
      ← r.optional? "cloud_updates_per_second" standard.cloudUpdatesPerSecond (Json.word? 32)
    stageWidth := ← r.optional? "stage_width" standard.stageWidth Extent.ofJson?
    stageHeight := ← r.optional? "stage_height" standard.stageHeight Extent.ofJson? }

/-- Read a JSON text. -/
def parseJson? (source : String) : Option Settings := (Json.parse? source).bind ofJson?

/-! ### Reading RON -/

/-- The value of a field, as a change of the settings, and the rest. -/
def readField (extensions : List Ron.Extension) (name : String) (cs : List Char) :
    Option ((Settings → Settings) × List Char) :=
  let word (bits : Nat) (set : Nat → Settings → Settings) :=
    (Ron.readNatural bits cs).map fun (n, rest) => (set n, rest)
  let double (set : Ron.Written → Settings → Settings) :=
    (Ron.readDouble cs).map fun (x, rest) => (set x, rest)
  let bool (set : Bool → Settings → Settings) :=
    (Ron.readBool cs).map fun (b, rest) => (set b, rest)
  match name with
  | "framerate" => word 32 fun n s => { s with framerate := n }
  | "work_fraction" => double fun x s => { s with workFraction := x.value }
  | "warp_time_ms" => word 64 fun n s => { s with warpTimeMs := n }
  | "max_call_depth" => word 64 fun n s => { s with maxCallDepth := n }
  | "max_reporter_depth" => word 64 fun n s => { s with maxReporterDepth := n }
  | "max_clones" => word 64 fun n s => { s with maxClones := n }
  | "turbo_mode" => bool fun b s => { s with turboMode := b }
  | "repeat_until_redraw" => bool fun b s => { s with repeatUntilRedraw := b }
  | "cloud_updates_per_second" => word 32 fun n s => { s with cloudUpdatesPerSecond := n }
  | "stage_width" => double fun x s => { s with stageWidth := .ofSigned x.value x.negative }
  | "stage_height" => double fun x s => { s with stageHeight := .ofSigned x.value x.negative }
  | _ => (Ron.skipValue extensions (Ron.levelLimit - 2) cs).map fun rest => (id, rest)

/-- The fields of a structure up to its closing parenthesis, with the names that came already. -/
def readFields (extensions : List Ron.Extension) :
    Nat → List String → Settings → List Char → Option (Settings × List Char)
  | 0, _, _, _ => none
  | fuel + 1, seen, s, cs =>
    match Ron.skip cs with
    | some (')' :: rest) => some (s, rest)
    | some cs => do
      let (name, cs) ← Ron.readName cs
      match ← Ron.skip cs with
      | ':' :: cs =>
        if seen.contains name then none
        else
          let (change, cs) ← readField extensions name (← Ron.skip cs)
          let seen := if fieldNames.contains name then name :: seen else seen
          match ← Ron.skipComma cs with
          | (true, cs) => readFields extensions fuel seen (change s) cs
          | (false, ')' :: rest) => some (change s, rest)
          | (false, _) => none
      | _ => none
    | none => none

/-- The name that a structure of settings may have. -/
def structureName : String := "EngineConfig"

/-- The names of extensions in an attribute, up to its closing parenthesis. -/
def readExtensions : Nat → List Char → Option (List Ron.Extension × List Char)
  | 0, _ => none
  | fuel + 1, cs => do
    let (name, cs) ← Ron.readName cs
    let extension ← Ron.Extension.all.lookup name
    let (comma, cs) ← Ron.skipComma cs
    if !Ron.namesOn cs then return ([extension], cs)
    else if comma then
      let (more, cs) ← readExtensions fuel cs
      return (extension :: more, cs)
    else none

/-- The attributes at the front of a document: the extensions that they switch on. Attributes may
also name a schema or a type for other tools. -/
def readAttributes : Nat → List Char → Option (List Ron.Extension × List Char)
  | 0, _ => none
  | fuel + 1, cs =>
    match cs with
    | '#' :: _ => do
      let cs ← Ron.skipTokens ["#", "!", "["] cs
      match Ron.readWord "enable" cs with
      | some cs =>
        let cs ← Ron.skipTokens ["("] (← Ron.skip cs)
        let (extensions, cs) ← readExtensions (cs.length + 1) cs
        let (more, cs) ← readAttributes fuel (← Ron.skipTokens [")", "]"] (← Ron.skip cs))
        return (extensions ++ more, cs)
      | none =>
        let cs ← Ron.skip (← Ron.readWords ["schema", "type"] cs)
        let cs ← Ron.skipText (← Ron.skipTokens ["="] cs)
        readAttributes fuel (← Ron.skipTokens ["]"] (← Ron.skip cs))
    | cs => some ([], cs)

/-- The optional name of the structure. -/
def readStructureName (required : Bool) (cs : List Char) : Option (List Char) :=
  if Ron.namesOn cs then
    match Ron.readName cs with
    | some (name, rest) => if name == structureName then some rest else none
    | none => none
  else if required then none else some cs

/-- Read a RON text. -/
def parseRon? (source : String) : Option Settings := do
  let cs := source.toList
  let (extensions, cs) ← readAttributes (cs.length + 1) (← Ron.skip cs)
  let cs ← readStructureName (extensions.contains .namedStructures) cs
  match ← Ron.skip cs with
  | '(' :: cs =>
    let (s, cs) ← readFields extensions (cs.length + 1) [] standard cs
    if (← Ron.skip cs).isEmpty then return s else none
  | _ => none

/-! ### Writing RON -/

/-- Numbers in RON texts: the fewest digits, no exponent from `0.0001` up to below `10 ^ 16`, and
always a point or an exponent. -/
def numberLayout : Layout where
  plain := some (-4, 16)
  pointZero := true
  plusExponent := false
  signedZero := true
  tie := .away
  notANumber := "NaN"
  infinity := "inf"

/-- The text of a truth value. -/
def boolText (b : Bool) : String := if b then "true" else "false"

/-- The text of a side of the stage. -/
def extentText (x : Extent) : String :=
  (if x.negatedNaN then "-" else "") ++ numberLayout.render x.length

/-- The texts of the values, in the order of the fields. -/
def valueTexts (s : Settings) : List String :=
  [toString s.framerate, numberLayout.render s.workFraction, toString s.warpTimeMs,
   toString s.maxCallDepth, toString s.maxReporterDepth, toString s.maxClones,
   boolText s.turboMode, boolText s.repeatUntilRedraw, toString s.cloudUpdatesPerSecond,
   extentText s.stageWidth, extentText s.stageHeight]

/-- The RON text of settings, a field to a line. -/
def toRon (s : Settings) : String :=
  let lines := (fieldNames.zip s.valueTexts).map fun (name, value) =>
    "    " ++ name ++ ": " ++ value ++ ",\n"
  "(\n" ++ String.join lines ++ ")"

/-! ### Files -/

/-- The ending of a file's name: what follows its last point, unless that is the first character. -/
def ending (path : String) : String :=
  let name := (path.toList.reverse.takeWhile (· ≠ '/'))
  match name.dropWhile (· ≠ '.') with
  | [] => ""
  | [_] => ""
  | _ => if name.reverse = "..".toList then "" else String.ofList (name.takeWhile (· ≠ '.')).reverse

/-- Read the settings of a file by its path and by what reading it gave. -/
def load (path : String) (content : Except FileError String) : Except SettingsError Settings :=
  match content with
  | .error cause => .error (.io cause)
  | .ok source =>
    match ending path with
    | "ron" => match parseRon? source with
      | some s => .ok s
      | none => .error .ron
    | "json" => match parseJson? source with
      | some s => .ok s
      | none => .error .json
    | other => .error (.unsupported other)

end Settings

end Stagecraft

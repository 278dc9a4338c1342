import Stagecraft.Text.Casing
import Stagecraft.Value.Number

/-!
# Arguments of the command line

Arguments are read from left to right. An option has a long name, written after two dashes, and
perhaps a letter, written after one; its value is attached, after an equals sign if one is there, or
is the next argument, which may not start with a dash. Options do not repeat. Asking for help ends
the reading, and so does the first mistake. A log level, which says how much a run tells about
itself, is named by a word in any case.
-/

/-! ### Log levels -/

namespace Stagecraft

/-- How much is told. -/
inductive LogLevel where
  | trace
  | debug
  | info
  | warn
  | error
deriving DecidableEq

namespace LogLevel

/-- The level that a word names, or what is said about a word that names none. -/
def read (word : String) : Except String LogLevel :=
  match Text.asciiLower word with
  | "trace" => .ok .trace
  | "debug" => .ok .debug
  | "info" => .ok .info
  | "warn" => .ok .warn
  | "warning" => .ok .warn
  | "error" => .ok .error
  | other => .error ("unknown log level '" ++ other ++ "'")

/-- Whether warnings are told. -/
def showsWarnings : LogLevel → Bool
  | .error => false
  | _ => true

/-- The name of a level. -/
def name : LogLevel → String
  | .trace => "Trace"
  | .debug => "Debug"
  | .info => "Info"
  | .warn => "Warn"
  | .error => "Error"

end LogLevel

end Stagecraft

/-! ### Arguments -/

namespace Stagecraft.Command

/-- What help is about. -/
inductive Topic where
  /-- The program. -/
  | program
  | run
  | check
  | version
  | help
deriving DecidableEq

/-- How a project shall be run. -/
structure RunOptions where
  /-- The file of the project. -/
  project : String
  /-- How many frames to step at most. -/
  frames : Nat
  /-- The file of the settings. -/
  config : Option String
  /-- Whether redraws are ignored and rounds follow each other. -/
  turbo : Bool
  /-- Whether every frame takes its time. -/
  realtime : Bool
  /-- A message to broadcast after the green flag. -/
  broadcast : Option String
deriving DecidableEq

/-- What was asked for. -/
inductive Request where
  | run (options : RunOptions)
  | check (project : String)
  | version
  | help (topic : Topic)
  /-- The arguments are wrong. -/
  | mistake
deriving DecidableEq

/-- A request with the log level for it. -/
structure Invocation where
  /-- What was asked for. -/
  request : Request
  /-- How much is told. -/
  level : LogLevel
deriving DecidableEq

/-! ### Options -/

/-- An option of a command. -/
structure Flag where
  /-- The long name. -/
  name : String
  /-- The letter. -/
  letter : Option Char
  /-- Whether it has a value. -/
  valued : Bool

/-- One piece of the arguments. -/
inductive Piece where
  /-- An option, with its value if it has one. -/
  | option (name : String) (value : String)
  /-- An argument that is no option. -/
  | plain (s : String)
  /-- The mark after which nothing is an option. -/
  | escape
  /-- A mistake. -/
  | wrong
deriving DecidableEq

/-- Whether an argument is written as an option. -/
def isOption (s : String) : Bool :=
  match s.toList with
  | '-' :: _ :: _ => true
  | _ => false

/-- An option with the value attached to it, or else with the next argument. -/
def withValue (f : Flag) (attached : Option String) (rest : List String) : Piece × List String :=
  if f.valued then
    match attached, rest with
    | some v, rest => (.option f.name v, rest)
    | none, v :: rest => if isOption v then (.wrong, rest) else (.option f.name v, rest)
    | none, [] => (.wrong, [])
  else match attached with
    | some _ => (.wrong, rest)
    | none => (.option f.name "", rest)

/-- Split at the first equals sign. -/
def splitValue (cs : List Char) : String × Option String :=
  let name := String.ofList (cs.takeWhile (· ≠ '='))
  match cs.dropWhile (· ≠ '=') with
  | [] => (name, none)
  | _ :: value => (name, some (String.ofList value))

/-- The value attached to a letter. -/
def attachedValue : List Char → Option String
  | [] => none
  | '=' :: value => some (String.ofList value)
  | value => some (String.ofList value)

/-- The first piece of the arguments, and the rest. -/
def nextPiece (flags : List Flag) (arg : String) (rest : List String) : Piece × List String :=
  match arg.toList with
  | ['-', '-'] => (.escape, rest)
  | '-' :: '-' :: cs =>
    let (name, attached) := splitValue cs
    match flags.find? fun f => f.name == name with
    | some f => withValue f attached rest
    | none => (.wrong, rest)
  | '-' :: c :: cs =>
    match flags.find? fun f => f.letter == some c with
    | some f => if f.valued then withValue f (attachedValue cs) rest else (.option f.name "", rest)
    | none => (.wrong, rest)
  | _ => (.plain arg, rest)

/-- The option that asks for help. -/
def helpFlag : Flag := ⟨"help", some 'h', false⟩

/-! ### Commands -/

/-- A whole number of 32 bits, with a sign if need be. -/
def readFrames? (s : String) : Option Nat :=
  match s.toList with
  | '-' :: ds =>
    match readWord? 10 ds with
    | some n => if n = 0 && ds.head? ≠ some '+' then some 0 else none
    | none => none
  | ds =>
    match readWord? 10 ds with
    | some n => if n.toNat < UInt32.size then some n.toNat else none
    | none => none

/-- What was read of the arguments of a run so far. -/
structure RunDraft where
  /-- The file of the project. -/
  project : Option String
  /-- How many frames. -/
  frames : Option Nat
  /-- The file of the settings. -/
  config : Option String
  /-- Whether turbo was asked for. -/
  turbo : Bool
  /-- Whether realtime was asked for. -/
  realtime : Bool
  /-- The message. -/
  broadcast : Option String

namespace RunDraft

/-- Nothing yet. -/
def empty : RunDraft := ⟨none, none, none, false, false, none⟩

/-- The frames of a run that does not say how many. -/
def standardFrames : Nat := 300

/-- The options of a run. -/
def flags : List Flag :=
  [⟨"frames", some 'f', true⟩, ⟨"config", some 'c', true⟩, ⟨"turbo", none, false⟩,
   ⟨"realtime", none, false⟩, ⟨"broadcast", some 'b', true⟩, helpFlag]

/-- Add an option; nothing if it repeats or its value is wrong. -/
def add? (d : RunDraft) (name value : String) : Option RunDraft :=
  match name with
  | "frames" =>
    if d.frames.isSome then none
    else (readFrames? value).map fun n => { d with frames := some n }
  | "config" =>
    if d.config.isSome || value.isEmpty then none else some { d with config := some value }
  | "turbo" => if d.turbo then none else some { d with turbo := true }
  | "realtime" => if d.realtime then none else some { d with realtime := true }
  | "broadcast" =>
    if d.broadcast.isSome then none else some { d with broadcast := some value }
  | _ => none

/-- Add the file of the project; nothing if there is one already. -/
def addProject? (d : RunDraft) (path : String) : Option RunDraft :=
  if d.project.isSome || path.isEmpty then none else some { d with project := some path }

/-- What is asked for once all arguments are read. -/
def request (d : RunDraft) : Request :=
  match d.project with
  | some project =>
    .run ⟨project, d.frames.getD standardFrames, d.config, d.turbo, d.realtime, d.broadcast⟩
  | none => .mistake

end RunDraft

/-- Read the arguments of a run. -/
def readRun : Nat → Bool → RunDraft → List String → Request
  | 0, _, _, _ => .mistake
  | _ + 1, _, d, [] => d.request
  | fuel + 1, escaped, d, arg :: rest =>
    match if escaped then (.plain arg, rest) else nextPiece RunDraft.flags arg rest with
    | (.escape, rest) => readRun fuel true d rest
    | (.wrong, _) => .mistake
    | (.plain path, rest) =>
      match d.addProject? path with
      | some d => readRun fuel escaped d rest
      | none => .mistake
    | (.option name value, rest) =>
      if name == "help" then .help .run
      else match d.add? name value with
        | some d => readRun fuel escaped d rest
        | none => .mistake

/-- Read the arguments of a check: one file. -/
def readCheck : Bool → Option String → List String → Request
  | _, some path, [] => .check path
  | _, none, [] => .mistake
  | escaped, found, arg :: rest =>
    match if escaped then (.plain arg, rest) else nextPiece [helpFlag] arg rest with
    | (.escape, _) => readCheck true found rest
    | (.wrong, _) => .mistake
    | (.option _ _, _) => .help .check
    | (.plain path, _) =>
      if found.isSome || path.isEmpty then .mistake else readCheck escaped (some path) rest

/-- Read the arguments of the version command: there are none. -/
def readVersion : List String → Request
  | [] => .version
  | ["--"] => .version
  | arg :: rest =>
    match nextPiece [helpFlag] arg rest with
    | (.option _ _, _) => .help .version
    | _ => .mistake

/-- Read what help is wanted on. -/
def readHelp : List String → Request
  | [] => .help .program
  | ["run"] => .help .run
  | ["check"] => .help .check
  | ["version"] => .help .version
  | ["help"] => .help .help
  | _ => .mistake

/-- Read a command with its arguments. -/
def readCommand (name : String) (args : List String) : Request :=
  match name with
  | "run" => readRun (args.length + 1) false .empty args
  | "check" => readCheck false none args
  | "version" => readVersion args
  | "help" => readHelp args
  | _ => .mistake

/-! ### The program -/

/-- The options in front of the command. -/
def programFlags : List Flag :=
  [⟨"log-level", some 'l', true⟩, helpFlag, ⟨"version", some 'V', false⟩]

/-- Read the arguments of the program, with the log level that came already. -/
def readFrom : Nat → Option LogLevel → List String → Invocation
  | 0, level, _ => ⟨.mistake, level.getD .warn⟩
  | _ + 1, level, [] => ⟨.mistake, level.getD .warn⟩
  | fuel + 1, level, arg :: rest =>
    match nextPiece programFlags arg rest with
    | (.plain name, rest) => ⟨readCommand name rest, level.getD .warn⟩
    | (.option "help" _, _) => ⟨.help .program, level.getD .warn⟩
    | (.option "version" _, _) => ⟨.version, level.getD .warn⟩
    | (.option _ value, rest) =>
      match level, LogLevel.read value with
      | none, .ok level => readFrom fuel (some level) rest
      | _, _ => ⟨.mistake, .warn⟩
    | _ => ⟨.mistake, level.getD .warn⟩

/-- Read the arguments of the program. -/
def readArguments (args : List String) : Invocation := readFrom (args.length + 1) none args

/-! ### Help texts -/

/-- The name of the program. -/
def programName : String := "blockvm"

/-- The name with the version. -/
def versionText : String := programName ++ " 0.1.0\n"

/-- What help says about a topic. -/
def Topic.text : Topic → String
  | .program =>
    "blockvm\n\n" ++
    "Usage: blockvm [OPTIONS] <COMMAND>\n\n" ++
    "Commands:\n" ++
    "  run      Load a project, click the green flag and run it\n" ++
    "  check    Load and validate a project without running it\n" ++
    "  version  Print version information\n" ++
    "  help     Print this message or the help of the given subcommand(s)\n\n" ++
    "Options:\n" ++
    "  -l, --log-level <LOG_LEVEL>  Log level: trace, debug, info, warn or error " ++
      "[default: warn]\n" ++
    "  -h, --help                   Print help\n" ++
    "  -V, --version                Print version\n"
  | .run =>
    "Load a project, click the green flag and run it\n\n" ++
    "Usage: blockvm run [OPTIONS] <PROJECT>\n\n" ++
    "Arguments:\n" ++
    "  <PROJECT>  Project file to run\n\n" ++
    "Options:\n" ++
    "  -f, --frames <FRAMES>   Number of frames to step [default: 300]\n" ++
    "  -c, --config <FILE>     Engine config (RON or JSON)\n" ++
    "      --turbo             Turbo mode: ignore redraws and run rounds until the work budget " ++
      "is spent\n" ++
    "      --realtime          Sleep out each frame instead of stepping as fast as possible\n" ++
    "  -b, --broadcast <NAME>  Broadcast this message right after the green flag\n" ++
    "  -h, --help              Print help\n"
  | .check =>
    "Load and validate a project without running it\n\n" ++
    "Usage: blockvm check <PROJECT>\n\n" ++
    "Arguments:\n" ++
    "  <PROJECT>  Project file to check\n\n" ++
    "Options:\n" ++
    "  -h, --help  Print help\n"
  | .version =>
    "Print version information\n\n" ++
    "Usage: blockvm version\n\n" ++
    "Options:\n" ++
    "  -h, --help  Print help\n"
  | .help =>
    "Print this message or the help of the given subcommand(s)\n\n" ++
    "Usage: blockvm help [COMMAND]...\n\n" ++
    "Arguments:\n" ++
    "  [COMMAND]...  Print help for the subcommand(s)\n"

end Stagecraft.Command

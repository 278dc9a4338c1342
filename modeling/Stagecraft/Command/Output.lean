import Stagecraft.Settings.Format
import Stagecraft.Saved.Project

/-!
# What the command line prints

Colours and weights, reports of errors with their causes, and what a command leaves behind: an exit
code and the texts of the two outputs.
-/

namespace Stagecraft.Command

/-- What a command leaves behind. -/
structure Output where
  /-- The exit code. -/
  exit : Nat
  /-- The text of the main output. -/
  stdout : String
  /-- The text of the error output. -/
  stderr : String
deriving DecidableEq

/-! ### Styles -/

/-- A text between two switches of the terminal. -/
def styled (on off : Nat) (s : String) : String :=
  "\x1b[" ++ toString on ++ "m" ++ s ++ "\x1b[" ++ toString off ++ "m"

/-- Bold. -/
def bold (s : String) : String := styled 1 0 s

/-- Dimmed. -/
def dimmed (s : String) : String := styled 2 0 s

/-- Red. -/
def red (s : String) : String := styled 31 39 s

/-- Green. -/
def green (s : String) : String := styled 32 39 s

/-- Yellow. -/
def yellow (s : String) : String := styled 33 39 s

/-- Cyan. -/
def cyan (s : String) : String := styled 36 39 s

/-! ### Errors -/

/-- Why a command failed: what it was about to do, and the causes, the nearest one first. -/
structure Failure where
  /-- What the command was about to do. -/
  context : String
  /-- The causes. -/
  causes : List String
deriving DecidableEq

/-- A cause on lines of its own: further lines are indented as far as the first. -/
def indentCause (first further cause : String) : String :=
  first ++ ("\n" ++ further).intercalate (cause.splitOn "\n")

/-- The report of a failure; several causes are numbered. -/
def Failure.report (f : Failure) : String :=
  let causes := match f.causes with
    | [cause] => [indentCause "    " "    " cause]
    | causes => causes.zipIdx.map fun (cause, n) =>
      indentCause ("    " ++ toString n ++ ": ") "       " cause
  "Error: " ++ f.context ++ "\n\nCaused by:\n" ++ "\n".intercalate causes ++ "\n"

/-- The causes when a file cannot be read. -/
def fileCauses (e : FileError) : List String := ["IO error: " ++ e.text, e.text]

/-- What is said about a text that is not in its format. -/
def malformed : String := "malformed document"

/-- The causes when the text of a project cannot be read. -/
def projectCauses : List String := ["Project parse error: " ++ malformed, malformed]

/-- The causes when settings cannot be read. -/
def settingsCauses : SettingsError → List String
  | .io cause => fileCauses cause
  | .ron => ["Config parse error: " ++ malformed, malformed]
  | .json => ["Config parse error: " ++ malformed, malformed]
  | .unsupported ending => [SettingsError.unsupportedText ending]

end Stagecraft.Command

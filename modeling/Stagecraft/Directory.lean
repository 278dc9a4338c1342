/-!
# Files by their paths

The texts that a command reads lie in one directory, from which relative paths start. Of what
surrounds it only the outlines matter: that it is a directory of other directories, and that no
other texts are found there.
-/

namespace Stagecraft

/-- Why a file could not be read. -/
inductive FileError where
  /-- There is no such file. -/
  | missing
  /-- A file stands where a directory should. -/
  | notDirectory
  /-- It is a directory. -/
  | directory
  /-- A name or the path is longer than names and paths may be. -/
  | nameTooLong
  /-- Something else. -/
  | other (message : String)
deriving DecidableEq

/-- What is said about a file that could not be read. -/
def FileError.text : FileError → String
  | .missing => "No such file or directory (os error 2)"
  | .notDirectory => "Not a directory (os error 20)"
  | .directory => "Is a directory (os error 21)"
  | .nameTooLong => "File name too long (os error 36)"
  | .other message => message

/-- Files of one directory, with their texts. -/
abbrev Files := List (String × String)

namespace Files

/-- A directory on the way along a path. -/
inductive Place where
  /-- The directory with the files. -/
  | home
  /-- The root of all directories. -/
  | root
  /-- The directory of devices. -/
  | devices
  /-- Any other directory. -/
  | elsewhere
deriving DecidableEq

/-- What a name stands for in a directory. -/
inductive Entry where
  /-- A file with its text. -/
  | file (text : String)
  /-- A directory. -/
  | directory (place : Place)
  /-- Nothing. -/
  | nothing

/-- The directories that are found at the root of a system. -/
def systemDirectories : List String :=
  ["bin", "boot", "etc", "home", "lib", "media", "mnt", "opt", "proc", "root", "run", "sbin", "srv",
   "sys", "tmp", "usr", "var"]

/-- The directory that holds a directory. -/
def Place.parent : Place → Place
  | .home => .elsewhere
  | .root => .root
  | .devices => .root
  | .elsewhere => .elsewhere

/-- The steps of a path. -/
def steps (path : String) : List String := path.splitOn "/"

/-- Whether a step stays in place. -/
def staysInPlace (step : String) : Bool := step == "" || step == "."

/-- The name under which a file is written to the directory; none if its path leads elsewhere or
to a directory. -/
def writtenName? (path : String) : Option String :=
  match (steps path).reverse with
  | name :: before =>
    if path.startsWith "/" || staysInPlace name || name == ".." then none
    else if before.all staysInPlace then some name
    else none
  | [] => none

/-- What a name stands for in a directory; a file written later takes the place of an earlier
one. -/
def entry (files : Files) (place : Place) (name : String) : Entry :=
  match place with
  | .home =>
    match files.reverse.find? fun f => writtenName? f.1 == some name with
    | some f => .file f.2
    | none => .nothing
  | .root =>
    if name == "dev" then .directory .devices
    else if systemDirectories.contains name then .directory .elsewhere
    else .nothing
  | .devices => if name == "null" || name == "stdin" then .file "" else .nothing
  | .elsewhere => .nothing

/-- The most bytes of a name. -/
def longestName : Nat := 255

/-- The most bytes of a path. -/
def longestPath : Nat := 4095

/-- Follow a path from a directory. -/
def follow (files : Files) : Place → List String → Except FileError String
  | _, [] => .error .directory
  | place, step :: rest =>
    if staysInPlace step then files.follow place rest
    else if step == ".." then files.follow place.parent rest
    else if longestName < step.utf8ByteSize then .error .nameTooLong
    else match files.entry place step with
      | .file text => if rest.isEmpty then .ok text else .error .notDirectory
      | .directory inner => files.follow inner rest
      | .nothing => .error .missing

/-- Read a file by its path. -/
def read (files : Files) (path : String) : Except FileError String :=
  if path.isEmpty then .error .missing
  else if longestPath < path.utf8ByteSize then .error .nameTooLong
  else files.follow (if path.startsWith "/" then .root else .home) (steps path)

end Files

end Stagecraft

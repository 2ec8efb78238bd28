import Chip8.Word

/-!
# Storage

Files and directories, and how a path finds its way to one. A path is walked component by component
from the root or from the working directory, and each component but the last has to lead to a
directory; so has the last one if a slash follows it.
-/

namespace Chip8.Host

/-- Why a file cannot be read. -/
inductive FileError where
  /-- Nothing is there. -/
  | notFound
  /-- A path goes on beyond something that is not a directory. -/
  | notDirectory
  /-- A directory is not a file. -/
  | isDirectory
  /-- A component of the path, or all of it, is too long. -/
  | nameTooLong
  /-- The path holds a NUL. -/
  | nulInPath
deriving DecidableEq

/-- The message for a file that cannot be read. -/
def FileError.message : FileError → String
  | .notFound => "No such file or directory (os error 2)"
  | .notDirectory => "Not a directory (os error 20)"
  | .isDirectory => "Is a directory (os error 21)"
  | .nameTooLong => "File name too long (os error 36)"
  | .nulInPath => "file name contained an unexpected NUL byte"

/-- What a path can lead to. -/
inductive Entry where
  /-- A file with its bytes. -/
  | file (bytes : List Byte)
  /-- A directory. -/
  | directory
deriving DecidableEq

/-- A place in the storage: the names that lead to it from the root. -/
abbrev Place := List String

/-- Files and directories by their places. -/
structure Storage where
  /-- What is where; the root needs no entry. -/
  entries : List (Place × Entry)
  /-- Where paths start that do not start with a slash. -/
  workingDirectory : Place

namespace Storage

/-- How many bytes a component of a path may have. -/
def maxNameLength : Nat := 255

/-- How many bytes a path may have. -/
def maxPathLength : Nat := 4095

/-- What is at a place. -/
def entry? (s : Storage) (place : Place) : Option Entry :=
  if place = [] then some .directory else s.entries.lookup place

/-- Goes on from a place by one component of a path. -/
def enter (s : Storage) (place : Place) (name : String) : Except FileError Place :=
  match s.entry? place with
  | none => .error .notFound
  | some (.file _) => .error .notDirectory
  | some .directory =>
    if name = "" ∨ name = "." then .ok place
    else if name = ".." then .ok place.dropLast
    else if maxNameLength < name.utf8ByteSize then .error .nameTooLong
    else if (s.entry? (place ++ [name])).isNone then .error .notFound
    else .ok (place ++ [name])

/-- Goes on from a place by all components of a path. -/
def walk (s : Storage) (place : Place) : List String → Except FileError Place
  | [] => .ok place
  | name :: rest => (s.enter place name).bind (s.walk · rest)

/-- Where a path leads. -/
def resolve (s : Storage) (path : String) : Except FileError Place :=
  if path.toList.contains (Char.ofNat 0) then .error .nulInPath
  else if path = "" then .error .notFound
  else if maxPathLength < path.utf8ByteSize then .error .nameTooLong
  else s.walk (if path.toList.head? = some '/' then [] else s.workingDirectory) (path.splitOn "/")

/-- The bytes of the file that a path leads to. -/
def read (s : Storage) (path : String) : Except FileError (List Byte) :=
  (s.resolve path).bind fun place =>
    match s.entry? place with
    | none => .error .notFound
    | some .directory => .error .isDirectory
    | some (.file bytes) => .ok bytes

end Storage

end Chip8.Host

/-!
# Files

The program reads one file. What can go wrong is that the system refuses, with a
reason and its number, or that the bytes of the file are no text. A directory of
named files serves where no file system is at hand; nothing is known of what lies
outside it.
-/

set_option autoImplicit false

namespace EventScript.CommandLine

/-- Why the text of a file could not be read. -/
inductive ReadFailure where
  /-- The system refused. -/
  | system (reason : String) (code : Nat)
  /-- The bytes are not UTF-8. -/
  | invalidText
  deriving DecidableEq

namespace ReadFailure

/-- There is nothing at the path. -/
def noSuchFile : ReadFailure := .system "No such file or directory" 2

/-- A part of the path that others follow is a file. -/
def notDirectory : ReadFailure := .system "Not a directory" 20

/-- At the path is a directory. -/
def isDirectory : ReadFailure := .system "Is a directory" 21

end ReadFailure

/-- The text of a file from its bytes. -/
def decodeText (bytes : ByteArray) : Except ReadFailure String :=
  match String.fromUTF8? bytes with
  | some text => .ok text
  | none => .error .invalidText

/-- A directory without others inside. -/
structure Directory where
  /-- The files by name. -/
  files : List (String × ByteArray)

namespace Directory

/-- Whether a part of a path leads from a directory to itself. -/
def isHere (component : String) : Bool := component = "" || component = "."

/-- Follows the parts of a path from outside the directory. -/
def readOutside : List String → Except ReadFailure ByteArray
  | [] => .error .isDirectory
  | component :: rest =>
    if isHere component || component = ".." then readOutside rest
    else .error .noSuchFile

/-- Follows the parts of a path from the directory. -/
def readInside (directory : Directory) : List String → Except ReadFailure ByteArray
  | [] => .error .isDirectory
  | component :: rest =>
    if isHere component then directory.readInside rest
    else if component = ".." then readOutside rest
    else
      match directory.files.lookup component with
      | none => .error .noSuchFile
      | some bytes => if rest.isEmpty then .ok bytes else .error .notDirectory

/-- The bytes of the file at a path. -/
def read (directory : Directory) (path : String) : Except ReadFailure ByteArray :=
  let components := path.splitToList (· == '/')
  if path.startsWith "/" then readOutside components else directory.readInside components

end Directory

end EventScript.CommandLine

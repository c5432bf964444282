/-! # Files

Why a file cannot be read, and a picture of a file system: which files and directories there are,
and what reading a path comes to. A path is followed part by part; an empty part and `.` stay where
they are, `..` goes up, and only a directory can be gone on from.
-/
namespace MiniScheme.Shell

inductive FileError where
  | notFound
  | notPermitted
  | notADirectory
  | isDirectory
  | nameTooLong
  | notText
  | other (message : String)
deriving DecidableEq, Repr

def notTextMessage : String := "stream did not contain valid UTF-8"

def FileError.message : FileError → String
  | notFound => "No such file or directory (os error 2)"
  | notPermitted => "Permission denied (os error 13)"
  | notADirectory => "Not a directory (os error 20)"
  | isDirectory => "Is a directory (os error 21)"
  | nameTooLong => "File name too long (os error 36)"
  | notText => notTextMessage
  | other message => message

def fileText (bytes : ByteArray) : Except FileError String :=
  match String.fromUTF8? bytes with
  | some text => .ok text
  | none => .error .notText

/-- The names that lead from the root to a place. -/
abbrev Location := List String

inductive Entry where
  | nothing
  | directory
  | file (content : ByteArray)

/-- A file system. The directories that lead to a file need not be listed. -/
structure FileTree where
  files : List (Location × ByteArray) := []
  directories : List Location := []

namespace FileTree

def entry (t : FileTree) (here : Location) : Entry :=
  match t.files.find? (fun f => f.1 == here) with
  | some f => .file f.2
  | none =>
    if here.isEmpty || t.files.any (fun f => here.isPrefixOf f.1) ||
        t.directories.any (fun d => here.isPrefixOf d) then .directory
    else .nothing

def longestName : Nat := 255

def longestPath : Nat := 4095

/-- The parts of a path, divided by slashes. -/
def parts (path : String) : List String := path.splitOn "/"

def walk (t : FileTree) (here : Location) : (parts : List String) → Except FileError Location
  | [] => .ok here
  | part :: parts =>
    match t.entry here with
    | .nothing => .error .notFound
    | .file _ => .error .notADirectory
    | .directory =>
      if part = "" || part = "." then t.walk here parts
      else if part = ".." then t.walk here.dropLast parts
      else if longestName < part.utf8ByteSize then .error .nameTooLong
      else t.walk (here ++ [part]) parts

/-- Where a path leads from the directory `working`; one that begins with a slash starts at the
root. -/
def locate (t : FileTree) (working : Location) (path : String) : Except FileError Location :=
  if path.isEmpty then .error .notFound
  else if longestPath < path.utf8ByteSize then .error .nameTooLong
  else t.walk (if path.front = '/' then [] else working) (parts path)

/-- What reading `path` in the directory `working` comes to. -/
def read (t : FileTree) (working : Location) (path : String) : Except FileError ByteArray :=
  match t.locate working path with
  | .error e => .error e
  | .ok here =>
    match t.entry here with
    | .nothing => .error .notFound
    | .directory => .error .isDirectory
    | .file content => .ok content

end FileTree
end MiniScheme.Shell

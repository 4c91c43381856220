import TapeCode.Text.Split

/-!
# Directories

A directory that holds files and no other directories, as a command sees it that is executed in it.
A path is followed name by name. It may lead out of the directory, and nothing is known of the files
outside.
-/
namespace TapeCode

/-- Why a file cannot be read or written. -/
inductive FileError
  | notFound
  | permissionDenied
  | notDirectory
  | isDirectory
  | nameTooLong
  | other (text : String)
  deriving DecidableEq, Repr

def FileError.message : FileError → String
  | .notFound => "No such file or directory (os error 2)"
  | .permissionDenied => "Permission denied (os error 13)"
  | .notDirectory => "Not a directory (os error 20)"
  | .isDirectory => "Is a directory (os error 21)"
  | .nameTooLong => "File name too long (os error 36)"
  | .other text => text

structure Directory where
  files : List (String × List UInt8)
  deriving DecidableEq, Repr

namespace Directory

/-- The bytes that one name may have. -/
def longestName : Nat := 255

/-- The bytes that a whole path may have. -/
def longestPath : Nat := 4095

def contains (directory : Directory) (name : String) : Bool :=
  (directory.files.lookup name).isSome

/-- Follows a name that another one comes behind; `inside` says that the way has not led out of the
directory so far. -/
def enter (directory : Directory) (inside : Bool) (name : String) : Except FileError Bool :=
  if name = "." then .ok inside
  else if name = ".." then .ok false
  else if longestName < name.utf8ByteSize then .error .nameTooLong
  else if inside && directory.contains name then .error .notDirectory
  else .error .notFound

/-- The name of the file that a path leads to. A file that is to be written need not be there. -/
def locate (directory : Directory) (writes : Bool) (path : String) : Except FileError String :=
  let names := ((Text.split (· = '/') path.toList).filter (· ≠ [])).map String.ofList
  let isAbsolute := path.toList.head? = some '/'
  let endsOpen := path.toList.getLast? = some '/'
  if longestPath < path.utf8ByteSize then .error .nameTooLong
  else
    match names.getLast? with
    | none => .error (if path.isEmpty then .notFound else .isDirectory)
    | some name => do
      let inside ← names.dropLast.foldlM directory.enter (!isAbsolute)
      if name = "." ∨ name = ".." ∨ (writes ∧ endsOpen) then throw .isDirectory
      else if longestName < name.utf8ByteSize then throw .nameTooLong
      else if !inside then throw .notFound
      else if endsOpen then throw (if directory.contains name then .notDirectory else .notFound)
      else return name

def read (directory : Directory) (path : String) : Except FileError (List UInt8) := do
  match directory.files.lookup (← directory.locate false path) with
  | some bytes => return bytes
  | none => throw .notFound

/-- The directory after a file is written in place of one with the same name. -/
def write (directory : Directory) (path : String) (bytes : List UInt8) :
    Except FileError Directory := do
  let name ← directory.locate true path
  return ⟨(name, bytes) :: directory.files.filter (·.1 ≠ name)⟩

end Directory

end TapeCode

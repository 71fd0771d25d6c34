import Arrowlet.FileTree.Basic
import Arrowlet.FileTree.FileError

/-!
# Finding what a path names

A path leads to a place in two ways. `FileTree.locate` works it out by its spelling: nothing on the
way has to exist, only the working directory of a relative path. `FileTree.walk` goes the way that
the path describes, through directories that have to be there; this is how a file is opened.
-/

namespace Arrowlet

namespace FileTree

/-- The most bytes that a name may have. -/
def maxName : Nat := 255

/-- The number of bytes from which on a path is too long. -/
def pathLimit : Nat := 4096

/-- The location of a path by its spelling. -/
def locate (t : FileTree) (path : Bytes) : Except FileError Location :=
  if Path.isAbsolute path then .ok (Location.follow [] path)
  else if t.lookup t.cwd = some .directory then .ok (t.cwd.follow path)
  else .error (.noWorkingDirectory .noEntry)

/-- Goes from a location to one of the names in it. -/
def step (t : FileTree) (loc : Location) (element : Bytes) : Except SystemFault Location :=
  match t.lookup loc with
  | none => .error .noEntry
  | some (.file _ _) => .error .notDirectory
  | some .directory =>
    if element.length > maxName then .error .nameTooLong
    else
      let next := loc.enter element
      if (t.lookup next).isSome then .ok next else .error .noEntry

/-- Goes from a location along a way. -/
def walk (t : FileTree) (loc : Location) (way : List Bytes) : Except SystemFault Location :=
  way.foldlM t.step loc

/-- What keeps a path from being looked at at all. -/
def pathFault? (path : Bytes) : Option SystemFault :=
  if path.contains 0 then some .invalidArgument
  else if path = [] then some .noEntry
  else if path.length ≥ pathLimit then some .nameTooLong
  else none

/-- The location that a path names in the tree. -/
def resolve (t : FileTree) (path : Bytes) : Except SystemFault Location :=
  match pathFault? path with
  | some fault => .error fault
  | none =>
    t.walk (if Path.isAbsolute path then [] else t.cwd) (path.splitOn Bytes.slash)

/-- The content of the file that a path names. -/
def read (t : FileTree) (path : Bytes) : Except FileError Bytes :=
  match t.resolve path with
  | .error fault => .error (.cannotOpen path fault)
  | .ok loc =>
    match t.lookup loc with
    | none => .error (.cannotOpen path .noEntry)
    | some .directory => .error (.cannotRead path .isDirectory)
    | some (.file data _) => .ok data

end FileTree

end Arrowlet

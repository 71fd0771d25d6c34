import Arrowlet.Text.Bytes

/-!
# Why an operation on files fails
-/

namespace Arrowlet

/-- What the system objects to. -/
inductive SystemFault where
  /-- There is nothing at the path. -/
  | noEntry
  /-- Something other than a directory is used as one. -/
  | notDirectory
  /-- A directory is used as a file. -/
  | isDirectory
  /-- Something is in the way. -/
  | alreadyExists
  /-- A name or the whole path is too long. -/
  | nameTooLong
  /-- The path holds a byte that no path may hold. -/
  | invalidArgument
  deriving DecidableEq, Repr

/-- The objection in words. -/
def SystemFault.message : SystemFault → Bytes
  | noEntry => "no such file or directory"
  | notDirectory => "not a directory"
  | isDirectory => "is a directory"
  | alreadyExists => "file exists"
  | nameTooLong => "file name too long"
  | invalidArgument => "invalid argument"

/-- A failed operation with the paths it was given. -/
inductive FileError where
  /-- A file cannot be opened. -/
  | cannotOpen (path : Bytes) (fault : SystemFault)
  /-- An open file cannot be read. -/
  | cannotRead (path : Bytes) (fault : SystemFault)
  /-- A file cannot be given another name. -/
  | cannotRename (source target : Bytes) (fault : SystemFault)
  /-- The working directory has no path. -/
  | noWorkingDirectory (fault : SystemFault)
  /-- The name pattern of a temporary file holds a slash. -/
  | separatorInPattern (pattern : Bytes)
  deriving DecidableEq, Repr

/-- The failed operation in words. -/
def FileError.message : FileError → Bytes
  | cannotOpen path fault => "open " ++ path ++ ": " ++ fault.message
  | cannotRead path fault => "read " ++ path ++ ": " ++ fault.message
  | cannotRename source target fault =>
    "rename " ++ source ++ " " ++ target ++ ": " ++ fault.message
  | noWorkingDirectory fault => "getwd: " ++ fault.message
  | separatorInPattern pattern =>
    "createtemp " ++ pattern ++ ": pattern contains path separator"

end Arrowlet

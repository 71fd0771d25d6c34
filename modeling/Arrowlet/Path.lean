import Arrowlet.Text.Bytes

/-!
# Paths

A path is a text of elements divided by slashes. `Location` is the absolute form of a path after
`.`, `..` and empty elements are worked out by their spelling alone: the list of its elements from
the root on. `Path.replaceExtension` changes the extension of the last element of a path.
-/

namespace Arrowlet

/-- A place in a file tree: the names on the way from the root to it. -/
abbrev Location := List Bytes

namespace Location

/-- The location that one more element of a path leads to. There is nothing above the root. -/
def enter (loc : Location) (element : Bytes) : Location :=
  if element = [] ∨ element = ("." : Bytes) then loc
  else if element = (".." : Bytes) then loc.dropLast
  else loc ++ [element]

/-- The location that a relative path leads to. -/
def follow (loc : Location) (path : Bytes) : Location :=
  (path.splitOn Bytes.slash).foldl enter loc

/-- The location as an absolute path. -/
def text : Location → Bytes
  | [] => "/"
  | loc => loc.flatMap fun element => "/" ++ element

/-- The location of the directory that a location is in. The root is in itself. -/
def directory (loc : Location) : Location := loc.dropLast

/-- The last name of a location; for the root, a slash. -/
def base (loc : Location) : Bytes := loc.getLastD "/"

end Location

namespace Path

/-- Whether a path starts at the root. -/
def isAbsolute (path : Bytes) : Bool := path.head? = some Bytes.slash

/-- Looks backwards for the dot that an extension begins with, up to a slash: `before` is what comes
next on the way back, and `passed` is what stands behind it. -/
def findExtension : (before passed : Bytes) → Bytes
  | [], _ => []
  | b :: before, passed =>
    if b = Bytes.slash then []
    else if b = Bytes.dot then b :: passed
    else findExtension before (b :: passed)

/-- The extension of a path: what its last element has from its last dot on. -/
def extension (path : Bytes) : Bytes := findExtension path.reverse []

/-- The path with its extension replaced by `ext`. A path without an extension, or whose last
element is nothing else, gets one more. -/
def replaceExtension (path ext : Bytes) : Bytes :=
  let old := extension path
  if old = [] || old = path || (Bytes.slash :: old).isSuffixOf path then path ++ ext
  else Bytes.dropEnd path old ++ ext

/-- Where the C text of a source goes by default: beside it, with the extension `.c`. -/
def defaultOutput (source : Bytes) : Bytes := replaceExtension source ".c"

end Path

end Arrowlet

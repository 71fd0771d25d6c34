import Arrowlet.FileTree.Resolve

/-!
# Staged files

New content for a file is first written to a temporary file in the directory of its target and then
put in place of the target in one step, so that a reader sees the old content or the new one.
`FileTree.stage` writes the temporary file, `FileTree.commit` moves it onto the target, and
`FileTree.discard` removes it. The name of a temporary file has a number that no earlier one had,
and numbers whose names are in use are passed over.
-/

namespace Arrowlet

/-- Content that waits beside its target. -/
structure Staged where
  /-- The file that is to get the content. -/
  target : Location
  /-- The file that holds it until then. -/
  temp : Location
  deriving DecidableEq, Repr

namespace FileTree

/-- The name of a temporary file for a target with the name `base`. -/
def tempName (base : Bytes) (number : Nat) : Bytes :=
  "." ++ base ++ ".tmp-" ++ Bytes.decimal number

/-- The index of the first number from `index` on whose temporary name is not in use. A name that is
in use is left out of the rest of the search, so the search ends. -/
def freshIndex (numbers : TempNumbers) (base : Bytes) (used : List Bytes) (index : Nat) : Nat :=
  let name := tempName base (numbers.number index)
  if _h : name ∈ used then freshIndex numbers base (used.erase name) (index + 1) else index
termination_by used.length
decreasing_by
  rw [List.length_erase_of_mem _h]
  exact Nat.sub_lt (List.length_pos_of_mem _h) Nat.one_pos

/-- What keeps a new file from being made at a location. -/
def createFault? (t : FileTree) (loc : Location) : Option SystemFault :=
  match pathFault? loc.text with
  | some fault => some fault
  | none =>
    match t.walk [] loc.directory with
    | .error fault => some fault
    | .ok dir =>
      if t.lookup dir ≠ some .directory then some .notDirectory
      else if loc.base.length > maxName then some .nameTooLong
      else none

/-- Writes content to a temporary file beside the target that a path names. -/
def stage (t : FileTree) (path data : Bytes) (mode : Nat) : Except FileError Staged × FileTree :=
  match t.locate path with
  | .error e => (.error e, t)
  | .ok target =>
    let base := target.base
    if base.contains Bytes.slash then
      (.error (.separatorInPattern ("." ++ base ++ ".tmp-*")), t)
    else
      let index := freshIndex t.numbers base (t.names target.directory) t.serial
      let temp := target.directory ++ [tempName base (t.numbers.number index)]
      match t.createFault? temp with
      | some fault => (.error (.cannotOpen temp.text fault), t)
      | none =>
        (.ok ⟨target, temp⟩,
          { t.put temp (.file data (mode % 0o1000)) with serial := index + 1 })

/-- Removes a staged file; the target stays as it is. -/
def discard (t : FileTree) (s : Staged) : FileTree := t.erase s.temp

/-- Moves a staged file onto its target. If that fails, the staged file is removed. -/
def commit (t : FileTree) (s : Staged) : Except FileError Unit × FileTree :=
  let failed (fault : SystemFault) :=
    (.error (.cannotRename s.temp.text s.target.text fault), t.discard s)
  match t.walk [] s.temp with
  | .error fault => failed fault
  | .ok _ =>
    match t.lookup s.temp, t.lookup s.target with
    | none, _ => failed .noEntry
    | some _, some .directory => failed .alreadyExists
    | some node, _ => (.ok (), (t.erase s.temp).put s.target node)

/-- Gives a file new content in one step. -/
def writeAtomic (t : FileTree) (path data : Bytes) (mode : Nat) :
    Except FileError Unit × FileTree :=
  match t.stage path data mode with
  | (.error e, t) => (.error e, t)
  | (.ok s, t) => t.commit s

end FileTree

end Arrowlet

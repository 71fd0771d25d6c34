import Arrowlet.Path

/-!
# File trees

A file tree holds files and directories at locations, together with the working directory of the
process that uses it and the numbers that its temporary files are going to have. There are no links,
and no permission refuses anything. The view of a tree is `FileTree.lookup`; the operations here are
the ones that set and remove what stands at a location, whatever stands around it.
-/

namespace Arrowlet

/-- What stands at a location. -/
inductive Node where
  /-- A file with its content and its permission bits. -/
  | file (data : Bytes) (mode : Nat)
  /-- A directory. -/
  | directory
  deriving DecidableEq, Repr

/-- The numbers that the system gives to temporary files, one after the other. They are arbitrary,
except that none of them comes twice. -/
structure TempNumbers where
  /-- The number that comes after `index` others. -/
  number : (index : Nat) → Nat
  /-- No number comes twice. -/
  injective : ∀ i j, number i = number j → i = j

/-- The numbers from `first` on. -/
def TempNumbers.upFrom (first : Nat) : TempNumbers := ⟨(first + ·), fun _ _ => Nat.add_left_cancel⟩

/-- Files and directories, and what a process knows about them. -/
structure FileTree where
  /-- What stands at each location other than the root. -/
  entries : List (Location × Node)
  /-- The working directory. -/
  cwd : Location
  /-- The numbers for temporary files. -/
  numbers : TempNumbers
  /-- How many of these numbers have been passed. -/
  serial : Nat

namespace FileTree

/-- The tree with nothing but the root. The numbers of its temporary files have ten digits, as most
of those have that a system draws. -/
def empty : FileTree := ⟨[], [], .upFrom 1000000000, 0⟩

/-- What stands at a location. The root is always a directory. -/
def lookup (t : FileTree) (loc : Location) : Option Node :=
  if loc = [] then some .directory else t.entries.lookup loc

/-- The tree without what stands at a location. -/
def erase (t : FileTree) (loc : Location) : FileTree :=
  { t with entries := t.entries.filter (·.1 ≠ loc) }

/-- The tree with a node at a location, in place of what stood there. -/
def put (t : FileTree) (loc : Location) (node : Node) : FileTree :=
  { t with entries := (loc, node) :: (t.erase loc).entries }

theorem lookup_erase (t : FileTree) (loc other : Location) (h : loc ≠ []) :
    (t.erase loc).lookup other = if other = loc then none else t.lookup other := by
  unfold lookup erase
  by_cases hroot : other = []
  · simp [hroot, Ne.symm h]
  · simp only [hroot, if_false]
    induction t.entries with
    | nil => simp
    | cons entry entries ih =>
      by_cases he : entry.1 = loc <;> by_cases ho : other = entry.1 <;> grind

theorem lookup_put (t : FileTree) (loc other : Location) (node : Node) (h : loc ≠ []) :
    (t.put loc node).lookup other = if other = loc then some node else t.lookup other := by
  have herase := t.lookup_erase loc other h
  unfold lookup at herase ⊢
  unfold put
  by_cases hroot : other = []
  · simp [hroot, Ne.symm h]
  · by_cases ho : other = loc
    · simp [h, ho]
    · simp only [hroot, ho, if_false] at herase ⊢
      rw [List.lookup_cons, beq_eq_false_iff_ne.mpr ho]
      exact herase

/-- The tree without a location and everything below it. -/
def removeAll (t : FileTree) (loc : Location) : FileTree :=
  { t with entries := t.entries.filter fun entry => !loc.isPrefixOf entry.1 }

/-- The tree with directories on the whole way `above ++ way`, as far as no file is in the way. -/
def makeDirectories (t : FileTree) (above : Location) : (way : List Bytes) → FileTree
  | [] => t
  | name :: way =>
    let loc := above ++ [name]
    match t.lookup loc with
    | none => (t.put loc .directory).makeDirectories loc way
    | some .directory => t.makeDirectories loc way
    | some (.file _ _) => t

/-- The names that stand in a directory. -/
def names (t : FileTree) (dir : Location) : List Bytes :=
  t.entries.filterMap fun (loc, _) =>
    match loc.getLast? with
    | some name => if loc.dropLast = dir then some name else none
    | none => none

end FileTree

end Arrowlet

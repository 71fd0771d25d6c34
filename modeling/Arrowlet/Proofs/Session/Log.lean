import Arrowlet.FileTree.Staging

/-!
# Sessions with staged files

A `Session` is a tree together with the log of the calls that made it: files that were staged,
committed or discarded, in any order and as often as one likes, and files that were written in one
step. The log says what the tree should hold. `Session.updates` are the commits and writes that
succeeded, and `Session.pending` are the temporary files of what was staged and has been neither
committed, successfully or not, nor discarded.
-/

namespace Arrowlet

namespace Session

/-- A call of a session. Staged files are given by their number in the order of staging. -/
inductive Call where
  /-- Stage content for a path. -/
  | stage (path data : Bytes) (mode : Nat)
  /-- Commit a staged file. -/
  | commit (index : Nat)
  /-- Discard a staged file. -/
  | discard (index : Nat)
  /-- Give a file new content in one step. -/
  | write (path data : Bytes) (mode : Nat)
  deriving DecidableEq, Repr

/-- The paths that a call names. -/
def Call.paths : Call → List Bytes
  | stage path _ _ | write path _ _ => [path]
  | commit _ | discard _ => []

/-- What a call came to. -/
inductive Event where
  /-- A file was staged with its content. -/
  | staged (s : Staged) (node : Node)
  /-- A staged file with its content was moved onto its target. -/
  | committed (s : Staged) (node : Node)
  /-- A staged file could not be moved onto its target. -/
  | refused (s : Staged)
  /-- A staged file was discarded. -/
  | discarded (s : Staged)
  /-- A file was written in one step. -/
  | written (target : Location) (node : Node)
  /-- Nothing was staged or written. -/
  | failed
  deriving DecidableEq, Repr

namespace Event

/-- The file that was staged, with its content. -/
def file? : Event → Option (Staged × Node)
  | staged s node => some (s, node)
  | _ => none

/-- The staged file that was committed, successfully or not, or discarded. -/
def settled? : Event → Option Staged
  | committed s _ | refused s | discarded s => some s
  | _ => none

/-- The staged file that was committed successfully. -/
def commit? : Event → Option Staged
  | committed s _ => some s
  | _ => none

/-- What took effect, and where. -/
def update? : Event → Option (Location × Node)
  | committed s node => some (s.target, node)
  | written target node => some (target, node)
  | _ => none

end Event

end Session

/-- A tree, and what the calls came to that made it. -/
structure Session where
  /-- The tree. -/
  tree : FileTree
  /-- What the calls came to, the first one first. -/
  log : List Session.Event

namespace Session

/-- The staged files with their content, in the order of staging. -/
def files (σ : Session) : List (Staged × Node) := σ.log.filterMap Event.file?

/-- The staged files that have been committed, successfully or not, or discarded. -/
def settled (σ : Session) : List Staged := σ.log.filterMap Event.settled?

/-- The staged files that have been committed successfully. -/
def commits (σ : Session) : List Staged := σ.log.filterMap Event.commit?

/-- What took effect, and where, in the order in which it did. -/
def updates (σ : Session) : List (Location × Node) := σ.log.filterMap Event.update?

/-- The staged files that still wait. -/
def waiting (σ : Session) : List (Staged × Node) := σ.files.filter fun f => f.1 ∉ σ.settled

/-- The temporary files of the staged files that still wait. -/
def pending (σ : Session) : List (Location × Node) := σ.waiting.map fun f => (f.1.temp, f.2)

/-- The session with one more event and the tree after it. -/
def record (σ : Session) (t : FileTree) (event : Event) : Session := ⟨t, σ.log ++ [event]⟩

/-- The file that holds staged content. -/
def content (data : Bytes) (mode : Nat) : Node := .file data (mode % 0o1000)

/-- The session after one more call. A call for a staged file that there is not does nothing. -/
def step (σ : Session) : Call → Session
  | .stage path data mode =>
    match σ.tree.stage path data mode with
    | (.ok s, t) => σ.record t (.staged s (content data mode))
    | (.error _, t) => σ.record t .failed
  | .commit index =>
    match σ.files[index]? with
    | none => σ
    | some (s, node) =>
      match σ.tree.commit s with
      | (.ok (), t) => σ.record t (.committed s node)
      | (.error _, t) => σ.record t (.refused s)
  | .discard index =>
    match σ.files[index]? with
    | none => σ
    | some (s, _) => σ.record (σ.tree.discard s) (.discarded s)
  | .write path data mode =>
    match σ.tree.locate path, σ.tree.writeAtomic path data mode with
    | .ok target, (.ok (), t) => σ.record t (.written target (content data mode))
    | _, (_, t) => σ.record t .failed

/-- The session that calls make of a tree. -/
def run (t : FileTree) (calls : List Call) : Session := calls.foldl step ⟨t, []⟩

/-- No path of a call leads to a temporary file that is staged in the session. -/
def NamesNoTemp (t : FileTree) (calls : List Call) : Prop :=
  ∀ call ∈ calls, ∀ path ∈ call.paths, ∀ f ∈ (run t calls).files, t.locate path ≠ .ok f.1.temp

section
variable {σ : Session} {t : FileTree} {event : Event}

@[simp] theorem files_record : (σ.record t event).files = σ.files ++ event.file?.toList := by
  cases event <;> simp [files, record, Event.file?]

@[simp] theorem settled_record :
    (σ.record t event).settled = σ.settled ++ event.settled?.toList := by
  cases event <;> simp [settled, record, Event.settled?]

@[simp] theorem commits_record :
    (σ.record t event).commits = σ.commits ++ event.commit?.toList := by
  cases event <;> simp [commits, record, Event.commit?]

@[simp] theorem updates_record :
    (σ.record t event).updates = σ.updates ++ event.update?.toList := by
  cases event <;> simp [updates, record, Event.update?]

/-- What is committed is settled. -/
theorem settled_of_mem_commits {s : Staged} (h : s ∈ σ.commits) : s ∈ σ.settled := by
  obtain ⟨event, hevent, hs⟩ := List.mem_filterMap.mp h
  refine List.mem_filterMap.mpr ⟨event, hevent, ?_⟩
  cases event with
  | committed s' node => exact hs
  | staged | refused | discarded | written | failed => cases hs

/-- Calls take nothing out of the list of staged files. -/
theorem mem_files_step {f : Staged × Node} (h : f ∈ σ.files) (call : Call) :
    f ∈ (σ.step call).files := by
  have hrecord : ∀ t event, f ∈ (σ.record t event).files := by
    intro t event
    rw [files_record]
    exact List.mem_append_left _ h
  cases call with
  | stage path data mode =>
    rw [step]
    split <;> exact hrecord _ _
  | commit index =>
    rw [step]
    split
    · exact h
    · split <;> exact hrecord _ _
  | discard index =>
    rw [step]
    split
    · exact h
    · exact hrecord _ _
  | write path data mode =>
    rw [step]
    split <;> exact hrecord _ _

theorem mem_files_foldl {f : Staged × Node} (h : f ∈ σ.files) (calls : List Call) :
    f ∈ (calls.foldl step σ).files := by
  induction calls generalizing σ with
  | nil => exact h
  | cons call calls ih => exact ih (mem_files_step h call)

end

end Session

end Arrowlet

/-!
# How a program ends
-/

namespace Arrowlet

/-- How a program ends. -/
inductive ExitStatus where
  /-- The work is done. -/
  | success
  /-- The work has failed. -/
  | failure
  /-- The program was not called as it should be. -/
  | misuse
  deriving DecidableEq, Repr

/-- The number that the system is told. -/
def ExitStatus.code : ExitStatus → Nat
  | success => 0
  | failure => 1
  | misuse => 2

end Arrowlet

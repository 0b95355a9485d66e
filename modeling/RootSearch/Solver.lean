import RootSearch.Search
/-!
# Configured solvers

A `Solver` holds a refiner and settings, nothing of any solve. An `Operation` reconfigures it or
solves with it; a reconfiguration that is refused leaves it as it was.
-/

namespace RootSearch

structure Solver (α : Type) where
  refiner : Refiner α
  settings : Settings α := {}

namespace Solver

variable {α : Type} [Scalar α]

/-- A solver by the name of its method. -/
def ofName (name : String) (settings : Settings α := {}) (slope : Option (Slope α) := none) :
    Except (Fault α) (Solver α) := do
  return { refiner := ← Refiner.ofName name slope, settings }

def setMaxEvaluations (s : Solver α) (maxEvaluations : Int) : Except (Fault α) (Solver α) := do
  return { s with settings := ← Settings.make maxEvaluations s.settings.lowBound s.settings.hiBound }

/-- Enforces a lower bound; `none` disables it. -/
def setLowBound (s : Solver α) (low : Option α) : Except (Fault α) (Solver α) := do
  return { s with settings := ← Settings.make s.settings.maxEvaluations low s.settings.hiBound }

def setHiBound (s : Solver α) (hi : Option α) : Except (Fault α) (Solver α) := do
  return { s with settings := ← Settings.make s.settings.maxEvaluations s.settings.lowBound hi }

def clearBounds (s : Solver α) : Except (Fault α) (Solver α) := do
  return { s with settings := ← Settings.make s.settings.maxEvaluations none none }

/-- The result of a solve from a guess and a step. -/
def run (s : Solver α) (f : Objective α) (accuracy guess step : α) : Solve α (Result α) :=
  solveFromGuess s.refiner f s.settings accuracy guess step

def runBracketed (s : Solver α) (f : Objective α) (accuracy guess xMin xMax : α) :
    Solve α (Result α) :=
  solveInBracket s.refiner f s.settings accuracy guess xMin xMax

/-- The root from a guess and a step; anything else is a fault. -/
def solve (s : Solver α) (f : Objective α) (accuracy guess step : α) : Solve α (Option α) := do
  Solve.attempt (← s.run f accuracy guess step).unwrap

def solveBracketed (s : Solver α) (f : Objective α) (accuracy guess xMin xMax : α) :
    Solve α (Option α) := do
  Solve.attempt (← s.runBracketed f accuracy guess xMin xMax).unwrap

/-! ## Operations -/

/-- What can be asked of a solver. -/
inductive Operation (α : Type) where
  | setMaxEvaluations (maxEvaluations : Int)
  | setLowBound (low : Option α)
  | setHiBound (hi : Option α)
  | clearBounds
  | run (f : Objective α) (accuracy guess step : α)
  | runBracketed (f : Objective α) (accuracy guess xMin xMax : α)
  | solve (f : Objective α) (accuracy guess step : α)
  | solveBracketed (f : Objective α) (accuracy guess xMin xMax : α)

inductive Answer (α : Type) where
  | configured
  | result (result : Result α)
  | root (root : Option α)

/-- The solver after a reconfiguration, and what came of it. -/
def reconfigure (s : Solver α) (changed : Except (Fault α) (Solver α)) :
    Except (Fault α) (Answer α) × Solver α :=
  match changed with
  | .ok s => (.ok .configured, s)
  | .error fault => (.error fault, s)

/-- The outcome of one operation, the session of its solve, and the solver after it. -/
def perform (s : Solver α) :
    Operation α → (Except (Fault α) (Answer α) × Session α) × Solver α
  | .setMaxEvaluations n => settle (s.reconfigure (s.setMaxEvaluations n))
  | .setLowBound low => settle (s.reconfigure (s.setLowBound low))
  | .setHiBound hi => settle (s.reconfigure (s.setHiBound hi))
  | .clearBounds => settle (s.reconfigure s.clearBounds)
  | .run f accuracy guess step => use (.result <$> s.run f accuracy guess step)
  | .runBracketed f accuracy guess xMin xMax =>
    use (.result <$> s.runBracketed f accuracy guess xMin xMax)
  | .solve f accuracy guess step => use (.root <$> s.solve f accuracy guess step)
  | .solveBracketed f accuracy guess xMin xMax =>
    use (.root <$> s.solveBracketed f accuracy guess xMin xMax)
where
  settle (r : Except (Fault α) (Answer α) × Solver α) := ((r.1, Session.start), r.2)
  use (m : Solve α (Answer α)) := (m.exec Session.start, s)

end Solver

end RootSearch

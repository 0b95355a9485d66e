import RootSearch.Objective
import RootSearch.Settings
/-!
# Sessions

The bookkeeping of one solve: the bracket, the current estimate, the evaluations charged so far, the
points at which the objective was called, and what there is to log. A solve begins with a session
and every result is read off one.
-/

namespace RootSearch

/-- What a computation reports while it works. -/
inductive Event (α : Type) where
  | expanded (side : Side) (bracket : Bracket α)
  | bracketed (evaluations : Int) (bracket : Bracket α)
  | searchFailed (reason : Reason α)
  | notBracketed (reason : Reason α)
  | polishing (x : α) (bracket : Bracket α)
  | solvingYield (flows : Nat) (method : String) (guess : α)
  | noQuotes
  /-- A volatility of zero was given. -/
  | zeroVol (vol : Strip α)
  | quotesFailed (failed total : Nat)
deriving DecidableEq

structure Session (α : Type) where
  root : α
  bracket : Bracket α
  evaluations : Int := 0
  samples : Array α := #[]
  events : Array (Event α) := #[]

namespace Session

variable {α : Type}

/-- A session about the point zero. -/
def start [Scalar α] : Session α := { root := 0.0, bracket := ⟨0.0, 0.0, 0.0, 0.0⟩ }

/-- Whether another evaluation may be made under a budget. -/
def hasBudget (s : Session α) (limit : Nat) : Bool := s.evaluations ≤ limit

/-! ## Results -/

def converged (s : Session α) (x : α) (method : String) : Result α :=
  { status := .converged, root := some x, evaluations := s.evaluations, method,
    bracket := some s.bracket }

def fail (s : Session α) (status : Status) (reason : Reason α) (method : String)
    (root : Option α := none) : Result α :=
  { status, root, evaluations := s.evaluations, method, reason, bracket := some s.bracket }

/-- The result when the budget is spent. -/
def exhausted (s : Session α) (limit : Nat) (method : String) : Result α :=
  s.fail .maxEvaluationsExceeded (.refinementSpent method limit s.bracket s.root) method

/-- The result once the bracket, or a step, is too small to matter: the best sampled point is a root
if it meets the accuracy, and otherwise the objective jumps. -/
def collapsed [Scalar α] (s : Session α) (x fx : α) (method : String) (accuracy : α) : Result α :=
  let (x, fx) := s.bracket.best (x, fx)
  if Scalar.abs fx ≤ accuracy then s.converged x method
  else s.fail .accuracyNotReached (.collapsed method accuracy s.bracket x fx) method (some x)

end Session

end RootSearch

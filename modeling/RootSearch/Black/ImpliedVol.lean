import RootSearch.Black.Price
import RootSearch.Solver
/-!
# Implied volatility

The volatility at which the price of an option meets a target, found by a root search within bounds.
-/

namespace RootSearch

namespace ImpliedVol

/-- The least volatility that is searched. -/
def floor {α : Type} [Scalar α] : α := 0.0

/-- The greatest volatility that is searched. -/
def cap {α : Type} [Scalar α] : α := 5.0

/-- Where a search starts, and by which method. -/
structure Query (α : Type) [Scalar α] where
  guess : α := 0.2
  step : α := 0.05
  volMin : α := 1e-4
  volMax : α := cap
  method : String := "brent"

end ImpliedVol

/-- An engine for implied volatilities. -/
structure ImpliedVol (α : Type) [Scalar α] where
  pricer : Pricer α := {}
  settings : Settings α := { lowBound := some ImpliedVol.floor, hiBound := some ImpliedVol.cap }
  accuracy : α := 1e-10

namespace ImpliedVol

variable {α : Type} [AnalyticScalar α]

/-- The price less the target. -/
def gap (pricer : Pricer α) (c : Context α) (target : α) (sigma : Strip α) :
    Except (Fault α) (Strip α) := do
  return (← pricer.priceWithVol c sigma).map (· - target)

/-- The gap as a function of one volatility, with the vega as its derivative. -/
def objective (pricer : Pricer α) (c : Context α) (target : α) : Objective α where
  value sigma := do (← gap pricer c target (.one sigma)).scalar
  slope := some fun sigma => do (← pricer.vegaWithVol c (.one sigma)).scalar

def solver (e : ImpliedVol α) (method : String) : Except (Fault α) (Solver α) :=
  Solver.ofName method e.settings

/-- The result of a search from a guess and a step. -/
def run (e : ImpliedVol α) (target : α) (c : Context α) (q : Query α) : Solve α (Result α) := do
  let solver ← Solve.attempt (e.solver q.method)
  solver.run (objective e.pricer c target) e.accuracy q.guess q.step

def solve (e : ImpliedVol α) (target : α) (c : Context α) (q : Query α) :
    Solve α (Option α) := do
  Solve.attempt (← e.run target c q).unwrap

/-- The root between the least and the greatest volatility of the query. -/
def solveBracketed (e : ImpliedVol α) (target : α) (c : Context α) (q : Query α) :
    Solve α (Option α) := do
  let solver ← Solve.attempt (e.solver q.method)
  solver.solveBracketed (objective e.pricer c target) e.accuracy q.guess q.volMin q.volMax

end ImpliedVol

end RootSearch

import RootSearch.CashFlow.Discount
import RootSearch.Solver
/-!
# Internal rates of return

The flat rate at which the net present value of some flows equals a market price. Before a search,
the flows in the order of their times, with the price as a payment at the start, must change sign:
without a change no rate can balance them.
-/

namespace RootSearch

variable {α : Type} [AnalyticScalar α]

/-- Live flows against a market price. -/
structure Investment (α : Type) where
  flows : List (Flow α)
  price : α
  convention : Convention := {}

namespace Investment

def make (amounts times : List α) (price : α) (convention : Convention) :
    Except (Fault α) (Investment α) := do
  return { flows := ← Flow.live amounts times, price, convention }

/-- The net present value less the price, as a function of the rate. -/
def objective (i : Investment α) : Objective α where
  value rate := do return (← presentValue i.convention i.flows rate) - i.price
  slope := some (presentValueSlope i.convention i.flows)

/-! ## Whether a rate can exist -/

/-- One, minus one, or what is neither positive nor negative. -/
def sign (x : α) : α := if 0.0 < x then 1.0 else if x < 0.0 then -1.0 else x

/-- The number of neighbours with different signs. -/
def changes : List α → Nat
  | x :: y :: rest => (if sign x == sign y then 0 else 1) + changes (y :: rest)
  | _ => 0

/-- The number of sign changes of a sequence, zeros left out. -/
def signChanges (xs : List α) : Nat := changes (xs.filter fun x => !(x == 0.0))

/-- The price paid, then the amounts in the order of their times. -/
def payments (i : Investment α) : List α :=
  -i.price :: (i.flows.mergeSort fun a b => decide (a.time ≤ b.time)).map Flow.amount

/-! ## The search -/

/-- The latest time, or one year if that is later. -/
def horizon (i : Investment α) : α := (i.flows.map Flow.time).foldl Scalar.maxNaN 1.0

/-- A bound just above the rates at which a discount factor has no value. -/
def lowBound (i : Investment α) : Except (Fault α) (Option α) :=
  match i.convention.compounding with
  | .compounded => do
    let n ← i.convention.periods
    return some (-n + 1e-8)
  | .simple => .ok (some (-1.0 / i.horizon + 1e-8))
  | .continuous => .ok none

/-- How a rate is searched for. -/
structure Query (α : Type) [Scalar α] where
  tolerance : α := 1e-10
  maxEvaluations : Int := 10000
  guess : α := 0.05
  method : String := "brent"

/-- The first step from the guess. -/
def Query.step (q : Query α) : α := if q.guess == 0.0 then 0.005 else q.guess / 10.0

/-- The solver for an investment in which the signs change. -/
def solver (i : Investment α) (q : Query α) : Except (Fault α) (Solver α) :=
  if signChanges i.payments = 0 then .error .noSignChange
  else do
    let low ← i.lowBound
    let refiner ← Refiner.ofName q.method
    return { refiner, settings := ← Settings.make q.maxEvaluations low none }

/-- The result of the search for the internal rate of return. -/
def run (i : Investment α) (q : Query α) : Solve α (Result α) := do
  let solver ← Solve.attempt (i.solver q)
  Solve.log (.solvingYield i.flows.length q.method q.guess)
  solver.run i.objective q.tolerance q.guess q.step

/-- The internal rate of return. -/
def rate (i : Investment α) (q : Query α) : Solve α (Option α) := do
  Solve.attempt (← i.run q).unwrap

end Investment

end RootSearch

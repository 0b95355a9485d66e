import RootSearch.Refine.Bisection
import RootSearch.Refine.Brentq
import RootSearch.Refine.FalsePosition
import RootSearch.Refine.Ridder
import RootSearch.Refine.SafeNewton
import RootSearch.Refine.Secant
/-!
# Refiners

A method together with the derivative that it was given.
-/

namespace RootSearch

structure Refiner (α : Type) where
  method : Method
  /-- Used by the Newton methods instead of the objective's own derivative. -/
  slope : Option (Slope α) := none

namespace Refiner

variable {α : Type} [Scalar α]

/-- The refiner of a named method. -/
def ofName (name : String) (slope : Option (Slope α) := none) : Except (Fault α) (Refiner α) :=
  match Method.ofName? name with
  | some method => .ok { method, slope := if method.usesSlope then slope else none }
  | none => .error (.unknownMethod name)

def name (r : Refiner α) : String := r.method.name

/-- Narrows the bracket of the session down to a root. A search by tolerance follows the strategy. -/
def refineBy (strategy : Brentq.Strategy α) (r : Refiner α) (f : Objective α) (limit : Nat)
    (accuracy : α) : Solve α (Result α) :=
  match r.method with
  | .bisection => Bisection.refine f limit accuracy
  | .brent => Brent.refine f limit accuracy
  | .brentq => Brentq.refineBy strategy f limit accuracy
  | .falsePosition => FalsePosition.refine f limit accuracy
  | .newton => Newton.refine f r.slope limit accuracy
  | .safeNewton => SafeNewton.refine f r.slope limit accuracy
  | .ridder => Ridder.refine f limit accuracy
  | .secant => Secant.refine f limit accuracy

def refine (r : Refiner α) (f : Objective α) (limit : Nat) (accuracy : α) : Solve α (Result α) :=
  r.refineBy Brentq.strategy f limit accuracy

end Refiner

end RootSearch

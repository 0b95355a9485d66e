import RootSearch.Scalar
/-!
# Brackets

Two points with the values of the objective there. A bracket that holds a sign change keeps it when
it shrinks, since the end that moves is the one whose sign the new value shares.
-/

namespace RootSearch

structure Bracket (α : Type) where
  xMin : α
  xMax : α
  fMin : α
  fMax : α
deriving DecidableEq

/-- The end at which a bracket grows. Either end can also be chosen to break a tie. -/
inductive Side where
  | low
  | high
  | tieLow
  | tieHigh
deriving DecidableEq

/-- Whether the values at the two ends did not decide. -/
def Side.isTie : Side → Bool
  | .tieLow | .tieHigh => true
  | .low | .high => false

namespace Bracket

variable {α : Type} [Scalar α]

/-- Moves the end that shares the sign of `fx` to `x`. -/
def shrink (b : Bracket α) (x fx : α) : Bracket α :=
  if decide (fx < 0.0) = decide (b.fMin < 0.0) then { b with xMin := x, fMin := fx }
  else { b with xMax := x, fMax := fx }

/-- The distance between the ends. -/
def width (b : Bracket α) : α := Scalar.abs (b.xMax - b.xMin)

def midpoint (b : Bracket α) : α := 0.5 * (b.xMin + b.xMax)

/-- The sampled point with the smaller value in magnitude, the first of two equals. -/
def closer (p q : α × α) : α × α := if Scalar.abs q.2 < Scalar.abs p.2 then q else p

/-- The best of a sampled point and the two ends. -/
def best (b : Bracket α) (p : α × α) : α × α :=
  closer (closer p (b.xMin, b.fMin)) (b.xMax, b.fMax)

end Bracket

end RootSearch

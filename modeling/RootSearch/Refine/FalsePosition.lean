import RootSearch.Solve
/-!
# False position

Samples where the chord through the two ends crosses zero, and keeps the part of the bracket that
holds the sign change. One end may stay for good, so the method stops when the estimate no longer
moves.
-/

namespace RootSearch.FalsePosition

open Solve

variable {α : Type} [Scalar α]

def name : String := Method.falsePosition.name

/-- Where the chord through the ends crosses zero. -/
def chord (b : Bracket α) : Except (Fault α) α := do
  let dx ← Scalar.quotient ((b.xMax - b.xMin) * b.fMin) (b.fMin - b.fMax)
  return b.xMin + dx

/-- Whether `x` is no farther from the previous estimate than `x` is resolved. -/
def hasStalled (previous : Option α) (x : α) : Bool :=
  previous.any fun p => Scalar.abs (x - p) ≤ Scalar.resolution x

/-- The state of a pass is the previous estimate. -/
def pass (f : Objective α) (accuracy : α) (previous : Option α) :
    Solve α (Pass (Option α) (Result α)) := do
  let x ← attempt (chord (← bracket))
  let fx ← sample f x
  setRoot x
  if Scalar.abs fx ≤ accuracy then
    return .stop (← converged x name)
  else do
    shrink x fx
    if hasStalled previous x then
      return .stop (← collapsed x fx name accuracy)
    else
      return .again (some x)

def refine (f : Objective α) (limit : Nat) (accuracy : α) : Solve α (Result α) :=
  whileBudget limit (pass f accuracy) (exhausted limit name) Scalar.infinity?

end RootSearch.FalsePosition

import RootSearch.Solve
/-!
# Bisection

Samples the midpoint and keeps the half that holds the sign change.
-/

namespace RootSearch.Bisection

open Solve

variable {α : Type} [Scalar α]

def name : String := Method.bisection.name

def pass (f : Objective α) (accuracy : α) (_ : Unit) : Solve α (Pass Unit (Result α)) := do
  let mid := (← bracket).midpoint
  let fMid ← sample f mid
  setRoot mid
  if Scalar.abs fMid ≤ accuracy then
    return .stop (← converged mid name)
  else do
    shrink mid fMid
    if (← bracket).width ≤ Scalar.resolution mid then
      return .stop (← collapsed mid fMid name accuracy)
    else
      return .again ()

def refine (f : Objective α) (limit : Nat) (accuracy : α) : Solve α (Result α) :=
  whileBudget limit (pass f accuracy) (exhausted limit name) ()

end RootSearch.Bisection

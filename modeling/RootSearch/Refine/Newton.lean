import RootSearch.Solve
/-!
# Newton's method

Plain Newton steps from the current estimate. A step that leaves the bracket, or a flat slope, ends
the solve. Only the objective is charged to the budget, not its derivative.
-/

namespace RootSearch

/-- The derivative that was supplied, or else the objective's own. -/
def Objective.slopeFor {α : Type} (f : Objective α) (method : Method) (supplied : Option (Slope α)) :
    Except (Fault α) (Slope α) :=
  match supplied <|> f.slope with
  | some slope => .ok slope
  | none => .error (.noSlope method)

namespace Newton

open Solve

variable {α : Type} [Scalar α]

def name : String := Method.newton.name

/-- An estimate with the objective and its derivative there. -/
structure Point (α : Type) where
  x : α
  fx : α
  slope : α

/-- Samples the objective, then its derivative. -/
def point (f : Objective α) (slope : Slope α) (x : α) : Solve α (Point α) := do
  let fx ← sample f x
  let dfx ← attempt (slope x)
  return ⟨x, fx, dfx⟩

def isOutside (b : Bracket α) (x : α) : Bool := (b.xMin - x) * (x - b.xMax) < 0.0

def pass (f : Objective α) (slope : Slope α) (accuracy : α) (p : Point α) :
    Solve α (Pass (Point α) (Result α)) := do
  if p.slope == 0.0 then
    return .stop (← fail .diverged (.zeroSlope name p.x p.fx) name (some p.x))
  else do
    let dx ← attempt (Scalar.quotient p.fx p.slope)
    let x := p.x - dx
    setRoot x
    let b ← bracket
    if isOutside b x then
      return .stop (← fail .diverged (.leftRange name x b) name (some x))
    else do
      let q ← point f slope x
      if Scalar.abs q.fx ≤ accuracy then
        return .stop (← converged x name)
      else if Scalar.abs dx ≤ Scalar.resolution x then
        return .stop (← collapsed x q.fx name accuracy)
      else
        return .again q

def refine (f : Objective α) (supplied : Option (Slope α)) (limit : Nat) (accuracy : α) :
    Solve α (Result α) := do
  let slope ← attempt (f.slopeFor .newton supplied)
  let p ← point f slope (← get).root
  if Scalar.abs p.fx ≤ accuracy then converged p.x name
  else whileBudget limit (pass f slope accuracy) (exhausted limit name) p

end Newton

end RootSearch

import RootSearch.Refine.Newton
/-!
# Safeguarded Newton method

Takes a Newton step unless it would leave the bracket or shrinks it too slowly, and bisects
otherwise.
-/

namespace RootSearch.SafeNewton

open Solve

variable {α : Type} [Scalar α]

def name : String := Method.safeNewton.name

/-- The ends ordered by the sign of the objective, the last two steps, and the current estimate. -/
structure Iterate (α : Type) where
  xLow : α
  xHigh : α
  step : α
  lastStep : α
  point : Newton.Point α

/-- The ends of a bracket, the one with the negative value first. -/
def orient (b : Bracket α) : α × α :=
  if b.fMin < 0.0 then (b.xMin, b.xMax) else (b.xMax, b.xMin)

/-- Whether the Newton step would lead out of the bracket. -/
def leadsOut (s : Iterate α) : Bool :=
  let p := s.point
  0.0 < ((p.x - s.xHigh) * p.slope - p.fx) * ((p.x - s.xLow) * p.slope - p.fx)

/-- Whether the Newton step is not shorter than half the step before last. -/
def isSlow (s : Iterate α) : Bool :=
  Scalar.abs (s.lastStep * s.point.slope) < Scalar.abs (2.0 * s.point.fx)

/-- The next step and the point that it leads to. -/
def advance (s : Iterate α) : Except (Fault α) (α × α) :=
  if leadsOut s || isSlow s then
    let dx := 0.5 * (s.xHigh - s.xLow)
    .ok (dx, s.xLow + dx)
  else do
    let dx ← Scalar.quotient s.point.fx s.point.slope
    return (dx, s.point.x - dx)

/-- Moves the end whose sign the new value shares. -/
def Iterate.next (s : Iterate α) (dx : α) (p : Newton.Point α) : Iterate α :=
  let s := { s with step := dx, lastStep := s.step, point := p }
  if p.fx < 0.0 then { s with xLow := p.x } else { s with xHigh := p.x }

def pass (f : Objective α) (slope : Slope α) (accuracy : α) (s : Iterate α) :
    Solve α (Pass (Iterate α) (Result α)) := do
  let (dx, x) ← attempt (advance s)
  setRoot x
  let p ← Newton.point f slope x
  if Scalar.abs p.fx ≤ accuracy then
    return .stop (← converged x name)
  else do
    shrink x p.fx
    if Scalar.abs dx ≤ Scalar.resolution x then
      return .stop (← collapsed x p.fx name accuracy)
    else
      return .again (s.next dx p)

def refine (f : Objective α) (supplied : Option (Slope α)) (limit : Nat) (accuracy : α) :
    Solve α (Result α) := do
  let slope ← attempt (f.slopeFor .safeNewton supplied)
  let b ← bracket
  let (xLow, xHigh) := orient b
  let p ← Newton.point f slope (← get).root
  if Scalar.abs p.fx ≤ accuracy then converged p.x name
  else whileBudget limit (pass f slope accuracy) (exhausted limit name) ⟨xLow, xHigh, b.width, b.width, p⟩

end RootSearch.SafeNewton

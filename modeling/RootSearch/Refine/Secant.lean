import RootSearch.Solve
/-!
# Secant method

Starts from the end with the smaller value. The two secant points need not straddle the root, so the
bracket is kept beside them: every sample shrinks it, and a candidate outside it gives way to the
midpoint. No sample is taken outside the bracket.
-/

namespace RootSearch.Secant

open Solve

variable {α : Type} [Scalar α]

def name : String := Method.secant.name

/-- The current and the previous secant point. -/
structure Points (α : Type) where
  x : α
  fx : α
  xLast : α
  fLast : α

/-- Starts at the end with the smaller value. -/
def Points.ofBracket (b : Bracket α) : Points α :=
  if Scalar.abs b.fMin < Scalar.abs b.fMax then ⟨b.xMin, b.fMin, b.xMax, b.fMax⟩
  else ⟨b.xMax, b.fMax, b.xMin, b.fMin⟩

/-- The step to where the secant crosses zero. -/
def secantStep (p : Points α) : Except (Fault α) α :=
  Scalar.quotient ((p.xLast - p.x) * p.fx) (p.fx - p.fLast)

/-- The secant step, or the step to the midpoint if that one leads out of the bracket. -/
def insideStep (b : Bracket α) (x dx : α) : α :=
  if (b.xMin - x - dx) * (x + dx - b.xMax) < 0.0 then b.midpoint - x else dx

def pass (f : Objective α) (accuracy : α) (p : Points α) :
    Solve α (Pass (Points α) (Result α)) := do
  if p.fx == p.fLast then
    return .stop (← fail .diverged (.flatSecant name p.xLast p.x p.fx) name (some p.x))
  else do
    let dx := insideStep (← bracket) p.x (← attempt (secantStep p))
    let x := p.x + dx
    let fx ← sample f x
    setRoot x
    if Scalar.abs fx ≤ accuracy then
      return .stop (← converged x name)
    else do
      shrink x fx
      if Scalar.abs dx ≤ Scalar.resolution x then
        return .stop (← collapsed x fx name accuracy)
      else
        return .again ⟨x, fx, p.x, p.fx⟩

def refine (f : Objective α) (limit : Nat) (accuracy : α) : Solve α (Result α) := do
  whileBudget limit (pass f accuracy) (exhausted limit name) (Points.ofBracket (← bracket))

end RootSearch.Secant

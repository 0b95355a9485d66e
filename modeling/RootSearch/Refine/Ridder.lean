import RootSearch.Solve
/-!
# Ridders' method

Each pass samples the midpoint, then a point found from an exponential fit through the midpoint and
the two ends.
-/

namespace RootSearch.Ridder

open Solve

variable {α : Type} [Scalar α]

def name : String := Method.ridder.name

/-- The scale of the fit; it is zero only if the midpoint and an end have no value but zero. -/
def scale (b : Bracket α) (fMid : α) : Except (Fault α) α :=
  Scalar.root (fMid * fMid - b.fMin * b.fMax)

/-- The zero of the fit. -/
def fitted (b : Bracket α) (mid fMid s : α) : Except (Fault α) α := do
  let direction : α := if b.fMax ≤ b.fMin then 1.0 else -1.0
  let dx ← Scalar.quotient ((mid - b.xMin) * direction * fMid) s
  return mid + dx

/-- Keeps whichever pair of points straddles the root. -/
def narrow (b : Bracket α) (mid fMid x fx : α) : Bracket α :=
  if !(Scalar.copySign fMid fx == fMid) then ⟨mid, x, fMid, fx⟩ else b.shrink x fx

def pass (f : Objective α) (accuracy : α) (_ : Unit) : Solve α (Pass Unit (Result α)) := do
  let b ← bracket
  let mid := b.midpoint
  let fMid ← sample f mid
  setRoot mid
  if Scalar.abs fMid ≤ accuracy then
    return .stop (← converged mid name)
  else do
    let s ← attempt (scale b fMid)
    if s == 0.0 then
      return .stop (← collapsed mid fMid name accuracy)
    else do
      let x ← attempt (fitted b mid fMid s)
      let fx ← sample f x
      setRoot x
      if Scalar.abs fx ≤ accuracy then
        return .stop (← converged x name)
      else do
        let b := narrow b mid fMid x fx
        setBracket b
        if b.width ≤ Scalar.resolution x then
          return .stop (← collapsed x fx name accuracy)
        else
          return .again ()

def refine (f : Objective α) (limit : Nat) (accuracy : α) : Solve α (Result α) :=
  whileBudget limit (pass f accuracy) (exhausted limit name) ()

end RootSearch.Ridder

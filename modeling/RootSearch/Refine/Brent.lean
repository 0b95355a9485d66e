import RootSearch.Solve
/-!
# Brent's method

Inverse quadratic interpolation, with bisection whenever the interpolated step is not trustworthy.
While it runs, the end `xMax` of the bracket is the contrapoint, where the objective has the other
sign, and `xMin` is the previous estimate.
-/

namespace RootSearch.Brent

open Solve

variable {α : Type} [Scalar α]

def name : String := Method.brent.name

/-- The best estimate, the value there, and the last two steps. -/
structure Iterate (α : Type) where
  x : α
  fx : α
  step : α
  lastStep : α

/-- Picks the contrapoint so that it and the estimate straddle the root. -/
def pickContrapoint (b : Bracket α) (fx : α) : Bracket α :=
  if fx * b.fMin < 0.0 then { b with xMax := b.xMin, fMax := b.fMin }
  else { b with xMin := b.xMax, fMin := b.fMax }

def sameSign (y z : α) : Bool := (0.0 < y && 0.0 < z) || (y < 0.0 && z < 0.0)

/-- Takes the previous estimate as the contrapoint when the old one no longer is one. -/
def reset (b : Bracket α) (s : Iterate α) : Bracket α × Iterate α :=
  if sameSign s.fx b.fMax then
    let d := s.x - b.xMin
    ({ b with xMax := b.xMin, fMax := b.fMin }, { s with step := d, lastStep := d })
  else (b, s)

/-- Makes the end with the smaller value the estimate. -/
def swap (b : Bracket α) (s : Iterate α) : Bracket α × Iterate α :=
  if Scalar.abs b.fMax < Scalar.abs s.fx then
    (⟨s.x, s.x, s.fx, s.fx⟩, { s with x := b.xMax, fx := b.fMax })
  else (b, s)

/-- The estimate and its contrapoint in order. -/
def arrange (b : Bracket α) (s : Iterate α) : Bracket α × Iterate α :=
  let (b, s) := reset b s
  swap b s

/-! ## The step -/

/-- The interpolated step `p / q`, as its two parts: along the secant if only two points differ, and
otherwise by inverse quadratic interpolation. `half` is half the way to the contrapoint. -/
def interpolate (b : Bracket α) (s : Iterate α) (half : α) : Except (Fault α) (α × α) := do
  let t ← Scalar.quotient s.fx b.fMin
  if b.xMin == b.xMax then
    return (2.0 * half * t, 1.0 - t)
  else do
    let q ← Scalar.quotient b.fMin b.fMax
    let r ← Scalar.quotient s.fx b.fMax
    return (t * (2.0 * half * q * (q - r) - (s.x - b.xMin) * (r - 1.0)),
      (q - 1.0) * (r - 1.0) * (t - 1.0))

/-- Whether the interpolated step is short enough against the way to the contrapoint and against the
step before last. -/
def isTrusted (p q half tol lastStep : α) : Bool :=
  2.0 * p < Scalar.minOf (3.0 * half * q - Scalar.abs (tol * q)) (Scalar.abs (lastStep * q))

/-- The next step and the one before it. -/
def chooseStep (b : Bracket α) (s : Iterate α) (half tol : α) : Except (Fault α) (α × α) :=
  if tol ≤ Scalar.abs s.lastStep ∧ Scalar.abs s.fx < Scalar.abs b.fMin then do
    let (p, q) ← interpolate b s half
    let q := if 0.0 < p then -q else q
    let p := Scalar.abs p
    if isTrusted p q half tol s.lastStep then
      return (← Scalar.quotient p q, s.step)
    else
      return (half, half)
  else
    .ok (half, half)

/-- The step, but no shorter than the resolution. -/
def atLeast (step half tol : α) : α :=
  if tol < Scalar.abs step then step else Scalar.copySign tol half

def pass (f : Objective α) (accuracy : α) (s : Iterate α) :
    Solve α (Pass (Iterate α) (Result α)) := do
  let (b, s) := arrange (← bracket) s
  setBracket b
  setRoot s.x
  let tol := Scalar.resolution s.x
  let half := 0.5 * (b.xMax - s.x)
  if Scalar.abs s.fx ≤ accuracy then
    return .stop (← converged s.x name)
  else if Scalar.abs half ≤ tol then
    return .stop (← collapsed s.x s.fx name accuracy)
  else do
    let (step, lastStep) ← attempt (chooseStep b s half tol)
    setMin s.x s.fx
    let x := s.x + atLeast step half tol
    let fx ← sample f x
    setRoot x
    if Scalar.abs fx ≤ accuracy then
      return .stop (← converged x name)
    else
      return .again ⟨x, fx, step, lastStep⟩

def refine (f : Objective α) (limit : Nat) (accuracy : α) : Solve α (Result α) := do
  let x := (← get).root
  let fx ← sample f x
  if Scalar.abs fx ≤ accuracy then converged x name
  else do
    let b := pickContrapoint (← bracket) fx
    setBracket b
    let d := x - b.xMax
    whileBudget limit (pass f accuracy) (exhausted limit name) ⟨x, fx, d, d⟩

end RootSearch.Brent

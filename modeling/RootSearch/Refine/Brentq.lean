import RootSearch.Refine.Brent
/-!
# Brent's method by tolerance

A search by tolerance runs until its bracket is within a tolerance of the abscissa. How it chooses its
points is a strategy, which the method takes as it comes and puts to the objective. The root that the
search ends with is accepted only if the objective meets the accuracy there. Otherwise every point that
was sampled narrows the bracket, and `Brent.refine` finishes on what is left of the budget.
-/

namespace RootSearch.Brentq

open Solve

variable {α : Type} [Scalar α]

def name : String := Method.brentq.name

/-! ## Inquiries

A search sees the objective only through the values that it samples. Written apart from the objective
it is a strategy: where to ask next, given the answers so far.
-/

/-- What a search does next: end, refuse, or ask for a value and go on by it. -/
inductive Inquiry (α : Type) where
  | finish (root : α) (isConverged : Bool)
  | refuse (fault : Fault α)
  | ask (x : α) (next : α → Inquiry α)

/-- A search between two ends, to a tolerance and in a number of steps. -/
abbrev Strategy (α : Type) := (a b tolerance : α) → (steps : Nat) → Inquiry α

/-- Where a search stopped, and all that it sampled, the latest first. -/
structure Found (α : Type) where
  root : α
  isConverged : Bool
  samples : List (α × α)

/-- Puts an inquiry to an objective. -/
def Inquiry.run {α : Type} (f : Objective α) : Inquiry α → List (α × α) → Solve α (Found α)
  | .finish root isConverged, samples => return ⟨root, isConverged, samples⟩
  | .refuse fault, _ => throw fault
  | .ask x next, samples => do
    let fx ← sample f x
    (next fx).run f ((x, fx) :: samples)

/-! ## Using what the search found -/

/-- The bracket narrowed by every sample in turn, zeros left out. -/
def replay (b : Bracket α) (samples : List (α × α)) : Bracket α :=
  samples.foldl (fun b p => if p.2 == 0.0 then b else b.shrink p.1 p.2) b

/-- The value at the root when it was last sampled. -/
def Found.valueAtRoot (r : Found α) : Option α :=
  (r.samples.find? fun p => p.1 == r.root).map Prod.snd

def Found.meets (r : Found α) (accuracy : α) : Bool :=
  r.isConverged && r.valueAtRoot.any fun fx => Scalar.abs fx ≤ accuracy

/-- Finishes by `Brent.refine`, under the name of this method. -/
def polish (f : Objective α) (limit : Nat) (accuracy : α) : Solve α (Result α) := do
  return { ← Brent.refine f limit accuracy with method := name }

/-- The ends of a bracket in order. -/
def ordered (b : Bracket α) : α × α := if b.xMax < b.xMin then (b.xMax, b.xMin) else (b.xMin, b.xMax)

/-- The method with its search by a strategy, which gets what is left of the budget but two
evaluations for the ends of the bracket. -/
def refineBy (strategy : Strategy α) (f : Objective α) (limit : Nat) (accuracy : α) :
    Solve α (Result α) := do
  let steps : Int := limit - (← get).evaluations - 2
  if steps < 1 then polish f limit accuracy
  else do
    let (a, b) := ordered (← bracket)
    let found ← (strategy a b accuracy steps.toNat).run f []
    setBracket (replay (← bracket) found.samples.reverse)
    setRoot found.root
    if found.meets accuracy then converged found.root name
    else do
      log (.polishing found.root (← bracket))
      polish f limit accuracy

/-! ## A strategy

Brent's method in its hyperbolic form.
-/

/-- The relative tolerance of the search. -/
def relative : α := 4.0 * Scalar.epsilon

/-- The previous point, the current point and the point that blocks the root from the other side,
with their values and the last two steps. -/
structure Search (α : Type) where
  xPre : α
  xCur : α
  xBlk : α
  fPre : α
  fCur : α
  fBlk : α
  sPre : α
  sCur : α

namespace Search

/-- Takes the previous point as the blocking one when the sign has changed. -/
def block (s : Search α) : Search α :=
  if !(s.fPre == 0.0) && !(s.fCur == 0.0) && Scalar.signBit s.fPre != Scalar.signBit s.fCur then
    let d := s.xCur - s.xPre
    { s with xBlk := s.xPre, fBlk := s.fPre, sPre := d, sCur := d }
  else s

/-- Makes the better of the current and the blocking point the current one. -/
def order (s : Search α) : Search α :=
  if Scalar.abs s.fBlk < Scalar.abs s.fCur then
    { s with xPre := s.xCur, xCur := s.xBlk, xBlk := s.xCur,
             fPre := s.fCur, fCur := s.fBlk, fBlk := s.fCur }
  else s

/-- Half the distance below which the search stops. -/
def delta (tolerance : α) (s : Search α) : α := (tolerance + relative * Scalar.abs s.xCur) / 2.0

/-- Half the way to the blocking point. -/
def half (s : Search α) : α := (s.xBlk - s.xCur) / 2.0

/-- The interpolated step: along the secant, or by extrapolation through three points. -/
def trial (s : Search α) : α :=
  if s.xPre == s.xBlk then
    (-s.fCur) * (s.xCur - s.xPre) / (s.fCur - s.fPre)
  else
    let dPre := (s.fPre - s.fCur) / (s.xPre - s.xCur)
    let dBlk := (s.fBlk - s.fCur) / (s.xBlk - s.xCur)
    (-s.fCur) * (s.fBlk * dBlk - s.fPre * dPre) / (dBlk * dPre * (s.fBlk - s.fPre))

/-- The steps to take next: the interpolated one if it is short enough, or else half the way. -/
def chooseStep (delta : α) (s : Search α) : Search α :=
  let half := s.half
  let bisect : Search α := { s with sPre := half, sCur := half }
  if delta < Scalar.abs s.sPre ∧ Scalar.abs s.fCur < Scalar.abs s.fPre then
    let step := s.trial
    let bound := Scalar.minOf (3.0 * Scalar.abs half - delta) (Scalar.abs s.sPre)
    if 2.0 * Scalar.abs step < bound then { s with sPre := s.sCur, sCur := step } else bisect
  else bisect

/-- The next point to sample, no nearer to the current one than `delta`. -/
def target (delta half : α) (s : Search α) : α :=
  if delta < Scalar.abs s.sCur then s.xCur + s.sCur
  else s.xCur + (if 0.0 < half then delta else -delta)

end Search

/-- Asks for a value that must be a number. -/
def askNumber (x : α) (next : α → Inquiry α) : Inquiry α :=
  .ask x fun fx => if Scalar.isNaN fx then .refuse (.undefinedAt x) else next fx

/-- At most a number of further questions from a search state. -/
def inquiryFrom (tolerance : α) : Nat → Search α → Inquiry α
  | 0, s => .finish s.xCur false
  | n + 1, s =>
    let s := s.block.order
    let delta := s.delta tolerance
    let half := s.half
    if s.fCur == 0.0 || Scalar.abs half < delta then .finish s.xCur true
    else
      let s := s.chooseStep delta
      let x := s.target delta half
      askNumber x fun fx =>
        inquiryFrom tolerance n { s with xPre := s.xCur, fPre := s.fCur, xCur := x, fCur := fx }

/-- The steps that can be counted. -/
def stepLimit : Nat := 2147483647

/-- Asks at the two ends first, and searches between them if the signs differ. -/
def strategy : Strategy α := fun a b tolerance steps =>
  if tolerance ≤ 0.0 then .refuse (.toleranceTooSmall tolerance)
  else if stepLimit < steps then .refuse (.tooManySteps steps)
  else
    askNumber a fun fa => askNumber b fun fb =>
      if fa == 0.0 then .finish a true
      else if fb == 0.0 then .finish b true
      else if Scalar.signBit fa == Scalar.signBit fb then .refuse .sameSigns
      else inquiryFrom tolerance steps ⟨a, b, 0.0, fa, fb, 0.0, 0.0, 0.0⟩

end RootSearch.Brentq

import RootSearch.Refiner
/-!
# Finding a bracket

Two ways into a solve: from a guess and a step, growing a bracket until the objective changes sign,
or from a bracket that the caller supplies. Both hand the bracket to a refiner.
-/

namespace RootSearch.Search

open Solve

variable {α : Type} [Scalar α]

/-- The growth of a bracket in units of its width. -/
def growth : α := 1.6

/-- How a search ends: with an answer of its own, or with a bracket to refine. -/
inductive Outcome (α : Type) where
  | answered (result : Result α)
  | bracketed
deriving DecidableEq

/-! ## From a guess -/

/-- The side with the smaller value. A tie goes to either side in turn. -/
def side (b : Bracket α) (tieLow : Bool) : Side :=
  if Scalar.abs b.fMin < Scalar.abs b.fMax then .low
  else if Scalar.abs b.fMax < Scalar.abs b.fMin then .high
  else if tieLow then .tieLow
  else .tieHigh

/-- Where the low end moves to. -/
def lower (settings : Settings α) (b : Bracket α) : α :=
  settings.clamp (b.xMin + growth * (b.xMin - b.xMax))

/-- Where the high end moves to. -/
def higher (settings : Settings α) (b : Bracket α) : α :=
  settings.clamp (b.xMax + growth * (b.xMax - b.xMin))

/-- Moves the low end to `x` and samples there. -/
def sampleMin (f : Objective α) (x : α) : Solve α Unit := do
  setMin x (← sample f x)

def sampleMax (f : Objective α) (x : α) : Solve α Unit := do
  setMax x (← sample f x)

/-- Grows the bracket on a side. A low tie is charged twice. -/
def expand (f : Objective α) (settings : Settings α) (side : Side) : Solve α Unit := do
  let b ← bracket
  match side with
  | .low => sampleMin f (lower settings b)
  | .high | .tieHigh => sampleMax f (higher settings b)
  | .tieLow => do
    sampleMin f (lower settings b)
    charge 1
  log (.expanded side (← bracket))

/-- Whether the next tie goes low: ties alternate, whatever comes between them. -/
def nextTieLow (tieLow : Bool) : Side → Bool
  | .low | .high => tieLow
  | .tieLow => false
  | .tieHigh => true

/-- Stops at a sign change, at an end that is a root if there is one; otherwise expands. -/
def pass (f : Objective α) (settings : Settings α) (method : String) (tieLow : Bool) :
    Solve α (Pass Bool (Outcome α)) := do
  let b ← bracket
  if b.fMin * b.fMax ≤ 0.0 then
    if b.fMin == 0.0 then
      return .stop (.answered (← converged b.xMin method))
    else if b.fMax == 0.0 then
      return .stop (.answered (← converged b.xMax method))
    else do
      setRoot b.midpoint
      log (.bracketed (← get).evaluations b)
      return .stop .bracketed
  else do
    let side := side b tieLow
    expand f settings side
    return .again (nextTieLow tieLow side)

/-- The budget is spent before the sign changed. -/
def giveUp (limit : Nat) (method : String) : Solve α (Outcome α) := do
  let reason := .searchSpent limit (← bracket)
  log (.searchFailed reason)
  return .answered (← fail .bracketingFailed reason method)

/-- The first bracket about a guess where the objective is `fx`: downwards if that is positive, as it
would be for an increasing objective. -/
def openAround (f : Objective α) (settings : Settings α) (guess fx step : α) : Solve α Unit := do
  if 0.0 < fx then
    let x := settings.clamp (guess - step)
    let fLow ← sample f x
    setBracket ⟨x, guess, fLow, fx⟩
  else
    let x := settings.clamp (guess + step)
    let fHigh ← sample f x
    setBracket ⟨guess, x, fx, fHigh⟩

/-- Looks for a sign change about a guess. -/
def aroundGuess (f : Objective α) (settings : Settings α) (accuracy guess step : α)
    (method : String) : Solve α (Outcome α) := do
  setRoot guess
  let fx ← sample f guess
  if Scalar.abs fx ≤ accuracy then
    setBracket ⟨guess, guess, fx, fx⟩
    return .answered (← converged guess method)
  else do
    openAround f settings guess fx step
    whileBudget settings.maxEvaluations (pass f settings method)
      (giveUp settings.maxEvaluations method) true

/-! ## In a supplied bracket -/

/-- What is wrong with a supplied range or guess, the first of all. -/
def defect? (settings : Settings α) (guess xMin xMax : α) : Option (Status × Reason α) :=
  if ¬ xMin < xMax then some (.invalidRange, .invalidRange xMin xMax)
  else match settings.lowBound.filter (xMin < ·), settings.hiBound.filter (· < xMax) with
    | some low, _ => some (.boundViolation, .belowLowBound xMin low)
    | none, some hi => some (.boundViolation, .aboveHiBound xMax hi)
    | none, none =>
      if ¬ xMin < guess then some (.guessOutOfRange, .guessAtMost guess xMin)
      else if ¬ guess < xMax then some (.guessOutOfRange, .guessAtLeast guess xMax)
      else none

/-- Checks a supplied bracket, then samples its ends. -/
def supplied (f : Objective α) (settings : Settings α) (accuracy guess xMin xMax : α)
    (method : String) : Solve α (Outcome α) := do
  setRoot guess
  modify fun s => { s with bracket := { s.bracket with xMin, xMax } }
  match defect? settings guess xMin xMax with
  | some (status, reason) => return .answered (← fail status reason method)
  | none => do
    sampleMin f xMin
    if Scalar.abs (← bracket).fMin < accuracy then
      return .answered (← converged xMin method)
    else do
      sampleMax f xMax
      let b ← bracket
      if Scalar.abs b.fMax < accuracy then
        return .answered (← converged xMax method)
      else if b.fMin * b.fMax < 0.0 then
        return .bracketed
      else do
        log (.notBracketed (.notBracketed b))
        return .answered (← fail .rootNotBracketed (.notBracketed b) method)

end RootSearch.Search

/-! ## Solving -/

namespace RootSearch

open Solve

variable {α : Type} [Scalar α]

/-- Refines the bracket that a search found, to an accuracy of at least the spacing of doubles. -/
def Search.Outcome.refineBy (strategy : Brentq.Strategy α) (r : Refiner α) (f : Objective α)
    (limit : Nat) (accuracy : α) : Search.Outcome α → Solve α (Result α)
  | .answered result => return result
  | .bracketed => r.refineBy strategy f limit (Scalar.effectiveAccuracy accuracy)

/-- The two ways into a solve, with what the caller gives. -/
inductive Entry (α : Type) where
  | fromGuess (guess step : α)
  | inBracket (guess xMin xMax : α)

namespace Entry

/-- The search that the entry begins with. -/
def search (f : Objective α) (settings : Settings α) (accuracy : α) (method : String) :
    Entry α → Solve α (Search.Outcome α)
  | fromGuess guess step => Search.aroundGuess f settings accuracy guess step method
  | inBracket guess xMin xMax => Search.supplied f settings accuracy guess xMin xMax method

/-- A solve whose search by tolerance, if it has one, follows a strategy. -/
def solveBy (strategy : Brentq.Strategy α) (r : Refiner α) (f : Objective α) (settings : Settings α)
    (accuracy : α) (entry : Entry α) : Solve α (Result α) := do
  let outcome ← entry.search f settings accuracy r.name
  outcome.refineBy strategy r f settings.maxEvaluations accuracy

def solve (r : Refiner α) (f : Objective α) (settings : Settings α) (accuracy : α) (entry : Entry α) :
    Solve α (Result α) :=
  entry.solveBy Brentq.strategy r f settings accuracy

end Entry

/-- A root of `f` from a guess. The bracket grows from the guess and a step away from it; sampled
points are kept within the enforced bounds. -/
def solveFromGuess (r : Refiner α) (f : Objective α) (settings : Settings α)
    (accuracy guess step : α) : Solve α (Result α) :=
  (Entry.fromGuess guess step).solve r f settings accuracy

/-- A root of `f` within a bracket. The range, the bounds and the guess are checked before the first
evaluation. -/
def solveInBracket (r : Refiner α) (f : Objective α) (settings : Settings α)
    (accuracy guess xMin xMax : α) : Solve α (Result α) :=
  (Entry.inBracket guess xMin xMax).solve r f settings accuracy

end RootSearch

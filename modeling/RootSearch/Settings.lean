import RootSearch.Fault
/-!
# Settings

The evaluation budget and the bounds that sampled points are kept within.
-/

namespace RootSearch

/-- A missing bound is not enforced. -/
structure Settings (α : Type) where
  maxEvaluations : Nat := 100
  lowBound : Option α := none
  hiBound : Option α := none
deriving DecidableEq

namespace Settings

variable {α : Type} [Scalar α]

/-- Settings with a budget of at least one and bounds in order. -/
def make (maxEvaluations : Int) (lowBound hiBound : Option α) : Except (Fault α) (Settings α) :=
  if maxEvaluations < 1 then .error (.budget maxEvaluations)
  else
    let settings : Settings α := ⟨maxEvaluations.toNat, lowBound, hiBound⟩
    match lowBound, hiBound with
    | some low, some hi => if hi < low then .error (.crossedBounds low hi) else .ok settings
    | _, _ => .ok settings

def belowLow (s : Settings α) (x : α) : Bool := s.lowBound.any fun low => x < low

def aboveHi (s : Settings α) (x : α) : Bool := s.hiBound.any fun hi => hi < x

/-- Moves `x` to the bound that it violates, the lower one first. -/
def clamp (s : Settings α) (x : α) : α :=
  match s.lowBound, s.hiBound with
  | some low, hi =>
    if x < low then low else match hi with
      | some hi => if hi < x then hi else x
      | none => x
  | none, some hi => if hi < x then hi else x
  | none, none => x

end Settings

end RootSearch

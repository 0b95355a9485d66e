import RootSearch.Bracket
/-!
# Results of a solve

A solve ends with a root or with a described failure. A `Reason` holds the numbers that a failure
is described by; its wording is in `RootSearch.Report`.
-/

namespace RootSearch

inductive Status where
  | converged
  | invalidRange
  | boundViolation
  | guessOutOfRange
  | rootNotBracketed
  | bracketingFailed
  | maxEvaluationsExceeded
  | diverged
  | accuracyNotReached
deriving DecidableEq, Repr

namespace Status

def name : Status → String
  | converged => "converged"
  | invalidRange => "invalid_range"
  | boundViolation => "bound_violation"
  | guessOutOfRange => "guess_out_of_range"
  | rootNotBracketed => "root_not_bracketed"
  | bracketingFailed => "bracketing_failed"
  | maxEvaluationsExceeded => "max_evaluations_exceeded"
  | diverged => "diverged"
  | accuracyNotReached => "accuracy_not_reached"

def all : List Status :=
  [converged, invalidRange, boundViolation, guessOutOfRange, rootNotBracketed, bracketingFailed,
    maxEvaluationsExceeded, diverged, accuracyNotReached]

def ofName? (name : String) : Option Status := all.find? (·.name == name)

end Status

/-- Why a solve ended as it did. -/
inductive Reason (α : Type) where
  /-- Nothing to explain: a root was found. -/
  | none
  | text (message : String)
  | invalidRange (xMin xMax : α)
  | belowLowBound (xMin low : α)
  | aboveHiBound (xMax hi : α)
  | guessAtMost (guess xMin : α)
  | guessAtLeast (guess xMax : α)
  | notBracketed (bracket : Bracket α)
  | searchSpent (limit : Nat) (bracket : Bracket α)
  | refinementSpent (method : String) (limit : Nat) (bracket : Bracket α) (root : α)
  | collapsed (method : String) (accuracy : α) (bracket : Bracket α) (x fx : α)
  | flatSecant (method : String) (previous x fx : α)
  | zeroSlope (method : String) (x fx : α)
  | leftRange (method : String) (x : α) (bracket : Bracket α)
deriving DecidableEq

structure Result (α : Type) where
  status : Status
  root : Option α := Option.none
  evaluations : Int
  method : String
  reason : Reason α := Reason.none
  /-- The last bracket, if there was one. -/
  bracket : Option (Bracket α) := Option.none
deriving DecidableEq

/-- Whether a root was found. -/
def Result.ok {α : Type} (r : Result α) : Bool := r.status = .converged

end RootSearch

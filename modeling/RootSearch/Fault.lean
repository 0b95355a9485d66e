import RootSearch.Method
import RootSearch.Result
import RootSearch.Strip
/-!
# Faults

Causes for which a computation has no answer at all, as against a solve that ends with a failure
`Result`. Division by zero and the square root of a negative number are faults where they are
checked. The wording is in `RootSearch.Report`.
-/

namespace RootSearch

inductive Fault (α : Type) where
  | divisionByZero
  /-- A function has no value at its argument. -/
  | outOfDomain
  /-- A function's value is too large. -/
  | outOfRange
  /-- The objective failed in its own words. -/
  | raised (text : String)
  /-- A vector where one number is needed. -/
  | notScalar
  /-- Two vectors whose lengths do not fit. -/
  | shapes (left right : Nat)
  | noSlope (method : Method)
  | toleranceTooSmall (tolerance : α)
  /-- A search was allowed more steps than can be counted. -/
  | tooManySteps (steps : Nat)
  /-- The objective is not a number at a point. -/
  | undefinedAt (x : α)
  | sameSigns
  /-- A root was demanded of a solve that failed. -/
  | unsolved (result : Result α)
  | budget (maxEvaluations : Int)
  | crossedBounds (low hi : α)
  | unknownMethod (name : String)
  | unknownStatus (name : String)
  | negativeVol (vol : Strip α)
  | negativeExpiry (expiry : Strip α)
  | nonPositiveForward (forward : Strip α)
  | nonPositiveStrike (strike : Strip α)
  | unevenLengths (lengths : List (String × Nat))
  | missingColumns (names : List String)
  | missingNumber
  /-- A text that is no number. -/
  | unreadable (text : String)
  | unevenFlows (amounts times : Nat)
  | frequency (frequency : Int)
  /-- An integer beyond all numbers. -/
  | unrepresentable
  /-- The flows and the price cannot balance at any rate. -/
  | noSignChange
  | unknownCompounding (name : String)
  /-- Nested lists of differing lengths, with the shape that they share. -/
  | ragged (shape : List Nat)
  /-- Lists nested more deeply than an array has dimensions. -/
  | tooDeep (limit : Nat)
deriving DecidableEq

/-- The root of a converged result; any other result is a fault. -/
def Result.unwrap {α : Type} (r : Result α) : Except (Fault α) (Option α) :=
  if r.ok then .ok r.root else .error (.unsolved r)

namespace Scalar

variable {α : Type} [Scalar α]

/-- Division that refuses a zero divisor. -/
def quotient (x y : α) : Except (Fault α) α :=
  if y == 0.0 then .error .divisionByZero else .ok (x / y)

/-- The square root of a number that is not negative. -/
def root (x : α) : Except (Fault α) α :=
  if x < 0.0 then .error .outOfDomain else .ok (sqrt x)

end Scalar

namespace Strip

variable {α β γ δ : Type}

/-- The value of a strip that is not a vector. -/
def scalar : Strip β → Except (Fault α) β
  | one x => .ok x
  | many _ => .error .notScalar

/-- Combines two strips entry by entry. -/
def zipWith (f : β → γ → δ) (s : Strip β) (t : Strip γ) : Except (Fault α) (Strip δ) :=
  (s.zip f t).mapError fun (m, n) => .shapes m n

end Strip

end RootSearch

/-!
# Numbers the methods compute with

Every algorithm of the library is written once over a `Scalar`. Over `Float` it is the program that
runs; over an exact field the same text is the mathematical method. Arithmetic is total here, as it
is for doubles; `Fault` adds the checked operations.
-/

namespace RootSearch

/-- An ordered type of numbers with the operations that the methods use. `infinity?` is a point at
infinite distance from every finite one, for the types that have such a point. -/
class Scalar (α : Type) extends Add α, Sub α, Mul α, Div α, Neg α, LT α, LE α, BEq α,
    OfScientific α where
  decidableLT : DecidableLT α
  decidableLE : DecidableLE α
  abs : α → α
  sqrt : α → α
  /-- The first number with the sign of the second. -/
  copySign : α → α → α
  /-- Below zero, or a zero that carries a minus sign. -/
  signBit : α → Bool
  /-- The number nearest to an integer, unless that is beyond all numbers of the type. -/
  ofInt? : Int → Option α
  /-- The spacing of doubles at one. -/
  epsilon : α
  infinity? : Option α

/-- Scalars with the functions that discounting and option prices need. -/
class AnalyticScalar (α : Type) extends Scalar α where
  exp : α → α
  log : α → α
  pow : α → α → α
  pi : α
  /-- The standard normal distribution function. -/
  normalCdf : α → α

namespace Scalar

variable {α : Type} [Scalar α]

instance (a b : α) : Decidable (a < b) := Scalar.decidableLT a b

instance (a b : α) : Decidable (a ≤ b) := Scalar.decidableLE a b

/-- Only a number that is not one differs from itself. -/
def isNaN (x : α) : Bool := !(x == x)

/-- The larger of two; the first unless the second is strictly above it. -/
def maxOf (a b : α) : α := if a < b then b else a

/-- The smaller of two; the first unless the second is strictly below it. -/
def minOf (a b : α) : α := if b < a then b else a

/-- The larger of two, or whichever of them is not a number. -/
def maxNaN (a b : α) : α := if isNaN a then a else if isNaN b then b else maxOf a b

/-- The smallest step near `x` that still moves an iterate. -/
def resolution (x : α) : α := 2.0 * epsilon * abs x + 0.5 * epsilon

/-- The accuracy a refinement works to: never below the spacing of doubles at one. -/
def effectiveAccuracy (accuracy : α) : α := maxOf (abs accuracy) epsilon

end Scalar

namespace AnalyticScalar

variable {α : Type} [AnalyticScalar α]

/-- The standard normal density, exp(-x²/2) / √(2π). -/
def normalPdf (x : α) : α := exp (-(x * x) / 2.0) / Scalar.sqrt (2.0 * pi)

end AnalyticScalar

end RootSearch

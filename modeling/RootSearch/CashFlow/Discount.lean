import RootSearch.CashFlow.Summation
import RootSearch.Objective
/-!
# Discounting cash flows

Flat-rate discount factors under three conventions, and the net present value of a list of flows.
Times are in years from settlement; a flow at a negative time has been paid and does not count.
-/

namespace RootSearch

inductive Compounding where
  /-- One over `1 + r t`. -/
  | simple
  /-- `1 + r / n` to the power `-n t`, for `n` periods a year. -/
  | compounded
  /-- `exp (-r t)`. -/
  | continuous
deriving DecidableEq

namespace Compounding

def name : Compounding → String
  | simple => "simple"
  | compounded => "compounded"
  | continuous => "continuous"

def ofName (α : Type) (name : String) : Except (Fault α) Compounding :=
  match [simple, compounded, continuous].find? (·.name == name) with
  | some c => .ok c
  | none => .error (.unknownCompounding name)

end Compounding

/-- How rates compound: the frequency is the number of periods a year. -/
structure Convention where
  compounding : Compounding := .compounded
  frequency : Int := 1

/-- An amount paid at a time. -/
structure Flow (α : Type) where
  amount : α
  time : α

section

open AnalyticScalar

variable {α : Type} [AnalyticScalar α]

/-- The flows that are still to be paid. -/
def Flow.live (amounts times : List α) : Except (Fault α) (List (Flow α)) :=
  if amounts.length = times.length then
    .ok ((List.zipWith Flow.mk amounts times).filter fun flow => 0.0 ≤ flow.time)
  else .error (.unevenFlows amounts.length times.length)

namespace Compounding

/-- The value today of one paid at a time. -/
def factor (c : Compounding) (periods rate time : α) : α :=
  match c with
  | .simple => 1.0 / (1.0 + rate * time)
  | .compounded => pow (1.0 + rate / periods) (-periods * time)
  | .continuous => exp (-rate * time)

/-- The derivative of `factor` in the rate. -/
def factorSlope (c : Compounding) (periods rate time : α) : α :=
  match c with
  | .simple =>
    let growth := 1.0 + rate * time
    (-time) / (growth * growth)
  | .compounded => -time * pow (1.0 + rate / periods) (-periods * time - 1.0)
  | .continuous => -time * exp (-rate * time)

end Compounding

namespace Convention

/-- The number of periods a year as a scalar; it is read for `compounded` only. -/
def periods (c : Convention) : Except (Fault α) α :=
  match c.compounding, Scalar.ofInt? c.frequency with
  | .compounded, some n => .ok n
  | .compounded, none => .error .unrepresentable
  | _, _ => .ok 1.0

/-- Periods must have a positive frequency. -/
def factors (c : Convention) (rate : α) (times : List α) : Except (Fault α) (List α) :=
  if c.compounding = .compounded ∧ c.frequency < 1 then .error (.frequency c.frequency)
  else do
    let n ← c.periods
    return times.map (c.compounding.factor n rate)

def factorSlopes (c : Convention) (rate : α) (times : List α) : Except (Fault α) (List α) :=
  if c.compounding = .compounded ∧ c.frequency = 0 then .error .divisionByZero
  else do
    let n ← c.periods
    return times.map (c.compounding.factorSlope n rate)

end Convention

/-- The sum of the products of amounts and weights. -/
def weigh (flows : List (Flow α)) (weights : List α) : α :=
  sumPairwise (List.zipWith (fun flow weight => flow.amount * weight) flows weights)

/-- The value of live flows discounted at a flat rate. -/
def presentValue (c : Convention) (flows : List (Flow α)) (rate : α) : Except (Fault α) α := do
  return weigh flows (← c.factors rate (flows.map Flow.time))

def presentValueSlope (c : Convention) (flows : List (Flow α)) (rate : α) :
    Except (Fault α) α := do
  return weigh flows (← c.factorSlopes rate (flows.map Flow.time))

/-- The net present value of amounts paid at times. -/
def netPresentValue (c : Convention) (amounts times : List α) (rate : α) : Except (Fault α) α := do
  presentValue c (← Flow.live amounts times) rate

end

end RootSearch

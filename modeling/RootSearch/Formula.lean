import RootSearch.Double
import RootSearch.Objective
/-!
# Formulas

Expression trees in one variable, evaluated on doubles. Operands are evaluated from left to right,
and of a choice only the chosen branch is.
-/

namespace RootSearch

inductive Formula.Function where
  | neg | abs | sqrt | exp | log | sin | cos | tanh | atan
deriving DecidableEq

inductive Formula where
  | number (value : Double)
  | argument
  | add (a b : Formula)
  | sub (a b : Formula)
  | mul (a b : Formula)
  | div (a b : Formula)
  | apply (function : Formula.Function) (a : Formula)
  /-- The third tree if the first is below the second, else the fourth. -/
  | ifLess (a b yes no : Formula)
  | fail (text : String)
  /-- A polynomial, the constant coefficient first. -/
  | poly (coefficients : List Double)

namespace Formula

namespace Function

/-- The exponential of a finite number must be finite. -/
def exponential (x : Double) : Except (Fault Double) Double :=
  let y := AnalyticScalar.exp x
  if y.isInfinite && x.isFinite then .error .outOfRange else .ok y

def logarithm (x : Double) : Except (Fault Double) Double :=
  if x ≤ 0.0 then .error .outOfDomain else .ok (AnalyticScalar.log x)

/-- A function of an angle, which may not be infinite. -/
def ofAngle (f : Float → Float) (x : Double) : Except (Fault Double) Double :=
  if x.isInfinite then .error .outOfDomain else .ok (x.map f)

def eval (function : Function) (x : Double) : Except (Fault Double) Double :=
  match function with
  | neg => .ok (-x)
  | abs => .ok x.abs
  | sqrt => Scalar.root x
  | exp => exponential x
  | log => logarithm x
  | sin => ofAngle Float.sin x
  | cos => ofAngle Float.cos x
  | tanh => .ok (x.map Float.tanh)
  | atan => .ok (x.map Float.atan)

end Function

def eval (x : Double) : Formula → Except (Fault Double) Double
  | number value => .ok value
  | argument => .ok x
  | add a b => do return (← a.eval x) + (← b.eval x)
  | sub a b => do return (← a.eval x) - (← b.eval x)
  | mul a b => do return (← a.eval x) * (← b.eval x)
  | div a b => do
    let n ← a.eval x
    let d ← b.eval x
    Scalar.quotient n d
  | apply function a => do function.eval (← a.eval x)
  | ifLess a b yes no => do
    let l ← a.eval x
    let r ← b.eval x
    if l < r then yes.eval x else no.eval x
  | fail text => .error (.raised text)
  | poly coefficients => .ok (coefficients.foldr (fun c acc => acc * x + c) 0.0)

/-- The objective of a formula, with another for its derivative. -/
def objective (f : Formula) (slope : Option Formula := none) : Objective Double where
  value x := f.eval x
  slope := slope.map fun g x => g.eval x

end Formula

end RootSearch

import RootSearch.Decimal.Aligned
import RootSearch.Double
import RootSearch.Solver
import RootSearch.Text.Quoted
/-!
# Reports

The wording of reasons, faults, events and configurations over the doubles. Points and values are
given to twelve digits; what must be reproducible is given exactly.
-/

namespace RootSearch

namespace Report

/-- A number to twelve digits. -/
def brief (x : Double) : String := (Style.significant 12).write x.value

/-- A number that reads back as the same double. -/
def exact (x : Double) : String := Style.exact.write x.value

def optional : Option Double → String
  | some x => exact x
  | none => "None"

def strip : Strip Double → String
  | .one x => exact x
  | .many xs => Decimal.aligned (xs.map Double.value)

/-- Items between commas. -/
def joined (items : List String) : String := String.intercalate ", " items

/-- A shape in round brackets; a single length has a comma after it. -/
def shape : List Nat → String
  | [n] => s!"({n},)"
  | ns => "(" ++ joined (ns.map toString) ++ ")"

def interval (low hi : String) : String := "[" ++ low ++ "," ++ hi ++ "]"

/-- A bracket and the values at its ends, each written by a style of its own. -/
def bracketIn (points values : Style) (b : Bracket Double) : String :=
  "f" ++ interval (points.write b.xMin.value) (points.write b.xMax.value) ++ " -> " ++
    interval (values.write b.fMin.value) (values.write b.fMax.value)

def bracket : Bracket Double → String := bracketIn (.significant 12) (.significant 12)

def settings (s : Settings Double) : String :=
  s!"SolverSettings(max_evaluations={s.maxEvaluations}, low_bound=" ++ optional s.lowBound ++
    ", hi_bound=" ++ optional s.hiBound ++ ")"

def solver (s : Solver Double) : String :=
  "Solver1D(" ++ s.refiner.name ++ ", " ++ settings s.settings ++ ")"

end Report

open Report

def Reason.message : Reason Double → String
  | none => ""
  | text message => message
  | invalidRange xMin xMax =>
    "invalid range: xMin (" ++ brief xMin ++ ") >= xMax (" ++ brief xMax ++ ")"
  | belowLowBound xMin low =>
    "xMin (" ++ brief xMin ++ ") < enforced low bound (" ++ brief low ++ ")"
  | aboveHiBound xMax hi =>
    "xMax (" ++ brief xMax ++ ") > enforced hi bound (" ++ brief hi ++ ")"
  | guessAtMost guess xMin => "guess (" ++ brief guess ++ ") <= xMin (" ++ brief xMin ++ ")"
  | guessAtLeast guess xMax => "guess (" ++ brief guess ++ ") >= xMax (" ++ brief xMax ++ ")"
  | notBracketed b =>
    "root not bracketed: " ++ bracketIn (.significant 12) (.significant 20) b
  | searchSpent limit b =>
    s!"unable to bracket root in {limit} function evaluations (last bracket attempt: " ++
      bracket b ++ ")"
  | refinementSpent method limit b root =>
    s!"{method}: maximum number of function evaluations ({limit}) exceeded (last bracket: " ++
      bracket b ++ ", last root estimate " ++ brief root ++ ")"
  | collapsed method accuracy b x fx =>
    method ++ ": accuracy " ++ (Style.significant 6).write accuracy.value ++
      " cannot be reached, bracket collapsed to " ++ bracket b ++ " with f(" ++
      (Style.significant 17).write x.value ++ ") = " ++ brief fx
  | flatSecant method previous x fx =>
    method ++ ": flat secant between x=" ++ brief previous ++ " and x=" ++ brief x ++ " (f=" ++
      brief fx ++ ")"
  | zeroSlope method x fx => method ++ ": zero derivative at x=" ++ brief x ++ ", f(x)=" ++ brief fx
  | leftRange method x b =>
    method ++ ": root jumped out of range: x=" ++ brief x ++ " outside " ++
      interval (brief b.xMin) (brief b.xMax)

def Fault.message : Fault Double → String
  | divisionByZero => "float division by zero"
  | outOfDomain => "math domain error"
  | outOfRange => "math range error"
  | raised text => text
  | notScalar => "only 0-dimensional arrays can be converted to Python scalars"
  | shapes m n => "operands could not be broadcast together with shapes " ++ shape [m] ++ " " ++
      shape [n] ++ " "
  | noSlope method => method.name ++ " needs a derivative: pass one to the solver or give the " ++
      "objective a derivative(x) method"
  | toleranceTooSmall tolerance =>
    "xtol too small (" ++ (Style.significant 6).write tolerance.value ++ " <= 0)"
  | tooManySteps _ => "Unable to parse arguments"
  | undefinedAt x =>
    "The function value at x=" ++ exact x ++ " is NaN; solver cannot continue."
  | sameSigns => "f(a) and f(b) must have different signs"
  | unsolved result => result.reason.message
  | budget n => s!"max_evaluations must be at least 1, got {n}"
  | crossedBounds low hi => "Enforced low bound (" ++ exact low ++ ") is above enforced hi bound (" ++
      exact hi ++ ")"
  | unknownMethod name => s!"Unknown solver method '{name}'. Available: " ++ joined Method.names
  | unknownStatus name => Text.quoted name ++ " is not a valid SolverStatus"
  | negativeVol vol => "Volatility must be non-negative, got " ++ strip vol
  | negativeExpiry expiry => "Expiry must be non-negative, got " ++ strip expiry
  | nonPositiveForward forward => "Forward must be positive, got " ++ strip forward
  | nonPositiveStrike strike => "Strike must be positive, got " ++ strip strike
  | unevenLengths lengths =>
    "Inconsistent vector lengths in PricingContext. All arrays must have the same length. Found: " ++
      joined (lengths.map fun (name, n) => s!"{name}={n}")
  | missingColumns names =>
    "Quotes are missing columns: [" ++ joined (names.map Text.quoted) ++ "]"
  | missingNumber => "float() argument must be a string or a real number, not 'NoneType'"
  | unreadable text => "could not convert string to float: " ++ Text.quoted text
  | unevenFlows m n => s!"amounts and times must have the same length, got {m} and {n}"
  | unrepresentable => "int too large to convert to float"
  | frequency n => s!"frequency must be at least 1, got {n}"
  | noSignChange =>
    "the given cash flows cannot result in the given market price due to their sign"
  | unknownCompounding name => Text.quoted name ++ " is not a valid Compounding"
  | ragged ns =>
    "setting an array element with a sequence. The requested array has an inhomogeneous shape after "
      ++ s!"{ns.length} dimensions. The detected shape was " ++ shape ns ++ " + inhomogeneous part."
  | tooDeep limit =>
    "setting an array element with a sequence. The requested array would exceed the maximum number "
      ++ s!"of dimension of {limit}."

def Event.message : Event Double → String
  | expanded _ b => "Expanded bracket: " ++ bracket b
  | bracketed n b => s!"Bracketed root after {n} evaluations: " ++ bracket b
  | searchFailed reason | notBracketed reason => reason.message
  | polishing x b =>
    "brentq stopped at x=" ++ exact x ++ " outside the accuracy, polishing " ++ bracket b
  | solvingYield flows method guess =>
    s!"Solving IRR for {flows} flows with {method}, guess=" ++ exact guess
  | noQuotes => "No quotes to solve"
  | zeroVol vol =>
    "Zero volatility in " ++ strip vol ++ "; price collapses to discounted intrinsic."
  | quotesFailed failed total =>
    s!"{failed} of {total} quotes did not produce an implied vol"

end RootSearch

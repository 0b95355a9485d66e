/-!
# Refinement methods
-/

namespace RootSearch

inductive Method where
  | bisection
  | brent
  | brentq
  | falsePosition
  | newton
  | safeNewton
  | ridder
  | secant
deriving DecidableEq, Repr

namespace Method

def name : Method → String
  | bisection => "bisection"
  | brent => "brent"
  | brentq => "brentq"
  | falsePosition => "false_position"
  | newton => "newton"
  | safeNewton => "newton_safe"
  | ridder => "ridder"
  | secant => "secant"

/-- All methods in the order of their names. -/
def all : List Method :=
  [bisection, brent, brentq, falsePosition, newton, safeNewton, ridder, secant]

def names : List String := all.map name

/-- The method of a name, whatever its case. The names are ASCII, and no other letter has one of
their letters as its small form. -/
def ofName? (name : String) : Option Method :=
  let key := name.toList.map Char.toLower
  all.find? fun m => m.name.toList == key

/-- Whether the method uses a derivative. -/
def usesSlope : Method → Bool
  | newton | safeNewton => true
  | _ => false

end Method

end RootSearch

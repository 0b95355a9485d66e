import RootSearch.Decimal.Shortest
/-!
# Written forms of doubles

A `Style` says how many digits are written and where positional notation gives way to an exponent.
The exponent has a sign and at least two digits.
-/

namespace RootSearch

/-- How many digits of a double are written. -/
inductive Digits where
  /-- As few as read back. -/
  | shortest
  /-- A number of significant digits, trailing zeros left out. -/
  | significant (digits : Nat)

/-- A written form. Positional notation is used for leading exponents from `-4` up to, but not
including, `positionalBelow`; `wholeSuffix` follows whole numbers in it. -/
structure Style where
  digits : Digits
  positionalBelow : Int
  wholeSuffix : String

namespace Style

/-- Every double can be recovered from its text, and no whole number looks like an integer. -/
def exact : Style := ⟨.shortest, 16, ".0"⟩

/-- At most `n` significant digits. -/
def significant (n : Nat) : Style := ⟨.significant n, n, ""⟩

end Style

namespace Decimal

def digitChars (d : Decimal) : List Char := Nat.toDigits 10 d.coefficient

def zeros (n : Nat) : List Char := List.replicate n '0'

/-- The digits before and after the point. -/
def split (d : Decimal) : List Char × List Char :=
  let ds := d.digitChars
  if 0 ≤ d.exponent then
    (ds ++ zeros d.exponent.toNat, [])
  else
    let places := d.exponent.natAbs
    let ds := zeros (places + 1 - ds.length) ++ ds
    (ds.take (ds.length - places), ds.drop (ds.length - places))

/-- The sign and at least two digits of an exponent. -/
def exponentText (e : Int) : String :=
  let ds := Nat.toDigits 10 e.natAbs
  (if e < 0 then "-" else "+") ++ String.ofList (zeros (2 - ds.length) ++ ds)

def positional (d : Decimal) (wholeSuffix : String) : String :=
  let (whole, places) := d.split
  String.ofList whole ++ (if places.isEmpty then wholeSuffix else "." ++ String.ofList places)

def scientific (d : Decimal) : String :=
  let point (ds : List Char) := if ds.isEmpty then [] else '.' :: ds
  String.ofList (d.digitChars.take 1 ++ point (d.digitChars.drop 1)) ++ "e" ++
    exponentText d.leading

end Decimal

namespace Style

def decimal (s : Style) (mantissa : Nat) (exponent : Int) : Decimal :=
  match s.digits with
  | .shortest => Decimal.shortest mantissa exponent
  | .significant n => (Decimal.toPrecision mantissa exponent n).trim

def unsigned (s : Style) (d : Decimal) : String :=
  if -4 ≤ d.leading ∧ d.leading < s.positionalBelow then d.positional s.wholeSuffix
  else d.scientific

def write (s : Style) (x : Float) : String :=
  match Binary.ofFloat x with
  | .nan => "nan"
  | .infinite negative => if negative then "-inf" else "inf"
  | .finite negative m e => (if negative then "-" else "") ++ s.unsigned (s.decimal m e)

end Style

end RootSearch

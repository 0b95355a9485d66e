import RootSearch.Decimal.Exact
import RootSearch.Text.Blank
/-!
# Reading numbers from text

An optional sign, then digits with an optional point and an optional exponent, or one of `inf`,
`infinity` and `nan` in any case. One underscore may stand between two digits, blanks around the
number do not count, and digits may be of any script.
-/

namespace RootSearch.Decimal

open Text

/-- Removes the underscores, each of which must stand between two digits. -/
def joinDigits? (previous : Option Char) : List Char → Option (List Char)
  | [] => some []
  | '_' :: rest =>
    if (previous.any Char.isDigit) && (rest.head?.any Char.isDigit) then joinDigits? (some '_') rest
    else none
  | c :: rest => (joinDigits? (some c) rest).map (c :: ·)

def digitsValue (ds : List Char) : Nat :=
  ds.foldl (fun n c => 10 * n + (c.toNat - '0'.toNat)) 0

/-- The sign, and what follows it. -/
def sign : List Char → Bool × List Char
  | '-' :: rest => (true, rest)
  | '+' :: rest => (false, rest)
  | cs => (false, cs)

/-- The exponent that ends a number. -/
def exponent? : List Char → Option Int
  | [] => some 0
  | c :: rest =>
    let (negative, ds) := sign rest
    if (c == 'e' || c == 'E') && !ds.isEmpty && ds.all Char.isDigit then
      some (if negative then -(digitsValue ds : Int) else digitsValue ds)
    else none

/-- An unsigned number in decimal notation. -/
def unsigned? (cs : List Char) : Option Decimal :=
  let whole := cs.takeWhile Char.isDigit
  let (places, rest) : List Char × List Char := match cs.dropWhile Char.isDigit with
    | '.' :: rest => (rest.takeWhile Char.isDigit, rest.dropWhile Char.isDigit)
    | rest => ([], rest)
  if whole.isEmpty && places.isEmpty then none
  else (exponent? rest).map fun e => ⟨digitsValue (whole ++ places), e - places.length⟩

/-- The nearest double. Beyond the range of doubles no power of ten is formed. -/
def nearest (d : Decimal) (negative : Bool) : Float :=
  if d.coefficient = 0 ∨ d.leading < -400 then toFloat ⟨0, 0⟩ negative
  else if 400 < d.leading then (if negative then -(1.0 / 0.0) else 1.0 / 0.0)
  else d.toFloat negative

/-- The plain form of a text: its digits as ASCII, without the blanks at both ends. -/
def plain (s : String) : List Char :=
  (strip s.toList).map fun c =>
    match digit? c with
    | some n => Char.ofNat ('0'.toNat + n)
    | none => c

/-- The double that a text stands for. -/
def read? (s : String) : Option Float := do
  let (negative, cs) := sign (plain s)
  let word := String.ofList (cs.map Char.toLower)
  if word = "inf" ∨ word = "infinity" then
    return if negative then -(1.0 / 0.0) else 1.0 / 0.0
  else if word = "nan" then
    return 0.0 / 0.0
  else
    return (← unsigned? (← joinDigits? none cs)).nearest negative

end RootSearch.Decimal

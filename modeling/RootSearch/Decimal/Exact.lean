/-!
# Doubles and decimals as exact numbers

A finite double is `± mantissa * 2 ^ exponent`; a `Decimal` is `coefficient * 10 ^ exponent`. Both
are handled with natural numbers only, so every rounding here is the rounding of the exact value.
-/

namespace RootSearch

/-- What the bits of a double stand for. -/
inductive Binary where
  | nan
  | infinite (negative : Bool)
  | finite (negative : Bool) (mantissa : Nat) (exponent : Int)
deriving DecidableEq

/-- An unsigned decimal number, `coefficient * 10 ^ exponent`. -/
structure Decimal where
  coefficient : Nat
  exponent : Int
deriving DecidableEq

namespace Binary

/-- The bit of weight `2 ^ 52` that a normal double does not store. -/
def implicitBit : Nat := Nat.pow 2 52

def ofBits (bits : Nat) : Binary :=
  let negative := decide (Nat.pow 2 63 ≤ bits)
  let biased : Nat := bits / implicitBit % 2048
  let fraction := bits % implicitBit
  if biased = 2047 then
    if fraction = 0 then .infinite negative else .nan
  else if biased = 0 then
    .finite negative fraction (-1074)
  else
    .finite negative (implicitBit + fraction) ((biased : Int) - 1075)

def ofFloat (x : Float) : Binary := ofBits x.toBits.toNat

end Binary

/-! ## Rounding quotients -/

/-- The natural number nearest to `n / d`, the even one of two equally near. -/
def roundDiv (n d : Nat) : Nat :=
  if d < 2 * (n % d) ∨ (2 * (n % d) = d ∧ n / d % 2 = 1) then n / d + 1 else n / d

/-- A positive power as a numerator, a negative one as a denominator. -/
def powerRatio (base : Nat) (exponent : Int) : Nat × Nat :=
  (Nat.pow base exponent.toNat, Nat.pow base (-exponent).toNat)

namespace Decimal

/-- The number of decimal digits of `n`; zero has one. -/
def digitCount (n : Nat) : Nat := (Nat.toDigits 10 n).length

/-- The exponent of the leading digit. -/
def leading (d : Decimal) : Int := d.exponent + (digitCount d.coefficient - 1 : Nat)

/-- `n / d` in units of `10 ^ exponent`, as a fraction. -/
def inUnits (n d : Nat) (exponent : Int) : Nat × Nat :=
  let (up, down) := powerRatio 10 exponent
  (n * down, d * up)

/-- The exponent of the leading digit of a positive fraction. -/
def leadingOf (n d : Nat) : Int :=
  let guess : Int := digitCount n - digitCount d
  let (a, b) := inUnits n d guess
  if b ≤ a then guess else guess - 1

/-- The multiple of `10 ^ exponent` nearest to `m * 2 ^ e`. -/
def roundTo (m : Nat) (e exponent : Int) : Decimal :=
  let (up, down) := powerRatio 2 e
  let (a, b) := inUnits (m * up) down exponent
  ⟨roundDiv a b, exponent⟩

/-- `m * 2 ^ e` to `digits` significant digits. -/
def toPrecision (m : Nat) (e : Int) (digits : Nat) : Decimal :=
  if m = 0 then ⟨0, 0⟩
  else
    let (up, down) := powerRatio 2 e
    roundTo m e (leadingOf (m * up) down - (digits - 1 : Nat))

/-- `m * 2 ^ e` to `places` digits after the point. -/
def toPlaces (m : Nat) (e : Int) (places : Nat) : Decimal := roundTo m e (-places)

/-- Drops trailing zeros of the coefficient, `fuel` at most. -/
def dropZeros : Nat → Decimal → Decimal
  | 0, d => d
  | fuel + 1, d =>
    if d.coefficient ≠ 0 ∧ d.coefficient % 10 = 0 then
      dropZeros fuel ⟨d.coefficient / 10, d.exponent + 1⟩
    else d

/-- The same number without trailing zeros; zero has exponent zero. -/
def trim (d : Decimal) : Decimal :=
  if d.coefficient = 0 then ⟨0, 0⟩ else dropZeros (digitCount d.coefficient) d

/-- The double nearest to the decimal, with the given sign. -/
def toFloat (d : Decimal) (negative : Bool) : Float :=
  let x := Float.ofScientific d.coefficient (d.exponent < 0) d.exponent.natAbs
  if negative then -x else x

end Decimal

end RootSearch

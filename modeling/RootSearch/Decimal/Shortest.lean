import RootSearch.Decimal.Exact
/-!
# The shortest decimal of a double

The fewest digits that read back as the same double, and of those decimals the nearest to it. The
candidates on each decimal grid are the two neighbours of the value; the test is exact.
-/

namespace RootSearch.Decimal

/-- Four times the half-way points below and above a double of mantissa `m` and exponent `e`. At a
power of two the gap below is half as wide, except among the smallest doubles. -/
def halfwayPoints (m : Nat) (e : Int) : Nat × Nat :=
  (if m = Binary.implicitBit ∧ -1074 < e then 4 * m - 1 else 4 * m - 2, 4 * m + 2)

/-- Whether the decimal rounds to the double; the half-way points go to even mantissas. -/
def readsBack (m : Nat) (e : Int) (d : Decimal) : Bool :=
  let (twoUp, twoDown) := powerRatio 2 (e - 2)
  let (tenUp, tenDown) := powerRatio 10 d.exponent
  let candidate := d.coefficient * tenUp * twoDown
  let (low, high) := halfwayPoints m e
  let low := low * twoUp * tenDown
  let high := high * twoUp * tenDown
  if m % 2 = 0 then low ≤ candidate && candidate ≤ high else low < candidate && candidate < high

/-- The neighbours of `m * 2 ^ e` on the grid of `digits` digits, the nearer one first. -/
def neighbours (m : Nat) (e : Int) (digits : Nat) : List Decimal :=
  let (up, down) := powerRatio 2 e
  let exponent := leadingOf (m * up) down - (digits - 1 : Nat)
  let (a, b) := inUnits (m * up) down exponent
  let near := roundDiv a b
  let far := if near = a / b then near + 1 else near - 1
  [⟨near, exponent⟩, ⟨far, exponent⟩]

/-- The first decimal that reads back, from `digits` digits on; seventeen always suffice. -/
def shortestFrom (m : Nat) (e : Int) (digits : Nat) : Nat → Decimal
  | 0 => toPrecision m e 17
  | fuel + 1 =>
    match (neighbours m e digits).find? (readsBack m e) with
    | some d => d
    | none => shortestFrom m e (digits + 1) fuel

/-- The shortest decimal that reads back as `m * 2 ^ e`. -/
def shortest (m : Nat) (e : Int) : Decimal :=
  if m = 0 then ⟨0, 0⟩ else (shortestFrom m e 1 17).trim

end RootSearch.Decimal

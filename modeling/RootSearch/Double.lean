import RootSearch.Normal
import RootSearch.Scalar
/-!
# Doubles

The arithmetic is the machine's. What is not a number has a sign too, which shows only when it is
copied: the operations that such a value goes through keep its sign, and an invalid operation sets
it. `Float` has one such value only, so the sign is kept beside it.
-/

namespace RootSearch

/-- A number has its sign in its value; only what is not a number has one beside it. -/
class Double.SignBeside (value : Float) (sign : Bool) : Prop where
  isNaN : sign = true → value.isNaN = true

instance (x : Float) : Double.SignBeside x false := ⟨nofun⟩

instance (x : Float) (sign : Bool) : Double.SignBeside x (x.isNaN && sign) :=
  ⟨fun h => (Bool.and_eq_true_iff.1 h).1⟩

structure Double where
  value : Float
  /-- The sign of what is not a number; false for numbers. -/
  nanSign : Bool := false
  [signBeside : Double.SignBeside value nanSign]
deriving DecidableEq

namespace Double

def isNaN (x : Double) : Bool := x.value.isNaN

def isFinite (x : Double) : Bool := x.value.isFinite

def isInfinite (x : Double) : Bool := x.value.isInf

/-- The outcome of an operation on one double. -/
def map (op : Float → Float) (x : Double) : Double :=
  let z := op x.value
  ⟨z, z.isNaN && (!x.isNaN || x.nanSign)⟩

/-- The outcome of an operation on two doubles; the first that is not a number gives its sign. -/
def combine (op : Float → Float → Float) (x y : Double) : Double :=
  let z := op x.value y.value
  ⟨z, z.isNaN && (if x.isNaN then x.nanSign else !y.isNaN || y.nanSign)⟩

/-- The other sign, also of what is not a number. -/
def neg (x : Double) : Double :=
  let z := -x.value
  ⟨z, z.isNaN && !x.nanSign⟩

def abs (x : Double) : Double := ⟨x.value.abs, false⟩

/-- Whether there is a minus sign. -/
def signBit (x : Double) : Bool := if x.isNaN then x.nanSign else x.value.toBits >>> 63 == 1

def copySign (magnitude sign : Double) : Double :=
  if signBit sign then magnitude.abs.neg else magnitude.abs

/-! ## Instances -/

instance : Scalar Double where
  add := combine (· + ·)
  sub := combine (· - ·)
  mul := combine (· * ·)
  div := combine (· / ·)
  neg := neg
  lt x y := x.value < y.value
  le x y := x.value ≤ y.value
  beq x y := x.value == y.value
  ofScientific m negative e := ⟨OfScientific.ofScientific m negative e, false⟩
  decidableLT x y := Float.decLt x.value y.value
  decidableLE x y := Float.decLe x.value y.value
  abs := abs
  sqrt := map Float.sqrt
  copySign := copySign
  signBit := signBit
  ofInt? n := let x := Float.ofInt n; if x.isFinite then some ⟨x, false⟩ else none
  epsilon := ⟨2.220446049250313e-16, false⟩
  infinity? := some ⟨1.0 / 0.0, false⟩

instance : AnalyticScalar Double where
  exp := map Float.exp
  log := map Float.log
  pow := combine Float.pow
  pi := ⟨3.14159265358979323846, false⟩
  normalCdf := map Normal.cdf

end Double

end RootSearch

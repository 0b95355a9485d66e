import RootSearch.Solve
/-!
# Pricing contexts

The terms of European options on a forward, with the market they are priced in. Each term is one
value or a vector with an entry for every option of a strip.
-/

namespace RootSearch

structure Context (α : Type) where
  forward : Strip α
  strike : Strip α
  /-- Time to expiry in years. -/
  expiry : Strip α
  sigma : Strip α
  rate : Strip α
  /-- False for puts. -/
  isCall : Strip Bool := .one true
  /-- The notional, which prices per unit do not use. -/
  quantity : Strip α

namespace Context

variable {α : Type} [Scalar α]

/-- The lengths of the terms that are vectors. -/
def lengths (c : Context α) : List (String × Nat) :=
  [("contract.strike", c.strike.length?), ("contract.expiry", c.expiry.length?),
    ("contract.is_call", c.isCall.length?), ("contract.quantity", c.quantity.length?),
    ("forward.F", c.forward.length?), ("vol.sigma", c.sigma.length?),
    ("df.r", c.rate.length?)].filterMap fun (name, length) => length.map (name, ·)

/-- Whether all vectors have one length. -/
def isEven (c : Context α) : Bool :=
  match c.lengths with
  | [] => true
  | (_, n) :: rest => rest.all fun (_, m) => m == n

/-- Expiries must not be negative, forwards and strikes must be positive, and all vectors must have
one length. -/
def checkTerms (c : Context α) : Except (Fault α) Unit :=
  if c.expiry.any (· < 0.0) then .error (.negativeExpiry c.expiry)
  else if c.forward.any (· ≤ 0.0) then .error (.nonPositiveForward c.forward)
  else if c.strike.any (· ≤ 0.0) then .error (.nonPositiveStrike c.strike)
  else if !c.isEven then .error (.unevenLengths c.lengths)
  else .ok ()

/-- Volatilities must not be negative. -/
def checkVol (sigma : Strip α) : Except (Fault α) Unit :=
  if sigma.any (· < 0.0) then .error (.negativeVol sigma) else .ok ()

/-- Whether an option can be priced in the context. -/
def check (c : Context α) : Except (Fault α) Unit := do
  checkVol c.sigma
  c.checkTerms

/-- Checks volatilities, and reports it if one of them is zero. -/
def acceptVol (sigma : Strip α) : Solve α Unit := do
  Solve.attempt (checkVol sigma)
  if sigma.any (· == 0.0) then Solve.log (.zeroVol sigma)

/-- Checks a context as `check` does, and reports volatilities of zero. -/
def accept (c : Context α) : Solve α Unit := do
  acceptVol c.sigma
  Solve.attempt c.checkTerms

end Context

end RootSearch

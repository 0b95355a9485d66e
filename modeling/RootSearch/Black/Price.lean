import RootSearch.Black.Context
/-!
# Black's formula

Prices and vegas of European options on a forward, per unit of notional. Below a threshold of total
volatility the price is the discounted intrinsic value and the vega is zero.

All terms may be vectors, and the formula is evaluated entry by entry. If the forward and the
volatility are single values then the answer must be one too.
-/

namespace RootSearch

structure Pricer (α : Type) [Scalar α] where
  /-- The total volatility below which an option is worth its discounted intrinsic value. -/
  threshold : α := 1e-12

namespace Pricer

open AnalyticScalar

variable {α : Type} [AnalyticScalar α]

/-- One for calls, minus one for puts. -/
def omega (isCall : Strip Bool) : Strip α := isCall.map fun c => if c then 1.0 else -1.0

def discount (rate expiry : Strip α) : Except (Fault α) (Strip α) :=
  rate.zipWith (fun r t => exp (-r * t)) expiry

/-- The volatility over the whole life of the option. -/
def totalVol (sigma expiry : Strip α) : Except (Fault α) (Strip α) :=
  sigma.zipWith (fun s t => s * Scalar.sqrt t) expiry

/-- The total volatility, or one where it is below the threshold. -/
def safeVol (p : Pricer α) (total : Strip α) : Strip α :=
  total.map fun v => if v < p.threshold then 1.0 else v

def d1 (forward strike vol : Strip α) : Except (Fault α) (Strip α) := do
  let moneyness ← forward.zipWith (fun f k => log (f / k)) strike
  moneyness.zipWith (fun m v => (m + 0.5 * (v * v)) / v) vol

/-- The first strip where the total volatility is below the threshold, else the second. -/
def choose (p : Pricer α) (total below above : Strip α) : Except (Fault α) (Strip α) := do
  let both ← below.zipWith Prod.mk above
  total.zipWith (fun v (x, y) => if v < p.threshold then x else y) both

/-- The intrinsic value at expiry. -/
def intrinsic (forward strike omega : Strip α) : Except (Fault α) (Strip α) := do
  let payoff ← omega.zipWith (· * ·) (← forward.zipWith (· - ·) strike)
  return payoff.map (Scalar.maxNaN · 0.0)

/-- The price at a positive total volatility. -/
def smooth (forward strike vol discount omega : Strip α) : Except (Fault α) (Strip α) := do
  let d1 ← d1 forward strike vol
  let d2 ← d1.zipWith (· - ·) vol
  let weight ← discount.zipWith (· * ·) omega
  let up ← forward.zipWith (· * ·) ((← omega.zipWith (· * ·) d1).map normalCdf)
  let down ← strike.zipWith (· * ·) ((← omega.zipWith (· * ·) d2).map normalCdf)
  weight.zipWith (· * ·) (← up.zipWith (· - ·) down)

/-- A single value if the forward and the volatility are. -/
def asScalar (c : Context α) (sigma result : Strip α) : Except (Fault α) (Strip α) :=
  if c.forward.isScalar && sigma.isScalar then Strip.one <$> result.scalar else .ok result

/-- The price with `sigma` in place of the volatility of the context. -/
def priceWithVol (p : Pricer α) (c : Context α) (sigma : Strip α) :
    Except (Fault α) (Strip α) := do
  let discount ← discount c.rate c.expiry
  let omega := omega c.isCall
  let total ← totalVol sigma c.expiry
  let intrinsic ← intrinsic c.forward c.strike omega
  let below ← discount.zipWith (· * ·) intrinsic
  let above ← smooth c.forward c.strike (p.safeVol total) discount omega
  asScalar c sigma (← p.choose total below above)

/-- The derivative of the price in the volatility. -/
def vegaWithVol (p : Pricer α) (c : Context α) (sigma : Strip α) :
    Except (Fault α) (Strip α) := do
  let total ← totalVol sigma c.expiry
  let d1 ← d1 c.forward c.strike (p.safeVol total)
  let spot ← (← discount c.rate c.expiry).zipWith (· * ·) c.forward
  let slope ← spot.zipWith (fun s d => s * normalPdf d) d1
  let above ← slope.zipWith (fun s t => s * Scalar.sqrt t) c.expiry
  asScalar c sigma (← p.choose total (.one 0.0) above)

def price (p : Pricer α) (c : Context α) : Except (Fault α) (Strip α) := p.priceWithVol c c.sigma

def vega (p : Pricer α) (c : Context α) : Except (Fault α) (Strip α) := p.vegaWithVol c c.sigma

end Pricer

end RootSearch

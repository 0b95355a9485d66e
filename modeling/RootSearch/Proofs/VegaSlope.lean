import Mathlib
import RootSearch.Proofs.Entrywise
import RootSearch.Proofs.NormalLaw
/-!
# The slope of a price

Above the threshold of total volatility the price of an option is a smooth function of its volatility
and the vega is its derivative. The two densities that the chain rule brings in are equal up to the
quotient of forward and strike, so they cancel but for the total volatility's own slope. The vega is
positive, and a price belongs to one volatility at most.
-/

namespace RootSearch

namespace Terms

/-! ## The objective of an implied volatility -/

section Objective

variable {α : Type} [AnalyticScalar α] {w : Terms α} {p : Pricer α} {c : Context α}

theorem Of.value_objective (h : w.Of c) (target sigma : α) :
    (ImpliedVol.objective p c target).value sigma = .ok (w.price p sigma - target) := by
  simp only [ImpliedVol.objective, ImpliedVol.gap, h.priceWithVol]
  rfl

theorem Of.slope_objective (h : w.Of c) (target : α) :
    (ImpliedVol.objective p c target).slope = some fun sigma => .ok (w.vega p sigma) := by
  simp only [ImpliedVol.objective, h.vegaWithVol]
  rfl

end Objective

variable (w : Terms ℝ) {N : ℝ → ℝ} {vol sigma : ℝ}

/-! ## The argument of the distribution function -/

/-- How far the forward is above the strike, in units of the total volatility, and half of that. -/
noncomputable def argument (vol : ℝ) : ℝ := Real.log (w.forward / w.strike) * vol⁻¹ + vol / 2.0

theorem argument_eq (vol : ℝ) : w.argument vol = Real.log (w.forward / w.strike) * vol⁻¹ + vol / 2 := by
  have htwo : (2.0 : ℝ) = 2 := by norm_num
  rw [argument, htwo]

theorem hasDerivAt_argument (hvol : vol ≠ 0) :
    HasDerivAt w.argument (1 / 2 - Real.log (w.forward / w.strike) / vol ^ 2) vol := by
  rw [funext w.argument_eq]
  have hlog := (hasDerivAt_inv hvol).const_mul (Real.log (w.forward / w.strike))
  have hhalf := (hasDerivAt_id vol).div_const 2
  refine (hlog.add hhalf).congr_deriv ?_
  ring

/-- The densities at the two arguments differ by the quotient of forward and strike. -/
theorem forward_mul_density (hforward : 0 < w.forward) (hstrike : 0 < w.strike) (hvol : vol ≠ 0) :
    w.forward * density (w.argument vol) = w.strike * density (w.argument vol - vol) := by
  have hsquare : -(w.argument vol - vol) ^ 2 / 2 =
      -(w.argument vol) ^ 2 / 2 + Real.log (w.forward / w.strike) := by
    rw [argument_eq]
    field_simp
    ring
  have hquotient : Real.exp (Real.log (w.forward / w.strike)) = w.forward / w.strike :=
    Real.exp_log (div_pos hforward hstrike)
  rw [density_eq, density_eq, hsquare, Real.exp_add, hquotient]
  field_simp

/-! ## Prices at a total volatility -/

theorem omega_eq_or : w.omega = 1 ∨ w.omega = -1 := by
  unfold omega
  split
  · left
    norm_num
  · right
    norm_num

theorem density_omega_mul (x : ℝ) : density (w.omega * x) = density x := by
  rcases w.omega_eq_or with h | h
  · rw [h, one_mul]
  · rw [h, neg_one_mul, density_neg]

/-- The value today of one paid at expiry. -/
noncomputable def present : ℝ := Real.exp (-w.rate * w.expiry)

theorem d1_eq (N : ℝ → ℝ) (vol : ℝ) : @d1 ℝ (.withCdf N) w vol = w.argument vol := by
  have hhalf : (0.5 : ℝ) = 1 / 2 := by norm_num
  have hdiv : @d1 ℝ (.withCdf N) w vol =
      (Real.log (w.forward / w.strike) + 0.5 * (vol * vol)) / vol := rfl
  rw [hdiv, hhalf, div_eq_mul_inv, add_mul, mul_assoc, mul_self_mul_inv, argument_eq]
  ring

theorem smoothPrice_eq (N : ℝ → ℝ) (vol : ℝ) : @smoothPrice ℝ (.withCdf N) w vol =
    w.present * w.omega * (w.forward * N (w.omega * w.argument vol) -
      w.strike * N (w.omega * (w.argument vol - vol))) := by
  rw [← w.d1_eq N]
  rfl

theorem smoothVega_eq (N : ℝ → ℝ) (vol : ℝ) : @smoothVega ℝ (.withCdf N) w vol =
    w.present * (w.forward * density (w.argument vol)) * √w.expiry := by
  rw [← w.d1_eq N, ← normalPdf_eq N, ← mul_assoc]
  rfl

theorem hasDerivAt_smoothPrice (hN : ∀ x, HasDerivAt N (density x) x) (hforward : 0 < w.forward)
    (hstrike : 0 < w.strike) (hvol : vol ≠ 0) :
    HasDerivAt (@smoothPrice ℝ (.withCdf N) w) (w.present * (w.forward * density (w.argument vol)))
      vol := by
  let slope := 1 / 2 - Real.log (w.forward / w.strike) / vol ^ 2
  have hfirst : HasDerivAt (fun v => w.omega * w.argument v) (w.omega * slope) vol :=
    (w.hasDerivAt_argument hvol).const_mul w.omega
  have hsecond : HasDerivAt (fun v => w.omega * (w.argument v - v)) (w.omega * (slope - 1)) vol :=
    ((w.hasDerivAt_argument hvol).sub (hasDerivAt_id vol)).const_mul w.omega
  have hup := ((hN _).comp vol hfirst).const_mul w.forward
  have hdown := ((hN _).comp vol hsecond).const_mul w.strike
  rw [funext (w.smoothPrice_eq N)]
  refine ((hup.sub hdown).const_mul (w.present * w.omega)).congr_deriv ?_
  rw [density_omega_mul, density_omega_mul]
  have hsq : w.omega * w.omega = 1 := by
    rcases w.omega_eq_or with h | h <;> rw [h] <;> norm_num
  -- the slope of the argument drops out, and only the difference of the two arguments is left
  calc w.present * w.omega * (w.forward * (density (w.argument vol) * (w.omega * slope)) -
          w.strike * (density (w.argument vol - vol) * (w.omega * (slope - 1))))
      = w.present * (w.omega * w.omega) * (w.forward * density (w.argument vol) * slope -
          w.strike * density (w.argument vol - vol) * (slope - 1)) := by ring
    _ = w.present * (w.forward * density (w.argument vol)) := by
        rw [hsq, ← w.forward_mul_density hforward hstrike hvol]
        ring

/-! ## Prices at a volatility -/

/-- The volatilities above the threshold. -/
def smoothVols (p : Pricer ℝ) : Set ℝ := {sigma | p.threshold < w.totalVol sigma}

variable {p : Pricer ℝ}

theorem smoothVols_eq_Ioi (hexpiry : 0 < w.expiry) :
    w.smoothVols p = Set.Ioi (p.threshold / √w.expiry) := by
  ext sigma
  exact (div_lt_iff₀ (Real.sqrt_pos.2 hexpiry)).symm

theorem safeVol_of_smooth (h : sigma ∈ w.smoothVols p) : w.safeVol p sigma = w.totalVol sigma :=
  if_neg (not_lt_of_gt h)

theorem price_of_smooth (N : ℝ → ℝ) (h : sigma ∈ w.smoothVols p) :
    @price ℝ (.withCdf N) w p sigma = @smoothPrice ℝ (.withCdf N) w (w.totalVol sigma) := by
  unfold price
  rw [if_neg (not_lt_of_gt h), w.safeVol_of_smooth h]

theorem vega_of_smooth (N : ℝ → ℝ) (h : sigma ∈ w.smoothVols p) :
    @vega ℝ (.withCdf N) w p sigma = @smoothVega ℝ (.withCdf N) w (w.totalVol sigma) := by
  unfold vega
  rw [if_neg (not_lt_of_gt h), w.safeVol_of_smooth h]

section Slope

variable (hN : ∀ x, HasDerivAt N (density x) x) (hp : 0 < p.threshold)
variable (hforward : 0 < w.forward) (hstrike : 0 < w.strike) (hexpiry : 0 < w.expiry)

include hforward hexpiry in
theorem vega_pos (N : ℝ → ℝ) (h : sigma ∈ w.smoothVols p) : 0 < @vega ℝ (.withCdf N) w p sigma := by
  have hpresent : 0 < w.present := Real.exp_pos _
  have hdensity := density_pos (w.argument (w.totalVol sigma))
  have hroot : 0 < √w.expiry := Real.sqrt_pos.2 hexpiry
  rw [w.vega_of_smooth N h, smoothVega_eq]
  positivity

include hN hp hforward hstrike hexpiry

theorem hasDerivAt_price (h : sigma ∈ w.smoothVols p) :
    HasDerivAt (@price ℝ (.withCdf N) w p) (@vega ℝ (.withCdf N) w p sigma) sigma := by
  have hvol : 0 < w.totalVol sigma := hp.trans h
  have hsmooth := w.hasDerivAt_smoothPrice hN hforward hstrike hvol.ne'
  have htotal : HasDerivAt w.totalVol √w.expiry sigma :=
    ((hasDerivAt_id sigma).mul_const √w.expiry).congr_deriv (one_mul _)
  have hopen : IsOpen (w.smoothVols p) := by
    rw [w.smoothVols_eq_Ioi hexpiry]
    exact isOpen_Ioi
  rw [w.vega_of_smooth N h, smoothVega_eq]
  -- volatilities near by are above the threshold too
  refine (hsmooth.comp sigma htotal).congr_of_eventuallyEq ?_
  filter_upwards [hopen.mem_nhds h] with x hx
  exact w.price_of_smooth N hx

theorem strictMonoOn_price : StrictMonoOn (@price ℝ (.withCdf N) w p) (w.smoothVols p) := by
  have hslope {x : ℝ} (hx : x ∈ w.smoothVols p) := w.hasDerivAt_price hN hp hforward hstrike hexpiry hx
  have hconvex : Convex ℝ (w.smoothVols p) := by
    rw [w.smoothVols_eq_Ioi hexpiry]
    exact convex_Ioi _
  refine strictMonoOn_of_deriv_pos hconvex (fun x hx => ?_) fun x hx => ?_
  · exact (hslope hx).continuousAt.continuousWithinAt
  · have hmem := interior_subset hx
    rw [(hslope hmem).deriv]
    exact w.vega_pos hforward hexpiry N hmem

end Slope

end Terms

/-- The vega is the derivative of the price, for any function in the place of the normal distribution
function whose derivative is the normal density. The price of one option and its vega are functions of
the volatility; where the total volatility is above a positive threshold the one is the derivative of
the other and it is positive, so the price is strictly increasing there and a target is the price at one
such volatility at most. The objective of an implied volatility, the price less the target, has its own
slope as its derivative there. -/
theorem vega_is_slope_of_price (N : ℝ → ℝ)
    (hN : ∀ x, HasDerivAt N (Real.exp (-(x ^ 2) / 2) / √(2 * Real.pi)) x) (p : Pricer ℝ) (hp : 0 < p.threshold) (w : Terms ℝ) (c : Context ℝ) (hc : w.Of c)
    (hforward : 0 < w.forward) (hstrike : 0 < w.strike) (hexpiry : 0 < w.expiry) :
    letI := AnalyticScalar.withCdf N
    let above : Set ℝ := {sigma | p.threshold < sigma * √w.expiry}
    ∃ price vega : ℝ → ℝ,
      (∀ sigma, p.priceWithVol c (.one sigma) = .ok (.one (price sigma)) ∧
        p.vegaWithVol c (.one sigma) = .ok (.one (vega sigma))) ∧
      (∀ sigma ∈ above, HasDerivAt price (vega sigma) sigma ∧ 0 < vega sigma) ∧
      StrictMonoOn price above ∧ (∀ target, {sigma ∈ above | price sigma = target}.Subsingleton) ∧
      ∀ target, ∃ value slope : ℝ → ℝ,
        (∀ sigma, (ImpliedVol.objective p c target).value sigma = .ok (value sigma)) ∧
        (∃ g, (ImpliedVol.objective p c target).slope = some g ∧ ∀ sigma, g sigma = .ok (slope sigma)) ∧
        ∀ sigma ∈ above, HasDerivAt value (slope sigma) sigma := by
  let _ := AnalyticScalar.withCdf N
  intro above
  have hdensity (x : ℝ) : HasDerivAt N (density x) x := density_eq x ▸ hN x
  have hslope {sigma : ℝ} (h : sigma ∈ above) : HasDerivAt (w.price p) (w.vega p sigma) sigma :=
    w.hasDerivAt_price hdensity hp hforward hstrike hexpiry h
  have hmono : StrictMonoOn (w.price p) above := w.strictMonoOn_price hdensity hp hforward hstrike hexpiry
  refine ⟨w.price p, w.vega p, fun sigma => ⟨hc.priceWithVol, hc.vegaWithVol⟩,
    fun sigma h => ⟨hslope h, w.vega_pos hforward hexpiry N h⟩, hmono, ?_, fun target => ?_⟩
  · rintro target sigma ⟨h, hprice⟩ sigma' ⟨h', hprice'⟩
    exact hmono.injOn h h' (hprice.trans hprice'.symm)
  · exact ⟨fun sigma => w.price p sigma - target, w.vega p, hc.value_objective target,
      ⟨_, hc.slope_objective target, fun _ => rfl⟩, fun sigma h => (hslope h).sub_const target⟩

/-- A put under the normal distribution. -/
theorem vega_is_slope_of_put_price :
    let c : Context ℝ :=
      { forward := .one 100, strike := .one 110, expiry := .one 2, sigma := .one 0.2, rate := .one 0.05,
        isCall := .one false, quantity := .one 1 }
    let above : Set ℝ := {sigma | 1e-12 < sigma * √2}
    ∃ price vega : ℝ → ℝ,
      (∀ sigma, Pricer.priceWithVol {} c (.one sigma) = .ok (.one (price sigma)) ∧
        Pricer.vegaWithVol {} c (.one sigma) = .ok (.one (vega sigma))) ∧
      (∀ sigma ∈ above, HasDerivAt price (vega sigma) sigma ∧ 0 < vega sigma) ∧
      StrictMonoOn price above := by
  intro c above
  have hp : 0 < ({} : Pricer ℝ).threshold := by
    show (0 : ℝ) < 1e-12
    norm_num
  have hcdf (x : ℝ) := density_eq x ▸ hasDerivAt_normalCdf x
  obtain ⟨price, vega, hvalues, hslope, hmono, -⟩ :=
    vega_is_slope_of_price AnalyticScalar.normalCdf hcdf {} hp ⟨100, 110, 2, 0.05, false⟩ c
      ⟨rfl, rfl, rfl, rfl, rfl⟩ (by norm_num) (by norm_num) (by norm_num)
  exact ⟨price, vega, hvalues, hslope, hmono⟩

end RootSearch
